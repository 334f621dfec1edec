import Mathlib.Data.List.Basic
import Mathlib.Data.List.Induction
import Namescope.Project.Options
/-!
# The order of arguments

What a project command is told does not depend on the order of its arguments, with one exception: an entry file
that is given as a bare path must stand in front of one that is given by `--file`. In that order the path is
passed over, and in the other one it is refused.
-/
namespace Namescope

/-! ## Arguments as they are written -/

/-- An argument as it is written: an option, with a value if it takes one, or a bare path. The word for a colour
may be any, and may be a word of its own or joined to the option. -/
inductive WrittenArgument where
  | manifest (place : String)
  | file (place : String)
  | color (word : String) (joined : Bool)
  | annotate
  | clean
  | path (text : String) (h : looksLikeOption text = false)

namespace WrittenArgument

/-- The words of an argument. -/
def words : WrittenArgument → List String
  | manifest place => ["--manifest-path", place]
  | file place => ["--file", place]
  | color word false => ["--color", word]
  | color word true => ["--color=" ++ word]
  | annotate => ["--annotate"]
  | clean => ["--clean"]
  | path text _ => [text]

/-- What the words are read as. -/
def read : WrittenArgument → Except OptionIssue Argument
  | manifest place => .ok (.manifest place)
  | file place => .ok (.file place)
  | color word _ => Argument.ofColor word
  | annotate => .ok .annotate
  | clean => .ok .clean
  | path text _ => .ok (.path text)

/-- Whether two arguments are the same option, whatever its value. A bare path is none. -/
def SameOption : WrittenArgument → WrittenArgument → Prop
  | manifest _, manifest _ | file _, file _ | color _ _, color _ _ | annotate, annotate | clean, clean => True
  | _, _ => False

/-- Whether an argument is a bare path. -/
def IsPath : WrittenArgument → Prop
  | path _ _ => True
  | _ => False

/-- Whether an argument names the entry file. -/
def NamesEntry : WrittenArgument → Prop
  | file _ | path _ _ => True
  | _ => False

/-- Whether a task takes an argument by itself: a colour has to be one, and two options belong to one task
each. -/
def Fits (task : Task) : WrittenArgument → Prop
  | color word _ => (ColorChoice.ofWord? word).isSome
  | annotate => task = .unparse
  | clean => task = .build
  | manifest _ | file _ | path _ _ => True

/-- No option is given twice. -/
def OptionsOnce (ws : List WrittenArgument) : Prop := ws.Pairwise fun v w => ¬ v.SameOption w

/-- A bare path stands in front of everything else that names the entry file. -/
def PathFirst (ws : List WrittenArgument) : Prop := ws.Pairwise fun v w => ¬ (v.NamesEntry ∧ w.IsPath)

end WrittenArgument

/-- The options are what the arguments say, in whatever order they stand. A bare path is the entry file unless
`--file` gives one. -/
structure Options.Holds (o : Options) (ws : List WrittenArgument) : Prop where
  manifest : ∀ p, o.manifest = some p ↔ .manifest p ∈ ws
  entry : ∀ p, o.entry = some p ↔ .file p ∈ ws ∨ (∃ h, .path p h ∈ ws) ∧ ∀ f, .file f ∉ ws
  color : ∀ c, o.color = some c ↔ ∃ word joined, .color word joined ∈ ws ∧ ColorChoice.ofWord? word = some c
  annotate : o.annotate = true ↔ .annotate ∈ ws
  clean : o.clean = true ↔ .clean ∈ ws

/-! ## Reading words -/

namespace Argument

theorem ofWord_joined (word : String) : ofWord ("--color=" ++ word) = ofColor word := by
  have h : "--color=".toList.isPrefixOf? ("--color=" ++ word).toList = some word.toList := by
    rw [String.toList_append]
    simp [List.isPrefixOf?]
  rw [ofWord, h]
  simp

theorem pairing?_joined (word : String) : pairing? ("--color=" ++ word) = none := by
  unfold pairing?
  split
  · next h => simpa using congrArg String.toList h
  · next h => simpa using congrArg String.toList h
  · next h => simpa using congrArg String.toList h
  · rfl

theorem ofWord_path {text : String} (h : looksLikeOption text = false) : ofWord text = .ok (.path text) := by
  have hcolor : "--color=".toList.isPrefixOf? text.toList = none := by
    cases hrest : "--color=".toList.isPrefixOf? text.toList with
    | none => rfl
    | some rest =>
      have hdashes := List.append_eq_of_isPrefixOf?_eq_some hrest
      rw [looksLikeOption, ← hdashes] at h
      cases h
  have hannotate : text ≠ "--annotate" := by
    rintro rfl
    cases h
  have hclean : text ≠ "--clean" := by
    rintro rfl
    cases h
  rw [ofWord, hcolor]
  simp only [hannotate, hclean, h, if_false, Bool.false_eq_true]

theorem pairing?_path {text : String} (h : looksLikeOption text = false) : pairing? text = none := by
  unfold pairing?
  split
  · cases h
  · cases h
  · cases h
  · rfl

end Argument

namespace WrittenArgument

theorem optionsOnce_concat {ws : List WrittenArgument} {w : WrittenArgument} :
    OptionsOnce (ws ++ [w]) ↔ OptionsOnce ws ∧ ∀ v ∈ ws, ¬ v.SameOption w := by
  simp [OptionsOnce, List.pairwise_append]

theorem pathFirst_concat {ws : List WrittenArgument} {w : WrittenArgument} :
    PathFirst (ws ++ [w]) ↔ PathFirst ws ∧ (w.IsPath → ∀ v ∈ ws, ¬ v.NamesEntry) := by
  have hlast : (∀ v ∈ ws, ¬ (v.NamesEntry ∧ w.IsPath)) ↔ (w.IsPath → ∀ v ∈ ws, ¬ v.NamesEntry) :=
    ⟨fun h hpath v hv hnames => h v hv ⟨hnames, hpath⟩, fun h v hv hboth => h hboth.2 v hv hboth.1⟩
  simp [PathFirst, List.pairwise_append, ← hlast]

theorem split_append (w : WrittenArgument) (more : List String) :
    Argument.split (w.words ++ more) = w.read :: Argument.split more := by
  cases w with
  | manifest | file | annotate | clean => rfl
  | color word joined =>
    cases joined with
    | false => rfl
    | true =>
      rw [words, List.singleton_append, Argument.split, Argument.pairing?_joined, Argument.ofWord_joined]
      rfl
  | path text h =>
    rw [words, List.singleton_append, Argument.split, Argument.pairing?_path h, Argument.ofWord_path h]
    rfl

theorem split_flatMap_words (ws : List WrittenArgument) : Argument.split (ws.flatMap words) = ws.map read := by
  induction ws with
  | nil => rfl
  | cons w ws ih => rw [List.flatMap_cons, w.split_append, ih, List.map_cons]

end WrittenArgument

/-! ## One argument more -/

namespace Options
variable {task : Task} {isProject : String → Bool} {o o' : Options} {ws : List WrittenArgument} {w : WrittenArgument}

/-- What becomes of options when one more argument is read. -/
def takeWritten (task : Task) (isProject : String → Bool) (o : Options) (w : WrittenArgument) :
    Except OptionIssue Options :=
  w.read.bind (take task isProject o)

/-- Options with what an argument says in place of what they had for it. -/
def set (o : Options) : WrittenArgument → Options
  | .manifest place => { o with manifest := some place }
  | .file place => { o with entry := some place }
  | .color word _ => { o with color := ColorChoice.ofWord? word }
  | .annotate => { o with annotate := true }
  | .clean => { o with clean := true }
  | .path text _ => { o with entry := some text }

/-- An argument is taken if the task takes it and, for a bare path, no entry file is given yet. -/
theorem takeWritten_eq_ok_iff (hplain : ∀ text h, w = .path text h → isProject text = false) :
    takeWritten task isProject o w = .ok o' ↔
      w.Fits task ∧ (w.IsPath → o.entry = none) ∧ o' = o.set w := by
  cases w with
  | manifest place | file place =>
    simp [takeWritten, WrittenArgument.read, Except.bind, take, WrittenArgument.Fits, WrittenArgument.IsPath, set,
      eq_comm]
  | color word joined =>
    cases hword : ColorChoice.ofWord? word with
    | none =>
      simp [takeWritten, WrittenArgument.read, Argument.ofColor, hword, Except.bind, WrittenArgument.Fits]
    | some choice =>
      simp [takeWritten, WrittenArgument.read, Argument.ofColor, hword, Except.bind, take, WrittenArgument.Fits,
        WrittenArgument.IsPath, set, eq_comm]
  | annotate | clean =>
    simp only [takeWritten, WrittenArgument.read, Except.bind, take, WrittenArgument.Fits, WrittenArgument.IsPath, set]
    split
    · next htask => simp [htask, eq_comm]
    · next htask => simp [htask]
  | path text h =>
    have hproject : isProject text = false := hplain text h rfl
    cases hentry : o.entry with
    | none =>
      simp [takeWritten, WrittenArgument.read, Except.bind, take, hproject, hentry, WrittenArgument.Fits, set, eq_comm]
    | some place =>
      simp [takeWritten, WrittenArgument.read, Except.bind, take, hentry, WrittenArgument.IsPath]

theorem holds_nil : ({} : Options).Holds [] := by
  constructor <;> simp

namespace Holds

/-- There is one way to hold what arguments say. -/
theorem unique (h : o.Holds ws) (h' : o'.Holds ws) : o = o' := by
  obtain ⟨manifest, entry, color, annotate, clean⟩ := o
  obtain ⟨manifest', entry', color', annotate', clean'⟩ := o'
  have hmanifest : manifest = manifest' := Option.ext fun p => (h.manifest p).trans (h'.manifest p).symm
  have hentry : entry = entry' := Option.ext fun p => (h.entry p).trans (h'.entry p).symm
  have hcolor : color = color' := Option.ext fun c => (h.color c).trans (h'.color c).symm
  have hannotate : annotate = annotate' := Bool.eq_iff_iff.2 (h.annotate.trans h'.annotate.symm)
  have hclean : clean = clean' := Bool.eq_iff_iff.2 (h.clean.trans h'.clean.symm)
  rw [hmanifest, hentry, hcolor, hannotate, hclean]

/-- The order of the arguments is nothing that options hold. -/
theorem perm {vs : List WrittenArgument} (h : o.Holds vs) (hperm : vs.Perm ws) : o.Holds ws := by
  have hmem : ∀ w, w ∈ vs ↔ w ∈ ws := fun w => hperm.mem_iff
  obtain ⟨hmanifest, hentry, hcolor, hannotate, hclean⟩ := h
  simp only [hmem] at hmanifest hentry hcolor hannotate hclean
  exact ⟨hmanifest, hentry, hcolor, hannotate, hclean⟩

/-- No entry file is held exactly if no argument names one. -/
theorem entry_eq_none_iff (h : o.Holds ws) : o.entry = none ↔ ∀ v ∈ ws, ¬ v.NamesEntry := by
  constructor
  · intro hnone v hv hnames
    have hfile : ∀ f, .file f ∉ ws := by
      intro f hf
      have hsome := (h.entry f).2 (.inl hf)
      rw [hnone] at hsome
      cases hsome
    cases v with
    | file place => exact hfile place hv
    | path text htext =>
      have hsome := (h.entry text).2 (.inr ⟨⟨htext, hv⟩, hfile⟩)
      rw [hnone] at hsome
      cases hsome
    | manifest | color | annotate | clean => exact hnames
  · intro hnames
    cases hentry : o.entry with
    | none => rfl
    | some place =>
      obtain hfile | ⟨⟨htext, hpath⟩, -⟩ := (h.entry place).1 hentry
      · exact absurd trivial (hnames _ hfile)
      · exact absurd trivial (hnames _ hpath)

/-- What an argument says is held after it is taken, if it is a new option or the first path. -/
theorem set (h : o.Holds ws) (hnew : ∀ v ∈ ws, ¬ v.SameOption w) (hfirst : w.IsPath → ∀ v ∈ ws, ¬ v.NamesEntry) :
    (o.set w).Holds (ws ++ [w]) := by
  -- what the argument says nothing about is held as before
  have hmanifest : ∀ p, (∀ q, w ≠ .manifest q) → (o.manifest = some p ↔ .manifest p ∈ ws ++ [w]) := by
    intro p hw
    rw [h.manifest p, List.mem_append, List.mem_singleton, or_iff_left (hw p).symm]
  have hentry : ∀ p, ¬ w.NamesEntry → (o.entry = some p ↔
      .file p ∈ ws ++ [w] ∨ (∃ h, .path p h ∈ ws ++ [w]) ∧ ∀ f, .file f ∉ ws ++ [w]) := by
    intro p hw
    have hfile : ∀ f, .file f ≠ w := by rintro f rfl; exact hw trivial
    have hpath : ∀ t ht, .path t ht ≠ w := by rintro t ht rfl; exact hw trivial
    simp only [h.entry p, List.mem_append, List.mem_singleton, hfile, hpath, or_false]
  have hcolor : (∀ word joined, w ≠ .color word joined) → ∀ c, o.color = some c ↔
      ∃ word joined, .color word joined ∈ ws ++ [w] ∧ ColorChoice.ofWord? word = some c := by
    intro hw c
    simp only [h.color c, List.mem_append, List.mem_singleton, (hw _ _).symm, or_false]
  have hannotate : w ≠ .annotate → (o.annotate = true ↔ .annotate ∈ ws ++ [w]) := by
    intro hw
    rw [h.annotate, List.mem_append, List.mem_singleton, or_iff_left hw.symm]
  have hclean : w ≠ .clean → (o.clean = true ↔ .clean ∈ ws ++ [w]) := by
    intro hw
    rw [h.clean, List.mem_append, List.mem_singleton, or_iff_left hw.symm]
  cases w with
  | manifest place =>
    have hnone : ∀ p, .manifest p ∉ ws := fun p hp => hnew _ hp trivial
    refine ⟨fun p => ?_, fun p => hentry p id, hcolor nofun, hannotate nofun, hclean nofun⟩
    simp [Options.set, hnone, eq_comm]
  | file place =>
    have hnone : ∀ p, .file p ∉ ws := fun p hp => hnew _ hp trivial
    refine ⟨fun p => hmanifest p nofun, fun p => ?_, hcolor nofun, hannotate nofun, hclean nofun⟩
    constructor
    · intro hplace
      cases hplace
      exact .inl (by simp)
    · rintro (hmem | ⟨-, hnofile⟩)
      · rw [List.mem_append, List.mem_singleton, or_iff_right (hnone p)] at hmem
        cases hmem
        rfl
      · exact absurd (by simp) (hnofile place)
  | color word joined =>
    have hnone : ∀ word' joined', .color word' joined' ∉ ws := fun word' joined' hp => hnew _ hp trivial
    refine ⟨fun p => hmanifest p nofun, fun p => hentry p id, fun c => ?_, hannotate nofun, hclean nofun⟩
    constructor
    · intro hword
      exact ⟨word, joined, by simp, hword⟩
    · rintro ⟨word', joined', hmem, hword⟩
      rw [List.mem_append, List.mem_singleton, or_iff_right (hnone _ _)] at hmem
      cases hmem
      exact hword
  | annotate =>
    refine ⟨fun p => hmanifest p nofun, fun p => hentry p id, hcolor nofun, ?_, hclean nofun⟩
    simp [Options.set]
  | clean =>
    refine ⟨fun p => hmanifest p nofun, fun p => hentry p id, hcolor nofun, hannotate nofun, ?_⟩
    simp [Options.set]
  | path text htext =>
    have hnofile : ∀ f, .file f ∉ ws := fun f hf => hfirst trivial _ hf trivial
    have hnopath : ∀ t ht, .path t ht ∉ ws := fun t ht hp => hfirst trivial _ hp trivial
    refine ⟨fun p => hmanifest p nofun, fun p => ?_, hcolor nofun, hannotate nofun, hclean nofun⟩
    simp only [Options.set, Option.some.injEq, List.mem_append, List.mem_singleton, hnofile, hnopath, false_or,
      reduceCtorEq, not_false_eq_true, implies_true, and_true, WrittenArgument.path.injEq]
    constructor
    · rintro rfl
      exact ⟨htext, rfl⟩
    · rintro ⟨-, rfl⟩
      rfl

end Holds

/-! ## All arguments -/

theorem ofWords_concat_eq_ok_iff : ofWords task isProject ((ws ++ [w]).flatMap WrittenArgument.words) = .ok o ↔
    ∃ before, ofWords task isProject (ws.flatMap WrittenArgument.words) = .ok before ∧
      takeWritten task isProject before w = .ok o := by
  rw [ofWords, ofWords, WrittenArgument.split_flatMap_words, WrittenArgument.split_flatMap_words, List.map_append,
    List.foldlM_append]
  cases (ws.map WrittenArgument.read).foldlM (fun o argument => argument.bind (take task isProject o)) {} with
  | error issue => exact iff_of_false nofun nofun
  | ok before =>
    simp only [List.map_cons, List.map_nil, List.foldlM_cons, List.foldlM_nil, bind_pure, Except.ok.injEq,
      exists_eq_left']
    rfl

/-- What arguments say can be held, whatever the task. -/
theorem exists_holds (honce : WrittenArgument.OptionsOnce ws) (hfirst : WrittenArgument.PathFirst ws) :
    ∃ o : Options, o.Holds ws := by
  induction ws using List.reverseRecOn with
  | nil => exact ⟨{}, holds_nil⟩
  | append_singleton ws w ih =>
    obtain ⟨honce, hnew⟩ := WrittenArgument.optionsOnce_concat.1 honce
    obtain ⟨hfirst, hpath⟩ := WrittenArgument.pathFirst_concat.1 hfirst
    obtain ⟨o, h⟩ := ih honce hfirst
    exact ⟨o.set w, h.set hnew hpath⟩

/-- The words are read as options exactly if the task takes each argument and no bare path stands behind an entry
file, and then as what the arguments say. -/
theorem ofWords_eq_ok_iff (honce : WrittenArgument.OptionsOnce ws)
    (hplain : ∀ text h, .path text h ∈ ws → isProject text = false) :
    ofWords task isProject (ws.flatMap WrittenArgument.words) = .ok o ↔
      (∀ w ∈ ws, w.Fits task) ∧ WrittenArgument.PathFirst ws ∧ o.Holds ws := by
  -- the induction takes the arguments from the last one, as the words are read from the first one
  induction ws using List.reverseRecOn generalizing o with
  | nil =>
    constructor
    · intro h
      cases h
      exact ⟨nofun, .nil, holds_nil⟩
    · rintro ⟨-, -, h⟩
      rw [h.unique holds_nil]
      rfl
  | append_singleton ws w ih =>
    obtain ⟨honce, hnew⟩ := WrittenArgument.optionsOnce_concat.1 honce
    have ih (before : Options) := @ih before honce fun text h hmem => hplain text h (List.mem_append_left _ hmem)
    have hw : ∀ text h, w = .path text h → isProject text = false := by
      rintro text h rfl
      exact hplain text h (List.mem_append_right _ (List.mem_singleton_self _))
    rw [ofWords_concat_eq_ok_iff, WrittenArgument.pathFirst_concat]
    constructor
    · rintro ⟨before, hrun, htake⟩
      obtain ⟨hfits, hfirst, hbefore⟩ := (ih before).1 hrun
      obtain ⟨hfit, hentry, rfl⟩ := (takeWritten_eq_ok_iff hw).1 htake
      have hpath : w.IsPath → ∀ v ∈ ws, ¬ v.NamesEntry := fun hpath => hbefore.entry_eq_none_iff.1 (hentry hpath)
      have hall : ∀ v ∈ ws ++ [w], v.Fits task := by
        simpa [or_imp, forall_and] using ⟨hfits, hfit⟩
      exact ⟨hall, ⟨hfirst, hpath⟩, hbefore.set hnew hpath⟩
    · rintro ⟨hall, ⟨hfirst, hpath⟩, hholds⟩
      obtain ⟨before, hbefore⟩ := exists_holds honce hfirst
      have hfits : ∀ v ∈ ws, v.Fits task := fun v hv => hall v (List.mem_append_left _ hv)
      have hfit : w.Fits task := hall w (List.mem_append_right _ (List.mem_singleton_self _))
      have hentry : w.IsPath → before.entry = none := fun h => hbefore.entry_eq_none_iff.2 (hpath h)
      rw [hholds.unique (hbefore.set hnew hpath)]
      exact ⟨before, (ih before).2 ⟨hfits, hfirst, hbefore⟩, (takeWritten_eq_ok_iff hw).2 ⟨hfit, hentry, rfl⟩⟩

end Options

/-! ## Any order -/

namespace WrittenArgument
variable {vs ws : List WrittenArgument}

theorem SameOption.symm {v w : WrittenArgument} (h : v.SameOption w) : w.SameOption v := by
  cases v <;> cases w <;> trivial

theorem OptionsOnce.perm (honce : OptionsOnce ws) (hperm : vs.Perm ws) : OptionsOnce vs :=
  (hperm.pairwise_iff fun hvw hwv => hvw hwv.symm).2 honce

theorem IsPath.namesEntry {w : WrittenArgument} (h : w.IsPath) : w.NamesEntry := by
  cases w <;> trivial

/-- Where `--file` and a bare path do not meet, the bare path is in front in every order or in none. -/
theorem PathFirst.perm (hfirst : PathFirst ws) (hperm : vs.Perm ws)
    (hone : (∀ f, .file f ∉ ws) ∨ ∀ w ∈ ws, ¬ w.IsPath) : PathFirst vs := by
  have hpaths : ∀ v ∈ ws, ∀ w ∈ ws, v.NamesEntry ∧ w.IsPath ↔ v.IsPath ∧ w.IsPath := by
    intro v hv w hw
    refine and_congr_left fun hpath => ⟨fun hnames => ?_, IsPath.namesEntry⟩
    obtain hnofile | hnopath := hone
    · cases v with
      | file f => exact absurd hv (hnofile f)
      | path text h => trivial
      | manifest | color | annotate | clean => exact hnames
    · exact absurd hpath (hnopath w hw)
  have hmem : ∀ w, w ∈ vs → w ∈ ws := fun w => hperm.mem_iff.1
  have hapart : ws.Pairwise fun v w => ¬ (v.IsPath ∧ w.IsPath) :=
    hfirst.imp_of_mem fun hv hw h => (hpaths _ hv _ hw).not.1 h
  have hapart' : vs.Pairwise fun v w => ¬ (v.IsPath ∧ w.IsPath) :=
    (hperm.pairwise_iff fun hvw hwv => hvw hwv.symm).2 hapart
  exact hapart'.imp_of_mem fun hv hw h => (hpaths _ (hmem _ hv) _ (hmem _ hw)).not.2 h

end WrittenArgument

/-- Arguments in two orders, no option twice and no path the directory of a project. In either order the words are
read exactly if the task takes each argument and no bare path stands behind an entry file, and what they are read
as is what the arguments say and the same in both. Unless both `--file` and a bare path are given, both orders are
read or none. -/
theorem options_in_any_order {task : Task} {isProject : String → Bool} {vs ws : List WrittenArgument}
    (hperm : vs.Perm ws) (honce : WrittenArgument.OptionsOnce ws)
    (hplain : ∀ text h, .path text h ∈ ws → isProject text = false) :
    (∀ o, Options.ofWords task isProject (vs.flatMap WrittenArgument.words) = .ok o ↔
      (∀ w ∈ ws, w.Fits task) ∧ WrittenArgument.PathFirst vs ∧ o.Holds ws) ∧
    (∀ o o', Options.ofWords task isProject (vs.flatMap WrittenArgument.words) = .ok o →
      Options.ofWords task isProject (ws.flatMap WrittenArgument.words) = .ok o' → o = o') ∧
    ((∀ f, .file f ∉ ws) ∨ (∀ w ∈ ws, ¬ w.IsPath) →
      (Options.ofWords task isProject (vs.flatMap WrittenArgument.words)).toOption =
        (Options.ofWords task isProject (ws.flatMap WrittenArgument.words)).toOption) := by
  have hws : ∀ o, Options.ofWords task isProject (ws.flatMap WrittenArgument.words) = .ok o ↔
      (∀ w ∈ ws, w.Fits task) ∧ WrittenArgument.PathFirst ws ∧ o.Holds ws :=
    fun o => Options.ofWords_eq_ok_iff honce hplain
  have hvs : ∀ o, Options.ofWords task isProject (vs.flatMap WrittenArgument.words) = .ok o ↔
      (∀ w ∈ ws, w.Fits task) ∧ WrittenArgument.PathFirst vs ∧ o.Holds ws := by
    intro o
    have hholds : o.Holds vs ↔ o.Holds ws := ⟨fun h => h.perm hperm, fun h => h.perm hperm.symm⟩
    rw [Options.ofWords_eq_ok_iff (honce.perm hperm) fun text h hmem => hplain text h (hperm.mem_iff.1 hmem), hholds]
    simp only [hperm.mem_iff]
  refine ⟨hvs, fun o o' h h' => ((hvs o).1 h).2.2.unique ((hws o').1 h').2.2, fun hone => ?_⟩
  have hfirst : WrittenArgument.PathFirst vs ↔ WrittenArgument.PathFirst ws := by
    refine ⟨fun h => h.perm hperm.symm ?_, fun h => h.perm hperm hone⟩
    simpa only [hperm.mem_iff] using hone
  have hread : ∀ o, Options.ofWords task isProject (vs.flatMap WrittenArgument.words) = .ok o ↔
      Options.ofWords task isProject (ws.flatMap WrittenArgument.words) = .ok o := by
    intro o
    rw [hvs o, hws o, hfirst]
  cases h : Options.ofWords task isProject (vs.flatMap WrittenArgument.words) with
  | ok o => rw [(hread o).1 h]
  | error issue =>
    cases h' : Options.ofWords task isProject (ws.flatMap WrittenArgument.words) with
    | ok o' => rw [(hread o').2 h'] at h; cases h
    | error issue' => rfl

/-- The bare path in front of `--file` is passed over; behind it, it is refused. -/
theorem path_beside_file_in_two_orders :
    Options.ofWords .check (fun _ => false) ["a.wumbo", "--file", "b.wumbo"] = .ok { entry := some "b.wumbo" } ∧
    ∀ o, Options.ofWords .check (fun _ => false) ["--file", "b.wumbo", "a.wumbo"] ≠ .ok o := by
  have hpath : looksLikeOption "a.wumbo" = false := by decide
  have honce : WrittenArgument.OptionsOnce [.path "a.wumbo" hpath, .file "b.wumbo"] := by
    simp [WrittenArgument.OptionsOnce, WrittenArgument.SameOption]
  have hlaw := @options_in_any_order .check (fun _ => false) _ _ (.swap (.path "a.wumbo" hpath) (.file "b.wumbo") [])
    honce fun _ _ _ => rfl
  refine ⟨by rfl, fun o h => ?_⟩
  have hfirst := ((hlaw.1 o).1 h).2.1
  simp [WrittenArgument.PathFirst, WrittenArgument.NamesEntry, WrittenArgument.IsPath] at hfirst

end Namescope
