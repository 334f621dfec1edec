import Mathlib.Tactic.Choose
import Namescope.Command.Run
/-!
# How a run can stop

A run on a file system may do anything with its files, so what is said here holds for every monad that
has the operations: each value that a part of a run gives, whatever the file system does, has some
property.
-/
namespace Namescope

/-! ## Values of a computation -/

section
variable {m : Type → Type} [Monad m] {α β : Type}

/-- Every value that `x` gives has the property `P`: the same computation gives it with a proof. -/
def Always (P : α → Prop) (x : m α) : Prop := ∃ y : m (Subtype P), Subtype.val <$> y = x

namespace Always
variable [LawfulMonad m] {P : α → Prop} {Q : β → Prop}

theorem pure {a : α} (h : P a) : Always P (Pure.pure a : m α) :=
  ⟨Pure.pure ⟨a, h⟩, by simp⟩

/-- Nothing is known about the values of a computation of which nothing is known. -/
theorem trivial (x : m α) : Always (fun _ => True) x :=
  ⟨(fun a => ⟨a, True.intro⟩) <$> x, by simp⟩

theorem bind {x : m α} {f : α → m β} (h : Always P x) (h' : ∀ a, P a → Always Q (f a)) :
    Always Q (x >>= f) := by
  obtain ⟨y, rfl⟩ := h
  choose next hnext using h'
  refine ⟨y >>= fun a => next a.1 a.2, ?_⟩
  rw [map_bind, bind_map_left]
  exact bind_congr fun a => hnext a.1 a.2

theorem mono {P' : α → Prop} {x : m α} (h : Always P x) (h' : ∀ a, P a → P' a) : Always P' x := by
  obtain ⟨y, rfl⟩ := h
  exact ⟨(fun a => ⟨a.1, h' a.1 a.2⟩) <$> y, by simp⟩

/-- On a state that is passed along the value itself has the property. -/
theorem run {σ : Type} {P : α → Prop} {x : StateM σ α} (h : Always P x) (s : σ) : P (x.run s).1 := by
  obtain ⟨y, rfl⟩ := h
  exact (y.run s).1.2

end Always

end

/-! ## Exit codes of parts of a run -/

namespace Run
variable {m : Type → Type} [Monad m]

/-- What a part of a run ends with is a value or exit code 1. -/
def Regular {α : Type} (r : Except ExitCode α × Transcript) : Prop :=
  ∀ code, r.1 = .error code → code = 1

/-- A part of a run goes on, or stops with exit code 1. -/
def Fair {α : Type} (run : Run m α) : Prop :=
  ∀ surroundings transcript,
    Always Regular (((ReaderT.run run surroundings).run).run transcript)

theorem regular_ok {α : Type} (a : α) (transcript : Transcript) : Regular (.ok a, transcript) := by
  rintro code ⟨⟩

theorem regular_error {α : Type} (transcript : Transcript) :
    Regular ((.error 1, transcript) : Except ExitCode α × Transcript) := by
  rintro code ⟨⟩
  rfl

namespace Fair
variable [LawfulMonad m] {α β : Type}

theorem pure (a : α) : Fair (Pure.pure a : Run m α) :=
  fun _ transcript => .pure (regular_ok a transcript)

theorem stop : Fair (stop 1 : Run m α) :=
  fun _ transcript => .pure (regular_error transcript)

theorem read : Fair (ReaderT.read : Run m Surroundings) :=
  fun surroundings transcript => .pure (regular_ok surroundings transcript)

/-- A part that cannot stop the run. -/
theorem lift (x : StateT Transcript m α) : Fair (liftM x : Run m α) := by
  intro surroundings transcript
  have hx : Always (fun _ => True) (x.run transcript) := .trivial _
  exact hx.bind fun r _ => .pure (regular_ok r.1 r.2)

theorem modify (f : Transcript → Transcript) : Fair (modify f : Run m Unit) :=
  .lift (MonadStateOf.modifyGet fun transcript => ((), f transcript))

theorem bind {x : Run m α} {f : α → Run m β} (h : Fair x) (h' : ∀ a, Fair (f a)) : Fair (x >>= f) := by
  intro surroundings transcript
  refine (h surroundings transcript).bind ?_
  rintro ⟨result, transcript'⟩ hresult
  cases result with
  | ok a => exact h' a surroundings transcript'
  | error code =>
    obtain rfl := hresult code rfl
    exact .pure (regular_error transcript')

/-- What is asked of the file system does not stop a run. -/
theorem ask (x : m α) : Fair (liftM x : Run m α) := .lift (liftM x)

/-- What is done about a stop only ever sees exit code 1. -/
theorem tryCatch {x : Run m α} {handle : ExitCode → Run m α} (h : Fair x) (h' : Fair (handle 1)) :
    Fair (tryCatch x handle) := by
  intro surroundings transcript
  refine (h surroundings transcript).bind ?_
  rintro ⟨result, transcript'⟩ hresult
  cases result with
  | ok a => exact .pure (regular_ok a transcript')
  | error code =>
    obtain rfl := hresult code rfl
    exact h' surroundings transcript'

omit [LawfulMonad m] in
theorem withColor {x : Run m α} (choice : ColorChoice) (h : Fair x) : Fair (withColor choice x) :=
  fun _ transcript => h _ transcript

theorem forM (f : α → Run m Unit) (h : ∀ a, Fair (f a)) : ∀ as : List α, Fair (as.forM f)
  | [] => .pure ()
  | a :: as => (h a).bind fun _ => forM f h as

theorem filterM (keep : α → Run m Bool) (h : ∀ a, Fair (keep a)) (as : List α) :
    Fair (as.filterM keep) := by
  have general : ∀ (as kept : List α), Fair (as.filterAuxM keep kept) := by
    intro as
    induction as with
    | nil => exact fun kept => .pure kept
    | cons a as ih =>
      intro kept
      exact (h a).bind fun b => ih _
  exact (general as []).bind fun kept => .pure kept.reverse

/-- The run of a command that is fair ends with exit code 0 or 1. -/
theorem outcome {run : Run m Unit} (h : Fair run) (surroundings : Surroundings) :
    Always (fun r => r.1 = 0 ∨ r.1 = 1) (run.outcome surroundings) := by
  refine (h surroundings {}).bind ?_
  rintro ⟨result, transcript⟩ hresult
  cases result with
  | ok => exact .pure (.inl rfl)
  | error code => exact .pure (.inr (hresult code rfl))

end Fair

end Run

end Namescope
