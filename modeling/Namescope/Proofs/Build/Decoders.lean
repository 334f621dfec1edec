import Mathlib.Algebra.Group.Nat.Defs
import Mathlib.Data.Nat.Init
import Namescope.Bytes.Decode
/-!
# Decoders and the bytes they take

A decoder reads a value from some bytes if it takes just these off the front of every sequence, whatever
follows them. The decoder of a recursive type asks for a case number and then for the parts of the case, which
may be values of the type again; as the case number is gone by then, less is left of the bytes for each of them.

What makes a format free of prefixes is that a decoder never looks past what it takes: where it succeeds, it
takes the same front off every other sequence that starts with it.
-/
namespace Namescope

namespace Bytes

theorem toNat_ofNat {width n : Nat} (h : n < 256 ^ width) : toNat (ofNat width n) = n := by
  induction width generalizing n with
  | zero => simp only [ofNat, toNat, Nat.pow_zero] at h ⊢; omega
  | succ width ih =>
    have hdiv : n / 256 < 256 ^ width := Nat.div_lt_of_lt_mul (by rwa [Nat.pow_succ'] at h)
    rw [ofNat, toNat, ih hdiv, UInt8.toNat_ofNat']
    omega

theorem toText?_ofText (s : String) : (ofText s).toText? = some s := by
  have e : (⟨(ofText s).toArray⟩ : ByteArray) = s.toUTF8 := by simp [ofText]
  rw [toText?, e, String.fromUTF8?]
  exact dif_pos s.isValidUTF8

/-- Bytes are a text only if they are those of the text. -/
theorem toText?_eq_some {bytes : Bytes} {s : String} : bytes.toText? = some s ↔ bytes = ofText s := by
  constructor
  · intro h
    unfold toText? String.fromUTF8? at h
    split at h
    · cases h
      simp [ofText, String.fromUTF8]
    · cases h
  · rintro rfl
    exact toText?_ofText s

theorem ofText_eq_flatMap (s : String) : ofText s = s.toList.flatMap String.utf8EncodeChar := by
  have hbytes : s.toUTF8 = (s.toList.flatMap String.utf8EncodeChar).toByteArray := String.utf8Encode_toList.symm
  rw [ofText, hbytes]
  simp

/-- Only a character below 128 is written with a first byte below 128, and it is written as that byte. -/
theorem toNat_of_utf8EncodeChar {c : Char} {b : UInt8} {rest : Bytes} (h : String.utf8EncodeChar c = b :: rest)
    (hb : b.toNat < 128) : c.toNat = b.toNat := by
  have hfirst : (String.utf8EncodeChar c).head?.map UInt8.toNat = some b.toNat := by
    rw [h]
    rfl
  unfold String.utf8EncodeChar at hfirst
  change c.val.toNat = b.toNat
  generalize c.val.toNat = n at hfirst ⊢
  dsimp only at hfirst
  split at hfirst
  · simp at hfirst
    omega
  · -- the first of several bytes is 192 or more
    split at hfirst
    · simp at hfirst
      omega
    · split at hfirst <;> simp at hfirst <;> omega

/-- A text whose bytes begin with one below 128 begins with the character of that number. -/
theorem exists_cons_of_ofText {s : String} {b : UInt8} {rest : Bytes} (h : ofText s = b :: rest) (hb : b.toNat < 128) :
    ∃ c more, s.toList = c :: more ∧ c.toNat = b.toNat := by
  rw [ofText_eq_flatMap] at h
  cases htext : s.toList with
  | nil =>
    rw [htext] at h
    cases h
  | cons c more =>
    rw [htext, List.flatMap_cons] at h
    obtain ⟨first, bytes, hc⟩ := List.exists_cons_of_ne_nil (l := String.utf8EncodeChar c) String.utf8EncodeChar_ne_nil
    rw [hc] at h
    obtain rfl : first = b := (List.cons.inj h).1
    exact ⟨c, more, rfl, toNat_of_utf8EncodeChar hc hb⟩

end Bytes

namespace Decoder

variable {α β : Type}

/-- Takes a truth value. -/
def bool : Decoder Bool := do
  match ← nat 1 with
  | 0 => return false
  | 1 => return true
  | _ => failure

/-- Takes an integer of four bytes in two's complement. -/
def int32 : Decoder Int := do
  let n ← nat32
  return if n < 2147483648 then n else n - 4294967296

/-- Takes an option. -/
def option (d : Decoder α) : Decoder (Option α) := do
  match ← nat 1 with
  | 0 => return none
  | 1 => some <$> d
  | _ => failure

/-- Takes `count` values. -/
def times (d : Decoder α) : (count : Nat) → Decoder (List α)
  | 0 => return []
  | count + 1 => do
    let first ← d
    let more ← times d count
    return first :: more

/-- Takes a list with its length. -/
def list (d : Decoder α) : Decoder (List α) := do
  let count ← nat64
  times d count

/-- Takes a case number, which stands for one of `cases`. -/
def choice (cases : List α) : Decoder α := do
  let k ← nat32
  match cases[k]? with
  | some a => return a
  | none => failure

/-- Takes a case number and then the parts of this case, with a decoder for those of the same type. -/
def nested (body : Decoder α → Nat → Decoder α) : Decoder α := fun bytes =>
  (nat32 >>= body fun rest => if rest.length < bytes.length then nested body rest else none).run bytes
termination_by bytes => bytes.length

/-! ## The bytes of a value -/

/-- The decoder takes the bytes for the value `a`, whatever follows. -/
def Reads (d : Decoder α) (bytes : Bytes) (a : α) : Prop :=
  ∀ rest, d.run (bytes ++ rest) = some (a, rest)

namespace Reads

theorem pure (a : α) : Reads (Pure.pure a) [] a := fun _ => rfl

theorem bind {d : Decoder α} {f : α → Decoder β} {bytes content : Bytes} {a : α} {b : β}
    (hd : Reads d bytes a) (hf : Reads (f a) content b) : Reads (d >>= f) (bytes ++ content) b := by
  intro rest
  rw [List.append_assoc, StateT.run_bind, hd]
  exact hf rest

theorem map {d : Decoder α} {bytes : Bytes} {a : α} (f : α → β) (h : Reads d bytes a) :
    Reads (f <$> d) bytes (f a) := by
  intro rest
  rw [StateT.run_map, h]
  rfl

/-- The last part of a value. -/
theorem last {d : Decoder α} {bytes : Bytes} {a : α} (f : α → β) (h : Reads d bytes a) :
    Reads (d >>= fun x => Pure.pure (f x)) bytes (f a) := by
  intro rest
  rw [StateT.run_bind, h]
  rfl

/-- Bytes stand for one value only. -/
theorem unique {d : Decoder α} {bytes : Bytes} {a b : α} (ha : Reads d bytes a) (hb : Reads d bytes b) :
    a = b := by
  have h : some (a, []) = some (b, []) := (ha []).symm.trans (hb [])
  simpa using h

end Reads

theorem reads_take (bytes : Bytes) : Reads (take bytes.length) bytes bytes := by
  intro rest
  simp [take, StateT.run]

theorem reads_nat {width n : Nat} (h : n < 256 ^ width) : Reads (nat width) (Bytes.ofNat width n) n := by
  have hmap := (reads_take (Bytes.ofNat width n)).map Bytes.toNat
  rwa [Bytes.length_ofNat, Bytes.toNat_ofNat h] at hmap

theorem reads_string {s : String} (h : (Bytes.ofText s).length < 256 ^ 8) :
    Reads string (Bytes.ofString s) s := by
  refine (reads_nat h).bind fun rest => ?_
  rw [StateT.run_bind, reads_take, Option.bind_eq_bind, Option.bind_some]
  dsimp only
  rw [Bytes.toText?_ofText]
  rfl

theorem reads_bool (b : Bool) : Reads bool (Bytes.ofBool b) b := by
  cases b <;> exact fun _ => rfl

theorem reads_int32 {n : Int} (h : -2147483648 ≤ n ∧ n < 2147483648) :
    Reads int32 (Bytes.ofInt32 n) n := by
  have hlt : (n % 4294967296).toNat < 256 ^ 4 := by omega
  have hlast := (reads_nat hlt).last fun n : Nat => if n < 2147483648 then (n : Int) else n - 4294967296
  have e : (if (n % 4294967296).toNat < 2147483648 then ((n % 4294967296).toNat : Int)
      else (n % 4294967296).toNat - 4294967296) = n := by
    split <;> omega
  rwa [e] at hlast

theorem reads_option {d : Decoder α} {encode : α → Bytes} {a : Option α}
    (h : ∀ x ∈ a, Reads d (encode x) x) : Reads (option d) (Bytes.ofOption encode a) a := by
  cases a with
  | none => exact fun _ => rfl
  | some x =>
    have hx := (h x rfl).map some
    exact fun rest => hx rest

theorem reads_times {d : Decoder α} {encode : α → Bytes} {items : List α}
    (h : ∀ a ∈ items, Reads d (encode a) a) :
    Reads (times d items.length) (items.flatMap encode) items := by
  induction items with
  | nil => exact .pure []
  | cons first more ih =>
    obtain ⟨hfirst, hmore⟩ := List.forall_mem_cons.1 h
    exact hfirst.bind ((ih hmore).last (first :: ·))

theorem reads_list {d : Decoder α} {encode : α → Bytes} {items : List α} (hlen : items.length < 256 ^ 8)
    (h : ∀ a ∈ items, Reads d (encode a) a) : Reads (list d) (Bytes.ofList encode items) items :=
  (reads_nat hlen).bind (reads_times h)

theorem reads_choice {cases : List α} {k : Nat} {a : α} (hk : k < 256 ^ 4) (h : cases[k]? = some a) :
    Reads (choice cases) (Bytes.ofNat32 k) a := by
  rw [← List.append_nil (Bytes.ofNat32 k)]
  refine (reads_nat hk).bind ?_
  rw [h]
  exact .pure a

/-! ## Decoders that look no further than they take -/

/-- What `d` takes off the front of a sequence, `e` takes off the front of every other one that starts with it
and is shorter than `bound`. -/
def Follows (bound : Nat) (d e : Decoder α) : Prop :=
  ∀ bytes a rest, d.run bytes = some (a, rest) → ∃ front, bytes = front ++ rest ∧
    ∀ more, (front ++ more).length < bound → e.run (front ++ more) = some (a, more)

namespace Follows

variable {bound : Nat}

theorem pure (a : α) : Follows bound (Pure.pure a) (Pure.pure a) := by
  intro bytes b rest h
  obtain ⟨rfl, rfl⟩ : a = b ∧ bytes = rest := by simpa using h
  exact ⟨[], rfl, fun _ _ => rfl⟩

theorem failure : Follows bound (failure : Decoder α) failure := by
  intro bytes b rest h
  cases h

theorem bind {d e : Decoder α} {f g : α → Decoder β} (hd : Follows bound d e)
    (hf : ∀ a, Follows bound (f a) (g a)) : Follows bound (d >>= f) (e >>= g) := by
  intro bytes b rest h
  obtain ⟨⟨a, mid⟩, hrun, hrest⟩ := Option.bind_eq_some_iff.1 h
  obtain ⟨front, rfl, hfront⟩ := hd bytes a mid hrun
  obtain ⟨back, rfl, hback⟩ := hf a mid b rest hrest
  refine ⟨front ++ back, (List.append_assoc ..).symm, fun more hlt => ?_⟩
  have hlt' : (back ++ more).length < bound := by
    simp only [List.length_append] at hlt ⊢
    omega
  rw [List.append_assoc] at hlt ⊢
  rw [StateT.run_bind, hfront _ hlt]
  exact hback more hlt'

theorem map {d e : Decoder α} (f : α → β) (h : Follows bound d e) : Follows bound (f <$> d) (f <$> e) := by
  rw [map_eq_pure_bind, map_eq_pure_bind]
  exact h.bind fun a => .pure (f a)

theorem take (count : Nat) : Follows bound (Decoder.take count) (Decoder.take count) := by
  intro bytes a rest h
  by_cases hlen : count ≤ bytes.length
  · obtain ⟨rfl, rfl⟩ : bytes.take count = a ∧ bytes.drop count = rest := by
      simpa [Decoder.take, StateT.run, hlen] using h
    refine ⟨bytes.take count, (List.take_append_drop ..).symm, fun more _ => ?_⟩
    have e : (bytes.take count).length = count := List.length_take_of_le hlen
    have hreads := reads_take (bytes.take count) more
    rwa [e] at hreads
  · simp [Decoder.take, StateT.run, hlen] at h

theorem nat (width : Nat) : Follows bound (Decoder.nat width) (Decoder.nat width) :=
  (take width).map Bytes.toNat

theorem string : Follows bound string string := by
  refine (nat 8).bind fun count => (take count).bind fun bytes => ?_
  cases bytes.toText? with
  | none => exact .failure
  | some text => exact .pure text

theorem bool : Follows bound bool bool := by
  refine (nat 1).bind fun k => ?_
  split
  · exact .pure false
  · exact .pure true
  · exact .failure

theorem int32 : Follows bound int32 int32 := (nat 4).bind fun _ => .pure _

theorem option {d e : Decoder α} (h : Follows bound d e) : Follows bound (option d) (option e) := by
  refine (nat 1).bind fun k => ?_
  split
  · exact .pure none
  · exact h.map some
  · exact .failure

theorem times {d e : Decoder α} (h : Follows bound d e) (count : Nat) :
    Follows bound (times d count) (times e count) := by
  induction count with
  | zero => exact .pure []
  | succ count ih => exact h.bind fun first => ih.bind fun more => .pure (first :: more)

theorem list {d e : Decoder α} (h : Follows bound d e) : Follows bound (list d) (list e) :=
  (nat 8).bind fun count => h.times count

theorem choice (cases : List α) : Follows bound (choice cases) (choice cases) := by
  refine (nat 4).bind fun k => ?_
  cases cases[k]? with
  | none => exact .failure
  | some a => exact .pure a

end Follows

/-- The front that `d` takes is determined by what it leaves. -/
theorem Follows.run_eq {bound : Nat} {d e : Decoder α} (hd : Follows bound d e) {front rest : Bytes} {a : α}
    (h : d.run (front ++ rest) = some (a, rest)) {more : Bytes} (hlt : (front ++ more).length < bound) :
    e.run (front ++ more) = some (a, more) := by
  obtain ⟨front', e, hmore⟩ := hd _ a rest h
  obtain rfl : front = front' := List.append_cancel_right e
  exact hmore more hlt

/-- Where a decoder succeeds that looks no further than it takes, it reads what it takes. -/
theorem reads_of_run {d : Decoder α} (hd : ∀ bound, Follows bound d d) {bytes rest : Bytes} {a : α}
    (h : d.run bytes = some (a, rest)) : ∃ front, bytes = front ++ rest ∧ Reads d front a := by
  obtain ⟨front, rfl, -⟩ := hd 0 bytes a rest h
  exact ⟨front, rfl, fun more => (hd _).run_eq h (Nat.lt_succ_self _)⟩

/-- Nothing is decoded from a strict prefix of the bytes of a value. -/
theorem Reads.of_prefix {d : Decoder α} {bytes front : Bytes} {a : α} (h : Reads d bytes a)
    (hd : ∀ bound, Follows bound d d) (hfront : front <+: bytes) (hne : front ≠ bytes) :
    d.run front = none := by
  obtain ⟨back, rfl⟩ := hfront
  cases hrun : d.run front with
  | none => rfl
  | some taken =>
    obtain ⟨short, rfl, hshort⟩ := reads_of_run hd hrun
    have hwhole := h []
    rw [List.append_nil, List.append_assoc, hshort] at hwhole
    have hback : back = [] := by simp_all
    exact absurd (by rw [hback, List.append_nil]) hne

/-! ## Recursive types -/

/-- The parts of a case look no further than the decoder that they are given. -/
def Nestable (body : Decoder α → Nat → Decoder α) : Prop :=
  ∀ ⦃bound : Nat⦄ ⦃d e : Decoder α⦄, Follows bound d e → ∀ k, Follows bound (body d k) (body e k)

namespace Nestable

variable {body : Decoder α → Nat → Decoder α} (hbody : Nestable body)

/-- The decoder of the parts of a value with `length` bytes: they have less. -/
def shorter (body : Decoder α → Nat → Decoder α) (length : Nat) : Decoder α := fun rest =>
  if rest.length < length then nested body rest else none

theorem run_nested (body : Decoder α → Nat → Decoder α) (bytes : Bytes) :
    (nested body).run bytes = (nat32 >>= body (shorter body bytes.length)).run bytes := by
  rw [StateT.run, nested]
  rfl

theorem run_shorter {length : Nat} {bytes : Bytes} (h : bytes.length < length) :
    (shorter body length).run bytes = (nested body).run bytes := if_pos h

/-- A value is taken if its case number is and then its parts, all of which are shorter. -/
theorem run_of_parts {number parts rest : Bytes} {k : Nat} {a : α} (hnumber : Reads nat32 number k)
    (h : ∀ bound, parts.length < bound → (body (shorter body bound) k).run parts = some (a, rest)) :
    (nested body).run (number ++ parts) = some (a, rest) := by
  have hpos : 0 < number.length := by
    refine List.length_pos_iff.2 fun hnil => ?_
    rw [hnil] at hnumber
    cases hnumber []
  rw [run_nested, StateT.run_bind, hnumber]
  exact h _ (by rw [List.length_append]; omega)

include hbody

theorem follows (bound : Nat) : Follows bound (nested body) (nested body) := by
  -- by induction on the length of the sequence that the first of the two takes from
  intro bytes
  induction hlen : bytes.length using Nat.strong_induction_on generalizing bytes bound with
  | _ length ih =>
  have hparts (bound : Nat) : Follows bound (shorter body length) (shorter body bound) := by
    intro part a rest h
    by_cases hpart : part.length < length
    · rw [run_shorter hpart] at h
      obtain ⟨front, e, hmore⟩ := ih part.length hpart bound part rfl a rest h
      refine ⟨front, e, fun more hlt => ?_⟩
      rw [run_shorter hlt]
      exact hmore more hlt
    · simp [shorter, StateT.run, hpart] at h
  intro a rest h
  rw [run_nested, hlen] at h
  obtain ⟨⟨k, mid⟩, hk, hrest⟩ := Option.bind_eq_some_iff.1 h
  obtain ⟨number, rfl, hnumber⟩ := reads_of_run (fun _ => .nat 4) hk
  obtain ⟨front, rfl, -⟩ := hbody (hparts 0) k mid a rest hrest
  refine ⟨number ++ front, (List.append_assoc ..).symm, fun more _ => ?_⟩
  rw [List.append_assoc]
  exact run_of_parts hnumber fun bound hlt => (hbody (hparts bound) k).run_eq hrest hlt

/-- The bytes of a case are its number and the bytes of its parts. -/
theorem reads {k : Nat} {content : Bytes} {a : α} (hk : k < 256 ^ 4)
    (h : Reads (body (nested body) k) content a) : Reads (nested body) (Bytes.ofNat32 k ++ content) a := by
  intro rest
  have hparts (bound : Nat) : Follows bound (nested body) (shorter body bound) := by
    intro part b rest hrun
    obtain ⟨front, e, hreads⟩ := reads_of_run (follows hbody) hrun
    refine ⟨front, e, fun more hlt => ?_⟩
    rw [run_shorter hlt]
    exact hreads more
  rw [List.append_assoc]
  exact run_of_parts (reads_nat hk) fun bound hlt => (hbody (hparts bound) k).run_eq (h rest) hlt

end Nestable

end Decoder

end Namescope
