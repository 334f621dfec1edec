/-!
# Decimal numerals

The digits of a natural number, most significant first, and the number that digits stand for.
Main statement: reading what is written gives the number back.
-/
namespace Namescope.Text

/-- The digit of a number below ten. -/
def digit (n : Nat) : Char := Char.ofNat (n + 48)

/-- The decimal digits of `n`, without leading zeros. -/
def digits (n : Nat) : List Char :=
  if n < 10 then [digit n] else digits (n / 10) ++ [digit (n % 10)]

/-- The number that a digit stands for. -/
def digitValue (c : Char) : Nat := c.toNat - 48

/-- The number that a run of digits stands for. -/
def numeral (text : List Char) : Nat :=
  text.foldl (fun n c => 10 * n + digitValue c) 0

/-- An integer in decimal, with a minus sign in front if it is negative. -/
def signed : Int → List Char
  | .ofNat n => digits n
  | .negSucc n => '-' :: digits (n + 1)

theorem digitValue_digit {n : Nat} (h : n < 10) : digitValue (digit n) = n := by
  have : ∀ m < 10, digitValue (digit m) = m := by decide
  exact this n h

theorem isDigit_digit {n : Nat} (h : n < 10) : (digit n).isDigit = true := by
  have : ∀ m < 10, (digit m).isDigit = true := by decide
  exact this n h

/-- Reading the digits of a number gives it back. -/
theorem numeral_digits (n : Nat) : numeral (digits n) = n := by
  fun_induction digits n with
  | case1 n h => simp [numeral, digitValue_digit h]
  | case2 n h ih =>
    rw [numeral, List.foldl_append, ← numeral, ih]
    simp only [List.foldl_cons, List.foldl_nil, digitValue_digit (Nat.mod_lt n (by decide))]
    omega

/-- Digits are written with digits only. -/
theorem isDigit_of_mem_digits {n : Nat} {c : Char} (h : c ∈ digits n) : c.isDigit = true := by
  fun_induction digits n with
  | case1 n hn => rw [List.mem_singleton.1 h]; exact isDigit_digit hn
  | case2 n hn ih =>
    rcases List.mem_append.1 h with h | h
    · exact ih h
    · rw [List.mem_singleton.1 h]; exact isDigit_digit (Nat.mod_lt n (by decide))

theorem digits_ne_nil (n : Nat) : digits n ≠ [] := by
  unfold digits; split <;> simp

end Namescope.Text
