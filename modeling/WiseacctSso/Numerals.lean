import Mathlib.Algebra.Group.Nat.Even
import Mathlib.Tactic.Common
import Mathlib.Tactic.IntervalCases

/-!
# Numerals

A numeral is a text of digits, the most significant first. What a digit is worth is a
parameter, so that it may also be read in other scripts than ASCII.
-/
namespace Numerals

variable {α : Type*} (digit : α → Option ℕ)

def isDigit (radix : ℕ) (c : α) : Bool := (digit c).any (· < radix)

/-- One step of reading from the left. -/
def shift (radix n : ℕ) (c : α) : ℕ := radix * n + (digit c).getD 0

def value (radix : ℕ) (numeral : List α) : ℕ := numeral.foldl (shift digit radix) 0

/-- What an ASCII character is worth as a digit, the letters from ten on. -/
def asciiDigit (c : ℕ) : Option ℕ :=
  if 48 ≤ c ∧ c ≤ 57 then some (c - 48)
  else if 97 ≤ c ∧ c ≤ 102 then some (c - 87)
  else if 65 ≤ c ∧ c ≤ 70 then some (c - 55)
  else none

@[simp] lemma isDigit_ascii_ten {c : ℕ} : isDigit asciiDigit 10 c = true ↔ 48 ≤ c ∧ c ≤ 57 := by
  unfold isDigit asciiDigit
  split_ifs <;> simp <;> omega

@[simp] lemma isDigit_ascii_eight {c : ℕ} : isDigit asciiDigit 8 c = true ↔ 48 ≤ c ∧ c ≤ 55 := by
  unfold isDigit asciiDigit
  split_ifs <;> simp <;> omega

/-- The decimal digits of all scripts, with what is fixed for ASCII. -/
structure DecimalDigits where
  digit : Char → Option ℕ
  lt_ten : ∀ c d, digit c = some d → d < 10
  ascii : ∀ c, c.toNat < 128 → digit c = if c.isDigit then some (c.toNat - 48) else none

/-- The least digits of a number, as many as asked for. -/
def zeroPadded : ℕ → ℕ → List Char
  | 0, _ => []
  | width + 1, n => zeroPadded width (n / 10) ++ [Char.ofNat (48 + n % 10)]

@[simp] lemma length_zeroPadded (width n : ℕ) : (zeroPadded width n).length = width := by
  induction width generalizing n with
  | zero => rfl
  | succ width ih => simp [zeroPadded, ih]

lemma digit_ofNat (digits : DecimalDigits) {d : ℕ} (h : d < 10) :
    digits.digit (Char.ofNat (48 + d)) = some d := by
  have hchar : (Char.ofNat (48 + d)).toNat = 48 + d ∧ (Char.ofNat (48 + d)).isDigit = true := by
    interval_cases d <;> decide
  rw [digits.ascii _ (by omega), hchar.2, if_pos rfl, hchar.1, Nat.add_sub_cancel_left]

lemma isDigit_of_mem_zeroPadded (digits : DecimalDigits) {width n : ℕ} :
    ∀ c ∈ zeroPadded width n, isDigit digits.digit 10 c = true := by
  induction width generalizing n with
  | zero => simp [zeroPadded]
  | succ width ih =>
    intro c hc
    rcases List.mem_append.mp hc with hc | hc
    · exact ih c hc
    · obtain rfl := List.mem_singleton.mp hc
      have hd : n % 10 < 10 := Nat.mod_lt _ (by omega)
      simp [isDigit, digit_ofNat digits hd, hd]

/-- A number that fits comes back from its digits. -/
lemma value_zeroPadded (digits : DecimalDigits) {width n : ℕ} (h : n < 10 ^ width) :
    value digits.digit 10 (zeroPadded width n) = n := by
  induction width generalizing n with
  | zero =>
    obtain rfl : n = 0 := by simpa using h
    rfl
  | succ width ih =>
    have hd : n % 10 < 10 := Nat.mod_lt _ (by omega)
    have htail := ih (n := n / 10) (by rw [Nat.pow_succ] at h; omega)
    rw [zeroPadded, value, List.foldl_append, ← value, htail]
    simp only [List.foldl_cons, List.foldl_nil, shift, digit_ofNat digits hd, Option.getD_some]
    omega

lemma zeroPadded_mul (width k n : ℕ) :
    zeroPadded (width + k) (n * 10 ^ k) = zeroPadded width n ++ List.replicate k '0' := by
  induction k with
  | zero => simp
  | succ k ih =>
    have hdiv : n * 10 ^ (k + 1) / 10 = n * 10 ^ k := by
      rw [pow_succ, ← Nat.mul_assoc, Nat.mul_div_cancel _ (by omega)]
    have hmod : n * 10 ^ (k + 1) % 10 = 0 := by
      rw [pow_succ, ← Nat.mul_assoc, Nat.mul_mod_left]
    have hzero : Char.ofNat (48 + 0) = '0' := rfl
    rw [← Nat.add_assoc, zeroPadded, hdiv, hmod, ih, hzero, List.replicate_succ',
      List.append_assoc]

lemma take_zeroPadded (width k n : ℕ) :
    (zeroPadded (width + k) n).take width = zeroPadded width (n / 10 ^ k) := by
  induction k generalizing n with
  | zero =>
    rw [Nat.add_zero, pow_zero, Nat.div_one]
    exact List.take_of_length_le (by simp)
  | succ k ih =>
    rw [← Nat.add_assoc, zeroPadded, List.take_append_of_le_length (by simp), ih,
      Nat.div_div_eq_div_mul, pow_succ']

end Numerals
