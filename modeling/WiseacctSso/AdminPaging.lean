import WiseacctSso.PythonText
import WiseacctSso.JsonText

/-!
# Paging of the admin lists

The two list routes read a page number and a page size from the query as JavaScript reads numbers,
and turn them into the offset and the limit of a statement.
-/
open PythonText
namespace WiseacctSso.AdminPaging
open Json

/-- `unicodedata.decimal` beyond ASCII. -/
structure DigitTable where
  decimal : Char → Option ℕ

variable (table : DigitTable)

/-- The value of `\d`. -/
def DigitTable.digit (c : Char) : Option ℕ :=
  if c.toNat < 128 then (if c.isDigit then some (c.toNat - 48) else none) else table.decimal c

def ofDigits (radix : ℕ) (digits : List ℕ) : ℕ := digits.foldl (fun n d => radix * n + d) 0

/-! ## JavaScript numbers -/

/-- A digit of `int(.., 0)`, of a text in lower case. -/
def DigitTable.digitIn (radix : ℕ) (c : Char) : Option ℕ :=
  let value := if 'a' ≤ c ∧ c ≤ 'f' then some (c.toNat - 87) else table.digit c
  value.filter (· < radix)

/-- Digits with single underscores in front of them. -/
def underscored (radix : ℕ) (afterUnderscore : Bool) : Text → Option (List ℕ)
  | [] => if afterUnderscore then none else some []
  | c :: rest =>
    if c = '_' then if afterUnderscore then none else underscored radix true rest
    else (table.digitIn radix c).bind fun d => (underscored radix false rest).map (d :: ·)

/-- `int(unsigned, 0)` of a text that starts with `0x`, `0b` or `0o`. -/
def prefixedInt (radix : ℕ) (digits : Text) : Option ℕ :=
  if digits = [] then none else (underscored table radix false digits).map (ofDigits radix)

/-- The digits at the front, and what follows. -/
def spanDigits (text : Text) : List ℕ × Text :=
  ((text.takeWhile fun c => (table.digit c).isSome).filterMap table.digit,
    text.dropWhile fun c => (table.digit c).isSome)

def unsigned (text : Text) : Text :=
  if text.head? = some '-' ∨ text.head? = some '+' then text.tail else text

/-- `(?:[eE][+-]?\d+)?` up to the end. -/
def exponentOf : Text → Option ℤ
  | [] => some 0
  | e :: rest =>
    let (digits, after) := spanDigits table (unsigned rest)
    let sign : ℤ := if rest.head? = some '-' then -1 else 1
    if (e = 'e' ∨ e = 'E') ∧ digits ≠ [] ∧ after = [] then some (sign * ofDigits 10 digits)
    else none

/-- `_JS_DECIMAL_NUMBER`, with the sign and the value of what it matches. -/
def decimalNumber (text : Text) : Option (Bool × ℚ) :=
  let (whole, rest) := spanDigits table (unsigned text)
  let dot := rest.head? = some '.'
  let (fraction, rest) := if dot then spanDigits table rest.tail else ([], rest)
  if whole = [] ∧ fraction = [] then none
  else
    (exponentOf table rest).map fun exponent =>
      (decide (text.head? = some '-'),
        ofDigits 10 (whole ++ fraction) * (10 : ℚ) ^ (exponent - fraction.length : ℤ))

def finite : PyFloat → Option PyFloat
  | .finite v => some (.finite v)
  | _ => none

def radixOf : Text → Option (ℕ × Text)
  | '0' :: 'x' :: digits => some (16, digits)
  | '0' :: 'b' :: digits => some (2, digits)
  | '0' :: 'o' :: digits => some (8, digits)
  | _ => none

/-- None is a `ValueError`. -/
def coerceJsInteger (value : Text) : Option ℤ :=
  let normalized := strip value
  if normalized = [] then some 0
  else
    match radixOf (normalized.map Char.toLower) with
    | some (radix, digits) =>
      ((prefixedInt table radix digits).bind fun n => PyFloat.ofInt n).map PyFloat.truncate
    | none =>
      match decimalNumber table normalized with
      | none => none
      | some (negative, q) =>
        (finite (.ofDecimal negative q)).bind fun numeric =>
          if numeric.isInteger then some numeric.truncate else none

/-! ## The query and the statement -/

structure Paging where
  page : ℤ
  pageSize : ℤ
  deriving DecidableEq

/-- The two fields of `_QueryModel`; none is a validation error. -/
def readPaging (page pageSize : Option Text) : Option Paging := do
  let page ← match page with
    | none => some 1
    | some text => (coerceJsInteger table text).filter (1 ≤ ·)
  let pageSize ← match pageSize with
    | none => some 25
    | some text => (coerceJsInteger table text).filter fun n => 1 ≤ n ∧ n ≤ 100
  pure ⟨page, pageSize⟩

def maxPageSize : ℤ := 100

/-- `_assert_page`. -/
def assertPage (paging : Paging) : Option Paging :=
  if paging.page < 1 ∨ ¬(1 ≤ paging.pageSize ∧ paging.pageSize ≤ maxPageSize) then none
  else some paging

/-- What a list route accepts. -/
def acceptedPaging (page pageSize : Option Text) : Option Paging :=
  (readPaging table page pageSize).bind assertPage

def Paging.offset (paging : Paging) : ℤ := (paging.page - 1) * paging.pageSize

def Paging.limit (paging : Paging) : ℤ := paging.pageSize

/-- Every accepted paging has a limit from 1 to 100 and no negative offset. The offset fits in 64
bits if and only if the page is not too large, which nothing checks. -/
theorem acceptedPaging_fits {page pageSize : Option Text} {paging : Paging}
    (h : acceptedPaging table page pageSize = some paging) :
    0 ≤ paging.offset ∧ (1 ≤ paging.limit ∧ paging.limit ≤ 100) ∧
      (paging.offset ≤ 2 ^ 63 - 1 ↔ paging.page ≤ (2 ^ 63 - 1) / paging.pageSize + 1) := by
  obtain ⟨read, -, hassert⟩ := Option.bind_eq_some_iff.mp h
  unfold assertPage at hassert
  split_ifs at hassert with hbounds
  obtain rfl := Option.some.inj hassert
  rw [not_or, not_not, maxPageSize] at hbounds
  obtain ⟨hpage, hsize, hmax⟩ := hbounds
  refine ⟨Int.mul_nonneg (by omega) (by omega), ⟨hsize, hmax⟩, ?_⟩
  rw [Paging.offset, ← Int.le_ediv_iff_mul_le (by omega)]
  omega

def asciiDigits : DigitTable where
  decimal _ := none

theorem acceptedPaging_fits_example :
    acceptedPaging asciiDigits (some "2e0".toList) (some "0x10".toList) = some ⟨2, 16⟩ ∧
      (⟨2, 16⟩ : Paging).offset ≤ 2 ^ 63 - 1 := by
  have haccepted : acceptedPaging asciiDigits (some "2e0".toList) (some "0x10".toList) =
      some ⟨2, 16⟩ := by decide +kernel
  obtain ⟨-, -, hoffset⟩ := acceptedPaging_fits asciiDigits haccepted
  exact ⟨haccepted, hoffset.mpr (by decide)⟩

/-- Page 10^19 is accepted. -/
theorem hugePage_accepted : ∃ paging,
    acceptedPaging asciiDigits (some "1e19".toList) none = some paging ∧
      ¬ paging.offset ≤ 2 ^ 63 - 1 := by
  have haccepted : acceptedPaging asciiDigits (some "1e19".toList) none = some ⟨10 ^ 19, 25⟩ := by
    decide +kernel
  exact ⟨_, haccepted, by decide⟩

end WiseacctSso.AdminPaging
