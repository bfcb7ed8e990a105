import WiseacctSso.JsonStrings

/-!
# JSON documents

`json.loads` on the text of a document, and `json.dumps` of an object whose values are
strings, nulls, integers and lists of strings. The interpreter's limits on the digits of an
integer and on the nesting of a document are left out.
-/
namespace Json

/-! ## Floats -/

def roundHalfEven (q : ℚ) : ℤ :=
  if q - ⌊q⌋ < 1 / 2 ∨ (q - ⌊q⌋ = 1 / 2 ∧ ⌊q⌋ % 2 = 0) then ⌊q⌋ else ⌊q⌋ + 1

/-- The distance of the doubles around a positive number. -/
def ulp (q : ℚ) : ℚ := 2 ^ max (Int.log 2 q - 52) (-1074)

/-- The double nearest to a nonnegative number, if there is one. -/
def nearestDouble (q : ℚ) : Option ℚ :=
  let v := if q = 0 then 0 else roundHalfEven (q / ulp q) * ulp q
  if v < 2 ^ 1024 then some v else none

namespace PyFloat

/-- The value of a decimal literal. -/
def ofDecimal (negative : Bool) (q : ℚ) : PyFloat :=
  match nearestDouble q with
  | none => .infinity negative
  | some v => .finite (if negative then -v else v)

/-- `float` of an integer; none when it is too large. -/
def ofInt (z : ℤ) : Option PyFloat :=
  (nearestDouble |z|).map fun v => .finite (if z < 0 then -v else v)

def isInteger : PyFloat → Bool
  | finite v => v.den = 1
  | _ => false

def isPositive : PyFloat → Bool
  | infinity negative => !negative
  | finite v => 0 < v
  | nan => false

/-- `int` of a finite float. -/
def truncate : PyFloat → ℤ
  | finite v => v.num.tdiv v.den
  | _ => 0

end PyFloat

/-! ## Numbers -/

def natOfDigits (digits : List Char) : ℕ := Nat.ofDigitChars 10 digits 0

/-- `[eE][-+]?[0-9]+`. -/
def scanExponent : List Char → Option (ℤ × List Char)
  | [] => none
  | e :: rest =>
    let sign : ℤ := if rest.head? = some '-' then -1 else 1
    let rest := if rest.head? = some '-' ∨ rest.head? = some '+' then rest.tail else rest
    let digits := rest.takeWhile Char.isDigit
    if (e = 'e' ∨ e = 'E') ∧ digits ≠ [] then
      some (sign * natOfDigits digits, rest.dropWhile Char.isDigit)
    else none

/-- `\.[0-9]+`. -/
def scanFraction : List Char → Option (List Char × List Char)
  | '.' :: rest =>
    let digits := rest.takeWhile Char.isDigit
    if digits ≠ [] then some (digits, rest.dropWhile Char.isDigit) else none
  | _ => none

/-- `0|[1-9][0-9]*`. -/
def scanWhole : List Char → Option (List Char × List Char)
  | '0' :: rest => some (['0'], rest)
  | text =>
    let digits := text.takeWhile Char.isDigit
    if digits ≠ [] then some (digits, text.dropWhile Char.isDigit) else none

def scanNumber (text : List Char) : Option (Value PyStr × List Char) := do
  let negative := text.head? = some '-'
  let (whole, rest) ← scanWhole (if negative then text.tail else text)
  let (fraction, rest) := (scanFraction rest).getD ([], rest)
  match fraction, scanExponent rest with
  | [], none =>
    pure (.int (if negative then -natOfDigits whole else natOfDigits whole), rest)
  | _, none =>
    pure (.float (.ofDecimal negative
      (natOfDigits (whole ++ fraction) * (10 : ℚ) ^ (-fraction.length : ℤ))), rest)
  | _, some (exponent, rest) =>
    pure (.float (.ofDecimal negative
      (natOfDigits (whole ++ fraction) * (10 : ℚ) ^ (exponent - fraction.length))), rest)

/-! ## Values -/

def skipSpace (text : List Char) : List Char :=
  text.dropWhile fun c => c = ' ' || c = '\t' || c = '\n' || c = '\r'

def literals : List (List Char × Value PyStr) :=
  [("null".toList, .null), ("true".toList, .bool true), ("false".toList, .bool false),
    ("NaN".toList, .float .nan), ("Infinity".toList, .float (.infinity false)),
    ("-Infinity".toList, .float (.infinity true))]

def scanLiteral (text : List Char) : Option (Value PyStr × List Char) :=
  (literals.find? fun literal => literal.1.isPrefixOf text).map fun literal =>
    (literal.2, text.drop literal.1.length)

/-- Of two entries with one key the later one stays. -/
def dictOf : Dict PyStr → Dict PyStr
  | [] => []
  | entry :: entries =>
    if entry.1 ∈ entries.map Prod.fst then dictOf entries else entry :: dictOf entries

mutual

/-- `scan_once`: the value that the text starts with, and what follows it. The fuel bounds the
depth of the calls; it is used up only where the text is. -/
def scanValue : ℕ → List Char → Option (Value PyStr × List Char)
  | 0, _ => none
  | fuel + 1, text =>
    match text with
    | '"' :: rest => (scanString rest).map fun scanned => (.str scanned.1, scanned.2)
    | '{' :: rest =>
      match skipSpace rest with
      | '}' :: rest => some (.dict [], rest)
      | rest => (scanMembers fuel rest).map fun scanned => (.dict (dictOf scanned.1), scanned.2)
    | '[' :: rest =>
      match skipSpace rest with
      | ']' :: rest => some (.list [], rest)
      | rest => (scanItems fuel rest).map fun scanned => (.list scanned.1, scanned.2)
    | text => (scanLiteral text).or (scanNumber text)

def scanItems : ℕ → List Char → Option (List (Value PyStr) × List Char)
  | 0, _ => none
  | fuel + 1, text => do
    let (v, rest) ← scanValue fuel text
    match skipSpace rest with
    | ']' :: rest => pure ([v], rest)
    | ',' :: rest => do
      let (items, rest) ← scanItems fuel (skipSpace rest)
      pure (v :: items, rest)
    | _ => none

def scanMembers : ℕ → List Char → Option (Dict PyStr × List Char)
  | 0, _ => none
  | fuel + 1, text =>
    match text with
    | '"' :: rest => do
      let (key, rest) ← scanString rest
      match skipSpace rest with
      | ':' :: rest => do
        let (v, rest) ← scanValue fuel (skipSpace rest)
        match skipSpace rest with
        | '}' :: rest => pure ([(key, v)], rest)
        | ',' :: rest => do
          let (members, rest) ← scanMembers fuel (skipSpace rest)
          pure ((key, v) :: members, rest)
        | _ => none
      | _ => none
    | _ => none

end

/-- None is `JSONDecodeError`. -/
def loads (text : List Char) : Option (Value PyStr) := do
  let (v, rest) ← scanValue (text.length + 1) (skipSpace text)
  if skipSpace rest = [] then some v else none

/-! ## Writing -/

/-- A value of a flat object. -/
inductive Field
  | str (s : PyStr)
  | null
  | int (z : ℤ)
  | strs (items : List PyStr)

def Field.value : Field → Value PyStr
  | str s => .str s
  | null => .null
  | int z => .int z
  | strs items => .list (items.map .str)

def dumpsInt (z : ℤ) : List Char :=
  if z < 0 then '-' :: Nat.toDigits 10 z.natAbs else Nat.toDigits 10 z.natAbs

/-- The parts with commas between them, and the closing bracket. -/
def dumpsItems (close : Char) : List (List Char) → List Char
  | [] => [close]
  | [item] => item ++ [close]
  | item :: items => item ++ ',' :: dumpsItems close items

def Field.dumps : Field → List Char
  | str s => dumpsStr s
  | null => "null".toList
  | int z => dumpsInt z
  | strs items => '[' :: dumpsItems ']' (items.map dumpsStr)

def dumpsMember (member : PyStr × Field) : List Char :=
  dumpsStr member.1 ++ ':' :: member.2.dumps

/-- `separators=(",", ":")`. -/
def dumps (members : List (PyStr × Field)) : List Char :=
  '{' :: dumpsItems '}' (members.map dumpsMember)

end Json
