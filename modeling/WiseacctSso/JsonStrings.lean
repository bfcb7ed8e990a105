import WiseacctSso.Json

/-!
# JSON strings

A Python string is a sequence of code points, surrogates among them. Written with
`ensure_ascii` it becomes ASCII text with escapes of UTF-16 units; the scanner reads the
units and joins the surrogates that form a pair.
-/
namespace Json

abbrev CodePoint : Type := Fin 0x110000

abbrev PyStr : Type := List CodePoint

instance : LawfulBEq PyStr := inferInstance

def codePoint (n : ℕ) : CodePoint := Fin.ofNat 0x110000 n

def ofString (s : String) : PyStr := s.toList.map fun c => codePoint c.toNat

def isHigh (c : CodePoint) : Bool := 0xD800 ≤ c.val && c.val ≤ 0xDBFF

def isLow (c : CodePoint) : Bool := 0xDC00 ≤ c.val && c.val ≤ 0xDFFF

/-- No high surrogate stands right before a low one. -/
def Unpaired (s : PyStr) : Prop := s.IsChain fun c d => ¬ (isHigh c ∧ isLow d)

lemma val_codePoint {n : ℕ} (h : n < 0x110000) : (codePoint n).val = n := Nat.mod_eq_of_lt h

lemma codePoint_val (c : CodePoint) : codePoint c.val = c := Fin.ext (val_codePoint c.isLt)

/-! ## UTF-16 units -/

/-- The units of a code point beyond the basic plane. -/
def highUnit (c : CodePoint) : ℕ := 0xD800 + (c.val - 0x10000) / 0x400

def lowUnit (c : CodePoint) : ℕ := 0xDC00 + (c.val - 0x10000) % 0x400

def units (c : CodePoint) : PyStr :=
  if c.val < 0x10000 then [c] else [codePoint (highUnit c), codePoint (lowUnit c)]

def joinUnits (high low : CodePoint) : CodePoint :=
  codePoint (0x10000 + (high.val - 0xD800) * 0x400 + (low.val - 0xDC00))

def joinSurrogates : PyStr → PyStr
  | [] => []
  | [c] => [c]
  | c :: d :: rest =>
      if isHigh c ∧ isLow d then joinUnits c d :: joinSurrogates rest
      else c :: joinSurrogates (d :: rest)

lemma highUnit_lt (c : CodePoint) : highUnit c < 0xDC00 := by
  have := c.isLt
  unfold highUnit
  omega

lemma lowUnit_lt (c : CodePoint) : lowUnit c < 0xE000 := by
  unfold lowUnit
  omega

lemma isHigh_highUnit (c : CodePoint) : isHigh (codePoint (highUnit c)) = true := by
  have h := highUnit_lt c
  simp only [isHigh, val_codePoint (show highUnit c < 0x110000 by omega), Bool.and_eq_true,
    decide_eq_true_eq]
  unfold highUnit at h ⊢
  omega

lemma isLow_lowUnit (c : CodePoint) : isLow (codePoint (lowUnit c)) = true := by
  have h := lowUnit_lt c
  simp only [isLow, val_codePoint (show lowUnit c < 0x110000 by omega), Bool.and_eq_true,
    decide_eq_true_eq]
  unfold lowUnit at h ⊢
  omega

lemma not_isLow_of_isHigh {c : CodePoint} (h : isHigh c = true) : isLow c = false := by
  simp only [isHigh, Bool.and_eq_true, decide_eq_true_eq] at h
  simp only [isLow, Bool.and_eq_false_iff, decide_eq_false_iff_not]
  omega

lemma joinUnits_units {c : CodePoint} (h : 0x10000 ≤ c.val) :
    joinUnits (codePoint (highUnit c)) (codePoint (lowUnit c)) = c := by
  have hlt := c.isLt
  have hhigh := highUnit_lt c
  have hlow := lowUnit_lt c
  have hval : 0x10000 + (highUnit c - 0xD800) * 0x400 + (lowUnit c - 0xDC00) = c.val := by
    unfold highUnit lowUnit
    omega
  rw [joinUnits, val_codePoint (by omega), val_codePoint (by omega), hval, codePoint_val]

/-- What follows a code point does not start with the second half of a pair. -/
lemma joinSurrogates_cons {c : CodePoint} {s : PyStr}
    (h : ∀ d ∈ s.head?, ¬ (isHigh c ∧ isLow d)) :
    joinSurrogates (c :: s) = c :: joinSurrogates s := by
  cases s with
  | nil => rfl
  | cons d rest => exact if_neg (h d rfl)

lemma head?_flatMap_units {d : CodePoint} {s : PyStr} (h : d ∈ (s.flatMap units).head?)
    (hlow : isLow d = true) : d ∈ s.head? := by
  cases s with
  | nil => cases h
  | cons c s =>
    rw [List.flatMap_cons] at h
    unfold units at h
    split at h
    · exact h
    · obtain rfl : codePoint (highUnit c) = d := Option.some.inj h
      rw [not_isLow_of_isHigh (isHigh_highUnit c)] at hlow
      cases hlow

/-- Unpaired strings come back from their units. -/
theorem joinSurrogates_flatMap_units {s : PyStr} (h : Unpaired s) :
    joinSurrogates (s.flatMap units) = s := by
  induction s with
  | nil => rfl
  | cons c s ih =>
    have hs : Unpaired s := h.tail
    rw [List.flatMap_cons]
    by_cases hc : c.val < 0x10000
    · rw [units, if_pos hc, List.singleton_append, joinSurrogates_cons, ih hs]
      rintro d hd ⟨hhigh, hlow⟩
      cases s with
      | nil => cases hd
      | cons e s =>
        obtain rfl : e = d := Option.some.inj (head?_flatMap_units hd hlow)
        exact (List.isChain_cons_cons.mp h).1 ⟨hhigh, hlow⟩
    · rw [units, if_neg hc, List.cons_append, List.singleton_append, joinSurrogates,
        if_pos ⟨isHigh_highUnit c, isLow_lowUnit c⟩, joinUnits_units (by omega), ih hs]

/-! ## Escapes -/

/-- `\uXXXX`, in lower case. -/
def escapeUnit (n : ℕ) : List Char :=
  ['\\', 'u', Nat.digitChar (n / 0x1000), Nat.digitChar (n / 0x100 % 0x10),
    Nat.digitChar (n / 0x10 % 0x10), Nat.digitChar (n % 0x10)]

/-- The letter of a short escape and the code point it stands for. -/
def shortEscapes : List (Char × ℕ) :=
  [('"', 0x22), ('\\', 0x5C), ('n', 0x0A), ('r', 0x0D), ('t', 0x09), ('f', 0x0C), ('b', 0x08)]

/-- `py_encode_basestring_ascii`. -/
def escapeChar (c : CodePoint) : List Char :=
  match shortEscapes.find? fun escape => escape.2 = c.val with
  | some escape => ['\\', escape.1]
  | none =>
      if 0x20 ≤ c.val ∧ c.val ≤ 0x7E then [Char.ofNat c.val]
      else (units c).flatMap fun unit => escapeUnit unit.val

def dumpsStr (s : PyStr) : List Char := '"' :: (s.flatMap escapeChar ++ ['"'])

def hexValue (c : Char) : Option ℕ :=
  if '0' ≤ c ∧ c ≤ '9' then some (c.toNat - 0x30)
  else if 'a' ≤ c ∧ c ≤ 'f' then some (c.toNat - 0x57)
  else if 'A' ≤ c ∧ c ≤ 'F' then some (c.toNat - 0x37)
  else none

def hexUnit (a b c d : Char) : Option ℕ := do
  let a ← hexValue a
  let b ← hexValue b
  let c ← hexValue c
  let d ← hexValue d
  pure (0x1000 * a + 0x100 * b + 0x10 * c + d)

/-- What a short escape stands for; a slash may be escaped as well. -/
def shortEscape (letter : Char) : Option ℕ :=
  if letter = '/' then some 0x2F
  else (shortEscapes.find? fun escape => escape.1 = letter).map Prod.snd

/-- The units up to the closing quote, and what follows it; control characters are refused. -/
def scanUnits : List Char → Option (PyStr × List Char)
  | [] => none
  | '"' :: rest => some ([], rest)
  | '\\' :: 'u' :: a :: b :: c :: d :: rest => do
      let unit ← hexUnit a b c d
      let (s, rest) ← scanUnits rest
      pure (codePoint unit :: s, rest)
  | '\\' :: letter :: rest => do
      let unit ← shortEscape letter
      let (s, rest) ← scanUnits rest
      pure (codePoint unit :: s, rest)
  | c :: rest =>
      if c.toNat < 0x20 then none
      else do
        let (s, rest) ← scanUnits rest
        pure (codePoint c.toNat :: s, rest)

/-- `scanstring`, after the opening quote. -/
def scanString (text : List Char) : Option (PyStr × List Char) :=
  (scanUnits text).map fun scanned => (joinSurrogates scanned.1, scanned.2)

/-! ## What is written is read back -/

lemma hexValue_digitChar {n : ℕ} (h : n < 0x10) : hexValue (Nat.digitChar n) = some n := by
  interval_cases n <;> decide

lemma hexUnit_digits {n : ℕ} (h : n < 0x10000) :
    hexUnit (Nat.digitChar (n / 0x1000)) (Nat.digitChar (n / 0x100 % 0x10))
      (Nat.digitChar (n / 0x10 % 0x10)) (Nat.digitChar (n % 0x10)) = some n := by
  have hsum : 0x1000 * (n / 0x1000) + 0x100 * (n / 0x100 % 0x10) + 0x10 * (n / 0x10 % 0x10) +
      n % 0x10 = n := by omega
  simp only [hexUnit, hexValue_digitChar (show n / 0x1000 < 0x10 by omega),
    hexValue_digitChar (show n / 0x100 % 0x10 < 0x10 by omega),
    hexValue_digitChar (show n / 0x10 % 0x10 < 0x10 by omega),
    hexValue_digitChar (show n % 0x10 < 0x10 by omega), bind, Option.bind, pure, hsum]

lemma scanUnits_escapeUnit {n : ℕ} (h : n < 0x10000) (rest : List Char) :
    scanUnits (escapeUnit n ++ rest) =
      (scanUnits rest).map fun scanned => (codePoint n :: scanned.1, scanned.2) := by
  simp only [escapeUnit, List.cons_append, List.nil_append, scanUnits, hexUnit_digits h]
  cases scanUnits rest <;> rfl

lemma scanUnits_shortEscape {letter : Char} {n : ℕ} (h : shortEscape letter = some n)
    (rest : List Char) :
    scanUnits ('\\' :: letter :: rest) =
      (scanUnits rest).map fun scanned => (codePoint n :: scanned.1, scanned.2) := by
  have hu : letter ≠ 'u' := by
    rintro rfl
    cases h
  rw [scanUnits]
  · rw [h]
    cases scanUnits rest <;> rfl
  · intro a b c d rest' hletter
    exact absurd hletter hu

lemma scanUnits_plain {c : Char} (hquote : c ≠ '"') (hbackslash : c ≠ '\\')
    (hcontrol : 0x20 ≤ c.toNat) (rest : List Char) :
    scanUnits (c :: rest) =
      (scanUnits rest).map fun scanned => (codePoint c.toNat :: scanned.1, scanned.2) := by
  rw [scanUnits]
  · rw [if_neg (by omega)]
    cases scanUnits rest <;> rfl
  · exact hquote
  · exact fun _ _ _ _ _ h _ => hbackslash h
  · exact fun _ _ h _ => hbackslash h

lemma shortEscape_of_mem {escape : Char × ℕ} (h : escape ∈ shortEscapes) :
    shortEscape escape.1 = some escape.2 := by
  revert escape
  decide

lemma toNat_ofNat_of_lt {n : ℕ} (h : n < 0x80) : (Char.ofNat n).toNat = n := by
  rw [Char.toNat_ofNat, if_pos (.inl (by omega))]

lemma units_lt (c : CodePoint) : ∀ unit ∈ units c, unit.val < 0x10000 := by
  have hhigh := highUnit_lt c
  have hlow := lowUnit_lt c
  intro unit hunit
  unfold units at hunit
  split at hunit
  · obtain rfl := List.mem_singleton.mp hunit
    assumption
  · simp only [List.mem_cons, List.not_mem_nil, or_false] at hunit
    obtain rfl | rfl := hunit
    · rw [val_codePoint (by omega)]
      omega
    · rw [val_codePoint (by omega)]
      omega

lemma scanUnits_escapeUnits {us : PyStr} (h : ∀ unit ∈ us, unit.val < 0x10000)
    (rest : List Char) :
    scanUnits ((us.flatMap fun unit => escapeUnit unit.val) ++ rest) =
      (scanUnits rest).map fun scanned => (us ++ scanned.1, scanned.2) := by
  induction us with
  | nil => simp
  | cons unit us ih =>
    rw [List.forall_mem_cons] at h
    rw [List.flatMap_cons, List.append_assoc, scanUnits_escapeUnit h.1, ih h.2, codePoint_val,
      Option.map_map]
    rfl

/-- A character in the text of a string reads back as the units of its code point. -/
lemma scanUnits_escapeChar (c : CodePoint) (rest : List Char) :
    scanUnits (escapeChar c ++ rest) =
      (scanUnits rest).map fun scanned => (units c ++ scanned.1, scanned.2) := by
  unfold escapeChar
  split
  · rename_i escape hfind
    have hval : escape.2 = c.val := by simpa using List.find?_some hfind
    have hmem := List.mem_of_find?_eq_some hfind
    have hsmall : ∀ escape ∈ shortEscapes, escape.2 < 0x10000 := by decide
    have hunits : units c = [c] := if_pos (hval ▸ hsmall escape hmem)
    rw [List.cons_append, List.singleton_append,
      scanUnits_shortEscape (shortEscape_of_mem hmem), hval, codePoint_val, hunits]
    rfl
  · rename_i hfind
    split
    · rename_i hplain
      have hunits : units c = [c] := if_pos (by omega)
      have htoNat : (Char.ofNat c.val).toNat = c.val := toNat_ofNat_of_lt (by omega)
      have hne : ∀ escape ∈ shortEscapes, escape.2 ≠ c.val := by simpa using hfind
      have hquote : Char.ofNat c.val ≠ '"' := by
        intro h
        exact hne ('"', 0x22) (by decide) (by rw [← htoNat, h]; rfl)
      have hbackslash : Char.ofNat c.val ≠ '\\' := by
        intro h
        exact hne ('\\', 0x5C) (by decide) (by rw [← htoNat, h]; rfl)
      rw [List.singleton_append, scanUnits_plain hquote hbackslash (by omega), htoNat,
        codePoint_val, hunits]
      rfl
    · exact scanUnits_escapeUnits (units_lt c) rest

/-- Whatever the string, the scanner gives its units. -/
lemma scanUnits_dumps (s : PyStr) (rest : List Char) :
    scanUnits (s.flatMap escapeChar ++ '"' :: rest) = some (s.flatMap units, rest) := by
  induction s with
  | nil => rfl
  | cons c s ih =>
    rw [List.flatMap_cons, List.append_assoc, scanUnits_escapeChar, ih, List.flatMap_cons]
    rfl

/-- A string without a split pair is read back. -/
theorem scanString_dumps {s : PyStr} (h : Unpaired s) (rest : List Char) :
    scanString (s.flatMap escapeChar ++ '"' :: rest) = some (s, rest) := by
  rw [scanString, scanUnits_dumps, Option.map_some, joinSurrogates_flatMap_units h]

/-! ## The text is ASCII -/

def IsAscii (text : List Char) : Prop := ∀ c ∈ text, c.toNat < 0x80

lemma isAscii_append {s t : List Char} (hs : IsAscii s) (ht : IsAscii t) : IsAscii (s ++ t) := by
  intro c hc
  exact (List.mem_append.mp hc).elim (hs c) (ht c)

lemma isAscii_digitChar {n : ℕ} (h : n < 0x10) : (Nat.digitChar n).toNat < 0x80 := by
  interval_cases n <;> decide

lemma isAscii_escapeUnit {n : ℕ} (h : n < 0x10000) : IsAscii (escapeUnit n) := by
  intro c hc
  simp only [escapeUnit, List.mem_cons, List.not_mem_nil, or_false] at hc
  obtain rfl | rfl | rfl | rfl | rfl | rfl := hc
  · decide
  · decide
  all_goals exact isAscii_digitChar (by omega)

lemma isAscii_escapeChar (c : CodePoint) : IsAscii (escapeChar c) := by
  unfold escapeChar
  split
  · rename_i escape hfind
    have hletters : ∀ escape ∈ shortEscapes, escape.1.toNat < 0x80 := by decide
    have hletter := hletters escape (List.mem_of_find?_eq_some hfind)
    intro d hd
    simp only [List.mem_cons, List.not_mem_nil, or_false] at hd
    obtain rfl | rfl := hd
    · decide
    · exact hletter
  · split
    · intro d hd
      obtain rfl := List.mem_singleton.mp hd
      rw [toNat_ofNat_of_lt (by omega)]
      omega
    · intro d hd
      obtain ⟨unit, hunit, hd⟩ := List.mem_flatMap.mp hd
      exact isAscii_escapeUnit (units_lt c unit hunit) d hd

lemma isAscii_dumpsStr (s : PyStr) : IsAscii (dumpsStr s) := by
  have hbody : IsAscii (s.flatMap escapeChar) := by
    intro d hd
    obtain ⟨c, -, hd⟩ := List.mem_flatMap.mp hd
    exact isAscii_escapeChar c d hd
  have hquote : IsAscii ['"'] := by simp [IsAscii]
  exact isAscii_append hquote (isAscii_append hbody hquote)

end Json
