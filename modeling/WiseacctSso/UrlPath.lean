import Mathlib

/-!
# Percent-decoding and UTF-8 decoding of paths

A text is its sequence of code points, lone surrogates included. `unquote` decodes `%xx`
to bytes and the bytes as UTF-8, each maximal invalid part giving one U+FFFD.
-/
namespace WiseacctSso.UrlPath

abbrev CodePoints : Type := List ℕ

instance : LawfulBEq CodePoints := inferInstance

def text (s : String) : CodePoints := s.toList.map Char.toNat

def asciiLowerChar (c : ℕ) : ℕ := if 65 ≤ c ∧ c ≤ 90 then c + 32 else c

def asciiLower (value : CodePoints) : CodePoints := value.map asciiLowerChar

def hexValue (b : UInt8) : Option ℕ :=
  if 48 ≤ b.toNat ∧ b.toNat ≤ 57 then some (b.toNat - 48)
  else if 65 ≤ b.toNat ∧ b.toNat ≤ 70 then some (b.toNat - 55)
  else if 97 ≤ b.toNat ∧ b.toNat ≤ 102 then some (b.toNat - 87)
  else none

/-- A percent sign that no two hexadecimal digits follow stays as it is. -/
def percentDecode : List UInt8 → List UInt8
  | [] => []
  | [b] => [b]
  | [b, h] => [b, h]
  | b :: h :: l :: rest =>
      if b = 37 then
        match hexValue h, hexValue l with
        | some x, some y => .ofNat (16 * x + y) :: percentDecode rest
        | _, _ => b :: percentDecode (h :: l :: rest)
      else b :: percentDecode (h :: l :: rest)

/-- The ranges of the continuation bytes that a lead byte asks for. -/
def leadRanges (b : UInt8) : List (ℕ × ℕ) :=
  if 0xC2 ≤ b.toNat ∧ b.toNat ≤ 0xDF then [(0x80, 0xBF)]
  else if b.toNat = 0xE0 then [(0xA0, 0xBF), (0x80, 0xBF)]
  else if b.toNat = 0xED then [(0x80, 0x9F), (0x80, 0xBF)]
  else if 0xE1 ≤ b.toNat ∧ b.toNat ≤ 0xEF then [(0x80, 0xBF), (0x80, 0xBF)]
  else if b.toNat = 0xF0 then [(0x90, 0xBF), (0x80, 0xBF), (0x80, 0xBF)]
  else if 0xF1 ≤ b.toNat ∧ b.toNat ≤ 0xF3 then [(0x80, 0xBF), (0x80, 0xBF), (0x80, 0xBF)]
  else if b.toNat = 0xF4 then [(0x80, 0x8F), (0x80, 0xBF), (0x80, 0xBF)]
  else []

/-- The bits of the code point that a lead byte carries. -/
def leadBits (b : UInt8) : ℕ :=
  if b.toNat < 0xE0 then b.toNat - 0xC0 else if b.toNat < 0xF0 then b.toNat - 0xE0
  else b.toNat - 0xF0

def replacement : ℕ := 0xFFFD

/-- A code point under way: its bits so far and the continuation bytes still to come. -/
structure Pending where
  bits : ℕ
  ranges : List (ℕ × ℕ)

def Pending.idle : Pending := ⟨0, []⟩

/-- A byte that starts a code point, with the code points it completes. -/
def leadStep (b : UInt8) : CodePoints × Pending :=
  if b.toNat < 128 then ([b.toNat], .idle)
  else if leadRanges b = [] then ([replacement], .idle)
  else ([], ⟨leadBits b, leadRanges b⟩)

def utf8Step (pending : Pending) (b : UInt8) : CodePoints × Pending :=
  match pending.ranges with
  | [] => leadStep b
  | (lo, hi) :: ranges =>
      if lo ≤ b.toNat ∧ b.toNat ≤ hi then
        let bits := 64 * pending.bits + (b.toNat - 128)
        if ranges = [] then ([bits], .idle) else ([], ⟨bits, ranges⟩)
      else (replacement :: (leadStep b).1, (leadStep b).2)

def decodeFrom (pending : Pending) : List UInt8 → CodePoints
  | [] => if pending.ranges = [] then [] else [replacement]
  | b :: rest => (utf8Step pending b).1 ++ decodeFrom (utf8Step pending b).2 rest

/-- `bytes.decode("utf-8", errors="replace")`. -/
def decodeUtf8 (bytes : List UInt8) : CodePoints := decodeFrom .idle bytes

def unquote (bytes : List UInt8) : CodePoints := decodeUtf8 (percentDecode bytes)

/-- `bytes.decode("ascii", errors="surrogateescape")`. -/
def surrogateEscape (bytes : List UInt8) : CodePoints :=
  bytes.map fun b => if b.toNat < 128 then b.toNat else 0xDC00 + b.toNat

/-! ## Segments -/

/-- A segment does not contain what the text was split at. -/
lemma notMem_of_mem_splitOn {α : Type} [DecidableEq α] {sep : α} {bytes segment : List α}
    (h : segment ∈ bytes.splitOn sep) : sep ∉ segment := by
  induction bytes generalizing segment with
  | nil => simp_all
  | cons b bytes ih =>
    rw [List.splitOn_cons_eq_if_modifyHead] at h
    split at h
    · rcases List.mem_cons.mp h with rfl | h
      · simp
      · exact ih h
    · rename_i hne
      cases hsplit : bytes.splitOn sep with
      | nil => exact absurd hsplit (List.splitOn_ne_nil _ _)
      | cons first segments =>
        rw [hsplit] at h ih
        rcases List.mem_cons.mp h with rfl | h
        · have hfirst := ih List.mem_cons_self
          intro hmem
          rcases List.mem_cons.mp hmem with rfl | hmem
          · simp at hne
          · exact hfirst hmem
        · exact ih (List.mem_cons_of_mem _ h)

lemma intercalate_concat_nil {α : Type} {sep : α} {segments : List (List α)}
    (h : segments ≠ []) :
    [sep].intercalate (segments ++ [[]]) = [sep].intercalate segments ++ [sep] := by
  induction segments with
  | nil => exact absurd rfl h
  | cons segment segments ih =>
    cases segments with
    | nil => simp [List.intercalate]
    | cons next segments =>
      have htail := ih (by simp)
      simp only [List.intercalate, List.cons_append, List.intersperse, List.flatten_cons,
        List.append_assoc] at htail ⊢
      rw [htail]

/-- The last segment is empty only after a separator. -/
lemma getLast_of_splitOn {α : Type} [DecidableEq α] {sep : α} {path : List α} (hne : path ≠ [])
    (h : (path.splitOn sep).getLast? = some []) : path.getLast? = some sep := by
  obtain ⟨segments, hsegments⟩ := List.getLast?_eq_some_iff.mp h
  have hpath : [sep].intercalate (path.splitOn sep) = path := List.intercalate_splitOn sep
  rw [hsegments] at hpath
  by_cases hnil : segments = []
  · subst hnil
    exact absurd hpath.symm hne
  · rw [intercalate_concat_nil hnil] at hpath
    rw [← hpath]
    simp

/-! ## ASCII -/

lemma decodeUtf8_cons {b : UInt8} (h : b.toNat < 128) (rest : List UInt8) :
    decodeUtf8 (b :: rest) = b.toNat :: decodeUtf8 rest := by
  have hstep : utf8Step .idle b = ([b.toNat], .idle) := by
    simp [utf8Step, Pending.idle, leadStep, h]
  rw [decodeUtf8, decodeFrom, hstep]
  rfl

lemma percentDecode_cons {b : UInt8} (h : b ≠ 37) (rest : List UInt8) :
    percentDecode (b :: rest) = b :: percentDecode rest := by
  match rest with
  | [] => rfl
  | [_] => rfl
  | _ :: _ :: _ => rw [percentDecode, if_neg h]

/-- Plain ASCII in front is left as it is. -/
lemma unquote_cons {b : UInt8} (hascii : b.toNat < 128) (hpercent : b ≠ 37)
    (rest : List UInt8) : unquote (b :: rest) = b.toNat :: unquote rest := by
  rw [unquote, percentDecode_cons hpercent, decodeUtf8_cons hascii, unquote]

/-- Plain ASCII is left as it is. -/
lemma unquote_of_plain {bytes : List UInt8} (h : ∀ b ∈ bytes, b.toNat < 128 ∧ b ≠ 37) :
    unquote bytes = surrogateEscape bytes := by
  induction bytes with
  | nil => rfl
  | cons b rest ih =>
    obtain ⟨hascii, hpercent⟩ := h b List.mem_cons_self
    rw [unquote_cons hascii hpercent, ih fun b' hb' => h b' (List.mem_cons_of_mem _ hb'),
      surrogateEscape, surrogateEscape, List.map_cons, if_pos hascii]

@[simp] lemma asciiLower_nil : asciiLower [] = [] := rfl

@[simp] lemma asciiLower_cons (c : ℕ) (value : CodePoints) :
    asciiLower (c :: value) = asciiLowerChar c :: asciiLower value := rfl

@[simp] lemma asciiLower_append (a b : CodePoints) :
    asciiLower (a ++ b) = asciiLower a ++ asciiLower b := List.map_append ..

/-- A character that lower-cases to one outside the small letters is that character. -/
lemma eq_of_asciiLowerChar {c d : ℕ} (h : asciiLowerChar c = d) (hd : ¬ (97 ≤ d ∧ d ≤ 122)) :
    c = d := by
  unfold asciiLowerChar at h
  split at h <;> omega

lemma asciiLowerChar_lt {c n : ℕ} (h : asciiLowerChar c < n) : c < n := by
  unfold asciiLowerChar at h
  split at h <;> omega

end WiseacctSso.UrlPath
