import WiseacctSso.UrlPath

/-!
# Base64

The standard alphabet with padding, written three bytes at a time and read strictly, a character
at a time.
-/
namespace Base64

/-! ## Encoding -/

/-- The character of a value below 64. -/
def char (n : ℕ) : UInt8 :=
  if n < 26 then .ofNat (65 + n)
  else if n < 52 then .ofNat (71 + n)
  else if n < 62 then .ofNat (n - 4)
  else if n = 62 then 43 else 47

def encode : List UInt8 → List UInt8
  | [] => []
  | [a] => [char (a.toNat / 4), char (a.toNat % 4 * 16), 61, 61]
  | [a, b] =>
      [char (a.toNat / 4), char (a.toNat % 4 * 16 + b.toNat / 16), char (b.toNat % 16 * 4), 61]
  | a :: b :: c :: rest =>
      char (a.toNat / 4) :: char (a.toNat % 4 * 16 + b.toNat / 16) ::
        char (b.toNat % 16 * 4 + c.toNat / 64) :: char (c.toNat % 64) :: encode rest

lemma encode_length (bytes : List UInt8) :
    (encode bytes).length = 4 * ((bytes.length + 2) / 3) := by
  fun_induction encode bytes with
  | case1 => rfl
  | case2 => simp
  | case3 => simp
  | case4 a b c rest ih =>
    simp only [List.length_cons, ih]
    omega

/-! ## Strict decoding -/

def value (c : UInt8) : Option ℕ :=
  if 65 ≤ c.toNat ∧ c.toNat ≤ 90 then some (c.toNat - 65)
  else if 97 ≤ c.toNat ∧ c.toNat ≤ 122 then some (c.toNat - 71)
  else if 48 ≤ c.toNat ∧ c.toNat ≤ 57 then some (c.toNat + 4)
  else if c = 43 then some 62
  else if c = 47 then some 63
  else none

/-- What the reader remembers: the place in the group of four, the bits left over, the padding
seen in this place, and whether any padding was seen. -/
structure Progress where
  quadPos : ℕ
  leftChar : ℕ
  pads : ℕ
  paddingStarted : Bool

def Progress.start : Progress := ⟨0, 0, 0, false⟩

/-- The next character's value, with the byte it completes. -/
def Progress.next (p : Progress) (v : ℕ) : List UInt8 × Progress :=
  match p.quadPos with
  | 0 => ([], { p with quadPos := 1, leftChar := v, pads := 0 })
  | 1 =>
    ([.ofNat (p.leftChar * 4 + v / 16)], { p with quadPos := 2, leftChar := v % 16, pads := 0 })
  | 2 =>
    ([.ofNat (p.leftChar * 16 + v / 4)], { p with quadPos := 3, leftChar := v % 4, pads := 0 })
  | _ => ([.ofNat (p.leftChar * 64 + v)], { p with quadPos := 0, leftChar := 0, pads := 0 })

def decodeFrom (p : Progress) : List UInt8 → Option (List UInt8)
  | [] => if p.quadPos = 0 then some [] else none
  | c :: rest =>
    if c = 61 then
      if 2 ≤ p.quadPos then
        -- enough padding ends the text
        if 4 ≤ p.quadPos + (p.pads + 1) then (if rest = [] then some [] else none)
        else decodeFrom { p with pads := p.pads + 1, paddingStarted := true } rest
      else decodeFrom { p with paddingStarted := true } rest
    else
      match value c with
      | none => none
      | some v =>
        if p.paddingStarted then none
        else (decodeFrom (p.next v).2 rest).map ((p.next v).1 ++ ·)

/-- `binascii.a2b_base64(text, strict_mode=True)`; none is `binascii.Error`. -/
def decodeStrict (text : List UInt8) : Option (List UInt8) :=
  if text.head? = some 61 then none else decodeFrom .start text

/-! ## What is written is read back -/

lemma value_char {n : ℕ} (h : n < 64) : value (char n) = some n := by
  interval_cases n <;> decide

lemma char_ne_pad {n : ℕ} (h : n < 64) : char n ≠ 61 := by
  interval_cases n <;> decide

lemma char_letters {n : ℕ} (h : n < 64) : 33 ≤ (char n).toNat ∧ (char n).toNat < 127 := by
  interval_cases n <;> decide

lemma decodeFrom_char {p : Progress} (hp : p.paddingStarted = false) {n : ℕ} (hn : n < 64)
    (rest : List UInt8) :
    decodeFrom p (char n :: rest) = (decodeFrom (p.next n).2 rest).map ((p.next n).1 ++ ·) := by
  rw [decodeFrom, if_neg (char_ne_pad hn), value_char hn]
  simp [hp]

lemma ofNat_eq {b : UInt8} {n : ℕ} (h : n = b.toNat) : UInt8.ofNat n = b := by
  rw [h, UInt8.ofNat_toNat]

section group

variable {v : ℕ} {rest : List UInt8}

/-- Two characters give a byte. -/
lemma decodeFrom_first {a : UInt8} (hv : v < 64) (ha : v / 16 = a.toNat % 4) :
    decodeFrom .start (char (a.toNat / 4) :: char v :: rest) =
      (decodeFrom ⟨2, v % 16, 0, false⟩ rest).map (a :: ·) := by
  have hbyte : a.toNat < 256 := a.toNat_lt
  have hjoin : UInt8.ofNat (a.toNat / 4 * 4 + v / 16) = a := ofNat_eq (by omega)
  rw [decodeFrom_char rfl (by omega), decodeFrom_char rfl hv]
  simp only [Progress.start, Progress.next, hjoin, List.nil_append, Option.map_id']
  rfl

/-- The third one gives the next. -/
lemma decodeFrom_second {b : UInt8} {l : ℕ} (hv : v < 64) (hl : l = b.toNat / 16)
    (hb : v / 4 = b.toNat % 16) :
    decodeFrom ⟨2, l, 0, false⟩ (char v :: rest) =
      (decodeFrom ⟨3, v % 4, 0, false⟩ rest).map (b :: ·) := by
  have hjoin : UInt8.ofNat (l * 16 + v / 4) = b := ofNat_eq (by omega)
  rw [decodeFrom_char rfl hv]
  simp only [Progress.next, hjoin]
  rfl

/-- The fourth one completes the group. -/
lemma decodeFrom_third {c : UInt8} {l : ℕ} (hl : l = c.toNat / 64) :
    decodeFrom ⟨3, l, 0, false⟩ (char (c.toNat % 64) :: rest) =
      (decodeFrom .start rest).map (c :: ·) := by
  have hjoin : UInt8.ofNat (l * 64 + c.toNat % 64) = c := ofNat_eq (by omega)
  rw [decodeFrom_char rfl (by omega)]
  simp only [Progress.next, hjoin]
  rfl

end group

lemma decodeFrom_encode (bytes : List UInt8) :
    decodeFrom .start (encode bytes) = some bytes := by
  fun_induction encode bytes with
  | case1 => rfl
  | case2 a =>
    have ha : a.toNat < 256 := a.toNat_lt
    rw [decodeFrom_first (by omega) (by omega)]
    rfl
  | case3 a b =>
    have ha : a.toNat < 256 := a.toNat_lt
    have hb : b.toNat < 256 := b.toNat_lt
    rw [decodeFrom_first (by omega) (by omega),
      decodeFrom_second (b := b) (by omega) (by omega) (by omega)]
    rfl
  | case4 a b c rest ih =>
    have ha : a.toNat < 256 := a.toNat_lt
    have hb : b.toNat < 256 := b.toNat_lt
    have hc : c.toNat < 256 := c.toNat_lt
    rw [decodeFrom_first (by omega) (by omega),
      decodeFrom_second (b := b) (by omega) (by omega) (by omega), decodeFrom_third (by omega), ih]
    rfl

lemma mem_encode {bytes : List UInt8} {c : UInt8} (h : c ∈ encode bytes) :
    33 ≤ c.toNat ∧ c.toNat < 127 := by
  fun_induction encode bytes with
  | case1 => cases h
  | case2 a =>
    have ha : a.toNat < 256 := a.toNat_lt
    simp only [List.mem_cons, List.not_mem_nil, or_false] at h
    obtain rfl | rfl | rfl | rfl := h
    · exact char_letters (by omega)
    · exact char_letters (by omega)
    · decide
    · decide
  | case3 a b =>
    have ha : a.toNat < 256 := a.toNat_lt
    have hb : b.toNat < 256 := b.toNat_lt
    simp only [List.mem_cons, List.not_mem_nil, or_false] at h
    obtain rfl | rfl | rfl | rfl := h
    · exact char_letters (by omega)
    · exact char_letters (by omega)
    · exact char_letters (by omega)
    · decide
  | case4 a b c rest ih =>
    have ha : a.toNat < 256 := a.toNat_lt
    have hb : b.toNat < 256 := b.toNat_lt
    have hc : c.toNat < 256 := c.toNat_lt
    simp only [List.mem_cons] at h
    obtain rfl | rfl | rfl | rfl | h := h
    · exact char_letters (by omega)
    · exact char_letters (by omega)
    · exact char_letters (by omega)
    · exact char_letters (by omega)
    · exact ih h

lemma encode_head (a : UInt8) (rest : List UInt8) :
    (encode (a :: rest)).head? = some (char (a.toNat / 4)) := by
  match rest with
  | [] => rfl
  | [_] => rfl
  | _ :: _ :: _ => rfl

lemma decodeStrict_encode (bytes : List UInt8) : decodeStrict (encode bytes) = some bytes := by
  have hhead : (encode bytes).head? ≠ some 61 := by
    cases bytes with
    | nil => simp [encode]
    | cons a rest =>
      have ha : a.toNat < 256 := a.toNat_lt
      rw [encode_head]
      intro h
      exact char_ne_pad (by omega) (Option.some.inj h)
  rw [decodeStrict, if_neg hhead, decodeFrom_encode]

end Base64
