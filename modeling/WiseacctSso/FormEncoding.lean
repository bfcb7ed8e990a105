import WiseacctSso.UrlPath
import WiseacctSso.PythonText

/-!
# Form encoding

`application/x-www-form-urlencoded` text as bytes: names and values are written in UTF-8,
byte by byte, and read back by undoing the plus signs, the percent escapes and the UTF-8.
-/
namespace FormEncoding
open WiseacctSso.UrlPath

/-! ## UTF-8 -/

def utf8 (s : String) : List UInt8 := s.toByteArray.data.toList

/-- `bytes.decode("utf-8", "strict")`; none is `UnicodeDecodeError`. -/
def decodeStrict (bytes : List UInt8) : Option String := String.fromUTF8? ⟨bytes.toArray⟩

/-- `bytes.decode("utf-8", "replace")`. -/
def decodeReplace (bytes : List UInt8) : String :=
  String.ofList ((decodeUtf8 bytes).map Char.ofNat)

lemma decodeStrict_utf8 (s : String) : decodeStrict (utf8 s) = some s := by
  have h : (⟨(utf8 s).toArray⟩ : ByteArray) = s.toByteArray := rfl
  rw [decodeStrict, h, String.fromUTF8?, dif_pos s.isValidUTF8]
  rfl

lemma utf8_of_decodeStrict {bytes : List UInt8} {s : String} (h : decodeStrict bytes = some s) :
    utf8 s = bytes := by
  rw [decodeStrict, String.fromUTF8?] at h
  split at h
  · obtain rfl := Option.some.inj h
    rfl
  · cases h

section utf8

variable {b : UInt8} {bits lo hi : ℕ} {ranges : List (ℕ × ℕ)} {rest : List UInt8}

lemma leadRanges_two (h : 0xC2 ≤ b.toNat ∧ b.toNat ≤ 0xDF) : leadRanges b = [(0x80, 0xBF)] :=
  if_pos h

lemma leadRanges_three (h : 0xE0 ≤ b.toNat ∧ b.toNat ≤ 0xEF) :
    leadRanges b = [(if b.toNat = 0xE0 then 0xA0 else 0x80, if b.toNat = 0xED then 0x9F else 0xBF),
      (0x80, 0xBF)] := by
  rw [leadRanges, if_neg (by omega)]
  by_cases h0 : b.toNat = 0xE0
  · simp [h0]
  by_cases hD : b.toNat = 0xED
  · simp [hD]
  · rw [if_neg h0, if_neg hD, if_pos (by omega), if_neg h0, if_neg hD]

lemma leadRanges_four (h : 0xF0 ≤ b.toNat ∧ b.toNat ≤ 0xF4) :
    leadRanges b = [(if b.toNat = 0xF0 then 0x90 else 0x80, if b.toNat = 0xF4 then 0x8F else 0xBF),
      (0x80, 0xBF), (0x80, 0xBF)] := by
  rw [leadRanges, if_neg (by omega), if_neg (by omega), if_neg (by omega), if_neg (by omega)]
  by_cases h0 : b.toNat = 0xF0
  · simp [h0]
  by_cases h4 : b.toNat = 0xF4
  · simp [h4]
  · rw [if_neg h0, if_pos (by omega), if_neg h0, if_neg h4]

/-- A lead byte leaves its continuation bytes to come. -/
lemma decodeFrom_lead (hb : 128 ≤ b.toNat) (hranges : leadRanges b ≠ []) :
    decodeFrom .idle (b :: rest) = decodeFrom ⟨leadBits b, leadRanges b⟩ rest := by
  have hstep : utf8Step .idle b = ([], ⟨leadBits b, leadRanges b⟩) := by
    simp [utf8Step, Pending.idle, leadStep, hranges, hb]
  rw [decodeFrom, hstep]
  rfl

/-- A continuation byte in its range carries six more bits. -/
lemma decodeFrom_next (hb : lo ≤ b.toNat ∧ b.toNat ≤ hi) :
    decodeFrom ⟨bits, (lo, hi) :: ranges⟩ (b :: rest) =
      if ranges = [] then (64 * bits + (b.toNat - 128)) :: decodeFrom .idle rest
      else decodeFrom ⟨64 * bits + (b.toNat - 128), ranges⟩ rest := by
  rw [decodeFrom, utf8Step]
  simp only [if_pos hb]
  split <;> rfl

lemma decodeFrom_two {b₀ b₁ : UInt8} {v : ℕ} (h₀ : b₀.toNat = v / 64 + 0xC0)
    (h₁ : b₁.toNat = v % 64 + 0x80) (hv : 0x80 ≤ v ∧ v < 0x800) :
    decodeFrom .idle (b₀ :: b₁ :: rest) = v :: decodeFrom .idle rest := by
  have hranges := leadRanges_two (b := b₀) (by omega)
  have hbits : 64 * (v / 64 + 0xC0 - 0xC0) + (v % 64 + 0x80 - 128) = v := by omega
  rw [decodeFrom_lead (by omega) (by simp [hranges]), hranges, decodeFrom_next (by omega),
    if_pos rfl, leadBits, if_pos (by omega), h₀, h₁, hbits]

lemma decodeFrom_three {b₀ b₁ b₂ : UInt8} {v : ℕ} (h₀ : b₀.toNat = v / 4096 + 0xE0)
    (h₁ : b₁.toNat = v / 64 % 64 + 0x80) (h₂ : b₂.toNat = v % 64 + 0x80)
    (hv : 0x800 ≤ v ∧ v < 0x10000) (hvalid : v < 0xD800 ∨ 0xDFFF < v) :
    decodeFrom .idle (b₀ :: b₁ :: b₂ :: rest) = v :: decodeFrom .idle rest := by
  have hranges := leadRanges_three (b := b₀) (by omega)
  have hbits : 64 * (64 * (v / 4096 + 0xE0 - 0xE0) + (v / 64 % 64 + 0x80 - 128)) +
      (v % 64 + 0x80 - 128) = v := by omega
  rw [decodeFrom_lead (by omega) (by simp [hranges]), hranges,
    decodeFrom_next (by split_ifs <;> omega), if_neg (by simp), decodeFrom_next (by omega),
    if_pos rfl, leadBits, if_neg (by omega), if_pos (by omega), h₀, h₁, h₂, hbits]

lemma decodeFrom_four {b₀ b₁ b₂ b₃ : UInt8} {v : ℕ} (h₀ : b₀.toNat = v / 262144 + 0xF0)
    (h₁ : b₁.toNat = v / 4096 % 64 + 0x80) (h₂ : b₂.toNat = v / 64 % 64 + 0x80)
    (h₃ : b₃.toNat = v % 64 + 0x80) (hv : 0x10000 ≤ v ∧ v < 0x110000) :
    decodeFrom .idle (b₀ :: b₁ :: b₂ :: b₃ :: rest) = v :: decodeFrom .idle rest := by
  have hranges := leadRanges_four (b := b₀) (by omega)
  have hbits : 64 * (64 * (64 * (v / 262144 + 0xF0 - 0xF0) + (v / 4096 % 64 + 0x80 - 128)) +
      (v / 64 % 64 + 0x80 - 128)) + (v % 64 + 0x80 - 128) = v := by omega
  rw [decodeFrom_lead (by omega) (by simp [hranges]), hranges,
    decodeFrom_next (by split_ifs <;> omega), if_neg (by simp), decodeFrom_next (by omega),
    if_neg (by simp), decodeFrom_next (by omega), if_pos rfl, leadBits, if_neg (by omega),
    if_neg (by omega), h₀, h₁, h₂, h₃, hbits]

end utf8

lemma toNat_byte {n : ℕ} (h : n < 256) : (UInt8.ofNat n).toNat = n := Nat.mod_eq_of_lt h

/-- Decoding is the inverse of encoding, a character at a time. -/
lemma decodeUtf8_encodeChar (c : Char) (rest : List UInt8) :
    decodeUtf8 (String.utf8EncodeChar c ++ rest) = c.toNat :: decodeUtf8 rest := by
  have hvalid : c.toNat < 0xD800 ∨ (0xDFFF < c.toNat ∧ c.toNat < 0x110000) := c.valid
  have hval : c.val.toNat = c.toNat := rfl
  generalize c.toNat = v at *
  unfold String.utf8EncodeChar
  rw [hval]
  dsimp only
  split_ifs with h1 h2 h3
  · have hb : (UInt8.ofNat v).toNat = v := toNat_byte (by omega)
    exact (decodeUtf8_cons (by omega) rest).trans (by rw [hb])
  · refine decodeFrom_two ((toNat_byte (by omega)).trans ?_) (toNat_byte (by omega)) (by omega)
    omega
  · refine decodeFrom_three ((toNat_byte (by omega)).trans ?_) (toNat_byte (by omega))
      (toNat_byte (by omega)) (by omega) (by omega)
    omega
  · refine decodeFrom_four ((toNat_byte (by omega)).trans ?_) (toNat_byte (by omega))
      (toNat_byte (by omega)) (toNat_byte (by omega)) (by omega)
    omega

lemma utf8_eq_flatMap (s : String) : utf8 s = s.toList.flatMap String.utf8EncodeChar := by
  rw [utf8, ← String.utf8Encode_toList, List.utf8Encode, List.data_toByteArray]

lemma decodeReplace_utf8 (s : String) : decodeReplace (utf8 s) = s := by
  have hdecode : ∀ l : List Char, decodeUtf8 (l.flatMap String.utf8EncodeChar) =
      l.map Char.toNat := by
    intro l
    induction l with
    | nil => rfl
    | cons c l ih => rw [List.flatMap_cons, decodeUtf8_encodeChar, ih, List.map_cons]
  have hchars : (Char.ofNat ∘ Char.toNat) = id := funext fun c => c.ofNat_toNat
  rw [decodeReplace, utf8_eq_flatMap, hdecode, List.map_map, hchars, List.map_id,
    String.ofList_toList]

/-! ## ASCII texts -/

/-- A byte of ASCII text, as a character. -/
def asciiChar (b : UInt8) : Char := Char.ofNat b.toNat

lemma asciiChar_toNat {b : UInt8} (h : b.toNat < 128) : (asciiChar b).toNat = b.toNat := by
  have hvalid : b.toNat.isValidChar := .inl (by omega)
  rw [asciiChar, Char.toNat_ofNat, if_pos hvalid]

lemma utf8_ascii {bytes : List UInt8} (h : ∀ b ∈ bytes, b.toNat < 128) :
    utf8 (.ofList (bytes.map asciiChar)) = bytes := by
  rw [utf8_eq_flatMap, String.toList_ofList]
  induction bytes with
  | nil => rfl
  | cons b bytes ih =>
    have hb : b.toNat < 128 := h b List.mem_cons_self
    have hval : (asciiChar b).val.toNat = b.toNat := asciiChar_toNat hb
    have hchar : String.utf8EncodeChar (asciiChar b) = [b] := by
      unfold String.utf8EncodeChar
      rw [hval]
      dsimp only
      rw [if_pos (by omega), UInt8.ofNat_toNat]
    rw [List.map_cons, List.flatMap_cons, hchar, ih fun c hc => h c (List.mem_cons_of_mem _ hc)]
    rfl

/-! ## Encoders -/

/-- The letters, the digits and `_.-~`, which are never quoted. -/
def alwaysSafe (b : UInt8) : Bool :=
  (65 ≤ b.toNat && b.toNat ≤ 90) || (97 ≤ b.toNat && b.toNat ≤ 122) ||
    (48 ≤ b.toNat && b.toNat ≤ 57) || b = 95 || b = 46 || b = 45 || b = 126

def hexDigit (n : ℕ) : UInt8 := if n < 10 then .ofNat (48 + n) else .ofNat (55 + n)

/-- `%XX`. -/
def escape (b : UInt8) : List UInt8 := [37, hexDigit (b.toNat / 16), hexDigit (b.toNat % 16)]

/-- How a byte may be written. -/
inductive Spells : UInt8 → List UInt8 → Prop
  | plus : Spells 32 [43]
  | plain (b : UInt8) (h : alwaysSafe b ∨ b = 42) : Spells b [b]
  | escaped (b : UInt8) : Spells b (escape b)

structure Encoder where
  encode : UInt8 → List UInt8
  spells : ∀ b, Spells b (encode b)

/-- `quote_plus`. -/
def quotePlusByte (b : UInt8) : List UInt8 :=
  if b = 32 then [43] else if alwaysSafe b then [b] else escape b

def quotePlusEncoder : Encoder where
  encode := quotePlusByte
  spells b := by
    unfold quotePlusByte
    split
    · subst b
      exact .plus
    · split
      · rename_i h
        exact .plain b (.inl h)
      · exact .escaped b

/-- `quote_plus(.., safe="*.-_").replace("~", "%7E")`. -/
def browserByte (b : UInt8) : List UInt8 :=
  if b = 32 then [43] else if b = 126 then escape b
  else if alwaysSafe b || b = 42 then [b] else escape b

def browserEncoder : Encoder where
  encode := browserByte
  spells b := by
    unfold browserByte
    split
    · subst b
      exact .plus
    · split
      · exact .escaped b
      · split
        · rename_i h
          exact .plain b (by simpa using h)
        · exact .escaped b

variable (enc : Encoder)

def Encoder.component (s : String) : List UInt8 := (utf8 s).flatMap enc.encode

def Encoder.pair (entry : String × String) : List UInt8 :=
  enc.component entry.1 ++ 61 :: enc.component entry.2

/-- `"&".join(f"{name}={value}")`. -/
def Encoder.form (entries : List (String × String)) : List UInt8 :=
  [38].intercalate (entries.map enc.pair)

def plusToSpace (bytes : List UInt8) : List UInt8 := bytes.map fun b => if b = 43 then 32 else b

/-- `unquote_to_bytes(raw.replace(b"+", b" "))`. -/
def unquotePlus (bytes : List UInt8) : List UInt8 := percentDecode (plusToSpace bytes)

/-- `%(?![0-9A-Fa-f]{2})` is found. -/
def badPercent : List UInt8 → Bool
  | [] => false
  | b :: rest =>
    (b = 37 && !match rest with
      | h :: l :: _ => (hexValue h).isSome && (hexValue l).isSome
      | _ => false) || badPercent rest

/-! ## What is written is read back -/

lemma hexValue_hexDigit {n : ℕ} (h : n < 16) : hexValue (hexDigit n) = some n := by
  interval_cases n <;> decide

lemma hexDigit_bounds {n : ℕ} (h : n < 16) :
    48 ≤ (hexDigit n).toNat ∧ (hexDigit n).toNat ≤ 70 ∧ hexDigit n ∉ [58, 61, 63] := by
  interval_cases n <;> decide

lemma plusToSpace_hexDigit {n : ℕ} (h : n < 16) :
    (if hexDigit n = 43 then 32 else hexDigit n) = hexDigit n := by
  interval_cases n <;> decide

/-- A byte that stands for itself is ASCII and none of `#%&+:=?`. -/
lemma harmless_of_plain {b : UInt8} (h : alwaysSafe b ∨ b = 42) :
    b.toNat < 128 ∧ b ∉ [35, 37, 38, 43, 58, 61, 63] := by
  constructor
  · obtain h | rfl := h
    · unfold alwaysSafe at h
      simp only [Bool.or_eq_true, Bool.and_eq_true, decide_eq_true_eq] at h
      obtain (((((h | h) | h) | rfl) | rfl) | rfl) | rfl := h
      all_goals first | omega | decide
    · decide
  · intro hmem
    simp only [List.mem_cons, List.not_mem_nil, or_false] at hmem
    obtain rfl | rfl | rfl | rfl | rfl | rfl | rfl := hmem <;> revert h <;> decide

lemma mem_escape {b c : UInt8} (h : c ∈ escape b) :
    c = 37 ∨ (48 ≤ c.toNat ∧ c.toNat ≤ 70 ∧ c ∉ [58, 61, 63]) := by
  have hb : b.toNat < 256 := b.toNat_lt
  simp only [escape, List.mem_cons, List.not_mem_nil, or_false] at h
  obtain rfl | rfl | rfl := h
  · exact .inl rfl
  · exact .inr (hexDigit_bounds (show b.toNat / 16 < 16 by omega))
  · exact .inr (hexDigit_bounds (show b.toNat % 16 < 16 by omega))

/-- Nothing that is written is one of `#&:=?`. -/
lemma Spells.harmless {b : UInt8} {text : List UInt8} (h : Spells b text) :
    ∀ c ∈ text, c.toNat < 128 ∧ c ∉ [35, 38, 58, 61, 63] := by
  intro c hc
  cases h with
  | plus =>
    obtain rfl := List.mem_singleton.mp hc
    decide
  | plain _ hplain =>
    obtain rfl := List.mem_singleton.mp hc
    obtain ⟨hascii, hmem⟩ := harmless_of_plain hplain
    simp only [List.mem_cons, List.not_mem_nil, or_false, not_or] at hmem ⊢
    tauto
  | escaped =>
    obtain rfl | ⟨hlow, hhigh, hmem⟩ := mem_escape hc
    · decide
    · simp only [List.mem_cons, List.not_mem_nil, or_false, not_or] at hmem ⊢
      refine ⟨by omega, ?_, ?_, hmem⟩ <;> rintro rfl <;> revert hlow <;> decide

lemma Spells.printable {b : UInt8} {text : List UInt8} (h : Spells b text) :
    ∀ c ∈ text, 33 ≤ c.toNat := by
  intro c hc
  cases h with
  | plus =>
    obtain rfl := List.mem_singleton.mp hc
    decide
  | plain _ hplain =>
    obtain rfl := List.mem_singleton.mp hc
    obtain hplain | rfl := hplain
    · unfold alwaysSafe at hplain
      simp only [Bool.or_eq_true, Bool.and_eq_true, decide_eq_true_eq] at hplain
      obtain (((((h | h) | h) | rfl) | rfl) | rfl) | rfl := hplain
      all_goals first | omega | decide
    · decide
  | escaped =>
    obtain rfl | ⟨hlow, -, -⟩ := mem_escape hc
    · decide
    · omega

/-- What is written for a byte reads as that byte. -/
lemma Spells.unquotePlus {b : UInt8} {text : List UInt8} (h : Spells b text)
    (rest : List UInt8) : unquotePlus (text ++ rest) = b :: unquotePlus rest := by
  cases h with
  | plus => exact percentDecode_cons (by decide) _
  | plain _ hplain =>
    have hmem := (harmless_of_plain hplain).2
    have hplus : b ≠ 43 := by
      rintro rfl
      exact hmem (by decide)
    have hpercent : b ≠ 37 := by
      rintro rfl
      exact hmem (by decide)
    rw [List.singleton_append, FormEncoding.unquotePlus, plusToSpace, List.map_cons, if_neg hplus,
      percentDecode_cons hpercent]
    rfl
  | escaped =>
    have hb : b.toNat < 256 := b.toNat_lt
    have hsum : UInt8.ofNat (16 * (b.toNat / 16) + b.toNat % 16) = b := by
      rw [Nat.div_add_mod, UInt8.ofNat_toNat]
    simp only [escape, List.cons_append, List.nil_append, FormEncoding.unquotePlus, plusToSpace,
      List.map_cons, plusToSpace_hexDigit (show b.toNat / 16 < 16 by omega),
      plusToSpace_hexDigit (show b.toNat % 16 < 16 by omega)]
    rw [if_neg (by decide), percentDecode, if_pos rfl, hexValue_hexDigit (by omega),
      hexValue_hexDigit (by omega)]
    simp only [hsum]

lemma badPercent_cons {b : UInt8} (h : b ≠ 37) (rest : List UInt8) :
    badPercent (b :: rest) = badPercent rest := by
  simp [FormEncoding.badPercent, h]

lemma hexDigit_ne_percent {n : ℕ} (h : n < 16) : hexDigit n ≠ 37 := by
  interval_cases n <;> decide

/-- A percent sign is only written in front of two digits. -/
lemma Spells.badPercent {b : UInt8} {text : List UInt8} (h : Spells b text) (rest : List UInt8) :
    badPercent (text ++ rest) = badPercent rest := by
  cases h with
  | plus => exact badPercent_cons (by decide) rest
  | plain _ hplain =>
    refine badPercent_cons ?_ rest
    rintro rfl
    exact (harmless_of_plain hplain).2 (by decide)
  | escaped =>
    have hb : b.toNat < 256 := b.toNat_lt
    have hhigh : b.toNat / 16 < 16 := by omega
    have hlow : b.toNat % 16 < 16 := by omega
    simp only [escape, List.cons_append, List.nil_append]
    rw [FormEncoding.badPercent, badPercent_cons (hexDigit_ne_percent hhigh),
      badPercent_cons (hexDigit_ne_percent hlow)]
    simp [hexValue_hexDigit hhigh, hexValue_hexDigit hlow]

section encoder

variable (bytes rest : List UInt8)

lemma unquotePlus_flatMap : unquotePlus (bytes.flatMap enc.encode ++ rest) =
    bytes ++ unquotePlus rest := by
  induction bytes with
  | nil => rfl
  | cons b bytes ih =>
    rw [List.flatMap_cons, List.append_assoc, (enc.spells b).unquotePlus, ih, List.cons_append]

lemma unquotePlus_component (s : String) : unquotePlus (enc.component s) = utf8 s := by
  have h := unquotePlus_flatMap enc (utf8 s) []
  rwa [List.append_nil, show unquotePlus [] = [] from rfl, List.append_nil] at h

lemma badPercent_component (s : String) : badPercent (enc.component s) = false := by
  unfold Encoder.component
  induction utf8 s with
  | nil => rfl
  | cons b bytes ih => rw [List.flatMap_cons, (enc.spells b).badPercent, ih]

lemma mem_component {s : String} {c : UInt8} (h : c ∈ enc.component s) :
    c.toNat < 128 ∧ c ∉ [35, 38, 58, 61, 63] := by
  obtain ⟨b, -, hc⟩ := List.mem_flatMap.mp h
  exact (enc.spells b).harmless c hc

lemma component_printable {s : String} {c : UInt8} (h : c ∈ enc.component s) : 33 ≤ c.toNat := by
  obtain ⟨b, -, hc⟩ := List.mem_flatMap.mp h
  exact (enc.spells b).printable c hc

lemma component_ne_nil {s : String} (h : s ≠ "") : enc.component s ≠ [] := by
  intro hnil
  have hread := unquotePlus_component enc s
  rw [hnil] at hread
  refine h (Option.some.inj ((decodeStrict_utf8 s).symm.trans ?_))
  rw [← hread]
  exact decodeStrict_utf8 ""

end encoder

end FormEncoding
