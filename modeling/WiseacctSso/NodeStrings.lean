import WiseacctSso.JsonStrings

/-!
# Node's bytes of a string

A string is normalised in two places before it is hashed or sent to Redis. Both loops give what
Node gives: the UTF-8 of the string's UTF-16 units with each unpaired surrogate replaced.
-/
namespace WiseacctSso.NodeStrings
open Json

/-! ## The loops -/

def replacement : CodePoint := codePoint 0xFFFD

/-- `chr`, which rejects what is no code point. -/
def chr (n : ℕ) : Option CodePoint := if h : n < 0x110000 then some ⟨n, h⟩ else none

/-- Strict UTF-8, which rejects surrogates. -/
def encode : PyStr → Option (List UInt8)
  | [] => some []
  | c :: rest =>
      if isHigh c || isLow c then none
      else (encode rest).map (String.utf8EncodeChar (Char.ofNat c.val) ++ ·)

/-- The loop over the index. A high surrogate before a low one takes both positions. -/
def normalizeLoop (combine : ℕ → ℕ → ℕ) (value normalized : PyStr) (index : ℕ) : Option PyStr :=
  if h : index < value.length then
    let codePoint := value[index]
    if isHigh codePoint then
      if h' : index + 1 < value.length then
        let lowSurrogate := value[index + 1]
        if isLow lowSurrogate then
          (chr (combine codePoint.val lowSurrogate.val)).bind fun c =>
            normalizeLoop combine value (normalized ++ [c]) (index + 2)
        else normalizeLoop combine value (normalized ++ [replacement]) (index + 1)
      else normalizeLoop combine value (normalized ++ [replacement]) (index + 1)
    else if isLow codePoint then
      normalizeLoop combine value (normalized ++ [replacement]) (index + 1)
    else normalizeLoop combine value (normalized ++ [codePoint]) (index + 1)
  else some normalized
termination_by value.length - index

/-- `_normalize_node_string`. -/
def normalizeNodeString (value : PyStr) : Option PyStr :=
  normalizeLoop (fun high low => 0x10000 + ((high - 0xD800) <<< 10) + (low - 0xDC00)) value [] 0

def nodeUtf8Bytes (value : PyStr) : Option (List UInt8) :=
  (normalizeLoop (fun high low => 0x10000 + ((high - 0xD800) <<< 10) + low - 0xDC00)
    value [] 0).bind encode

/-! ## Digests -/

section digests
variable (sha256 : List UInt8 → String)

def sha256Token (token : PyStr) : Option String :=
  ((normalizeNodeString token).bind encode).map sha256

def sha256Hex (value : PyStr) : Option String := (nodeUtf8Bytes value).map sha256

def oidcSecretDigest (value : PyStr) : Option String := (nodeUtf8Bytes value).map sha256

end digests

/-! ## Decoding UTF-16 -/

/-- A unit that is not part of a pair. -/
def single (u : CodePoint) : CodePoint := if isHigh u || isLow u then replacement else u

def decodeUtf16 : PyStr → PyStr
  | [] => []
  | [u] => [single u]
  | u :: v :: rest =>
      if isHigh u && isLow v then joinUnits u v :: decodeUtf16 rest
      else single u :: decodeUtf16 (v :: rest)

/-- What Node hashes: the string's units, decoded and written as UTF-8. -/
def nodeReference (value : PyStr) : Option (List UInt8) :=
  encode (decodeUtf16 (value.flatMap units))

lemma decodeUtf16_pair {u v : CodePoint} (hu : isHigh u = true) (hv : isLow v = true)
    (rest : PyStr) : decodeUtf16 (u :: v :: rest) = joinUnits u v :: decodeUtf16 rest := by
  rw [decodeUtf16, if_pos (by simp [hu, hv])]

/-- A unit that the next one does not complete is decoded by itself. -/
lemma decodeUtf16_cons {u : CodePoint} {rest : PyStr}
    (h : ∀ v ∈ rest.head?, ¬ (isHigh u = true ∧ isLow v = true)) :
    decodeUtf16 (u :: rest) = single u :: decodeUtf16 rest := by
  cases rest with
  | nil => rfl
  | cons v rest =>
    rw [decodeUtf16, if_neg]
    simpa using h v rfl

lemma val_joinUnits {u v : CodePoint} (hu : isHigh u = true) (hv : isLow v = true) :
    (joinUnits u v).val = 0x10000 + (u.val - 0xD800) * 0x400 + (v.val - 0xDC00) := by
  simp only [isHigh, isLow, Bool.and_eq_true, decide_eq_true_eq] at hu hv
  exact val_codePoint (by omega)

lemma not_surrogate_of_large {c : CodePoint} (h : 0x10000 ≤ c.val) :
    isHigh c = false ∧ isLow c = false := by
  simp only [isHigh, isLow, Bool.and_eq_false_iff, decide_eq_false_iff_not]
  omega

lemma single_of_large {c : CodePoint} (h : 0x10000 ≤ c.val) : single c = c := by
  obtain ⟨hhigh, hlow⟩ := not_surrogate_of_large h
  simp [single, hhigh, hlow]

/-- Decoding the units of a string is joining its own surrogates and replacing the others. -/
lemma decodeUtf16_flatMap_units (value : PyStr) :
    decodeUtf16 (value.flatMap units) = decodeUtf16 value := by
  induction hn : value.length using Nat.strongRecOn generalizing value with
  | ind n ih =>
    cases value with
    | nil => rfl
    | cons c rest =>
      have hrest := ih rest.length (by simp [← hn]) rest rfl
      by_cases hc : c.val < 0x10000
      · have hunits : units c = [c] := if_pos hc
        by_cases hpair : ∃ d more, rest = d :: more ∧ isHigh c = true ∧ isLow d = true
        · obtain ⟨d, more, rfl, hhigh, hlow⟩ := hpair
          have hmore := ih more.length (by simp [← hn]) more rfl
          have hd : units d = [d] := by
            refine if_pos ?_
            by_contra hlarge
            rw [(not_surrogate_of_large (not_lt.mp hlarge)).2] at hlow
            cases hlow
          rw [List.flatMap_cons, List.flatMap_cons, hunits, hd, List.singleton_append,
            List.singleton_append, decodeUtf16_pair hhigh hlow, decodeUtf16_pair hhigh hlow, hmore]
        · have hhead : ∀ d ∈ rest.head?, ¬ (isHigh c = true ∧ isLow d = true) := by
            rintro d hd hboth
            cases rest with
            | nil => cases hd
            | cons e more => exact hpair ⟨d, more, by rw [Option.some.inj hd], hboth⟩
          rw [List.flatMap_cons, hunits, List.singleton_append, decodeUtf16_cons hhead,
            decodeUtf16_cons, hrest]
          rintro d hd ⟨hhigh, hlow⟩
          exact hhead d (head?_flatMap_units hd hlow) ⟨hhigh, hlow⟩
      · have hlarge : 0x10000 ≤ c.val := not_lt.mp hc
        have hhead : ∀ d ∈ rest.head?, ¬ (isHigh c = true ∧ isLow d = true) := by
          rintro d - ⟨hhigh, -⟩
          rw [(not_surrogate_of_large hlarge).1] at hhigh
          cases hhigh
        rw [List.flatMap_cons, units, if_neg hc, List.cons_append, List.singleton_append,
          decodeUtf16_pair (isHigh_highUnit c) (isLow_lowUnit c), joinUnits_units hlarge, hrest,
          decodeUtf16_cons hhead, single_of_large hlarge]

lemma not_surrogate_single (u : CodePoint) :
    isHigh (single u) = false ∧ isLow (single u) = false := by
  unfold single
  split_ifs with h
  · decide
  · simpa using h

lemma not_surrogate_decodeUtf16 (value : PyStr) :
    ∀ c ∈ decodeUtf16 value, isHigh c = false ∧ isLow c = false := by
  fun_induction decodeUtf16 value with
  | case1 => simp
  | case2 u => simpa using not_surrogate_single u
  | case3 u v rest hpair ih =>
    intro c hc
    simp only [Bool.and_eq_true] at hpair
    rcases List.mem_cons.mp hc with rfl | hc
    · have hval := val_joinUnits hpair.1 hpair.2
      exact not_surrogate_of_large (by omega)
    · exact ih c hc
  | case4 u v rest hpair ih =>
    intro c hc
    rcases List.mem_cons.mp hc with rfl | hc
    · exact not_surrogate_single u
    · exact ih c hc

/-- Strings without surrogates can be written as UTF-8. -/
lemma encode_isSome {value : PyStr} (h : ∀ c ∈ value, isHigh c = false ∧ isLow c = false) :
    ∃ bytes, encode value = some bytes := by
  induction value with
  | nil => exact ⟨[], rfl⟩
  | cons c rest ih =>
    obtain ⟨bytes, hbytes⟩ := ih fun d hd => h d (List.mem_cons_of_mem _ hd)
    obtain ⟨hhigh, hlow⟩ := h c List.mem_cons_self
    exact ⟨_, by rw [encode, if_neg (by simp [hhigh, hlow]), hbytes]; rfl⟩

/-! ## The loops decode -/

/-- From an index on, the loop appends what the rest of the string decodes to. -/
lemma normalizeLoop_eq {combine : ℕ → ℕ → ℕ}
    (hcombine : ∀ u v : CodePoint, isHigh u = true → isLow v = true →
      combine u.val v.val = 0x10000 + (u.val - 0xD800) * 0x400 + (v.val - 0xDC00))
    (value normalized : PyStr) (index : ℕ) :
    normalizeLoop combine value normalized index =
      some (normalized ++ decodeUtf16 (value.drop index)) := by
  have hchr : ∀ u v : CodePoint, isHigh u = true → isLow v = true →
      chr (combine u.val v.val) = some (joinUnits u v) := by
    intro u v hu hv
    have hval := val_joinUnits hu hv
    rw [hcombine u v hu hv, ← hval, chr, dif_pos (joinUnits u v).isLt]
  fun_induction normalizeLoop combine value normalized index with
  | case1 normalized index h codePoint hhigh h' low hlow ih =>
    rw [hchr _ _ hhigh hlow, Option.bind_some, ih, List.drop_eq_getElem_cons h,
      List.drop_eq_getElem_cons h', decodeUtf16_pair hhigh hlow]
    simp
  | case2 normalized index h codePoint hhigh h' low hlow ih =>
    have hhead : ∀ v ∈ (value.drop (index + 1)).head?, ¬ (isHigh codePoint = true ∧
        isLow v = true) := by
      rintro v hv ⟨-, hv'⟩
      rw [List.drop_eq_getElem_cons h'] at hv
      obtain rfl := Option.some.inj hv
      exact hlow hv'
    rw [ih, List.drop_eq_getElem_cons h, decodeUtf16_cons hhead]
    simp [single, codePoint, hhigh]
  | case3 normalized index h codePoint hhigh h' ih =>
    have hlast : value.drop (index + 1) = [] := List.drop_eq_nil_of_le (not_lt.mp h')
    rw [ih, List.drop_eq_getElem_cons h, hlast, decodeUtf16]
    simp [single, codePoint, hhigh, decodeUtf16]
  | case4 normalized index h codePoint hhigh hlow ih =>
    rw [ih, List.drop_eq_getElem_cons h, decodeUtf16_cons fun _ _ hboth => hhigh hboth.1]
    simp [single, codePoint, hlow]
  | case5 normalized index h codePoint hhigh hlow ih =>
    rw [ih, List.drop_eq_getElem_cons h, decodeUtf16_cons fun _ _ hboth => hhigh hboth.1]
    simp [single, codePoint, hhigh, hlow]
  | case6 normalized index h =>
    rw [List.drop_eq_nil_of_le (not_lt.mp h), decodeUtf16, List.append_nil]

lemma shift_combines {high low : ℕ} (hlow : 0xDC00 ≤ low) :
    0x10000 + ((high - 0xD800) <<< 10) + (low - 0xDC00) =
        0x10000 + (high - 0xD800) * 0x400 + (low - 0xDC00) ∧
      0x10000 + ((high - 0xD800) <<< 10) + low - 0xDC00 =
        0x10000 + (high - 0xD800) * 0x400 + (low - 0xDC00) := by
  have hshift : (high - 0xD800) <<< 10 = (high - 0xD800) * 0x400 := Nat.shiftLeft_eq ..
  omega

lemma low_of_isLow {v : CodePoint} (h : isLow v = true) : 0xDC00 ≤ v.val := by
  simp only [isLow, Bool.and_eq_true, decide_eq_true_eq] at h
  exact h.1

lemma normalizeNodeString_eq (value : PyStr) :
    normalizeNodeString value = some (decodeUtf16 value) := by
  rw [normalizeNodeString, normalizeLoop_eq]
  · rfl
  · intro u v _ hv
    exact (shift_combines (low_of_isLow hv)).1

lemma nodeUtf8Bytes_eq (value : PyStr) : nodeUtf8Bytes value = encode (decodeUtf16 value) := by
  rw [nodeUtf8Bytes, normalizeLoop_eq]
  · rfl
  · intro u v _ hv
    exact (shift_combines (low_of_isLow hv)).2

/-- Both ways to the bytes succeed with those that Node hashes, so every digest agrees. -/
theorem node_bytes_agree (sha256 : List UInt8 → String) (value : PyStr) :
    ∃ bytes, nodeReference value = some bytes ∧ nodeUtf8Bytes value = some bytes ∧
      (normalizeNodeString value).bind encode = some bytes ∧
      sha256Token sha256 value = some (sha256 bytes) ∧
      sha256Hex sha256 value = some (sha256 bytes) ∧
      oidcSecretDigest sha256 value = some (sha256 bytes) := by
  obtain ⟨bytes, hbytes⟩ := encode_isSome (not_surrogate_decodeUtf16 value)
  have hreference : nodeReference value = some bytes := by
    rw [nodeReference, decodeUtf16_flatMap_units, hbytes]
  have hnode : nodeUtf8Bytes value = some bytes := (nodeUtf8Bytes_eq value).trans hbytes
  have hnormal : (normalizeNodeString value).bind encode = some bytes := by
    rw [normalizeNodeString_eq, Option.bind_some, hbytes]
  refine ⟨bytes, hreference, hnode, hnormal, ?_, ?_, ?_⟩
  · rw [sha256Token, hnormal]
    rfl
  · rw [sha256Hex, hnode]
    rfl
  · rw [oidcSecretDigest, hnode]
    rfl

end WiseacctSso.NodeStrings
