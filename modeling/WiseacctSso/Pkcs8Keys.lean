import WiseacctSso.DerElements

/-!
# RSA numbers of a PKCS8 key

The configuration reads the modulus and the exponent out of the DER of the signing key, with a
reader of one element after the other for each of the nested sequences.
-/
namespace WiseacctSso.Pkcs8Keys
open Der

/-! ## The reader -/

inductive ReadError
  | valueError (message : String)
  | indexError
  deriving DecidableEq

def invalidKey : ReadError :=
  .valueError "JWT_ACCESS_PRIVATE_KEY must be a valid PKCS8 RSA private key"

/-- `data[index]`. -/
def byteAt (data : List UInt8) (index : ℕ) : Except ReadError UInt8 :=
  match data[index]? with
  | some b => .ok b
  | none => .error .indexError

/-- `data[start:stop]`. -/
def slice (data : List UInt8) (start stop : ℕ) : List UInt8 :=
  (data.drop start).take (stop - start)

structure DerReader where
  data : List UInt8
  offset : ℕ

namespace DerReader

def ofData (data : List UInt8) : DerReader := ⟨data, 0⟩

def finished (reader : DerReader) : Bool := reader.offset = reader.data.length

/-- The length that starts at the offset, and where it ends. -/
def readLength (reader : DerReader) (offset : ℕ) : Except ReadError (ℕ × ℕ) := do
  let lengthByte ← byteAt reader.data offset
  let offset := offset + 1
  if lengthByte.toNat < 0x80 then return (lengthByte.toNat, offset)
  let lengthOctets := lengthByte.toNat &&& 0x7F
  if lengthOctets = 0 ∨ 4 < lengthOctets then
    throw (.valueError "JWT_ACCESS_PRIVATE_KEY must use definite DER lengths")
  let stop := offset + lengthOctets
  if reader.data.length < stop then throw invalidKey
  return (fromBytes (slice reader.data offset stop), stop)

def read (reader : DerReader) (expectedTag : UInt8) :
    Except ReadError (List UInt8 × DerReader) := do
  if reader.data.length ≤ reader.offset then throw invalidKey
  if (← byteAt reader.data reader.offset) ≠ expectedTag then throw invalidKey
  let offset := reader.offset + 1
  if reader.data.length ≤ offset then throw invalidKey
  let (length, offset) ← reader.readLength offset
  let stop := offset + length
  if reader.data.length < stop then throw invalidKey
  return (slice reader.data offset stop, { reader with offset := stop })

end DerReader

/-- `_integer`. -/
def integerOf (value : List UInt8) : Except ReadError ℕ :=
  match value with
  | [] => .error (.valueError "JWT_ACCESS_PRIVATE_KEY contains an invalid RSA integer")
  | b :: rest =>
      if b.toNat &&& 0x80 ≠ 0 then
        .error (.valueError "JWT_ACCESS_PRIVATE_KEY contains an invalid RSA integer")
      else .ok (fromBytes (b :: rest))

def rsaEncryptionOid : List UInt8 := [0x2a, 0x86, 0x48, 0x86, 0xf7, 0x0d, 0x01, 0x01, 0x01]

def rsaNumbers (privateKey : List UInt8) : Except ReadError (ℕ × ℕ) := do
  let (sequence, rsaOuter) ← (DerReader.ofData privateKey).read 0x30
  if !rsaOuter.finished then throw (.valueError "trailing RSA data")
  let (version, rsa) ← (DerReader.ofData sequence).read 0x02
  let _ ← integerOf version
  let (value, rsa) ← rsa.read 0x02
  let modulus ← integerOf value
  let (value, _) ← rsa.read 0x02
  let exponent ← integerOf value
  return (modulus, exponent)

def privateKeyInfo (der : List UInt8) : Except ReadError (ℕ × ℕ) := do
  let (info, outer) ← (DerReader.ofData der).read 0x30
  if !outer.finished then throw (.valueError "trailing data")
  let (version, reader) ← (DerReader.ofData info).read 0x02
  let _ ← integerOf version
  let (identifier, reader) ← reader.read 0x30
  let (oid, _) ← (DerReader.ofData identifier).read 0x06
  if oid ≠ rsaEncryptionOid then throw (.valueError "not RSA")
  let (privateKey, _) ← reader.read 0x04
  rsaNumbers privateKey

/-- What `_rsa_numbers_from_pkcs8` does with the bytes of the armour: every `ValueError` comes
out as the one for an invalid key. -/
def rsaNumbersFromPkcs8 (der : List UInt8) : Except ReadError (ℕ × ℕ) :=
  match privateKeyInfo der with
  | .error (.valueError _) => .error invalidKey
  | result => result

/-! ## Standard encodings -/

def rsaPrivateKey (version n e : ℕ) (further : List UInt8) : List UInt8 :=
  element 0x30 (integer version ++ (integer n ++ (integer e ++ further)))

def algorithmIdentifier (parameters : List UInt8) : List UInt8 :=
  element 0x30 (element 0x06 rsaEncryptionOid ++ parameters)

/-- The content of the structure; attributes may follow the key. -/
def pkcs8Content (version : ℕ) (parameters privateKey attributes : List UInt8) : List UInt8 :=
  integer version ++ (algorithmIdentifier parameters ++ (element 0x04 privateKey ++ attributes))

/-! ## Reading an element -/

section data
variable {data : List UInt8} {i : ℕ}

lemma byteAt_of_drop {b : UInt8} {rest : List UInt8} (h : data.drop i = b :: rest) :
    byteAt data i = .ok b := by
  have hget : data[i]? = some b := by
    have hdrop : (data.drop i)[0]? = data[i + 0]? := List.getElem?_drop
    rw [h] at hdrop
    simpa using hdrop.symm
  rw [byteAt, hget]

lemma length_of_drop {bytes : List UInt8} (h : data.drop i = bytes) (hne : bytes ≠ []) :
    data.length = i + bytes.length := by
  have hlength := congrArg List.length h
  have hpos := List.length_pos_of_ne_nil hne
  rw [List.length_drop] at hlength
  omega

lemma slice_of_drop {value rest : List UInt8} (h : data.drop i = value ++ rest) :
    slice data i (i + value.length) = value := by
  simp [slice, h]

lemma drop_of_drop {value rest : List UInt8} (h : data.drop i = value ++ rest) :
    data.drop (i + value.length) = rest := by
  rw [← List.drop_drop, h, List.drop_left]

end data

lemma lengthOctets_ne_nil (n : ℕ) : lengthOctets n ≠ [] := by
  unfold lengthOctets
  split_ifs <;> simp

lemma readLength_octets {reader : DerReader} {offset n : ℕ} {rest : List UInt8} (hn : n < 256 ^ 4)
    (h : reader.data.drop offset = lengthOctets n ++ rest) :
    reader.readLength offset = .ok (n, offset + (lengthOctets n).length) := by
  by_cases hshort : n < 128
  · have hoctets : lengthOctets n = [.ofNat n] := if_pos hshort
    rw [hoctets, List.singleton_append] at h
    have hbyte : (UInt8.ofNat n).toNat = n := by
      rw [UInt8.toNat_ofNat']
      omega
    simp [DerReader.readLength, byteAt_of_drop h, hoctets, hbyte, hshort, bind, Except.bind, pure,
      Except.pure]
  · have hoctets : lengthOctets n = .ofNat (128 + (toBytes n).length) :: toBytes n := if_neg hshort
    have hcount : (toBytes n).length ≤ 4 := length_toBytes_le.mpr hn
    have hpos : 0 < (toBytes n).length := List.length_pos_of_ne_nil (toBytes_ne_nil (by omega))
    rw [hoctets, List.cons_append] at h
    have hbyte : (UInt8.ofNat (128 + (toBytes n).length)).toNat = 128 + (toBytes n).length := by
      rw [UInt8.toNat_ofNat']
      omega
    have hmask : (128 + (toBytes n).length) &&& 0x7F = (toBytes n).length := by
      generalize (toBytes n).length = k at hcount hpos
      interval_cases k <;> rfl
    have hlength := length_of_drop h (by simp)
    have hnext : reader.data.drop (offset + 1) = toBytes n ++ rest := by
      rw [← List.drop_drop, h]
      rfl
    have hfits : ¬ reader.data.length < offset + 1 + (toBytes n).length := by
      simp only [List.length_cons, List.length_append] at hlength
      omega
    have hmissing : ¬ ((toBytes n).length = 0 ∨ 4 < (toBytes n).length) := by omega
    have hlong : ¬ 128 + (toBytes n).length < 0x80 := by omega
    simp only [DerReader.readLength, byteAt_of_drop h, bind, Except.bind, hbyte, hlong, if_false,
      hmask, hmissing, hfits, pure, Except.pure, slice_of_drop hnext, fromBytes_toBytes, hoctets,
      List.length_cons]
    congr 2
    omega

/-- A reader that stands before an element reads it. -/
lemma read_element {reader : DerReader} {tag : UInt8} {content rest : List UInt8}
    (hlength : content.length < 256 ^ 4)
    (h : reader.data.drop reader.offset = element tag content ++ rest) :
    ∃ reader', reader.read tag = .ok (content, reader') ∧
      reader'.data.drop reader'.offset = rest ∧ reader'.offset ≤ reader'.data.length := by
  have hcons : reader.data.drop reader.offset =
      tag :: (lengthOctets content.length ++ (content ++ rest)) := by
    rw [h, element, List.cons_append, List.append_assoc]
  have hnext : reader.data.drop (reader.offset + 1) =
      lengthOctets content.length ++ (content ++ rest) := by
    rw [← List.drop_drop, hcons]
    rfl
  have hcontent := drop_of_drop hnext
  have htotal := length_of_drop hcons (by simp)
  have hoctets := List.length_pos_of_ne_nil (lengthOctets_ne_nil content.length)
  simp only [List.length_cons, List.length_append] at htotal
  have hbefore : ¬ reader.data.length ≤ reader.offset := by omega
  have htag : ¬ reader.data.length ≤ reader.offset + 1 := by omega
  have hstop : ¬ reader.data.length <
      reader.offset + 1 + (lengthOctets content.length).length + content.length := by omega
  refine ⟨⟨reader.data,
    reader.offset + 1 + (lengthOctets content.length).length + content.length⟩, ?_,
    drop_of_drop hcontent, not_lt.mp hstop⟩
  simp only [DerReader.read, hbefore, if_false, byteAt_of_drop hcons, bind, Except.bind, ne_eq,
    not_true_eq_false, htag, readLength_octets hlength hnext, hstop, pure, Except.pure,
    slice_of_drop hcontent]

lemma integerOf_content (n : ℕ) : integerOf (integerContent n) = .ok n := by
  obtain ⟨b, rest, hcontent, hb, hvalue⟩ := integerContent_spec n
  have hmask : b.toNat &&& 0x80 = 0 := by
    generalize b.toNat = k at hb
    interval_cases k <;> rfl
  rw [hcontent, integerOf]
  simp [hmask, hvalue]

/-- A reader that stands before an integer reads it. -/
lemma read_integer {reader : DerReader} {n : ℕ} {rest : List UInt8}
    (hlength : (integerContent n).length < 256 ^ 4)
    (h : reader.data.drop reader.offset = integer n ++ rest) :
    ∃ value reader', reader.read 2 = .ok (value, reader') ∧ integerOf value = .ok n ∧
      reader'.data.drop reader'.offset = rest := by
  obtain ⟨reader', hread, hrest, -⟩ := read_element hlength h
  exact ⟨_, reader', hread, integerOf_content n, hrest⟩

/-- The one element of its data is read to the end. -/
lemma read_whole (tag : UInt8) {content : List UInt8} (hlength : content.length < 256 ^ 4) :
    ∃ reader', (DerReader.ofData (element tag content)).read tag = .ok (content, reader') ∧
      reader'.finished = true := by
  have hdrop : (DerReader.ofData (element tag content)).data.drop
      (DerReader.ofData (element tag content)).offset = element tag content ++ [] := by
    rw [List.append_nil]
    rfl
  obtain ⟨reader', hread, hrest, hoffset⟩ := read_element hlength hdrop
  refine ⟨reader', hread, ?_⟩
  have hend := List.drop_eq_nil_iff.mp hrest
  simp only [DerReader.finished, decide_eq_true_eq]
  omega

/-! ## Keys are read back -/

lemma length_element_le (tag : UInt8) (content : List UInt8) :
    content.length ≤ (element tag content).length := by
  simp [element]
  omega

lemma drop_ofData (data : List UInt8) :
    (DerReader.ofData data).data.drop (DerReader.ofData data).offset = data := rfl

lemma length_integer (n : ℕ) : (integerContent n).length ≤ (integer n).length :=
  length_element_le 2 (integerContent n)

lemma rsaNumbers_rsaPrivateKey {version n e : ℕ} {further : List UInt8}
    (hlength : (rsaPrivateKey version n e further).length < 256 ^ 4) :
    rsaNumbers (rsaPrivateKey version n e further) = .ok (n, e) := by
  have hcontent := (length_element_le _ _).trans_lt hlength
  have hparts := hcontent
  simp only [List.length_append] at hparts
  have hversionLength := length_integer version
  have hmodulusLength := length_integer n
  have hexponentLength := length_integer e
  obtain ⟨outer, houter, hfinished⟩ := read_whole 0x30 hcontent
  obtain ⟨value, reader, hread, hversion, hrest⟩ :=
    read_integer (by omega) (drop_ofData (integer version ++ (integer n ++ (integer e ++ further))))
  obtain ⟨value', reader', hread', hmodulus, hrest'⟩ := read_integer (by omega) hrest
  obtain ⟨value'', reader'', hread'', hexponent, -⟩ := read_integer (by omega) hrest'
  simp only [rsaNumbers, rsaPrivateKey, houter, hfinished, hread, hversion, hread', hmodulus,
    hread'', hexponent, bind, Except.bind, pure, Except.pure, Bool.not_true, Bool.false_eq_true,
    if_false]

/-- The two numbers come back from every standard encoding whose lengths four octets hold. -/
lemma rsaNumbersFromPkcs8_element {version : ℕ} {parameters attributes : List UInt8}
    {rsaVersion n e : ℕ} {further : List UInt8}
    (hlength : (pkcs8Content version parameters (rsaPrivateKey rsaVersion n e further)
      attributes).length < 256 ^ 4) :
    rsaNumbersFromPkcs8 (element 0x30 (pkcs8Content version parameters
      (rsaPrivateKey rsaVersion n e further) attributes)) = .ok (n, e) := by
  have hparts := hlength
  simp only [pkcs8Content, List.length_append] at hparts
  have hversionLength := length_integer version
  have hidentifier : (element 0x06 rsaEncryptionOid ++ parameters).length ≤
      (algorithmIdentifier parameters).length := length_element_le _ _
  have hkeyLength := length_element_le 0x04 (rsaPrivateKey rsaVersion n e further)
  obtain ⟨outer, houter, hfinished⟩ := read_whole 0x30 hlength
  have hcontent := drop_ofData
    (pkcs8Content version parameters (rsaPrivateKey rsaVersion n e further) attributes)
  obtain ⟨value, reader, hread, hversion, hrest⟩ := read_integer (by omega) hcontent
  obtain ⟨reader', hread', hrest', -⟩ := read_element (by omega) hrest
  obtain ⟨inner, hoid, -⟩ :=
    read_element (by decide) (drop_ofData (element 0x06 rsaEncryptionOid ++ parameters))
  obtain ⟨reader'', hread'', -⟩ := read_element (by omega) hrest'
  have hnumbers := rsaNumbers_rsaPrivateKey (hkeyLength.trans_lt (by omega))
  simp only [rsaNumbersFromPkcs8, privateKeyInfo, houter, hfinished, hread, hversion, hread', hoid,
    hread'', hnumbers, bind, Except.bind, Bool.not_true, Bool.false_eq_true, if_false, ne_eq,
    not_true_eq_false]

/-! ## Arbitrary bytes -/

/-- What was read, if anything, is of the kind; an error is a `ValueError`. -/
def Yields {α : Type} (result : Except ReadError α) (good : α → Prop) : Prop :=
  match result with
  | .ok a => good a
  | .error e => e ≠ .indexError

lemma yields_bind {α β : Type} {x : Except ReadError α} {f : α → Except ReadError β}
    {p : α → Prop} {q : β → Prop} (hx : Yields x p) (hf : ∀ a, p a → Yields (f a) q) :
    Yields (x >>= f) q := by
  cases x with
  | error e => exact hx
  | ok a => exact hf a hx

/-- A check that throws a `ValueError`, and what comes after it. -/
lemma yields_check {β : Type} {c : Prop} [Decidable c] {message : String}
    {rest after : Except ReadError β} {q : β → Prop} (hrest : ¬ c → Yields rest q) :
    Yields (if c then do throw (.valueError message); after else rest) q := by
  split_ifs with h
  · exact nofun
  · exact hrest h

lemma yields_byteAt {data : List UInt8} {i : ℕ} (h : i < data.length) :
    Yields (byteAt data i) fun _ => True := by
  rw [byteAt, List.getElem?_eq_getElem h]
  trivial

lemma yields_readLength {reader : DerReader} {offset : ℕ} (h : offset < reader.data.length) :
    Yields (reader.readLength offset) fun length =>
      offset ≤ length.2 ∧ length.2 ≤ reader.data.length := by
  refine yields_bind (yields_byteAt h) fun lengthByte _ => ?_
  by_cases hshort : lengthByte.toNat < 0x80
  · rw [if_pos hshort]
    exact ⟨by dsimp only; omega, by dsimp only; omega⟩
  · rw [if_neg hshort]
    refine yields_check fun _ => yields_check fun hstop => ?_
    exact ⟨by dsimp only; omega, by dsimp only; omega⟩

/-- An element that is read lies within the data of its reader, and the next one behind it. -/
lemma yields_read (reader : DerReader) (tag : UInt8) :
    Yields (reader.read tag) fun element => element.2.data = reader.data ∧
      element.2.offset ≤ reader.data.length ∧ ∃ header, reader.data.drop reader.offset =
        header ++ (element.1 ++ reader.data.drop element.2.offset) := by
  refine yields_check fun hbefore => ?_
  refine yields_bind (yields_byteAt (not_le.mp hbefore)) fun b _ => ?_
  refine yields_check fun _ => yields_check fun htag => ?_
  refine yields_bind (yields_readLength (not_le.mp htag)) ?_
  rintro ⟨length, offset⟩ ⟨hoffset, hlength⟩
  dsimp only at hoffset hlength ⊢
  refine yields_check fun hstop => ?_
  refine ⟨rfl, not_lt.mp hstop, (reader.data.drop reader.offset).take (offset - reader.offset), ?_⟩
  have hvalue : slice reader.data offset (offset + length) ++
      reader.data.drop (offset + length) = reader.data.drop offset := by
    rw [slice, Nat.add_sub_cancel_left, ← List.drop_drop, List.take_append_drop]
  have hheader : reader.data.drop offset =
      (reader.data.drop reader.offset).drop (offset - reader.offset) := by
    rw [List.drop_drop]
    congr 1
    omega
  exact (List.take_append_drop _ _).symm.trans
    (congrArg _ (hheader.symm.trans hvalue.symm))

lemma yields_integerOf (value : List UInt8) : Yields (integerOf value) fun _ => True := by
  unfold integerOf
  split
  · exact nofun
  · split_ifs
    · exact nofun
    · trivial

lemma yields_rsaNumbers (privateKey : List UInt8) :
    Yields (rsaNumbers privateKey) fun _ => True := by
  refine yields_bind (yields_read _ _) fun ⟨sequence, rsaOuter⟩ _ => ?_
  refine yields_check fun _ => ?_
  refine yields_bind (yields_read _ _) fun ⟨version, rsa⟩ _ => ?_
  refine yields_bind (yields_integerOf _) fun _ _ => ?_
  refine yields_bind (yields_read _ _) fun ⟨value, rsa'⟩ _ => ?_
  refine yields_bind (yields_integerOf _) fun modulus _ => ?_
  refine yields_bind (yields_read _ _) fun ⟨value', _⟩ _ => ?_
  exact yields_bind (yields_integerOf _) fun exponent _ => trivial

lemma yields_privateKeyInfo (der : List UInt8) : Yields (privateKeyInfo der) fun _ => True := by
  refine yields_bind (yields_read _ _) fun ⟨info, outer⟩ _ => ?_
  refine yields_check fun _ => ?_
  refine yields_bind (yields_read _ _) fun ⟨version, reader⟩ _ => ?_
  refine yields_bind (yields_integerOf _) fun _ _ => ?_
  refine yields_bind (yields_read _ _) fun ⟨identifier, reader'⟩ _ => ?_
  refine yields_bind (yields_read _ _) fun ⟨oid, _⟩ _ => ?_
  refine yields_check fun _ => ?_
  exact yields_bind (yields_read _ _) fun ⟨privateKey, _⟩ _ => yields_rsaNumbers privateKey

/-- Any bytes give two numbers or the error for an invalid key. -/
lemma rsaNumbersFromPkcs8_total (der : List UInt8) :
    (∃ n e, rsaNumbersFromPkcs8 der = .ok (n, e)) ∨
      rsaNumbersFromPkcs8 der = .error invalidKey := by
  have hyields := yields_privateKeyInfo der
  unfold rsaNumbersFromPkcs8
  cases hinfo : privateKeyInfo der with
  | ok numbers => exact .inl ⟨numbers.1, numbers.2, rfl⟩
  | error e =>
    rw [hinfo] at hyields
    cases e with
    | valueError message => exact .inr rfl
    | indexError => exact absurd rfl hyields

/-- Standard encodings are read back, any bytes give numbers or an error, and each element is
read from within the one that encloses it. -/
theorem rsaNumbersFromPkcs8_spec {version : ℕ} {parameters attributes : List UInt8}
    {rsaVersion n e : ℕ} {further : List UInt8}
    (hlength : (pkcs8Content version parameters (rsaPrivateKey rsaVersion n e further)
      attributes).length < 256 ^ 4) :
    rsaNumbersFromPkcs8 (element 0x30 (pkcs8Content version parameters
        (rsaPrivateKey rsaVersion n e further) attributes)) = .ok (n, e) ∧
      (∀ der, (∃ n e, rsaNumbersFromPkcs8 der = .ok (n, e)) ∨
        rsaNumbersFromPkcs8 der = .error invalidKey) ∧
      ∀ (reader : DerReader) tag, Yields (reader.read tag) fun element =>
        element.2.data = reader.data ∧ element.2.offset ≤ reader.data.length ∧
          ∃ header, reader.data.drop reader.offset =
            header ++ (element.1 ++ reader.data.drop element.2.offset) :=
  ⟨rsaNumbersFromPkcs8_element hlength, rsaNumbersFromPkcs8_total, yields_read⟩

/-- A modulus of one byte with the top bit set, and the usual exponent. -/
theorem rsaNumbersFromPkcs8_small :
    rsaNumbersFromPkcs8 (element 0x30 (pkcs8Content 0 [5, 0] (rsaPrivateKey 0 187 65537 []) [])) =
      .ok (187, 65537) :=
  (rsaNumbersFromPkcs8_spec (by decide +kernel)).1

end WiseacctSso.Pkcs8Keys
