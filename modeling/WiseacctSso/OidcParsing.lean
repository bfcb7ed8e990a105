import WiseacctSso.FormEncoding

/-!
# Parsing at the OIDC boundary

Query strings and forms are parsed strictly: every field is a name, an equals sign and a
value, no name occurs twice, and whatever else is found is a `ParseError`.
-/
open PythonText
namespace WiseacctSso.OidcParsing
open FormEncoding UrlPath

inductive RequestError
  | parse (message : String)
  /-- `ClientAuthenticationError`, a `ParseError` as well. -/
  | clientAuthentication (message : String)
  | unicodeDecode
  | binascii
  /-- A `ValueError` of the standard library. -/
  | value (message : String)
  deriving DecidableEq

def maxFormBytes : ℕ := 8192

def maxFields : ℕ := 16

/-- `bytes.decode("utf-8", "strict")`. -/
def decodeText (bytes : List UInt8) : Except RequestError String :=
  match decodeStrict bytes with
  | none => .error .unicodeDecode
  | some s => .ok s

/-- `raw_name, raw_value = field.split(b"=", 1)`. -/
def rawName (field : List UInt8) : List UInt8 := before 61 field

def rawValue (field : List UInt8) : List UInt8 := after 61 field

/-- One field of the input. -/
def parseField (field : List UInt8) : Except RequestError (String × String) :=
  if field = [] ∨ 61 ∉ field then .error (.parse "invalid form encoding")
  else
    if rawName field = [] ∨ badPercent (rawName field) ∨ badPercent (rawValue field) then
      .error (.parse "invalid form encoding")
    else
      match decodeText (unquotePlus (rawName field)), decodeText (unquotePlus (rawValue field)) with
      | .ok name, .ok value => .ok (name, value)
      | _, _ => .error (.parse "invalid UTF-8")

def parseFields (parsed : List (String × String)) :
    List (List UInt8) → Except RequestError (List (String × String))
  | [] => .ok parsed
  | field :: fields =>
    match parseField field with
    | .error e => .error e
    | .ok entry =>
      if entry.1 ∈ parsed.map Prod.fst then .error (.parse "duplicate field")
      else parseFields (parsed ++ [entry]) fields

def parseUrlencoded (raw : List UInt8) (maxBytes : ℕ) :
    Except RequestError (List (String × String)) :=
  if maxBytes < raw.length then .error (.parse "encoded input is too large")
  else if raw = [] then .ok []
  else if maxFields < (raw.splitOn 38).length then .error (.parse "too many fields")
  else parseFields [] (raw.splitOn 38)

/-- The form that `urlencode` writes. -/
def formEncode (entries : List (String × String)) : List UInt8 := quotePlusEncoder.form entries

/-! ## One field -/

/-- The field is the two texts with an equals sign between them, each as it may be encoded. -/
def Spelled (field : List UInt8) (entry : String × String) : Prop :=
  ∃ name value, field = name ++ 61 :: value ∧ 61 ∉ name ∧ name ≠ [] ∧
    unquotePlus name = utf8 entry.1 ∧ unquotePlus value = utf8 entry.2

lemma decodeText_ok {bytes : List UInt8} {s : String} :
    decodeText bytes = .ok s ↔ bytes = utf8 s := by
  unfold decodeText
  constructor
  · intro h
    cases hdecode : decodeStrict bytes with
    | none => simp [hdecode] at h
    | some s' =>
      simp only [hdecode, Except.ok.injEq] at h
      rw [← h, utf8_of_decodeStrict hdecode]
  · rintro rfl
    rw [decodeStrict_utf8]

lemma Spelled.fields {field : List UInt8} {entry : String × String} (h : Spelled field entry) :
    61 ∈ field ∧ rawName field ≠ [] ∧ unquotePlus (rawName field) = utf8 entry.1 ∧
      unquotePlus (rawValue field) = utf8 entry.2 := by
  obtain ⟨name, value, rfl, hname, hne, hfst, hsnd⟩ := h
  rw [rawName, rawValue, before_append hname, after_append hname]
  exact ⟨by simp, hne, hfst, hsnd⟩

lemma parseField_ok {field : List UInt8} {entry : String × String} :
    parseField field = .ok entry ↔ Spelled field entry ∧
      badPercent (rawName field) = false ∧ badPercent (rawValue field) = false := by
  unfold parseField
  constructor
  · intro h
    split at h
    · cases h
    rename_i hfield
    obtain ⟨-, hmem⟩ := not_or.mp hfield
    split at h
    · cases h
    rename_i hraw
    simp only [not_or, Bool.not_eq_true] at hraw
    split at h
    · rename_i name value hname hvalue
      obtain rfl := Except.ok.inj h
      have hspelled : Spelled field (name, value) :=
        ⟨_, _, eq_before_append (not_not.mp hmem), not_mem_before field, hraw.1,
          decodeText_ok.mp hname, decodeText_ok.mp hvalue⟩
      exact ⟨hspelled, hraw.2⟩
    · cases h
  · rintro ⟨hspelled, hname, hvalue⟩
    obtain ⟨hmem, hne, hfst, hsnd⟩ := hspelled.fields
    have hnil : field ≠ [] := List.ne_nil_of_mem hmem
    rw [if_neg (by simp [hnil, hmem]), if_neg (by simp [hne, hname, hvalue]),
      decodeText_ok.mpr hfst, decodeText_ok.mpr hsnd]

lemma parseField_error {field : List UInt8} {e : RequestError} (h : parseField field = .error e) :
    ∃ message, e = .parse message := by
  unfold parseField at h
  split at h
  · exact ⟨_, (Except.error.inj h).symm⟩
  split at h
  · exact ⟨_, (Except.error.inj h).symm⟩
  split at h
  · cases h
  · exact ⟨_, (Except.error.inj h).symm⟩

/-! ## The whole input -/

/-- Every field gives one entry, and the entries have different names. -/
lemma parseFields_ok (fields : List (List UInt8)) (parsed result : List (String × String))
    (hparsed : (parsed.map Prod.fst).Nodup) :
    parseFields parsed fields = .ok result ↔ ∃ entries, result = parsed ++ entries ∧
      (result.map Prod.fst).Nodup ∧
        List.Forall₂ (fun f e => parseField f = .ok e) fields entries := by
  induction fields generalizing parsed with
  | nil =>
    simp only [parseFields, Except.ok.injEq, List.forall₂_nil_left_iff, exists_eq_right_right,
      List.append_nil]
    constructor
    · rintro rfl
      exact ⟨rfl, hparsed⟩
    · exact fun h => h.1.symm
  | cons field fields ih =>
    rw [parseFields]
    cases hfield : parseField field with
    | error e =>
      constructor
      · rintro ⟨⟩
      · rintro ⟨entries, -, -, hentries⟩
        cases hentries with
        | cons hhead => simp [hfield] at hhead
    | ok entry =>
      dsimp only
      split_ifs with hmem
      · simp only [false_iff, not_exists, not_and]
        rintro entries rfl hnodup hentries
        cases hentries with
        | cons hhead =>
          obtain rfl := Except.ok.inj (hhead.symm.trans hfield)
          rw [List.map_append, List.nodup_append] at hnodup
          exact hnodup.2.2 _ hmem _ (by simp) rfl
      · have hnext : ((parsed ++ [entry]).map Prod.fst).Nodup := by
          rw [List.map_append, List.nodup_append]
          refine ⟨hparsed, by simp, ?_⟩
          rintro name hname _ hentry rfl
          simp only [List.map_cons, List.map_nil, List.mem_singleton] at hentry
          exact hmem (hentry ▸ hname)
        rw [ih _ hnext]
        constructor
        · rintro ⟨entries, rfl, hnodup, hentries⟩
          exact ⟨entry :: entries, by simp, hnodup, .cons hfield hentries⟩
        · rintro ⟨entries, rfl, hnodup, hentries⟩
          cases hentries with
          | cons hhead htail =>
            obtain rfl := Except.ok.inj (hhead.symm.trans hfield)
            exact ⟨_, by simp, hnodup, htail⟩

lemma parseFields_error (fields : List (List UInt8)) (parsed : List (String × String))
    {e : RequestError} (h : parseFields parsed fields = .error e) :
    ∃ message, e = .parse message := by
  induction fields generalizing parsed with
  | nil => cases h
  | cons field fields ih =>
    rw [parseFields] at h
    split at h
    · rename_i hfield
      obtain rfl := Except.error.inj h
      exact parseField_error hfield
    · split_ifs at h
      · exact ⟨_, (Except.error.inj h).symm⟩
      · exact ih _ h

lemma parseUrlencoded_ok {raw : List UInt8} {maxBytes : ℕ} {m : List (String × String)}
    (hraw : raw ≠ []) :
    parseUrlencoded raw maxBytes = .ok m ↔ raw.length ≤ maxBytes ∧
      (raw.splitOn 38).length ≤ maxFields ∧ (m.map Prod.fst).Nodup ∧
      List.Forall₂ (fun f e => parseField f = .ok e) (raw.splitOn 38) m := by
  unfold parseUrlencoded
  constructor
  · intro h
    split_ifs at h with hbytes hfields
    obtain ⟨entries, rfl, hnodup, hentries⟩ := (parseFields_ok _ [] m (by simp)).mp h
    exact ⟨not_lt.mp hbytes, not_lt.mp hfields, hnodup, hentries⟩
  · rintro ⟨hbytes, hfields, hnodup, hentries⟩
    rw [if_neg (not_lt.mpr hbytes), if_neg hraw, if_neg (not_lt.mpr hfields)]
    exact (parseFields_ok _ [] m (by simp)).mpr ⟨m, rfl, hnodup, hentries⟩

lemma parseUrlencoded_error {raw : List UInt8} {maxBytes : ℕ} {e : RequestError}
    (h : parseUrlencoded raw maxBytes = .error e) : ∃ message, e = .parse message := by
  unfold parseUrlencoded at h
  split_ifs at h
  · exact ⟨_, (Except.error.inj h).symm⟩
  · exact ⟨_, (Except.error.inj h).symm⟩
  · exact parseFields_error _ _ h

/-! ## What is encoded is parsed back -/

lemma not_mem_component (enc : Encoder) (s : String) {c : UInt8} (h : c ∈ [35, 38, 58, 61, 63]) :
    c ∉ enc.component s := fun hc => (mem_component enc hc).2 h

lemma parseField_pair (enc : Encoder) {entry : String × String} (h : entry.1 ≠ "") :
    parseField (enc.pair entry) = .ok entry := by
  have hname : 61 ∉ enc.component entry.1 := not_mem_component enc _ (by decide)
  have hspelled : Spelled (enc.pair entry) entry :=
    ⟨_, _, rfl, hname, component_ne_nil enc h, unquotePlus_component enc _,
      unquotePlus_component enc _⟩
  rw [parseField_ok, rawName, rawValue, Encoder.pair, before_append hname, after_append hname,
    badPercent_component, badPercent_component]
  exact ⟨hspelled, rfl, rfl⟩

/-- Splitting the form gives its pairs. -/
lemma splitOn_form (enc : Encoder) {d : List (String × String)} (h : d ≠ []) :
    (enc.form d).splitOn 38 = d.map enc.pair := by
  have hsep : ∀ pair ∈ d.map enc.pair, 38 ∉ pair := by
    intro pair hpair hmem
    obtain ⟨entry, -, rfl⟩ := List.mem_map.mp hpair
    rw [Encoder.pair, List.mem_append, List.mem_cons] at hmem
    obtain hmem | hmem | hmem := hmem
    · exact not_mem_component enc _ (by decide) hmem
    · exact absurd hmem (by decide)
    · exact not_mem_component enc _ (by decide) hmem
  exact List.splitOn_intercalate 38 hsep (by simpa using h)

lemma form_ne_nil (enc : Encoder) {d : List (String × String)} (h : d ≠ [])
    (hnames : ∀ entry ∈ d, entry.1 ≠ "") : enc.form d ≠ [] := by
  intro hnil
  have hsplit := splitOn_form enc h
  obtain ⟨entry, d, rfl⟩ := List.exists_cons_of_ne_nil h
  rw [hnil, List.splitOn_nil, List.map_cons] at hsplit
  have hpair : enc.pair entry = [] := (List.cons.inj hsplit).1.symm
  simp [Encoder.pair] at hpair

/-- A form of nonempty and different names that fits is read as it was written. -/
lemma parse_formEncode {d : List (String × String)} {maxBytes : ℕ} (hlength : d.length ≤ maxFields)
    (hnames : ∀ entry ∈ d, entry.1 ≠ "") (hnodup : (d.map Prod.fst).Nodup)
    (hbytes : (formEncode d).length ≤ maxBytes) :
    parseUrlencoded (formEncode d) maxBytes = .ok d := by
  by_cases hd : d = []
  · subst hd
    rfl
  · rw [formEncode, parseUrlencoded_ok (form_ne_nil _ hd hnames), splitOn_form _ hd]
    have hpairs : List.Forall₂ (fun f e => parseField f = .ok e)
        (d.map quotePlusEncoder.pair) d := by
      rw [List.forall₂_map_left_iff, List.forall₂_same]
      exact fun entry hentry => parseField_pair _ (hnames entry hentry)
    exact ⟨hbytes, by simpa using hlength, hnodup, hpairs⟩

lemma percentDecode_ne_nil {bytes : List UInt8} (h : bytes ≠ []) : percentDecode bytes ≠ [] := by
  match bytes, h with
  | [_], _ => simp [percentDecode]
  | [_, _], _ => simp [percentDecode]
  | b :: high :: low :: rest, _ =>
    rw [percentDecode]
    split
    · split <;> simp
    · simp

/-- An encoded name is not empty, and no more is the name. -/
lemma Spelled.name_ne {field : List UInt8} {entry : String × String} (h : Spelled field entry) :
    entry.1 ≠ "" := by
  obtain ⟨-, hne, hname, -⟩ := h.fields
  intro hempty
  rw [hempty] at hname
  have hspace : plusToSpace (rawName field) ≠ [] := by simpa [plusToSpace] using hne
  exact percentDecode_ne_nil hspace hname

lemma names_ne {fields : List (List UInt8)} {m : List (String × String)}
    (h : List.Forall₂ Spelled fields m) : ∀ entry ∈ m, entry.1 ≠ "" := by
  induction h with
  | nil => simp
  | cons hfield _ ih =>
    intro entry hentry
    obtain rfl | hentry := List.mem_cons.mp hentry
    · exact hfield.name_ne
    · exact ih entry hentry

/-- Forms are read exactly as they were written. Conversely, an accepted text spells the entries it
is read as, one a field, and they survive being written and read again. All else is a
`ParseError`. -/
theorem parseUrlencoded_exact :
    (∀ (d : List (String × String)) (maxBytes : ℕ), d.length ≤ 16 → (∀ entry ∈ d, entry.1 ≠ "") →
      (d.map Prod.fst).Nodup → (formEncode d).length ≤ maxBytes →
        parseUrlencoded (formEncode d) maxBytes = .ok d) ∧
    (∀ (raw : List UInt8) (maxBytes : ℕ) (m : List (String × String)),
      parseUrlencoded raw maxBytes = .ok m → m ≠ [] →
        List.Forall₂ Spelled (raw.splitOn 38) m ∧ (m.map Prod.fst).Nodup ∧
        ∀ maxBytes', (formEncode m).length ≤ maxBytes' →
          parseUrlencoded (formEncode m) maxBytes' = .ok m) ∧
    ∀ (raw : List UInt8) (maxBytes : ℕ) (e : RequestError),
      parseUrlencoded raw maxBytes = .error e → ∃ message, e = .parse message := by
  refine ⟨fun d maxBytes => parse_formEncode, ?_, fun raw maxBytes e => parseUrlencoded_error⟩
  intro raw maxBytes m hparse hm
  have hraw : raw ≠ [] := by
    rintro rfl
    rw [parseUrlencoded, if_neg (by simp), if_pos rfl] at hparse
    exact hm (Except.ok.inj hparse).symm
  obtain ⟨-, hfields, hnodup, hentries⟩ := (parseUrlencoded_ok hraw).mp hparse
  have hspelled : List.Forall₂ Spelled (raw.splitOn 38) m :=
    hentries.imp fun field entry hfield => (parseField_ok.mp hfield).1
  exact ⟨hspelled, hnodup, fun maxBytes' => parse_formEncode (hentries.length_eq ▸ hfields)
    (names_ne hspelled) hnodup⟩

/-- Two names and an awkward value. -/
theorem parseUrlencoded_exact_example :
    parseUrlencoded (formEncode [("a b", "1&=+%é"), ("state", "")]) 64 =
        .ok [("a b", "1&=+%é"), ("state", "")] ∧
      List.Forall₂ Spelled ((formEncode [("a b", "1&=+%é"), ("state", "")]).splitOn 38)
        [("a b", "1&=+%é"), ("state", "")] := by
  have hparse := parseUrlencoded_exact.1 [("a b", "1&=+%é"), ("state", "")] 64 (by decide)
    (by simp) (by simp) (by decide)
  exact ⟨hparse, (parseUrlencoded_exact.2.1 _ 64 _ hparse (by simp)).1⟩

end WiseacctSso.OidcParsing
