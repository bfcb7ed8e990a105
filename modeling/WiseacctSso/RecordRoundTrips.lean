import WiseacctSso.RecordFormats

/-!
# Records are read back

What a create method stores is read back as the fields it was given, and no bytes are a record
of two formats.
-/
namespace WiseacctSso.RecordFormats
open Json FormEncoding

/-! ## Strings -/

lemma toNat_lt (c : Char) : c.toNat < 0x110000 := by
  have h := c.valid
  simp only [UInt32.isValidChar, Nat.isValidChar] at h
  simp only [Char.toNat]
  omega

lemma ofString_inj {s t : String} : ofString s = ofString t ↔ s = t := by
  constructor
  · intro h
    have hchars : s.toList = t.toList := by
      refine List.map_injective_iff.mpr (fun c d hcd => ?_) h
      have hval := congrArg Fin.val hcd
      rw [val_codePoint (toNat_lt c), val_codePoint (toNat_lt d)] at hval
      exact Char.toNat_inj.mp hval
    exact String.toList_inj.mp hchars
  · rintro rfl
    rfl

/-- A character is no surrogate. -/
lemma not_isHigh_char (c : Char) : isHigh (codePoint c.toNat) = false := by
  have h := c.valid
  simp only [UInt32.isValidChar, Nat.isValidChar] at h
  have hval : (codePoint c.toNat).val = c.val.toNat := val_codePoint (toNat_lt c)
  simp only [isHigh, hval, Bool.and_eq_false_iff, decide_eq_false_iff_not]
  omega

lemma unpaired_ofString (s : String) : Unpaired (ofString s) := by
  refine List.isChain_iff_forall_rel_of_append_cons_cons.mpr fun c d front rest h hpair => ?_
  have hmem : c ∈ ofString s := by simp [h]
  obtain ⟨char, -, rfl⟩ := List.mem_map.mp hmem
  rw [not_isHigh_char] at hpair
  cases hpair.1

/-! ## Objects -/

lemma isAscii_dumpsItems {close : Char} (hclose : close.toNat < 0x80) {parts : List (List Char)}
    (h : ∀ part ∈ parts, IsAscii part) : IsAscii (dumpsItems close parts) := by
  induction parts with
  | nil => simpa [dumpsItems, IsAscii] using hclose
  | cons part parts ih =>
    rw [List.forall_mem_cons] at h
    cases parts with
    | nil => exact isAscii_append h.1 (by simpa [IsAscii] using hclose)
    | cons next parts =>
      have hcomma : IsAscii [','] := by simp [IsAscii]
      have htail := isAscii_append hcomma (ih h.2)
      exact isAscii_append h.1 htail

lemma isAscii_dumpsInt (z : ℤ) : IsAscii (dumpsInt z) := by
  have hdigits : IsAscii (Nat.toDigits 10 z.natAbs) := by
    intro c hc
    have hdigit := (Char.isDigit_iff_toNat.mp (isDigit_toDigits z.natAbs c hc)).2
    exact hdigit.trans_lt (by decide)
  have hminus : IsAscii ['-'] := by simp [IsAscii]
  unfold dumpsInt
  split
  · exact isAscii_append hminus hdigits
  · exact hdigits

lemma Field.isAscii_dumps (f : Field) : IsAscii f.dumps := by
  cases f with
  | str s => exact isAscii_dumpsStr s
  | null => simp [Field.dumps, IsAscii]
  | int z => exact isAscii_dumpsInt z
  | strs items =>
    have hbracket : IsAscii ['['] := by simp [IsAscii]
    refine isAscii_append hbracket (isAscii_dumpsItems (by decide) fun part hpart => ?_)
    obtain ⟨s, -, rfl⟩ := List.mem_map.mp hpart
    exact isAscii_dumpsStr s

lemma isAscii_dumps (record : List (PyStr × Field)) : IsAscii (dumps record) := by
  have hbrace : IsAscii ['{'] := by simp [IsAscii]
  refine isAscii_append hbrace (isAscii_dumpsItems (by decide) fun part hpart => ?_)
  obtain ⟨member, -, rfl⟩ := List.mem_map.mp hpart
  have hcolon : IsAscii [':'] := by simp [IsAscii]
  exact isAscii_append (isAscii_dumpsStr member.1)
    (isAscii_append hcolon (Field.isAscii_dumps member.2))

lemma decodeStrict_encodeAscii {text : List Char} {raw : List UInt8}
    (h : encodeAscii text = .ok raw) : decodeStrict raw = some (.ofList text) := by
  unfold encodeAscii at h
  split at h
  · rename_i hall
    obtain rfl := Except.ok.inj h
    rw [List.all_eq_true] at hall
    have htext : (text.map fun c => UInt8.ofNat c.toNat).map asciiChar = text := by
      rw [List.map_map]
      refine (List.map_congr_left fun c hc => ?_).trans (List.map_id text)
      have hc : c.toNat < 128 := by simpa using hall c hc
      have hbyte : (UInt8.ofNat c.toNat).toNat = c.toNat := by
        rw [UInt8.toNat_ofNat']
        omega
      rw [Function.comp_apply, asciiChar, hbyte, Char.ofNat_toNat, id]
    have hbytes : ∀ b ∈ text.map fun c => UInt8.ofNat c.toNat, b.toNat < 128 := by
      intro b hb
      obtain ⟨c, hc, rfl⟩ := List.mem_map.mp hb
      have hc : c.toNat < 128 := by simpa using hall c hc
      rw [UInt8.toNat_ofNat']
      omega
    rw [← utf8_ascii hbytes, htext, decodeStrict_utf8]
  · cases h

lemma parseJsonObject_serialize {record : List (PyStr × Field)} {raw : List UInt8}
    (hstrings : ∀ member ∈ record, Unpaired member.1 ∧ member.2.Unpaired)
    (hkeys : (record.map Prod.fst).Nodup) (h : serialize record = .ok raw) :
    parseJsonObject raw = some (record.map fieldEntry) := by
  rw [parseJsonObject, decodeStrict_encodeAscii h, Option.bind_some, String.toList_ofList,
    loads_dumps hstrings hkeys]

/-! ## Members -/

lemma named_keys (members : List (String × Field)) :
    (named members).map Prod.fst = (members.map Prod.fst).map ofString := by
  simp [named]

lemma parseJsonObject_named {members : List (String × Field)} {raw : List UInt8}
    (hstrings : ∀ member ∈ members, member.2.Unpaired) (hkeys : (members.map Prod.fst).Nodup)
    (h : serialize (named members) = .ok raw) :
    parseJsonObject raw = some ((named members).map fieldEntry) := by
  refine parseJsonObject_serialize (fun member hmember => ?_) ?_ h
  · obtain ⟨member, hmem, rfl⟩ := List.mem_map.mp hmember
    exact ⟨unpaired_ofString member.1, hstrings member hmem⟩
  · rw [named_keys]
    exact hkeys.map fun _ _ heq => ofString_inj.mp heq

lemma item_named (key : String) (members : List (String × Field)) :
    item ((named members).map fieldEntry) key = (members.lookup key).map Field.value := by
  induction members with
  | nil => rfl
  | cons member members ih =>
    have hbeq : (ofString key == ofString member.1) = (key == member.1) := by
      rw [Bool.eq_iff_iff, beq_iff_eq, beq_iff_eq, ofString_inj]
    change List.lookup _ ((ofString member.1, member.2.value) :: _) = _
    rw [List.lookup_cons, List.lookup_cons, hbeq]
    split
    · rfl
    · exact ih

lemma keysAre_named {keys : List String} {members : List (String × Field)} :
    keysAre (keys.map ofString) ((named members).map fieldEntry) = true ↔
      ∀ name, name ∈ members.map Prod.fst ↔ name ∈ keys := by
  have hkeys : ((named members).map fieldEntry).map Prod.fst =
      (members.map Prod.fst).map ofString := by
    rw [List.map_map]
    exact named_keys members
  have hmem : ∀ (names : List String) (name : String),
      ofString name ∈ names.map ofString ↔ name ∈ names := fun names name => by
    simp [ofString_inj]
  constructor
  · intro h name
    rw [← hmem keys, ← mem_keys_iff h, hkeys, hmem]
  · intro h
    simp only [keysAre, hkeys, Bool.and_eq_true, List.all_eq_true, decide_eq_true_eq]
    constructor
    · intro entry hentry
      have hkey := List.mem_map_of_mem (f := Prod.fst) hentry
      rw [hkeys] at hkey
      obtain ⟨name, hname, heq⟩ := List.mem_map.mp hkey
      rw [← heq, hmem]
      exact (h name).mp hname
    · intro key hkey
      obtain ⟨name, hname, rfl⟩ := List.mem_map.mp hkey
      rw [hmem]
      exact (h name).mpr hname

/-- What is read back of a record whose members have the names `keys`. -/
lemma readBack {members : List (String × Field)} (keys : List String) {raw : List UInt8}
    (hstrings : ∀ member ∈ members, member.2.Unpaired) (hkeys : (members.map Prod.fst).Nodup)
    (hnames : ∀ name, name ∈ members.map Prod.fst ↔ name ∈ keys)
    (h : serialize (named members) = .ok raw) :
    ∃ record, parseJsonObject raw = some record ∧ keysAre (keys.map ofString) record = true ∧
      ∀ member ∈ members, item record member.1 = some member.2.value :=
  ⟨_, parseJsonObject_named hstrings hkeys h, keysAre_named.mpr hnames, fun member hmember => by
    rw [item_named, lookup_of_mem hkeys hmember]
    rfl⟩

lemma item_eq_none {keys : List String} {record : Dict PyStr} {key : String}
    (hkeys : keysAre (keys.map ofString) record = true) (hkey : key ∉ keys) :
    item record key = none := by
  rw [item, List.lookup_eq_none_iff]
  intro entry hentry
  rw [bne_iff_ne]
  intro heq
  have hmem := (mem_keys_iff hkeys entry.1).mp (List.mem_map_of_mem hentry)
  rw [← heq, List.mem_map] at hmem
  obtain ⟨name, hname, hstr⟩ := hmem
  exact hkey (ofString_inj.mp hstr ▸ hname)

/-- Serializing never fails. -/
lemma serialize_ok (record : List (PyStr × Field)) : ∃ raw, serialize record = .ok raw := by
  have hall : (dumps record).all (·.toNat < 128) = true := by
    rw [List.all_eq_true]
    exact fun c hc => decide_eq_true (isAscii_dumps record c hc)
  exact ⟨_, if_pos hall⟩

/-! ## Values -/

lemma bind_of_eq {α β : Type} {o : Option α} {a : α} (h : o = some a) (f : α → Option β) :
    o.bind f = f a := by
  rw [h, Option.bind_some]

/-- A read that gives back what was written, under a condition. -/
lemma bind_iff {α β : Type} {o : Option α} {a : α} {c : Prop} (h : ∀ {x}, o = some x ↔ x = a ∧ c)
    {f : α → Option β} {b : β} : o.bind f = some b ↔ c ∧ f a = some b := by
  rw [Option.bind_eq_some_iff]
  constructor
  · rintro ⟨x, hx, hf⟩
    obtain ⟨rfl, hc⟩ := h.mp hx
    exact ⟨hc, hf⟩
  · rintro ⟨hc, hf⟩
    exact ⟨a, h.mpr ⟨rfl, hc⟩, hf⟩

@[simp] lemma nonemptyString_str {s t : PyStr} :
    nonemptyString (Field.str s).value = some t ↔ t = s ∧ s ≠ [] := by
  simp only [nonemptyString, Field.value]
  split <;> simp_all [eq_comm]

@[simp] lemma nullableNonemptyString_nullable {o p : Option PyStr} :
    nullableNonemptyString (nullable o).value = some p ↔ p = o ∧ o ≠ some [] := by
  cases o with
  | none => simp [nullable, Field.value, nullableNonemptyString, eq_comm]
  | some s =>
    simp only [nullable, Field.value, nullableNonemptyString, nonemptyString]
    split <;> simp_all [eq_comm]

@[simp] lemma wordOf_str {words : List String} {s t : PyStr} :
    wordOf words (Field.str s).value = some t ↔ t = s ∧ s ∈ words.map ofString := by
  simp only [wordOf, Field.value]
  split
  · rename_i h
    exact ⟨fun heq => ⟨(Option.some.inj heq).symm, h⟩, fun heq => congrArg some heq.1.symm⟩
  · rename_i h
    exact iff_of_false (by simp) fun heq => h heq.2

@[simp] lemma nullableMethod_nullable {o p : Option PyStr} :
    nullableMethod (nullable o).value = some p ↔ p = o ∧ ∀ s ∈ o, s = ofString "S256" := by
  cases o with
  | none => simp [nullable, Field.value, nullableMethod, eq_comm]
  | some s =>
    simp only [nullable, Field.value, nullableMethod, wordOf]
    split <;> simp_all [eq_comm]

@[simp] lemma positiveInteger_int {y z : ℤ} :
    positiveInteger (Field.int z).value = some y ↔ y = z ∧ 0 < z := by
  simp only [positiveInteger, Field.value]
  split <;> simp_all [eq_comm]

/-- A list of scopes that the parsers take. -/
def ValidScopes (scopes : List PyStr) : Prop :=
  scopes ≠ [] ∧ scopes.length ≤ 16 ∧ [] ∉ scopes ∧ scopes.Nodup

lemma mapM_nonemptyString {ss ts : List PyStr} :
    (ss.map Value.str).mapM nonemptyString = some ts ↔ ts = ss ∧ [] ∉ ss := by
  induction ss generalizing ts with
  | nil => simp [eq_comm]
  | cons s ss ih =>
    rw [List.map_cons, List.mapM_cons]
    by_cases hs : s = []
    · simp [nonemptyString, hs]
    · simp only [nonemptyString, if_neg hs, Option.pure_def, Option.bind_eq_bind,
        Option.bind_some, Option.bind_eq_some_iff, ih, List.mem_cons, Ne.symm hs, false_or]
      constructor
      · rintro ⟨_, ⟨rfl, hmem⟩, heq⟩
        exact ⟨(Option.some.inj heq).symm, hmem⟩
      · rintro ⟨rfl, hmem⟩
        exact ⟨ss, ⟨rfl, hmem⟩, rfl⟩

@[simp] lemma scopesOf_strs {scopes parsed : List PyStr} :
    scopesOf (Field.strs scopes).value = some parsed ↔ parsed = scopes ∧ ValidScopes scopes := by
  simp only [scopesOf, Field.value, List.isEmpty_map, List.length_map, ValidScopes]
  split
  · rename_i h
    simp only [Bool.or_eq_true, List.isEmpty_iff, decide_eq_true_eq] at h
    refine iff_of_false (by simp) ?_
    rintro ⟨-, hne, hlength, -⟩
    exact h.elim hne hlength.not_gt
  · rename_i h
    simp only [Bool.or_eq_true, List.isEmpty_iff, decide_eq_true_eq, not_or, not_lt] at h
    rw [Option.bind_eq_some_iff]
    constructor
    · rintro ⟨_, hmap, heq⟩
      obtain ⟨rfl, hmem⟩ := mapM_nonemptyString.mp hmap
      obtain ⟨hnodup, heq⟩ := Option.ite_none_right_eq_some.mp heq
      exact ⟨(Option.some.inj heq).symm, h.1, h.2, hmem, hnodup⟩
    · rintro ⟨rfl, -, -, hmem, hnodup⟩
      exact ⟨parsed, mapM_nonemptyString.mpr ⟨rfl, hmem⟩, if_pos hnodup⟩

@[simp] lemma pkceOf_nullable {challenge method : Option PyStr}
    {pkce : Option PyStr × Option PyStr} :
    pkceOf (nullable challenge).value (nullable method).value = some pkce ↔
      pkce = (challenge, method) ∧ challenge ≠ some [] ∧ challenge.isSome = method.isSome ∧
        ∀ s ∈ method, s = ofString "S256" := by
  rcases challenge with _ | _ | ⟨c, challenge⟩ <;> rcases method with _ | method <;>
    simp [pkceOf, nullable, Field.value, nullableNonemptyString, nonemptyString, eq_comm,
      and_comm]

/-- The strings in a value. -/
def fieldStrings : Field → List PyStr
  | .str s => [s]
  | .strs items => items
  | _ => []

@[simp] lemma fieldStrings_str (s : PyStr) : fieldStrings (.str s) = [s] := rfl

@[simp] lemma fieldStrings_strs (items : List PyStr) : fieldStrings (.strs items) = items := rfl

@[simp] lemma fieldStrings_int (z : ℤ) : fieldStrings (.int z) = [] := rfl

@[simp] lemma fieldStrings_nullable (o : Option PyStr) : fieldStrings (nullable o) = o.toList := by
  cases o <;> rfl

lemma unpaired_iff {f : Field} : f.Unpaired ↔ ∀ s ∈ fieldStrings f, Unpaired s := by
  cases f <;> simp [Field.Unpaired, fieldStrings]

/-! ## OAuth states -/

variable {urlsplit : PyStr → Option (Option PyStr)} {sha256 : List UInt8 → String}

def OAuthStateMetadata.strings (metadata : OAuthStateMetadata) : List PyStr :=
  [metadata.clientId, metadata.redirectUri] ++ metadata.callerState.toList ++
    metadata.codeChallenge.toList ++ metadata.codeChallengeMethod.toList

/-- What `OAuthStateStore.create` takes. -/
def OAuthStateMetadata.Valid (urlsplit : PyStr → Option (Option PyStr)) (provider : PyStr)
    (metadata : OAuthStateMetadata) : Prop :=
  provider ∈ providers.map ofString ∧ metadata.clientId ≠ [] ∧ metadata.redirectUri ≠ [] ∧
    isAbsoluteZodUrl urlsplit metadata.redirectUri = true ∧ metadata.callerState ≠ some [] ∧
    metadata.codeChallenge ≠ some [] ∧ ∀ s ∈ metadata.codeChallengeMethod, s = ofString "S256"

lemma oauthRecord_serialize {provider : PyStr} {metadata : OAuthStateMetadata} {raw : List UInt8}
    (hs : ∀ s ∈ provider :: metadata.strings, Unpaired s)
    (h : serialize (oauthMembers provider metadata) = .ok raw)
    {parsed : PyStr × OAuthStateMetadata} :
    oauthRecord urlsplit raw = some parsed ↔
      parsed = (provider, metadata) ∧ metadata.Valid urlsplit provider := by
  obtain ⟨record, hparse, hkeys, hitems⟩ := readBack oauthKeys
    (by simpa [OAuthStateMetadata.strings, unpaired_iff, or_imp, forall_and] using hs) (by simp)
    (by simp [oauthKeys]) h
  simp only [List.forall_mem_cons] at hitems
  obtain ⟨hprovider, hclient, hredirect, hstate, hchallenge, hmethod, -⟩ := hitems
  simp only [oauthRecord, ↓Option.bind_eq_bind, ↓bind_of_eq hparse, hkeys, not_true_eq_false,
    if_false, ↓bind_of_eq hprovider, ↓bind_of_eq hclient, ↓bind_of_eq hredirect,
    ↓bind_of_eq hstate, ↓bind_of_eq hchallenge, ↓bind_of_eq hmethod, OAuthStateMetadata.Valid]
  simp only [bind_iff nonemptyString_str, bind_iff nullableNonemptyString_nullable,
    bind_iff wordOf_str, bind_iff nullableMethod_nullable, Option.ite_none_left_eq_some,
    Option.pure_def, not_not]
  constructor
  · rintro ⟨hc, hr, hcs, hcc, hp, hu, hm, heq⟩
    exact ⟨(Option.some.inj heq).symm, hp, hc, hr, hu, hcs, hcc, hm⟩
  · rintro ⟨rfl, hp, hc, hr, hu, hcs, hcc, hm⟩
    exact ⟨hc, hr, hcs, hcc, hp, hu, hm, rfl⟩

/-! ## Handoffs -/

def StoredAuthHandoffMetadata.strings (metadata : StoredAuthHandoffMetadata) : List PyStr :=
  [metadata.clientId, metadata.audience, metadata.redirectUri, metadata.userId,
    metadata.loginMethod, metadata.codeChallenge, metadata.codeChallengeMethod] ++
    metadata.state.toList ++ metadata.provider.toList

/-- An integer that `float` takes for a whole number. -/
def FloatsWhole (z : ℤ) : Prop := ∃ f, PyFloat.ofInt z = some f ∧ f.isInteger = true

def StoredAuthHandoffMetadata.FieldsValid (urlsplit : PyStr → Option (Option PyStr))
    (metadata : StoredAuthHandoffMetadata) : Prop :=
  metadata.clientId ≠ [] ∧ metadata.audience ≠ [] ∧ metadata.redirectUri ≠ [] ∧
    metadata.userId ≠ [] ∧ metadata.codeChallenge ≠ [] ∧ metadata.state ≠ some [] ∧
    isAbsoluteZodUrl urlsplit metadata.redirectUri = true ∧
    metadata.loginMethod ∈ ["oauth", "password"].map ofString ∧
    metadata.codeChallengeMethod ∈ ["S256"].map ofString ∧
    ∀ provider ∈ metadata.provider, provider ∈ providers.map ofString

/-- What `AuthHandoffStore.create` takes. -/
def StoredAuthHandoffMetadata.Valid (urlsplit : PyStr → Option (Option PyStr))
    (metadata : StoredAuthHandoffMetadata) : Prop :=
  metadata.FieldsValid urlsplit ∧ FloatsWhole metadata.expiresAtEpochMs ∧
    0 < metadata.expiresAtEpochMs

lemma expiryOf_eq {z : ℤ} :
    expiryOf (.int z) = (PyFloat.ofInt z).elim (.error .overflow) fun f =>
      .ok (if f.isInteger && 0 < z then some z else none) := by
  delta expiryOf
  generalize PyFloat.ofInt = float
  dsimp only
  cases float z <;> rfl

lemma expiryOf_int {y z : ℤ} :
    expiryOf (Field.int z).value = .ok (some y) ↔ y = z ∧ FloatsWhole z ∧ 0 < z := by
  rw [Field.value, expiryOf_eq, FloatsWhole]
  generalize PyFloat.ofInt z = float
  rcases float with _ | f
  · simp
  · simp only [Option.elim, Except.ok.injEq, Option.ite_none_right_eq_some, Bool.and_eq_true,
      decide_eq_true_eq, Option.some.injEq, exists_eq_left']
    constructor
    · rintro ⟨⟨hf, hz⟩, rfl⟩
      exact ⟨rfl, hf, hz⟩
    · rintro ⟨rfl, hf, hz⟩
      exact ⟨⟨hf, hz⟩, rfl⟩

/-- Either way the members have the keys of a handoff, and the provider is read as it was. -/
lemma readBack_handoff {metadata : StoredAuthHandoffMetadata} {raw : List UInt8}
    (hs : ∀ s ∈ metadata.strings, Unpaired s)
    (h : serialize (handoffMembers metadata) = .ok raw) :
    ∃ record, parseJsonObject raw = some record ∧
      (keysAre (handoffKeys.map ofString) record ||
        keysAre (("provider" :: handoffKeys).map ofString) record) = true ∧
      (∀ member ∈ [("clientId", Field.str metadata.clientId), ("audience", .str metadata.audience),
          ("redirectUri", .str metadata.redirectUri), ("userId", .str metadata.userId)] ++
          [("loginMethod", .str metadata.loginMethod),
            ("codeChallenge", .str metadata.codeChallenge),
            ("codeChallengeMethod", .str metadata.codeChallengeMethod),
            ("state", nullable metadata.state),
            ("expiresAtEpochMs", .int metadata.expiresAtEpochMs)],
        item record member.1 = some member.2.value) ∧
      item record "provider" = metadata.provider.map Value.str := by
  unfold handoffMembers at h
  simp only [StoredAuthHandoffMetadata.strings] at hs
  cases hprovider : metadata.provider with
  | none =>
    rw [hprovider] at h hs
    obtain ⟨record, hparse, hkeys, hitems⟩ := readBack handoffKeys (by
      simp [unpaired_iff, or_imp, forall_and] at hs ⊢
      tauto) (by simp) (by simp [handoffKeys]) h
    refine ⟨record, hparse, by rw [hkeys, Bool.true_or], fun member hmember => hitems member ?_, ?_⟩
    · rwa [Option.map_none, Option.toList_none, List.append_nil]
    · exact item_eq_none hkeys (by simp [handoffKeys])
  | some provider =>
    rw [hprovider] at h hs
    have hperm : ["clientId", "audience", "redirectUri", "userId", "provider", "loginMethod",
        "codeChallenge", "codeChallengeMethod", "state", "expiresAtEpochMs"].Perm
        ("provider" :: handoffKeys) := by decide
    obtain ⟨record, hparse, hkeys, hitems⟩ := readBack ("provider" :: handoffKeys) (by
      simp [unpaired_iff, or_imp, forall_and] at hs ⊢
      tauto) (by simp) (fun name => hperm.mem_iff) h
    refine ⟨record, hparse, by rw [hkeys, Bool.or_true], fun member hmember => hitems member ?_, ?_⟩
    · exact (List.mem_append.mp hmember).elim
        (fun hmem => List.mem_append_left _ (List.mem_append_left _ hmem))
        (fun hmem => List.mem_append_right _ hmem)
    · exact hitems ("provider", .str provider) (by simp)

lemma handoffRecord_serialize {metadata : StoredAuthHandoffMetadata} {raw : List UInt8}
    (hs : ∀ s ∈ metadata.strings, Unpaired s)
    (h : serialize (handoffMembers metadata) = .ok raw) {parsed : StoredAuthHandoffMetadata} :
    handoffRecord urlsplit raw = .ok (some parsed) ↔
      parsed = metadata ∧ metadata.Valid urlsplit := by
  obtain ⟨record, hparse, hkeys, hitems, hprovider⟩ := readBack_handoff hs h
  simp only [List.cons_append, List.nil_append, List.forall_mem_cons] at hitems
  obtain ⟨hclient, haudience, hredirect, huser, hlogin, hchallenge, hmethod, hstate, hexpires, -⟩ :=
    hitems
  have hread : ∀ {expires : Option ℤ}, handoffFields urlsplit record expires = some parsed ↔
      ∃ y, expires = some y ∧ parsed = { metadata with expiresAtEpochMs := y } ∧
        metadata.FieldsValid urlsplit := by
    intro expires
    unfold StoredAuthHandoffMetadata.FieldsValid
    rcases hp : metadata.provider with _ | provider
    · rw [hp] at hprovider
      simp only [handoffFields, ↓Option.bind_eq_bind, ↓bind_of_eq hclient, ↓bind_of_eq haudience,
        ↓bind_of_eq hredirect, ↓bind_of_eq huser, ↓bind_of_eq hlogin, ↓bind_of_eq hchallenge,
        ↓bind_of_eq hmethod, ↓bind_of_eq hstate, hprovider, Option.map_none]
      simp only [bind_iff nonemptyString_str, bind_iff nullableNonemptyString_nullable,
        bind_iff wordOf_str, Option.bind_eq_some_iff, Option.ite_none_left_eq_some,
        Option.pure_def, not_not]
      constructor
      · rintro ⟨hc, ha, hr, hu, hcc, hs, habs, hl, hm, _, ⟨⟩, y, rfl, heq⟩
        exact ⟨y, rfl, (Option.some.inj heq).symm, hc, ha, hr, hu, hcc, hs, habs, hl, hm,
          fun _ hq => nomatch hq⟩
      · rintro ⟨y, rfl, rfl, hc, ha, hr, hu, hcc, hs, habs, hl, hm, -⟩
        exact ⟨hc, ha, hr, hu, hcc, hs, habs, hl, hm, none, rfl, y, rfl, rfl⟩
    · rw [hp] at hprovider
      simp only [handoffFields, ↓Option.bind_eq_bind, ↓bind_of_eq hclient, ↓bind_of_eq haudience,
        ↓bind_of_eq hredirect, ↓bind_of_eq huser, ↓bind_of_eq hlogin, ↓bind_of_eq hchallenge,
        ↓bind_of_eq hmethod, ↓bind_of_eq hstate, hprovider, Option.map_some]
      have hword : ∀ {p : Option PyStr}, (wordOf providers (.str provider)).map some = some p ↔
          p = some provider ∧ provider ∈ providers.map ofString := by
        intro p
        rw [Option.map_eq_some_iff]
        constructor
        · rintro ⟨q, hq, rfl⟩
          obtain ⟨rfl, hmem⟩ := wordOf_str.mp hq
          exact ⟨rfl, hmem⟩
        · rintro ⟨rfl, hmem⟩
          exact ⟨provider, wordOf_str.mpr ⟨rfl, hmem⟩, rfl⟩
      simp only [bind_iff nonemptyString_str, bind_iff nullableNonemptyString_nullable,
        bind_iff wordOf_str, bind_iff hword, Option.bind_eq_some_iff,
        Option.ite_none_left_eq_some, Option.pure_def, not_not]
      constructor
      · rintro ⟨hc, ha, hr, hu, hcc, hs, habs, hl, hm, hmem, y, rfl, heq⟩
        refine ⟨y, rfl, (Option.some.inj heq).symm, hc, ha, hr, hu, hcc, hs, habs, hl, hm, ?_⟩
        rintro q ⟨⟩
        exact hmem
      · rintro ⟨y, rfl, rfl, hc, ha, hr, hu, hcc, hs, habs, hl, hm, hmem⟩
        exact ⟨hc, ha, hr, hu, hcc, hs, habs, hl, hm, hmem provider rfl, y, rfl, rfl⟩
  rw [handoffRecord, hparse]
  dsimp only
  rw [if_pos hkeys, hexpires]
  dsimp only
  constructor
  · intro h
    obtain ⟨expires, hexpiry, hparsed⟩ : ∃ expires,
        expiryOf (Field.int metadata.expiresAtEpochMs).value = .ok expires ∧
          handoffFields urlsplit record expires = some parsed := by
      generalize expiryOf (Field.int metadata.expiresAtEpochMs).value = expiry at h
      cases expiry with
      | error e => cases h
      | ok expires => exact ⟨expires, rfl, Except.ok.inj h⟩
    obtain ⟨y, rfl, rfl, hvalid⟩ := hread.mp hparsed
    obtain ⟨rfl, hwhole, hpos⟩ := expiryOf_int.mp hexpiry
    exact ⟨rfl, hvalid, hwhole, hpos⟩
  · rintro ⟨rfl, hvalid, hwhole, hpos⟩
    rw [expiryOf_int.mpr ⟨rfl, hwhole, hpos⟩]
    exact congrArg Except.ok (hread.mpr ⟨_, rfl, rfl, hvalid⟩)

/-! ## OIDC records -/

/-- A record that is read back with its purpose. -/
lemma recordOf_serialize {members : List (String × Field)} (keys : List String) (purpose : String)
    {raw : List UInt8} (hstrings : ∀ member ∈ members, member.2.Unpaired)
    (hkeys : members.map Prod.fst = keys) (hnodup : keys.Nodup)
    (hpurpose : ("purpose", .str (ofString purpose)) ∈ members)
    (h : serialize (named members) = .ok raw) :
    ∃ record, recordOf keys purpose raw = some record ∧
      ∀ member ∈ members, item record member.1 = some member.2.value := by
  subst hkeys
  obtain ⟨record, hparse, hkeys, hitems⟩ :=
    readBack _ hstrings hnodup (fun _ => Iff.rfl) h
  refine ⟨record, ?_, hitems⟩
  have hitem : item record "purpose" = some (.str (ofString purpose)) := hitems _ hpurpose
  simp only [recordOf, hparse, hkeys, hitem, Option.bind_eq_bind, Option.bind_some, Value.isStr_str,
    decide_true, not_true_eq_false, if_false]

def ValidPkce (challenge method : Option PyStr) : Prop :=
  challenge ≠ some [] ∧ challenge.isSome = method.isSome ∧ ∀ s ∈ method, s = ofString "S256"

def OidcAuthorizationTransaction.strings (record : OidcAuthorizationTransaction) : List PyStr :=
  [record.clientId, record.redirectUri] ++ record.scopes ++ record.state.toList ++
    record.nonce.toList ++ record.codeChallenge.toList ++ record.codeChallengeMethod.toList ++
    [record.browserBindingHash, record.csrfHash]

/-- What `OidcAuthorizationTransactionStore.create` takes. -/
def OidcAuthorizationTransaction.Valid (record : OidcAuthorizationTransaction) : Prop :=
  record.clientId ≠ [] ∧ record.redirectUri ≠ [] ∧ ValidScopes record.scopes ∧
    record.state ≠ some [] ∧ record.nonce ≠ some [] ∧
    ValidPkce record.codeChallenge record.codeChallengeMethod ∧ record.browserBindingHash ≠ [] ∧
    record.csrfHash ≠ [] ∧ 0 < record.expiresAtEpochMs

lemma transactionRecord_serialize {record : OidcAuthorizationTransaction} {raw : List UInt8}
    (hs : ∀ s ∈ record.strings, Unpaired s)
    (h : serialize (transactionMembers record) = .ok raw) {parsed : OidcAuthorizationTransaction} :
    transactionRecord raw = some parsed ↔ parsed = record ∧ record.Valid := by
  obtain ⟨d, hrecord, hitems⟩ := recordOf_serialize transactionKeys "oidc-transaction" (by
    simpa [OidcAuthorizationTransaction.strings, unpaired_iff, or_imp, forall_and,
      unpaired_ofString] using hs) rfl (by decide) List.mem_cons_self h
  simp only [List.forall_mem_cons] at hitems
  obtain ⟨-, hclient, hredirect, hscopes, hstate, hnonce, hchallenge, hmethod, hbinding, hcsrf,
    hexpires, -⟩ := hitems
  simp only [transactionRecord, ↓Option.bind_eq_bind, ↓bind_of_eq hrecord, ↓bind_of_eq hclient,
    ↓bind_of_eq hredirect, ↓bind_of_eq hscopes, ↓bind_of_eq hstate, ↓bind_of_eq hnonce,
    ↓bind_of_eq hchallenge, ↓bind_of_eq hmethod, ↓bind_of_eq hbinding, ↓bind_of_eq hcsrf,
    ↓bind_of_eq hexpires]
  simp only [bind_iff nonemptyString_str, bind_iff nullableNonemptyString_nullable,
    bind_iff scopesOf_strs, bind_iff pkceOf_nullable, bind_iff positiveInteger_int,
    Option.pure_def]
  constructor
  · rintro ⟨hc, hr, hsc, hst, hn, hp, hb, hcs, he, heq⟩
    exact ⟨(Option.some.inj heq).symm, hc, hr, hsc, hst, hn, hp, hb, hcs, he⟩
  · rintro ⟨rfl, hc, hr, hsc, hst, hn, hp, hb, hcs, he⟩
    exact ⟨hc, hr, hsc, hst, hn, hp, hb, hcs, he, rfl⟩

def OidcProviderState.strings (record : OidcProviderState) : List PyStr :=
  [record.provider, record.transactionId, record.browserBindingHash]

/-- What `OidcProviderStateStore.create` takes. -/
def OidcProviderState.Valid (record : OidcProviderState) : Prop :=
  record.provider ∈ providers.map ofString ∧ isOpaqueValue record.transactionId = true ∧
    record.browserBindingHash ≠ [] ∧ 0 < record.expiresAtEpochMs

lemma providerStateRecord_serialize {record : OidcProviderState} {raw : List UInt8}
    (hs : ∀ s ∈ record.strings, Unpaired s)
    (h : serialize (providerStateMembers record) = .ok raw) {parsed : OidcProviderState} :
    providerStateRecord raw = some parsed ↔ parsed = record ∧ record.Valid := by
  obtain ⟨d, hrecord, hitems⟩ := recordOf_serialize providerStateKeys "oidc-provider-state"
    (by simpa [OidcProviderState.strings, unpaired_iff, unpaired_ofString] using hs) rfl
    (by decide) List.mem_cons_self h
  simp only [List.forall_mem_cons] at hitems
  obtain ⟨-, hprovider, htransaction, hbinding, hexpires, -⟩ := hitems
  simp only [providerStateRecord, ↓Option.bind_eq_bind, ↓bind_of_eq hrecord, ↓bind_of_eq hprovider,
    ↓bind_of_eq htransaction, ↓bind_of_eq hbinding, ↓bind_of_eq hexpires]
  simp only [bind_iff nonemptyString_str, bind_iff wordOf_str, bind_iff positiveInteger_int,
    Option.ite_none_left_eq_some, Option.pure_def, not_not]
  have hne : isOpaqueValue record.transactionId = true → record.transactionId ≠ [] := by
    intro hopaque hnil
    simp [isOpaqueValue, hnil] at hopaque
  constructor
  · rintro ⟨-, hb, he, hp, ho, heq⟩
    exact ⟨(Option.some.inj heq).symm, hp, ho, hb, he⟩
  · rintro ⟨rfl, hp, ho, hb, he⟩
    exact ⟨hne ho, hb, he, hp, ho, rfl⟩

def StoredOidcAuthorizationCode.strings (record : StoredOidcAuthorizationCode) : List PyStr :=
  [record.clientId, record.redirectUri, record.userId] ++ record.scopes ++ record.nonce.toList ++
    record.codeChallenge.toList ++ record.codeChallengeMethod.toList

/-- What `OidcAuthorizationCodeStore.create` takes. -/
def StoredOidcAuthorizationCode.Valid (record : StoredOidcAuthorizationCode) : Prop :=
  record.clientId ≠ [] ∧ record.redirectUri ≠ [] ∧ record.userId ≠ [] ∧
    ValidScopes record.scopes ∧ record.nonce ≠ some [] ∧
    ValidPkce record.codeChallenge record.codeChallengeMethod ∧ 0 < record.expiresAtEpochMs

lemma codeRecord_serialize {record : StoredOidcAuthorizationCode} {raw : List UInt8}
    (hs : ∀ s ∈ record.strings, Unpaired s)
    (h : serialize (codeMembers record) = .ok raw) {parsed : StoredOidcAuthorizationCode} :
    codeRecord raw = some parsed ↔ parsed = record ∧ record.Valid := by
  obtain ⟨d, hrecord, hitems⟩ := recordOf_serialize codeKeys "oidc-code" (by
    simpa [StoredOidcAuthorizationCode.strings, unpaired_iff, or_imp, forall_and,
      unpaired_ofString] using hs) rfl (by decide) List.mem_cons_self h
  simp only [List.forall_mem_cons] at hitems
  obtain ⟨-, hclient, hredirect, huser, hscopes, hnonce, hchallenge, hmethod, hexpires, -⟩ := hitems
  simp only [codeRecord, ↓Option.bind_eq_bind, ↓bind_of_eq hrecord, ↓bind_of_eq hclient,
    ↓bind_of_eq hredirect, ↓bind_of_eq huser, ↓bind_of_eq hscopes, ↓bind_of_eq hnonce,
    ↓bind_of_eq hchallenge, ↓bind_of_eq hmethod, ↓bind_of_eq hexpires]
  simp only [bind_iff nonemptyString_str, bind_iff nullableNonemptyString_nullable,
    bind_iff scopesOf_strs, bind_iff pkceOf_nullable, bind_iff positiveInteger_int,
    Option.pure_def]
  constructor
  · rintro ⟨hc, hr, hu, hsc, hn, hp, he, heq⟩
    exact ⟨(Option.some.inj heq).symm, hc, hr, hu, hsc, hn, hp, he⟩
  · rintro ⟨rfl, hc, hr, hu, hsc, hn, hp, he⟩
    exact ⟨hc, hr, hu, hsc, hn, hp, he, rfl⟩

def StoredOidcAccessToken.strings (record : StoredOidcAccessToken) : List PyStr :=
  [record.clientId, record.userId] ++ record.scopes

/-- What `OidcAccessTokenStore.create` takes. -/
def StoredOidcAccessToken.Valid (record : StoredOidcAccessToken) : Prop :=
  record.clientId ≠ [] ∧ record.userId ≠ [] ∧ ValidScopes record.scopes ∧
    0 < record.expiresAtEpochMs

lemma accessTokenRecord_serialize {record : StoredOidcAccessToken} {raw : List UInt8}
    (hs : ∀ s ∈ record.strings, Unpaired s)
    (h : serialize (accessTokenMembers record) = .ok raw) {parsed : StoredOidcAccessToken} :
    accessTokenRecord raw = some parsed ↔ parsed = record ∧ record.Valid := by
  obtain ⟨d, hrecord, hitems⟩ := recordOf_serialize accessTokenKeys "oidc-userinfo"
    (by simpa [StoredOidcAccessToken.strings, unpaired_iff, unpaired_ofString] using hs) rfl
    (by decide) List.mem_cons_self h
  simp only [List.forall_mem_cons] at hitems
  obtain ⟨-, hclient, huser, hscopes, hexpires, -⟩ := hitems
  simp only [accessTokenRecord, ↓Option.bind_eq_bind, ↓bind_of_eq hrecord, ↓bind_of_eq hclient,
    ↓bind_of_eq huser, ↓bind_of_eq hscopes, ↓bind_of_eq hexpires]
  simp only [bind_iff nonemptyString_str, bind_iff scopesOf_strs, bind_iff positiveInteger_int,
    Option.pure_def]
  constructor
  · rintro ⟨hc, hu, hsc, he, heq⟩
    exact ⟨(Option.some.inj heq).symm, hc, hu, hsc, he⟩
  · rintro ⟨rfl, hc, hu, hsc, he⟩
    exact ⟨hc, hu, hsc, he, rfl⟩

/-! ## The formats are apart -/

inductive RecordFormat
  | oauthState
  | handoff
  | transaction
  | providerState
  | code
  | accessToken
  deriving DecidableEq

namespace RecordFormat

def all : List RecordFormat :=
  [oauthState, handoff, transaction, providerState, code, accessToken]

lemma mem_all (f : RecordFormat) : f ∈ all := by
  cases f <;> decide

/-- Whether the parser of the format gives a record. -/
def accepts (urlsplit : PyStr → Option (Option PyStr)) (raw : List UInt8) : RecordFormat → Bool
  | oauthState => (oauthRecord urlsplit raw).isSome
  | handoff => (handoffRecord urlsplit raw).toOption.any Option.isSome
  | transaction => (transactionRecord raw).isSome
  | providerState => (providerStateRecord raw).isSome
  | code => (codeRecord raw).isSome
  | accessToken => (accessTokenRecord raw).isSome

/-- The sets of names that the parser of the format takes. -/
def keySets : RecordFormat → List (List String)
  | oauthState => [oauthKeys]
  | handoff => [handoffKeys, "provider" :: handoffKeys]
  | transaction => [transactionKeys]
  | providerState => [providerStateKeys]
  | code => [codeKeys]
  | accessToken => [accessTokenKeys]

lemma keySets_apart : ∀ f ∈ all, ∀ g ∈ all, ∀ keys ∈ f.keySets, ∀ keys' ∈ g.keySets,
    keys ⊆ keys' → keys' ⊆ keys → f = g := by decide +kernel

end RecordFormat

lemma keys_of_recordOf {keys : List String} {purpose : String} {raw : List UInt8}
    {record : Dict PyStr} (h : recordOf keys purpose raw = some record) :
    parseJsonObject raw = some record ∧ keysAre (keys.map ofString) record = true := by
  obtain ⟨d, hparse, h⟩ := Option.bind_eq_some_iff.mp h
  obtain ⟨hkeys, h⟩ := Option.ite_none_left_eq_some.mp h
  obtain ⟨purposeItem, -, hpurpose⟩ := Option.bind_eq_some_iff.mp h
  obtain ⟨-, hd⟩ := Option.ite_none_left_eq_some.mp hpurpose
  obtain rfl := Option.some.inj hd
  exact ⟨hparse, not_not.mp hkeys⟩

/-- A parser of an OIDC record that gives one has read an object with its keys. -/
lemma keys_of_isSome {α : Type} {keys : List String} {purpose : String} {raw : List UInt8}
    {f : Dict PyStr → Option α} (h : ((recordOf keys purpose raw).bind f).isSome = true) :
    ∃ record, parseJsonObject raw = some record ∧ keysAre (keys.map ofString) record = true := by
  obtain ⟨record, hrecord⟩ := Option.isSome_iff_exists.mp h
  obtain ⟨d, hd, -⟩ := Option.bind_eq_some_iff.mp hrecord
  exact ⟨d, keys_of_recordOf hd⟩

lemma keys_of_accepts {raw : List UInt8} {f : RecordFormat} (h : f.accepts urlsplit raw = true) :
    ∃ keys ∈ f.keySets, ∃ record, parseJsonObject raw = some record ∧
      keysAre (keys.map ofString) record = true := by
  cases f with
  | oauthState =>
    obtain ⟨parsed, h⟩ := Option.isSome_iff_exists.mp h
    obtain ⟨record, hparse, h⟩ := Option.bind_eq_some_iff.mp h
    obtain ⟨hkeys, -⟩ := Option.ite_none_left_eq_some.mp h
    exact ⟨_, List.mem_singleton_self _, record, hparse, not_not.mp hkeys⟩
  | handoff =>
    simp only [RecordFormat.accepts, handoffRecord] at h
    cases hparse : parseJsonObject raw with
    | none => simp [hparse, Except.toOption] at h
    | some record =>
      rw [hparse] at h
      by_cases hkeys : (keysAre (handoffKeys.map ofString) record ||
          keysAre (("provider" :: handoffKeys).map ofString) record) = true
      · obtain hkeys | hkeys := Bool.or_eq_true_iff.mp hkeys
        · exact ⟨_, List.mem_cons_self, record, rfl, hkeys⟩
        · exact ⟨_, List.mem_cons_of_mem _ List.mem_cons_self, record, rfl, hkeys⟩
      · dsimp only at h
        rw [if_neg hkeys] at h
        cases h
  | transaction => exact ⟨_, List.mem_singleton_self _, keys_of_isSome h⟩
  | providerState => exact ⟨_, List.mem_singleton_self _, keys_of_isSome h⟩
  | code => exact ⟨_, List.mem_singleton_self _, keys_of_isSome h⟩
  | accessToken => exact ⟨_, List.mem_singleton_self _, keys_of_isSome h⟩

lemma format_unique {raw : List UInt8} {f g : RecordFormat} (hf : f.accepts urlsplit raw = true)
    (hg : g.accepts urlsplit raw = true) : f = g := by
  obtain ⟨keys, hkeys, record, hrecord, hare⟩ := keys_of_accepts hf
  obtain ⟨keys', hkeys', record', hrecord', hare'⟩ := keys_of_accepts hg
  obtain rfl := Option.some.inj (hrecord.symm.trans hrecord')
  have hsame : ∀ name, name ∈ keys ↔ name ∈ keys' := by
    have hname : ∀ (names : List String) (name : String),
        ofString name ∈ names.map ofString ↔ name ∈ names := fun names name => by
      simp [ofString_inj]
    intro name
    rw [← hname keys, ← mem_keys_iff hare, mem_keys_iff hare', hname]
  exact RecordFormat.keySets_apart f f.mem_all g g.mem_all keys hkeys keys' hkeys'
    (fun name => (hsame name).mp) (fun name => (hsame name).mpr)

/-! ## What is stored is read back -/

lemma unpaired_digest {value digest : PyStr} (h : oidcSecretDigest sha256 value = .ok digest) :
    Unpaired digest := by
  unfold oidcSecretDigest at h
  split at h
  · cases h
  · obtain rfl := Except.ok.inj h
    exact unpaired_ofString _

/-- What is stored has been read back as some record. -/
lemma exists_of_checked {α : Type} {parse : List UInt8 → Option α} {message : String}
    {record : List (PyStr × Field)} {raw : List UInt8}
    (h : checked parse message record = .ok raw) :
    serialize record = .ok raw ∧ ∃ parsed, parse raw = some parsed := by
  obtain ⟨bytes, hbytes⟩ := serialize_ok record
  have hchecked : checked parse message record =
      if (parse bytes).isNone then .error (.value message) else .ok bytes := by
    rw [checked, hbytes]
    rfl
  rw [hchecked] at h
  split at h
  · cases h
  · rename_i hsome
    obtain rfl := Except.ok.inj h
    rw [Option.isNone_iff_eq_none] at hsome
    exact ⟨hbytes, Option.ne_none_iff_exists'.mp hsome⟩

lemma checked_ok {α : Type} {parse : List UInt8 → Option α} {message : String}
    {record : List (PyStr × Field)} {raw : List UInt8} (h : serialize record = .ok raw)
    (hparse : (parse raw).isSome = true) : checked parse message record = .ok raw := by
  have hchecked : checked parse message record =
      if (parse raw).isNone then .error (.value message) else .ok raw := by
    rw [checked, h]
    rfl
  rw [hchecked, if_neg]
  rw [Option.isNone_eq_false_iff.mpr hparse]
  decide

lemma oauthRecord_of_stored {provider : PyStr} {metadata : OAuthStateMetadata} {raw : List UInt8}
    (hs : ∀ s ∈ provider :: metadata.strings, Unpaired s)
    (h : OAuthStateStore.stored urlsplit provider metadata = .ok raw) :
    oauthRecord urlsplit raw = some (provider, metadata) := by
  obtain ⟨bytes, hbytes⟩ := serialize_ok (oauthMembers provider metadata)
  rw [OAuthStateStore.stored, hbytes] at h
  cases hparsed : oauthRecord urlsplit bytes with
  | none => simp [hparsed, bind, Except.bind] at h
  | some parsed =>
    obtain ⟨rfl, -⟩ := (oauthRecord_serialize hs hbytes).mp hparsed
    simp only [hparsed, bind, Except.bind, hbytes] at h
    exact Except.ok.inj h ▸ hparsed

lemma handoffRecord_of_stored {metadata : AuthHandoffCreateInput} {nowEpochMs : ℤ}
    {raw : List UInt8} (hs : ∀ s ∈ (metadata.at nowEpochMs).strings, Unpaired s)
    (h : AuthHandoffStore.stored urlsplit metadata nowEpochMs = .ok raw) :
    handoffRecord urlsplit raw = .ok (some (metadata.at nowEpochMs)) := by
  obtain ⟨bytes, hbytes⟩ := serialize_ok (handoffMembers (metadata.at nowEpochMs))
  rw [AuthHandoffStore.stored, hbytes] at h
  cases hparsed : handoffRecord urlsplit bytes with
  | error e => simp [hparsed, bind, Except.bind] at h
  | ok parsed =>
    cases parsed with
    | none => simp [hparsed, bind, Except.bind] at h
    | some parsed =>
      obtain ⟨rfl, -⟩ := (handoffRecord_serialize hs hbytes).mp hparsed
      simp only [hparsed, bind, Except.bind] at h
      exact Except.ok.inj h ▸ hparsed

def OidcAuthorizationTransactionCreateInput.strings
    (input : OidcAuthorizationTransactionCreateInput) : List PyStr :=
  [input.clientId, input.redirectUri] ++ input.scopes ++ input.state.toList ++
    input.nonce.toList ++ input.codeChallenge.toList ++ input.codeChallengeMethod.toList

lemma transactionRecord_of_stored {input : OidcAuthorizationTransactionCreateInput}
    {nowEpochMs : ℤ} {raw : List UInt8} (hs : ∀ s ∈ input.strings, Unpaired s)
    (h : OidcAuthorizationTransactionStore.stored sha256 input nowEpochMs = .ok raw) :
    ∃ record, input.at sha256 nowEpochMs = .ok record ∧ transactionRecord raw = some record := by
  cases hbinding : oidcSecretDigest sha256 input.browserBinding with
  | error e =>
    simp [OidcAuthorizationTransactionStore.stored, OidcAuthorizationTransactionCreateInput.at,
      hbinding, bind, Except.bind] at h
  | ok binding =>
    cases hcsrf : oidcSecretDigest sha256 input.csrfToken with
    | error e =>
      simp [OidcAuthorizationTransactionStore.stored, OidcAuthorizationTransactionCreateInput.at,
        hbinding, hcsrf, bind, Except.bind] at h
    | ok csrf =>
      let record : OidcAuthorizationTransaction := ⟨input.clientId, input.redirectUri, input.scopes,
        input.state, input.nonce, input.codeChallenge, input.codeChallengeMethod, binding, csrf,
        nowEpochMs + oidcTransactionTtlSeconds * 1000⟩
      have hat : input.at sha256 nowEpochMs = .ok record := by
        rw [OidcAuthorizationTransactionCreateInput.at, hbinding, hcsrf]
        rfl
      have hstrings : ∀ s ∈ record.strings, Unpaired s := by
        intro s hmem
        obtain hmem | hmem := List.mem_append.mp hmem
        · exact hs s hmem
        · simp only [List.mem_cons, List.not_mem_nil, or_false] at hmem
          obtain rfl | rfl := hmem
          · exact unpaired_digest hbinding
          · exact unpaired_digest hcsrf
      rw [OidcAuthorizationTransactionStore.stored, hat] at h
      obtain ⟨hbytes, parsed, hparsed⟩ := exists_of_checked h
      obtain ⟨rfl, -⟩ := (transactionRecord_serialize hstrings hbytes).mp hparsed
      exact ⟨record, hat, hparsed⟩

lemma providerStateRecord_of_stored {input : OidcProviderStateCreateInput} {nowEpochMs : ℤ}
    {raw : List UInt8} (hs : ∀ s ∈ [input.provider, input.transactionId], Unpaired s)
    (h : OidcProviderStateStore.stored sha256 input nowEpochMs = .ok raw) :
    ∃ record, input.at sha256 nowEpochMs = .ok record ∧ providerStateRecord raw = some record := by
  unfold OidcProviderStateStore.stored at h
  split at h
  · cases h
  cases hbinding : oidcSecretDigest sha256 input.browserBinding with
  | error e => simp [OidcProviderStateCreateInput.at, hbinding, bind, Except.bind] at h
  | ok binding =>
    let record : OidcProviderState := ⟨input.provider, input.transactionId, binding,
      nowEpochMs + oidcProviderStateTtlSeconds * 1000⟩
    have hat : input.at sha256 nowEpochMs = .ok record := by
      rw [OidcProviderStateCreateInput.at, hbinding]
      rfl
    have hstrings : ∀ s ∈ record.strings, Unpaired s := by
      intro s hmem
      obtain hmem | hmem := List.mem_append.mp
        (show s ∈ [input.provider, input.transactionId] ++ [binding] from hmem)
      · exact hs s hmem
      · obtain rfl := List.mem_singleton.mp hmem
        exact unpaired_digest hbinding
    rw [hat] at h
    obtain ⟨hbytes, parsed, hparsed⟩ := exists_of_checked h
    obtain ⟨rfl, -⟩ := (providerStateRecord_serialize hstrings hbytes).mp hparsed
    exact ⟨record, hat, hparsed⟩

lemma codeRecord_of_stored {input : OidcAuthorizationCodeCreateInput} {nowEpochMs : ℤ}
    {raw : List UInt8} (hs : ∀ s ∈ (input.at nowEpochMs).strings, Unpaired s)
    (h : OidcAuthorizationCodeStore.stored input nowEpochMs = .ok raw) :
    codeRecord raw = some (input.at nowEpochMs) := by
  obtain ⟨hbytes, parsed, hparsed⟩ := exists_of_checked h
  obtain ⟨rfl, -⟩ := (codeRecord_serialize hs hbytes).mp hparsed
  exact hparsed

lemma accessTokenRecord_of_stored {input : OidcAccessTokenCreateInput} {nowEpochMs : ℤ}
    {raw : List UInt8} (hs : ∀ s ∈ (input.at nowEpochMs).strings, Unpaired s)
    (h : OidcAccessTokenStore.stored input nowEpochMs = .ok raw) :
    accessTokenRecord raw = some (input.at nowEpochMs) := by
  obtain ⟨hbytes, parsed, hparsed⟩ := exists_of_checked h
  obtain ⟨rfl, -⟩ := (accessTokenRecord_serialize hs hbytes).mp hparsed
  exact hparsed

/-- What a create method stores is read back as the fields it was given and the expiry, by the
parser of its format and by no other. -/
theorem storedRecords_decode (urlsplit : PyStr → Option (Option PyStr))
    (sha256 : List UInt8 → String) :
    (∀ provider metadata raw, (∀ s ∈ provider :: metadata.strings, Unpaired s) →
      OAuthStateStore.stored urlsplit provider metadata = .ok raw →
      oauthRecord urlsplit raw = some (provider, metadata)) ∧
    (∀ metadata nowEpochMs raw, (∀ s ∈ (metadata.at nowEpochMs).strings, Unpaired s) →
      AuthHandoffStore.stored urlsplit metadata nowEpochMs = .ok raw →
      handoffRecord urlsplit raw = .ok (some (metadata.at nowEpochMs))) ∧
    (∀ input nowEpochMs raw, (∀ s ∈ input.strings, Unpaired s) →
      OidcAuthorizationTransactionStore.stored sha256 input nowEpochMs = .ok raw →
      ∃ record, input.at sha256 nowEpochMs = .ok record ∧ transactionRecord raw = some record) ∧
    (∀ input nowEpochMs raw, (∀ s ∈ [input.provider, input.transactionId], Unpaired s) →
      OidcProviderStateStore.stored sha256 input nowEpochMs = .ok raw →
      ∃ record, input.at sha256 nowEpochMs = .ok record ∧
        providerStateRecord raw = some record) ∧
    (∀ input nowEpochMs raw, (∀ s ∈ (input.at nowEpochMs).strings, Unpaired s) →
      OidcAuthorizationCodeStore.stored input nowEpochMs = .ok raw →
      codeRecord raw = some (input.at nowEpochMs)) ∧
    (∀ input nowEpochMs raw, (∀ s ∈ (input.at nowEpochMs).strings, Unpaired s) →
      OidcAccessTokenStore.stored input nowEpochMs = .ok raw →
      accessTokenRecord raw = some (input.at nowEpochMs)) ∧
    ∀ raw f g, RecordFormat.accepts urlsplit raw f = true →
      RecordFormat.accepts urlsplit raw g = true → f = g :=
  ⟨fun _ _ _ => oauthRecord_of_stored, fun _ _ _ => handoffRecord_of_stored,
    fun _ _ _ => transactionRecord_of_stored, fun _ _ _ => providerStateRecord_of_stored,
    fun _ _ _ => codeRecord_of_stored, fun _ _ _ => accessTokenRecord_of_stored,
    fun _ _ _ => format_unique⟩

def aliceToken : OidcAccessTokenCreateInput :=
  ⟨ofString "temis", ofString "alice", [ofString "openid", ofString "email"]⟩

theorem aliceToken_decodes :
    ∃ raw, OidcAccessTokenStore.stored aliceToken 0 = .ok raw ∧
      accessTokenRecord raw = some (aliceToken.at 0) := by
  have hs : ∀ s ∈ (aliceToken.at 0).strings, Unpaired s := by
    have hstrings : (aliceToken.at 0).strings =
        ["temis", "alice", "openid", "email"].map ofString := rfl
    rw [hstrings]
    exact fun s hs => (List.mem_map.mp hs).elim fun t ht => ht.2 ▸ unpaired_ofString t
  have hvalid : (aliceToken.at 0).Valid := by
    refine ⟨?_, ?_, ⟨?_, ?_, ?_, ?_⟩, ?_⟩ <;> decide
  obtain ⟨raw, hraw⟩ := serialize_ok (accessTokenMembers (aliceToken.at 0))
  have hread : accessTokenRecord raw = some (aliceToken.at 0) :=
    (accessTokenRecord_serialize hs hraw).mpr ⟨rfl, hvalid⟩
  have hstored : OidcAccessTokenStore.stored aliceToken 0 = .ok raw :=
    checked_ok hraw (by rw [hread]; rfl)
  exact ⟨raw, hstored, (storedRecords_decode (fun _ => none) fun _ => "").2.2.2.2.2.1
    aliceToken 0 raw hs hstored⟩

end WiseacctSso.RecordFormats
