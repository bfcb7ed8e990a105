import WiseacctSso.JsonMembers
import WiseacctSso.ListRelations
import WiseacctSso.NodeStrings

/-!
# Evidence of the migration comparison

Every record is written with its members in order and with digests in place of the bearer
material it carries. A digest hides a string directly under a sensitive key; an array under such
a key is copied as it is.
-/
namespace WiseacctSso.EvidenceRecords
open Json NodeStrings ListRelations

def hexDigits : PyStr := ofString "0123456789abcdef"

/-- What of Python the records rest on. -/
structure Library where
  lower : PyStr → PyStr
  lower_nil : lower [] = []
  isAlnum : CodePoint → Bool
  sha256 : List UInt8 → PyStr
  length_sha256 : ∀ bytes, (sha256 bytes).length = 64
  sha256_hex : ∀ bytes, ∀ c ∈ sha256 bytes, c ∈ hexDigits

def sensitiveKeys : List PyStr :=
  ["authorizationcode", "authorization", "clientsecret", "code", "codeverifier", "cookie",
    "idtoken", "oauthcode", "oauthstate", "password", "privatekey", "secret", "setcookie", "state",
    "token", "accesstoken", "refreshtoken", "verifier"].map ofString

def sensitiveMarkers : List PyStr := ["password", "secret", "privatekey"].map ofString

variable (lib : Library)

def Library.normalizedKey (key : PyStr) : PyStr := (lib.lower key).filter lib.isAlnum

def Library.isSensitive (key : PyStr) : Bool :=
  lib.normalizedKey key ∈ sensitiveKeys ||
    sensitiveMarkers.any fun marker => marker <:+: lib.normalizedKey key

def digestStart : PyStr := ofString "<sha256:"

def digestEnd : CodePoint := codePoint 62

def isDigest (value : PyStr) : Bool :=
  let digest := (value.drop digestStart.length).dropLast
  digestStart.isPrefixOf value && value.getLast? = some digestEnd &&
    (digest.length = 64 && digest.all fun c => c ∈ hexDigits)

/-- None is a `UnicodeEncodeError`. -/
def evidenceText (value : PyStr) : Option PyStr :=
  if isDigest value then some value
  else (encode value).map fun bytes => digestStart ++ lib.sha256 bytes ++ [digestEnd]

mutual

/-- `_evidence_value`. The members are sorted after their values have been replaced. -/
def evidenceValue (key : PyStr) : Value PyStr → Option (Value PyStr)
  | .str s => if lib.isSensitive key then (evidenceText lib s).map .str else some (.str s)
  | .dict entries => (evidenceMembers entries).map fun members => .dict (sortByKey members)
  | .list items => (evidenceItems items).map .list
  | v => some v

def evidenceItems : List (Value PyStr) → Option (List (Value PyStr))
  | [] => some []
  | v :: rest => (evidenceValue [] v).bind fun w => (evidenceItems rest).map (w :: ·)

def evidenceMembers : Dict PyStr → Option (Dict PyStr)
  | [] => some []
  | (key, v) :: rest =>
    (evidenceValue key v).bind fun w => (evidenceMembers rest).map ((key, w) :: ·)

end

def canonicalRecord (record : Dict PyStr) : Option (Dict PyStr) :=
  (evidenceMembers lib record).map sortByKey

/-! ## What a record should show -/

mutual

/-- The values are the same, the order of members apart, but for the strings that are the value
of a sensitive key or stand in arrays that are. These are related by `R`. -/
inductive Alike (R : PyStr → PyStr → Prop) : Bool → Value PyStr → Value PyStr → Prop
  | null (b : Bool) : Alike R b .null .null
  | bool (b x : Bool) : Alike R b (.bool x) (.bool x)
  | int (b : Bool) (z : ℤ) : Alike R b (.int z) (.int z)
  | float (b : Bool) (f : PyFloat) : Alike R b (.float f) (.float f)
  | text (s : PyStr) : Alike R false (.str s) (.str s)
  | secret {s t : PyStr} (h : R s t) : Alike R true (.str s) (.str t)
  | list {b : Bool} {xs ys : List (Value PyStr)} (length : xs.length = ys.length)
      (h : ∀ i hi hi', Alike R b (xs.get ⟨i, hi⟩) (ys.get ⟨i, hi'⟩)) :
      Alike R b (.list xs) (.list ys)
  | dict {b : Bool} {es fs : Dict PyStr}
      (h : List.Forall₂ (AlikeMember R) (sortByKey es) (sortByKey fs)) :
      Alike R b (.dict es) (.dict fs)

inductive AlikeMember (R : PyStr → PyStr → Prop) : PyStr × Value PyStr → PyStr × Value PyStr → Prop
  | mk (key : PyStr) {v w : Value PyStr} (h : Alike R (lib.isSensitive key) v w) :
      AlikeMember R (key, v) (key, w)

end

variable {lib} {R S : PyStr → PyStr → Prop} {b : Bool}

lemma alike_list_iff {xs ys : List (Value PyStr)} :
    Alike lib R b (.list xs) (.list ys) ↔ List.Forall₂ (Alike lib R b) xs ys := by
  rw [List.forall₂_iff_get]
  constructor
  · rintro (_ | _ | _ | _ | _ | _ | ⟨length, h⟩)
    exact ⟨length, h⟩
  · rintro ⟨length, h⟩
    exact .list length h

lemma alike_dict_iff {es fs : Dict PyStr} :
    Alike lib R b (.dict es) (.dict fs) ↔
      List.Forall₂ (AlikeMember lib R) (sortByKey es) (sortByKey fs) := by
  constructor
  · rintro (_ | _ | _ | _ | _ | _ | _ | h)
    exact h
  · exact .dict

lemma alikeMember_iff {e f : PyStr × Value PyStr} :
    AlikeMember lib R e f ↔ e.1 = f.1 ∧ Alike lib R (lib.isSensitive e.1) e.2 f.2 := by
  constructor
  · rintro ⟨key, h⟩
    exact ⟨rfl, h⟩
  · obtain ⟨key, v⟩ := e
    obtain ⟨key', w⟩ := f
    rintro ⟨rfl, h⟩
    exact .mk key h

/-- How a value is seen: under no sensitive key, as the value of one, or in an array that is. -/
inductive Position
  | plain
  | value
  | element
  deriving DecidableEq

def Position.inside : Position → Position
  | .plain => .plain
  | _ => .element

def Position.isSecret : Position → Bool
  | .plain => false
  | _ => true

variable (lib)

def Library.position (key : PyStr) : Position := if lib.isSensitive key then .value else .plain

/-- The strings of a value that must be hidden are digests already, or can be. -/
def Hideable (p : Position) : Value PyStr → Prop
  | .str s =>
    match p with
    | .plain => True
    | .value => isDigest s = true ∨ (encode s).isSome
    | .element => isDigest s = true
  | .list items => ∀ v ∈ items, Hideable p.inside v
  | .dict entries => ∀ e ∈ entries, Hideable (lib.position e.1) e.2
  | _ => True
termination_by v => v
decreasing_by
  · exact Value.sizeOf_item ‹_›
  · exact Value.sizeOf_member ‹_›

/-! ## Digests -/

/-- `<sha256:` with 64 hexadecimal digits and `>`. -/
def HasDigestForm (value : PyStr) : Prop :=
  ∃ digest : PyStr, digest.length = 64 ∧ (∀ c ∈ digest, c ∈ hexDigits) ∧
    value = digestStart ++ digest ++ [digestEnd]

lemma isDigest_iff {value : PyStr} : isDigest value = true ↔ HasDigestForm value := by
  unfold isDigest HasDigestForm
  constructor
  · intro h
    simp only [Bool.and_eq_true, decide_eq_true_eq, List.all_eq_true] at h
    obtain ⟨⟨hstart, hend⟩, hlength, hhex⟩ := h
    obtain ⟨rest, rfl⟩ := List.isPrefixOf_iff_prefix.mp hstart
    rw [List.drop_left] at hlength hhex
    have hne : rest ≠ [] := by
      rintro rfl
      simp at hlength
    rw [List.getLast?_append_of_ne_nil _ hne] at hend
    refine ⟨rest.dropLast, hlength, hhex, ?_⟩
    rw [List.append_assoc, List.dropLast_append_getLast? _ hend]
  · rintro ⟨digest, hlength, hhex, rfl⟩
    have hstart : digestStart.isPrefixOf (digestStart ++ digest ++ [digestEnd]) = true := by
      rw [List.append_assoc]
      exact List.isPrefixOf_iff_prefix.mpr (List.prefix_append _ _)
    have hdigest : ((digestStart ++ digest ++ [digestEnd]).drop digestStart.length).dropLast =
        digest := by
      rw [List.append_assoc, List.drop_left, List.dropLast_concat]
    rw [hdigest, hstart, List.getLast?_concat]
    simpa [hlength] using hhex

lemma evidenceText_of_digest {s : PyStr} (h : HasDigestForm s) : evidenceText lib s = some s :=
  if_pos (isDigest_iff.mpr h)

lemma hasDigestForm_evidenceText {s t : PyStr} (h : evidenceText lib s = some t) :
    HasDigestForm t := by
  unfold evidenceText at h
  split_ifs at h with hdigest
  · obtain rfl := Option.some.inj h
    exact isDigest_iff.mp hdigest
  · obtain ⟨bytes, -, rfl⟩ := Option.map_eq_some_iff.mp h
    exact ⟨_, lib.length_sha256 bytes, lib.sha256_hex bytes, rfl⟩

lemma isSome_evidenceText (s : PyStr) :
    (evidenceText lib s).isSome = true ↔ isDigest s = true ∨ (encode s).isSome = true := by
  unfold evidenceText
  split_ifs with hdigest <;> simp [hdigest]

/-! ## Lists of values -/

lemma isSensitive_nil : lib.isSensitive [] = false := by
  rw [Library.isSensitive, Library.normalizedKey, lib.lower_nil, List.filter_nil]
  decide

lemma evidenceItems_eq_some_iff {xs ys : List (Value PyStr)} :
    evidenceItems lib xs = some ys ↔
      List.Forall₂ (fun v w => evidenceValue lib [] v = some w) xs ys := by
  induction xs generalizing ys with
  | nil => simp [evidenceItems, eq_comm]
  | cons v rest ih =>
    rw [evidenceItems, Option.bind_eq_some_iff, List.forall₂_cons_left_iff]
    constructor
    · rintro ⟨w, hw, h⟩
      obtain ⟨ws, hws, rfl⟩ := Option.map_eq_some_iff.mp h
      exact ⟨w, ws, hw, ih.mp hws, rfl⟩
    · rintro ⟨w, ws, hw, hws, rfl⟩
      exact ⟨w, hw, by rw [ih.mpr hws]; rfl⟩

/-- What `evidenceMembers` makes of a member. -/
def Replaced (e f : PyStr × Value PyStr) : Prop :=
  e.1 = f.1 ∧ evidenceValue lib e.1 e.2 = some f.2

lemma evidenceMembers_eq_some_iff {es fs : Dict PyStr} :
    evidenceMembers lib es = some fs ↔ List.Forall₂ (Replaced lib) es fs := by
  induction es generalizing fs with
  | nil => simp [evidenceMembers, eq_comm]
  | cons e rest ih =>
    obtain ⟨key, v⟩ := e
    rw [evidenceMembers, Option.bind_eq_some_iff, List.forall₂_cons_left_iff]
    constructor
    · rintro ⟨w, hw, h⟩
      obtain ⟨ws, hws, rfl⟩ := Option.map_eq_some_iff.mp h
      exact ⟨(key, w), ws, ⟨rfl, hw⟩, ih.mp hws, rfl⟩
    · rintro ⟨⟨_, w⟩, ws, ⟨rfl, hw⟩, hws, rfl⟩
      exact ⟨w, hw, by rw [ih.mpr hws]; rfl⟩

lemma evidenceValue_list_iff {key : PyStr} {xs : List (Value PyStr)} {w : Value PyStr} :
    evidenceValue lib key (.list xs) = some w ↔
      ∃ ys, List.Forall₂ (fun v w => evidenceValue lib [] v = some w) xs ys ∧ .list ys = w := by
  simp only [evidenceValue, Option.map_eq_some_iff, evidenceItems_eq_some_iff]

lemma evidenceValue_dict_iff {key : PyStr} {es : Dict PyStr} {w : Value PyStr} :
    evidenceValue lib key (.dict es) = some w ↔
      ∃ fs, List.Forall₂ (Replaced lib) es fs ∧ .dict (sortByKey fs) = w := by
  simp only [evidenceValue, Option.map_eq_some_iff, evidenceMembers_eq_some_iff]

/-! ## A second time -/

/-- What has been replaced stays. -/
lemma evidenceValue_again {key : PyStr} {v w : Value PyStr} (h : evidenceValue lib key v = some w) :
    evidenceValue lib key w = some w := by
  induction v using Value.induction generalizing key w with
  | null | bool | int | float =>
    obtain rfl := Option.some.inj h
    exact h
  | str s =>
    rw [evidenceValue] at h
    split_ifs at h with hsensitive
    · obtain ⟨t, ht, rfl⟩ := Option.map_eq_some_iff.mp h
      have hagain := evidenceText_of_digest lib (hasDigestForm_evidenceText lib ht)
      rw [evidenceValue, if_pos hsensitive, hagain, Option.map_some]
    · obtain rfl := Option.some.inj h
      rw [evidenceValue, if_neg hsensitive]
  | list xs ih =>
    obtain ⟨ys, hys, rfl⟩ := (evidenceValue_list_iff lib).mp h
    have hagain := forall_mem_of_forall₂ hys fun x hx y hxy => ih x hx hxy
    exact (evidenceValue_list_iff lib).mpr ⟨ys, List.forall₂_same.mpr hagain, rfl⟩
  | dict es ih =>
    obtain ⟨fs, hfs, rfl⟩ := (evidenceValue_dict_iff lib).mp h
    have hagain : ∀ f ∈ fs, evidenceValue lib f.1 f.2 = some f.2 := by
      refine forall_mem_of_forall₂ hfs ?_
      rintro e he f ⟨hkey, hvalue⟩
      rw [hkey] at hvalue
      exact ih e he hvalue
    have hsorted : ∀ f ∈ sortByKey fs, Replaced lib f f :=
      fun f hf => ⟨rfl, hagain f (mem_sortByKey.mp hf)⟩
    refine (evidenceValue_dict_iff lib).mpr ⟨_, List.forall₂_same.mpr hsorted, ?_⟩
    rw [sortByKey_sortByKey]

/-! ## What is hidden -/

/-- The value is replaced, and by one that differs in digests alone. -/
def IsHidden (key : PyStr) (p : Position) (v : Value PyStr) : Prop :=
  ∃ w, evidenceValue lib key v = some w ∧ Alike lib (fun _ t => HasDigestForm t) p.isSecret v w

lemma isHidden_list_iff {key : PyStr} {p : Position} {xs : List (Value PyStr)} :
    IsHidden lib key p (.list xs) ↔ ∀ x ∈ xs, IsHidden lib [] p.inside x := by
  have hinside : p.inside.isSecret = p.isSecret := by cases p <;> rfl
  unfold IsHidden
  rw [hinside, ← exists_forall₂_iff]
  simp only [evidenceValue_list_iff, forall₂_and_iff]
  constructor
  · rintro ⟨_, ⟨ys, hys, rfl⟩, halike⟩
    exact ⟨ys, hys, alike_list_iff.mp halike⟩
  · rintro ⟨ys, hys, halike⟩
    exact ⟨_, ⟨ys, hys, rfl⟩, alike_list_iff.mpr halike⟩

lemma isSecret_position (key : PyStr) : (lib.position key).isSecret = lib.isSensitive key := by
  unfold Library.position
  cases lib.isSensitive key <;> rfl

lemma isHidden_dict_iff {key : PyStr} {p : Position} {es : Dict PyStr} :
    IsHidden lib key p (.dict es) ↔ ∀ e ∈ es, IsHidden lib e.1 (lib.position e.1) e.2 := by
  have hmember : ∀ e : PyStr × Value PyStr, IsHidden lib e.1 (lib.position e.1) e.2 ↔
      ∃ f, Replaced lib e f ∧ AlikeMember lib (fun _ t => HasDigestForm t) e f := by
    intro e
    unfold IsHidden
    rw [isSecret_position]
    simp only [alikeMember_iff]
    constructor
    · rintro ⟨w, hw, halike⟩
      exact ⟨(e.1, w), ⟨rfl, hw⟩, rfl, halike⟩
    · rintro ⟨f, ⟨-, hw⟩, -, halike⟩
      exact ⟨f.2, hw, halike⟩
  constructor
  · rintro ⟨_, hvalue, halike⟩ e he
    obtain ⟨fs, hfs, rfl⟩ := (evidenceValue_dict_iff lib).mp hvalue
    rw [alike_dict_iff, sortByKey_sortByKey] at halike
    have hsorted := forall₂_sortByKey (fun _ _ h => h.1) hfs
    have hboth := exists_forall₂_iff.mp ⟨_, forall₂_and_iff.mpr ⟨hsorted, halike⟩⟩
    exact (hmember e).mpr (hboth e (mem_sortByKey.mpr he))
  · intro h
    obtain ⟨fs, hfs⟩ := exists_forall₂_iff.mpr fun e he => (hmember e).mp (h e he)
    obtain ⟨hreplaced, halike⟩ := forall₂_and_iff.mp hfs
    refine ⟨_, (evidenceValue_dict_iff lib).mpr ⟨fs, hreplaced, rfl⟩, ?_⟩
    rw [alike_dict_iff, sortByKey_sortByKey]
    exact forall₂_sortByKey (fun _ _ h => (alikeMember_iff.mp h).1) halike

lemma isHidden_str_iff {key : PyStr} {p : Position} {s : PyStr}
    (hp : p = .value ↔ lib.isSensitive key = true) :
    IsHidden lib key p (.str s) ↔ Hideable lib p (.str s) := by
  unfold IsHidden
  rw [evidenceValue]
  cases p with
  | plain =>
    have hkey : ¬ lib.isSensitive key = true := fun h => nomatch hp.mpr h
    rw [if_neg hkey, Hideable]
    exact iff_of_true ⟨_, rfl, .text s⟩ trivial
  | element =>
    have hkey : ¬ lib.isSensitive key = true := fun h => nomatch hp.mpr h
    rw [if_neg hkey, Hideable, isDigest_iff]
    constructor
    · rintro ⟨w, hw, halike⟩
      obtain rfl := Option.some.inj hw
      obtain _ | _ | _ | _ | _ | h := halike
      exact h
    · exact fun h => ⟨_, rfl, .secret h⟩
  | value =>
    rw [if_pos (hp.mp rfl), Hideable, ← isSome_evidenceText lib, Option.isSome_iff_exists]
    constructor
    · rintro ⟨w, h, -⟩
      obtain ⟨t, ht, -⟩ := Option.map_eq_some_iff.mp h
      exact ⟨t, ht⟩
    · rintro ⟨t, ht⟩
      exact ⟨.str t, by rw [ht]; rfl, .secret (hasDigestForm_evidenceText lib ht)⟩

/-- A value is hidden exactly when its strings can be. -/
lemma isHidden_iff {key : PyStr} {p : Position} {v : Value PyStr}
    (hp : p = .value ↔ lib.isSensitive key = true) :
    IsHidden lib key p v ↔ Hideable lib p v := by
  induction v using Value.induction generalizing key p with
  | null =>
    rw [Hideable]
    · exact iff_of_true ⟨_, rfl, .null _⟩ trivial
    all_goals simp
  | bool x =>
    rw [Hideable]
    · exact iff_of_true ⟨_, rfl, .bool _ x⟩ trivial
    all_goals simp
  | int z =>
    rw [Hideable]
    · exact iff_of_true ⟨_, rfl, .int _ z⟩ trivial
    all_goals simp
  | float f =>
    rw [Hideable]
    · exact iff_of_true ⟨_, rfl, .float _ f⟩ trivial
    all_goals simp
  | str s => exact isHidden_str_iff lib hp
  | list xs ih =>
    have hinside : p.inside = .value ↔ lib.isSensitive [] = true := by
      rw [isSensitive_nil]
      cases p <;> simp [Position.inside]
    rw [isHidden_list_iff, Hideable]
    exact forall₂_congr fun x hx => ih x hx hinside
  | dict es ih =>
    rw [isHidden_dict_iff, Hideable]
    refine forall₂_congr fun e he => ih e he ?_
    unfold Library.position
    cases lib.isSensitive e.1 <;> simp

/-! ## Two records -/

variable {lib}

lemma Alike.symm {v w : Value PyStr} (h : Alike lib R b v w) :
    Alike lib (fun s t => R t s) b w v := by
  induction v using Value.induction generalizing b w with
  | null | bool | int | float | str => cases h <;> constructor <;> assumption
  | list xs ih =>
    obtain _ | _ | _ | _ | _ | _ | ⟨length, h⟩ := h
    exact .list length.symm fun i hi hi' => ih _ (List.get_mem xs ⟨i, hi'⟩) (h i hi' hi)
  | dict es ih =>
    obtain _ | _ | _ | _ | _ | _ | _ | h := h
    refine .dict (forall₂_flip_of_mem h ?_)
    rintro e he f - ⟨key, halike⟩
    exact .mk key (ih _ (mem_sortByKey.mp he) halike)

lemma Alike.trans {u v w : Value PyStr} (h : Alike lib R b u v) (h' : Alike lib S b v w) :
    Alike lib (fun s t => ∃ x, R s x ∧ S x t) b u w := by
  induction v using Value.induction generalizing b u w with
  | null | bool | int | float =>
    cases h
    cases h'
    constructor
  | str s =>
    cases h with
    | text =>
      cases h'
      exact .text s
    | secret hR =>
      cases h' with
      | secret hS => exact .secret ⟨s, hR, hS⟩
  | list ys ih =>
    cases h with
    | @list _ xs _ length h =>
      cases h' with
      | @list _ _ zs length' h' =>
        refine .list (length.trans length') fun i hi hi' => ?_
        have hmid : i < ys.length := length ▸ hi
        exact ih _ (List.get_mem ys ⟨i, hmid⟩) (h i hi hmid) (h' i hmid hi')
  | dict fs ih =>
    cases h with
    | dict h =>
      cases h' with
      | dict h' =>
        refine .dict (forall₂_comp_of_mem h h' ?_)
        rintro e - f hf g ⟨key, halike⟩ hfg
        cases hfg with
        | mk _ halike' => exact .mk key (ih _ (mem_sortByKey.mp hf) halike halike')

lemma Alike.imp {v w : Value PyStr} (h : Alike lib R b v w) (himp : ∀ s t, R s t → S s t) :
    Alike lib S b v w := by
  induction v using Value.induction generalizing b w with
  | null | bool | int | float =>
    cases h
    constructor
  | str s =>
    cases h with
    | text => exact .text s
    | secret hR => exact .secret (himp _ _ hR)
  | list xs ih =>
    cases h with
    | list length h =>
      exact .list length fun i hi hi' => ih _ (List.get_mem xs ⟨i, hi⟩) (h i hi hi')
  | dict es ih =>
    cases h with
    | dict h =>
      refine .dict (forall₂_imp_of_mem h ?_)
      rintro e he f - ⟨key, halike⟩
      exact .mk key (ih _ (mem_sortByKey.mp he) halike)

variable (lib)

/-- The strings under sensitive keys are replaced by digests and nothing else changes. -/
def Redacted (record canonical : Dict PyStr) : Prop :=
  Alike lib (fun _ t => HasDigestForm t) false (.dict record) (.dict canonical)

/-- Two records differ in strings under sensitive keys alone. -/
def DifferInSecrets (record other : Dict PyStr) : Prop :=
  Alike lib (fun _ _ => True) false (.dict record) (.dict other)

/-- Two records differ in digests alone. -/
def DifferInDigests (record other : Dict PyStr) : Prop :=
  Alike lib (fun s t => HasDigestForm s ∧ HasDigestForm t) false (.dict record) (.dict other)

/-- Every string under a sensitive key is a digest, or is no part of an array and free of
surrogates. -/
def HideableRecord (record : Dict PyStr) : Prop := Hideable lib .plain (.dict record)

lemma canonicalRecord_eq_some_iff {record canonical : Dict PyStr} :
    canonicalRecord lib record = some canonical ↔
      evidenceValue lib [] (.dict record) = some (.dict canonical) := by
  simp [canonicalRecord, evidenceValue]

lemma canonicalRecord_redacted_iff {record : Dict PyStr} :
    (∃ canonical, canonicalRecord lib record = some canonical ∧ Redacted lib record canonical) ↔
      HideableRecord lib record := by
  have hnil : Position.plain = .value ↔ lib.isSensitive [] = true := by
    rw [isSensitive_nil]
    simp
  rw [HideableRecord, ← isHidden_iff lib hnil]
  constructor
  · rintro ⟨canonical, hcanonical, hredacted⟩
    exact ⟨_, (canonicalRecord_eq_some_iff lib).mp hcanonical, hredacted⟩
  · rintro ⟨w, hw, halike⟩
    obtain ⟨fs, -, rfl⟩ := (evidenceValue_dict_iff lib).mp hw
    exact ⟨_, (canonicalRecord_eq_some_iff lib).mpr hw, halike⟩

/-- A record is written without bearer material, and stays as it is when it is written again,
exactly when it is hideable. Records that are and differ in secrets are written with different
digests alone. -/
theorem canonicalRecord_spec :
    (∀ record, (∃ canonical, canonicalRecord lib record = some canonical ∧
        canonicalRecord lib canonical = some canonical ∧ Redacted lib record canonical) ↔
      HideableRecord lib record) ∧
    ∀ record other, HideableRecord lib record → HideableRecord lib other →
      DifferInSecrets lib record other →
        ∃ canonical canonicalOther, canonicalRecord lib record = some canonical ∧
          canonicalRecord lib other = some canonicalOther ∧
            DifferInDigests lib canonical canonicalOther := by
  constructor
  · intro record
    rw [← canonicalRecord_redacted_iff]
    constructor
    · rintro ⟨canonical, hcanonical, -, hredacted⟩
      exact ⟨canonical, hcanonical, hredacted⟩
    · rintro ⟨canonical, hcanonical, hredacted⟩
      have hvalue := (canonicalRecord_eq_some_iff lib).mp hcanonical
      have hagain := (canonicalRecord_eq_some_iff lib).mpr (evidenceValue_again lib hvalue)
      exact ⟨canonical, hcanonical, hagain, hredacted⟩
  · intro record other hrecord hother hdiffer
    obtain ⟨canonical, hcanonical, hredacted⟩ := (canonicalRecord_redacted_iff lib).mpr hrecord
    obtain ⟨canonicalOther, hcanonicalOther, hredactedOther⟩ :=
      (canonicalRecord_redacted_iff lib).mpr hother
    have hdigests := (Alike.symm hredacted).trans (hdiffer.trans hredactedOther)
    exact ⟨canonical, canonicalOther, hcanonical, hcanonicalOther,
      hdigests.imp fun s t ⟨_, hs, _, _, ht⟩ => ⟨hs, ht⟩⟩

def sampleDigest (bytes : List UInt8) : PyStr :=
  if bytes = [97] then
    ofString "ca978112ca1bbdcafac231b39a23dc4da786eff8147c4e72b9807785afee48bb"
  else ofString "3e23e8160039594a33894f6564e1b1348bbd7a0088d42c4acb73eeaed59c009d"

/-- Python on ASCII, with the digests of `a` and `b`. -/
def sampleLibrary : Library where
  lower text := text.map fun c => if 65 ≤ c.val ∧ c.val ≤ 90 then codePoint (c.val + 32) else c
  lower_nil := rfl
  isAlnum c := (48 ≤ c.val && c.val ≤ 57) || (65 ≤ c.val && c.val ≤ 90) ||
    (97 ≤ c.val && c.val ≤ 122)
  sha256 := sampleDigest
  length_sha256 bytes := by
    unfold sampleDigest
    split_ifs <;> rfl
  sha256_hex bytes := by
    unfold sampleDigest
    split_ifs <;> exact List.forall_iff_forall_mem.mp (by decide)

def withPassword (password : String) : Dict PyStr :=
  [(ofString "user", .int 7), (ofString "Pass-word", .str (ofString password))]

lemma hideable_withPassword {password : String}
    (h : (encode (ofString password)).isSome = true) :
    HideableRecord sampleLibrary (withPassword password) := by
  have hposition : sampleLibrary.position (ofString "Pass-word") = .value := by decide
  simp [HideableRecord, withPassword, Hideable, hposition, h]

theorem passwords_hidden : ∃ canonical canonicalOther,
    canonicalRecord sampleLibrary (withPassword "a") = some canonical ∧
      canonicalRecord sampleLibrary (withPassword "b") = some canonicalOther ∧
        DifferInDigests sampleLibrary canonical canonicalOther := by
  have hmembers : List.Forall₂ (AlikeMember sampleLibrary fun _ _ => True) (withPassword "a")
      (withPassword "b") := by
    have hsensitive : sampleLibrary.isSensitive (ofString "Pass-word") = true := by decide
    exact .cons (.mk _ (.int _ 7)) (.cons (.mk _ (hsensitive ▸ .secret trivial)) .nil)
  have hdiffer : DifferInSecrets sampleLibrary (withPassword "a") (withPassword "b") :=
    .dict (forall₂_sortByKey (fun _ _ h => (alikeMember_iff.mp h).1) hmembers)
  exact (canonicalRecord_spec sampleLibrary).2 _ _ (hideable_withPassword (by decide))
    (hideable_withPassword (by decide)) hdiffer

/-- The values of a repeated query parameter are written as they are. -/
theorem repeatedCode_written : ¬ ∀ record, ∃ canonical,
    canonicalRecord sampleLibrary record = some canonical ∧
      canonicalRecord sampleLibrary canonical = some canonical ∧
        Redacted sampleLibrary record canonical := by
  intro h
  obtain ⟨canonical, hcanonical, -, hredacted⟩ :=
    h [(ofString "code", .list [.str (ofString "first"), .str (ofString "second")])]
  have hhideable := (canonicalRecord_redacted_iff sampleLibrary).mp ⟨_, hcanonical, hredacted⟩
  have hposition : sampleLibrary.position (ofString "code") = .value := by decide
  have hfirst : isDigest (ofString "first") = false := by decide
  simp [HideableRecord, Hideable, hposition, Position.inside, hfirst] at hhideable

end WiseacctSso.EvidenceRecords
