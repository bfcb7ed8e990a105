import WiseacctSso.ContractMatching

/-!
# What a contract asks for

Expectations as a syntax of their own, what a value has to be to conform to one, and when the
matcher says so. The matcher compares captured values as Python compares, so `true` passes for `1`,
and scalars with their Python types, so `1.0` does not.
-/
namespace WiseacctSso.ContractConformance
open Json ListRelations ContractMatching

/-! ## Expectations -/

inductive Expectation
  | scalar (value : Value PyStr)
  | object (allowExtra : Option Bool) (members : List (PyStr × Expectation))
  | array (items : List Expectation)
  | capture (name : PyStr)
  | captureIf (name : PyStr) (validation : Expectation)
  | equalsCapture (name : PyStr)
  | any
  | nonemptyString

namespace Expectation

lemma sizeOf_item {e : Expectation} {items : List Expectation} (h : e ∈ items) :
    sizeOf e < sizeOf (Expectation.array items) := by
  have hlt := List.sizeOf_lt_of_mem h
  rw [Expectation.array.sizeOf_spec]
  omega

lemma sizeOf_member {m : PyStr × Expectation} {allowExtra : Option Bool}
    {members : List (PyStr × Expectation)} (h : m ∈ members) :
    sizeOf m.2 < sizeOf (Expectation.object allowExtra members) := by
  have hlt := List.sizeOf_lt_of_mem h
  have hpair : sizeOf m = 1 + sizeOf m.1 + sizeOf m.2 := rfl
  rw [Expectation.object.sizeOf_spec]
  omega

@[elab_as_elim]
theorem induction {motive : Expectation → Prop} (scalar : ∀ v, motive (.scalar v))
    (object : ∀ allowExtra members, (∀ m ∈ members, motive m.2) →
      motive (.object allowExtra members))
    (array : ∀ items, (∀ e ∈ items, motive e) → motive (.array items))
    (capture : ∀ name, motive (.capture name))
    (captureIf : ∀ name validation, motive validation → motive (.captureIf name validation))
    (equalsCapture : ∀ name, motive (.equalsCapture name)) (any : motive .any)
    (nonemptyString : motive .nonemptyString) (e : Expectation) : motive e :=
  match e with
  | .scalar v => scalar v
  | .object allowExtra members => object allowExtra members fun m _hm =>
      induction scalar object array capture captureIf equalsCapture any nonemptyString m.2
  | .array items => array items fun e _he =>
      induction scalar object array capture captureIf equalsCapture any nonemptyString e
  | .capture name => capture name
  | .captureIf name validation => captureIf name validation
      (induction scalar object array capture captureIf equalsCapture any nonemptyString validation)
  | .equalsCapture name => equalsCapture name
  | .any => any
  | .nonemptyString => nonemptyString
termination_by e
decreasing_by
  · exact sizeOf_member _hm
  · exact sizeOf_item _he
  · rw [Expectation.captureIf.sizeOf_spec]
    omega

def extraEntry (allowExtra : Option Bool) : Dict PyStr :=
  allowExtra.toList.map fun b => (allowExtraKey, .bool b)

def entriesOf : Value PyStr → Dict PyStr
  | .dict entries => entries
  | _ => []

mutual

/-- The JSON of an expectation. -/
def encode : Expectation → Value PyStr
  | .scalar v => v
  | .object allowExtra members => .dict (extraEntry allowExtra ++ encodeMembers members)
  | .array items => .list (encodeItems items)
  | .capture name => .dict [(captureKey, .str name)]
  | .captureIf name validation => .dict ((captureKey, .str name) :: entriesOf (encode validation))
  | .equalsCapture name => .dict [(equalsCaptureKey, .str name)]
  | .any => .dict [(predicateKey, .str (ofString "any"))]
  | .nonemptyString => .dict [(predicateKey, .str (ofString "nonempty-string"))]

def encodeItems : List Expectation → List (Value PyStr)
  | [] => []
  | e :: rest => encode e :: encodeItems rest

def encodeMembers : List (PyStr × Expectation) → Dict PyStr
  | [] => []
  | (key, e) :: rest => (key, encode e) :: encodeMembers rest

end

def directives : List PyStr := [urlKey, equalsCaptureKey, captureKey, predicateKey, allowExtraKey]

/-- What may stand next to `$capture`. -/
def isValidation : Expectation → Bool
  | .object allowExtra members => allowExtra.isSome || !members.isEmpty
  | .any | .nonemptyString => true
  | _ => false

/-- Scalars are scalars, and an object has one member a key, none of them a directive. -/
def WellFormed : Expectation → Prop
  | .scalar v => v.isScalar = true ∧ v.IsProper
  | .object _ members => (members.map Prod.fst).Nodup ∧
      (∀ m ∈ members, m.1 ∉ directives) ∧ ∀ m ∈ members, m.2.WellFormed
  | .array items => ∀ e ∈ items, e.WellFormed
  | .captureIf _ validation => validation.isValidation = true ∧ validation.WellFormed
  | _ => True
termination_by e => e
decreasing_by
  · exact sizeOf_member ‹_›
  · exact sizeOf_item ‹_›
  · rw [Expectation.captureIf.sizeOf_spec]
    omega

/-! ## Conformance -/

section fits

variable (same : Value PyStr → Value PyStr → Bool)

mutual

/-- The value has the form that is asked for, captures apart and up to what scalars are compared
with. -/
def fits : Expectation → Value PyStr → Bool
  | .scalar s, v => same v s
  | .object allowExtra members, .dict d =>
    fitsMembers members d && (allowExtra = some true || d.all fun e => e.1 ∈ members.map Prod.fst)
  | .array items, .list values => fitsItems items values
  | .capture _, _ | .equalsCapture _, _ | .any, _ => true
  | .captureIf _ validation, v => fits validation v
  | .nonemptyString, .str s => s ≠ []
  | _, _ => false

def fitsItems : List Expectation → List (Value PyStr) → Bool
  | [], [] => true
  | e :: items, v :: values => fits e v && fitsItems items values
  | _, _ => false

def fitsMembers : List (PyStr × Expectation) → Dict PyStr → Bool
  | [], _ => true
  | (key, e) :: members, d =>
    (match d.lookup key with
      | some v => fits e v
      | none => false) && fitsMembers members d

end

end fits

/-- A position with the name of a capture. -/
structure Occurrence where
  name : PyStr
  value : Value PyStr
  binds : Bool

mutual

/-- The positions with captures, in the order in which they are visited. -/
def occurrences : Expectation → Value PyStr → List Occurrence
  | .object _ members, .dict d => (sortByKey (memberOccurrences members d)).flatMap Prod.snd
  | .array items, .list values => itemOccurrences items values
  | .capture name, v => [⟨name, v, true⟩]
  | .captureIf name validation, v => occurrences validation v ++ [⟨name, v, true⟩]
  | .equalsCapture name, v => [⟨name, v, false⟩]
  | _, _ => []

def itemOccurrences : List Expectation → List (Value PyStr) → List Occurrence
  | e :: items, v :: values => occurrences e v ++ itemOccurrences items values
  | _, _ => []

def memberOccurrences : List (PyStr × Expectation) → Dict PyStr → List (PyStr × List Occurrence)
  | [], _ => []
  | (key, e) :: members, d =>
    (key, match d.lookup key with
      | some v => occurrences e v
      | none => []) :: memberOccurrences members d

end

/-- Every `$equalsCapture` comes after a binding. -/
def BoundBefore (bound : PyStr → Prop) : List Occurrence → Prop
  | [] => True
  | o :: rest =>
    (o.binds = false → bound o.name) ∧ BoundBefore (fun name => name = o.name ∨ bound name) rest

/-- The values of a capture, the one it is bound to at first among them. -/
def valuesOf (captures : Captures) (occurrences : List Occurrence) (name : PyStr) :
    List (Value PyStr) :=
  (captures name).toList ++ (occurrences.filter (·.name = name)).map Occurrence.value

/-- The values of each capture are pairwise the same. -/
def Agree (same : Value PyStr → Value PyStr → Bool) (captures : Captures)
    (occurrences : List Occurrence) : Prop :=
  ∀ name, (valuesOf captures occurrences name).Pairwise fun v w => same v w = true

/-- Conformance, up to what scalars and captured values are compared with. -/
def ConformsBy (scalar captured : Value PyStr → Value PyStr → Bool) (captures : Captures)
    (e : Expectation) (v : Value PyStr) : Prop :=
  fits scalar e v = true ∧ BoundBefore (fun name => (captures name).isSome) (occurrences e v) ∧
    Agree captured captures (occurrences e v)

/-- The value conforms to the expectation. -/
def Conforms : Captures → Expectation → Value PyStr → Prop := ConformsBy identical identical

/-- How `match` compares a scalar with the expected one. -/
def typeEqual (v s : Value PyStr) : Bool := pyEqual v s && v.kind = s.kind

mutual

/-- Two values are the same wherever a predicate governs them outside captures. -/
def sameAtPredicates (same : Value PyStr → Value PyStr → Bool) :
    Expectation → Value PyStr → Value PyStr → Bool
  | .any, v, w => same v w
  | .nonemptyString, v, w => same v w
  | .object _ members, .dict d, .dict d' => sameAtMembers same members d d'
  | .array items, .list vs, .list ws => sameAtItems same items vs ws
  | _, _, _ => true

def sameAtItems (same : Value PyStr → Value PyStr → Bool) :
    List Expectation → List (Value PyStr) → List (Value PyStr) → Bool
  | e :: items, v :: vs, w :: ws => sameAtPredicates same e v w && sameAtItems same items vs ws
  | _, _, _ => true

def sameAtMembers (same : Value PyStr → Value PyStr → Bool) :
    List (PyStr × Expectation) → Dict PyStr → Dict PyStr → Bool
  | [], _, _ => true
  | (key, e) :: members, d, d' =>
    (match d.lookup key, d'.lookup key with
      | some v, some w => sameAtPredicates same e v w
      | _, _ => true) && sameAtMembers same members d d'

end

mutual

/-- The form in which the value is compared. -/
def normal : Expectation → Value PyStr → Value PyStr
  | .object _ members, .dict d => .dict (sortByKey (normalMembers members d))
  | .array items, .list values => .list (normalItems items values)
  | .capture name, _ | .captureIf name _, _ | .equalsCapture name, _ => captureMark name
  | _, v => v

def normalItems : List Expectation → List (Value PyStr) → List (Value PyStr)
  | e :: items, v :: values => normal e v :: normalItems items values
  | _, _ => []

def normalMembers : List (PyStr × Expectation) → Dict PyStr → Dict PyStr
  | [], _ => []
  | (key, e) :: members, d =>
    (key, match d.lookup key with
      | some v => normal e v
      | none => .null) :: normalMembers members d

end

/-! ## Members one by one -/

def memberOccurrence (d : Dict PyStr) (m : PyStr × Expectation) : PyStr × List Occurrence :=
  (m.1, match d.lookup m.1 with
    | some v => occurrences m.2 v
    | none => [])

def memberNormal (d : Dict PyStr) (m : PyStr × Expectation) : PyStr × Value PyStr :=
  (m.1, match d.lookup m.1 with
    | some v => normal m.2 v
    | none => .null)

lemma memberOccurrences_eq (members : List (PyStr × Expectation)) (d : Dict PyStr) :
    memberOccurrences members d = members.map (memberOccurrence d) := by
  induction members with
  | nil => rfl
  | cons m members ih => rw [memberOccurrences, ih, List.map_cons, memberOccurrence]

lemma normalMembers_eq (members : List (PyStr × Expectation)) (d : Dict PyStr) :
    normalMembers members d = members.map (memberNormal d) := by
  induction members with
  | nil => rfl
  | cons m members ih => rw [normalMembers, ih, List.map_cons, memberNormal]

lemma encodeItems_eq (items : List Expectation) : encodeItems items = items.map encode := by
  induction items with
  | nil => rfl
  | cons e items ih => rw [encodeItems, ih, List.map_cons]

lemma encodeMembers_eq (members : List (PyStr × Expectation)) :
    encodeMembers members = members.map fun m => (m.1, encode m.2) := by
  induction members with
  | nil => rfl
  | cons m members ih => rw [encodeMembers, ih, List.map_cons]

section fits

variable {same : Value PyStr → Value PyStr → Bool}

lemma fitsItems_iff {items : List Expectation} {values : List (Value PyStr)} :
    fitsItems same items values = true ↔
      List.Forall₂ (fun e v => fits same e v = true) items values := by
  induction items generalizing values with
  | nil => cases values <;> simp [fitsItems]
  | cons e items ih => cases values <;> simp [fitsItems, ih]

lemma fitsMembers_iff {members : List (PyStr × Expectation)} {d : Dict PyStr} :
    fitsMembers same members d = true ↔
      ∀ m ∈ members, ∃ v, d.lookup m.1 = some v ∧ fits same m.2 v = true := by
  induction members with
  | nil => simp [fitsMembers]
  | cons m members ih =>
    obtain ⟨key, e⟩ := m
    rw [fitsMembers, Bool.and_eq_true, ih, List.forall_mem_cons]
    cases d.lookup key <;> simp

end fits

/-- Sorting commutes with changes of what the keys stand for. -/
lemma sortByKey_map {α β : Type} (f : PyStr × α → PyStr × β) (hf : ∀ e, (f e).1 = e.1)
    (entries : List (PyStr × α)) : sortByKey (entries.map f) = (sortByKey entries).map f := by
  unfold sortByKey
  exact (List.map_insertionSort _ _ f entries fun a _ b _ => by rw [hf, hf]).symm

end Expectation

section matchers

variable (lib : Library)

lemma itemMatchers_eq (values : List (Value PyStr)) :
    itemMatchers lib values = values.map (matcher lib) := by
  induction values with
  | nil => rfl
  | cons v values ih => rw [itemMatchers, ih, List.map_cons]

lemma memberMatchers_eq (entries : Dict PyStr) :
    memberMatchers lib entries = entries.map fun e => (e.1, matcher lib e.2) := by
  induction entries with
  | nil => rfl
  | cons e entries ih => rw [memberMatchers, ih, List.map_cons]

end matchers

namespace Expectation

/-! ## The matcher computes conformance -/

/-- What a position does to the captures. -/
def step (captures : Captures) (o : Occurrence) : Option Captures :=
  if o.binds then
    if (captures o.name).all fun bound => pyEqual bound o.value then
      some (Function.update captures o.name (some o.value))
    else none
  else
    (captures o.name).bind fun bound => if pyEqual o.value bound then some captures else none

def run (captures : Captures) (occurrences : List Occurrence) : Option Captures :=
  occurrences.foldlM step captures

lemma run_append (captures : Captures) (xs ys : List Occurrence) :
    run captures (xs ++ ys) = (run captures xs).bind fun captures => run captures ys :=
  List.foldlM_append

lemma run_singleton (captures : Captures) (o : Occurrence) :
    run captures [o] = step captures o := by
  simp [run]

/-- What the matcher of an expectation has to return. -/
def outcome (e : Expectation) (v : Value PyStr) (captures : Captures) :
    Option (Value PyStr × Captures) :=
  if fits typeEqual e v then
    (run captures (occurrences e v)).map fun captures => (normal e v, captures)
  else none

variable {lib : Library}

/-- An expectation is matched as it should be. -/
def Correct (lib : Library) (e : Expectation) : Prop :=
  ∀ v captures, matcher lib (encode e) v captures = outcome e v captures

lemma runItems_eq {items : List Expectation} (h : ∀ e ∈ items, Correct lib e)
    {values : List (Value PyStr)} (hlength : values.length = items.length) (captures : Captures) :
    runItems (items.map fun e => matcher lib (encode e)) values captures =
      if fitsItems typeEqual items values then
        (run captures (itemOccurrences items values)).map fun captures =>
          (normalItems items values, captures)
      else none := by
  induction items generalizing values captures with
  | nil =>
    obtain rfl := List.eq_nil_of_length_eq_zero hlength
    rfl
  | cons e items ih =>
    cases values with
    | nil => simp at hlength
    | cons v values =>
      have htail := ih (fun e he => h e (List.mem_cons_of_mem _ he)) (Nat.succ.inj hlength)
      rw [List.map_cons, runItems, h e List.mem_cons_self, outcome, itemOccurrences, run_append,
        fitsItems, normalItems]
      cases fits typeEqual e v with
      | false => simp
      | true =>
        cases hrun : run captures (occurrences e v) with
        | none => simp
        | some c =>
          simp only [if_true, Option.map_some, Option.bind_some, htail, Bool.true_and]
          cases fitsItems typeEqual items values <;> simp [Function.comp_def]

lemma runMembers_eq {members : List (PyStr × Expectation)} (h : ∀ m ∈ members, Correct lib m.2)
    {d : Dict PyStr} (hkeys : ∀ m ∈ members, (d.lookup m.1).isSome = true) (captures : Captures) :
    runMembers (members.map fun m => (m.1, matcher lib (encode m.2))) d captures =
      if fitsMembers typeEqual members d then
        (run captures (members.flatMap fun m => (memberOccurrence d m).2)).map fun captures =>
          (members.map (memberNormal d), captures)
      else none := by
  induction members generalizing captures with
  | nil => rfl
  | cons m members ih =>
    obtain ⟨key, e⟩ := m
    have htail := ih (fun m hm => h m (List.mem_cons_of_mem _ hm))
      fun m hm => hkeys m (List.mem_cons_of_mem _ hm)
    obtain ⟨v, hv⟩ := Option.isSome_iff_exists.mp (hkeys (key, e) List.mem_cons_self)
    have hhead : matcher lib (encode e) v captures = outcome e v captures :=
      h (key, e) List.mem_cons_self v captures
    have hoccurrences : (memberOccurrence d (key, e)).2 = occurrences e v := by
      simp only [memberOccurrence, hv]
    have hnormal : memberNormal d (key, e) = (key, normal e v) := by
      simp only [memberNormal, hv]
    have hfits : fitsMembers typeEqual ((key, e) :: members) d =
        (fits typeEqual e v && fitsMembers typeEqual members d) := by
      rw [fitsMembers, hv]
    rw [List.map_cons, runMembers, List.flatMap_cons, run_append, hfits, List.map_cons, hnormal,
      hoccurrences, hv, Option.bind_some, hhead, outcome]
    cases fits typeEqual e v with
    | false => simp
    | true =>
      cases hrun : run captures (occurrences e v) with
      | none => simp
      | some c =>
        simp only [if_true, Option.map_some, Option.bind_some, htail, Bool.true_and]
        cases fitsMembers typeEqual members d <;> simp [Function.comp_def]

/-- An object expectation, whatever directives stand next to it. -/
lemma matchObject_eq {allowExtra : Option Bool} {members : List (PyStr × Expectation)}
    (h : ∀ m ∈ members, Correct lib m.2) {spec : Dict PyStr} {ms : List (PyStr × Matcher)}
    (hspec : truthy ((spec.lookup allowExtraKey).getD (.bool false)) =
      decide (allowExtra = some true))
    (hms : ms.filter (·.1 ≠ allowExtraKey) =
      members.map fun m => (m.1, matcher lib (encode m.2)))
    (v : Value PyStr) (captures : Captures) :
    matchObject spec ms v captures = outcome (.object allowExtra members) v captures := by
  unfold matchObject outcome
  rw [hspec, hms]
  cases v with
  | dict d =>
    have hkeys : (members.map fun m => (m.1, matcher lib (encode m.2))).map Prod.fst =
        members.map Prod.fst := by simp
    have hmissing : ((members.map fun m => (m.1, matcher lib (encode m.2))).any fun m =>
        (d.lookup m.1).isNone) = members.any fun m => (d.lookup m.1).isNone := by
      rw [List.any_map]
      rfl
    have hextra : (d.any fun e => e.1 ∉ members.map Prod.fst) =
        !d.all fun e => e.1 ∈ members.map Prod.fst := by
      rw [List.not_all_eq_any_not]
      simp only [decide_not]
    dsimp only
    rw [hkeys, hmissing, hextra, fits, occurrences, normal, memberOccurrences_eq, normalMembers_eq,
      sortByKey_map (fun m => (m.1, matcher lib (encode m.2))) (fun _ => rfl),
      sortByKey_map (memberOccurrence d) (fun _ => rfl),
      sortByKey_map (memberNormal d) (fun _ => rfl), List.flatMap_map]
    by_cases hpresent : ∀ m ∈ members, (d.lookup m.1).isSome = true
    · have hnone : (members.any fun m => (d.lookup m.1).isNone) = false := by
        simpa [List.any_eq_false] using hpresent
      have hsorted : fitsMembers typeEqual (sortByKey members) d =
          fitsMembers typeEqual members d := by
        rw [Bool.eq_iff_iff, fitsMembers_iff, fitsMembers_iff]
        simp only [mem_sortByKey]
      rw [hnone, runMembers_eq (fun m hm => h m (mem_sortByKey.mp hm))
        (fun m hm => hpresent m (mem_sortByKey.mp hm)), hsorted]
      cases hallow : decide (allowExtra = some true) <;>
        cases d.all (fun e => e.1 ∈ members.map Prod.fst) <;>
        cases fitsMembers typeEqual members d <;> simp [Function.comp_def]
    · obtain ⟨m, hm, hnot⟩ : ∃ m ∈ members, ¬ (d.lookup m.1).isSome = true := by
        by_contra hall
        exact hpresent fun m hm => by_contra fun hnot => hall ⟨m, hm, hnot⟩
      have hsome : (members.any fun m => (d.lookup m.1).isNone) = true :=
        List.any_eq_true.mpr
          ⟨m, hm, Option.isNone_iff_eq_none.mpr (Option.not_isSome_iff_eq_none.mp hnot)⟩
      have hfits : fitsMembers typeEqual members d = false := by
        rw [Bool.eq_false_iff]
        intro hfits
        apply hpresent
        intro m hm
        obtain ⟨v, hv, -⟩ := fitsMembers_iff.mp hfits m hm
        rw [hv]
        rfl
      simp [hsome, hfits]
  | _ => simp [fits]

lemma not_mem_keys {members : List (PyStr × Expectation)}
    (h : ∀ m ∈ members, m.1 ∉ directives) {key : PyStr} (hkey : key ∈ directives) :
    (encodeMembers members).lookup key = none := by
  rw [encodeMembers_eq, List.lookup_eq_none_iff]
  intro e he
  obtain ⟨m, hm, rfl⟩ := List.mem_map.mp he
  have hne : key ≠ m.1 := fun heq => h m hm (heq ▸ hkey)
  simpa using hne

/-- No directive but the flag is found in an object. -/
lemma lookup_object {allowExtra : Option Bool} {members : List (PyStr × Expectation)}
    (h : ∀ m ∈ members, m.1 ∉ directives) {key : PyStr} (hkey : key ∈ directives)
    (hne : key ≠ allowExtraKey) :
    (extraEntry allowExtra ++ encodeMembers members).lookup key = none := by
  rw [List.lookup_append, not_mem_keys h hkey]
  cases allowExtra with
  | none => rfl
  | some b =>
    have hbeq : (key == allowExtraKey) = false := by simpa using hne
    simp [extraEntry, List.lookup_cons, hbeq]

lemma truthy_flag {allowExtra : Option Bool} {members : List (PyStr × Expectation)}
    (h : ∀ m ∈ members, m.1 ∉ directives) :
    truthy (((extraEntry allowExtra ++ encodeMembers members).lookup allowExtraKey).getD
      (.bool false)) = decide (allowExtra = some true) := by
  rw [List.lookup_append, not_mem_keys h (by decide)]
  rcases allowExtra with _ | _ | _ <;> rfl

lemma filter_object {allowExtra : Option Bool} {members : List (PyStr × Expectation)}
    (h : ∀ m ∈ members, m.1 ∉ directives) :
    (memberMatchers lib (extraEntry allowExtra ++ encodeMembers members)).filter
      (·.1 ≠ allowExtraKey) = members.map fun m => (m.1, matcher lib (encode m.2)) := by
  have hmembers : (members.map fun m => (m.1, matcher lib (encode m.2))).filter
      (·.1 ≠ allowExtraKey) = members.map fun m => (m.1, matcher lib (encode m.2)) := by
    rw [List.filter_eq_self]
    intro e he
    obtain ⟨m, hm, rfl⟩ := List.mem_map.mp he
    have hne : m.1 ≠ allowExtraKey := fun heq => h m hm (heq ▸ by decide)
    simpa using hne
  have hextra : (memberMatchers lib (extraEntry allowExtra)).filter (·.1 ≠ allowExtraKey) = [] := by
    cases allowExtra with
    | none => rfl
    | some b => simp [extraEntry, memberMatchers_eq]
  rw [memberMatchers_eq, List.map_append, List.filter_append, ← memberMatchers_eq, hextra,
    List.nil_append, encodeMembers_eq, List.map_map]
  exact hmembers

lemma correct_scalar {s : Value PyStr} (hs : s.isScalar = true) : Correct lib (.scalar s) := by
  intro v captures
  have hmatcher : matcher lib s v captures = matchScalar s v captures := by
    cases s <;> first | rfl | simp [Value.isScalar] at hs
  rw [encode, hmatcher, matchScalar, outcome, fits, typeEqual, occurrences, normal]
  · rfl
  all_goals simp

lemma correct_array {items : List Expectation} (h : ∀ e ∈ items, Correct lib e) :
    Correct lib (.array items) := by
  intro v captures
  rw [encode, matcher, itemMatchers_eq, encodeItems_eq, List.map_map]
  unfold matchArray outcome
  cases v with
  | list values =>
    dsimp only
    rw [fits, occurrences, normal, List.length_map]
    by_cases hlength : values.length = items.length
    · have hruns := runItems_eq h hlength captures
      rw [if_pos hlength, Function.comp_def, hruns]
      cases fitsItems typeEqual items values <;> simp [Function.comp_def]
    · have hfits : fitsItems typeEqual items values = false := by
        rw [Bool.eq_false_iff]
        exact fun hfits => hlength (fitsItems_iff.mp hfits).length_eq.symm
      rw [if_neg hlength, hfits]
      rfl
  | _ => simp [fits]

lemma correct_capture (name : PyStr) : Correct lib (.capture name) := by
  intro v captures
  have hmatcher : matcher lib (encode (.capture name)) v captures =
      ContractMatching.capture name (fun value captures => some (value, captures)) v captures := rfl
  rw [hmatcher, ContractMatching.capture, outcome, fits, occurrences, normal, run_singleton, step]
  simp

lemma correct_equalsCapture (name : PyStr) : Correct lib (.equalsCapture name) := by
  intro v captures
  have hmatcher : matcher lib (encode (.equalsCapture name)) v captures =
      ContractMatching.equalsCapture name v captures := rfl
  rw [hmatcher, ContractMatching.equalsCapture, outcome, fits, occurrences, normal, run_singleton,
    step]
  cases captures name with
  | none => simp
  | some bound => cases hequal : pyEqual v bound <;> simp [hequal]

lemma correct_any : Correct lib .any := fun _ _ => rfl

lemma correct_nonemptyString : Correct lib .nonemptyString := by
  intro v captures
  cases v <;> rfl

lemma matcher_object {allowExtra : Option Bool} {members : List (PyStr × Expectation)}
    (hkeys : ∀ m ∈ members, m.1 ∉ directives) :
    matcher lib (encode (.object allowExtra members)) =
      matchObject (extraEntry allowExtra ++ encodeMembers members)
        (memberMatchers lib (extraEntry allowExtra ++ encodeMembers members)) := by
  rw [encode, matcher, matchDict, lookup_object hkeys (by decide) (by decide),
    lookup_object hkeys (by decide) (by decide), lookup_object hkeys (by decide) (by decide),
    lookup_object hkeys (by decide) (by decide)]
  rfl

lemma correct_object {allowExtra : Option Bool} {members : List (PyStr × Expectation)}
    (hkeys : ∀ m ∈ members, m.1 ∉ directives) (h : ∀ m ∈ members, Correct lib m.2) :
    Correct lib (.object allowExtra members) := by
  intro v captures
  rw [matcher_object hkeys]
  exact matchObject_eq h (truthy_flag hkeys) (filter_object hkeys) v captures

/-- What stands next to `$capture` is matched as it would be alone. -/
lemma matcher_captureIf {name : PyStr} {e : Expectation} (hvalidation : e.isValidation = true)
    (hwell : e.WellFormed) (h : Correct lib e) :
    matcher lib (encode (.captureIf name e)) = ContractMatching.capture name (outcome e) := by
  cases e with
  | any =>
    funext v captures
    rfl
  | nonemptyString =>
    have houtcome : outcome .nonemptyString = matcher lib (encode .nonemptyString) :=
      funext fun v => funext fun captures => (h v captures).symm
    rw [houtcome]
    rfl
  | object allowExtra members =>
    rw [WellFormed] at hwell
    obtain ⟨-, hkeys, -⟩ := hwell
    have hlookup : ∀ key, key ≠ captureKey →
        ((captureKey, Value.str name) :: (extraEntry allowExtra ++ encodeMembers members)).lookup
          key = (extraEntry allowExtra ++ encodeMembers members).lookup key := by
      intro key hne
      have hbeq : (key == captureKey) = false := by simpa using hne
      rw [List.lookup_cons, hbeq]
    have hfilter : (memberMatchers lib
        ((captureKey, Value.str name) :: (extraEntry allowExtra ++ encodeMembers members))).filter
          (·.1 ≠ captureKey) =
        memberMatchers lib (extraEntry allowExtra ++ encodeMembers members) := by
      rw [memberMatchers, List.filter_cons_of_neg (by simp), List.filter_eq_self, memberMatchers_eq]
      intro m hm
      obtain ⟨e, he, rfl⟩ := List.mem_map.mp hm
      have hnone : (extraEntry allowExtra ++ encodeMembers members).lookup captureKey = none :=
        lookup_object hkeys (by decide) (by decide)
      have hne : captureKey ≠ e.1 := by simpa using List.lookup_eq_none_iff.mp hnone e he
      exact decide_eq_true fun heq => hne heq.symm
    have hne : memberMatchers lib (extraEntry allowExtra ++ encodeMembers members) ≠ [] := by
      rw [memberMatchers_eq, encodeMembers_eq]
      cases allowExtra with
      | some b => simp [extraEntry]
      | none =>
        cases members with
        | nil => simp [isValidation] at hvalidation
        | cons m members => simp
    have hobject : matchObject
        ((captureKey, Value.str name) :: (extraEntry allowExtra ++ encodeMembers members))
        (memberMatchers lib (extraEntry allowExtra ++ encodeMembers members)) =
          outcome (.object allowExtra members) := by
      funext v captures
      rw [← h v captures, matcher_object hkeys]
      unfold matchObject
      rw [hlookup _ (by decide)]
    rw [encode, encode, entriesOf, matcher, matchDict, hlookup _ (by decide), hlookup _ (by decide),
      lookup_object hkeys (by decide) (by decide), lookup_object hkeys (by decide) (by decide),
      List.lookup_cons_self, hlookup _ (by decide), lookup_object hkeys (by decide) (by decide)]
    dsimp only
    rw [hfilter, if_neg hne, hobject]
    rfl
  | _ => simp [isValidation] at hvalidation

lemma correct_captureIf {name : PyStr} {e : Expectation} (hvalidation : e.isValidation = true)
    (hwell : e.WellFormed) (h : Correct lib e) :
    Correct lib (.captureIf name e) := by
  intro v captures
  rw [matcher_captureIf hvalidation hwell h, ContractMatching.capture, outcome, outcome,
    fits, occurrences, normal, run_append]
  cases fits typeEqual e v with
  | false => rfl
  | true =>
    cases run captures (occurrences e v) with
    | none => rfl
    | some c =>
      simp only [if_true, Option.map_some, Option.bind_some, run_singleton, step]
      split_ifs <;> rfl

/-- The matcher of an expectation returns what it should. -/
theorem correct_of_wellFormed {e : Expectation} (hwell : e.WellFormed) : Correct lib e := by
  induction e using Expectation.induction with
  | scalar s =>
    rw [WellFormed] at hwell
    exact correct_scalar hwell.1
  | object allowExtra members ih =>
    rw [WellFormed] at hwell
    exact correct_object hwell.2.1 fun m hm => ih m hm (hwell.2.2 m hm)
  | array items ih =>
    rw [WellFormed] at hwell
    exact correct_array fun e he => ih e he (hwell e he)
  | capture name => exact correct_capture name
  | captureIf name e ih =>
    rw [WellFormed] at hwell
    exact correct_captureIf hwell.1 hwell.2 (ih hwell.2)
  | equalsCapture name => exact correct_equalsCapture name
  | any => exact correct_any
  | nonemptyString => exact correct_nonemptyString

end Expectation

end WiseacctSso.ContractConformance
