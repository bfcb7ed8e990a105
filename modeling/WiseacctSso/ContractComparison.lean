import WiseacctSso.ContractConformance

/-!
# When the comparison keeps its contract

The matcher returns for the values that conform, and two responses are called equivalent when
they are the same at every predicate, as long as no boolean meets the number that it equals in
Python, and no expected number the same number of Python's other type.
-/
namespace WiseacctSso.ContractComparison
open Json ContractMatching ContractConformance Expectation

/-! ## Captures -/

section captures

lemma boundBefore_congr {P Q : PyStr → Prop} (h : ∀ name, P name ↔ Q name)
    (occurrences : List Occurrence) : BoundBefore P occurrences ↔ BoundBefore Q occurrences := by
  obtain rfl : P = Q := funext fun name => propext (h name)
  rfl

variable {captures : Captures} {o : Occurrence} {rest : List Occurrence}

lemma valuesOf_cons_self : valuesOf captures (o :: rest) o.name =
    (captures o.name).toList ++
      o.value :: (rest.filter (·.name = o.name)).map Occurrence.value := by
  simp [valuesOf]

lemma valuesOf_cons_ne {name : PyStr} (h : name ≠ o.name) :
    valuesOf captures (o :: rest) name = valuesOf captures rest name := by
  simp [valuesOf, h.symm]

lemma valuesOf_update_self {name : PyStr} {v : Value PyStr} :
    valuesOf (Function.update captures name (some v)) rest name =
      v :: (rest.filter (·.name = name)).map Occurrence.value := by
  simp [valuesOf]

lemma valuesOf_update_ne {name name' : PyStr} {v : Value PyStr} (h : name' ≠ name) :
    valuesOf (Function.update captures name (some v)) rest name' =
      valuesOf captures rest name' := by
  simp [valuesOf, h]

/-- The values of the name of the first occurrence and those of the other names. -/
lemma agree_cons {same : Value PyStr → Value PyStr → Bool} : Agree same captures (o :: rest) ↔
    ((captures o.name).toList ++ o.value ::
      (rest.filter (·.name = o.name)).map Occurrence.value).Pairwise (same · · = true) ∧
      ∀ name, name ≠ o.name → (valuesOf captures rest name).Pairwise (same · · = true) := by
  constructor
  · intro h
    refine ⟨valuesOf_cons_self ▸ h o.name, fun name hne => ?_⟩
    rw [← valuesOf_cons_ne hne]
    exact h name
  · rintro ⟨hself, hothers⟩ name
    by_cases hname : name = o.name
    · rw [hname, valuesOf_cons_self]
      exact hself
    · rw [valuesOf_cons_ne hname]
      exact hothers name hname

lemma agree_update {same : Value PyStr → Value PyStr → Bool} {name : PyStr} {v : Value PyStr} :
    Agree same (Function.update captures name (some v)) rest ↔
      (v :: (rest.filter (·.name = name)).map Occurrence.value).Pairwise (same · · = true) ∧
      ∀ name', name' ≠ name → (valuesOf captures rest name').Pairwise (same · · = true) := by
  constructor
  · intro h
    refine ⟨valuesOf_update_self ▸ h name, fun name' hne => ?_⟩
    rw [← valuesOf_update_ne hne]
    exact h name'
  · rintro ⟨hself, hothers⟩ name'
    by_cases hname : name' = name
    · rw [hname, valuesOf_update_self]
      exact hself
    · rw [valuesOf_update_ne hname]
      exact hothers name' hname

/-- The bindings are proper values. -/
def ProperCaptures (captures : Captures) : Prop :=
  ∀ name v, captures name = some v → v.IsProper

lemma ProperCaptures.update (h : ProperCaptures captures) {name : PyStr} {v : Value PyStr}
    (hv : v.IsProper) : ProperCaptures (Function.update captures name (some v)) := by
  intro name' w hw
  by_cases hname : name' = name
  · rw [hname, Function.update_self] at hw
    obtain rfl := Option.some.inj hw
    exact hv
  · rw [Function.update_of_ne hname] at hw
    exact h name' w hw

lemma pairwise_chain {b v : Value PyStr} {vs : List (Value PyStr)} :
    (b :: v :: vs).Pairwise (pyEqual · · = true) ↔
      pyEqual b v = true ∧ (v :: vs).Pairwise (pyEqual · · = true) := by
  rw [List.pairwise_cons]
  constructor
  · rintro ⟨hb, hv⟩
    exact ⟨hb v List.mem_cons_self, hv⟩
  · rintro ⟨hbv, hv⟩
    refine ⟨fun x hx => ?_, hv⟩
    rcases List.mem_cons.mp hx with rfl | hx
    · exact hbv
    · exact pyEqual_trans hbv ((List.pairwise_cons.mp hv).1 x hx)

lemma pairwise_again {b v : Value PyStr} (hb : b.IsProper) (hv : v.IsProper)
    {vs : List (Value PyStr)} : (b :: v :: vs).Pairwise (pyEqual · · = true) ↔
      pyEqual v b = true ∧ (b :: vs).Pairwise (pyEqual · · = true) := by
  rw [pairwise_chain, List.pairwise_cons, List.pairwise_cons]
  constructor
  · rintro ⟨hbv, hvs, hrest⟩
    exact ⟨pyEqual_symm hb hv hbv, fun x hx => pyEqual_trans hbv (hvs x hx), hrest⟩
  · rintro ⟨hvb, hbs, hrest⟩
    exact ⟨pyEqual_symm hv hb hvb, fun x hx => pyEqual_trans hvb (hbs x hx), hrest⟩

/-- The captures are threaded through to the end when all uses are bound and all values of a
capture are equal. -/
theorem isSome_run_iff {occurrences : List Occurrence} (hcaptures : ProperCaptures captures)
    (hproper : ∀ o ∈ occurrences, o.value.IsProper) :
    (run captures occurrences).isSome = true ↔
      BoundBefore (fun name => (captures name).isSome) occurrences ∧
        Agree pyEqual captures occurrences := by
  induction occurrences generalizing captures with
  | nil =>
    refine iff_of_true rfl ⟨trivial, fun name => ?_⟩
    cases hname : captures name <;> simp [valuesOf, hname]
  | cons o rest ih =>
    have ho := hproper o List.mem_cons_self
    have hrest : ∀ o ∈ rest, o.value.IsProper := fun o h => hproper o (List.mem_cons_of_mem _ h)
    have hrun : run captures (o :: rest) = (step captures o).bind fun c => run c rest :=
      List.foldlM_cons
    have hbound : ∀ name, (Function.update captures o.name (some o.value) name).isSome = true ↔
        name = o.name ∨ (captures name).isSome = true := by
      intro name
      by_cases hname : name = o.name <;> simp [hname]
    rw [hrun, step, BoundBefore, agree_cons]
    cases hbinds : o.binds with
    | true =>
      cases hname : captures o.name with
      | none =>
        simp only [if_true, Option.all_none, Option.bind_some, ih (hcaptures.update ho) hrest,
          boundBefore_congr hbound, agree_update]
        simp
      | some b =>
        cases hequal : pyEqual b o.value with
        | false => simp [hequal]
        | true =>
          simp only [if_true, Option.all_some, hequal, Option.bind_some,
            ih (hcaptures.update ho) hrest, boundBefore_congr hbound, agree_update,
            Option.toList_some, List.singleton_append, pairwise_chain]
          simp
    | false =>
      cases hname : captures o.name with
      | none => simp
      | some b =>
        have hb := hcaptures o.name b hname
        cases hequal : pyEqual o.value b with
        | false => simp [hequal, pairwise_again hb ho]
        | true =>
          have hsame : ∀ name, (name = o.name ∨ (captures name).isSome = true) ↔
              (captures name).isSome = true := by
            intro name
            refine or_iff_right_of_imp ?_
            rintro rfl
            rw [hname]
            rfl
          have hvalues : valuesOf captures rest o.name =
              b :: (rest.filter (·.name = o.name)).map Occurrence.value := by
            simp [valuesOf, hname]
          have hagree : Agree pyEqual captures rest ↔
              (valuesOf captures rest o.name).Pairwise (pyEqual · · = true) ∧
                ∀ name, name ≠ o.name →
                  (valuesOf captures rest name).Pairwise (pyEqual · · = true) := by
            refine ⟨fun h => ⟨h o.name, fun name _ => h name⟩, fun h name => ?_⟩
            by_cases hname : name = o.name
            · exact hname ▸ h.1
            · exact h.2 name hname
          simp only [Bool.false_eq_true, if_false, Option.bind_some, hequal, if_true,
            ih hcaptures hrest, boundBefore_congr hsame, hagree, hvalues, Option.toList_some,
            List.singleton_append, pairwise_again hb ho]
          simp

end captures

lemma proper_of_lookup {d : Dict PyStr} (hd : (Value.dict d).IsProper) {key : PyStr}
    {v : Value PyStr} (h : d.lookup key = some v) : v.IsProper :=
  (isProper_dict.mp hd).2 (key, v) (mem_of_lookup_eq h)

lemma proper_occurrences {e : Expectation} {v : Value PyStr} (hv : v.IsProper) :
    ∀ o ∈ occurrences e v, o.value.IsProper := by
  induction e using Expectation.induction generalizing v with
  | object allowExtra members ih =>
    cases v with
    | dict d =>
      rw [occurrences, memberOccurrences_eq]
      intro o ho
      obtain ⟨e, he, ho⟩ := List.mem_flatMap.mp ho
      obtain ⟨m, hm, rfl⟩ := List.mem_map.mp (mem_sortByKey.mp he)
      unfold memberOccurrence at ho
      cases hlookup : d.lookup m.1 with
      | none => simp [hlookup] at ho
      | some w =>
        rw [hlookup] at ho
        exact ih m hm (proper_of_lookup hv hlookup) o ho
    | _ => simp [occurrences]
  | array items ih =>
    cases v with
    | list values =>
      rw [occurrences]
      rw [isProper_list] at hv
      induction items generalizing values with
      | nil => simp [itemOccurrences]
      | cons e items ih' =>
        cases values with
        | nil => simp [itemOccurrences]
        | cons v values =>
          intro o ho
          rcases List.mem_append.mp ho with ho | ho
          · exact ih e List.mem_cons_self (hv v List.mem_cons_self) o ho
          · exact ih' (fun e he => ih e (List.mem_cons_of_mem _ he)) values
              (fun v h => hv v (List.mem_cons_of_mem _ h)) o ho
    | _ => simp [occurrences]
  | captureIf name validation ih =>
    intro o ho
    rcases List.mem_append.mp ho with ho | ho
    · exact ih hv o ho
    · obtain rfl := List.mem_singleton.mp ho
      exact hv
  | capture | equalsCapture =>
    intro o ho
    obtain rfl := List.mem_singleton.mp ho
    exact hv
  | scalar | any | nonemptyString => simp [occurrences]

/-! ## Normal forms -/

lemma sameAtMembers_iff {same : Value PyStr → Value PyStr → Bool}
    {members : List (PyStr × Expectation)} {d d' : Dict PyStr} :
    sameAtMembers same members d d' = true ↔ ∀ m ∈ members, ∀ v w,
      d.lookup m.1 = some v → d'.lookup m.1 = some w → sameAtPredicates same m.2 v w = true := by
  induction members with
  | nil => simp [sameAtMembers]
  | cons m members ih =>
    obtain ⟨key, e⟩ := m
    rw [sameAtMembers, Bool.and_eq_true, ih, List.forall_mem_cons]
    cases d.lookup key <;> cases d'.lookup key <;> simp

lemma pyEqual_of_typeEqual {s v w : Value PyStr} (hs : s.IsProper) (hw : w.IsProper)
    (hvs : typeEqual v s = true) (hws : typeEqual w s = true) : pyEqual v w = true := by
  rw [typeEqual, Bool.and_eq_true] at hvs hws
  exact pyEqual_trans hvs.1 (pyEqual_symm hw hs hws.1)

lemma pyEqual_captureMark (name : PyStr) :
    pyEqual (captureMark name) (captureMark name) = true := by
  simp [captureMark, pyEqual, equalBy, looseScalar]

/-- Two normal forms are equal when the values are at every predicate. -/
theorem pyEqual_normal_iff {e : Expectation} (he : e.WellFormed) {v w : Value PyStr}
    (hv : fits typeEqual e v = true) (hw : fits typeEqual e w = true) (hproper : w.IsProper) :
    pyEqual (normal e v) (normal e w) = true ↔ sameAtPredicates pyEqual e v w = true := by
  induction e using Expectation.induction generalizing v w with
  | scalar s =>
    rw [WellFormed] at he
    have hequal := pyEqual_of_typeEqual he.2 hproper hv hw
    simp [normal, sameAtPredicates, hequal]
  | object allowExtra members ih =>
    rw [WellFormed] at he
    obtain ⟨hnodup, -, hmembers⟩ := he
    cases v with
    | dict d =>
      cases w with
      | dict d' =>
        rw [fits, Bool.and_eq_true, fitsMembers_iff] at hv hw
        rw [normal, normal, normalMembers_eq, normalMembers_eq, sameAtPredicates,
          sameAtMembers_iff, sortByKey_map (memberNormal d) (fun _ => rfl),
          sortByKey_map (memberNormal d') (fun _ => rfl)]
        have hkeys : (((sortByKey members).map (memberNormal d')).map Prod.fst).Nodup := by
          rw [List.map_map]
          exact nodup_keys_sortByKey hnodup
        have hsame : ∀ m ∈ sortByKey members, (memberNormal d m).1 = (memberNormal d' m).1 :=
          fun _ _ => rfl
        rw [pyEqual_dict_map hsame hkeys]
        simp only [mem_sortByKey]
        refine forall₂_congr fun m hm => ?_
        obtain ⟨v, hv', hfits⟩ := hv.1 m hm
        obtain ⟨w, hw', hfits'⟩ := hw.1 m hm
        have hmember := ih m hm (hmembers m hm) hfits hfits' (proper_of_lookup hproper hw')
        simp only [memberNormal, hv', hw', Option.some.injEq]
        rw [hmember]
        constructor
        · rintro h _ _ rfl rfl
          exact h
        · exact fun h => h v w rfl rfl
      | _ => simp [fits] at hw
    | _ => simp [fits] at hv
  | array items ih =>
    rw [WellFormed] at he
    cases v with
    | list vs =>
      cases w with
      | list ws =>
        rw [isProper_list] at hproper
        rw [fits] at hv hw
        rw [normal, normal, sameAtPredicates, pyEqual_list]
        induction items generalizing vs ws with
        | nil => simp [normalItems, sameAtItems]
        | cons e items ih' =>
          cases vs with
          | nil => simp [fitsItems] at hv
          | cons v vs =>
            cases ws with
            | nil => simp [fitsItems] at hw
            | cons w ws =>
              rw [fitsItems, Bool.and_eq_true] at hv hw
              rw [normalItems, normalItems, List.forall₂_cons, sameAtItems, Bool.and_eq_true]
              have hhead := ih e List.mem_cons_self (he e List.mem_cons_self) hv.1 hw.1
                (hproper w List.mem_cons_self)
              have htail := ih' (fun e h => ih e (List.mem_cons_of_mem _ h))
                (fun e h => he e (List.mem_cons_of_mem _ h)) vs hv.2 ws hw.2
                (fun w h => hproper w (List.mem_cons_of_mem _ h))
              rw [hhead, htail]
      | _ => simp [fits] at hw
    | _ => simp [fits] at hv
  | capture name =>
    rw [normal, normal, sameAtPredicates]
    · exact iff_of_true (pyEqual_captureMark name) rfl
    all_goals simp
  | captureIf name validation =>
    rw [normal, normal, sameAtPredicates]
    · exact iff_of_true (pyEqual_captureMark name) rfl
    all_goals simp
  | equalsCapture name =>
    rw [normal, normal, sameAtPredicates]
    · exact iff_of_true (pyEqual_captureMark name) rfl
    all_goals simp
  | any | nonemptyString => rfl

/-! ## Values that meet -/

/-- Python takes the two for the same, though a boolean of one stands where the other has a
number. -/
def booleanForNumber (v w : Value PyStr) : Bool := pyEqual v w && !booleansMeet v w

lemma identical_iff {v w : Value PyStr} : identical v w = true ↔
    pyEqual v w = true ∧ (!booleanForNumber v w) = true := by
  rw [identical_eq, booleanForNumber]
  cases pyEqual v w <;> simp

/-- Numbers of one value and of Python's two types. -/
def intForFloat : Value PyStr → Value PyStr → Bool
  | .int z, .float f | .float f, .int z => f = .finite z
  | _, _ => false

lemma typeEqual_eq (v : Value PyStr) {s : Value PyStr} (hs : s.isScalar = true) :
    typeEqual v s = (identical v s && !intForFloat v s) := by
  rw [typeEqual, identical_eq, Bool.and_assoc]
  cases s with
  | list | dict => simp [Value.isScalar] at hs
  | null | bool | int | str =>
    cases v <;> simp [pyEqual, equalBy, looseScalar, Value.kind, booleansMeet, Value.jsonType,
      intForFloat, Value.number?]
  | float f =>
    cases v <;> simp [pyEqual, equalBy, looseScalar, Value.kind, booleansMeet, Value.jsonType,
      intForFloat, Value.number?, @eq_comm PyFloat f]

section scalars

variable (ok : Value PyStr → Value PyStr → Bool)

mutual

/-- Whatever meets an expected scalar stands to it as `ok` says. -/
def atScalars : Expectation → Value PyStr → Bool
  | .scalar s, v => ok v s
  | .object _ members, .dict d => atScalarMembers members d
  | .array items, .list values => atScalarItems items values
  | .captureIf _ validation, v => atScalars validation v
  | _, _ => true

def atScalarItems : List Expectation → List (Value PyStr) → Bool
  | e :: items, v :: values => atScalars e v && atScalarItems items values
  | _, _ => true

def atScalarMembers : List (PyStr × Expectation) → Dict PyStr → Bool
  | [], _ => true
  | (key, e) :: members, d =>
    (match d.lookup key with
      | some v => atScalars e v
      | none => true) && atScalarMembers members d

end

end scalars

/-- No expected number meets the same number of Python's other type. -/
def NumbersTyped (e : Expectation) (v : Value PyStr) : Prop :=
  atScalars (fun v s => !intForFloat v s) e v = true

/-- No two values that meet at a capture, the one it is bound to at first among them, differ only by
booleans for numbers. -/
def CapturesTold (captures : Captures) (e : Expectation) (v : Value PyStr) : Prop :=
  ∀ name, (valuesOf captures (occurrences e v) name).Pairwise
    fun v w => (!booleanForNumber v w) = true

/-- Nor do two values that meet at a predicate outside captures. -/
def PredicatesTold (e : Expectation) (v w : Value PyStr) : Prop :=
  sameAtPredicates (fun v w => !booleanForNumber v w) e v w = true

lemma fits_typeEqual {e : Expectation} (he : e.WellFormed) (v : Value PyStr) :
    fits typeEqual e v = true ↔ fits identical e v = true ∧ NumbersTyped e v := by
  rw [NumbersTyped, ← Bool.and_eq_true, ← Bool.eq_iff_iff]
  induction e using Expectation.induction generalizing v with
  | scalar s =>
    rw [WellFormed] at he
    rw [fits, fits, atScalars]
    exact typeEqual_eq v he.1
  | object allowExtra members ih =>
    rw [WellFormed] at he
    obtain ⟨-, -, he⟩ := he
    cases v with
    | dict d =>
      rw [fits, fits, atScalars, Bool.and_right_comm]
      congr 1
      induction members with
      | nil => rfl
      | cons m members ih' =>
        obtain ⟨key, e⟩ := m
        have htail := ih' (fun m hm => ih m (List.mem_cons_of_mem _ hm))
          fun m hm => he m (List.mem_cons_of_mem _ hm)
        rw [fitsMembers, fitsMembers, atScalarMembers, htail]
        cases d.lookup key with
        | none => rfl
        | some v =>
          dsimp only
          rw [ih (key, e) List.mem_cons_self (he _ List.mem_cons_self)]
          ac_rfl
    | _ => simp [fits]
  | array items ih =>
    rw [WellFormed] at he
    cases v with
    | list values =>
      rw [fits, fits, atScalars]
      induction items generalizing values with
      | nil => cases values <;> rfl
      | cons e items ih' =>
        cases values with
        | nil => rfl
        | cons v values =>
          have htail := ih' (fun e h => ih e (List.mem_cons_of_mem _ h))
            (fun e h => he e (List.mem_cons_of_mem _ h)) values
          rw [fitsItems, fitsItems, atScalarItems, htail,
            ih e List.mem_cons_self (he e List.mem_cons_self)]
          ac_rfl
    | _ => simp [fits]
  | captureIf name validation ih =>
    rw [WellFormed] at he
    rw [fits, fits, atScalars]
    exact ih he.2 v
  | capture | equalsCapture | any => simp [fits, atScalars]
  | nonemptyString => cases v <;> simp [fits, atScalars]

lemma agree_identical {captures : Captures} {e : Expectation} {v : Value PyStr} :
    Agree identical captures (occurrences e v) ↔
      Agree pyEqual captures (occurrences e v) ∧ CapturesTold captures e v := by
  unfold Agree CapturesTold
  rw [← forall_and]
  refine forall_congr' fun name => ?_
  rw [← List.pairwise_and_iff]
  simp only [identical_iff]

/-- Two comparisons hold at every predicate together where each of them does. -/
lemma sameAtPredicates_and {same same' : Value PyStr → Value PyStr → Bool} {e : Expectation}
    {v w : Value PyStr} : sameAtPredicates (fun v w => same v w && same' v w) e v w =
      (sameAtPredicates same e v w && sameAtPredicates same' e v w) := by
  induction e using Expectation.induction generalizing v w with
  | object allowExtra members ih =>
    cases v with
    | dict d =>
      cases w with
      | dict d' =>
        rw [sameAtPredicates, sameAtPredicates, sameAtPredicates]
        induction members with
        | nil => rfl
        | cons m members ih' =>
          obtain ⟨key, e⟩ := m
          have htail := ih' fun m hm => ih m (List.mem_cons_of_mem _ hm)
          rw [sameAtMembers, sameAtMembers, sameAtMembers, htail]
          cases d.lookup key with
          | none => rfl
          | some v =>
            cases d'.lookup key with
            | none => rfl
            | some w =>
              dsimp only
              rw [ih (key, e) List.mem_cons_self]
              ac_rfl
      | _ => rfl
    | _ => rfl
  | array items ih =>
    cases v with
    | list vs =>
      cases w with
      | list ws =>
        rw [sameAtPredicates, sameAtPredicates, sameAtPredicates]
        induction items generalizing vs ws with
        | nil => rfl
        | cons e items ih' =>
          cases vs with
          | nil => rfl
          | cons v vs =>
            cases ws with
            | nil => rfl
            | cons w ws =>
              have htail := ih' (fun e he => ih e (List.mem_cons_of_mem _ he)) vs ws
              rw [sameAtItems, sameAtItems, sameAtItems, htail, ih e List.mem_cons_self]
              ac_rfl
      | _ => rfl
    | _ => rfl
  | any | nonemptyString => rfl
  | scalar | capture | captureIf | equalsCapture => rfl

lemma sameAtPredicates_identical {e : Expectation} {v w : Value PyStr} :
    sameAtPredicates identical e v w = true ↔
      sameAtPredicates pyEqual e v w = true ∧ PredicatesTold e v w := by
  have hidentical : (identical : Value PyStr → Value PyStr → Bool) =
      fun v w => pyEqual v w && !booleanForNumber v w := by
    funext v w
    rw [Bool.eq_iff_iff, Bool.and_eq_true]
    exact identical_iff
  rw [hidentical, sameAtPredicates_and, Bool.and_eq_true, PredicatesTold]

/-! ## Conformance and equivalence -/

/-- The `expect` of a step that asks for a status and a body. -/
def jsonContract (status : ℤ) (e : Expectation) : ResponseContract where
  status := status
  headers := none
  json := some (encode e)
  body := none

variable (lib : Library)

/-- The matcher returns for what conforms in Python's eyes. -/
theorem isSome_matcher_iff {e : Expectation} (he : e.WellFormed) {captures : Captures}
    (hcaptures : ProperCaptures captures) {v : Value PyStr} (hv : v.IsProper) :
    (matcher lib (encode e) v captures).isSome = true ↔
      ConformsBy typeEqual pyEqual captures e v := by
  rw [correct_of_wellFormed he, outcome, ConformsBy,
    ← isSome_run_iff hcaptures (proper_occurrences hv)]
  cases fits typeEqual e v <;> simp

variable {lib}

lemma normal_of_normalizeResponse {status : ℤ} {e : Expectation} (he : e.WellFormed)
    {r : HttpResult} {captures captures' : Captures} {n : Value PyStr}
    (h : normalizeResponse lib r (jsonContract status e) captures = some (n, captures')) :
    fits typeEqual e r.body = true ∧
      n = .dict [(ofString "status", .int status), (ofString "json", normal e r.body)] := by
  unfold normalizeResponse at h
  split_ifs at h with hstatus
  simp only [jsonContract, ne_eq, not_not] at hstatus
  simp only [jsonContract, normalizeHeaders, Option.bind_some, normalizeBody, normalizePart,
    Option.map_map] at h
  obtain ⟨⟨form, c⟩, hmatch, hpair⟩ := Option.map_eq_some_iff.mp h
  rw [correct_of_wellFormed he, outcome] at hmatch
  split_ifs at hmatch with hfits
  obtain ⟨c', -, hform⟩ := Option.map_eq_some_iff.mp hmatch
  obtain ⟨rfl, -⟩ := Prod.mk.inj hform
  obtain ⟨rfl, -⟩ := Prod.mk.inj hpair
  rw [hstatus]
  exact ⟨hfits, rfl⟩

lemma comparisonCategory_eq_iff {status : ℤ} {n m : Value PyStr} :
    comparisonCategory [.dict [(ofString "status", .int status), (ofString "json", n)]]
      [.dict [(ofString "status", .int status), (ofString "json", m)]] = "equivalent" ↔
        pyEqual n m = true := by
  have hkeys :
      @BEq.beq PyStr instBEqOfDecidableEq (ofString "json") (ofString "status") = false := by decide
  have hequal : pyEqual (.dict [(ofString "status", .int status), (ofString "json", n)])
      (.dict [(ofString "status", .int status), (ofString "json", m)]) = pyEqual n m := by
    simp [pyEqual, equalBy, equalMembers, List.lookup_cons, hkeys, looseScalar, Value.number?]
  have hlist : pyEqual (.list [.dict [(ofString "status", .int status), (ofString "json", n)]])
      (.list [.dict [(ofString "status", .int status), (ofString "json", m)]]) = pyEqual n m := by
    rw [← hequal]
    simp [pyEqual, equalBy, equalItems]
  unfold comparisonCategory
  rw [hlist]
  cases pyEqual n m <;> simp

variable (lib)

/-- Python where no address, no identifier and no timestamp is read. -/
def plainLibrary : Library where
  isUuid _ := false
  isIsoTimestamp _ := false
  urlparse _ := none
  parseQs _ := none
  base64urlJson _ := none

def unbound : Captures := fun _ => none

lemma properCaptures_unbound : ProperCaptures unbound := by
  intro name v h
  simp [unbound] at h

def capturesTwice : Expectation :=
  .array [.any, .capture (ofString "id"), .equalsCapture (ofString "id")]

lemma wellFormed_capturesTwice : capturesTwice.WellFormed := by
  simp [capturesTwice, WellFormed]

def booleans (first : ℤ) : Value PyStr := .list [.int first, .bool true, .bool true]

lemma proper_booleans (first : ℤ) : (booleans first).IsProper := by
  simp [booleans, Value.IsProper]

lemma capturesTold_booleans (first : ℤ) :
    CapturesTold unbound capturesTwice (booleans first) := by
  intro name
  have hsame : booleanForNumber (.bool true) (.bool true) = false := rfl
  by_cases hname : ofString "id" = name <;>
    simp [valuesOf, unbound, capturesTwice, booleans, occurrences, itemOccurrences, hname, hsame]

end WiseacctSso.ContractComparison
