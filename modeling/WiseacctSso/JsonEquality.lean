import WiseacctSso.JsonMembers
import WiseacctSso.ListRelations

/-!
# Equality of JSON values

Python compares numbers of different types by value, booleans among them. For JSON a boolean is no
number, and an `int` and a `float` of one value are the same. Both take the members of an object in
any order, and they differ only where a boolean stands for its number.
-/
namespace Json
open ListRelations

/-! ## Entries -/

section lookup

variable {κ α : Type} [BEq κ] [LawfulBEq κ]

lemma mem_of_lookup_eq {entries : List (κ × α)} {k : κ} {v : α}
    (h : entries.lookup k = some v) : (k, v) ∈ entries := by
  obtain ⟨front, rest, rfl, -⟩ := List.lookup_eq_some_iff.mp h
  simp

lemma lookup_of_mem {entries : List (κ × α)} (hkeys : (entries.map Prod.fst).Nodup) {e : κ × α}
    (h : e ∈ entries) : entries.lookup e.1 = some e.2 := by
  obtain ⟨front, rest, rfl⟩ := List.append_of_mem h
  apply List.lookup_eq_some_iff.mpr
  refine ⟨front, rest, rfl, ?_⟩
  intro p hp
  rw [List.map_append, List.nodup_append] at hkeys
  have hne := hkeys.2.2 p.1 (List.mem_map_of_mem hp) e.1 (by simp)
  simpa using fun heq => hne heq.symm

end lookup

/-! ## Proper values -/

/-- One entry a key, and no number that is none. -/
def Value.IsProper {Str : Type} : Value Str → Prop
  | .float f => f ≠ .nan
  | .list items => ∀ v ∈ items, v.IsProper
  | .dict entries => (entries.map Prod.fst).Nodup ∧ ∀ e ∈ entries, e.2.IsProper
  | _ => True
termination_by v => v
decreasing_by
  · exact Value.sizeOf_item ‹_›
  · exact Value.sizeOf_member ‹_›

section proper

variable {Str : Type}

@[simp] lemma isProper_list {items : List (Value Str)} :
    (Value.list items).IsProper ↔ ∀ v ∈ items, v.IsProper := by rw [Value.IsProper]

@[simp] lemma isProper_dict {entries : Dict Str} : (Value.dict entries).IsProper ↔
    (entries.map Prod.fst).Nodup ∧ ∀ e ∈ entries, e.2.IsProper := by rw [Value.IsProper]

@[simp] lemma isProper_float {f : PyFloat} : (Value.float f : Value Str).IsProper ↔ f ≠ .nan := by
  rw [Value.IsProper]

end proper

/-! ## Comparing values -/

variable {Str : Type} [DecidableEq Str]

/-- What a number is compared as. -/
def Value.number? : Value Str → Option PyFloat
  | .bool b => some (.finite (if b then 1 else 0))
  | .int z => some (.finite z)
  | .float f => some f
  | _ => none

inductive Kind
  | null
  | bool
  | int
  | float
  | str
  | list
  | dict
  deriving DecidableEq

/-- `type(value)`. -/
def Value.kind : Value Str → Kind
  | .null => .null
  | .bool _ => .bool
  | .int _ => .int
  | .float _ => .float
  | .str _ => .str
  | .list _ => .list
  | .dict _ => .dict

/-- JSON has one type of numbers. -/
inductive JsonType
  | null
  | boolean
  | number
  | string
  | array
  | object
  deriving DecidableEq

def Value.jsonType : Value Str → JsonType
  | .null => .null
  | .bool _ => .boolean
  | .int _ | .float _ => .number
  | .str _ => .string
  | .list _ => .array
  | .dict _ => .object

/-- `==` of values that are no containers. -/
def looseScalar : Value Str → Value Str → Bool
  | .null, .null => true
  | .str s, .str t => s = t
  | v, w => v.number?.isSome && v.number? ≠ some .nan && v.number? = w.number?

def strictScalar (v w : Value Str) : Bool := looseScalar v w && v.jsonType = w.jsonType

section equal

variable (same : Value Str → Value Str → Bool)

mutual

def equalBy : Value Str → Value Str → Bool
  | .list xs, .list ys => equalItems xs ys
  | .dict es, .dict fs => es.length = fs.length && equalMembers es fs
  | v, w => same v w

def equalItems : List (Value Str) → List (Value Str) → Bool
  | [], [] => true
  | v :: xs, w :: ys => equalBy v w && equalItems xs ys
  | _, _ => false

/-- Every entry is in the other object. -/
def equalMembers : Dict Str → Dict Str → Bool
  | [], _ => true
  | (k, v) :: es, fs =>
    (match fs.lookup k with
      | some w => equalBy v w
      | none => false) && equalMembers es fs

end

lemma equalItems_iff {xs ys : List (Value Str)} :
    equalItems same xs ys = true ↔ List.Forall₂ (fun v w => equalBy same v w = true) xs ys := by
  induction xs generalizing ys with
  | nil => cases ys <;> simp [equalItems]
  | cons v xs ih => cases ys <;> simp [equalItems, ih]

lemma equalMembers_iff {es fs : Dict Str} :
    equalMembers same es fs = true ↔
      ∀ e ∈ es, ∃ w, fs.lookup e.1 = some w ∧ equalBy same e.2 w = true := by
  induction es with
  | nil => simp [equalMembers]
  | cons e es ih =>
    obtain ⟨k, v⟩ := e
    rw [equalMembers, Bool.and_eq_true, ih, List.forall_mem_cons]
    cases fs.lookup k <;> simp

/-- The comparison of scalars takes no containers. -/
structure ComparesScalars : Prop where
  list : ∀ xs v, same (.list xs) v = false ∧ same v (.list xs) = false
  dict : ∀ es v, same (.dict es) v = false ∧ same v (.dict es) = false

variable {same}

lemma equalBy_list_left (h : ComparesScalars same) {xs : List (Value Str)} {v : Value Str} :
    equalBy same (.list xs) v = true ↔
      ∃ ys, v = .list ys ∧ List.Forall₂ (fun v w => equalBy same v w = true) xs ys := by
  cases v <;> simp [equalBy, equalItems_iff, h.list]

lemma equalBy_list_right (h : ComparesScalars same) {ys : List (Value Str)} {v : Value Str} :
    equalBy same v (.list ys) = true ↔
      ∃ xs, v = .list xs ∧ List.Forall₂ (fun v w => equalBy same v w = true) xs ys := by
  cases v <;> simp [equalBy, equalItems_iff, h.list]

/-- The objects have as many entries, and those of the first are in the second. -/
def SameMembers (same : Value Str → Value Str → Bool) (es fs : Dict Str) : Prop :=
  es.length = fs.length ∧ ∀ e ∈ es, ∃ w, fs.lookup e.1 = some w ∧ equalBy same e.2 w = true

lemma equalBy_dict_left (h : ComparesScalars same) {es : Dict Str} {v : Value Str} :
    equalBy same (.dict es) v = true ↔ ∃ fs, v = .dict fs ∧ SameMembers same es fs := by
  cases v <;> simp [equalBy, equalMembers_iff, SameMembers, h.dict]

def Value.isScalar : Value Str → Bool
  | .list _ | .dict _ => false
  | _ => true

lemma equalBy_of_isScalar {v w : Value Str} (hv : v.isScalar = true) :
    equalBy same v w = same v w := by
  cases v <;> first | rfl | simp [Value.isScalar] at hv

omit [DecidableEq Str] in
lemma isScalar_of_same (h : ComparesScalars same) {v w : Value Str} (hvw : same v w = true) :
    w.isScalar = true := by
  cases w with
  | list ys => simp [h.list] at hvw
  | dict fs => simp [h.dict] at hvw
  | _ => rfl

lemma equalBy_trans (h : ComparesScalars same)
    (htrans : ∀ u v w, same u v = true → same v w = true → same u w = true) {u v w : Value Str}
    (huv : equalBy same u v = true) (hvw : equalBy same v w = true) : equalBy same u w = true := by
  induction u using Value.induction generalizing v w with
  | null | bool | int | float | str =>
    rw [equalBy_of_isScalar rfl] at huv ⊢
    rw [equalBy_of_isScalar (isScalar_of_same h huv)] at hvw
    exact htrans _ _ _ huv hvw
  | list xs ih =>
    obtain ⟨ys, rfl, hxy⟩ := (equalBy_list_left h).mp huv
    obtain ⟨zs, rfl, hyz⟩ := (equalBy_list_left h).mp hvw
    have hxz := forall₂_comp_of_mem hxy hyz fun x hx _ _ _ hxy hyz => ih x hx hxy hyz
    exact (equalBy_list_left h).mpr ⟨zs, rfl, hxz⟩
  | dict es ih =>
    obtain ⟨fs, rfl, hlength, hmembers⟩ := (equalBy_dict_left h).mp huv
    obtain ⟨gs, rfl, hlength', hmembers'⟩ := (equalBy_dict_left h).mp hvw
    refine (equalBy_dict_left h).mpr ⟨gs, rfl, hlength.trans hlength', fun e he => ?_⟩
    obtain ⟨v, hv, hev⟩ := hmembers e he
    obtain ⟨w, hw, hvw⟩ := hmembers' (e.1, v) (mem_of_lookup_eq hv)
    exact ⟨w, hw, ih e he hev hvw⟩

/-- Objects with as many keys have the same keys once those of the first are in the second. -/
lemma keys_subset {es fs : Dict Str} (hes : (es.map Prod.fst).Nodup)
    (hlength : es.length = fs.length) (hsub : ∀ e ∈ es, ∃ w, fs.lookup e.1 = some w) :
    ∀ f ∈ fs, f.1 ∈ es.map Prod.fst := by
  have hkeys : es.map Prod.fst ⊆ fs.map Prod.fst := by
    intro k hk
    obtain ⟨e, he, rfl⟩ := List.mem_map.mp hk
    obtain ⟨w, hw⟩ := hsub e he
    exact List.mem_map.mpr ⟨_, mem_of_lookup_eq hw, rfl⟩
  have hperm := (List.subperm_of_subset hes hkeys).perm_of_length_le (by simp [hlength])
  exact fun f hf => hperm.symm.subset (List.mem_map_of_mem hf)

lemma equalBy_symm (h : ComparesScalars same)
    (hsymm : ∀ v w, same v w = true → same w v = true) {v w : Value Str} (hv : v.IsProper)
    (hw : w.IsProper) (hvw : equalBy same v w = true) : equalBy same w v = true := by
  induction v using Value.induction generalizing w with
  | null | bool | int | float | str =>
    rw [equalBy_of_isScalar rfl] at hvw
    rw [equalBy_of_isScalar (isScalar_of_same h hvw)]
    exact hsymm _ _ hvw
  | list xs ih =>
    obtain ⟨ys, rfl, hxy⟩ := (equalBy_list_left h).mp hvw
    rw [isProper_list] at hv hw
    have hyx := forall₂_flip_of_mem hxy fun x hx y hy hxy => ih x hx (hv x hx) (hw y hy) hxy
    exact (equalBy_list_right h).mpr ⟨ys, rfl, hyx⟩
  | dict es ih =>
    obtain ⟨fs, rfl, hlength, hmembers⟩ := (equalBy_dict_left h).mp hvw
    rw [isProper_dict] at hv hw
    refine (equalBy_dict_left h).mpr ⟨es, rfl, hlength.symm, fun f hf => ?_⟩
    have hsub : ∀ e ∈ es, ∃ w, fs.lookup e.1 = some w := fun e he =>
      (hmembers e he).imp fun _ h => h.1
    obtain ⟨e, he, hkey⟩ := List.mem_map.mp (keys_subset hv.1 hlength hsub f hf)
    obtain ⟨w, hw', hew⟩ := hmembers e he
    rw [hkey, lookup_of_mem hw.1 hf] at hw'
    obtain rfl := Option.some.inj hw'
    refine ⟨e.2, ?_, ih e he (hv.2 e he) (hw.2 f hf) hew⟩
    rw [← hkey]
    exact lookup_of_mem hv.1 he

end equal

/-! ## Equality and identity -/

lemma looseScalar_iff {v w : Value Str} : looseScalar v w = true ↔
    (v = .null ∧ w = .null) ∨ (∃ s, v = .str s ∧ w = .str s) ∨
      ∃ x, v.number? = some x ∧ x ≠ .nan ∧ w.number? = some x := by
  have hnumber : (v.number?.isSome && v.number? ≠ some .nan && v.number? = w.number?) = true ↔
      ∃ x, v.number? = some x ∧ x ≠ .nan ∧ w.number? = some x := by
    cases v.number? with
    | none => simp
    | some x => simp [@eq_comm _ _ w.number?]
  cases v <;> cases w
  case str.str s t =>
    rw [looseScalar, decide_eq_true_eq]
    simp [Value.number?, @eq_comm _ t]
  all_goals
    first
    | exact hnumber.trans (by simp [Value.number?])
    | simp [looseScalar, Value.number?]

lemma looseScalar_symm {v w : Value Str} (h : looseScalar v w = true) :
    looseScalar w v = true := by
  rw [looseScalar_iff] at h ⊢
  rcases h with ⟨hv, hw⟩ | ⟨s, hv, hw⟩ | ⟨x, hv, hx, hw⟩
  · exact Or.inl ⟨hw, hv⟩
  · exact Or.inr (Or.inl ⟨s, hw, hv⟩)
  · exact Or.inr (Or.inr ⟨x, hw, hx, hv⟩)

lemma looseScalar_trans {u v w : Value Str} (h : looseScalar u v = true)
    (h' : looseScalar v w = true) : looseScalar u w = true := by
  rw [looseScalar_iff] at h h' ⊢
  rcases h with ⟨rfl, rfl⟩ | ⟨s, rfl, rfl⟩ | ⟨x, hu, hx, hv⟩
  · exact h'
  · exact h'
  · rcases h' with ⟨rfl, -⟩ | ⟨s, rfl, -⟩ | ⟨y, hv', -, hw⟩
    · simp [Value.number?] at hv
    · simp [Value.number?] at hv
    · obtain rfl := Option.some.inj (hv.symm.trans hv')
      exact Or.inr (Or.inr ⟨x, hu, hx, hw⟩)

lemma comparesScalars_loose : ComparesScalars (@looseScalar Str _) where
  list xs v := by cases v <;> simp [looseScalar, Value.number?]
  dict es v := by cases v <;> simp [looseScalar, Value.number?]

lemma comparesScalars_strict : ComparesScalars (@strictScalar Str _) where
  list xs v := by
    obtain ⟨h, h'⟩ := comparesScalars_loose.list xs v
    simp [strictScalar, h, h']
  dict es v := by
    obtain ⟨h, h'⟩ := comparesScalars_loose.dict es v
    simp [strictScalar, h, h']

/-- `==`. -/
def pyEqual (v w : Value Str) : Bool := equalBy looseScalar v w

/-- The values are the same in JSON, types included. -/
def identical (v w : Value Str) : Bool := equalBy strictScalar v w

variable {u v w : Value Str}

lemma pyEqual_trans (h : pyEqual u v = true) (h' : pyEqual v w = true) : pyEqual u w = true :=
  equalBy_trans comparesScalars_loose (fun _ _ _ => looseScalar_trans) h h'

lemma pyEqual_symm (hv : v.IsProper) (hw : w.IsProper) (h : pyEqual v w = true) :
    pyEqual w v = true :=
  equalBy_symm comparesScalars_loose (fun _ _ => looseScalar_symm) hv hw h

mutual

/-- Where both have a scalar in the same place, both are booleans or none is. -/
def booleansMeet : Value Str → Value Str → Bool
  | .list xs, .list ys => booleansMeetItems xs ys
  | .dict es, .dict fs => booleansMeetMembers es fs
  | v, w => (v.jsonType = .boolean) = (w.jsonType = .boolean)

def booleansMeetItems : List (Value Str) → List (Value Str) → Bool
  | v :: xs, w :: ys => booleansMeet v w && booleansMeetItems xs ys
  | _, _ => true

def booleansMeetMembers : Dict Str → Dict Str → Bool
  | [], _ => true
  | (k, v) :: es, fs =>
    (match fs.lookup k with
      | some w => booleansMeet v w
      | none => true) && booleansMeetMembers es fs

end

/-- Values that Python takes for the same are identical in JSON unless a boolean of one stands
where the other has a number. -/
theorem identical_eq (v w : Value Str) : identical v w = (pyEqual v w && booleansMeet v w) := by
  unfold identical pyEqual
  induction v using Value.induction generalizing w with
  | null | bool | int | float | str =>
    rw [equalBy_of_isScalar rfl, equalBy_of_isScalar rfl]
    cases w <;> simp [strictScalar, looseScalar, Value.jsonType, booleansMeet, Value.number?]
  | list xs ih =>
    cases w with
    | list ys =>
      rw [equalBy, equalBy, booleansMeet]
      induction xs generalizing ys with
      | nil => cases ys <;> rfl
      | cons x xs ih' =>
        cases ys with
        | nil => rfl
        | cons y ys =>
          have htail := ih' (fun x hx => ih x (List.mem_cons_of_mem _ hx)) ys
          rw [equalItems, equalItems, booleansMeetItems, ih x List.mem_cons_self, htail]
          ac_rfl
    | _ => simp [equalBy, comparesScalars_strict.list, comparesScalars_loose.list]
  | dict es ih =>
    cases w with
    | dict fs =>
      have hmembers : equalMembers strictScalar es fs =
          (equalMembers looseScalar es fs && booleansMeetMembers es fs) := by
        induction es with
        | nil => rfl
        | cons e es ih' =>
          obtain ⟨k, v⟩ := e
          have htail := ih' fun e he => ih e (List.mem_cons_of_mem _ he)
          rw [equalMembers, equalMembers, booleansMeetMembers, htail]
          cases fs.lookup k with
          | none => rfl
          | some w =>
            dsimp only
            rw [ih (k, v) List.mem_cons_self]
            ac_rfl
      rw [equalBy, equalBy, booleansMeet, hmembers, Bool.and_assoc]
    | _ => simp [equalBy, comparesScalars_strict.dict, comparesScalars_loose.dict]

lemma pyEqual_list {vs ws : List (Value Str)} :
    pyEqual (.list vs) (.list ws) = true ↔ List.Forall₂ (pyEqual · · = true) vs ws := by
  rw [pyEqual, equalBy]
  exact equalItems_iff looseScalar

/-- Objects with the same keys in the same order are compared key by key. -/
lemma pyEqual_dict_map {α : Type} {ms : List α} {f g : α → Str × Value Str}
    (hkeys : ∀ m ∈ ms, (f m).1 = (g m).1) (hnodup : ((ms.map g).map Prod.fst).Nodup) :
    pyEqual (.dict (ms.map f)) (.dict (ms.map g)) = true ↔
      ∀ m ∈ ms, pyEqual (f m).2 (g m).2 = true := by
  have hlookup : ∀ m ∈ ms, (ms.map g).lookup (f m).1 = some (g m).2 := by
    intro m hm
    rw [hkeys m hm]
    exact lookup_of_mem hnodup (List.mem_map_of_mem hm)
  rw [pyEqual, equalBy, Bool.and_eq_true, equalMembers_iff]
  simp only [List.length_map, decide_true, true_and, List.forall_mem_map]
  constructor
  · intro h m hm
    obtain ⟨w, hw, hequal⟩ := h m hm
    obtain rfl := Option.some.inj (hw.symm.trans (hlookup m hm))
    exact hequal
  · exact fun h m hm => ⟨_, hlookup m hm, h m hm⟩

end Json
