import WiseacctSso.Json

/-!
# Members of JSON objects

Induction over a JSON value, and the members of an object in the order of their keys.
-/
namespace Json

section size

variable {Str : Type} [SizeOf Str]

lemma Value.sizeOf_item {v : Value Str} {items : List (Value Str)} (h : v ∈ items) :
    sizeOf v < sizeOf (Value.list items) := by
  have hlt := List.sizeOf_lt_of_mem h
  rw [Value.list.sizeOf_spec]
  omega

lemma Value.sizeOf_member {e : Str × Value Str} {entries : List (Str × Value Str)}
    (h : e ∈ entries) : sizeOf e.2 < sizeOf (Value.dict entries) := by
  have hlt := List.sizeOf_lt_of_mem h
  have hpair : sizeOf e = 1 + sizeOf e.1 + sizeOf e.2 := rfl
  rw [Value.dict.sizeOf_spec]
  omega

end size

@[elab_as_elim]
theorem Value.induction {Str : Type} {motive : Value Str → Prop} (null : motive .null)
    (bool : ∀ b, motive (.bool b)) (int : ∀ z, motive (.int z)) (float : ∀ f, motive (.float f))
    (str : ∀ s, motive (.str s))
    (list : ∀ items, (∀ v ∈ items, motive v) → motive (.list items))
    (dict : ∀ entries, (∀ e ∈ entries, motive e.2) → motive (.dict entries)) (v : Value Str) :
    motive v :=
  match v with
  | .null => null
  | .bool b => bool b
  | .int z => int z
  | .float f => float f
  | .str s => str s
  | .list items => list items fun v _ => Value.induction null bool int float str list dict v
  | .dict entries =>
    dict entries fun e _he => Value.induction null bool int float str list dict e.2
termination_by v
decreasing_by
  · exact Value.sizeOf_item ‹_›
  · exact Value.sizeOf_member _he

section sort

variable {Str α β : Type} [LinearOrder Str]

/-- `sorted(d.items())` of entries with different keys. -/
def sortByKey (entries : List (Str × α)) : List (Str × α) :=
  entries.insertionSort fun e f => e.1 ≤ f.1

@[simp] lemma mem_sortByKey {entries : List (Str × α)} {e : Str × α} :
    e ∈ sortByKey entries ↔ e ∈ entries := List.mem_insertionSort _

lemma sortByKey_sortByKey (entries : List (Str × α)) :
    sortByKey (sortByKey entries) = sortByKey entries := by
  have : Std.Total fun e f : Str × α => e.1 ≤ f.1 := ⟨fun e f => le_total e.1 f.1⟩
  have : IsTrans (Str × α) fun e f => e.1 ≤ f.1 := ⟨fun _ _ _ => le_trans⟩
  exact (List.pairwise_insertionSort _ entries).insertionSort_eq

lemma nodup_keys_sortByKey {entries : List (Str × α)} (h : (entries.map Prod.fst).Nodup) :
    ((sortByKey entries).map Prod.fst).Nodup :=
  ((List.perm_insertionSort _ entries).map Prod.fst).nodup_iff.mpr h

variable {R : Str × α → Str × β → Prop}

lemma forall₂_orderedInsert (hkey : ∀ e f, R e f → e.1 = f.1) {e : Str × α} {f : Str × β}
    {es : List (Str × α)} {fs : List (Str × β)} (h : R e f) (hs : List.Forall₂ R es fs) :
    List.Forall₂ R (es.orderedInsert (fun x y => x.1 ≤ y.1) e)
      (fs.orderedInsert (fun x y => x.1 ≤ y.1) f) := by
  induction hs with
  | nil => exact .cons h .nil
  | @cons x y xs ys hxy hrest ih =>
    rw [List.orderedInsert_cons, List.orderedInsert_cons, hkey e f h, hkey x y hxy]
    split_ifs
    · exact .cons h (.cons hxy hrest)
    · exact .cons hxy ih

/-- Sorting keeps together what has the same key. -/
lemma forall₂_sortByKey (hkey : ∀ e f, R e f → e.1 = f.1) {es : List (Str × α)}
    {fs : List (Str × β)} (hs : List.Forall₂ R es fs) :
    List.Forall₂ R (sortByKey es) (sortByKey fs) := by
  induction hs with
  | nil => exact .nil
  | cons h _ ih => exact forall₂_orderedInsert hkey h ih

end sort

end Json
