import Mathlib

/-!
# Tables, pending writes and the view a transaction has of them

A store is a family of tables keyed by their primary keys. The writes of an open
transaction lie over the committed tables until it commits.
-/
namespace WiseacctSso.ReadCommitted

/-- What a store keeps and what its programs may observe, report and fail with. -/
structure Signature where
  Table : Type
  Key : Type
  Entry : Type
  Row : Table → Type
  /-- The entries of a row in the unique indexes other than the primary key. -/
  uniques : (T : Table) → Row T → List Entry
  Query : Type
  Report : Type
  External : Type
  Error : Type
  tableDecEq : DecidableEq Table
  keyDecEq : DecidableEq Key
  entryDecEq : DecidableEq Entry

attribute [instance] Signature.tableDecEq Signature.keyDecEq Signature.entryDecEq

abbrev Rows (Γ : Signature) (T : Γ.Table) : Type := AList fun _ : Γ.Key => Γ.Row T

abbrev Db (Γ : Signature) : Type := (T : Γ.Table) → Rows Γ T

variable {Γ : Signature}

/-- The row stored under a primary key. -/
def Db.get (db : Db Γ) (T : Γ.Table) (κ : Γ.Key) : Option (Γ.Row T) := (db T).lookup κ

/-- The rows of a table that satisfy a WHERE clause, with their primary keys. -/
def selectRows (db : Db Γ) (T : Γ.Table) (p : Γ.Key → Γ.Row T → Bool) :
    List (Γ.Key × Γ.Row T) :=
  ((db T).entries.map fun e => (e.1, e.2)).filter fun e => p e.1 e.2

/-- The first row a WHERE clause finds, as under LIMIT 1. -/
def firstRow (db : Db Γ) (T : Γ.Table) (p : Γ.Key → Γ.Row T → Bool) :
    Option (Γ.Key × Γ.Row T) :=
  (selectRows db T p).head?

@[simp] lemma mem_selectRows {db : Db Γ} {T : Γ.Table} {p : Γ.Key → Γ.Row T → Bool}
    {κ : Γ.Key} {r : Γ.Row T} :
    (κ, r) ∈ selectRows db T p ↔ db.get T κ = some r ∧ p κ r = true := by
  have hmem : (κ, r) ∈ (db T).entries.map (fun e => (e.1, e.2)) ↔ db.get T κ = some r := by
    rw [List.mem_map, Db.get, ← Option.mem_def, AList.mem_lookup_iff]
    constructor
    · rintro ⟨⟨κ', r'⟩, he, heq⟩
      obtain ⟨rfl, rfl⟩ := Prod.mk.inj heq
      exact he
    · intro he
      exact ⟨⟨κ, r⟩, he, rfl⟩
  rw [selectRows, List.mem_filter, hmem]

lemma firstRow_some {db : Db Γ} {T : Γ.Table} {p : Γ.Key → Γ.Row T → Bool} {κ : Γ.Key}
    {r : Γ.Row T} (h : firstRow db T p = some (κ, r)) :
    db.get T κ = some r ∧ p κ r = true :=
  mem_selectRows.mp (List.mem_of_mem_head? h)

lemma firstRow_none {db : Db Γ} {T : Γ.Table} {p : Γ.Key → Γ.Row T → Bool}
    (h : firstRow db T p = none) {κ : Γ.Key} {r : Γ.Row T} (hr : db.get T κ = some r) :
    p κ r = false := by
  have hnil : selectRows db T p = [] := List.head?_eq_none_iff.mp h
  by_contra hp
  have hm : (κ, r) ∈ selectRows db T p := mem_selectRows.mpr ⟨hr, by simpa using hp⟩
  simp [hnil] at hm

/-- The primary keys of the rows a statement finds when it starts. -/
def matching (db : Db Γ) (T : Γ.Table) (p : Γ.Key → Γ.Row T → Bool) : List Γ.Key :=
  (db T).keys.filter fun κ => (db.get T κ).any (p κ)

lemma matching_nodup (db : Db Γ) (T : Γ.Table) (p : Γ.Key → Γ.Row T → Bool) :
    (matching db T p).Nodup :=
  (AList.keys_nodup (db T)).filter _

@[simp] lemma mem_matching {db : Db Γ} {T : Γ.Table} {p : Γ.Key → Γ.Row T → Bool} {κ : Γ.Key} :
    κ ∈ matching db T p ↔ ∃ r, db.get T κ = some r ∧ p κ r = true := by
  rw [matching, List.mem_filter, ← AList.mem_keys, ← AList.lookup_isSome, ← Db.get]
  cases db.get T κ <;> simp

/-- A unique-index entry is carried by at most one row of its table. -/
def UniqueEntries (db : Db Γ) : Prop :=
  ∀ T κ κ' r r', db.get T κ = some r → db.get T κ' = some r' →
    ∀ e ∈ Γ.uniques T r, e ∈ Γ.uniques T r' → κ = κ'

lemma forall_get_iff {db : Db Γ} {T : Γ.Table} {P : Γ.Key → Γ.Row T → Prop} :
    (∀ κ r, db.get T κ = some r → P κ r) ↔ ∀ x ∈ (db T).entries, P x.1 x.2 :=
  ⟨fun h x hx => h x.1 x.2 (AList.mem_lookup_iff.mpr hx),
    fun h κ r hr => h ⟨κ, r⟩ (AList.mem_lookup_iff.mp hr)⟩

lemma forall_get₂_iff {db : Db Γ} {T : Γ.Table} {P : Γ.Key → Γ.Row T → Γ.Key → Γ.Row T → Prop} :
    (∀ κ κ' r r', db.get T κ = some r → db.get T κ' = some r' → P κ r κ' r') ↔
      ∀ x ∈ (db T).entries, ∀ y ∈ (db T).entries, P x.1 x.2 y.1 y.2 :=
  ⟨fun h x hx y hy => h x.1 y.1 x.2 y.2 (AList.mem_lookup_iff.mpr hx) (AList.mem_lookup_iff.mpr hy),
    fun h κ κ' r r' hr hr' =>
      h ⟨κ, r⟩ (AList.mem_lookup_iff.mp hr) ⟨κ', r'⟩ (AList.mem_lookup_iff.mp hr')⟩

instance [Fintype Γ.Table] (db : Db Γ) : Decidable (UniqueEntries db) :=
  decidable_of_iff (∀ T, ∀ x ∈ (db T).entries, ∀ y ∈ (db T).entries,
      ∀ e ∈ Γ.uniques T x.2, e ∈ Γ.uniques T y.2 → x.1 = y.1)
    (forall_congr' fun T => (forall_get₂_iff
      (P := fun κ r κ' r' => ∀ e ∈ Γ.uniques T r, e ∈ Γ.uniques T r' → κ = κ')).symm)

/-- Some row of the table already carries the entry. -/
def holdsEntry (db : Db Γ) (T : Γ.Table) (e : Γ.Entry) : Bool :=
  (db T).entries.any fun x => decide (e ∈ Γ.uniques T x.2)

lemma holdsEntry_eq_true {db : Db Γ} {T : Γ.Table} {e : Γ.Entry} :
    holdsEntry db T e = true ↔ ∃ κ r, db.get T κ = some r ∧ e ∈ Γ.uniques T r := by
  rw [holdsEntry, List.any_eq_true]
  constructor
  · rintro ⟨⟨κ, r⟩, hx, he⟩
    exact ⟨κ, r, AList.mem_lookup_iff.mpr hx, by simpa using he⟩
  · rintro ⟨κ, r, hr, he⟩
    exact ⟨⟨κ, r⟩, AList.mem_lookup_iff.mp hr, by simpa using he⟩

inductive Write (Γ : Signature)
  | put (T : Γ.Table) (key : Γ.Key) (row : Γ.Row T)
  | erase (T : Γ.Table) (key : Γ.Key)

namespace Write

/-- The table and the primary key a write is about. -/
def place : Write Γ → Γ.Table × Γ.Key
  | .put T κ _ => (T, κ)
  | .erase T κ => (T, κ)

def apply (db : Db Γ) : Write Γ → Db Γ
  | .put T κ row => Function.update db T ((db T).insert κ row)
  | .erase T κ => Function.update db T ((db T).erase κ)

end Write

/-- The tables as a transaction with these pending writes sees them. -/
def view (ws : List (Write Γ)) (db : Db Γ) : Db Γ := ws.foldl Write.apply db

@[simp] lemma view_nil (db : Db Γ) : view [] db = db := rfl

@[simp] lemma view_cons (w : Write Γ) (ws : List (Write Γ)) (db : Db Γ) :
    view (w :: ws) db = view ws (w.apply db) := rfl

lemma view_append (ws ws' : List (Write Γ)) (db : Db Γ) :
    view (ws ++ ws') db = view ws' (view ws db) := List.foldl_append ..

@[simp] lemma view_concat (ws : List (Write Γ)) (w : Write Γ) (db : Db Γ) :
    view (ws ++ [w]) db = w.apply (view ws db) := by
  rw [view_append, view_cons, view_nil]

lemma apply_put_get (db : Db Γ) (T : Γ.Table) (κ κ' : Γ.Key) (row : Γ.Row T) :
    ((Write.put T κ row).apply db).get T κ' =
      if κ' = κ then some row else db.get T κ' := by
  simp only [Write.apply, Db.get, Function.update_self]
  split
  · next h => rw [h, AList.lookup_insert]
  · next h => rw [AList.lookup_insert_ne h]

lemma apply_erase_get (db : Db Γ) (T : Γ.Table) (κ κ' : Γ.Key) :
    ((Write.erase T κ).apply db).get T κ' =
      if κ' = κ then none else db.get T κ' := by
  simp only [Write.apply, Db.get, Function.update_self]
  split
  · next h => rw [h, AList.lookup_erase]
  · next h => rw [AList.lookup_erase_ne h]

lemma apply_of_table_ne {w : Write Γ} {T : Γ.Table} (h : w.place.1 ≠ T) (db : Db Γ) :
    w.apply db T = db T := by
  cases w with
  | put T' κ row => exact Function.update_of_ne (Ne.symm h) _ _
  | erase T' κ => exact Function.update_of_ne (Ne.symm h) _ _

lemma apply_get_of_place_ne {w : Write Γ} {T : Γ.Table} {κ : Γ.Key}
    (h : w.place ≠ (T, κ)) (db : Db Γ) : (w.apply db).get T κ = db.get T κ := by
  by_cases hT : w.place.1 = T
  · cases w with
    | put T' κ' row =>
      obtain rfl : T' = T := hT
      rw [apply_put_get, if_neg (fun hκ => h (by rw [hκ]; rfl))]
    | erase T' κ' =>
      obtain rfl : T' = T := hT
      rw [apply_erase_get, if_neg (fun hκ => h (by rw [hκ]; rfl))]
  · rw [Db.get, apply_of_table_ne hT, Db.get]

lemma view_of_table_ne {ws : List (Write Γ)} {T : Γ.Table} (h : ∀ w ∈ ws, w.place.1 ≠ T)
    (db : Db Γ) : view ws db T = db T := by
  induction ws generalizing db with
  | nil => rfl
  | cons w ws ih =>
    rw [view_cons, ih (fun w' hw' => h w' (by simp [hw'])), apply_of_table_ne (h w (by simp))]

lemma view_get_of_table_ne {ws : List (Write Γ)} {T : Γ.Table} (h : ∀ w ∈ ws, w.place.1 ≠ T)
    (db : Db Γ) (κ : Γ.Key) : (view ws db).get T κ = db.get T κ := by
  rw [Db.get, view_of_table_ne h, Db.get]

/-- A row that no pending write is about shows its committed version. -/
lemma view_get_of_place_ne {ws : List (Write Γ)} {T : Γ.Table} {κ : Γ.Key}
    (h : ∀ w ∈ ws, w.place ≠ (T, κ)) (db : Db Γ) :
    (view ws db).get T κ = db.get T κ := by
  induction ws generalizing db with
  | nil => rfl
  | cons w ws ih =>
    rw [view_cons, ih (fun w' hw' => h w' (by simp [hw'])),
      apply_get_of_place_ne (h w (by simp))]

/-- A row that some pending write is about shows the same version over any tables. -/
lemma view_get_of_place_mem {ws : List (Write Γ)} {T : Γ.Table} {κ : Γ.Key}
    (h : ∃ w ∈ ws, w.place = (T, κ)) (db db' : Db Γ) :
    (view ws db).get T κ = (view ws db').get T κ := by
  induction ws generalizing db db' with
  | nil => simp at h
  | cons w ws ih =>
    by_cases hws : ∃ w' ∈ ws, w'.place = (T, κ)
    · exact ih hws _ _
    have hrest : ∀ w' ∈ ws, w'.place ≠ (T, κ) := fun w' hw' he => hws ⟨w', hw', he⟩
    have hw : w.place = (T, κ) := by
      obtain ⟨w', hw', he⟩ := h
      rcases List.mem_cons.mp hw' with rfl | hw''
      · exact he
      · exact absurd he (hrest w' hw'')
    rw [view_cons, view_cons, view_get_of_place_ne hrest, view_get_of_place_ne hrest]
    cases w with
    | put T' κ' row =>
      obtain ⟨rfl, rfl⟩ := Prod.mk.inj hw
      simp [apply_put_get]
    | erase T' κ' =>
      obtain ⟨rfl, rfl⟩ := Prod.mk.inj hw
      simp [apply_erase_get]

lemma view_concat_put_get (ws : List (Write Γ)) (db : Db Γ) (T : Γ.Table) (κ κ' : Γ.Key)
    (row : Γ.Row T) : (view (ws ++ [.put T κ row]) db).get T κ' =
      if κ' = κ then some row else (view ws db).get T κ' := by
  rw [view_concat, apply_put_get]

/-- Tables that agree on one row agree on it under the same pending writes. -/
lemma view_get_congr {db db' : Db Γ} {T : Γ.Table} {κ : Γ.Key}
    (h : db.get T κ = db'.get T κ) (ws : List (Write Γ)) :
    (view ws db).get T κ = (view ws db').get T κ := by
  by_cases hws : ∃ w ∈ ws, w.place = (T, κ)
  · exact view_get_of_place_mem hws db db'
  · have hne : ∀ w ∈ ws, w.place ≠ (T, κ) := fun w hw he => hws ⟨w, hw, he⟩
    rw [view_get_of_place_ne hne, view_get_of_place_ne hne, h]

end WiseacctSso.ReadCommitted
