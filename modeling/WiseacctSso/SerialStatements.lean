import WiseacctSso.ReadCommittedEffects

/-!
# Statements of a transaction that has the tables to itself

An UPDATE or DELETE of a serializable transaction is a function of the tables. It fails
where a unique index of its table would be violated.
-/
namespace WiseacctSso.ReadCommitted

variable {Γ : Signature} {T : Γ.Table}

/-- The unique indexes of one table. -/
def UniqueIn (db : Db Γ) (T : Γ.Table) : Prop :=
  ∀ κ κ' r r', db.get T κ = some r → db.get T κ' = some r' →
    ∀ e ∈ Γ.uniques T r, e ∈ Γ.uniques T r' → κ = κ'

lemma uniqueIn_iff {db : Db Γ} {T : Γ.Table} : (∀ x ∈ (db T).entries, ∀ y ∈ (db T).entries,
      ∀ e ∈ Γ.uniques T x.2, (Γ.uniques T y.2).contains e = true → x.1 = y.1) ↔
    UniqueIn db T := by
  simp only [List.contains_iff_mem]
  exact (forall_get₂_iff
    (P := fun κ r κ' r' => ∀ e ∈ Γ.uniques T r, e ∈ Γ.uniques T r' → κ = κ')).symm

instance (db : Db Γ) (T : Γ.Table) : Decidable (UniqueIn db T) :=
  decidable_of_iff _ uniqueIn_iff

/-- The row becomes what the statement makes of it, or goes. -/
def rewrite (T : Γ.Table) (κ : Γ.Key) : Option (Γ.Row T) → Write Γ
  | none => .erase T κ
  | some r => .put T κ r

/-- Each row of a WHERE clause becomes what `f` makes of it. -/
def rewriteRows (db : Db Γ) (T : Γ.Table) (p : Γ.Key → Γ.Row T → Bool)
    (f : Γ.Row T → Option (Γ.Row T)) : Db Γ :=
  view ((selectRows db T p).map fun x => rewrite T x.1 (f x.2)) db

lemma rewrite_place (κ : Γ.Key) (r : Option (Γ.Row T)) : (rewrite T κ r).place = (T, κ) := by
  cases r <;> rfl

lemma rewrite_get (db : Db Γ) (κ : Γ.Key) (r : Option (Γ.Row T)) :
    ((rewrite T κ r).apply db).get T κ = r := by
  cases r with
  | none => exact (apply_erase_get db T κ κ).trans (if_pos rfl)
  | some r => exact (apply_put_get db T κ κ r).trans (if_pos rfl)

lemma view_rewrites_of_mem {rows : List (Γ.Key × Γ.Row T)} (hrows : (rows.map Prod.fst).Nodup)
    {κ : Γ.Key} {r : Γ.Row T} (h : (κ, r) ∈ rows) (f : Γ.Row T → Option (Γ.Row T)) (db : Db Γ) :
    (view (rows.map fun x => rewrite T x.1 (f x.2)) db).get T κ = f r := by
  induction rows generalizing db with
  | nil => simp at h
  | cons x rows ih =>
    obtain ⟨hx, hrest⟩ := List.nodup_cons.mp hrows
    rw [List.map_cons, view_cons]
    rcases List.mem_cons.mp h with rfl | h
    · rw [view_get_of_place_ne, rewrite_get]
      intro w hw hplace
      obtain ⟨y, hy, rfl⟩ := List.mem_map.mp hw
      rw [rewrite_place] at hplace
      exact hx (List.mem_map.mpr ⟨y, hy, (Prod.mk.inj hplace).2⟩)
    · exact ih hrest h _

lemma selectRows_nodup (db : Db Γ) (T : Γ.Table) (p : Γ.Key → Γ.Row T → Bool) :
    ((selectRows db T p).map Prod.fst).Nodup := by
  have hkeys : (((db T).entries.map fun e => (e.1, e.2)).map Prod.fst) = (db T).keys := by
    rw [List.map_map]
    rfl
  refine List.Nodup.sublist (List.filter_sublist.map _) ?_
  rw [hkeys]
  exact AList.keys_nodup (db T)

theorem rewriteRows_get (db : Db Γ) (p : Γ.Key → Γ.Row T → Bool)
    (f : Γ.Row T → Option (Γ.Row T)) (κ : Γ.Key) :
    (rewriteRows db T p f).get T κ =
      (db.get T κ).bind fun r => if p κ r then f r else some r := by
  by_cases hfound : ∃ r, (κ, r) ∈ selectRows db T p
  · obtain ⟨r, hr⟩ := hfound
    obtain ⟨hget, hp⟩ := mem_selectRows.mp hr
    rw [rewriteRows, view_rewrites_of_mem (selectRows_nodup db T p) hr, hget, Option.bind_some,
      if_pos hp]
  · have hkept : (rewriteRows db T p f).get T κ = db.get T κ := by
      refine view_get_of_place_ne (fun w hw hplace => hfound ?_) db
      obtain ⟨⟨κ', r⟩, hr, rfl⟩ := List.mem_map.mp hw
      rw [rewrite_place] at hplace
      exact ⟨r, (Prod.mk.inj hplace).2 ▸ hr⟩
    rw [hkept]
    cases hget : db.get T κ with
    | none => rfl
    | some r =>
      have hp : ¬ p κ r = true := fun hp => hfound ⟨r, mem_selectRows.mpr ⟨hget, hp⟩⟩
      rw [Option.bind_some, if_neg hp]

theorem rewriteRows_other (db : Db Γ) (p : Γ.Key → Γ.Row T → Bool)
    (f : Γ.Row T → Option (Γ.Row T)) {T' : Γ.Table} (hT : T' ≠ T) :
    rewriteRows db T p f T' = db T' := by
  refine view_of_table_ne (fun w hw hplace => hT ?_) db
  obtain ⟨x, -, rfl⟩ := List.mem_map.mp hw
  rw [rewrite_place] at hplace
  exact hplace.symm

lemma rewriteRows_get_other (db : Db Γ) (p : Γ.Key → Γ.Row T → Bool)
    (f : Γ.Row T → Option (Γ.Row T)) {T' : Γ.Table} (hT : T' ≠ T) (κ : Γ.Key) :
    (rewriteRows db T p f).get T' κ = db.get T' κ := by
  rw [Db.get, rewriteRows_other db p f hT, Db.get]

/-! ## Statements -/

/-- An UPDATE; `none` when it would violate a unique index. -/
def updateTable (db : Db Γ) (T : Γ.Table) (p : Γ.Key → Γ.Row T → Bool)
    (assign : Γ.Row T → Γ.Row T) : Option (Db Γ) :=
  let after := rewriteRows db T p fun r => some (assign r)
  if UniqueIn after T then some after else none

def deleteFrom (db : Db Γ) (T : Γ.Table) (p : Γ.Key → Γ.Row T → Bool) : Db Γ :=
  rewriteRows db T p fun _ => none

/-- How many rows a statement over a WHERE clause touches. -/
def rowcount (db : Db Γ) (T : Γ.Table) (p : Γ.Key → Γ.Row T → Bool) : ℕ :=
  (selectRows db T p).length

lemma updateTable_get {db after : Db Γ} {p : Γ.Key → Γ.Row T → Bool} {assign : Γ.Row T → Γ.Row T}
    (h : updateTable db T p assign = some after) (κ : Γ.Key) :
    after.get T κ = (db.get T κ).map fun r => if p κ r then assign r else r := by
  simp only [updateTable] at h
  split at h
  · obtain rfl := Option.some.inj h
    rw [rewriteRows_get]
    cases db.get T κ with
    | none => rfl
    | some r =>
      simp only [Option.bind_some, Option.map_some]
      split <;> rfl
  · simp at h

lemma updateTable_other {db after : Db Γ} {p : Γ.Key → Γ.Row T → Bool}
    {assign : Γ.Row T → Γ.Row T} (h : updateTable db T p assign = some after) {T' : Γ.Table}
    (hT : T' ≠ T) : after T' = db T' := by
  simp only [updateTable] at h
  split at h
  · exact Option.some.inj h ▸ rewriteRows_other db p _ hT
  · simp at h

lemma uniqueIn_of_same {db db' : Db Γ} (h : db' T = db T) (hunique : UniqueIn db T) :
    UniqueIn db' T := by
  intro κ κ' r r' hr hr'
  rw [Db.get, h] at hr hr'
  exact hunique κ κ' r r' hr hr'

lemma updateTable_unique {db after : Db Γ} {p : Γ.Key → Γ.Row T → Bool}
    {assign : Γ.Row T → Γ.Row T} (h : updateTable db T p assign = some after)
    (hunique : UniqueEntries db) : UniqueEntries after := by
  intro T'
  by_cases hT : T' = T
  · subst hT
    simp only [updateTable] at h
    split at h
    · next hafter => exact Option.some.inj h ▸ hafter
    · simp at h
  · exact uniqueIn_of_same (updateTable_other h hT) (hunique T')

lemma deleteFrom_get (db : Db Γ) (p : Γ.Key → Γ.Row T → Bool) (κ : Γ.Key) :
    (deleteFrom db T p).get T κ = (db.get T κ).filter fun r => !p κ r := by
  rw [deleteFrom, rewriteRows_get]
  cases db.get T κ with
  | none => rfl
  | some r => cases hp : p κ r <;> simp [hp, Option.filter]

lemma deleteFrom_unique {db : Db Γ} {p : Γ.Key → Γ.Row T → Bool} (hunique : UniqueEntries db) :
    UniqueEntries (deleteFrom db T p) := by
  intro T'
  by_cases hT : T' = T
  · subst hT
    intro κ κ' r r' hr hr'
    rw [deleteFrom_get, Option.filter_eq_some_iff] at hr hr'
    exact hunique T' κ κ' r r' hr.1 hr'.1
  · exact uniqueIn_of_same (rewriteRows_other db p _ hT) (hunique T')

/-- An UPDATE of one row succeeds exactly if no other row has an entry the row is given. -/
lemma updateTable_single {db : Db Γ} (hunique : UniqueIn db T) {p : Γ.Key → Γ.Row T → Bool}
    {assign : Γ.Row T → Γ.Row T} {κ : Γ.Key} {r : Γ.Row T} (hr : db.get T κ = some r)
    (hp : p κ r = true) (honly : ∀ κ' r', db.get T κ' = some r' → p κ' r' = true → κ' = κ) :
    (∃ after, updateTable db T p assign = some after) ↔ ∀ κ' r', db.get T κ' = some r' → κ' ≠ κ →
      ∀ e ∈ Γ.uniques T r', e ∉ Γ.uniques T (assign r) := by
  have hself : (rewriteRows db T p fun r => some (assign r)).get T κ = some (assign r) := by
    rw [rewriteRows_get, hr, Option.bind_some, if_pos hp]
  have hother : ∀ κ', κ' ≠ κ →
      (rewriteRows db T p fun r => some (assign r)).get T κ' = db.get T κ' := by
    intro κ' hne
    rw [rewriteRows_get]
    cases hr' : db.get T κ' with
    | none => rfl
    | some r' => rw [Option.bind_some, if_neg fun hp' => hne (honly κ' r' hr' hp')]
  have hiff : (∃ after, updateTable db T p assign = some after) ↔
      UniqueIn (rewriteRows db T p fun r => some (assign r)) T := by
    unfold updateTable
    dsimp only
    split
    · next h => exact ⟨fun _ => h, fun _ => ⟨_, rfl⟩⟩
    · next h => simp [h]
  rw [hiff]
  constructor
  · intro hafter κ' r' hr' hne e he he'
    exact hne (hafter κ' κ r' (assign r) ((hother κ' hne).trans hr') hself e he he')
  · intro hfree κ₁ κ₂ r₁ r₂ h₁ h₂ e he₁ he₂
    by_cases hκ₁ : κ₁ = κ <;> by_cases hκ₂ : κ₂ = κ
    · rw [hκ₁, hκ₂]
    · obtain rfl : assign r = r₁ := Option.some.inj (hself.symm.trans (hκ₁ ▸ h₁))
      exact absurd he₁ (hfree κ₂ r₂ ((hother κ₂ hκ₂).symm.trans h₂) hκ₂ e he₂)
    · obtain rfl : assign r = r₂ := Option.some.inj (hself.symm.trans (hκ₂ ▸ h₂))
      exact absurd he₂ (hfree κ₁ r₁ ((hother κ₁ hκ₁).symm.trans h₁) hκ₁ e he₁)
    · rw [hother κ₁ hκ₁] at h₁
      rw [hother κ₂ hκ₂] at h₂
      exact hunique κ₁ κ₂ r₁ r₂ h₁ h₂ e he₁ he₂

/-- A WHERE clause that only one key can match finds that row, or none. -/
lemma rowcount_keyed {db : Db Γ} {p : Γ.Key → Γ.Row T → Bool} {κ : Γ.Key} {r : Γ.Row T}
    (hr : db.get T κ = some r) (hp : p κ r = true)
    (honly : ∀ κ' r', db.get T κ' = some r' → p κ' r' = true → κ' = κ) :
    rowcount db T p = 1 := by
  have hmem : (κ, r) ∈ selectRows db T p := mem_selectRows.mpr ⟨hr, hp⟩
  have hkey : ∀ x ∈ selectRows db T p, x.1 = κ := fun x hx =>
    honly x.1 x.2 (mem_selectRows.mp hx).1 (mem_selectRows.mp hx).2
  have hnodup := selectRows_nodup db T p
  unfold rowcount
  revert hmem hkey hnodup
  generalize selectRows db T p = rows
  intro hmem hkey hnodup
  match rows, hmem, hkey, hnodup with
  | [x], _, _, _ => rfl
  | x :: y :: rest, _, hkey, hnodup =>
    have hxy : x.1 = y.1 := (hkey x (by simp)).trans (hkey y (by simp)).symm
    simp [hxy] at hnodup

end WiseacctSso.ReadCommitted
