import WiseacctSso.ReadCommittedRules

/-!
# Effects of statements

What one statement does between the tables its transaction saw before it and those it
sees after it. The effect holds at every later moment of the transaction, in particular
at its commit.
-/
namespace WiseacctSso.ReadCommitted

variable {Γ : Signature} {T : Γ.Table}

/-- Each row of `done` has become what `f` makes of it. -/
structure Rewritten (T : Γ.Table) (f : Γ.Row T → Option (Γ.Row T))
    (done : List (Γ.Key × Γ.Row T)) (before after : Db Γ) : Prop where
  found : ∀ κ r, (κ, r) ∈ done → before.get T κ = some r
  changed : ∀ κ r, (κ, r) ∈ done → after.get T κ = f r
  kept : ∀ κ, (∀ r, (κ, r) ∉ done) → after.get T κ = before.get T κ
  other : ∀ T', T' ≠ T → after T' = before T'

/-- A row has gone in under a free key. -/
structure Inserted (T : Γ.Table) (κ : Γ.Key) (row : Γ.Row T) (before after : Db Γ) : Prop where
  absent : before.get T κ = none
  lookup : ∀ κ', after.get T κ' = if κ' = κ then some row else before.get T κ'
  other : ∀ T', T' ≠ T → after T' = before T'

lemma Rewritten.get_other {f : Γ.Row T → Option (Γ.Row T)} {done : List (Γ.Key × Γ.Row T)}
    {before after : Db Γ} (h : Rewritten T f done before after) {T' : Γ.Table} (hT : T' ≠ T)
    (κ : Γ.Key) : after.get T' κ = before.get T' κ := by
  rw [Db.get, h.other T' hT, Db.get]

lemma Inserted.get_other {κ : Γ.Key} {row : Γ.Row T} {before after : Db Γ}
    (h : Inserted T κ row before after) {T' : Γ.Table} (hT : T' ≠ T) (κ' : Γ.Key) :
    after.get T' κ' = before.get T' κ' := by
  rw [Db.get, h.other T' hT, Db.get]

lemma Inserted.self {κ : Γ.Key} {row : Γ.Row T} {before after : Db Γ}
    (h : Inserted T κ row before after) : after.get T κ = some row := by
  rw [h.lookup, if_pos rfl]

/-- Rows that were there stay as they were. -/
lemma Inserted.keeps {κ κ' : Γ.Key} {row r : Γ.Row T} {before after : Db Γ}
    (h : Inserted T κ row before after) (hr : before.get T κ' = some r) :
    after.get T κ' = some r := by
  have hne : κ' ≠ κ := by
    rintro rfl
    simp [h.absent] at hr
  rw [h.lookup, if_neg hne, hr]

/-- Rows of every table stay as they were. -/
lemma Inserted.keepsAll {κ : Γ.Key} {row : Γ.Row T} {before after : Db Γ}
    (h : Inserted T κ row before after) {T' : Γ.Table} {κ' : Γ.Key} {r : Γ.Row T'}
    (hr : before.get T' κ' = some r) : after.get T' κ' = some r := by
  by_cases hT : T' = T
  · subst hT
    exact h.keeps hr
  · exact (h.get_other hT κ').trans hr

/-- Each row either stays or is one that the statement found and changed. -/
lemma Rewritten.cases {f : Γ.Row T → Option (Γ.Row T)} {done : List (Γ.Key × Γ.Row T)}
    {before after : Db Γ} (h : Rewritten T f done before after) (κ : Γ.Key) :
    after.get T κ = before.get T κ ∨
      ∃ r, (κ, r) ∈ done ∧ before.get T κ = some r ∧ after.get T κ = f r := by
  by_cases hm : ∃ r, (κ, r) ∈ done
  · obtain ⟨r, hr⟩ := hm
    exact .inr ⟨r, hr, h.found κ r hr, h.changed κ r hr⟩
  · exact .inl (h.kept κ fun r hr => hm ⟨r, hr⟩)

/-- The one row a statement found is changed; the others stay. -/
lemma Rewritten.single {f : Γ.Row T → Option (Γ.Row T)} {id : Γ.Key} {r : Γ.Row T}
    {before after : Db Γ} (h : Rewritten T f [(id, r)] before after) (κ : Γ.Key) :
    after.get T κ = if κ = id then f r else before.get T κ := by
  split
  · next hκ => exact hκ ▸ h.changed id r (by simp)
  · next hκ =>
    refine h.kept κ fun r' hr' => hκ ?_
    exact (Prod.mk.inj (List.mem_singleton.mp hr')).1

variable {G : Guarantee Γ} {t : ℕ} {s s₁ : Shared Γ} {ws ws₁ : List (Write Γ)}

/-- A statement over the rows of a WHERE clause that started in `s` has ended in `s₁`. -/
structure Ran (G : Guarantee Γ) (t : ℕ) (T : Γ.Table) (p : Γ.Key → Γ.Row T → Bool)
    (f : Γ.Row T → Option (Γ.Row T)) (s : Shared Γ) (ws : List (Write Γ))
    (s₁ : Shared Γ) (ws₁ : List (Write Γ)) (done : List (Γ.Key × Γ.Row T)) : Prop where
  follows : Follows G t s s₁
  matched : ∀ κ r, (κ, r) ∈ done → p κ r = true
  owner : ∀ κ r, (κ, r) ∈ done → s₁.owner (.row T κ) = some t
  effect : ∀ s', Follows G t s₁ s' → Rewritten T f done (view ws s'.db) (view ws₁ s'.db)
  snapshot : ∃ s₀, Follows G t s s₀ ∧ Follows G t s₀ s₁ ∧
    ∀ κ r, (view ws s₀.db).get T κ = some r → p κ r = true → (∃ r', (κ, r') ∈ done) ∨
      ∃ sv, Follows G t s₀ sv ∧ Follows G t sv s₁ ∧
        ∀ r', (view ws sv.db).get T κ = some r' → p κ r' = false

namespace Ran

variable {p : Γ.Key → Γ.Row T → Bool} {f : Γ.Row T → Option (Γ.Row T)}
  {done : List (Γ.Key × Γ.Row T)}

/-- A row that matched from the start on until now is one of those the statement found. -/
lemma complete (h : Ran G t T p f s ws s₁ ws₁ done) {s' : Shared Γ} (hs' : Follows G t s₁ s')
    {κ : Γ.Key} {r : Γ.Row T} (hp : p κ r = true)
    (hr : ∀ sv, Follows G t s sv → Follows G t sv s' → (view ws sv.db).get T κ = some r) :
    (κ, r) ∈ done := by
  obtain ⟨s₀, hs₀, hs₁, hall⟩ := h.snapshot
  have hfound : ∃ r', (κ, r') ∈ done := by
    rcases hall κ r (hr s₀ hs₀ (hs₁.trans hs')) hp with hdone | ⟨sv, hsv, hsv', hn⟩
    · exact hdone
    · have hnow := hn r (hr sv (hs₀.trans hsv) (hsv'.trans hs'))
      rw [hp] at hnow
      exact absurd hnow (by simp)
  obtain ⟨r', hr'⟩ := hfound
  have hget := (h.effect s' hs').found κ r' hr'
  rw [hr s' (h.follows.trans hs') (.refl hs'.valid)] at hget
  rwa [Option.some.inj hget]

/-- A statement that found nothing has met each row unmatched. -/
lemma missed (h : Ran G t T p f s ws s₁ ws₁ []) (κ : Γ.Key) : ∃ sv, Follows G t s sv ∧
    Follows G t sv s₁ ∧ ∀ r, (view ws sv.db).get T κ = some r → p κ r = false := by
  obtain ⟨s₀, hs₀, hs₁, hall⟩ := h.snapshot
  by_cases hmatch : ∃ r, (view ws s₀.db).get T κ = some r ∧ p κ r = true
  · obtain ⟨r, hr, hp⟩ := hmatch
    rcases hall κ r hr hp with ⟨r', hr'⟩ | ⟨sv, hsv, hsv', hn⟩
    · simp at hr'
    · exact ⟨sv, hs₀.trans hsv, hsv', hn⟩
  · refine ⟨s₀, hs₀, hs₁, fun r hr => ?_⟩
    by_contra hp
    exact hmatch ⟨r, hr, by simpa using hp⟩

/-- A WHERE clause on the primary key finds no row or that row. -/
lemma nil_or_single (id : Γ.Key) (h : Ran G t T p f s ws s₁ ws₁ done)
    (hnodup : (done.map Prod.fst).Nodup) (hp : ∀ κ r, p κ r = true → κ = id) :
    done = [] ∨ ∃ r, done = [(id, r)] := by
  have hkey : ∀ x ∈ done, x.1 = id := fun x hx => hp x.1 x.2 (h.matched x.1 x.2 hx)
  match done, hnodup, hkey with
  | [], _, _ => exact .inl rfl
  | [(κ, r)], _, hkey =>
    obtain rfl : κ = id := hkey (κ, r) (by simp)
    exact .inr ⟨r, rfl⟩
  | x :: y :: rest, hnodup, hkey =>
    have hxy : x.1 = y.1 := (hkey x (by simp)).trans (hkey y (by simp)).symm
    simp [hxy] at hnodup

end Ran

lemma rewritten_of_swept {p : Γ.Key → Γ.Row T → Bool} {effect : Effect Γ T}
    {f : Γ.Row T → Option (Γ.Row T)} {keys : List Γ.Key} {s₀ : Shared Γ}
    {done : List (Γ.Key × Γ.Row T)}
    (hf : ∀ κ r ws db, (view ws db).get T κ = some r →
      (view (ws ++ effect.writes κ r) db).get T κ = f r)
    (hd : Swept G t T p keys ws s₀ s₁ done) {s' : Shared Γ} (hs' : Follows G t s₁ s') :
    Rewritten T f done (view ws s'.db) (view (ws ++ sweepWrites effect done) s'.db) := by
  have hfound : ∀ κ r, (κ, r) ∈ done → (view ws s'.db).get T κ = some r := by
    intro κ r hr
    obtain ⟨-, ho, hget⟩ := hd.found κ r hr
    rwa [hs'.view_get ho]
  refine ⟨hfound, fun κ r hr => ?_, fun κ hκ => view_sweep_of_notMem hκ ws s'.db, fun T' hT => ?_⟩
  · rw [view_sweep_of_mem hd.nodup hr]
    exact hf κ r ws s'.db (hfound κ r hr)
  · rw [view_append]
    exact view_of_table_ne (fun w hw he => hT (he.symm.trans (sweepWrites_table hw))) _

lemma ran_of_swept {p : Γ.Key → Γ.Row T → Bool} {effect : Effect Γ T}
    {f : Γ.Row T → Option (Γ.Row T)} {s₀ : Shared Γ} {done : List (Γ.Key × Γ.Row T)}
    (hf : ∀ κ r ws db, (view ws db).get T κ = some r →
      (view (ws ++ effect.writes κ r) db).get T κ = f r)
    (hs₀ : Follows G t s s₀)
    (hd : Swept G t T p (matching (view ws s₀.db) T p) ws s₀ s₁ done) :
    Ran G t T p f s ws s₁ (ws ++ sweepWrites effect done) done where
  follows := hs₀.trans hd.follows
  matched κ r hr := (hd.found κ r hr).1
  owner κ r hr := (hd.found κ r hr).2.1
  effect _ hs' := rewritten_of_swept hf hd hs'
  snapshot := ⟨s₀, hs₀, hd.follows, fun κ r hr hp => hd.missed κ (mem_matching.mpr ⟨r, hr, hp⟩)⟩

theorem wp_updateRows {p : Γ.Key → Γ.Row T → Bool} {assign : Γ.Row T → Γ.Row T}
    {uniques_eq : ∀ r, Γ.uniques T (assign r) = Γ.uniques T r}
    {Q : Post Γ (List (Γ.Key × Γ.Row T))}
    (h : ∀ s₁ ws₁ done, (done.map Prod.fst).Nodup →
      Ran G t T p (fun r => some (assign r)) s ws s₁ ws₁ done → Q.ret done s₁ ws₁) :
    wp G t (updateRows T p assign uniques_eq) Q s ws := by
  refine wp_sweep fun s₀ s₁ done hs₀ hd => h s₁ _ done hd.nodup (ran_of_swept ?_ hs₀ hd)
  intro κ r ws db _
  exact (view_concat_put_get ws db T κ κ (assign r)).trans (if_pos rfl)

theorem wp_deleteRows {p : Γ.Key → Γ.Row T → Bool} {Q : Post Γ (List (Γ.Key × Γ.Row T))}
    (h : ∀ s₁ ws₁ done, (done.map Prod.fst).Nodup →
      Ran G t T p (fun _ => none) s ws s₁ ws₁ done → Q.ret done s₁ ws₁) :
    wp G t (deleteRows T p) Q s ws := by
  refine wp_sweep fun s₀ s₁ done hs₀ hd => h s₁ _ done hd.nodup (ran_of_swept ?_ hs₀ hd)
  intro κ r ws db _
  change (view (ws ++ [.erase T κ]) db).get T κ = none
  rw [view_concat, apply_erase_get, if_pos rfl]

lemma inserted_put {κ : Γ.Key} {row : Γ.Row T} {db : Db Γ}
    (habsent : (view ws db).get T κ = none) :
    Inserted T κ row (view ws db) (view (ws ++ [.put T κ row]) db) where
  absent := habsent
  lookup κ' := view_concat_put_get ws db T κ κ' row
  other T' hT := by
    rw [view_concat]
    exact apply_of_table_ne (fun he => hT he.symm) _

/-- Process `t` has put in a row in `s₁`, with its entries claimed. -/
structure Put (G : Guarantee Γ) (t : ℕ) (T : Γ.Table) (κ : Γ.Key) (row : Γ.Row T)
    (s : Shared Γ) (ws : List (Write Γ)) (s₁ : Shared Γ) (ws₁ : List (Write Γ)) : Prop where
  follows : Follows G t s s₁
  owner : s₁.owner (.row T κ) = some t
  effect : ∀ s', Follows G t s₁ s' → Inserted T κ row (view ws s'.db) (view ws₁ s'.db)

lemma put_of_insert {κ : Γ.Key} {row : Γ.Row T} {s₀ : Shared Γ} (hs₀ : Follows G t s s₀)
    (habsent : (view ws s₀.db).get T κ = none) :
    Put G t T κ row s ws (s₀.acquire t (rowLocks T κ row)) (ws ++ [.put T κ row]) := by
  have hacq : Follows G t s₀ (s₀.acquire t (rowLocks T κ row)) := .acquire hs₀.valid _
  have ho : (s₀.acquire t (rowLocks T κ row)).owner (.row T κ) = some t :=
    acquire_owner_self List.mem_cons_self
  refine ⟨hs₀.trans hacq, ho, fun s' hs' => inserted_put ?_⟩
  rw [hs'.view_get ho]
  exact habsent

theorem wp_putRow {duplicate : Γ.Error} {κ : Γ.Key} {row : Γ.Row T} {Q : Post Γ Unit}
    (hraise : ∀ s', Follows G t s s' → Q.raise duplicate s' ws)
    (hput : ∀ s₁ ws₁, Put G t T κ row s ws s₁ ws₁ → Q.ret () s₁ ws₁) :
    wp G t (insertRow duplicate T κ row) Q s ws :=
  wp_insertRow hraise fun _ hs' habsent _ => hput _ _ (put_of_insert hs' habsent)

theorem wp_putOrSkip {duplicate : Γ.Error} {κ : Γ.Key} {row : Γ.Row T} {Q : Post Γ Bool}
    (hraise : ∀ s', Follows G t s s' → Q.raise duplicate s' ws)
    (hskip : ∀ s', Follows G t s s' →
      (Γ.uniques T row).any (holdsEntry (view ws s'.db) T) = true → Q.ret false s' ws)
    (hput : ∀ s₁ ws₁, Put G t T κ row s ws s₁ ws₁ → Q.ret true s₁ ws₁) :
    wp G t (insertOrSkip duplicate T κ row) Q s ws :=
  wp_insertOrSkip hraise hskip fun _ hs' habsent _ => hput _ _ (put_of_insert hs' habsent)

/-! ## Rows taken out and put back -/

/-- The rows are back under their keys, as `assign` makes them. -/
structure Restored (T : Γ.Table) (assign : Γ.Row T → Γ.Row T) (rows : List (Γ.Key × Γ.Row T))
    (before after : Db Γ) : Prop where
  changed : ∀ κ r, (κ, r) ∈ rows → after.get T κ = some (assign r)
  kept : ∀ κ, (∀ r, (κ, r) ∉ rows) → after.get T κ = before.get T κ
  other : ∀ T', T' ≠ T → after T' = before T'

theorem wp_reinsert {duplicate : Γ.Error} {assign : Γ.Row T → Γ.Row T}
    {rows : List (Γ.Key × Γ.Row T)} (hrows : (rows.map Prod.fst).Nodup) {Q : Post Γ Unit}
    (hv : s.log.Valid G) (hraise : ∀ s' ws', Follows G t s s' → Q.raise duplicate s' ws')
    (h : ∀ s₁ ws₁, Follows G t s s₁ → (∀ s', Follows G t s₁ s' →
      Restored T assign rows (view ws s'.db) (view ws₁ s'.db)) → Q.ret () s₁ ws₁) :
    wp G t (reinsert duplicate T assign rows) Q s ws := by
  induction rows generalizing s ws with
  | nil => exact h s ws (.refl hv) fun s' _ => ⟨by simp, fun κ _ => rfl, fun T' _ => rfl⟩
  | cons x rows ih =>
    obtain ⟨κ, r⟩ := x
    obtain ⟨hκ, hrest⟩ := List.nodup_cons.mp hrows
    have hfresh : ∀ r', (κ, r') ∉ rows := fun r' hr' => hκ (List.mem_map.mpr ⟨_, hr', rfl⟩)
    refine wp_bind.mpr (wp_putRow (fun s' hs' => hraise s' _ hs') fun s₁ ws₁ hput => ?_)
    refine ih hrest hput.follows.valid (fun s' ws' hs' => hraise s' ws' (hput.follows.trans hs'))
      fun s₂ ws₂ hs₂ hback => h s₂ ws₂ (hput.follows.trans hs₂) fun s' hs' => ?_
    have hins := hput.effect s' (hs₂.trans hs')
    have hrec := hback s' hs'
    refine ⟨fun κ' r' hr' => ?_, fun κ' hκ' => ?_, fun T' hT => ?_⟩
    · rcases List.mem_cons.mp hr' with heq | hr'
      · obtain ⟨rfl, rfl⟩ := Prod.mk.inj heq
        rw [hrec.kept κ' hfresh, hins.self]
      · exact hrec.changed κ' r' hr'
    · have hne : κ' ≠ κ := by
        rintro rfl
        exact hκ' r List.mem_cons_self
      rw [hrec.kept κ' fun r' hr' => hκ' r' (List.mem_cons_of_mem _ hr'), hins.lookup, if_neg hne]
    · rw [hrec.other T' hT, hins.other T' hT]

theorem wp_moveRows {duplicate : Γ.Error} {p : Γ.Key → Γ.Row T → Bool}
    {assign : Γ.Row T → Γ.Row T} {Q : Post Γ (List (Γ.Key × Γ.Row T))}
    (hraise : ∀ s' ws', Follows G t s s' → Q.raise duplicate s' ws')
    (h : ∀ s₁ ws₁ done, (done.map Prod.fst).Nodup →
      Ran G t T p (fun r => some (assign r)) s ws s₁ ws₁ done → Q.ret done s₁ ws₁) :
    wp G t (moveRows duplicate T p assign) Q s ws := by
  refine wp_bind.mpr (wp_deleteRows fun s₁ ws₁ done hdone hran => wp_bind.mpr ?_)
  refine wp_reinsert hdone hran.follows.valid
    (fun s' ws' hs' => hraise s' ws' (hran.follows.trans hs')) fun s₂ ws₂ hs₂ hback => ?_
  obtain ⟨s₀, hs₀, hs₀', hall⟩ := hran.snapshot
  refine h s₂ ws₂ done hdone ⟨hran.follows.trans hs₂, hran.matched,
    fun κ r hr => hs₂.owner _ (hran.owner κ r hr), fun s' hs' => ?_,
    s₀, hs₀, hs₀'.trans hs₂, fun κ r hr hp => ?_⟩
  · have hout := hran.effect s' (hs₂.trans hs')
    have hin := hback s' hs'
    refine ⟨hout.found, hin.changed, fun κ hκ => ?_, fun T' hT => ?_⟩
    · rw [hin.kept κ hκ, hout.kept κ hκ]
    · rw [hin.other T' hT, hout.other T' hT]
  · rcases hall κ r hr hp with hfound | ⟨sv, hsv, hsv', hn⟩
    · exact .inl hfound
    · exact .inr ⟨sv, hsv, hsv'.trans hs₂, hn⟩

end WiseacctSso.ReadCommitted
