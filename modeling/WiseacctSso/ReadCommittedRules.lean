import WiseacctSso.ReadCommittedHistory

/-!
# Preconditions of programs and the rules of statements

`wp` is the weakest precondition under which a program keeps its share of the guarantee,
whatever the other processes do between its steps.
-/
namespace WiseacctSso.ReadCommitted

variable {Γ : Signature} {T : Γ.Table} {α β : Type}

/-- What holds when a program returns and when it raises, of the shared state and of the
pending writes. -/
structure Post (Γ : Signature) (α : Type) where
  ret : α → Shared Γ → List (Write Γ) → Prop
  raise : Γ.Error → Shared Γ → List (Write Γ) → Prop

/-- A program that is only asked to keep the guarantee up to its commits and calls. -/
def Post.top : Post Γ α := ⟨fun _ _ _ => True, fun _ _ _ => True⟩

variable (G : Guarantee Γ) (t : ℕ)

/-- A program that is asked to keep the whole guarantee. -/
def Post.kept : Post Γ α := ⟨fun _ _ _ => True, fun _ s _ => G.raised t (s.log.reports t)⟩

def wp : Prog Γ α → Post Γ α → Shared Γ → List (Write Γ) → Prop
  | .ret a, Q, s, ws => Q.ret a s ws
  | .raise e, Q, s, ws => Q.raise e s ws
  | .select q next, Q, s, ws => ∀ s', Follows G t s s' →
      wp (next (view ws s'.db) s'.ext) Q (s'.record (.selected t q)) ws
  | .candidates T p next, Q, s, ws => ∀ s', Follows G t s s' →
      ∀ keys, keys.Perm (matching (view ws s'.db) T p) → wp (next keys) Q s' ws
  | .visit T p effect κ next, Q, s, ws => ∀ s', Follows G t s s' →
      (((view ws s'.db).get T κ).any (p κ) = false → wp (next none) Q s' ws) ∧
      ∀ r, (view ws s'.db).get T κ = some r → p κ r = true →
        wp (next (some r)) Q (s'.acquire t [.row T κ]) (ws ++ effect.writes κ r)
  | .insert T κ row next, Q, s, ws => ∀ s', Follows G t s s' →
      wp (next .duplicateKey) Q s' ws ∧
      ((Γ.uniques T row).any (holdsEntry (view ws s'.db) T) = true →
        wp (next .duplicateEntry) Q s' ws) ∧
      ((view ws s'.db).get T κ = none →
        (∀ e ∈ Γ.uniques T row, holdsEntry (view ws s'.db) T e = false) →
        wp (next .inserted) Q (s'.acquire t (rowLocks T κ row)) (ws ++ [.put T κ row]))
  | .commit report next, Q, s, ws => ∀ s', Follows G t s s' →
      G.commit s'.log t report (s'.held t) (view ws s'.db) ∧
      wp next Q (s'.commit t report (view ws s'.db)) []
  | .rollback next, Q, s, _ => ∀ s', Later G t s s' → wp next Q s' []
  | .call action report next, Q, s, ws => ∀ s', Follows G t s s' →
      G.call s'.log t (report s'.ext) (action s'.ext) ∧
      wp (next s'.ext) Q (s'.record (.called t (report s'.ext) (action s'.ext))) ws

variable {G t} {s : Shared Γ} {ws : List (Write Γ)}

theorem wp_mono {Q Q' : Post Γ α} (hret : ∀ a s ws, Q.ret a s ws → Q'.ret a s ws)
    (hraise : ∀ e s ws, Q.raise e s ws → Q'.raise e s ws) {p : Prog Γ α}
    (h : wp G t p Q s ws) : wp G t p Q' s ws := by
  induction p generalizing s ws with
  | ret a => exact hret _ _ _ h
  | raise e => exact hraise _ _ _ h
  | select q next ih => exact fun s' hs => ih _ _ (h s' hs)
  | candidates T p next ih => exact fun s' hs keys hk => ih _ (h s' hs keys hk)
  | visit T p effect κ next ih =>
    exact fun s' hs => ⟨fun hn => ih _ ((h s' hs).1 hn),
      fun r hr hp => ih _ ((h s' hs).2 r hr hp)⟩
  | insert T κ row next ih =>
    exact fun s' hs => ⟨ih _ (h s' hs).1, fun he => ih _ ((h s' hs).2.1 he),
      fun hn he => ih _ ((h s' hs).2.2 hn he)⟩
  | commit report next ih => exact fun s' hs => ⟨(h s' hs).1, ih (h s' hs).2⟩
  | rollback next ih => exact fun s' hl => ih (h s' hl)
  | call action report next ih => exact fun s' hs => ⟨(h s' hs).1, ih _ (h s' hs).2⟩

theorem wp_bind {p : Prog Γ α} {f : α → Prog Γ β} {Q : Post Γ β} :
    wp G t (p.bind f) Q s ws ↔ wp G t p ⟨fun a s ws => wp G t (f a) Q s ws, Q.raise⟩ s ws := by
  induction p generalizing s ws with
  | ret a => rfl
  | raise e => rfl
  | select q next ih => exact forall₂_congr fun s' _ => ih _ _
  | candidates T p next ih => exact forall₄_congr fun s' _ keys _ => ih _
  | visit T p effect κ next ih =>
    exact forall₂_congr fun s' _ =>
      and_congr (imp_congr_right fun _ => ih _) (forall₃_congr fun r _ _ => ih _)
  | insert T κ row next ih =>
    exact forall₂_congr fun s' _ => and_congr (ih _) (and_congr (imp_congr_right fun _ => ih _)
      (imp_congr_right fun _ => imp_congr_right fun _ => ih _))
  | commit report next ih =>
    exact forall₂_congr fun s' _ => and_congr_right fun _ => ih
  | rollback next ih => exact forall₂_congr fun s' _ => ih
  | call action report next ih =>
    exact forall₂_congr fun s' _ => and_congr_right fun _ => ih _

theorem wp_handle {p : Prog Γ α} {handler : Γ.Error → Prog Γ α} {Q : Post Γ α} :
    wp G t (p.handle handler) Q s ws ↔
      wp G t p ⟨Q.ret, fun e s ws => wp G t (handler e) Q s ws⟩ s ws := by
  induction p generalizing s ws with
  | ret a => rfl
  | raise e => rfl
  | select q next ih => exact forall₂_congr fun s' _ => ih _ _
  | candidates T p next ih => exact forall₄_congr fun s' _ keys _ => ih _
  | visit T p effect κ next ih =>
    exact forall₂_congr fun s' _ =>
      and_congr (imp_congr_right fun _ => ih _) (forall₃_congr fun r _ _ => ih _)
  | insert T κ row next ih =>
    exact forall₂_congr fun s' _ => and_congr (ih _) (and_congr (imp_congr_right fun _ => ih _)
      (imp_congr_right fun _ => imp_congr_right fun _ => ih _))
  | commit report next ih =>
    exact forall₂_congr fun s' _ => and_congr_right fun _ => ih
  | rollback next ih => exact forall₂_congr fun s' _ => ih
  | call action report next ih =>
    exact forall₂_congr fun s' _ => and_congr_right fun _ => ih _

/-- A precondition that holds survives what other processes do. -/
theorem wp_follows {p : Prog Γ α} {s s' : Shared Γ} (hs : Follows G t s s')
    (h : wp G t p (.kept G t) s ws) : wp G t p (.kept G t) s' ws := by
  cases p with
  | ret a => trivial
  | raise e =>
    change G.raised t (s'.log.reports t)
    rw [hs.reports]
    exact h
  | select q next => exact fun s'' hs' => h s'' (hs.trans hs')
  | candidates T p next => exact fun s'' hs' => h s'' (hs.trans hs')
  | visit T p effect κ next => exact fun s'' hs' => h s'' (hs.trans hs')
  | insert T κ row next => exact fun s'' hs' => h s'' (hs.trans hs')
  | commit report next => exact fun s'' hs' => h s'' (hs.trans hs')
  | rollback next => exact fun s'' hl => h s'' (.of_follows hs hl)
  | call action report next => exact fun s'' hs' => h s'' (hs.trans hs')

/-! ## Statements -/

theorem wp_query {q : Γ.Query} {result : Db Γ → β} {Q : Post Γ β}
    (h : ∀ s', Follows G t s s' →
      Q.ret (result (view ws s'.db)) (s'.record (.selected t q)) ws) :
    wp G t (query q result) Q s ws := h

theorem wp_inspect {q : Γ.Query} {result : Γ.External → β} {Q : Post Γ β}
    (h : ∀ s', Follows G t s s' → Q.ret (result s'.ext) (s'.record (.selected t q)) ws) :
    wp G t (inspect q result) Q s ws := h

/-- An insert that was skipped met one of its unique-index entries. -/
theorem wp_insertOrSkip {duplicate : Γ.Error} {κ : Γ.Key} {row : Γ.Row T} {Q : Post Γ Bool}
    (hraise : ∀ s', Follows G t s s' → Q.raise duplicate s' ws)
    (hskip : ∀ s', Follows G t s s' →
      (Γ.uniques T row).any (holdsEntry (view ws s'.db) T) = true → Q.ret false s' ws)
    (hput : ∀ s', Follows G t s s' → (view ws s'.db).get T κ = none →
      (∀ e ∈ Γ.uniques T row, holdsEntry (view ws s'.db) T e = false) →
      Q.ret true (s'.acquire t (rowLocks T κ row)) (ws ++ [.put T κ row])) :
    wp G t (insertOrSkip duplicate T κ row) Q s ws :=
  fun s' hs => ⟨hraise s' hs, hskip s' hs, hput s' hs⟩

theorem wp_insertRow {duplicate : Γ.Error} {κ : Γ.Key} {row : Γ.Row T} {Q : Post Γ Unit}
    (hraise : ∀ s', Follows G t s s' → Q.raise duplicate s' ws)
    (hput : ∀ s', Follows G t s s' → (view ws s'.db).get T κ = none →
      (∀ e ∈ Γ.uniques T row, holdsEntry (view ws s'.db) T e = false) →
      Q.ret () (s'.acquire t (rowLocks T κ row)) (ws ++ [.put T κ row])) :
    wp G t (insertRow duplicate T κ row) Q s ws :=
  fun s' hs => ⟨hraise s' hs, fun _ => hraise s' hs, hput s' hs⟩

def sweepWrites (effect : Effect Γ T) (done : List (Γ.Key × Γ.Row T)) : List (Write Γ) :=
  done.flatMap fun x => effect.writes x.1 x.2

lemma effect_writes_place {effect : Effect Γ T} {κ : Γ.Key} {r : Γ.Row T} {w : Write Γ}
    (hw : w ∈ effect.writes κ r) : w.place = (T, κ) := by
  cases effect with
  | lock => simp [Effect.writes] at hw
  | set assign _ =>
    obtain rfl := List.mem_singleton.mp hw
    rfl
  | delete =>
    obtain rfl := List.mem_singleton.mp hw
    rfl

/-- Everything a statement over the rows `keys` knows when it ends in `s₁`. The rows of
`done` are locked and still in the version listed; any other row was seen at some point
in a version, or a state without it, that the WHERE clause does not match. -/
structure Swept (G : Guarantee Γ) (t : ℕ) (T : Γ.Table) (p : Γ.Key → Γ.Row T → Bool)
    (keys : List Γ.Key) (ws : List (Write Γ)) (s₀ s₁ : Shared Γ)
    (done : List (Γ.Key × Γ.Row T)) : Prop where
  follows : Follows G t s₀ s₁
  nodup : (done.map Prod.fst).Nodup
  subset : ∀ κ r, (κ, r) ∈ done → κ ∈ keys
  found : ∀ κ r, (κ, r) ∈ done → p κ r = true ∧ s₁.owner (.row T κ) = some t ∧
    (view ws s₁.db).get T κ = some r
  missed : ∀ κ ∈ keys, (∃ r, (κ, r) ∈ done) ∨ ∃ sv, Follows G t s₀ sv ∧ Follows G t sv s₁ ∧
    ∀ r, (view ws sv.db).get T κ = some r → p κ r = false

variable {p : Γ.Key → Γ.Row T → Bool} {effect : Effect Γ T}

lemma view_effect_get_ne {κ κ' : Γ.Key} (h : κ' ≠ κ) (r : Γ.Row T) (ws : List (Write Γ))
    (db : Db Γ) : (view (ws ++ effect.writes κ r) db).get T κ' = (view ws db).get T κ' := by
  rw [view_append]
  refine view_get_of_place_ne (fun w hw he => h ?_) _
  rw [effect_writes_place hw] at he
  exact (Prod.mk.inj he).2.symm

theorem wp_visits {keys : List Γ.Key} (hkeys : keys.Nodup)
    {Q : Post Γ (List (Γ.Key × Γ.Row T))} (hv : s.log.Valid G)
    (h : ∀ s₁ done, Swept G t T p keys ws s s₁ done →
      Q.ret done s₁ (ws ++ sweepWrites effect done)) :
    wp G t (visits T p effect keys) Q s ws := by
  induction keys generalizing s ws Q with
  | nil =>
    have hQ := h s [] ⟨.refl hv, .nil, by simp, by simp, by simp⟩
    simpa [visits, wp, sweepWrites] using hQ
  | cons κ keys ih =>
    obtain ⟨hκ, hrest⟩ := List.nodup_cons.mp hkeys
    intro s' hs
    constructor
    · intro hnone
      refine wp_bind.mpr (ih hrest hs.valid fun s₁ done hd => ?_)
      refine h s₁ done ⟨hs.trans hd.follows, hd.nodup,
        fun κ' r' hm => List.mem_cons_of_mem κ (hd.subset κ' r' hm), hd.found, fun κ' hκ' => ?_⟩
      rcases List.mem_cons.mp hκ' with rfl | hκ'
      · refine .inr ⟨s', hs, hd.follows, fun r hr => ?_⟩
        simpa [hr] using hnone
      · rcases hd.missed κ' hκ' with hd' | ⟨sv, hsv, hsv', hn⟩
        · exact .inl hd'
        · exact .inr ⟨sv, hs.trans hsv, hsv', hn⟩
    · intro r hr hp
      have hacq : Follows G t s' (s'.acquire t [.row T κ]) := .acquire hs.valid _
      refine wp_bind.mpr (ih hrest hacq.valid fun s₁ done hd => ?_)
      have hdone : ∀ κ' ∈ keys, κ' ≠ κ := fun κ' hκ' he => hκ (he ▸ hκ')
      have hfresh : κ ∉ done.map Prod.fst := by
        intro hm
        obtain ⟨⟨κ', r'⟩, hx, rfl⟩ := List.mem_map.mp hm
        exact hκ (hd.subset κ' r' hx)
      have hown : s₁.owner (.row T κ) = some t :=
        hd.follows.owner _ (acquire_owner_self (by simp))
      have hview : (view ws s₁.db).get T κ = some r := by
        rw [hd.follows.view_get (acquire_owner_self (by simp)) ws]
        exact hr
      have hQ := h s₁ ((κ, r) :: done) ⟨(hs.trans hacq).trans hd.follows,
        List.nodup_cons.mpr ⟨hfresh, hd.nodup⟩, fun κ' r' hm => ?_, fun κ' r' hm => ?_,
        fun κ' hκ' => ?_⟩
      · simpa [wp, sweepWrites, List.append_assoc] using hQ
      · rcases List.mem_cons.mp hm with heq | hm
        · exact (Prod.mk.inj heq).1 ▸ List.mem_cons_self
        · exact List.mem_cons_of_mem κ (hd.subset κ' r' hm)
      · rcases List.mem_cons.mp hm with heq | hm
        · obtain ⟨rfl, rfl⟩ := Prod.mk.inj heq
          exact ⟨hp, hown, hview⟩
        · obtain ⟨hp', ho', hl'⟩ := hd.found κ' r' hm
          rw [view_effect_get_ne (hdone κ' (hd.subset κ' r' hm))] at hl'
          exact ⟨hp', ho', hl'⟩
      · rcases List.mem_cons.mp hκ' with rfl | hκ'
        · exact .inl ⟨r, List.mem_cons_self⟩
        · rcases hd.missed κ' hκ' with ⟨r', hr'⟩ | ⟨sv, hsv, hsv', hn⟩
          · exact .inl ⟨r', List.mem_cons_of_mem _ hr'⟩
          · refine .inr ⟨sv, (hs.trans hacq).trans hsv, hsv', fun r' hr' => hn r' ?_⟩
            rwa [view_effect_get_ne (hdone κ' hκ')]

/-- A statement knows of every row its snapshot showed that it either locked the row in a
version it matched or met the row unmatched. -/
theorem wp_sweep {Q : Post Γ (List (Γ.Key × Γ.Row T))}
    (h : ∀ s₀ s₁ done, Follows G t s s₀ →
      Swept G t T p (matching (view ws s₀.db) T p) ws s₀ s₁ done →
      Q.ret done s₁ (ws ++ sweepWrites effect done)) :
    wp G t (sweep T p effect) Q s ws := by
  intro s₀ hs keys hkeys
  refine wp_visits (hkeys.nodup_iff.mpr (matching_nodup _ _ _)) hs.valid fun s₁ done hd => ?_
  exact h s₀ s₁ done hs ⟨hd.follows, hd.nodup, fun κ r hm => hkeys.mem_iff.mp (hd.subset κ r hm),
    hd.found, fun κ hκ => hd.missed κ (hkeys.mem_iff.mpr hκ)⟩

lemma sweepWrites_table {done : List (Γ.Key × Γ.Row T)} {w : Write Γ}
    (hw : w ∈ sweepWrites effect done) : w.place.1 = T := by
  obtain ⟨x, _, hx⟩ := List.mem_flatMap.mp hw
  rw [effect_writes_place hx]

/-- A row the statement did not lock shows what it showed before. -/
lemma view_sweep_of_notMem {done : List (Γ.Key × Γ.Row T)} {κ : Γ.Key}
    (h : ∀ r, (κ, r) ∉ done) (ws : List (Write Γ)) (db : Db Γ) :
    (view (ws ++ sweepWrites effect done) db).get T κ = (view ws db).get T κ := by
  rw [view_append]
  refine view_get_of_place_ne (fun w hw he => ?_) _
  obtain ⟨x, hx, hw⟩ := List.mem_flatMap.mp hw
  rw [effect_writes_place hw] at he
  exact h x.2 ((Prod.mk.inj he).2 ▸ hx)

/-- A row the statement locked shows what its effect makes of it. -/
lemma view_sweep_of_mem {done : List (Γ.Key × Γ.Row T)} (hdone : (done.map Prod.fst).Nodup)
    {κ : Γ.Key} {r : Γ.Row T} (h : (κ, r) ∈ done) (ws : List (Write Γ)) (db : Db Γ) :
    (view (ws ++ sweepWrites effect done) db).get T κ =
      (view (ws ++ effect.writes κ r) db).get T κ := by
  induction done generalizing ws with
  | nil => simp at h
  | cons x done ih =>
    obtain ⟨hx, hdone⟩ := List.nodup_cons.mp hdone
    have hcons : ws ++ sweepWrites effect (x :: done) =
        (ws ++ effect.writes x.1 x.2) ++ sweepWrites effect done := by
      simp [sweepWrites, List.append_assoc]
    rcases List.mem_cons.mp h with rfl | h
    · rw [hcons, view_sweep_of_notMem fun r' hr' => hx (List.mem_map.mpr ⟨_, hr', rfl⟩)]
    · have hne : κ ≠ x.1 := fun he => hx (he ▸ List.mem_map.mpr ⟨_, h, rfl⟩)
      rw [hcons, ih hdone h, view_append, view_append ws (effect.writes κ r)]
      exact view_get_congr (view_effect_get_ne hne x.2 ws db) _

lemma view_set_of_mem {assign : Γ.Row T → Γ.Row T}
    {uniques_eq : ∀ r, Γ.uniques T (assign r) = Γ.uniques T r}
    {done : List (Γ.Key × Γ.Row T)} (hdone : (done.map Prod.fst).Nodup) {κ : Γ.Key}
    {r : Γ.Row T} (h : (κ, r) ∈ done) (ws : List (Write Γ)) (db : Db Γ) :
    (view (ws ++ sweepWrites (.set assign uniques_eq) done) db).get T κ =
      some (assign r) := by
  rw [view_sweep_of_mem hdone h]
  exact (view_concat_put_get ws db T κ κ (assign r)).trans (if_pos rfl)

lemma view_delete_of_mem {done : List (Γ.Key × Γ.Row T)} (hdone : (done.map Prod.fst).Nodup)
    {κ : Γ.Key} {r : Γ.Row T} (h : (κ, r) ∈ done) (ws : List (Write Γ)) (db : Db Γ) :
    (view (ws ++ sweepWrites .delete done) db).get T κ = none := by
  rw [view_sweep_of_mem hdone h]
  change (view (ws ++ [.erase T κ]) db).get T κ = none
  rw [view_concat, apply_erase_get, if_pos rfl]

@[simp] lemma sweepWrites_lock (done : List (Γ.Key × Γ.Row T)) :
    sweepWrites (.lock : Effect Γ T) done = [] := by
  simp [sweepWrites, Effect.writes]

/-- A statement whose rows can only have the one key locks at most one row. -/
lemma Swept.single {κ₀ : Γ.Key} {keys : List Γ.Key} {s₀ s₁ : Shared Γ}
    {done : List (Γ.Key × Γ.Row T)} (h : Swept G t T p keys ws s₀ s₁ done)
    (hκ : ∀ κ r, (κ, r) ∈ done → κ = κ₀) : done = [] ∨ ∃ r, done = [(κ₀, r)] := by
  match done, h.nodup, hκ with
  | [], _, _ => exact .inl rfl
  | [(κ, r)], _, hκ =>
    obtain rfl : κ = κ₀ := hκ κ r (by simp)
    exact .inr ⟨r, rfl⟩
  | x :: y :: rest, hnodup, hκ =>
    have hxy : x.1 = y.1 := (hκ x.1 x.2 (by simp)).trans (hκ y.1 y.2 (by simp)).symm
    simp [hxy] at hnodup

/-- A WHERE clause on the primary key locks at most one row. -/
lemma Swept.keyed {κ₀ : Γ.Key} (hp : ∀ κ r, p κ r = true → κ = κ₀) {keys : List Γ.Key}
    {s₀ s₁ : Shared Γ} {done : List (Γ.Key × Γ.Row T)}
    (h : Swept G t T p keys ws s₀ s₁ done) : done = [] ∨ ∃ r, done = [(κ₀, r)] :=
  h.single fun κ r hm => hp κ r (h.found κ r hm).1

/-! ## Transactions -/

theorem wp_transaction {report : α → Γ.Report} {work : Prog Γ α} {Q : Post Γ α}
    (h : ∀ s₀, Later G t s s₀ → wp G t work ⟨fun a s ws => ∀ s', Follows G t s s' →
        G.commit s'.log t (report a) (s'.held t) (view ws s'.db) ∧
        Q.ret a (s'.commit t (report a) (view ws s'.db)) [],
      fun e s _ => ∀ s', Later G t s s' → Q.raise e s' []⟩ s₀ []) :
    wp G t (transaction report work) Q s ws :=
  fun s₀ hs₀ => wp_handle.mpr (wp_bind.mpr (h s₀ hs₀))

theorem wp_connection {work : Prog Γ α} {Q : Post Γ α}
    (h : wp G t work ⟨fun a s _ => ∀ s', Later G t s s' → Q.ret a s' [],
      fun e s _ => ∀ s', Later G t s s' → Q.raise e s' []⟩ s ws) :
    wp G t (connection work) Q s ws :=
  wp_handle.mpr (wp_bind.mpr h)

end WiseacctSso.ReadCommitted
