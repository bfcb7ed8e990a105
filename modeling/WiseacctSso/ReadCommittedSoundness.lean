import WiseacctSso.ReadCommittedRules

/-!
# Every run keeps the guarantee

If each program keeps its share of a guarantee whatever the others do, the log of every
run is valid: every commit in it, read as one atomic step, meets the guarantee.
-/
namespace WiseacctSso.ReadCommitted

variable {Γ : Signature} {T : Γ.Table} {G : Guarantee Γ} {t : ℕ} {s s' : Shared Γ}
  {ws : List (Write Γ)}

/-- The pending writes of process `t` are under its locks and break no unique index. -/
structure Backed (t : ℕ) (s : Shared Γ) (ws : List (Write Γ)) : Prop where
  row : ∀ w ∈ ws, s.owner (.row w.place.1 w.place.2) = some t
  entry : ∀ T κ r e, (view ws s.db).get T κ = some r → e ∈ Γ.uniques T r →
    s.owner (.entry T e) = some t ∨ ∃ r₀, s.db.get T κ = some r₀ ∧ e ∈ Γ.uniques T r₀
  unique : UniqueEntries (view ws s.db)

lemma backed_nil (h : s.log.Valid G) : Backed t s [] :=
  ⟨by simp, fun _ _ r _ hr he => .inr ⟨r, hr, he⟩, h.unique⟩

namespace Backed

/-- What another process commits leaves the pending writes backed. -/
lemma follows (h : Backed t s ws) (hs : Follows G t s s') : Backed t s' ws := by
  have hown : ∀ T κ, (∃ w ∈ ws, w.place = (T, κ)) → s.owner (.row T κ) = some t := by
    rintro T κ ⟨w, hw, he⟩
    have := h.row w hw
    rwa [he] at this
  have hentry : ∀ T κ r e, (∃ w ∈ ws, w.place = (T, κ)) → (view ws s.db).get T κ = some r →
      e ∈ Γ.uniques T r → s.owner (.entry T e) = some t ∨
        ∃ r₀, s'.db.get T κ = some r₀ ∧ e ∈ Γ.uniques T r₀ := by
    intro T κ r e hw hr he
    rcases h.entry T κ r e hr he with ho | ⟨r₀, hr₀, he₀⟩
    · exact .inl ho
    · exact .inr ⟨r₀, (hs.lookup (hown T κ hw)).trans hr₀, he₀⟩
  -- A row under a pending write and a row outside them cannot share an entry.
  have hmixed : ∀ T κ κ' r r' e, (∃ w ∈ ws, w.place = (T, κ)) →
      (¬ ∃ w ∈ ws, w.place = (T, κ')) → (view ws s'.db).get T κ = some r →
      s'.db.get T κ' = some r' → e ∈ Γ.uniques T r → e ∈ Γ.uniques T r' → κ = κ' := by
    intro T κ κ' r r' e hw hw' hr hr' he he'
    rw [view_get_of_place_mem hw s'.db s.db] at hr
    rcases hentry T κ r e hw hr he with ho | ⟨r₀, hr₀, he₀⟩
    · obtain ⟨r₁, hr₁, he₁⟩ := hs.entry ho hr' he'
      have hne : ∀ w ∈ ws, w.place ≠ (T, κ') := fun w hm hp => hw' ⟨w, hm, hp⟩
      rw [← view_get_of_place_ne hne] at hr₁
      exact h.unique T κ κ' r r₁ hr hr₁ e he he₁
    · exact hs.valid.unique T κ κ' r₀ r' hr₀ hr' e he₀ he'
  refine ⟨fun w hw => hs.owner _ (h.row w hw), fun T κ r e hr he => ?_,
    fun T κ κ' r r' hr hr' e he he' => ?_⟩
  · by_cases hw : ∃ w ∈ ws, w.place = (T, κ)
    · rw [view_get_of_place_mem hw s'.db s.db] at hr
      rcases hentry T κ r e hw hr he with ho | hr₀
      · exact .inl (hs.owner _ ho)
      · exact .inr hr₀
    · rw [view_get_of_place_ne fun w hm hp => hw ⟨w, hm, hp⟩] at hr
      exact .inr ⟨r, hr, he⟩
  · by_cases hw : ∃ w ∈ ws, w.place = (T, κ) <;> by_cases hw' : ∃ w ∈ ws, w.place = (T, κ')
    · rw [view_get_of_place_mem hw s'.db s.db] at hr
      rw [view_get_of_place_mem hw' s'.db s.db] at hr'
      exact h.unique T κ κ' r r' hr hr' e he he'
    · rw [view_get_of_place_ne fun w hm hp => hw' ⟨w, hm, hp⟩] at hr'
      exact hmixed T κ κ' r r' e hw hw' hr hr' he he'
    · rw [view_get_of_place_ne fun w hm hp => hw ⟨w, hm, hp⟩] at hr
      exact (hmixed T κ' κ r' r e hw' hw hr' hr he' he).symm
    · rw [view_get_of_place_ne fun w hm hp => hw ⟨w, hm, hp⟩] at hr
      rw [view_get_of_place_ne fun w hm hp => hw' ⟨w, hm, hp⟩] at hr'
      exact hs.valid.unique T κ κ' r r' hr hr' e he he'

/-- A locked row may be rewritten with the entries it had. -/
lemma put (h : Backed t s ws) {κ : Γ.Key} {r row : Γ.Row T}
    (hr : (view ws s.db).get T κ = some r)
    (hrow : Γ.uniques T row = Γ.uniques T r) (ho : s.owner (.row T κ) = some t) :
    Backed t s (ws ++ [.put T κ row]) := by
  -- Every row of the new view has the entries of a row of the old one.
  have hold : ∀ T' κ' r', (view (ws ++ [.put T κ row]) s.db).get T' κ' = some r' →
      ∃ r₀, (view ws s.db).get T' κ' = some r₀ ∧ Γ.uniques T' r' = Γ.uniques T' r₀ := by
    intro T' κ' r' hr'
    rw [view_concat] at hr'
    by_cases hp : (Write.put T κ row).place = (T', κ')
    · obtain ⟨rfl, rfl⟩ := Prod.mk.inj hp
      rw [apply_put_get, if_pos rfl] at hr'
      exact ⟨r, hr, (Option.some.inj hr') ▸ hrow⟩
    · rw [apply_get_of_place_ne hp] at hr'
      exact ⟨r', hr', rfl⟩
  refine ⟨fun w hw => ?_, fun T' κ' r' e hr' he => ?_, fun T' κ₁ κ₂ r₁ r₂ hr₁ hr₂ e he₁ he₂ => ?_⟩
  · rcases List.mem_append.mp hw with hw | hw
    · exact h.row w hw
    · obtain rfl := List.mem_singleton.mp hw
      exact ho
  · obtain ⟨r₀, hr₀, hu⟩ := hold T' κ' r' hr'
    exact h.entry T' κ' r₀ e hr₀ (hu ▸ he)
  · obtain ⟨r₁', hr₁', hu₁⟩ := hold T' κ₁ r₁ hr₁
    obtain ⟨r₂', hr₂', hu₂⟩ := hold T' κ₂ r₂ hr₂
    exact h.unique T' κ₁ κ₂ r₁' r₂' hr₁' hr₂' e (hu₁ ▸ he₁) (hu₂ ▸ he₂)

lemma erase (h : Backed t s ws) {κ : Γ.Key} (ho : s.owner (.row T κ) = some t) :
    Backed t s (ws ++ [.erase T κ]) := by
  have hold : ∀ T' κ' r', (view (ws ++ [.erase T κ]) s.db).get T' κ' = some r' →
      (view ws s.db).get T' κ' = some r' := by
    intro T' κ' r' hr'
    rw [view_concat] at hr'
    by_cases hp : (Write.erase T κ).place = (T', κ')
    · obtain ⟨rfl, rfl⟩ := Prod.mk.inj hp
      rw [apply_erase_get, if_pos rfl] at hr'
      exact absurd hr' (by simp)
    · rwa [apply_get_of_place_ne hp] at hr'
  refine ⟨fun w hw => ?_, fun T' κ' r' e hr' he => h.entry T' κ' r' e (hold _ _ _ hr') he,
    fun T' κ₁ κ₂ r₁ r₂ hr₁ hr₂ => h.unique T' κ₁ κ₂ r₁ r₂ (hold _ _ _ hr₁) (hold _ _ _ hr₂)⟩
  rcases List.mem_append.mp hw with hw | hw
  · exact h.row w hw
  · obtain rfl := List.mem_singleton.mp hw
    exact ho

lemma effect (h : Backed t s ws) (effect : Effect Γ T) {κ : Γ.Key} {r : Γ.Row T}
    (hr : (view ws s.db).get T κ = some r) (ho : s.owner (.row T κ) = some t) :
    Backed t s (ws ++ effect.writes κ r) := by
  cases effect with
  | lock => rwa [Effect.writes, List.append_nil]
  | set assign uniques_eq => exact h.put hr (uniques_eq r) ho
  | delete => exact h.erase ho

/-- A row goes in under a new key, with claimed entries that no visible row carries. -/
lemma insert (h : Backed t s ws) {κ : Γ.Key} {row : Γ.Row T}
    (he : ∀ e ∈ Γ.uniques T row, holdsEntry (view ws s.db) T e = false)
    (ho : ∀ l ∈ rowLocks T κ row, s.owner l = some t) :
    Backed t s (ws ++ [.put T κ row]) := by
  have hother : ∀ T', T ≠ T' → ∀ κ',
      (view (ws ++ [.put T κ row]) s.db).get T' κ' = (view ws s.db).get T' κ' := by
    intro T' hT κ'
    have hplace : (Write.put T κ row).place ≠ (T', κ') := fun he => hT (Prod.mk.inj he).1
    rw [view_concat, apply_get_of_place_ne hplace]
  -- The new row shares no entry with a row that was visible before.
  have hnew : ∀ κ' r', (view ws s.db).get T κ' = some r' →
      ∀ e ∈ Γ.uniques T row, e ∉ Γ.uniques T r' := by
    intro κ' r' hr' e hrow he'
    have hheld := holdsEntry_eq_true.mpr ⟨κ', r', hr', he'⟩
    rw [he e hrow] at hheld
    exact Bool.false_ne_true hheld
  refine ⟨fun w hw => ?_, fun T' κ' r' e hr' he' => ?_, fun T' κ₁ κ₂ r₁ r₂ hr₁ hr₂ e he₁ he₂ => ?_⟩
  · rcases List.mem_append.mp hw with hw | hw
    · exact h.row w hw
    · obtain rfl := List.mem_singleton.mp hw
      exact ho _ List.mem_cons_self
  · by_cases hT : T = T'
    · subst hT
      rw [view_concat_put_get] at hr'
      split at hr'
      · obtain rfl := Option.some.inj hr'
        exact .inl (ho _ (List.mem_cons_of_mem _ (List.mem_map_of_mem he')))
      · exact h.entry T κ' r' e hr' he'
    · rw [hother T' hT] at hr'
      exact h.entry T' κ' r' e hr' he'
  · by_cases hT : T = T'
    · subst hT
      rw [view_concat_put_get] at hr₁ hr₂
      split at hr₁ <;> split at hr₂
      · simp_all
      · obtain rfl := Option.some.inj hr₁
        exact absurd he₂ (hnew κ₂ r₂ hr₂ e he₁)
      · obtain rfl := Option.some.inj hr₂
        exact absurd he₁ (hnew κ₁ r₁ hr₁ e he₂)
      · exact h.unique T κ₁ κ₂ r₁ r₂ hr₁ hr₂ e he₁ he₂
    · rw [hother T' hT] at hr₁ hr₂
      exact h.unique T' κ₁ κ₂ r₁ r₂ hr₁ hr₂ e he₁ he₂

/-- A commit of backed writes is framed by the locks it held. -/
lemma framed (h : Backed t s ws) : Framed s.db (s.held t) (view ws s.db) := by
  refine ⟨fun T κ hheld => view_get_of_place_ne (fun w hw he => ?_) _,
    fun T κ r e hr he => ?_, h.unique⟩
  · have ho := h.row w hw
    rw [he] at ho
    simp [Shared.held, ho] at hheld
  · rcases h.entry T κ r e hr he with ho | hr₀
    · exact .inl (by simpa [Shared.held] using ho)
    · exact .inr hr₀

end Backed

/-! ## Steps of one process as the others see them -/

/-- A move of process `t` that every other process may follow and that takes no lock on
their behalf. -/
def Undisturbed (G : Guarantee Γ) (t : ℕ) (s s' : Shared Γ) : Prop :=
  ∀ t' ≠ t, Follows G t' s s' ∧ ∀ l, s'.owner l = some t' → s.owner l = some t'

namespace Undisturbed

lemma refl (hv : s.log.Valid G) : Undisturbed G t s s :=
  fun _ _ => ⟨.refl hv, fun _ ho => ho⟩

lemma trans {s'' : Shared Γ} (h : Undisturbed G t s s') (h' : Undisturbed G t s' s'') :
    Undisturbed G t s s'' := fun t' ht =>
  ⟨(h t' ht).1.trans (h' t' ht).1, fun l ho => (h t' ht).2 l ((h' t' ht).2 l ho)⟩

lemma acquire (hv : s.log.Valid G) {locks : List (Lock Γ)}
    (hfree : ∀ l ∈ locks, s.free t l = true) : Undisturbed G t s (s.acquire t locks) := by
  intro t' ht
  refine ⟨⟨hv, .refl, fun l ho => ?_⟩, fun l ho => ?_⟩
  · by_cases hl : l ∈ locks
    · have := hfree l hl
      simp only [Shared.free, ho, decide_eq_true_eq] at this
      exact absurd this ht
    · exact (if_neg hl).trans ho
  · simp only [Shared.acquire] at ho
    split at ho
    · exact absurd (Option.some.inj ho).symm ht
    · exact ho

lemma release (hv : s.log.Valid G) : Undisturbed G t s (s.release t) := by
  intro t' ht
  refine ⟨⟨hv, .refl, fun l ho => release_owner_other ht ho⟩, fun l ho => ?_⟩
  simp only [Shared.release] at ho
  split at ho
  · exact absurd ho (by simp)
  · exact ho

lemma record {event : Event Γ} (hv : (s.log.add event).Valid G)
    (hspares : ∀ t' ≠ t, event.Spares s t') : Undisturbed G t s (s.record event) :=
  fun t' ht => ⟨⟨hv, .single (hspares t' ht), fun _ ho => ho⟩, fun _ ho => ho⟩

end Undisturbed

/-- What a process keeps in every state: its program from here on and the one it would
retry keep the guarantee, and its writes are backed. -/
structure Process.Safe (G : Guarantee Γ) (t : ℕ) (s : Shared Γ) (c : Process Γ) : Prop where
  prog : wp G t c.prog (.kept G t) s c.writes
  retry : ∀ s', Later G t s s' → wp G t c.retry (.kept G t) s' []
  backed : Backed t s c.writes

namespace Process.Safe

variable {c : Process Γ}

lemma follows (h : c.Safe G t s) (hs : Follows G t s s') : c.Safe G t s' :=
  ⟨wp_follows hs h.prog, fun s'' hl => h.retry s'' (.of_follows hs hl), h.backed.follows hs⟩

lemma start {p : Prog Γ Unit} (hv : s.log.Valid G) (h : wp G t p (.kept G t) s []) :
    (Process.start p).Safe G t s :=
  ⟨h, fun _ _ => trivial, backed_nil hv⟩

/-- A program may be tried again from any later state without locks. -/
lemma restart {p : Prog Γ Unit} (hv : s.log.Valid G)
    (h : ∀ s', Later G t s s' → wp G t p (.kept G t) s' []) :
    (Process.mk p [] p).Safe G t (s.release t) :=
  ⟨h _ ⟨hv, .refl, release_owner_ne s t⟩, fun s' hl => h s' ⟨hl.valid, hl.log, hl.idle⟩,
    backed_nil (G := G) hv⟩

/-- One step keeps the log valid and the process safe, and the others may follow it. -/
theorem step {order : List Γ.Key} {c' : Process Γ} (hv : s.log.Valid G) (h : c.Safe G t s)
    (hstep : c.step t order s = some (s', c')) :
    s'.log.Valid G ∧ c'.Safe G t s' ∧ Undisturbed G t s s' := by
  obtain ⟨prog, ws, retry⟩ := c
  obtain ⟨hprog, hretry, hbacked⟩ := h
  have hrefl : Follows G t s s := .refl hv
  cases prog with
  | ret a => simp [Process.step] at hstep
  | raise e => simp [Process.step] at hstep
  | select q next =>
    obtain ⟨rfl, rfl⟩ : s.record (.selected t q) = s' ∧ _ = c' := by
      simpa [Process.step] using hstep
    have hown : Follows G t s (s.record (.selected t q)) := .record_selected hv q
    exact ⟨hv, ⟨hprog s hrefl, fun s'' hl => hretry s'' (.of_follows hown hl),
      hbacked.follows hown⟩, .record hv fun _ _ => trivial⟩
  | candidates T p next =>
    simp only [Process.step] at hstep
    split at hstep
    · next hperm =>
      obtain ⟨rfl, rfl⟩ := Prod.mk.inj (Option.some.inj hstep)
      exact ⟨hv, ⟨hprog s hrefl order hperm, hretry, hbacked⟩, .refl hv⟩
    · simp at hstep
  | visit T p effect κ next =>
    simp only [Process.step] at hstep
    split at hstep
    · next hfree =>
      split at hstep
      · next hr =>
        obtain ⟨rfl, rfl⟩ := Prod.mk.inj (Option.some.inj hstep)
        exact ⟨hv, ⟨(hprog s hrefl).1 (by simp [hr]), hretry, hbacked⟩, .refl hv⟩
      · next r hr =>
        split at hstep
        · next hp =>
          obtain ⟨rfl, rfl⟩ := Prod.mk.inj (Option.some.inj hstep)
          have hown : Follows G t s (s.acquire t [.row T κ]) := .acquire hv _
          refine ⟨hv, ⟨(hprog s hrefl).2 r hr hp, fun s'' hl => hretry s'' (.of_follows hown hl),
            (hbacked.follows hown).effect effect hr (acquire_owner_self (by simp))⟩, ?_⟩
          exact .acquire hv fun l hl => (List.mem_singleton.mp hl) ▸ hfree
        · next hp =>
          obtain ⟨rfl, rfl⟩ := Prod.mk.inj (Option.some.inj hstep)
          exact ⟨hv, ⟨(hprog s hrefl).1 (by simpa [hr] using hp), hretry, hbacked⟩, .refl hv⟩
    · simp at hstep
  | insert T κ row next =>
    simp only [Process.step] at hstep
    split at hstep
    · obtain ⟨rfl, rfl⟩ := Prod.mk.inj (Option.some.inj hstep)
      exact ⟨hv, ⟨(hprog s hrefl).1, hretry, hbacked⟩, .refl hv⟩
    · next hkey =>
      split at hstep
      · next hentry =>
        obtain ⟨rfl, rfl⟩ := Prod.mk.inj (Option.some.inj hstep)
        exact ⟨hv, ⟨(hprog s hrefl).2.1 hentry, hretry, hbacked⟩, .refl hv⟩
      · next hentry =>
        split at hstep
        · next hfree =>
          obtain ⟨rfl, rfl⟩ := Prod.mk.inj (Option.some.inj hstep)
          have habsent : (view ws s.db).get T κ = none := by simpa using hkey
          have hentries : ∀ e ∈ Γ.uniques T row, holdsEntry (view ws s.db) T e = false := by
            simpa using hentry
          have hown : Follows G t s (s.acquire t (rowLocks T κ row)) := .acquire hv _
          exact ⟨hv, ⟨(hprog s hrefl).2.2 habsent hentries,
            fun s'' hl => hretry s'' (.of_follows hown hl),
            (hbacked.follows hown).insert hentries fun l hl => acquire_owner_self hl⟩,
            .acquire hv (List.all_eq_true.mp hfree)⟩
        · simp at hstep
  | commit report next =>
    obtain ⟨rfl, rfl⟩ := Prod.mk.inj (Option.some.inj hstep)
    obtain ⟨hcommit, hnext⟩ := hprog s hrefl
    have hv' : (s.log.add (.committed t report (s.held t) (view ws s.db))).Valid G :=
      ⟨hv, hcommit, hbacked.framed⟩
    refine ⟨hv', .start hv' hnext, .trans (.record hv' fun t' ht => ⟨ht.symm, ?_⟩)
      (.release hv')⟩
    intro l hl ho
    simp only [Shared.held, decide_eq_true_eq] at hl
    exact ht (Option.some.inj (ho.symm.trans hl))
  | rollback next =>
    obtain ⟨rfl, rfl⟩ := Prod.mk.inj (Option.some.inj hstep)
    exact ⟨hv, .restart hv hprog, .release hv⟩
  | call action report next =>
    obtain ⟨rfl, rfl⟩ := Prod.mk.inj (Option.some.inj hstep)
    obtain ⟨hcall, hnext⟩ := hprog s hrefl
    have hv' : (s.log.add (.called t (report s.ext) (action s.ext))).Valid G := ⟨hv, hcall⟩
    exact ⟨hv', ⟨hnext, fun _ _ => trivial, ⟨hbacked.row, hbacked.entry, hbacked.unique⟩⟩,
      .record hv' fun t' ht => ht.symm⟩

end Process.Safe

/-! ## Facts about the log that stay -/

/-- A fact that no later event takes back carries a program to its end when each of its
commits, calls and failures only needs that fact. -/
theorem wp_of_stable {α : Type} {I : Log Γ → Prop}
    (hstable : ∀ log log', log.Precedes log' → I log → I log')
    (hcommit : ∀ log report held after, I log → G.commit log t report held after)
    (hcall : ∀ log report ext, I log → G.call log t report ext)
    (hraised : ∀ log, I log → G.raised t (log.reports t)) {p : Prog Γ α} {ws : List (Write Γ)}
    (hI : I s.log) : wp G t p (.kept G t) s ws := by
  have hrecord : ∀ {s' : Shared Γ} (event : Event Γ), I s'.log → I (s'.record event).log :=
    fun event hI' => hstable _ _ (.single trivial) hI'
  induction p generalizing s ws with
  | ret a => trivial
  | raise e => exact hraised s.log hI
  | select q next ih =>
    exact fun s' hs => ih _ _ (hrecord _ (hstable _ _ hs.precedes hI))
  | candidates T p next ih =>
    exact fun s' hs keys _ => ih keys (hstable _ _ hs.precedes hI)
  | visit T p effect κ next ih =>
    intro s' hs
    have hI' : I s'.log := hstable _ _ hs.precedes hI
    exact ⟨fun _ => ih _ hI', fun r _ _ => ih _ hI'⟩
  | insert T κ row next ih =>
    intro s' hs
    have hI' : I s'.log := hstable _ _ hs.precedes hI
    exact ⟨ih _ hI', fun _ => ih _ hI', fun _ _ => ih _ hI'⟩
  | commit report next ih =>
    intro s' hs
    have hI' : I s'.log := hstable _ _ hs.precedes hI
    exact ⟨hcommit _ _ _ _ hI', ih (hrecord _ hI')⟩
  | rollback next ih => exact fun s' hl => ih (hstable _ _ hl.precedes hI)
  | call action report next ih =>
    intro s' hs
    have hI' : I s'.log := hstable _ _ hs.precedes hI
    exact ⟨hcall _ _ _ hI', ih _ (hrecord _ hI')⟩

/-! ## Runs -/

/-- The programs keep a guarantee when each of them does from any state in which it has
made no report and holds no lock. -/
def Keeps (G : Guarantee Γ) (code : ℕ → Prog Γ Unit) : Prop :=
  ∀ t s, s.log.Valid G → s.log.reports t = [] → (∀ l, s.owner l ≠ some t) →
    wp G t (code t) (.kept G t) s []

/-- What holds of every system a run reaches. -/
structure System.Sound (G : Guarantee Γ) (sys : System Γ) : Prop where
  valid : sys.shared.log.Valid G
  safe : ∀ t c, sys.process t = some c → c.Safe G t sys.shared
  unstarted : ∀ t, sys.process t = none →
    sys.shared.log.reports t = [] ∧ ∀ l, sys.shared.owner l ≠ some t

namespace System.Sound

variable {sys sys' : System Γ} {code : ℕ → Prog Γ Unit}

lemma set (h : sys.Sound G) {c : Process Γ} (hv : s.log.Valid G) (hc : c.Safe G t s)
    (hs : Undisturbed G t sys.shared s) : (sys.set t s c).Sound G := by
  refine ⟨hv, fun t' c' hc' => ?_, fun t' hn => ?_⟩
  · by_cases ht : t' = t
    · subst ht
      obtain rfl : c = c' := by simpa [System.set] using hc'
      exact hc
    · have hold : sys.process t' = some c' := by simpa [System.set, ht] using hc'
      exact (h.safe t' c' hold).follows (hs t' ht).1
  · have ht : t' ≠ t := by
      rintro rfl
      simp [System.set] at hn
    have hold : sys.process t' = none := by simpa [System.set, ht] using hn
    obtain ⟨hreports, hidle⟩ := h.unstarted t' hold
    exact ⟨(hs t' ht).1.reports.trans hreports, fun l ho => hidle l ((hs t' ht).2 l ho)⟩

theorem act (hcode : Keeps G code) (h : sys.Sound G) {a : Act Γ}
    (ha : sys.act code a = some sys') : sys'.Sound G := by
  cases a with
  | call t =>
    simp only [System.act] at ha
    split at ha
    · next hn =>
      obtain rfl := Option.some.inj ha
      obtain ⟨hreports, hidle⟩ := h.unstarted t hn
      exact h.set h.valid (.start h.valid (hcode t _ h.valid hreports hidle)) (.refl h.valid)
    · simp at ha
  | step t order =>
    simp only [System.act, Option.bind_eq_bind, Option.bind_eq_some_iff] at ha
    obtain ⟨c, hc, ⟨s', c'⟩, hstep, hset⟩ := ha
    obtain rfl := Option.some.inj hset
    obtain ⟨hv, hsafe, hother⟩ := (h.safe t c hc).step h.valid hstep
    exact h.set hv hsafe hother
  | abort t =>
    simp only [System.act, Option.bind_eq_bind, Option.bind_eq_some_iff] at ha
    obtain ⟨c, hc, hset⟩ := ha
    obtain rfl := Option.some.inj hset
    exact h.set h.valid (.restart h.valid (h.safe t c hc).retry) (.release h.valid)
  | stop t =>
    simp only [System.act, Option.bind_eq_bind, Option.bind_eq_some_iff] at ha
    obtain ⟨c, hc, hset⟩ := ha
    obtain rfl := Option.some.inj hset
    exact h.set h.valid (.start (s := sys.shared.release t) h.valid trivial) (.release h.valid)

lemma initial {db : Db Γ} {ext : Γ.External} (hdb : G.initial db ext)
    (hunique : UniqueEntries db) : (System.initial db ext).Sound G :=
  ⟨⟨hdb, hunique⟩, fun _ _ hc => absurd hc (by simp [System.initial]),
    fun _ _ => ⟨rfl, by simp [System.initial]⟩⟩

theorem run (hcode : Keeps G code) (h : sys.Sound G) {acts : List (Act Γ)}
    (hrun : sys.run code acts = some sys') : sys'.Sound G := by
  induction acts generalizing sys with
  | nil => exact Option.some.inj hrun ▸ h
  | cons a acts ih =>
    obtain ⟨next, ha, hrest⟩ := Option.bind_eq_some_iff.mp hrun
    exact ih (h.act hcode ha) hrest

end System.Sound

/-- The log of every run from a good initial state meets the guarantee at every event. -/
theorem run_valid {code : ℕ → Prog Γ Unit} (hcode : Keeps G code) {db : Db Γ}
    {ext : Γ.External} (hdb : G.initial db ext) (hunique : UniqueEntries db)
    {acts : List (Act Γ)} {sys : System Γ}
    (hrun : (System.initial db ext).run code acts = some sys) : sys.shared.log.Valid G :=
  ((System.Sound.initial hdb hunique).run hcode hrun).valid

/-- What a process that has raised an error has reported is as promised. -/
theorem run_raised {code : ℕ → Prog Γ Unit} (hcode : Keeps G code) {db : Db Γ}
    {ext : Γ.External} (hdb : G.initial db ext) (hunique : UniqueEntries db)
    {acts : List (Act Γ)} {sys : System Γ}
    (hrun : (System.initial db ext).run code acts = some sys) {t : ℕ} {c : Process Γ} {e : Γ.Error}
    (hc : sys.process t = some c) (hraise : c.prog = .raise e) :
    G.raised t (sys.shared.log.reports t) := by
  have hprog := (((System.Sound.initial hdb hunique).run hcode hrun).safe t c hc).prog
  rw [hraise] at hprog
  exact hprog

/-- If process `t` has ended with an error, each of its commits gives what the promise for
raised errors says of its report. -/
lemma run_commits_of_error {code : ℕ → Prog Γ Unit} (hcode : Keeps G code) {db : Db Γ}
    {ext : Γ.External} (hdb : G.initial db ext) (hunique : UniqueEntries db)
    {acts : List (Act Γ)} {sys : System Γ}
    (hrun : (System.initial db ext).run code acts = some sys) {t : ℕ} {e : Γ.Error}
    (herror : sys.error t = some e) {p : Γ.Report → Prop}
    (hraised : ∀ reports, G.raised t reports → ∀ report ∈ reports, p report)
    {P : Log Γ → Γ.Report → Db Γ → Prop}
    (hP : ∀ prior report held after, prior.Valid G → G.commit prior t report held after →
      p report → P prior report after) :
    sys.shared.log.Commits fun prior t' report after => t' = t → P prior report after := by
  obtain ⟨c, hc, hprog⟩ := System.process_of_error herror
  have hreports := hraised _ (run_raised hcode hdb hunique hrun hc hprog)
  refine (run_valid hcode hdb hunique hrun).commits_within ?_ .refl
  rintro prior t' report held after hle hv hcommit rfl
  have hmem : report ∈ (prior.add (.committed t' report held after)).reports t' :=
    mem_reports_committed.mpr (.inr ⟨rfl, rfl⟩)
  exact hP prior report held after hv hcommit (hreports report (mem_reports_of_precedes hle hmem))

end WiseacctSso.ReadCommitted
