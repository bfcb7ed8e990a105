import WiseacctSso.AccountEffects
import WiseacctSso.SessionStoreSpecs

/-!
# What the account stores do

One rule for each store method, whatever guarantee the other processes keep. What a
method relies on between its statements is `Steady`.
-/
namespace WiseacctSso
open ReadCommitted

variable {G : Guarantee store} {t : ℕ} {s : Shared store} {ws : List (Write store)}
  {whole : List Table}

/-- Other processes keep roles, keep the assignments of a user whose row process `t` has
locked, and bring no row of that user into the tables `whole`. -/
structure Steady (G : Guarantee store) (t : ℕ) (whole : List Table) : Prop where
  roles : ∀ {s s' : Shared store} {κ : String} {r : Role}, Follows G t s s' →
    s.db.get .role κ = some r → s'.db.get .role κ = some r
  assignments : ∀ {s s' : Shared store} {κ : String} {ur : UserRole}, Follows G t s s' →
    s.owner (.row .user ur.userId) = some t → s.db.get .userRole κ = some ur →
    s'.db.get .userRole κ = some ur
  settled : ∀ {s s' : Shared store} {T : Table} {κ userId : String} {r : T.Row}, T ∈ whole →
    Follows G t s s' → s.owner (.row .user userId) = some t → T.owner r = some userId →
    s'.db.get T κ = some r → s.db.get T κ = some r

namespace Steady

/-- A fact about a committed row that other processes keep is kept of the row as this
transaction sees it. -/
lemma view_kept {T : Table} {κ : String} {r : T.Row} {db db' : Db store}
    (h : db.get T κ = some r → db'.get T κ = some r)
    (hr : (view ws db).get T κ = some r) : (view ws db').get T κ = some r := by
  by_cases hw : ∃ w ∈ ws, w.place = (T, κ)
  · rwa [view_get_of_place_mem hw db' db]
  · have hne : ∀ w ∈ ws, w.place ≠ (T, κ) := fun w hm hp => hw ⟨w, hm, hp⟩
    rw [view_get_of_place_ne hne] at hr ⊢
    exact h hr

lemma view_roles (h : Steady G t whole) {s' : Shared store} (hs : Follows G t s s') {κ : String}
    {r : Role} (hr : (view ws s.db).get .role κ = some r) :
    (view ws s'.db).get .role κ = some r :=
  view_kept (h.roles hs) hr

lemma view_assignments (h : Steady G t whole) {s' : Shared store} (hs : Follows G t s s')
    {κ : String} {ur : UserRole} (ho : s.owner (.row .user ur.userId) = some t)
    (hur : (view ws s.db).get .userRole κ = some ur) :
    (view ws s'.db).get .userRole κ = some ur :=
  view_kept (h.assignments hs ho) hur

lemma view_settled (h : Steady G t whole) {s' : Shared store} (hs : Follows G t s s')
    {T : Table} (hT : T ∈ whole) {κ userId : String} {r : T.Row}
    (ho : s.owner (.row .user userId) = some t) (hr : T.owner r = some userId)
    (hget : (view ws s'.db).get T κ = some r) : (view ws s.db).get T κ = some r :=
  view_kept (h.settled hT hs ho hr) hget

end Steady

/-! ## Cascades -/

lemma cascaded_nil {f : (T : Table) → T.Row → Option T.Row} {userId : String} {db : Db store} :
    Cascaded f userId [] whole db db :=
  ⟨by simp, by simp, fun _ _ => rfl⟩

/-- One statement of a cascade, followed by those of the other tables. -/
lemma Cascaded.cons {f : (T : Table) → T.Row → Option T.Row} {userId : String} {T : Table}
    {Ts : List Table} {before mid after : Db store} {done : List (String × T.Row)}
    (hT : T ∉ Ts) (hrow : Rewritten (Γ := store) T (f T) done before mid)
    (howner : ∀ κ r, (κ, r) ∈ done → T.owner r = some userId)
    (hdone : T ∈ whole → ∀ κ r, before.get T κ = some r → T.owner r = some userId →
      (κ, r) ∈ done)
    (hrest : Cascaded f userId Ts whole mid after) :
    Cascaded f userId (T :: Ts) whole before after := by
  have hself : ∀ κ, after.get T κ = mid.get T κ := fun κ => by rw [Db.get, hrest.other T hT, Db.get]
  have hother : ∀ T' ∈ Ts, ∀ κ, mid.get T' κ = before.get T' κ := by
    intro T' hT' κ
    have hne : T' ≠ T := by
      rintro rfl
      exact hT hT'
    exact hrow.get_other hne κ
  refine ⟨fun T' hT' κ => ?_, fun T' hT' hwhole κ r hr ho => ?_, fun T' hT' => ?_⟩
  · rcases List.mem_cons.mp hT' with rfl | hT'
    · rw [hself]
      rcases hrow.cases κ with hsame | ⟨r, hr, hb, ha⟩
      · exact .inl hsame
      · exact .inr ⟨r, hb, howner κ r hr, ha⟩
    · have hc := hrest.child T' hT' κ
      rwa [hother T' hT'] at hc
  · rcases List.mem_cons.mp hT' with rfl | hT'
    · rw [hself]
      exact hrow.changed κ r (hdone hwhole κ r hr ho)
    · exact hrest.complete T' hT' hwhole κ r ((hother T' hT' κ).trans hr) ho
  · have hne : T' ≠ T := fun he => hT' (he ▸ List.mem_cons_self)
    rw [hrest.other T' fun hm => hT' (List.mem_cons_of_mem T hm)]
    exact hrow.other T' hne

/-- The rule of one statement that takes rows of a locked user to what `f` makes of them. -/
lemma cascaded_of_ran (hsteady : Steady G t whole) {f : (T : Table) → T.Row → Option T.Row}
    {userId : String} {T : Table} {Ts : List Table} {s₁ : Shared store}
    {ws₁ : List (Write store)} {done : List (String × T.Row)}
    (ho : s.owner (.row .user userId) = some t) (hT : T ∉ Ts)
    (hran : Ran G t T (fun _ r => T.owner r = some userId) (f T) s ws s₁ ws₁ done)
    {s' : Shared store} (hs' : Follows G t s₁ s') {after : Db store}
    (hrest : Cascaded f userId Ts whole (view ws₁ s'.db) after) :
    Cascaded f userId (T :: Ts) whole (view ws s'.db) after := by
  refine .cons hT (hran.effect s' hs') (fun κ r hr => ?_) (fun hwhole κ r hr howner => ?_) hrest
  · simpa using hran.matched κ r hr
  · refine hran.complete hs' (by simpa using howner) fun sv hsv hsv' => ?_
    exact hsteady.view_settled hsv' hwhole (hsv.owner _ ho) howner hr

theorem wp_cascadeUpdate (hsteady : Steady G t whole) {userId newId : String} {Ts : List Table}
    (hTs : Ts.Nodup) (hv : s.log.Valid G) (ho : s.owner (.row .user userId) = some t)
    {Q : Post store Unit} (hraise : ∀ e s' ws', Q.raise e s' ws')
    (h : ∀ s₁ ws₁, Follows G t s s₁ → (∀ s', Follows G t s₁ s' →
      Cascaded (moveTo newId) userId Ts whole (view ws s'.db) (view ws₁ s'.db)) →
      Q.ret () s₁ ws₁) :
    wp G t (cascadeUpdate userId newId Ts) Q s ws := by
  induction Ts generalizing s ws with
  | nil => exact h s ws (.refl hv) fun s' _ => cascaded_nil
  | cons T Ts ih =>
    obtain ⟨hT, hrest⟩ := List.nodup_cons.mp hTs
    refine wp_bind.mpr (wp_moveRows (fun _ _ _ => hraise _ _ _) fun s₁ ws₁ done _ hran => ?_)
    refine ih hrest hran.follows.valid (hran.follows.owner _ ho) fun s₂ ws₂ hs₂ hcascaded => ?_
    refine h s₂ ws₂ (hran.follows.trans hs₂) fun s' hs' => ?_
    exact cascaded_of_ran hsteady ho hT hran (hs₂.trans hs') (hcascaded s' hs')

theorem wp_cascadeDelete (hsteady : Steady G t whole) {userId : String} {Ts : List Table}
    (hTs : Ts.Nodup) (hv : s.log.Valid G) (ho : s.owner (.row .user userId) = some t)
    {Q : Post store Unit}
    (h : ∀ s₁ ws₁, Follows G t s s₁ → (∀ s', Follows G t s₁ s' →
      Cascaded dropRow userId Ts whole (view ws s'.db) (view ws₁ s'.db)) → Q.ret () s₁ ws₁) :
    wp G t (cascadeDelete userId Ts) Q s ws := by
  induction Ts generalizing s ws with
  | nil => exact h s ws (.refl hv) fun s' _ => cascaded_nil
  | cons T Ts ih =>
    obtain ⟨hT, hrest⟩ := List.nodup_cons.mp hTs
    refine wp_bind.mpr (wp_deleteRows fun s₁ ws₁ done _ hran => ?_)
    refine ih hrest hran.follows.valid (hran.follows.owner _ ho) fun s₂ ws₂ hs₂ hcascaded => ?_
    refine h s₂ ws₂ (hran.follows.trans hs₂) fun s' hs' => ?_
    exact cascaded_of_ran hsteady ho hT hran (hs₂.trans hs') (hcascaded s' hs')

lemma setOwner_of_owner {T : Table} {userId : String} {r : T.Row}
    (h : T.owner r = some userId) : T.setOwner userId r = r := by
  cases T <;> simp_all [Table.owner, Table.setOwner] <;> subst h <;> rfl

/-- A user that keeps its id keeps its children. -/
lemma cascaded_refl {userId : String} {Ts : List Table} {db : Db store} :
    Cascaded (moveTo userId) userId Ts whole db db := by
  refine ⟨fun _ _ _ => .inl rfl, fun T _ _ κ r hr ho => ?_, fun _ _ => rfl⟩
  rw [hr, moveTo, setOwner_of_owner ho]

/-! ## Roles -/

/-- Missing roles may have been made; nothing else has changed. -/
structure RolesSeeded (before after : Db store) : Prop where
  roles : ∀ κ (r : Role), before.get .role κ = some r → after.get .role κ = some r
  other : ∀ T, T ≠ .role → after T = before T

theorem wp_seedRoles {roles : List (String × Role)} (hv : s.log.Valid G) {Q : Post store Unit}
    (hraise : ∀ e s' ws', Q.raise e s' ws')
    (h : ∀ s₁ ws₁, Follows G t s s₁ → (∀ s', Follows G t s₁ s' →
      RolesSeeded (view ws s'.db) (view ws₁ s'.db)) → Q.ret () s₁ ws₁) :
    wp G t (seedRoles roles) Q s ws := by
  induction roles generalizing s ws with
  | nil => exact h s ws (.refl hv) fun s' _ => ⟨fun _ _ hr => hr, fun _ _ => rfl⟩
  | cons x roles ih =>
    refine wp_bind.mpr (wp_putOrSkip (fun _ _ => hraise _ _ _) ?_ ?_)
    · intro s₁ hs₁ _
      refine ih hs₁.valid fun s₂ ws₂ hs₂ hseeded => ?_
      exact h s₂ ws₂ (hs₁.trans hs₂) hseeded
    · intro s₁ ws₁ hput
      refine ih hput.follows.valid fun s₂ ws₂ hs₂ hseeded => ?_
      refine h s₂ ws₂ (hput.follows.trans hs₂) fun s' hs' => ?_
      have hins := hput.effect s' (hs₂.trans hs')
      have hrest := hseeded s' hs'
      exact ⟨fun κ r hr => hrest.roles κ r (hins.keeps hr),
        fun T hT => (hrest.other T hT).trans (hins.other T hT)⟩

/-- The SELECT after a seeding finds the role it is about. -/
lemma firstRow_role {db : Db store} {defaultRole : DefaultRole} {roleId : String} {role : Role}
    (h : firstRow db Table.role (fun _ (r : Role) => r.serviceKey = defaultRole.serviceKey &&
      r.name = defaultRole.name) = some (roleId, role)) :
    db.get .role roleId = some defaultRole.toRole := by
  obtain ⟨hget, hp⟩ := firstRow_some h
  simp only [Bool.and_eq_true, decide_eq_true_eq] at hp
  obtain ⟨serviceKey, name⟩ := role
  rw [hget, DefaultRole.toRole, ← hp.1, ← hp.2]

theorem wp_seedTemisAndAssignDefaultRole (hsteady : Steady G t whole) {ids : SeedIds}
    {userId : String} {defaultRole : DefaultRole} (hv : s.log.Valid G)
    (ho : s.owner (.row .user userId) = some t) {Q : Post store Unit}
    (hraise : ∀ e s' ws', Q.raise e s' ws')
    (h : ∀ s₁ ws₁, Follows G t s s₁ → (∀ s', Follows G t s₁ s' →
      RoleGranted userId defaultRole.toRole (view ws s'.db) (view ws₁ s'.db)) →
      Q.ret () s₁ ws₁) :
    wp G t (seedTemisAndAssignDefaultRole ids userId defaultRole) Q s ws := by
  refine wp_bind.mpr (wp_seedRoles hv hraise fun s₁ ws₁ hs₁ hseeded => ?_)
  refine wp_bind.mpr (wp_query fun sr hsr => ?_)
  have hread := hsr.selected (.defaultRole defaultRole.serviceKey defaultRole.name)
  rcases hfirst : firstRow (view ws₁ sr.db) Table.role (fun _ (r : Role) =>
    r.serviceKey = defaultRole.serviceKey && r.name = defaultRole.name) with _ | ⟨roleId, role⟩
  · exact hraise _ _ _
  have hrole := firstRow_role hfirst
  -- The role that was found is still there at any later moment.
  have hlater : ∀ s', Follows G t sr s' →
      (view ws₁ s'.db).get .role roleId = some defaultRole.toRole :=
    fun s' hs' => hsteady.view_roles hs' hrole
  refine wp_bind.mpr (wp_putOrSkip (fun _ _ => hraise _ _ _) ?_ ?_)
  · intro s₂ hs₂ hheld
    have hfrom : Follows G t sr s₂ := (Follows.record_selected hsr.valid _).trans hs₂
    refine h s₂ ws₁ ((hs₁.trans hread).trans hs₂) fun s' hs' => ?_
    have hrow := hseeded s' ((hread.trans hs₂).trans hs')
    have huser : s₂.owner (.row .user userId) = some t := ((hs₁.trans hread).trans hs₂).owner _ ho
    obtain ⟨κ, ur, hur, he⟩ : ∃ κ ur, (view ws₁ s₂.db).get Table.userRole κ = some ur ∧
        Entry.userRole userId roleId ∈ Table.uniques .userRole ur := by
      have hany : holdsEntry (Γ := store) (view ws₁ s₂.db) .userRole
          (.userRole userId roleId) = true := by simpa using hheld
      exact holdsEntry_eq_true.mp hany
    obtain ⟨urUser, urRole⟩ := ur
    obtain ⟨rfl, rfl⟩ : userId = urUser ∧ roleId = urRole := by simpa using he
    refine ⟨hrow.roles, ⟨roleId, κ, hlater s' (hfrom.trans hs'), ?_⟩, fun κ' => .inl ?_,
      fun T hT _ => hrow.other T hT⟩
    · exact hsteady.view_assignments hs' huser hur
    · rw [Db.get, hrow.other .userRole (by simp), Db.get]
  · intro s₂ ws₂ hput
    have hfrom : Follows G t sr s₂ := (Follows.record_selected hsr.valid _).trans hput.follows
    refine h s₂ ws₂ ((hs₁.trans hread).trans hput.follows) fun s' hs' => ?_
    have hrow := hseeded s' ((hread.trans hput.follows).trans hs')
    have hins := hput.effect s' hs'
    have hroleAfter : (view ws₂ s'.db).get .role roleId = some defaultRole.toRole := by
      rw [hins.get_other (by simp)]
      exact hlater s' (hfrom.trans hs')
    have hsame : ∀ κ, (view ws₁ s'.db).get .userRole κ = (view ws s'.db).get .userRole κ :=
      fun κ => by rw [Db.get, hrow.other .userRole (by simp), Db.get]
    refine ⟨fun κ r hr => ?_, ⟨roleId, _, hroleAfter, hins.self⟩, fun κ => ?_, fun T hT hT' => ?_⟩
    · rw [hins.get_other (by simp)]
      exact hrow.roles κ r hr
    · have hget := hins.lookup κ
      split at hget
      · next hκ =>
        subst hκ
        exact .inr ⟨(hsame _).symm.trans hins.absent, roleId, hroleAfter, hget⟩
      · exact .inl (hget.trans (hsame κ))
    · rw [hins.other T hT', hrow.other T hT]

/-! ## Email verification -/

/-- The tables show every row as before. -/
def SameRows (before after : Db store) : Prop :=
  ∀ (T : Table) (κ : String), after.get T κ = before.get T κ

lemma sameRows_of_rewritten {T : Table} {f : T.Row → Option T.Row} {before after : Db store}
    (h : Rewritten (Γ := store) T f [] before after) : SameRows before after := by
  intro T' κ
  by_cases hT : T' = T
  · subst hT
    exact h.kept κ (by simp)
  · exact h.get_other hT κ

namespace EmailVerificationStore

theorem wp_activateUser (hsteady : Steady G t whole) {userId : String}
    {reservedId : Option String} {Q : Post store (List (String × User))}
    (hraise : ∀ e s' ws', Q.raise e s' ws')
    (hnone : ∀ sv s₁ ws₁, Follows G t s sv → Follows G t sv s₁ →
      (∀ u, (view ws sv.db).get .user userId = some u → u.status ≠ .pendingEmailVerification) →
      (∀ s', Follows G t s₁ s' → SameRows (view ws s'.db) (view ws₁ s'.db)) → Q.ret [] s₁ ws₁)
    (hone : ∀ s₁ ws₁ u, Follows G t s s₁ → s₁.owner (.row .user userId) = some t →
      s₁.owner (.row .user (reservedId.getD userId)) = some t →
      (∀ s', Follows G t s₁ s' → ∃ activated,
        UserActivated userId (reservedId.getD userId) u (view ws s'.db) activated ∧
        Cascaded (moveTo (reservedId.getD userId)) userId childTables whole activated
          (view ws₁ s'.db)) →
      Q.ret [(userId, u)] s₁ ws₁) :
    wp G t (activateUser userId reservedId) Q s ws := by
  have hkey : ∀ (κ : String) (u : User),
      (κ = userId && u.status = .pendingEmailVerification) = true → κ = userId := by
    intro κ u h
    simp only [Bool.and_eq_true, decide_eq_true_eq] at h
    exact h.1
  have hmissed : ∀ {f : User → Option User} {s₁ ws₁}, Ran G t Table.user (fun id u =>
      id = userId && u.status = .pendingEmailVerification) f s ws s₁ ws₁ [] → Q.ret [] s₁ ws₁ := by
    intro f s₁ ws₁ hran
    obtain ⟨sv, hsv, hsv', hunmatched⟩ := hran.missed userId
    refine hnone sv s₁ ws₁ hsv hsv' (fun u hu hstatus => ?_)
      fun s' hs' => sameRows_of_rewritten (hran.effect s' hs')
    have hfalse := hunmatched u hu
    simp [hstatus] at hfalse
  unfold activateUser
  dsimp only
  split
  · next hsame =>
    have hid : reservedId.getD userId = userId := by
      cases reservedId with
      | none => rfl
      | some id =>
        by_contra hne
        simp only [Option.getD_some] at hne
        simp [Option.filter, hne] at hsame
    rw [hid] at hone
    refine wp_updateRows fun s₁ ws₁ done hnodup hran => ?_
    rcases hran.nil_or_single userId hnodup hkey with rfl | ⟨u, rfl⟩
    · exact hmissed hran
    · have ho := hran.owner userId u (by simp)
      refine hone s₁ ws₁ u hran.follows ho ho fun s' hs' => ⟨_, ?_, cascaded_refl⟩
      have heffect := hran.effect s' hs'
      have hpending := hran.matched userId u (by simp)
      simp only [Bool.and_eq_true, decide_eq_true_eq] at hpending
      refine ⟨heffect.found userId u (by simp), hpending.2, fun hne => absurd rfl hne,
        fun id => ?_, heffect.other⟩
      rw [heffect.single id]
      split
      · rfl
      · rfl
  · next newId hnew =>
    obtain ⟨hid, hne⟩ : reservedId = some newId ∧ newId ≠ userId := by
      cases reservedId with
      | none => simp at hnew
      | some id =>
        by_cases hid : id = userId
        · simp [Option.filter, hid] at hnew
        · have heq : id = newId := by simpa [Option.filter, hid] using hnew
          exact ⟨by rw [heq], heq ▸ hid⟩
    subst hid
    simp only [Option.getD_some] at hone
    refine wp_bind.mpr (wp_deleteRows fun s₁ ws₁ done hnodup hran => ?_)
    rcases hran.nil_or_single userId hnodup hkey with rfl | ⟨u, rfl⟩
    · exact hmissed hran
    have ho := hran.owner userId u (by simp)
    have hpending := hran.matched userId u (by simp)
    simp only [Bool.and_eq_true, decide_eq_true_eq] at hpending
    refine wp_bind.mpr (wp_putRow (fun _ _ => hraise _ _ _) fun s₂ ws₂ hput => wp_bind.mpr ?_)
    refine wp_cascadeUpdate hsteady (by decide) hput.follows.valid (hput.follows.owner _ ho) hraise
      fun s₃ ws₃ hs₃ hcascaded => ?_
    refine hone s₃ ws₃ u ((hran.follows.trans hput.follows).trans hs₃)
      ((hput.follows.trans hs₃).owner _ ho) (hs₃.owner _ hput.owner) fun s' hs' => ?_
    refine ⟨view ws₂ s'.db, ?_, hcascaded s' hs'⟩
    have hout := hran.effect s' ((hput.follows.trans hs₃).trans hs')
    have hin := hput.effect s' (hs₃.trans hs')
    have hfresh : (view ws s'.db).get .user newId = none := by
      have habsent := hin.absent
      rwa [hout.single, if_neg hne] at habsent
    refine ⟨hout.found userId u (by simp), hpending.2, fun _ => hfresh, fun id => ?_,
      fun T hT => (hin.other T hT).trans (hout.other T hT)⟩
    rw [hin.lookup, hout.single]
    rfl

/-- What the confirmation of a pending user found of the id it is to have. -/
def Reserved (py : PythonText) (user : User) (userId activatedId : String) (db : Db store) : Prop :=
  activatedId ≠ userId → ∃ email κ row, user.email = some email ∧
    db.get .subjectReservation κ = some row ∧ row.email = py.lower email ∧
    row.subjectId = activatedId

/-- Why a confirmation that read the user as pending has not activated it: the id it was to
have is another user's, or the user has not stayed pending. -/
inductive ActivationConflict (py : PythonText) (user : User) (userId : String)
    (start now : Log store) : Prop
  | taken {reservationLog takenLog : Log store} {reservedId : String}
      (reservationRead : start.Precedes reservationLog)
      (reserved : Reserved py user userId reservedId reservationLog.db)
      (other : reservedId ≠ userId) (read : reservationLog.Precedes takenLog)
      (before : takenLog.Precedes now)
      (taken : (takenLog.db.get .user reservedId).isSome = true)
  | changed {log : Log store} (after : start.Precedes log) (before : log.Precedes now)
      (notPending : ∀ u, log.db.get .user userId = some u →
        u.status ≠ .pendingEmailVerification)

lemma ActivationConflict.mono {py : PythonText} {user : User} {userId : String}
    {start start' now now' : Log store} (h : ActivationConflict py user userId start now)
    (hstart : start'.Precedes start) (hnow : now.Precedes now') :
    ActivationConflict py user userId start' now' := by
  cases h with
  | taken reservationRead reserved other read before taken =>
    exact .taken (hstart.trans reservationRead) reserved other read (before.trans hnow) taken
  | changed after before notPending =>
    exact .changed (hstart.trans after) (before.trans hnow) notPending

/-- Whether another user has the reserved id. -/
def reservedTaken (userId : String) (reservedId : Option String) : StoreProg Bool :=
  match reservedId.filter (· ≠ userId) with
  | none => pure false
  | some reserved => query (.userById reserved) fun db => (db.get .user reserved).isSome

theorem wp_activate (hsteady : Steady G t whole) {py : PythonText} {ids : SeedIds}
    {userId : String} {user : User} {defaultRole : DefaultRole} {Q : Post store (Option String)}
    (hv : s.log.Valid G)
    (hws : ∀ s', Follows G t s s' → ∀ T κ, T ≠ Table.emailVerificationToken →
      (view ws s'.db).get T κ = s'.db.get T κ)
    (hraise : ∀ e s' ws', Q.raise e s' ws')
    (hnone : ∀ s₁ ws₁, Follows G t s s₁ → ActivationConflict py user userId s.log s₁.log →
      (∀ s', Follows G t s₁ s' → SameRows (view ws s'.db) (view ws₁ s'.db)) → Q.ret none s₁ ws₁)
    (hsome : ∀ sr s₁ ws₁ activatedId u, Follows G t s sr → Follows G t sr s₁ →
      Reserved py user userId activatedId sr.db →
      s₁.owner (.row .user userId) = some t → s₁.owner (.row .user activatedId) = some t →
      (∀ s', Follows G t s₁ s' → ∃ activated moved,
        UserActivated userId activatedId u (view ws s'.db) activated ∧
        Cascaded (moveTo activatedId) userId childTables whole activated moved ∧
        RoleGranted activatedId defaultRole.toRole moved (view ws₁ s'.db)) →
      Q.ret (some activatedId) s₁ ws₁) :
    wp G t (activate py ids userId user defaultRole) Q s ws := by
  -- What follows once the reservation has been read in `sr`.
  have hrest : ∀ sr s₀ (reserved : Option String), Follows G t s sr → Follows G t sr s₀ →
      Reserved py user userId ((reserved.filter (· ≠ "")).getD userId) sr.db →
      wp G t (do
        let reservedId := reserved.filter (· ≠ "")
        let taken ← reservedTaken userId reservedId
        if taken then pure none else do
        let activated ← activateUser userId reservedId
        if activated.length ≠ 1 then pure none else do
        let activatedId := reservedId.getD userId
        seedTemisAndAssignDefaultRole ids activatedId defaultRole
        pure (some activatedId)) Q s₀ ws := by
    intro sr s₀ reserved hsr hs₀ hreserved
    have htail : ∀ s₁ taken, Follows G t s₀ s₁ →
        (taken = true → ActivationConflict py user userId s.log s₁.log) →
        wp G t (if taken = true then pure none else do
          let activated ← activateUser userId (reserved.filter (· ≠ ""))
          if activated.length ≠ 1 then pure none else do
          seedTemisAndAssignDefaultRole ids ((reserved.filter (· ≠ "")).getD userId) defaultRole
          pure (some ((reserved.filter (· ≠ "")).getD userId))) Q s₁ ws := by
      intro s₁ taken hs₁ htaken
      have hfrom : Follows G t s s₁ := (hsr.trans hs₀).trans hs₁
      split
      · next ht => exact hnone s₁ ws hfrom (htaken ht) fun _ _ _ _ => rfl
      refine wp_bind.mpr (wp_activateUser hsteady hraise ?_ ?_)
      · intro sv s₂ ws₂ hsv hs₂ hnotPending hsame
        refine hnone s₂ ws₂ ((hfrom.trans hsv).trans hs₂)
          (.changed (hfrom.trans hsv).precedes hs₂.precedes fun u hu => hnotPending u ?_) hsame
        rwa [hws sv (hfrom.trans hsv) .user userId (by simp)]
      · intro s₂ ws₂ u hs₂ ho ho' heffect
        refine wp_bind.mpr ?_
        refine wp_seedTemisAndAssignDefaultRole hsteady hs₂.valid ho' hraise
          fun s₃ ws₃ hs₃ hgranted => ?_
        refine hsome sr s₃ ws₃ _ u hsr ((hs₀.trans hs₁).trans (hs₂.trans hs₃)) hreserved
          (hs₃.owner _ ho) (hs₃.owner _ ho') fun s' hs' => ?_
        obtain ⟨activated, huser, hchildren⟩ := heffect s' (hs₃.trans hs')
        exact ⟨activated, _, huser, hchildren, hgranted s' hs'⟩
    refine wp_bind.mpr ?_
    unfold reservedTaken
    split
    · exact htail s₀ false (.refl hs₀.valid) (by simp)
    · next reservedId hother =>
      refine wp_query fun s₁ hs₁ => htail _ _ (hs₁.selected _) fun htaken => ?_
      obtain ⟨hid, hne⟩ := Option.filter_eq_some_iff.mp hother
      rw [hid] at hreserved
      rw [hws s₁ ((hsr.trans hs₀).trans hs₁) .user reservedId (by simp)] at htaken
      exact .taken hsr.precedes hreserved (by simpa using hne) (hs₀.trans hs₁).precedes
        (.single trivial) htaken
  refine wp_bind.mpr ?_
  split
  · exact hrest s s none (.refl hv) (.refl hv) fun hne => absurd rfl hne
  · next email hemail =>
    refine wp_query fun sr hsr => hrest sr _ _ hsr (.record_selected hsr.valid _) ?_
    intro hne
    have huser : user.email = some email := (Option.filter_eq_some_iff.mp hemail).1
    rcases hfirst : firstRow (view ws sr.db) Table.subjectReservation
      (fun _ (r : SubjectReservation) => r.email = py.lower email) with _ | ⟨κ, row⟩
    · rw [hfirst] at hne
      exact absurd rfl hne
    · obtain ⟨hget, hp⟩ := firstRow_some hfirst
      rw [hws sr hsr .subjectReservation κ (by simp)] at hget
      rw [hfirst] at hne
      have hid : (Option.filter (· ≠ "") (some row.subjectId)).getD userId = row.subjectId := by
        by_cases hempty : row.subjectId = ""
        · exact absurd (by simp [Option.filter, hempty]) hne
        · simp [Option.filter, hempty]
      exact ⟨email, κ, row, huser, hget, by simpa using hp, hid.symm⟩

theorem wp_attach {credentialId userId : String}
    {pending : PendingPasswordCredential} {Q : Post store (Option String)}
    (hraise : ∀ e s' ws', Q.raise e s' ws')
    (hsome : ∀ s₁ ws₁, Follows G t s s₁ → (∀ s', Follows G t s₁ s' → ∃ attached,
      Inserted (Γ := store) .passwordCredential credentialId
        ⟨pending.userId, pending.email, pending.passwordHash, 0, none⟩ (view ws s'.db) attached ∧
      PendingRemoved userId attached (view ws₁ s'.db)) → Q.ret (some userId) s₁ ws₁) :
    wp G t (attach credentialId userId pending) Q s ws := by
  refine wp_bind.mpr (wp_putRow (fun _ _ => hraise _ _ _) fun s₁ ws₁ hput => ?_)
  refine wp_bind.mpr (wp_deleteRows fun s₂ ws₂ done _ hran => wp_bind.mpr ?_)
  unfold requireOne
  split
  swap
  · exact hraise _ _ _
  refine hsome s₂ ws₂ (hput.follows.trans hran.follows) fun s' hs' => ⟨view ws₁ s'.db, ?_, ?_⟩
  · exact hput.effect s' (hran.follows.trans hs')
  have hout := hran.effect s' hs'
  refine ⟨fun κ => ?_, hout.other⟩
  rcases hout.cases κ with hsame | ⟨p, hp, hbefore, hafter⟩
  · exact .inl hsame
  · exact .inr ⟨hafter, p, hbefore, by simpa using hran.matched κ p hp⟩

/-- The UPDATE that consumes a token has found it live. -/
lemma tokenUsed_of_ran {tokenId userId : String} {usedAt : Timestamp} {s₁ : Shared store}
    {ws₁ : List (Write store)} {token : EmailVerificationToken}
    (hran : Ran G t Table.emailVerificationToken (fun id r =>
        id = tokenId && r.userId = userId && r.usedAt = none && usedAt < r.expiresAt)
      (fun r => some { r with usedAt := some usedAt }) s ws s₁ ws₁ [(tokenId, token)])
    {s' : Shared store} (hs' : Follows G t s₁ s') :
    TokenUsed tokenId userId usedAt token (view ws s'.db) (view ws₁ s'.db) := by
  have hlive := hran.matched tokenId token (by simp)
  simp only [Bool.and_eq_true, decide_eq_true_eq] at hlive
  have heffect := hran.effect s' hs'
  exact ⟨heffect.found tokenId token (by simp), hlive.1.1.2, hlive.1.2, hlive.2, heffect.single,
    heffect.other⟩

theorem wp_confirm (hsteady : Steady G t whole) {py : PythonText} {ids : ConfirmIds}
    {tokenId userId : String} {usedAt : Timestamp} {defaultRole : DefaultRole}
    {Q : Post store (Option String)} (hraise : ∀ e s' ws', Q.raise e s' ws')
    (hnone : ∀ s₁ ws₁, Follows G t s s₁ →
      (∀ s', Follows G t s₁ s' → SameRows s'.db (view ws₁ s'.db)) → Q.ret none s₁ ws₁)
    (hconflict : ∀ su s₁ ws₁ u₀, Follows G t s su → Follows G t su s₁ →
      su.db.get .user userId = some u₀ → u₀.status = .pendingEmailVerification →
      ActivationConflict py u₀ userId su.log s₁.log →
      (∀ s', Follows G t s₁ s' → ∃ token used, TokenUsed tokenId userId usedAt token s'.db used ∧
        SameRows used (view ws₁ s'.db)) → Q.ret none s₁ ws₁)
    (hactivated : ∀ su sr s₁ ws₁ activatedId u₀ token u, Follows G t s su → Follows G t su sr →
      Follows G t sr s₁ → su.db.get .user userId = some u₀ →
      u₀.status = .pendingEmailVerification → Reserved py u₀ userId activatedId sr.db →
      s₁.owner (.row .user userId) = some t → s₁.owner (.row .user activatedId) = some t →
      (∀ s', Follows G t s₁ s' → ∃ used activated moved,
        Activation tokenId userId activatedId usedAt defaultRole.toRole token u whole s'.db used
          activated moved (view ws₁ s'.db)) →
      Q.ret (some activatedId) s₁ ws₁)
    (hattached : ∀ su sp s₁ ws₁ κ pending token, Follows G t s su → Follows G t su sp →
      Follows G t (sp.record (.selected t (.pendingPassword userId))) s₁ →
      (∀ u, su.db.get .user userId = some u → u.status ≠ .pendingEmailVerification) →
      sp.db.get .pendingPasswordCredential κ = some pending → pending.userId = userId →
      usedAt < pending.expiresAt →
      (∀ s', Follows G t s₁ s' → ∃ used attached,
        Attachment tokenId userId ids.credential usedAt token pending s'.db used attached
          (view ws₁ s'.db)) →
      Q.ret (some userId) s₁ ws₁) :
    wp G t (confirm py ids tokenId userId usedAt defaultRole) Q s [] := by
  refine wp_bind.mpr (wp_query fun su hsu => wp_bind.mpr (wp_query fun sp hsp => ?_))
  have hread : Follows G t su (sp.record (.selected t (.pendingPassword userId))) :=
    ((Follows.record_selected hsu.valid (.confirmedUser userId)).trans hsp).selected _
  generalize hs₀ : sp.record (.selected t (.pendingPassword userId)) = s₀ at hread ⊢
  dsimp only [view_nil]
  split
  · exact hnone s₀ [] (hsu.trans hread) fun _ _ _ _ => rfl
  next hcan =>
  refine wp_bind.mpr (wp_updateRows fun s₁ ws₁ done hnodup hran => ?_)
  rcases hran.nil_or_single tokenId hnodup (fun κ r hp => by
    simp only [Bool.and_eq_true, decide_eq_true_eq] at hp
    exact hp.1.1.1) with rfl | ⟨token, rfl⟩
  · refine hnone s₁ ws₁ ((hsu.trans hread).trans hran.follows) fun s' hs' => ?_
    exact sameRows_of_rewritten (hran.effect s' hs')
  have hused : ∀ s', Follows G t s₁ s' →
      TokenUsed tokenId userId usedAt token s'.db (view ws₁ s'.db) :=
    fun s' hs' => tokenUsed_of_ran hran hs'
  simp only [List.length_singleton, ne_eq, not_true_eq_false, if_false]
  split
  · next u₀ huser =>
    obtain ⟨hget, hpending⟩ := Option.filter_eq_some_iff.mp huser
    have hstatus : u₀.status = .pendingEmailVerification := by simpa using hpending
    refine wp_activate hsteady hran.follows.valid
      (fun s' hs' T κ hT => (hused s' hs').get_other hT κ) hraise ?_ ?_
    · intro s₂ ws₂ hs₂ hconflict' hsame
      refine hconflict su s₂ ws₂ u₀ hsu ((hread.trans hran.follows).trans hs₂) hget hstatus
        (hconflict'.mono (hread.trans hran.follows).precedes .refl) fun s' hs' => ?_
      exact ⟨token, _, hused s' (hs₂.trans hs'), hsame s' hs'⟩
    · intro sr s₂ ws₂ activatedId u hsr hs₂ hreserved ho ho' heffect
      refine hactivated su sr s₂ ws₂ activatedId u₀ token u hsu
        ((hread.trans hran.follows).trans hsr) hs₂ hget hstatus hreserved ho ho' fun s' hs' => ?_
      obtain ⟨activated, moved, huser', hchildren, hrole⟩ := heffect s' hs'
      exact ⟨_, activated, moved, hused s' ((hsr.trans hs₂).trans hs'), huser', hchildren, hrole⟩
  · next pending hnotPending hpending =>
    obtain ⟨hget, hlive⟩ := Option.filter_eq_some_iff.mp hpending
    obtain ⟨⟨κ, pending'⟩, hfirst, rfl⟩ := Option.map_eq_some_iff.mp hget
    obtain ⟨hrow, howner⟩ := firstRow_some hfirst
    refine wp_attach hraise fun s₂ ws₂ hs₂ heffect => ?_
    refine hattached su sp s₂ ws₂ κ pending' token hsu
      ((Follows.record_selected hsu.valid (.confirmedUser userId)).trans hsp)
      (hs₀ ▸ hran.follows.trans hs₂) (fun u hu hstatus => ?_) hrow (by simpa using howner)
      (by simpa using hlive) fun s' hs' => ?_
    · rw [hu] at hnotPending
      simp [Option.filter, hstatus] at hnotPending
    · obtain ⟨attached, hinserted, hremoved⟩ := heffect s' hs'
      exact ⟨_, attached, hused s' (hs₂.trans hs'), hinserted, hremoved⟩
  · next hactivating hattaching =>
    exact absurd (by simp [hactivating, hattaching]) hcan

end EmailVerificationStore

/-! ## Registration -/

theorem UserReadStore.wp_findByEmail {email : String} {Q : Post store (Option CurrentUserRecord)}
    (hnone : ∀ su s₁, Follows G t s su → Follows G t su s₁ →
      (∀ id u, (view ws su.db).get .user id = some u → u.email ≠ some email) → Q.ret none s₁ ws)
    (hsome : ∀ su s₁ u user, Follows G t s su → Follows G t su s₁ →
      (view ws su.db).get .user user.id = some u → u.email = some email →
      user.emailVerified = u.emailVerified → Q.ret (some user) s₁ ws) :
    wp G t (UserReadStore.findByEmail email) Q s ws := by
  refine wp_bind.mpr (wp_query fun su hsu => ?_)
  have hfrom : Follows G t su (su.record (.selected t (.findByEmail email))) :=
    .record_selected hsu.valid _
  rcases hfirst : firstRow (view ws su.db) Table.user
    (fun _ (u : User) => u.email = some email) with _ | ⟨id, u⟩
  · refine hnone su _ hsu hfrom fun id u hu hemail => ?_
    have hmiss := firstRow_none hfirst hu
    simp [hemail] at hmiss
  · obtain ⟨hget, hemail⟩ := firstRow_some hfirst
    refine wp_bind.mpr (wp_bind.mpr (wp_query fun s₁ hs₁ => ?_))
    exact hsome su _ u _ hsu ((hfrom.trans hs₁).selected _) hget (by simpa using hemail) rfl

namespace PasswordAuthStore

theorem wp_upsertPendingPassword {py : PythonText} {pending : PendingPasswordUpsert}
    {Q : Post store Unit} (hraise : ∀ e s' ws', Q.raise e s' ws')
    (h : ∀ s₁ ws₁, Follows G t s s₁ → (∀ s', Follows G t s₁ s' →
      PendingUpserted ⟨pending.userId, py.lower pending.email, pending.passwordHash,
        pending.expiresAt⟩ (view ws s'.db) (view ws₁ s'.db)) → Q.ret () s₁ ws₁) :
    wp G t (upsertPendingPassword py pending) Q s ws := by
  refine wp_bind.mpr (wp_putOrSkip (fun _ _ => hraise _ _ _) ?_ ?_)
  · intro s₁ hs₁ _
    refine wp_bind.mpr (wp_moveRows (fun _ _ _ => hraise _ _ _) fun s₂ ws₂ done _ hran => ?_)
    dsimp only
    split
    · exact hraise _ _ _
    unfold requireOne
    split
    swap
    · exact hraise _ _ _
    next hne hone =>
    obtain ⟨⟨κ, p⟩, rfl⟩ := List.length_eq_one_iff.mp hone
    have howner : p.userId = pending.userId := by simpa using hran.matched κ p (by simp)
    refine h s₂ ws₂ (hs₁.trans hran.follows) fun s' hs' => ?_
    have heffect := hran.effect s' hs'
    have hrow : (view ws₂ s'.db).get .pendingPasswordCredential κ = some
        ⟨pending.userId, py.lower pending.email, pending.passwordHash, pending.expiresAt⟩ := by
      rw [heffect.single, if_pos rfl, ← howner]
    refine ⟨⟨κ, hrow⟩, fun κ' p' hp' => ?_, heffect.other⟩
    by_cases hκ : κ' = κ
    · subst hκ
      exact .inr (Option.some.inj (hp'.symm.trans hrow))
    · rw [heffect.single, if_neg hκ] at hp'
      exact .inl hp'
  · intro s₁ ws₁ hput
    refine h s₁ ws₁ hput.follows fun s' hs' => ?_
    have hins := hput.effect s' hs'
    refine ⟨⟨_, hins.self⟩, fun κ p hp => ?_, hins.other⟩
    rw [hins.lookup] at hp
    split at hp
    · exact .inr (Option.some.inj hp).symm
    · exact .inl hp

end PasswordAuthStore

/-- What a registration has found of the verified user it gives a pending password. -/
structure PendingFor (email userId : String) (su sc : Db store) : Prop where
  user : ∃ u : User, su.get .user userId = some u ∧ u.email = some email ∧ u.emailVerified = true
  credential : credentialByEmail sc email = none

theorem Phase5AuthService.wp_registerUser {settings : AccountSettings} {email : String}
    {name : Option String} {draws : RegisterDraws} {Q : Post store String}
    (hraise : ∀ e s' ws', Q.raise e s' ws')
    (hskip : ∀ s₁ userId, Follows G t s s₁ → Q.ret userId s₁ [])
    (hpending : ∀ su sc s₁ ws₁ userId, Follows G t s su → Follows G t su sc → Follows G t sc s₁ →
      PendingFor email userId su.db sc.db →
      (∀ s', Follows G t s₁ s' → PendingUpserted ⟨userId, settings.py.lower email,
        draws.passwordHash, draws.now + pendingPasswordCredentialTtlMs⟩ s'.db
        (view ws₁ s'.db)) →
      Q.ret userId s₁ ws₁)
    (hnew : ∀ su s₁ ws₁, Follows G t s su → Follows G t su s₁ →
      (∀ id u, su.db.get .user id = some u → u.email ≠ some email) →
      s₁.owner (.row .user draws.userId) = some t →
      (∀ s', Follows G t s₁ s' → ∃ created,
        Inserted (Γ := store) .user draws.userId
          ⟨some email, name, none, .pendingEmailVerification, false⟩ s'.db created ∧
        Inserted (Γ := store) .passwordCredential draws.credentialId
          ⟨draws.userId, settings.py.lower email, draws.passwordHash, 0, none⟩ created
          (view ws₁ s'.db)) →
      Q.ret draws.userId s₁ ws₁) :
    wp G t (registerUser settings email name draws) Q s [] := by
  refine wp_bind.mpr (UserReadStore.wp_findByEmail ?_ ?_)
  · intro su s₁ hsu hs₁ hmissing
    refine wp_bind.mpr (wp_bind.mpr (wp_putRow (fun _ _ => hraise _ _ _) fun s₂ ws₂ hput => ?_))
    refine wp_putRow (fun _ _ => hraise _ _ _) fun s₃ ws₃ hput' => ?_
    refine hnew su s₃ ws₃ hsu ((hs₁.trans hput.follows).trans hput'.follows) hmissing
      (hput'.follows.owner _ hput.owner) fun s' hs' => ⟨view ws₂ s'.db, ?_, hput'.effect s' hs'⟩
    exact hput.effect s' (hput'.follows.trans hs')
  · intro su s₁ u user hsu hs₁ hget hemail hverified
    refine wp_bind.mpr (wp_query fun sc hsc => ?_)
    have hread : Follows G t sc (sc.record (.selected t (.findCredentialByEmail email))) :=
      .record_selected hsc.valid _
    dsimp only
    split
    · next hcond =>
      simp only [Bool.and_eq_true, Option.isNone_iff_eq_none] at hcond
      refine wp_bind.mpr (PasswordAuthStore.wp_upsertPendingPassword hraise
        fun s₂ ws₂ hs₂ heffect => ?_)
      exact hpending su sc s₂ ws₂ user.id hsu (hs₁.trans hsc) (hread.trans hs₂)
        ⟨⟨u, hget, hemail, hverified ▸ hcond.2⟩, hcond.1⟩ heffect
    · exact hskip _ user.id (((hsu.trans hs₁).trans hsc).trans hread)

/-! ## OAuth identities -/

namespace OAuthIdentityStore

/-- The email and the id that the new user of a profile has been given. -/
structure Named (ids : OAuthIds) (normalizedEmail userEmail : Option String) (userId : String)
    (db : Db store) : Prop where
  email : userEmail = none ∨ userEmail = normalizedEmail
  id : userId = ids.user ∨ ∃ κ row, db.get .subjectReservation κ = some row ∧
    userEmail = some row.email ∧ row.subjectId = userId

/-- The subject that is reserved for an email. -/
def reservedSubject (userEmail : Option String) : StoreProg (Option String) :=
  match userEmail.filter (· ≠ "") with
  | none => pure none
  | some email => query (.reservation email) fun db =>
      (firstRow db .subjectReservation fun _ r => r.email = email).map (·.2.subjectId)

theorem wp_createUser (hsteady : Steady G t whole) {ids : OAuthIds} {profile : OAuthProfileRecord}
    {normalizedEmail : Option String} {defaultRole : DefaultRole} {Q : Post store OAuthUserRecord}
    (hv : s.log.Valid G) (hraise : ∀ e s' ws', Q.raise e s' ws')
    (h : ∀ sr s₁ ws₁ userId userEmail, Follows G t s sr → Follows G t sr s₁ →
      Named ids normalizedEmail userEmail userId (view ws sr.db) →
      s₁.owner (.row .user userId) = some t →
      (∀ s', Follows G t s₁ s' → ∃ created linked, Creation userId ids.social
        ⟨userEmail, profile.name, profile.profileUrl, .active, profile.emailVerified⟩
        ⟨profile.provider, profile.providerUserId, profile.email, userId⟩ defaultRole.toRole
        (view ws s'.db) created linked (view ws₁ s'.db)) →
      Q.ret (record userId ⟨userEmail, profile.name, profile.profileUrl, .active,
        profile.emailVerified⟩) s₁ ws₁) :
    wp G t (createUser ids profile normalizedEmail defaultRole) Q s ws := by
  have hinsert : ∀ sr s₀ userEmail userId, Follows G t s sr → Follows G t sr s₀ →
      Named ids normalizedEmail userEmail userId (view ws sr.db) →
      wp G t (do
        insertRow (Γ := store) .uniqueViolation .user userId
          ⟨userEmail, profile.name, profile.profileUrl, .active, profile.emailVerified⟩
        insertRow (Γ := store) .uniqueViolation .socialAccount ids.social
          ⟨profile.provider, profile.providerUserId, profile.email, userId⟩
        seedTemisAndAssignDefaultRole ids.seed userId defaultRole
        pure (record userId ⟨userEmail, profile.name, profile.profileUrl, .active,
          profile.emailVerified⟩)) Q s₀ ws := by
    intro sr s₀ userEmail userId hsr hs₀ hnamed
    refine wp_bind.mpr (wp_putRow (fun _ _ => hraise _ _ _) fun s₁ ws₁ hput => wp_bind.mpr ?_)
    refine wp_putRow (fun _ _ => hraise _ _ _) fun s₂ ws₂ hput' => wp_bind.mpr ?_
    have ho := hput'.follows.owner _ hput.owner
    refine wp_seedTemisAndAssignDefaultRole hsteady hput'.follows.valid ho hraise
      fun s₃ ws₃ hs₃ hgranted => ?_
    refine h sr s₃ ws₃ userId userEmail hsr
      (((hs₀.trans hput.follows).trans hput'.follows).trans hs₃) hnamed (hs₃.owner _ ho) ?_
    intro s' hs'
    exact ⟨view ws₁ s'.db, view ws₂ s'.db, hput.effect s' ((hput'.follows.trans hs₃).trans hs'),
      hput'.effect s' (hs₃.trans hs'), hgranted s' hs'⟩
  -- The email is known; its reservation is read next.
  have hreserve : ∀ s₀ (userEmail : Option String), Follows G t s s₀ →
      (userEmail = none ∨ userEmail = normalizedEmail) →
      wp G t (do
        let reserved ← reservedSubject userEmail
        insertRow (Γ := store) .uniqueViolation .user (reserved.getD ids.user)
          ⟨userEmail, profile.name, profile.profileUrl, .active, profile.emailVerified⟩
        insertRow (Γ := store) .uniqueViolation .socialAccount ids.social
          ⟨profile.provider, profile.providerUserId, profile.email, reserved.getD ids.user⟩
        seedTemisAndAssignDefaultRole ids.seed (reserved.getD ids.user) defaultRole
        pure (record (reserved.getD ids.user) ⟨userEmail, profile.name, profile.profileUrl, .active,
          profile.emailVerified⟩)) Q s₀ ws := by
    intro s₀ userEmail hs₀ hemail
    refine wp_bind.mpr ?_
    unfold reservedSubject
    split
    · exact hinsert s₀ s₀ userEmail _ hs₀ (.refl hs₀.valid) ⟨hemail, .inl rfl⟩
    · next email hsome =>
      have huser : userEmail = some email := (Option.filter_eq_some_iff.mp hsome).1
      refine wp_query fun sr hsr => hinsert sr _ userEmail _ (hs₀.trans hsr)
        (.record_selected hsr.valid _) ⟨hemail, ?_⟩
      rcases hfirst : firstRow (view ws sr.db) Table.subjectReservation
        (fun _ (r : SubjectReservation) => r.email = email) with _ | ⟨κ, row⟩
      · exact .inl rfl
      · obtain ⟨hget, hp⟩ := firstRow_some hfirst
        have hrow : row.email = email := by simpa using hp
        exact .inr ⟨κ, row, hget, hrow ▸ huser, rfl⟩
  refine wp_bind.mpr ?_
  split
  · exact hreserve s normalizedEmail (.refl hv) (.inr rfl)
  · next email hsome =>
    have hnormal : normalizedEmail = some email := (Option.filter_eq_some_iff.mp hsome).1
    refine wp_bind.mpr (wp_query fun so hso => ?_)
    rcases firstRow (view ws so.db) Table.user (fun _ (u : User) => u.email = some email) with
      _ | owner
    · exact hreserve _ (some email) (hso.selected _) (.inr hnormal.symm)
    · exact hreserve _ none (hso.selected _) (.inl rfl)

lemma wp_cascadeDelete_any {userId : String} {Ts : List Table} {Q : Post store Unit}
    (h : ∀ s₁ ws₁, Q.ret () s₁ ws₁) : wp G t (cascadeDelete userId Ts) Q s ws := by
  induction Ts generalizing s ws with
  | nil => exact h s ws
  | cons T Ts ih => exact wp_bind.mpr (wp_deleteRows fun _ _ _ _ _ => ih)

theorem wp_deleteUser (hsteady : Steady G t whole) {userId : String}
    {Q : Post store (List (String × User))} (hnone : ∀ s₁ ws₁, Q.ret [] s₁ ws₁)
    (hone : ∀ s₁ ws₁ u, Follows G t s s₁ → s₁.owner (.row .user userId) = some t →
      (∀ s', Follows G t s₁ s' → UserRemoved userId u whole (view ws s'.db) (view ws₁ s'.db)) →
      Q.ret [(userId, u)] s₁ ws₁) :
    wp G t (deleteUser userId) Q s ws := by
  refine wp_bind.mpr (wp_deleteRows fun s₁ ws₁ done hnodup hran => wp_bind.mpr ?_)
  rcases hran.nil_or_single userId hnodup (fun κ r hp => by simpa using hp) with
    rfl | ⟨u, rfl⟩
  · exact wp_cascadeDelete_any hnone
  have ho := hran.owner userId u (by simp)
  refine wp_cascadeDelete hsteady (by decide) hran.follows.valid ho fun s₂ ws₂ hs₂ hcascaded => ?_
  refine hone s₂ ws₂ u (hran.follows.trans hs₂) (hs₂.owner _ ho) fun s' hs' => ?_
  have hout := hran.effect s' (hs₂.trans hs')
  have hchildren := hcascaded s' hs'
  have hsame : ∀ T ∈ childTables, ∀ κ, (view ws₁ s'.db).get T κ = (view ws s'.db).get T κ := by
    intro T hT κ
    have hne : T ≠ .user := by
      rintro rfl
      simp [childTables] at hT
    exact hout.get_other hne κ
  refine ⟨hout.found userId u (by simp), fun id => ?_, fun T hT κ => ?_,
    fun T hT hwhole κ r hr ho' => ?_, fun T hT hT' => ?_⟩
  · rw [Db.get, hchildren.other .user (by simp [childTables]), ← Db.get, hout.single]
  · rcases hchildren.child T hT κ with hkept | ⟨r, hr, howner, hafter⟩
    · exact .inl (hkept.trans (hsame T hT κ))
    · exact .inr ⟨hafter, r, (hsame T hT κ).symm.trans hr, howner⟩
  · exact hchildren.complete T hT hwhole κ r ((hsame T hT κ).trans hr) ho'
  · exact (hchildren.other T hT').trans (hout.other T hT)

/-- What a sign-in has found of the user of its profile's email. -/
structure FoundByEmail (py : PythonText) (profile : OAuthProfileRecord) (userId email : String)
    (u : User) (db : Db store) : Prop where
  verified : profile.emailVerified = true
  normalized : (profile.email.map fun email => py.lower (py.strip email)) = some email
  user : db.get .user userId = some u
  email : u.email = some email

theorem wp_resolveOrCreate (hsteady : Steady G t whole) {py : PythonText} {ids : OAuthIds}
    {profile : OAuthProfileRecord} {defaultRole : DefaultRole} {Q : Post store OAuthUserRecord}
    (hv : s.log.Valid G) (hraise : ∀ e s' ws', Q.raise e s' ws')
    (hlinked : ∀ se s₁ ws₁ userId email u, Follows G t s se →
      Follows G t (se.record (.selected t (.verifiedEmailUser email))) s₁ →
      FoundByEmail py profile userId email u se.db → u.status = .active →
      u.emailVerified = true →
      (∀ s', Follows G t s₁ s' → Inserted (Γ := store) .socialAccount ids.social
        ⟨profile.provider, profile.providerUserId, some email, userId⟩ s'.db (view ws₁ s'.db)) →
      Q.ret (record userId u) s₁ ws₁)
    (hcreated : ∀ sr s₁ ws₁ userId userEmail, Follows G t s sr → Follows G t sr s₁ →
      Named ids (profile.email.map fun email => py.lower (py.strip email)) userEmail userId sr.db →
      s₁.owner (.row .user userId) = some t →
      (∀ s', Follows G t s₁ s' → ∃ created linked, Creation userId ids.social
        ⟨userEmail, profile.name, profile.profileUrl, .active, profile.emailVerified⟩
        ⟨profile.provider, profile.providerUserId, profile.email, userId⟩ defaultRole.toRole
        s'.db created linked (view ws₁ s'.db)) →
      Q.ret (record userId ⟨userEmail, profile.name, profile.profileUrl, .active,
        profile.emailVerified⟩) s₁ ws₁)
    (hreplaced : ∀ se sr s₁ ws₁ oldId email u₀ u userId userEmail, Follows G t s se →
      Follows G t (se.record (.selected t (.verifiedEmailUser email))) sr → Follows G t sr s₁ →
      FoundByEmail py profile oldId email u₀ se.db → u₀.status = .pendingEmailVerification →
      u₀.emailVerified = false →
      Named ids (profile.email.map fun email => py.lower (py.strip email)) userEmail userId sr.db →
      s₁.owner (.row .user oldId) = some t → s₁.owner (.row .user userId) = some t →
      (∀ s', Follows G t s₁ s' → ∃ removed created linked,
        UserRemoved oldId u whole s'.db removed ∧ Creation userId ids.social
          ⟨userEmail, profile.name, profile.profileUrl, .active, profile.emailVerified⟩
          ⟨profile.provider, profile.providerUserId, profile.email, userId⟩ defaultRole.toRole
          removed created linked (view ws₁ s'.db)) →
      Q.ret (record userId ⟨userEmail, profile.name, profile.profileUrl, .active,
        profile.emailVerified⟩) s₁ ws₁) :
    wp G t (resolveOrCreate py ids profile defaultRole) Q s [] := by
  have hcreate : ∀ s₀, Follows G t s s₀ → wp G t (createUser ids profile
      (profile.email.map fun email => py.lower (py.strip email)) defaultRole) Q s₀ [] := by
    intro s₀ hs₀
    refine wp_createUser hsteady hs₀.valid hraise ?_
    intro sr s₁ ws₁ userId userEmail hsr hs₁ hnamed ho heffect
    exact hcreated sr s₁ ws₁ userId userEmail (hs₀.trans hsr) hs₁ hnamed ho heffect
  refine wp_bind.mpr ?_
  split
  · exact hcreate s (.refl hv)
  next email hsome =>
  obtain ⟨hnormal, hcond⟩ := Option.filter_eq_some_iff.mp hsome
  simp only [Bool.and_eq_true, decide_eq_true_eq] at hcond
  refine wp_query fun se hse => ?_
  have hread : Follows G t se (se.record (.selected t (.verifiedEmailUser email))) :=
    .record_selected hse.valid _
  rcases hfirst : firstRow (view [] se.db) Table.user (fun _ (u : User) => u.email = some email)
    with _ | ⟨oldId, u₀⟩
  · exact hcreate _ (hse.trans hread)
  obtain ⟨hget, hemail⟩ := firstRow_some hfirst
  have hfound : FoundByEmail py profile oldId email u₀ se.db :=
    ⟨hcond.2, hnormal, hget, by simpa using hemail⟩
  dsimp only
  split
  · next hpending =>
    refine wp_bind.mpr (wp_deleteUser hsteady (fun _ _ => wp_bind.mpr (hraise _ _ _)) ?_)
    intro s₁ ws₁ u hs₁ ho hremoved
    refine wp_bind.mpr (wp_createUser hsteady hs₁.valid hraise ?_)
    intro sr s₂ ws₂ userId userEmail hsr hs₂ hnamed ho' heffect
    refine hreplaced se sr s₂ ws₂ oldId email u₀ u userId userEmail hse (hs₁.trans hsr) hs₂ hfound
      hpending.1 hpending.2 ⟨hnamed.email, ?_⟩ ((hsr.trans hs₂).owner _ ho) ho' fun s' hs' => ?_
    · rcases hnamed.id with hid | ⟨κ, row, hrow, hrest⟩
      · exact .inl hid
      · rw [Db.get, (hremoved sr hsr).other .subjectReservation (by simp)
          (by simp [childTables])] at hrow
        exact .inr ⟨κ, row, hrow, hrest⟩
    · obtain ⟨created, linked, hcreation⟩ := heffect s' hs'
      exact ⟨_, created, linked, hremoved s' ((hsr.trans hs₂).trans hs'), hcreation⟩
  split
  · next hactive =>
    refine wp_bind.mpr (wp_putRow (fun _ _ => hraise _ _ _) fun s₁ ws₁ hput => ?_)
    have heffect := hput.effect
    rw [hnormal] at heffect
    exact hlinked se s₁ ws₁ oldId email u₀ hse hput.follows hfound hactive.1
      hactive.2 heffect
  · exact hcreate _ (hse.trans hread)

end OAuthIdentityStore

end WiseacctSso
