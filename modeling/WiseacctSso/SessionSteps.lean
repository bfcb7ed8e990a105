import WiseacctSso.SessionGuarantee

/-!
# What a session call relies on

Every commit keeps the users and the roles, revokes tokens for good, and brings a token
in only under the lock of its ACTIVE user.
-/
namespace WiseacctSso
open ReadCommitted Phase5AuthService AdminMutationStore

variable {settings : AuthSettings} {calls : ℕ → SessionCall} {db₀ : Db store} {t : ℕ}

/-- What one commit does to one refresh token. -/
inductive TokenStep (held : Lock store → Bool) (before after : Db store) (κ : String) : Prop
  | same (h : after.get .refreshToken κ = before.get .refreshToken κ)
  | revoked {r : RefreshToken} {time : Timestamp}
      (found : before.get .refreshToken κ = some r) (live : r.revokedAt = none)
      (h : after.get .refreshToken κ = some { r with revokedAt := some time })
  | inserted {r : RefreshToken} (fresh : before.get .refreshToken κ = none)
      (active : ActiveLocked held before r.userId) (h : after.get .refreshToken κ = some r)

/-- What every session commit keeps. -/
structure SessionStep (held : Lock store → Bool) (before after : Db store) : Prop where
  users : ∀ id, (after.get .user id).isSome = (before.get .user id).isSome
  roles : ∀ id r, before.get .role id = some r → after.get .role id = some r
  tokens : ∀ κ, TokenStep held before after κ

lemma OnlyTables.get {Ts : List Table} {before after : Db store} (h : OnlyTables Ts before after)
    {T : Table} (hT : T ∉ Ts) (κ : String) : after.get T κ = before.get T κ := by
  rw [Db.get, h T hT, Db.get]

lemma TokensRevoked.step {p : RefreshToken → Prop} {before after : Db store}
    (h : TokensRevoked p before after) (held : Lock store → Bool) (κ : String) :
    TokenStep held before after κ := by
  rcases h κ with hsame | ⟨r, time, hr, -, hlive, hafter⟩
  · exact .same hsame
  · exact .revoked hr hlive hafter

lemma TokenInserted.step {userId audience : String} {issued : IssuedRefreshToken}
    {held : Lock store → Bool} {before after : Db store}
    (h : TokenInserted userId audience issued held before after) (κ : String) :
    TokenStep held before after κ := by
  by_cases hκ : κ = issued.id
  · subst hκ
    exact .inserted h.fresh h.active (by rw [h.lookup, if_pos rfl])
  · exact .same (by rw [h.lookup, if_neg hκ])

lemma TokenRotated.step {tokenHash userId audience : String} {now : Timestamp}
    {issued : IssuedRefreshToken} {held : Lock store → Bool} {before after : Db store}
    {sourceId : String} {source : RefreshToken}
    (h : TokenRotated tokenHash userId audience now issued held before after sourceId source)
    (κ : String) : TokenStep held before after κ := by
  by_cases hκ : κ = issued.id
  · subst hκ
    exact .inserted h.fresh h.active (by rw [h.lookup, if_pos rfl])
  by_cases hsource : κ = sourceId
  · subst hsource
    exact .revoked h.found h.live (by rw [h.lookup, if_neg hκ, if_pos rfl])
  · exact .same (by rw [h.lookup, if_neg hκ, if_neg hsource])

lemma UserStatusSet.isSome {userId : String} {status : UserStatus} {before after : Db store}
    (h : UserStatusSet userId status before after) (id : String) :
    (after.get .user id).isSome = (before.get .user id).isSome := by
  rw [h id]
  split
  · exact Option.isSome_map
  · rfl

/-- A commit that touches neither users, roles nor tokens keeps everything. -/
lemma OnlyTables.sessionStep {Ts : List Table} {held : Lock store → Bool}
    {before after : Db store} (h : OnlyTables Ts before after) (huser : .user ∉ Ts)
    (hrole : .role ∉ Ts) (htoken : ∀ κ, TokenStep held before after κ) :
    SessionStep held before after :=
  ⟨fun id => by rw [h.get huser], fun id r hr => by rw [h.get hrole, hr], htoken⟩

lemma SessionCommit.step {log : Log store} {held : Lock store → Bool} {after : Db store}
    {report : Report} (h : SessionCommit settings calls log t held after report) :
    SessionStep held log.db after := by
  cases h with
  | rotated _ _ _ _ _ _ effect =>
    exact effect.only.sessionStep (by simp) (by simp) effect.step
  | tokenIssued _ _ _ effect => exact effect.only.sessionStep (by simp) (by simp) effect.step
  | refused _ effect =>
    subst effect
    exact ⟨fun _ => rfl, fun _ _ hr => hr, fun _ => .same rfl⟩
  | loggedOut _ effect only => exact only.sessionStep (by simp) (by simp) (effect.step held)
  | userStatusSet _ _ effect tokens only =>
    refine ⟨effect.isSome, fun id r hr => by rw [only.get (by simp), hr], fun κ => ?_⟩
    split at tokens
    · exact tokens.revoked.step held κ
    · exact .same (tokens.get (by simp) κ)
  | roleAssigned _ effect only =>
    exact ⟨fun id => by rw [only.get (by simp)], effect.roles,
      fun κ => .same (only.get (by simp) κ)⟩
  | roleRemoved _ _ _ tokens only =>
    refine only.sessionStep (by simp) (by simp) fun κ => ?_
    split at tokens
    · exact tokens.revoked.step held κ
    · exact .same (tokens.get (by simp) κ)
  | sessionsRevoked _ _ effect only =>
    exact only.sessionStep (by simp) (by simp) (effect.revoked.step held)
  | passwordResetRequested only =>
    exact only.sessionStep (by simp) (by simp) fun κ => .same (only.get (by simp) κ)
  | passwordResetRefused only =>
    exact only.sessionStep (by simp) (by simp) fun κ => .same (only.get (by simp) κ)
  | passwordReset _ _ _ tokens only =>
    exact only.sessionStep (by simp) (by simp) (tokens.revoked.step held)
  | loginSucceeded _ _ _ only =>
    exact only.sessionStep (by simp) (by simp) fun κ => .same (only.get (by simp) κ)
  | loginFailureRecorded _ _ _ only =>
    exact only.sessionStep (by simp) (by simp) fun κ => .same (only.get (by simp) κ)

/-- What one commit does to one password credential. -/
inductive CredentialStep (report : Report) (before after : Db store) (κ : String) : Prop
  | same (h : after.get .passwordCredential κ = before.get .passwordCredential κ)
  | changed {c c' : PasswordCredential} (found : before.get .passwordCredential κ = some c)
      (h : after.get .passwordCredential κ = some c') (user : c'.userId = c.userId)
      (lock : c'.lockedUntil = c.lockedUntil ∨ c'.lockedUntil = none ∨
        report = .loginFailureRecorded c.userId c'.lockedUntil)
      (hash : c'.passwordHash = c.passwordHash ∨ report = .passwordReset (some c.userId))

lemma SessionCommit.credentialStep {log : Log store} {held : Lock store → Bool}
    {after : Db store} {report : Report}
    (h : SessionCommit settings calls log t held after report) (κ : String) :
    CredentialStep report log.db after κ := by
  cases h with
  | rotated _ _ _ _ _ _ effect => exact .same (effect.only.get (by simp) κ)
  | tokenIssued _ _ _ effect => exact .same (effect.only.get (by simp) κ)
  | refused _ effect => exact .same (by rw [effect])
  | loggedOut _ _ only => exact .same (only.get (by simp) κ)
  | userStatusSet _ _ _ _ only => exact .same (only.get (by simp) κ)
  | roleAssigned _ _ only => exact .same (only.get (by simp) κ)
  | roleRemoved _ _ _ _ only => exact .same (only.get (by simp) κ)
  | sessionsRevoked _ _ _ only => exact .same (only.get (by simp) κ)
  | passwordResetRequested only => exact .same (only.get (by simp) κ)
  | passwordResetRefused only => exact .same (only.get (by simp) κ)
  | passwordReset _ effect _ _ _ =>
    rcases effect κ with hsame | ⟨c, c', hc, rfl, rfl, hafter⟩
    · exact .same hsame
    · exact .changed hc hafter rfl (.inr (.inl rfl)) (.inr rfl)
  | loginSucceeded _ _ effect _ =>
    rcases effect κ with hsame | ⟨c, c', hc, rfl, rfl, hafter⟩
    · exact .same hsame
    · exact .changed hc hafter rfl (.inr (.inl rfl)) (.inl rfl)
  | @loginFailureRecorded _ _ _ lockedUntil _ _ effect _ =>
    rcases effect κ with hsame | ⟨c, c', hc, rfl, rfl, hafter⟩
    · exact .same hsame
    · refine .changed hc hafter rfl ?_ (.inl rfl)
      cases lockedUntil with
      | none => exact .inl rfl
      | some l => exact .inr (.inr rfl)

/-! ## Along a log -/

abbrev SessionLog (settings : AuthSettings) (calls : ℕ → SessionCall) (db₀ : Db store)
    (log : Log store) : Prop :=
  log.Valid (sessionGuarantee settings calls db₀)

/-- Every commit of the guarantee is a session step. -/
def TakesSessionSteps (G : Guarantee store) : Prop :=
  ∀ log t report held after, G.commit log t report held after → SessionStep held log.db after

lemma session_takesSteps : TakesSessionSteps (sessionGuarantee settings calls db₀) :=
  fun _ _ _ _ _ h => h.step

/-- A property of the tables that every session step keeps holds from there on. -/
theorem stable_of_step {G : Guarantee store} (hsteps : TakesSessionSteps G)
    {P : Db store → Prop} (hP : ∀ held before after, SessionStep held before after → P before →
      P after) {permitted : Event store → Prop} {log log' : Log store}
    (h : log.Extends permitted log') (hv : log'.Valid G) (hlog : P log.db) : P log'.db := by
  induction h with
  | refl => exact hlog
  | @add log' event _ _ ih =>
    cases event with
    | selected t q => exact ih hv.of_add
    | called t report ext => exact ih hv.of_add
    | committed t report held db => exact hP held _ db (hsteps _ _ _ _ _ hv.2.1) (ih hv.of_add)

lemma user_isSome_of_extends {G : Guarantee store} (hsteps : TakesSessionSteps G)
    {permitted : Event store → Prop} {log log' : Log store} (h : log.Extends permitted log')
    (hv : log'.Valid G) (id : String) :
    (log'.db.get .user id).isSome = (log.db.get .user id).isSome :=
  stable_of_step (P := fun db => (db.get .user id).isSome = (log.db.get .user id).isSome) hsteps
    (fun _ _ _ hstep hb => (hstep.users id).trans hb) h hv rfl

lemma role_of_extends {permitted : Event store → Prop} {log log' : Log store}
    (h : log.Extends permitted log') (hv : SessionLog settings calls db₀ log') {id : String}
    {r : Role} (hr : log.db.get .role id = some r) : log'.db.get .role id = some r :=
  stable_of_step (P := fun db => db.get .role id = some r) session_takesSteps
    (fun _ _ _ hstep hb => hstep.roles id r hb) h hv hr

/-- The foreign key of `RefreshToken.userId`. -/
def TokenUsersExist (db : Db store) : Prop :=
  ∀ κ r, db.get .refreshToken κ = some r → (db.get .user r.userId).isSome = true

instance (db : Db store) : Decidable (TokenUsersExist db) :=
  decidable_of_iff _ (forall_get_iff (Γ := store) (T := .refreshToken)
    (P := fun _ (r : RefreshToken) => (db.get .user r.userId).isSome = true)).symm

lemma SessionStep.tokenUsersExist {held : Lock store → Bool} {before after : Db store}
    (h : SessionStep held before after) (hb : TokenUsersExist before) :
    TokenUsersExist after := by
  intro κ r hr
  rw [h.users]
  cases h.tokens κ with
  | same hsame => exact hb κ r (hsame ▸ hr)
  | revoked found _ hafter =>
    have huser := hb κ _ found
    obtain rfl := Option.some.inj (hafter.symm.trans hr)
    exact huser
  | inserted _ active hafter =>
    obtain rfl := Option.some.inj (hafter.symm.trans hr)
    obtain ⟨u, hu, -⟩ := active.2
    rw [hu, Option.isSome_some]

lemma tokenUsersExist_of_valid (hdb : TokenUsersExist db₀) {log : Log store}
    (hv : SessionLog settings calls db₀ log) : TokenUsersExist log.db := by
  induction log with
  | initial db ext =>
    obtain rfl : db = db₀ := hv.1
    exact hdb
  | add log event ih =>
    cases event with
    | selected t q => exact ih hv.of_add
    | called t report ext => exact ih hv.of_add
    | committed t report held db => exact hv.2.1.step.tokenUsersExist (ih hv.of_add)

lemma held_of_holds {T : Table} {κ : String} {r : Option T.Row} {s : Shared store}
    (h : s.Holds t T κ r) : s.held t (.row T κ) = true := by
  simp [Shared.held, h.owner]

section writes
variable {G : Guarantee store} {s s₁ : Shared store}

lemma TokenRotated.of_ready {tokenHash audience : String} {now : Timestamp}
    {issued : IssuedRefreshToken} {sr : Shared store} {stored source : RefreshToken}
    {sourceId : String} (hs₁ : Follows G t s₁ s)
    (h : RefreshRotationStore.Ready t sr s₁ tokenHash audience now
      ⟨issued.id, issued.tokenHash, issued.expiresAt⟩ stored sourceId source) :
    TokenRotated tokenHash stored.userId stored.audience now issued (s.held t) s.db
      (view [.put .refreshToken sourceId { source with revokedAt := some now },
        .put .refreshToken issued.id
          ⟨issued.tokenHash, stored.userId, issued.expiresAt, none, stored.audience⟩] s.db)
      sourceId source := by
  obtain ⟨u, hu, hactive⟩ := h.user
  have huser := hs₁.holds hu
  refine ⟨⟨held_of_holds huser, u, huser.lookup, hactive⟩, (hs₁.holds h.held).lookup, h.sourceHash,
    h.live, h.unexpired, (hs₁.holds h.fresh).lookup, fun κ => ?_, onlyTables_view ?_ _⟩
  · rw [view_cons, view_cons, view_nil, apply_put_get, apply_put_get]
  · simp [Write.place]

lemma TokenInserted.of_holds {userId audience : String} {issued : IssuedRefreshToken} {u : User}
    (hs₁ : Follows G t s₁ s) (hu : s₁.Holds t .user userId (some u))
    (hactive : u.status = .active) (hfresh : s₁.Holds t .refreshToken issued.id none) :
    TokenInserted userId audience issued (s.held t) s.db
      (view [.put .refreshToken issued.id
        ⟨issued.tokenHash, userId, issued.expiresAt, none, audience⟩] s.db) := by
  have huser := hs₁.holds hu
  refine ⟨⟨held_of_holds huser, u, huser.lookup, hactive⟩, (hs₁.holds hfresh).lookup,
    fun κ => ?_, onlyTables_view ?_ _⟩
  · rw [view_cons, view_nil, apply_put_get]
  · simp [Write.place]

end writes

section locked
variable {G : Guarantee store} (hsteps : TakesSessionSteps G)
include hsteps

/-- While a process holds a user's lock, a live token of that user in the committed
tables was there when the lock was taken. -/
lemma live_token_of_follows {s s' : Shared store} {userId κ : String} {r : RefreshToken}
    (h : Follows G t s s') (ho : s.owner (.row .user userId) = some t)
    (hr : s'.db.get .refreshToken κ = some r) (huser : r.userId = userId)
    (hlive : r.revokedAt = none) : s.db.get .refreshToken κ = some r := by
  have hmain : ∀ log, s.log.Extends (Event.Spares s t) log → log.Valid G →
      log.db.get .refreshToken κ = some r → s.db.get .refreshToken κ = some r := by
    intro log hlog
    induction hlog with
    | refl => exact fun _ hr => hr
    | @add log event _ hspares ih =>
      intro hv hr
      cases event with
      | selected t' q => exact ih hv.of_add hr
      | called t' report ext => exact ih hv.of_add hr
      | committed t' report held db =>
        have hafter : db.get .refreshToken κ = some r := hr
        cases (hsteps _ _ _ _ _ hv.2.1).tokens κ with
        | same hsame => exact ih hv.of_add (hsame ▸ hafter)
        | revoked _ _ hrevoked =>
          obtain rfl := Option.some.inj (hrevoked.symm.trans hafter)
          exact absurd hlive (by simp)
        | inserted _ active hins =>
          obtain rfl := Option.some.inj (hins.symm.trans hafter)
          exact absurd ho (huser ▸ hspares.2 _ active.1)
  exact hmain _ h.log h.valid hr

/-- An UPDATE that revokes the live tokens of a locked user leaves none of them live. -/
lemma sessionsRevoked_of_swept {userId : String} {now : Timestamp} {ws : List (Write store)}
    {sl s₀ s₁ s : Shared store} {done : List (String × RefreshToken)}
    (ho : sl.owner (.row .user userId) = some t) (hs₀ : Follows G t sl s₀)
    (hd : Swept G t Table.refreshToken (revocable userId)
      (matching (view ws s₀.db) .refreshToken (revocable userId)) ws s₀ s₁ done)
    (hs : Follows G t s₁ s) (hws : ∀ w ∈ ws, w.place.1 ≠ .refreshToken) :
    SessionsRevoked userId s.db (view (ws ++ sweepWrites (T := Table.refreshToken)
      (.set fun r : RefreshToken => { r with revokedAt := some now }) done) s.db) := by
  refine ⟨tokensRevoked_of_swept (by simp) hws hd hs now, fun κ r hr huser hlive => ?_⟩
  by_cases hm : ∃ r, (κ, r) ∈ done
  · obtain ⟨r₀, hr₀⟩ := hm
    rw [view_set_of_mem hd.nodup hr₀] at hr
    obtain rfl := Option.some.inj hr
    exact absurd hlive (by simp)
  rw [view_sweep_of_notMem fun r hr => hm ⟨r, hr⟩, view_get_of_table_ne hws] at hr
  -- The live token was there at the snapshot and at every later point, so it was not missed.
  have hback : ∀ sv, Follows G t s₀ sv → Follows G t sv s →
      sv.db.get .refreshToken κ = some r :=
    fun sv hsv hsv' =>
      live_token_of_follows hsteps hsv' (hsv.owner _ (hs₀.owner _ ho)) hr huser hlive
  have hsnap := hback s₀ (.refl hs₀.valid) (hd.follows.trans hs)
  have hkey : κ ∈ matching (view ws s₀.db) .refreshToken (revocable userId) :=
    mem_matching.mpr ⟨r, by rw [view_get_of_table_ne hws, hsnap], by simp [huser, hlive]⟩
  rcases hd.missed κ hkey with hdone | ⟨sv, hsv, hsv', hn⟩
  · exact hm hdone
  · have hnot := hn r (by rw [view_get_of_table_ne hws, hback sv hsv (hsv'.trans hs)])
    simp [huser, hlive] at hnot

end locked

end WiseacctSso
