import WiseacctSso.AccountStoreSpecs
import WiseacctSso.ReadCommittedSoundness

/-!
# What the commits of account calls may do

For each report of an account call, what its commit does to the tables and what the call
had read before. Every commit keeps roles and reservations, and touches the assignments of
a user only under the lock of its row.
-/
namespace WiseacctSso
open ReadCommitted Phase5AuthService EmailVerificationStore OAuthIdentityStore

/-- The status of one user may be set; refresh tokens may be revoked. -/
structure StatusChanged (userId : String) (status : UserStatus) (before after : Db store) :
    Prop where
  user : ∀ id, after.get .user id = before.get .user id ∨
    id = userId ∧ ∃ u, before.get .user id = some u ∧
      after.get .user id = some { u with status := status }
  other : ∀ T, T ≠ .user → T ≠ .refreshToken → after T = before T

section guarantee

variable (settings : AccountSettings) (calls : ℕ → AccountCall)

/-- Callback `t` is for a client with this default role and has this profile. -/
def CallbackOf (t : ℕ) (profile : OAuthProfileRecord) (defaultRole : DefaultRole)
    (ids : OAuthIds) : Prop :=
  ∃ clientId rawUser client p, calls t = .oauthCallback clientId rawUser ids ∧
    settings.authClients clientId = some client ∧ client.defaultRole = defaultRole ∧
    normalizeProfile settings rawUser = some p ∧ oauthProfileRecord p = profile

/-- The commits of account calls, by what they report. -/
inductive AccountCommit (log : Log store) (t : ℕ) (held : Lock store → Bool) (after : Db store) :
    Report → Prop
  | unchanged {report : Report} (effect : after = log.db)
      (report_eq : (∃ userId, report = .registered userId) ∨
        ∃ userId, report = .oauthResolved userId) : AccountCommit log t held after report
  | pendingUpserted {input : RegisterInput} {draws : RegisterDraws} {userId : String}
      (call : calls t = .register input draws)
      (effect : PendingUpserted ⟨userId, settings.py.lower
        (normalizeEmail settings.toAuthSettings input.email), draws.passwordHash,
        draws.now + pendingPasswordCredentialTtlMs⟩ log.db after) :
      AccountCommit log t held after (.registered userId)
  | registered {input : RegisterInput} {draws : RegisterDraws} {created : Db store}
      (call : calls t = .register input draws)
      (locked : held (.row .user draws.userId) = true)
      (user : Inserted (Γ := store) .user draws.userId
        ⟨some (normalizeEmail settings.toAuthSettings input.email), input.name, none,
          .pendingEmailVerification, false⟩ log.db created)
      (credential : Inserted (Γ := store) .passwordCredential draws.credentialId
        ⟨draws.userId, settings.py.lower (normalizeEmail settings.toAuthSettings input.email),
          draws.passwordHash, 0, none⟩ created after) :
      AccountCommit log t held after (.registered draws.userId)
  | verificationTokenCreated {email : String} {handoff : Option ClientHandoff}
      {draws : VerificationDraws} {row : EmailVerificationToken}
      (call : calls t = .requestEmailVerification email handoff draws)
      (effect : Inserted (Γ := store) .emailVerificationToken draws.tokenId row log.db after)
      (hash : row.tokenHash = draws.tokenHash) (unused : row.usedAt = none) :
      AccountCommit log t held after (.verificationTokenCreated draws.tokenHash)
  | confirmRefused {tokenHash : String} {now : Timestamp} {ids : ConfirmIds}
      (call : calls t = .confirmEmailVerification tokenHash now ids)
      (effect : SameRows log.db after) : AccountCommit log t held after (.emailConfirmed none)
  | confirmConflicted {tokenHash tokenId userId : String} {now : Timestamp} {ids : ConfirmIds}
      {tokenLog userLog : Log store} {record : EmailVerificationToken} {u₀ : User}
      {token : EmailVerificationToken} {used : Db store}
      (call : calls t = .confirmEmailVerification tokenHash now ids)
      (tokenRead : tokenLog.Precedes userLog)
      (tokenFound : tokenLog.db.get .emailVerificationToken tokenId = some record)
      (tokenHash_eq : record.tokenHash = tokenHash)
      (read : userLog.Precedes log) (found : userLog.db.get .user userId = some u₀)
      (pending : u₀.status = .pendingEmailVerification)
      (conflict : ActivationConflict settings.py u₀ userId userLog log)
      (effect : TokenUsed tokenId userId now token log.db used) (same : SameRows used after) :
      AccountCommit log t held after (.emailConfirmed none)
  | activated {tokenHash tokenId userId activatedId : String} {now : Timestamp} {ids : ConfirmIds}
      {userLog reservationLog : Log store} {u₀ u : User} {token : EmailVerificationToken}
      {used activated moved : Db store}
      (call : calls t = .confirmEmailVerification tokenHash now ids)
      (read : userLog.Precedes log) (found : userLog.db.get .user userId = some u₀)
      (pending : u₀.status = .pendingEmailVerification)
      (reservationRead : reservationLog.Precedes log)
      (reserved : Reserved settings.py u₀ userId activatedId reservationLog.db)
      (locked : held (.row .user userId) = true) (locked' : held (.row .user activatedId) = true)
      (effect : Activation tokenId userId activatedId now DEFAULT_ROLE.toRole token u [.userRole]
        log.db used activated moved after) :
      AccountCommit log t held after (.emailConfirmed (some activatedId))
  | attached {tokenHash tokenId userId κ : String} {now : Timestamp} {ids : ConfirmIds}
      {tokenLog userLog pendingLog : Log store} {record : EmailVerificationToken}
      {pending : PendingPasswordCredential} {token : EmailVerificationToken}
      {used attached : Db store} (call : calls t = .confirmEmailVerification tokenHash now ids)
      (tokenRead : tokenLog.Precedes pendingLog)
      (tokenFound : tokenLog.db.get .emailVerificationToken tokenId = some record)
      (tokenHash_eq : record.tokenHash = tokenHash)
      (userRead : userLog.Precedes log)
      (notPending : ∀ u, userLog.db.get .user userId = some u →
        u.status ≠ .pendingEmailVerification)
      (read : (pendingLog.add (.selected t (.pendingPassword userId))).Precedes log)
      (found : pendingLog.db.get .pendingPasswordCredential κ = some pending)
      (owner : pending.userId = userId) (unexpired : now < pending.expiresAt)
      (effect : Attachment tokenId userId ids.credential now token pending log.db used attached
        after) :
      AccountCommit log t held after (.emailConfirmed (some userId))
  | linked {profile : OAuthProfileRecord} {defaultRole : DefaultRole} {ids : OAuthIds}
      {userId email : String} (callback : CallbackOf settings calls t profile defaultRole ids)
      (effect : Inserted (Γ := store) .socialAccount ids.social
        ⟨profile.provider, profile.providerUserId, some email, userId⟩ log.db after) :
      AccountCommit log t held after (.oauthResolved userId)
  | created {profile : OAuthProfileRecord} {defaultRole : DefaultRole} {ids : OAuthIds}
      {userId : String} {userEmail : Option String} {reservationLog : Log store}
      {created linked : Db store}
      (callback : CallbackOf settings calls t profile defaultRole ids)
      (read : reservationLog.Precedes log)
      (named : Named ids (profile.email.map fun email => settings.py.lower
        (settings.py.strip email)) userEmail userId reservationLog.db)
      (locked : held (.row .user userId) = true)
      (effect : Creation userId ids.social
        ⟨userEmail, profile.name, profile.profileUrl, .active, profile.emailVerified⟩
        ⟨profile.provider, profile.providerUserId, profile.email, userId⟩ defaultRole.toRole
        log.db created linked after) :
      AccountCommit log t held after (.oauthResolved userId)
  | replaced {profile : OAuthProfileRecord} {defaultRole : DefaultRole} {ids : OAuthIds}
      {oldId userId email : String} {userEmail : Option String} {u₀ u : User}
      {readLog reservationLog : Log store} {removed created linked : Db store}
      (callback : CallbackOf settings calls t profile defaultRole ids)
      (read : (readLog.add (.selected t (.verifiedEmailUser email))).Precedes log)
      (found : FoundByEmail settings.py profile oldId email u₀ readLog.db)
      (pending : u₀.status = .pendingEmailVerification) (unverified : u₀.emailVerified = false)
      (reservationRead : reservationLog.Precedes log)
      (named : Named ids (profile.email.map fun email => settings.py.lower
        (settings.py.strip email)) userEmail userId reservationLog.db)
      (locked : held (.row .user oldId) = true) (locked' : held (.row .user userId) = true)
      (removal : UserRemoved oldId u [.userRole] log.db removed)
      (effect : Creation userId ids.social
        ⟨userEmail, profile.name, profile.profileUrl, .active, profile.emailVerified⟩
        ⟨profile.provider, profile.providerUserId, profile.email, userId⟩ defaultRole.toRole
        removed created linked after) :
      AccountCommit log t held after (.oauthResolved userId)
  | userStatusSet {actor target : String} {status : UserStatus} {now : Timestamp}
      (call : calls t = .setUserStatus actor target status now)
      (effect : StatusChanged target status log.db after) :
      AccountCommit log t held after (.userStatusSet target status)

/-- The account of the profile's provider identity is of this user. -/
def OwnedBy (profile : OAuthProfileRecord) (userId : String) (db : Db store) : Prop :=
  ∃ (κ : String) (a : SocialAccount), db.get .socialAccount κ = some a ∧
    a.provider = profile.provider ∧ a.providerUserId = profile.providerUserId ∧ a.userId = userId

def ActiveIn (userId : String) (db : Db store) : Prop :=
  ∃ u : User, db.get .user userId = some u ∧ u.status = .active

/-- Process `t` has read the tables of this log, or has committed them. -/
def Observed (t : ℕ) (seen log : Log store) : Prop :=
  (∃ q, (seen.add (.selected t q)).Precedes log) ∨
    ∃ (prior : Log store) (report : Report) (held : Lock store → Bool) (after : Db store),
      seen = prior.add (.committed t report held after) ∧ seen.Precedes log

/-- What callback `t` has seen of the user that it returns. -/
structure SignedIn (t : ℕ) (profile : OAuthProfileRecord) (userId : String) (log : Log store) :
    Prop where
  owner : ∃ seen, Observed t seen log ∧ OwnedBy profile userId seen.db
  active : ∃ seen, Observed t seen log ∧ ActiveIn userId seen.db

/-- Runs of account calls from the tables `db₀`. A call that raises an error has committed
at most the use of a verification token. -/
def accountGuarantee (db₀ : Db store) : Guarantee store where
  initial db _ := db = db₀
  commit log t report held after := AccountCommit settings calls log t held after report
  call log t report _ := ∀ userId, report = .signedIn userId → ∃ profile defaultRole ids,
    CallbackOf settings calls t profile defaultRole ids ∧ SignedIn t profile userId log
  raised _ reports := ∀ report ∈ reports, report = .emailConfirmed none

end guarantee

lemma Observed.mono {t : ℕ} {seen log log' : Log store} (h : Observed t seen log)
    (hlog : log.Precedes log') : Observed t seen log' := by
  rcases h with ⟨q, hle⟩ | ⟨prior, report, held, after, hseen, hle⟩
  · exact .inl ⟨q, hle.trans hlog⟩
  · exact .inr ⟨prior, report, held, after, hseen, hle.trans hlog⟩

lemma SignedIn.mono {t : ℕ} {profile : OAuthProfileRecord} {userId : String}
    {log log' : Log store} (h : SignedIn t profile userId log) (hlog : log.Precedes log') :
    SignedIn t profile userId log' := by
  obtain ⟨⟨seen, hseen, howned⟩, seen', hseen', hactive⟩ := h
  exact ⟨⟨seen, hseen.mono hlog, howned⟩, seen', hseen'.mono hlog, hactive⟩

/-! ## What every commit keeps -/

variable {settings : AccountSettings} {calls : ℕ → AccountCall} {db₀ : Db store} {t : ℕ}

/-- Roles and reservations stay; the assignments of a user change under the lock of its
row. -/
structure AccountStep (held : Lock store → Bool) (before after : Db store) : Prop where
  roles : ∀ κ (r : Role), before.get .role κ = some r → after.get .role κ = some r
  assignments : ∀ κ (ur : UserRole), before.get .userRole κ = some ur →
    after.get .userRole κ = some ur ∨ held (.row .user ur.userId) = true
  settled : ∀ κ (ur : UserRole), after.get .userRole κ = some ur →
    before.get .userRole κ = some ur ∨ held (.row .user ur.userId) = true
  reservations : ∀ κ, after.get .subjectReservation κ = before.get .subjectReservation κ

namespace AccountStep

variable {held : Lock store → Bool} {before mid after : Db store}

lemma trans (h : AccountStep held before mid) (h' : AccountStep held mid after) :
    AccountStep held before after := by
  refine ⟨fun κ r hr => h'.roles κ r (h.roles κ r hr), fun κ ur hur => ?_, fun κ ur hur => ?_,
    fun κ => (h'.reservations κ).trans (h.reservations κ)⟩
  · rcases h.assignments κ ur hur with hmid | hheld
    · exact h'.assignments κ ur hmid
    · exact .inr hheld
  · rcases h'.settled κ ur hur with hmid | hheld
    · exact h.settled κ ur hmid
    · exact .inr hheld

/-- A part of a transaction that leaves all three tables alone. -/
lemma of_same (hrole : ∀ κ, after.get .role κ = before.get .role κ)
    (huserRole : ∀ κ, after.get .userRole κ = before.get .userRole κ)
    (hreservation : ∀ κ, after.get .subjectReservation κ = before.get .subjectReservation κ) :
    AccountStep held before after :=
  ⟨fun κ _ hr => (hrole κ).trans hr, fun κ _ hur => .inl ((huserRole κ).trans hur),
    fun κ _ hur => .inl ((huserRole κ).symm.trans hur), hreservation⟩

lemma of_other {T : Table} (hrole : T ≠ .role) (huserRole : T ≠ .userRole)
    (hreservation : T ≠ .subjectReservation) (h : ∀ T', T' ≠ T → after T' = before T') :
    AccountStep held before after := by
  have hget : ∀ T', T ≠ T' → ∀ κ, after.get T' κ = before.get T' κ :=
    fun T' hT κ => by rw [Db.get, h T' (Ne.symm hT), Db.get]
  exact of_same (hget .role hrole) (hget .userRole huserRole)
    (hget .subjectReservation hreservation)

lemma of_sameRows (h : SameRows before after) : AccountStep held before after :=
  of_same (h .role) (h .userRole) (h .subjectReservation)

end AccountStep

lemma RoleGranted.step {userId : String} {role : Role} {held : Lock store → Bool}
    {before after : Db store} (h : RoleGranted userId role before after)
    (hheld : held (.row .user userId) = true) : AccountStep held before after := by
  have hreservation : ∀ κ, after.get .subjectReservation κ = before.get .subjectReservation κ :=
    fun κ => by rw [Db.get, h.other .subjectReservation (by simp) (by simp), Db.get]
  refine ⟨h.roles, fun κ ur hur => ?_, fun κ ur hur => ?_, hreservation⟩
  · rcases h.assigned κ with hsame | ⟨hnone, -⟩
    · exact .inl (hsame.trans hur)
    · exact absurd (hnone.symm.trans hur) (by simp)
  · rcases h.assigned κ with hsame | ⟨-, roleId, -, hnew⟩
    · exact .inl (hsame.symm.trans hur)
    · obtain rfl := Option.some.inj (hnew.symm.trans hur)
      exact .inr hheld

lemma Creation.step {userId socialId : String} {user : User} {social : SocialAccount} {role : Role}
    {held : Lock store → Bool} {before created linked after : Db store}
    (h : Creation userId socialId user social role before created linked after)
    (hheld : held (.row .user userId) = true) : AccountStep held before after := by
  have hcreated : AccountStep held before created :=
    .of_other (by simp) (by simp) (by simp) h.user.other
  have hlinked : AccountStep held created linked :=
    .of_other (by simp) (by simp) (by simp) h.social.other
  exact (hcreated.trans hlinked).trans (h.role.step hheld)

lemma UserRemoved.step {userId : String} {u : User} {whole : List Table}
    {held : Lock store → Bool} {before after : Db store}
    (h : UserRemoved userId u whole before after) (hheld : held (.row .user userId) = true) :
    AccountStep held before after := by
  have hget : ∀ T, T ≠ .user → T ∉ childTables → ∀ κ, after.get T κ = before.get T κ :=
    fun T hT hT' κ => by rw [Db.get, h.other T hT hT', Db.get]
  refine ⟨fun κ r hr => ?_, fun κ ur hur => ?_, fun κ ur hur => ?_,
    hget .subjectReservation (by simp) (by simp [childTables])⟩
  · rw [hget .role (by simp) (by simp [childTables]), hr]
  · rcases h.child .userRole (by simp [childTables]) κ with hsame | ⟨-, r, hr, howner⟩
    · exact .inl (hsame.trans hur)
    · obtain rfl := Option.some.inj (hr.symm.trans hur)
      exact .inr (Option.some.inj howner ▸ hheld)
  · rcases h.child .userRole (by simp [childTables]) κ with hsame | ⟨hnone, -⟩
    · exact .inl (hsame.symm.trans hur)
    · exact absurd (hnone.symm.trans hur) (by simp)

lemma Cascaded.step {userId newId : String} {whole : List Table} {held : Lock store → Bool}
    {before after : Db store}
    (h : Cascaded (moveTo newId) userId childTables whole before after)
    (hheld : held (.row .user userId) = true) (hheld' : held (.row .user newId) = true) :
    AccountStep held before after := by
  have hget : ∀ T, T ∉ childTables → ∀ κ, after.get T κ = before.get T κ :=
    fun T hT κ => by rw [Db.get, h.other T hT, Db.get]
  refine ⟨fun κ r hr => ?_, fun κ ur hur => ?_, fun κ ur hur => ?_,
    hget .subjectReservation (by simp [childTables])⟩
  · rw [hget .role (by simp [childTables]), hr]
  · rcases h.child .userRole (by simp [childTables]) κ with hsame | ⟨r, hr, howner, -⟩
    · exact .inl (hsame.trans hur)
    · obtain rfl := Option.some.inj (hr.symm.trans hur)
      exact .inr (Option.some.inj howner ▸ hheld)
  · rcases h.child .userRole (by simp [childTables]) κ with hsame | ⟨r, -, -, hmoved⟩
    · exact .inl (hsame.symm.trans hur)
    · obtain rfl := Option.some.inj (hmoved.symm.trans hur)
      exact .inr hheld'

lemma Activation.step {tokenId userId activatedId : String} {usedAt : Timestamp} {role : Role}
    {token : EmailVerificationToken} {u : User} {whole : List Table} {held : Lock store → Bool}
    {before used activated moved after : Db store}
    (h : Activation tokenId userId activatedId usedAt role token u whole before used activated
      moved after)
    (hheld : held (.row .user userId) = true) (hheld' : held (.row .user activatedId) = true) :
    AccountStep held before after := by
  have hused : AccountStep held before used :=
    .of_other (by simp) (by simp) (by simp) h.token.other
  have hactivated : AccountStep held used activated :=
    .of_other (by simp) (by simp) (by simp) h.user.other
  exact ((hused.trans hactivated).trans (h.children.step hheld hheld')).trans (h.role.step hheld')

lemma AccountCommit.step {log : Log store} {held : Lock store → Bool} {after : Db store}
    {report : Report} (h : AccountCommit settings calls log t held after report) :
    AccountStep held log.db after := by
  cases h with
  | unchanged effect _ => exact .of_sameRows fun _ _ => by rw [effect]
  | pendingUpserted _ effect => exact .of_other (by simp) (by simp) (by simp) effect.other
  | registered _ _ user credential =>
    exact .trans (.of_other (by simp) (by simp) (by simp) user.other)
      (.of_other (by simp) (by simp) (by simp) credential.other)
  | verificationTokenCreated _ effect _ _ =>
    exact .of_other (by simp) (by simp) (by simp) effect.other
  | confirmRefused _ effect => exact .of_sameRows effect
  | confirmConflicted _ _ _ _ _ _ _ _ effect same =>
    exact .trans (.of_other (by simp) (by simp) (by simp) effect.other) (.of_sameRows same)
  | activated _ _ _ _ _ _ locked locked' effect => exact effect.step locked locked'
  | attached _ _ _ _ _ _ _ _ _ _ effect =>
    have hused : AccountStep held log.db _ :=
      .of_other (by simp) (by simp) (by simp) effect.token.other
    have hattached := hused.trans (.of_other (by simp) (by simp) (by simp) effect.credential.other)
    exact hattached.trans (.of_other (by simp) (by simp) (by simp) effect.pending.other)
  | linked _ effect => exact .of_other (by simp) (by simp) (by simp) effect.other
  | created _ _ _ locked effect => exact effect.step locked
  | replaced _ _ _ _ _ _ _ locked locked' removal effect =>
    exact (removal.step locked).trans (effect.step locked')
  | userStatusSet _ effect =>
    have hget : ∀ T, T ≠ .user → T ≠ .refreshToken → ∀ κ, after.get T κ = log.db.get T κ :=
      fun T hT hT' κ => by rw [Db.get, effect.other T hT hT', Db.get]
    exact .of_same (hget .role (by simp) (by simp)) (hget .userRole (by simp) (by simp))
      (hget .subjectReservation (by simp) (by simp))

abbrev AccountLog (settings : AccountSettings) (calls : ℕ → AccountCall) (db₀ : Db store)
    (log : Log store) : Prop :=
  log.Valid (accountGuarantee settings calls db₀)

/-- Account calls leave alone what a call relies on between its statements. -/
theorem account_steady : Steady (accountGuarantee settings calls db₀) t [.userRole] := by
  refine ⟨fun {s s' κ r} hs hr => ?_, fun {s s' κ ur} hs ho hur => ?_,
    fun {s s' T κ userId r} hT hs ho howner hr => ?_⟩
  · obtain ⟨hv, hlog, -⟩ := hs
    change s'.log.db.get .role κ = some r
    generalize s'.log = log at hv hlog ⊢
    induction hlog with
    | refl => exact hr
    | @add log event _ _ ih =>
      cases event with
      | selected t' q => exact ih hv.of_add
      | called t' report ext => exact ih hv.of_add
      | committed t' report held db => exact hv.2.1.step.roles κ r (ih hv.of_add)
  · obtain ⟨hv, hlog, -⟩ := hs
    change s'.log.db.get .userRole κ = some ur
    generalize s'.log = log at hv hlog ⊢
    induction hlog with
    | refl => exact hur
    | @add log event _ hspares ih =>
      cases event with
      | selected t' q => exact ih hv.of_add
      | called t' report ext => exact ih hv.of_add
      | committed t' report held db =>
        rcases hv.2.1.step.assignments κ ur (ih hv.of_add) with hkept | hheld
        · exact hkept
        · exact absurd ho (hspares.2 _ hheld)
  · obtain rfl := List.mem_singleton.mp hT
    obtain rfl : r.userId = userId := Option.some.inj howner
    obtain ⟨hv, hlog, -⟩ := hs
    change s'.log.db.get .userRole κ = some r at hr
    generalize s'.log = log at hv hlog hr
    induction hlog with
    | refl => exact hr
    | @add log event _ hspares ih =>
      cases event with
      | selected t' q => exact ih hv.of_add hr
      | called t' report ext => exact ih hv.of_add hr
      | committed t' report held db =>
        rcases hv.2.1.step.settled κ r hr with hbefore | hheld
        · exact ih hv.of_add hbefore
        · exact absurd ho (hspares.2 _ hheld)

end WiseacctSso
