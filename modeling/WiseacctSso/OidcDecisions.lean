import WiseacctSso.AccountGrants
import WiseacctSso.OidcGroups
import WiseacctSso.ReadCommittedFootprints

/-!
# OIDC decisions among session and administration calls

An OIDC transaction locks the row of its user and then reads the roles without a lock. A
removal of a role deletes the assignment first and locks the row of the user afterwards. The
Redis commands and the audit rows of the transactions are left out, and so are the locks a
foreign key takes: what the foreign key promises is an assumption on the tables.
-/
namespace WiseacctSso
open ReadCommitted
open OidcState (OidcClientRoles OidcIdentity eligibleIdentity hasRequiredRole eligible_spec)

/-! ## Decisions -/

namespace OidcDecisions

/-- What `_complete_authorization` and `exchange_code` decide in their transactions; a login
with a password clears the failures of the credential. -/
def decision (userId : String) (client : OidcClientRoles) (resetPasswordLogin : Bool) :
    StoreProg Bool := do
  let user ← OidcService.lockUser userId
  match eligibleIdentity user client with
  | .error _ => pure false
  | .ok _ => do
      if resetPasswordLogin then PasswordAuthStore.markLoginSuccess userId
      pure true

/-- The transaction commits, whichever way it was decided. -/
def completeAuthorization (userId : String) (client : OidcClientRoles)
    (resetPasswordLogin : Bool) (error description : String) : StoreProg Unit := do
  let eligible ← transaction
    (fun eligible => if eligible then .signedIn userId else .authorizationDenied)
    (decision userId client resetPasswordLogin)
  if eligible then pure () else .raise (.oidcService error description)

/-- A user that is not eligible rolls the transaction back. -/
def userinfo (userId : String) (client : OidcClientRoles) : StoreProg Unit :=
  transaction (fun _ => .signedIn userId) do
    let user ← OidcService.lockUser userId
    match eligibleIdentity user client with
    | .error _ => .raise (.oidcService "invalid_token" "Invalid access token")
    | .ok _ => pure ()

end OidcDecisions

/-- The OIDC transactions, for a user and a client, and the session calls with the requests of
the administration among them. -/
inductive DecisionCall
  | completeAuthorization (userId : String) (client : OidcClientRoles)
      (resetPasswordLogin : Bool)
  | exchangeCode (userId : String) (client : OidcClientRoles)
  | userinfo (userId : String) (client : OidcClientRoles)
  | session (call : SessionCall)

namespace DecisionCall

def prog (settings : AuthSettings) : DecisionCall → StoreProg Unit
  | completeAuthorization userId client resetPasswordLogin =>
      OidcDecisions.completeAuthorization userId client resetPasswordLogin "access_denied"
        "Account is not eligible"
  | exchangeCode userId client =>
      OidcDecisions.completeAuthorization userId client false "invalid_grant"
        "Invalid authorization code"
  | userinfo userId client => OidcDecisions.userinfo userId client
  | session call => call.prog settings

/-- Whom the call is to decide on, and for which client. -/
def subject : DecisionCall → Option (String × OidcClientRoles)
  | completeAuthorization userId client _ => some (userId, client)
  | exchangeCode userId client => some (userId, client)
  | userinfo userId client => some (userId, client)
  | session _ => none

end DecisionCall

/-- Process `t` makes the call `calls t`, if the run ever starts it. -/
def decisionRun (settings : AuthSettings) (calls : ℕ → DecisionCall) (db : Db store)
    (redis : RedisState) (acts : List (Act store)) : Option (System store) :=
  (System.initial db redis).run (fun t => (calls t).prog settings) acts

/-! ## Assignments and their users -/

/-- The foreign key of the assignments to the users. -/
def AssignmentUsersExist (db : Db store) : Prop :=
  ∀ κ (ur : UserRole), db.get .userRole κ = some ur → (db.get .user ur.userId).isSome = true

instance (db : Db store) : Decidable (AssignmentUsersExist db) :=
  decidable_of_iff (∀ x ∈ (db .userRole).entries, (db.get .user x.2.userId).isSome = true)
    (forall_get_iff (Γ := store) (T := .userRole)
      (P := fun _ ur => (db.get .user ur.userId).isSome = true)).symm

/-- The foreign key holds in all the tables of the log. -/
def ForeignKeys : Log store → Prop
  | .initial db _ => AssignmentUsersExist db
  | .add log event => ForeignKeys log ∧ AssignmentUsersExist (log.add event).db

instance ForeignKeys.decidable : (log : Log store) → Decidable (ForeignKeys log)
  | .initial db _ => inferInstanceAs (Decidable (AssignmentUsersExist db))
  | .add log event =>
      have := ForeignKeys.decidable log
      inferInstanceAs (Decidable (ForeignKeys log ∧ AssignmentUsersExist (log.add event).db))

lemma ForeignKeys.now {log : Log store} (h : ForeignKeys log) : AssignmentUsersExist log.db := by
  cases log with
  | initial db ext => exact h
  | add log event => exact h.2

lemma ForeignKeys.of_precedes {log log' : Log store} (h : log.Precedes log')
    (hkeys : ForeignKeys log') : ForeignKeys log := by
  induction h with
  | refl => exact hkeys
  | add _ _ ih => exact ih hkeys.1

/-- Roles stay, and an assignment goes only under the lock of the row of its user, or when
there is no such row. -/
structure AssignmentsKept (held : Lock store → Bool) (before after : Db store) : Prop where
  roles : ∀ κ (r : Role), before.get .role κ = some r → after.get .role κ = some r
  assignments : ∀ κ (ur : UserRole), before.get .userRole κ = some ur →
    after.get .userRole κ = some ur ∨ held (.row .user ur.userId) = true ∨
      before.get .user ur.userId = none

/-- The tables that no assignment is in. -/
def OtherTable (T : Table) : Prop := T ≠ .role ∧ T ≠ .userRole

lemma AssignmentsKept.of_other {held : Lock store → Bool} {before after : Db store}
    (h : ∀ T, ¬ OtherTable T → after T = before T) : AssignmentsKept held before after := by
  have hrole : after .role = before .role := h .role (by simp [OtherTable])
  have huserRole : after .userRole = before .userRole := h .userRole (by simp [OtherTable])
  refine ⟨fun κ r hr => ?_, fun κ ur hur => .inl ?_⟩
  · rwa [Db.get, hrole]
  · rwa [Db.get, huserRole]

/-! ## The tables of the session calls -/

/-- Only an OIDC decision signs a user in here. -/
def NotDecision (report : Report) : Prop := ∀ userId, report ≠ .signedIn userId

/-- A program that leaves roles and assignments alone and decides nothing. -/
abbrev Aside {α : Type} (p : StoreProg α) : Prop :=
  Prog.Within (Γ := store) OtherTable NotDecision p

section aside

open Prog.Within

lemma aside_requireOne {α : Type} {rows : List α} {operation : String} :
    Aside (requireOne rows operation) := by
  unfold requireOne
  split <;> trivial

lemma aside_oneOrNone {α : Type} {rows : List α} : Aside (oneOrNone rows) := by
  unfold oneOrNone
  split <;> trivial

lemma aside_check {α : Type} {c : Prop} [Decidable c] {e : Error} {p : StoreProg α}
    (hp : Aside p) : Aside (if c then .raise e else p) := by
  split
  · trivial
  · exact hp

lemma aside_assert {α : Type} {c : Prop} [Decidable c] {e : Error} {f : Unit → StoreProg α}
    (hf : Aside (f ())) : Aside ((if c then .raise e else pure ()) >>= f) := by
  split
  · trivial
  · exact hf

lemma aside_withRoles {id : String} {u : User} : Aside (UserReadStore.withRoles id u) :=
  query.bind fun _ => trivial

lemma aside_findCurrentActive {userId : String} :
    Aside (UserReadStore.findCurrentActive userId) := by
  refine query.bind fun user => ?_
  cases user with
  | none => trivial
  | some x => exact aside_withRoles.bind fun _ => trivial

lemma aside_findCurrent {userId : String} : Aside (UserReadStore.findCurrent userId) := by
  refine query.bind fun user => ?_
  cases user with
  | none => trivial
  | some x => exact aside_withRoles.bind fun _ => trivial

lemma aside_lockUser {userId : String} : Aside (OidcService.lockUser userId) := by
  refine lockRows.bind fun locked => aside_oneOrNone.bind fun row => ?_
  cases row with
  | none => trivial
  | some x => exact aside_withRoles.bind fun _ => trivial

lemma aside_issuePair {userId audience : String} {issued : IssuedRefreshToken} :
    Aside (Phase5AuthService.issuePair userId audience issued) := by
  have hissue : Aside (TokenIssueStore.issueForActiveUser userId
      ⟨issued.id, issued.tokenHash, audience, issued.expiresAt⟩) := by
    refine lockRows.bind fun locked => aside_oneOrNone.bind fun row => ?_
    cases row with
    | none => trivial
    | some x =>
      refine aside_findCurrentActive.bind fun user => ?_
      cases user with
      | none => trivial
      | some user => exact (Prog.Within.insertRow (by simp [OtherTable])).bind fun _ => trivial
  refine (transaction hissue fun user => ?_).bind fun user => ?_
  · cases user <;> exact fun _ => by simp
  · cases user <;> trivial

lemma aside_markLoginSuccess {userId : String} :
    Aside (PasswordAuthStore.markLoginSuccess userId) :=
  (Prog.Within.updateRows (by simp [OtherTable])).bind fun _ => aside_requireOne

lemma aside_markFailure {userId : String} {now : Timestamp} :
    Aside (Phase5AuthService.markFailure userId now) := by
  refine transaction ?_ fun _ _ => by simp
  refine aside_check ((Prog.Within.updateRows (by simp [OtherTable])).bind fun incremented => ?_)
  refine aside_check ?_
  match incremented with
  | [] => trivial
  | [_] =>
    refine (Prog.Within.updateRows (by simp [OtherTable])).bind fun locked => ?_
    match locked with
    | [] => trivial
    | [_] => trivial
    | _ :: _ :: _ => trivial
  | _ :: _ :: _ => trivial

lemma aside_markSuccess {userId : String} : Aside (Phase5AuthService.markSuccess userId) :=
  transaction (aside_markLoginSuccess.bind fun _ => aside_findCurrent) fun _ _ => by simp

lemma aside_authenticate {settings : AuthSettings} {input : Phase5AuthService.LoginInput}
    {now : Timestamp} : Aside (Phase5AuthService.authenticate settings input now) := by
  refine (connection query).bind fun credential => ?_
  cases credential with
  | none => trivial
  | some c =>
    refine aside_check ?_
    split
    · refine aside_markSuccess.bind fun user => ?_
      cases user <;> trivial
    · split
      · exact aside_markFailure.bind fun _ => trivial
      · trivial

lemma aside_create {record : StoredAuthHandoffMetadata} {codes : List String} :
    Aside (AuthHandoffStore.create record codes) := by
  induction codes with
  | nil => trivial
  | cons code codes ih =>
    refine ⟨fun redis userId => ?_, fun redis => ?_⟩
    · dsimp only
      split <;> simp
    · dsimp only
      split
      · exact ih
      · trivial

lemma aside_clientForHandoff {settings : AuthSettings} {handoff : ClientHandoff} :
    Aside (Phase5AuthService.clientForHandoff settings handoff) := by
  unfold Phase5AuthService.clientForHandoff
  dsimp only
  split
  · trivial
  · split <;> trivial

lemma aside_consumeIfExact {code : String} {record : StoredAuthHandoffMetadata} :
    Aside (AuthHandoffStore.consumeIfExact code record) := by
  refine ⟨fun redis userId => ?_, fun redis => trivial⟩
  dsimp only
  split <;> simp

lemma aside_consume {settings : AuthSettings} {input : AuthHandoffStore.ConsumeInput}
    {nowEpochMs : Timestamp} : Aside (AuthHandoffStore.consume settings input nowEpochMs) := by
  refine inspect.bind fun raw => ?_
  cases raw with
  | none => trivial
  | some metadata =>
    dsimp only
    split
    · exact aside_consumeIfExact.bind fun _ => trivial
    · split
      · exact aside_consumeIfExact
      · trivial

lemma aside_rotate {tokenHash audience : String} {now : Timestamp}
    {factory : RefreshTokenRecord → RefreshReplacement} :
    Aside (RefreshRotationStore.rotate tokenHash audience now factory) := by
  refine query.bind fun stored => ?_
  cases stored with
  | none => trivial
  | some record =>
    dsimp only
    split
    · trivial
    refine lockRows.bind fun locked => aside_oneOrNone.bind fun row => ?_
    cases row with
    | none => trivial
    | some x =>
      refine (Prog.Within.updateRows (by simp [OtherTable])).bind fun revoked => aside_check ?_
      exact (Prog.Within.insertRow (by simp [OtherTable])).bind fun _ => trivial

lemma aside_confirm {tokenHash passwordHash : String} {now : Timestamp} :
    Aside (PasswordResetStore.confirm tokenHash passwordHash now) := by
  refine query.bind fun token => ?_
  cases token with
  | none => trivial
  | some token =>
    refine (Prog.Within.updateRows (by simp [OtherTable])).bind fun consumed => ?_
    split
    · trivial
    refine lockRows.bind fun locked => aside_oneOrNone.bind fun row => ?_
    cases row with
    | none => trivial
    | some x =>
      refine (Prog.Within.updateRows (by simp [OtherTable])).bind fun _ =>
        aside_requireOne.bind fun _ => ?_
      exact (Prog.Within.updateRows (by simp [OtherTable])).bind fun _ => trivial

/-- The OIDC login as the session calls know it. -/
lemma aside_completeAuthorization {oidc : OidcService.OidcLogin} {userId : String} :
    Aside (OidcService.completeAuthorization oidc userId) := by
  refine (transaction (aside_lockUser.bind fun user => ?_) fun eligible userId => ?_).bind
    fun eligible => ?_
  · split
    · exact aside_markLoginSuccess.bind fun _ => trivial
    · trivial
  · split <;> simp
  · split <;> trivial

lemma aside_passwordLogin {settings : AuthSettings} {oidc : OidcService.OidcLogin}
    {input : Phase5AuthService.LoginInput} {now : Timestamp} :
    Aside (OidcService.passwordLogin settings oidc input now) := by
  refine aside_check ((connection query).bind fun credential => ?_)
  cases credential with
  | none => trivial
  | some c =>
    dsimp only
    split
    · exact aside_check aside_completeAuthorization
    · split
      · exact aside_markFailure.bind fun _ => trivial
      · trivial

lemma aside_revokeAllRefreshTokensForUser {userId : String} {now : Timestamp} :
    Aside (AdminMutationStore.revokeAllRefreshTokensForUser userId now) := by
  have hlock : Aside (AdminMutationStore.lockUserForRefreshTokenRevocation userId) :=
    lockRows.bind fun locked => aside_oneOrNone.bind fun _ => trivial
  refine hlock.bind fun found => ?_
  split
  · exact (Prog.Within.updateRows (by simp [OtherTable])).bind fun _ => trivial
  · trivial

lemma aside_setUserStatus {py : PythonText} {actor target : String} {status : UserStatus}
    {now : Timestamp} : Aside (Phase6AdminService.setUserStatus py actor target status now) := by
  refine aside_assert (aside_assert (transaction ?_ fun _ _ => by simp))
  have hupdate : Aside (AdminMutationStore.updateUserStatus target status) :=
    (Prog.Within.updateRows (by simp [OtherTable])).bind fun _ => aside_check trivial
  refine hupdate.bind fun changed => ?_
  split
  · exact aside_revokeAllRefreshTokensForUser.bind fun _ => trivial
  · trivial

lemma aside_revokeSessions {py : PythonText} {actor target : String} {now : Timestamp} :
    Aside (Phase6AdminService.revokeSessions py actor target now) :=
  aside_assert (aside_assert (transaction
    (aside_revokeAllRefreshTokensForUser.bind fun _ => trivial) fun _ _ => by simp))

end aside

/-! ## What a decision has seen -/

/-- The row of the user is ACTIVE, with a verified email. -/
def Verified (userId : String) (db : Db store) : Prop :=
  ∃ u email, db.get .user userId = some u ∧ u.status = .active ∧ u.email = some email ∧
    email ≠ "" ∧ u.emailVerified = true

def HoldsRequired (client : OidcClientRoles) (userId : String) (db : Db store) : Prop :=
  ∃ required ∈ client.requiredRoles, HoldsRole db userId required

/-- The user is ACTIVE and verified back to the last commit under the lock of its row, and it
holds a required role from a SELECT of its roles by process `t` on. -/
structure DecidedOn (t : ℕ) (client : OidcClientRoles) (userId : String) (log : Log store) :
    Prop where
  verified : ∀ mid : Log store, mid.Extends (Event.Without (Γ := store) (.row .user userId)) log →
    Verified userId mid.db
  holdsRequired : ∃ readLog : Log store,
    (readLog.add (.selected t (.roles userId))).Extends
      (Event.Without (Γ := store) (.row .user userId)) log ∧
    ∀ mid, readLog.Precedes mid → mid.Precedes log → HoldsRequired client userId mid.db

/-- Commits of decisions and of what runs beside them. -/
def decisionGuarantee (calls : ℕ → DecisionCall) (db₀ : Db store) : Guarantee store where
  initial db _ := db = db₀
  commit log t report held after :=
    (ForeignKeys log → AssignmentsKept held log.db after) ∧
    ∀ userId, report = .signedIn userId → ∃ client, (calls t).subject = some (userId, client) ∧
      (ForeignKeys log → DecidedOn t client userId log)
  call _ _ _ _ := True
  raised _ _ := True

namespace OidcDecisions

variable {settings : AuthSettings} {calls : ℕ → DecisionCall} {db₀ : Db store} {t : ℕ}
  {s : Shared store} {ws : List (Write store)}

lemma mem_rolesOf {db : Db store} {userId : String} {role : Role} :
    role ∈ rolesOf db userId ↔ HoldsRole db userId role := by
  rw [rolesOf, List.mem_filterMap]
  constructor
  · rintro ⟨⟨κ, id, roleId⟩, hmem, hrole⟩
    obtain ⟨hassigned, hid⟩ := mem_selectRows.mp hmem
    obtain rfl : id = userId := by simpa using hid
    exact ⟨κ, roleId, hassigned, hrole⟩
  · rintro ⟨κ, roleId, hassigned, hrole⟩
    exact ⟨(κ, ⟨userId, roleId⟩), mem_selectRows.mpr ⟨hassigned, by simp⟩, hrole⟩

lemma wp_aside {p : StoreProg Unit} (hp : Aside p) :
    wp (decisionGuarantee calls db₀) t p .top s [] := by
  refine wp_within hp ?_ (fun _ _ _ _ => trivial) (by simp)
  intro s' report after _ hreport hother
  exact ⟨fun _ => .of_other hother, fun userId he => absurd he (hreport userId)⟩

/-- The roles stay in the log. -/
lemma role_kept {log log' : Log store} (h : log.Precedes log')
    (hv : log'.Valid (decisionGuarantee calls db₀)) (hkeys : ForeignKeys log') {κ : String}
    {r : Role} (hr : log.db.get .role κ = some r) : log'.db.get .role κ = some r := by
  induction h with
  | refl => exact hr
  | @add log' event _ _ ih =>
    cases event with
    | selected t' q => exact ih hv.of_add hkeys.1
    | called t' report ext => exact ih hv.of_add hkeys.1
    | committed t' report held after =>
      exact (hv.2.1.1 hkeys.1).roles κ r (ih hv.of_add hkeys.1)

/-- The assignments of a user stay while its row is locked. -/
lemma assignment_kept {log : Log store} (h : s.log.Extends (Event.Spares s t) log)
    (hv : log.Valid (decisionGuarantee calls db₀)) (hkeys : ForeignKeys log) {κ : String}
    {ur : UserRole} (ho : s.owner (.row .user ur.userId) = some t)
    (hur : s.db.get .userRole κ = some ur) : log.db.get .userRole κ = some ur := by
  induction h with
  | refl => exact hur
  | @add log event hlog hspares ih =>
    cases event with
    | selected t' q => exact ih hv.of_add hkeys.1
    | called t' report ext => exact ih hv.of_add hkeys.1
    | committed t' report held after =>
      have hbefore := ih hv.of_add hkeys.1
      rcases (hv.2.1.1 hkeys.1).assignments κ ur hbefore with hsame | hheld | hgone
      · exact hsame
      · exact absurd ho (hspares.2 _ hheld)
      · exact absurd (hkeys.1.now κ ur hbefore) (by simp [hgone])

lemma sizeOf_le_of_precedes {log log' : Log store} (h : log.Precedes log') :
    sizeOf log ≤ sizeOf log' := by
  induction h with
  | refl => exact le_rfl
  | @add log' event _ _ ih =>
    rw [Log.add.sizeOf_spec]
    omega

/-- What permits the events of a log permits those of a log in between. -/
lemma extends_of_between {P : Event store → Prop} {log mid log' : Log store}
    (h : log.Extends P log') (hmid : log.Precedes mid) (hle : mid.Precedes log') :
    log.Extends P mid := by
  induction hle with
  | refl => exact h
  | @add log' event hle _ ih =>
    refine ih ?_
    cases h with
    | refl =>
      have hsize := (sizeOf_le_of_precedes hmid).trans (sizeOf_le_of_precedes hle)
      rw [Log.add.sizeOf_spec] at hsize
      omega
    | add h _ => exact h

/-- A locking SELECT of the user and a SELECT of its roles. -/
lemma wp_lockUser {G : Guarantee store} {userId : String}
    {Q : Post store (Option CurrentUserRecord)} (hnone : ∀ s₁, Q.ret none s₁ [])
    (hsome : ∀ sl sr u, sl.owner (.row .user userId) = some t →
      sl.db.get .user userId = some u → Follows G t sl sr →
      Q.ret (some ⟨userId, u.email, u.emailVerified, u.name, u.status, rolesOf sr.db userId⟩)
        (sr.record (.selected t (.roles userId))) []) :
    wp G t (OidcService.lockUser userId) Q s [] := by
  refine wp_lockOne userId (fun κ r h => by simpa using h) ?_ ?_
  · exact fun sv s₁ _ _ _ => hnone s₁
  · intro sl u hsl _ ho hu
    exact wp_bind.mpr (wp_bind.mpr (wp_query fun sr hsr => hsome sl sr u ho hu hsr))

/-- The decision stands until it commits. -/
lemma decidedOn_of_follows {sl sr s' : Shared store} {userId : String} {u : User}
    {client : OidcClientRoles} {identity : OidcIdentity}
    (ho : sl.owner (.row .user userId) = some t) (hu : sl.db.get .user userId = some u)
    (hsr : Follows (decisionGuarantee calls db₀) t sl sr)
    (hs' : Follows (decisionGuarantee calls db₀) t (sr.record (.selected t (.roles userId))) s')
    (heligible : eligibleIdentity (some ⟨userId, u.email, u.emailVerified, u.name, u.status,
      rolesOf sr.db userId⟩) client = .ok identity) (hkeys : ForeignKeys s'.log) :
    DecidedOn t client userId s'.log := by
  have hread : Follows (decisionGuarantee calls db₀) t sr s' :=
    (Follows.record_selected hsr.valid _).trans hs'
  obtain ⟨record, hrecord, hactive, hemail, hne, hverified, -, -, -, hroles, hrequired, -⟩ :=
    eligible_spec heligible
  obtain rfl := Option.some.inj hrecord
  have hu' : s'.db.get .user userId = some u := ((hsr.trans hread).lookup ho).trans hu
  refine ⟨fun mid hmid => ⟨u, _, ?_, hactive, hemail, hne, hverified⟩, sr.log, ?_,
    fun mid hmid hle => ?_⟩
  · exact (get_of_without hs'.valid hmid).symm.trans hu'
  · exact hs'.log.mono fun event hspares => hspares.without (hsr.owner _ ho)
  · obtain ⟨required, hmem, hheld⟩ := List.any_eq_true.mp hrequired
    rw [hroles, decide_eq_true_eq, mem_rolesOf] at hheld
    obtain ⟨κ, roleId, hassigned, hrole⟩ := hheld
    have hvalid : mid.Valid (decisionGuarantee calls db₀) := .of_extends hle hs'.valid
    have hmidKeys := hkeys.of_precedes hle
    exact ⟨required, hmem, κ, roleId, assignment_kept (extends_of_between hread.log hmid hle)
      hvalid hmidKeys (hsr.owner _ ho) hassigned, role_kept hmid hvalid hmidKeys hrole⟩

/-- What a decision commits leaves the assignments alone. -/
lemma decision_commit {sl sr s' : Shared store} {userId : String} {u : User}
    {client : OidcClientRoles} {identity : OidcIdentity}
    (hsubject : (calls t).subject = some (userId, client))
    (ho : sl.owner (.row .user userId) = some t) (hu : sl.db.get .user userId = some u)
    (hsr : Follows (decisionGuarantee calls db₀) t sl sr)
    (hs' : Follows (decisionGuarantee calls db₀) t (sr.record (.selected t (.roles userId))) s')
    (heligible : eligibleIdentity (some ⟨userId, u.email, u.emailVerified, u.name, u.status,
      rolesOf sr.db userId⟩) client = .ok identity)
    (hws : ∀ w ∈ ws, w.place.1 = .passwordCredential) :
    (decisionGuarantee calls db₀).commit s'.log t (.signedIn userId) (s'.held t)
      (view ws s'.db) := by
  refine ⟨fun _ => .of_other fun T hT => view_of_table_ne (fun w hw he => hT ?_) _, ?_⟩
  · rw [← he, hws w hw]
    simp [OtherTable]
  · rintro userId' he
    obtain rfl := Report.signedIn.inj he
    exact ⟨client, hsubject, decidedOn_of_follows ho hu hsr hs' heligible⟩

/-- A refusal changes nothing. -/
lemma refusal_commit {s' : Shared store} :
    (decisionGuarantee calls db₀).commit s'.log t .authorizationDenied (s'.held t)
      (view [] s'.db) :=
  ⟨fun _ => .of_other fun _ _ => rfl, fun userId he => by simp at he⟩

lemma wp_completeAuthorization {userId : String} {client : OidcClientRoles}
    {resetPasswordLogin : Bool} {error description : String}
    (hsubject : (calls t).subject = some (userId, client)) :
    wp (decisionGuarantee calls db₀) t (OidcDecisions.completeAuthorization userId client
      resetPasswordLogin error description) .top s ws := by
  refine wp_bind.mpr (wp_transaction fun s₀ _ => wp_bind.mpr (wp_lockUser ?_ ?_))
  · exact fun s₁ s' _ => ⟨refusal_commit, trivial⟩
  intro sl sr u ho hu hsr
  dsimp only
  split
  · exact fun s' _ => ⟨refusal_commit, trivial⟩
  next identity heligible =>
  have hdone : ∀ (s' : Shared store) ws', Follows (decisionGuarantee calls db₀) t
      (sr.record (.selected t (.roles userId))) s' →
      (∀ w ∈ ws', w.place.1 = Table.passwordCredential) →
      (decisionGuarantee calls db₀).commit s'.log t (.signedIn userId) (s'.held t)
        (view ws' s'.db) := fun s' ws' hs' hws' =>
    decision_commit hsubject ho hu hsr hs' heligible hws'
  cases resetPasswordLogin with
  | false => exact fun s' hs' => ⟨hdone s' [] hs' (by simp), trivial⟩
  | true =>
    refine wp_bind.mpr (PasswordAuthStore.wp_markLoginSuccess (fun _ _ _ _ _ => trivial) ?_)
    exact fun s₁ κ c hs₁ _ _ s' hs' =>
      ⟨hdone s' _ (hs₁.trans hs') (by simp [Write.place]), trivial⟩

lemma wp_userinfo {userId : String} {client : OidcClientRoles}
    (hsubject : (calls t).subject = some (userId, client)) :
    wp (decisionGuarantee calls db₀) t (OidcDecisions.userinfo userId client) .top s ws := by
  refine wp_transaction fun s₀ _ => wp_bind.mpr (wp_lockUser (fun s₁ _ _ => trivial) ?_)
  intro sl sr u ho hu hsr
  dsimp only
  split
  · exact fun _ _ => trivial
  next identity heligible =>
  exact fun s' hs' =>
    ⟨decision_commit hsubject ho hu hsr hs' heligible (by simp), trivial⟩

lemma wp_assignRole {py : PythonText} {target serviceKey name newRoleId newUserRoleId : String} :
    wp (decisionGuarantee calls db₀) t
      (Phase6AdminService.assignRole py target serviceKey name newRoleId newUserRoleId)
      ⟨fun _ _ _ => True, fun _ _ _ => True⟩ s ws := by
  refine wp_assert trivial fun _ => wp_assert trivial fun _ => ?_
  refine wp_transaction fun s₀ _ => wp_bind.mpr ?_
  refine AdminMutationStore.wp_upsertRole (fun _ _ _ _ _ => trivial) fun s₁ roleId hs₁ hrole => ?_
  have hroles : ∀ s', Follows (decisionGuarantee calls db₀) t s₁ s' → ∀ ws',
      (∀ w ∈ ws', w.place.1 = .userRole) → ∀ id (r : Role), s'.db.get .role id = some r →
      (view ([.put .role roleId ⟨serviceKey, name⟩] ++ ws') s'.db).get .role id = some r := by
    intro s' hs' ws' hws' id r hr
    rw [view_append, view_get_of_table_ne fun w hw he => by simp [hws' w hw] at he, view_cons,
      view_nil, apply_put_get]
    split
    · next hid =>
      subst hid
      rcases hrole with hnone | hsome
      · exact absurd ((hs'.holds hnone).lookup.symm.trans hr) (by simp)
      · exact (hs'.holds hsome).lookup.symm.trans hr
    · exact hr
  refine wp_bind.mpr (AdminMutationStore.wp_assignRoleToUser (fun _ _ _ _ _ => trivial) ?_ ?_)
  · intro s₂ hs₂ s' hs'
    refine ⟨⟨fun _ => ⟨hroles s' (hs₂.trans hs') [] (by simp), fun κ ur hur => .inl ?_⟩,
      by simp⟩, trivial⟩
    rwa [view_get_of_table_ne (by simp [Write.place])]
  · intro s₂ hs₂ ho habsent s' hs'
    have hfresh : s'.db.get .userRole newUserRoleId = none := by
      rw [hs'.lookup ho]
      rwa [view_get_of_table_ne (by simp [Write.place])] at habsent
    refine ⟨⟨fun _ => ⟨hroles s' (hs₂.trans hs') _ (by simp [Write.place]),
      fun κ ur hur => .inl ?_⟩, by simp⟩, trivial⟩
    rw [view_concat_put_get, if_neg fun hκ => by simp [hκ, hfresh] at hur,
      view_get_of_table_ne (by simp [Write.place])]
    exact hur

/-- The rows a removal has deleted are assignments of its target. -/
lemma assignment_of_swept {target roleId : String} {keys : List String} {s₀ s₁ s' : Shared store}
    {done : List (String × UserRole)} {ws' : List (Write store)}
    (hd : Swept (decisionGuarantee calls db₀) t Table.userRole
      (fun _ ur => ur.userId = target && ur.roleId = roleId) keys [] s₀ s₁ done)
    (hs : Follows (decisionGuarantee calls db₀) t s₁ s')
    (hws' : ∀ w ∈ ws', w.place.1 = .refreshToken)
    (hheld : done ≠ [] → s'.held t (.row .user target) = true) :
    AssignmentsKept (s'.held t) s'.db
      (view ([] ++ sweepWrites (Γ := store) (T := Table.userRole) .delete done ++ ws') s'.db) := by
  have htable : ∀ w ∈ [] ++ sweepWrites (Γ := store) (T := Table.userRole) .delete done ++ ws',
      w.place.1 = .userRole ∨ w.place.1 = .refreshToken := by
    intro w hw
    rcases List.mem_append.mp hw with hw | hw
    · exact .inl (sweepWrites_table (by simpa using hw))
    · exact .inr (hws' w hw)
  refine ⟨fun κ r hr => ?_, fun κ ur hur => ?_⟩
  · rwa [view_get_of_table_ne fun w hw he => by
      rcases htable w hw with h | h <;> simp [h] at he]
  · by_cases hm : ∃ ur', (κ, ur') ∈ done
    · obtain ⟨ur', hm⟩ := hm
      obtain ⟨hp, ho, hget⟩ := hd.found κ ur' hm
      obtain rfl := Option.some.inj (((hs.lookup ho).trans hget).symm.trans hur)
      simp only [Bool.and_eq_true, decide_eq_true_eq] at hp
      exact .inr (.inl (hp.1 ▸ hheld (List.ne_nil_of_mem hm)))
    · refine .inl ?_
      rw [view_append, view_get_of_table_ne fun w hw he => by simp [hws' w hw] at he,
        view_sweep_of_notMem fun r hr => hm ⟨r, hr⟩]
      exact hur

lemma wp_removeRole {py : PythonText} {actor target serviceKey name : String} {now : Timestamp} :
    wp (decisionGuarantee calls db₀) t
      (Phase6AdminService.removeRole py actor target serviceKey name now)
      ⟨fun _ _ _ => True, fun _ _ _ => True⟩ s ws := by
  refine wp_assert trivial fun _ => wp_assert trivial fun _ => ?_
  refine wp_assert trivial fun _ => wp_transaction fun s₀ _ => ?_
  refine wp_bind.mpr (wp_query fun sr hsr => ?_)
  dsimp only
  split
  · exact fun s' _ => ⟨⟨fun _ => .of_other fun _ _ => rfl, by simp⟩, trivial⟩
  refine wp_bind.mpr (AdminMutationStore.wp_removeRoleFromUser fun s₁ s₂ done hs₁ hd => ?_)
  have hdelete : ∀ w ∈ [] ++ sweepWrites (Γ := store) (T := Table.userRole) .delete done,
      w.place.1 = .userRole := fun w hw => sweepWrites_table (by simpa using hw)
  cases hdone : done with
  | nil =>
    subst hdone
    refine wp_bind.mpr fun s' hs' => ⟨⟨fun _ => ?_, by simp⟩, trivial⟩
    exact .of_other fun _ _ => rfl
  | cons x rest =>
    rw [← hdone]
    have hone : decide (0 < done.length) = true := by simp [hdone]
    rw [hone]
    refine wp_bind.mpr (AdminMutationStore.wp_revokeAllRefreshTokensForUser ?_ ?_)
    -- The assignment is still there, so by its foreign key the user is as well.
    · intro sv s₃ hsv hsv' hgone s' hs'
      refine ⟨⟨fun hkeys => ?_, by simp⟩, trivial⟩
      rw [view_get_of_table_ne fun w hw he => by simp [hdelete w hw] at he] at hgone
      obtain ⟨hp, ho, hget⟩ := hd.found x.1 x.2 (by simp [hdone])
      simp only [Bool.and_eq_true, decide_eq_true_eq] at hp
      have hthere := (hkeys.of_precedes (hsv'.trans hs').precedes).now x.1 x.2
        ((hsv.lookup ho).trans hget)
      rw [hp.1, hgone] at hthere
      exact absurd hthere (by simp)
    · intro sl s₃ s₄ revoked hsl ho hs₃ hswept s' hs'
      have howner := ((hs₃.trans hswept.follows).trans hs').owner _ ho
      refine ⟨⟨fun _ => ?_, by simp⟩, trivial⟩
      refine assignment_of_swept hd (((hsl.trans hs₃).trans hswept.follows).trans hs')
        (fun w hw => sweepWrites_table hw) fun _ => ?_
      simpa [Shared.held] using howner

/-- Decisions and the calls that run beside them keep the guarantee. -/
theorem decision_keeps : Keeps (decisionGuarantee calls db₀) fun t => (calls t).prog settings := by
  intro t s _ _ _
  suffices h : wp (decisionGuarantee calls db₀) t ((calls t).prog settings) .top s [] from
    wp_mono (fun _ _ _ _ => trivial) (fun _ _ _ _ => trivial) h
  have hunit : ∀ {α : Type} {p : StoreProg α}, Aside p →
      Aside (p.bind fun _ => (pure () : StoreProg Unit)) := fun hp => hp.bind fun _ => trivial
  rcases hcall : calls t with ⟨userId, client, reset⟩ | ⟨userId, client⟩ | ⟨userId, client⟩ | call
  case completeAuthorization => exact wp_completeAuthorization (by rw [hcall]; rfl)
  case exchangeCode => exact wp_completeAuthorization (by rw [hcall]; rfl)
  case userinfo => exact wp_userinfo (by rw [hcall]; rfl)
  cases call with
  | rotate tokenHash audience now issued =>
    refine wp_aside (hunit (Prog.Within.transaction aside_rotate fun record userId => ?_))
    split <;> simp
  | refresh tokenHash audience now issued =>
    refine wp_aside (hunit ((Prog.Within.transaction (aside_rotate.bind fun record => ?_)
      fun _ _ => by simp).handle fun e => ?_))
    · cases record with
      | none => trivial
      | some record =>
        refine aside_findCurrentActive.bind fun user => ?_
        cases user <;> trivial
    · cases e <;> trivial
  | logout tokenHash now =>
    have hrevoke : Aside (LogoutStore.revoke tokenHash now) := by
      refine Prog.Within.query.bind fun stored => ?_
      exact (Prog.Within.updateRows (by simp [OtherTable])).bind fun _ => trivial
    have hreport : NotDecision .loggedOut := by simp [NotDecision]
    exact wp_aside (hunit (hrevoke.bind fun userId => ⟨hreport, trivial⟩))
  | issue userId audience issued => exact wp_aside (hunit aside_issuePair)
  | login input handoff draws =>
    refine wp_aside (hunit ?_)
    cases handoff with
    | none =>
      refine aside_authenticate.bind fun user => ?_
      exact aside_issuePair.bind fun _ => trivial
    | some handoff =>
      refine aside_clientForHandoff.bind fun client => aside_authenticate.bind fun user => ?_
      exact aside_create.bind fun _ => trivial
  | passwordLogin oidc input now => exact wp_aside aside_passwordLogin
  | exchange input nowEpochMs issued =>
    refine wp_aside (hunit (aside_consume.bind fun handoff => ?_))
    cases handoff with
    | none => trivial
    | some handoff => exact aside_issuePair
  | expireHandoff code =>
    exact wp_aside ⟨fun _ _ => by simp, fun _ => trivial⟩
  | requestPasswordReset email now tokenId tokenHash ttlMs =>
    refine wp_aside ((Prog.Within.connection Prog.Within.query).bind fun user => ?_)
    cases user with
    | none => trivial
    | some user =>
      exact Prog.Within.transaction (Prog.Within.insertRow (by simp [OtherTable]))
        fun _ _ => by simp
  | confirmPasswordReset tokenHash passwordHash now =>
    refine wp_aside (hunit ((Prog.Within.transaction aside_confirm fun _ _ => by simp).bind
      fun userId => ?_))
    cases userId <;> trivial
  | admin actor request =>
    refine wp_bind.mpr (wp_assert trivial fun _ => wp_bind.mpr ?_)
    refine wp_connection (wp_query fun sr _ s₀ _ => ?_)
    dsimp only
    split
    swap
    · trivial
    cases request with
    | setUserStatus target status now => exact wp_aside (hunit aside_setUserStatus)
    | assignRole target serviceKey name newRoleId newUserRoleId => exact wp_bind.mpr wp_assignRole
    | removeRole target serviceKey name now => exact wp_bind.mpr wp_removeRole
    | revokeSessions target now => exact wp_aside (hunit aside_revokeSessions)

end OidcDecisions

/-! ## Runs -/

/-- From this state of the run on, process `t` holds the lock of the user's row until the log is
`log`. -/
def LockedUntil (code : ℕ → StoreProg Unit) (start : System store) (acts : List (Act store))
    (t : ℕ) (userId : String) (sys : System store) (log : Log store) : Prop :=
  ∃ acts₁ acts₂ acts₃ sys', acts = acts₁ ++ acts₂ ++ acts₃ ∧ start.run code acts₁ = some sys ∧
    sys.run code acts₂ = some sys' ∧ sys'.shared.log = log ∧
    System.holding code t (.row .user userId) sys acts₂ = true

/-- A decision that signs a user in is linearizable with the administration: in every run, the
user is ACTIVE with a verified email in every state from the lock of its row up to the commit of
the decision, and holds a role that the client requires from the SELECT of its roles up to that
commit. A change of status or a removal of a role that commits before the decision is not
ignored. -/
theorem oidc_decisions_linearizable {settings : AuthSettings} {calls : ℕ → DecisionCall}
    {db₀ : Db store} {redis : RedisState} {acts : List (Act store)} {sys : System store}
    (hunique : UniqueEntries db₀)
    (hrun : decisionRun settings calls db₀ redis acts = some sys)
    (hkeys : ForeignKeys sys.shared.log) :
    sys.shared.log.Commits fun prior t (report : Report) _ =>
      ∀ userId, report = .signedIn userId → ∃ client,
        (calls t).subject = some (userId, client) ∧ DecidedOn t client userId prior ∧
        ∀ locked, LockedUntil (fun t => (calls t).prog settings) (.initial db₀ redis) acts t userId
          locked prior → Verified userId locked.shared.db := by
  have hvalid := run_valid OidcDecisions.decision_keeps rfl hunique hrun
  refine hvalid.commits_within ?_ .refl
  intro prior t report held after hle _ hcommit userId hreport
  obtain ⟨client, hsubject, hdecided⟩ := hcommit.2 userId hreport
  have hon := hdecided (hkeys.of_precedes ((Log.Extends.single trivial).trans hle))
  refine ⟨client, hsubject, hon, ?_⟩
  rintro locked ⟨_, _, _, mid, -, -, hmid, rfl, hholding⟩
  exact hon.verified _ (System.without_of_holding hholding hmid)

/-- The administrator signs in to a client that asks for its role, and meanwhile removes a role
of its own. -/
def exchangeAndRemoval : ℕ → DecisionCall
  | 0 => .exchangeCode "alice" ⟨[⟨"temis", "admin"⟩], ["temis"]⟩
  | _ => .session (.admin "alice" (.removeRole "alice" "temis" "user" 5))

/-- The administrator with a second role. -/
def twoRoles : Db store := view
  [.put .role "user" ⟨"temis", "user"⟩, .put .userRole "ur1" ⟨"alice", "user"⟩] oneAdmin

/-- The assignment is deleted first, and the removal then waits for the row of the user. -/
def exchangeRemovalActs : List (Act store) :=
  [.call 0, .call 1] ++ steps 1 4 ++ [.step 1 ["ur1"], .step 1 []] ++
    [.step 0 [], .step 0 ["alice"]] ++ steps 0 3 ++
    [.step 1 ["alice"], .step 1 [], .step 1 ["r0"]] ++ steps 1 2

theorem oidc_decisions_linearizable_example :
    ∃ sys,
      decisionRun plainSettings exchangeAndRemoval twoRoles ⟨∅⟩ exchangeRemovalActs = some sys ∧
      sys.shared.log.reports 0 = [.signedIn "alice"] ∧
      sys.shared.log.reports 1 = [.roleRemoved "alice" true] ∧
      sys.shared.log.Commits fun prior t (report : Report) _ =>
        ∀ userId, report = .signedIn userId → ∃ client,
          (exchangeAndRemoval t).subject = some (userId, client) ∧
            DecidedOn t client userId prior ∧
            ∀ locked, LockedUntil (fun t => (exchangeAndRemoval t).prog plainSettings)
              (.initial twoRoles ⟨∅⟩) exchangeRemovalActs t userId locked prior →
              Verified userId locked.shared.db := by
  have hsome : (decisionRun plainSettings exchangeAndRemoval twoRoles ⟨∅⟩ exchangeRemovalActs).any
      (fun sys => sys.shared.log.reports 0 = [.signedIn "alice"] ∧
        sys.shared.log.reports 1 = [.roleRemoved "alice" true] ∧
        ForeignKeys sys.shared.log) = true := by decide
  obtain ⟨sys, hrun, hsys⟩ := (Option.any_eq_true _ _).mp hsome
  obtain ⟨hsigned, hremoved, hkeys⟩ := of_decide_eq_true hsys
  exact ⟨sys, hrun, hsigned, hremoved, oidc_decisions_linearizable (by decide) hrun hkeys⟩

end WiseacctSso
