import WiseacctSso.EmailActivation

/-!
# What account calls give away

A call grants one role at most, the default role of the store or of its client, and takes
an id from the reservations for the reserved email alone.
-/
namespace WiseacctSso
open ReadCommitted EmailVerificationStore OAuthIdentityStore

variable {settings : AccountSettings} {calls : ℕ → AccountCall} {db₀ : Db store}

/-! ## Assignments of roles -/

/-- The role a call may give. A confirmation knows the default role of the store only. -/
def AccountCall.Grants (settings : AccountSettings) (role : Role) : AccountCall → Prop
  | .confirmEmailVerification _ _ _ => role = DEFAULT_ROLE.toRole
  | .oauthCallback clientId _ _ => ∃ client, settings.authClients clientId = some client ∧
      role = client.defaultRole.toRole
  | _ => False

/-- The id is reserved for an email. -/
def IsReserved (db : Db store) (id : String) : Prop :=
  ∃ κ row, db.get .subjectReservation κ = some row ∧ row.subjectId = id

/-- The foreign key of the assignments to the roles. -/
def RolesExist (db : Db store) : Prop :=
  ∀ κ (ur : UserRole), db.get .userRole κ = some ur → (db.get .role ur.roleId).isSome = true

/-- An assignment was there before, and may have followed its user to one of the ids `ids`,
or it is a new one of a role that is `granted`. -/
structure Assigns (granted : Role → Prop) (ids : String → Prop) (before after : Db store) :
    Prop where
  roles : ∀ κ (r : Role), before.get .role κ = some r → after.get .role κ = some r
  source : ∀ κ (ur : UserRole), after.get .userRole κ = some ur →
    (∃ ur₀, before.get .userRole κ = some ur₀ ∧ ur₀.roleId = ur.roleId ∧
      (ur.userId = ur₀.userId ∨ ids ur.userId)) ∨
    ∃ role, granted role ∧ after.get .role ur.roleId = some role

namespace Assigns

variable {granted granted' : Role → Prop} {ids : String → Prop} {before mid after : Db store}

lemma refl : Assigns granted ids before before :=
  ⟨fun _ _ hr => hr, fun _ ur hur => .inl ⟨ur, hur, rfl, .inl rfl⟩⟩

lemma trans (h : Assigns granted ids before mid) (h' : Assigns granted ids mid after) :
    Assigns granted ids before after := by
  refine ⟨fun κ r hr => h'.roles κ r (h.roles κ r hr), fun κ ur hur => ?_⟩
  rcases h'.source κ ur hur with ⟨ur₁, hur₁, hrole₁, hid₁⟩ | hnew
  swap
  · exact .inr hnew
  rcases h.source κ ur₁ hur₁ with ⟨ur₀, hur₀, hrole₀, hid₀⟩ | ⟨role, hgranted, hrole⟩
  · refine .inl ⟨ur₀, hur₀, hrole₀.trans hrole₁, ?_⟩
    rcases hid₁ with hsame | hmoved
    · rw [hsame]
      exact hid₀
    · exact .inr hmoved
  · exact .inr ⟨role, hgranted, hrole₁ ▸ h'.roles _ role hrole⟩

lemma mono (hgranted : ∀ role, granted role → granted' role)
    (h : Assigns granted ids before after) : Assigns granted' ids before after := by
  refine ⟨h.roles, fun κ ur hur => (h.source κ ur hur).imp_right ?_⟩
  rintro ⟨role, hrole, hget⟩
  exact ⟨role, hgranted role hrole, hget⟩

/-- A part of a transaction that leaves both tables alone. -/
lemma of_same (hrole : ∀ κ, after.get .role κ = before.get .role κ)
    (huserRole : ∀ κ, after.get .userRole κ = before.get .userRole κ) :
    Assigns granted ids before after :=
  ⟨fun κ _ hr => (hrole κ).trans hr,
    fun κ ur hur => .inl ⟨ur, (huserRole κ).symm.trans hur, rfl, .inl rfl⟩⟩

lemma of_other {T : Table} (hrole : T ≠ .role) (huserRole : T ≠ .userRole)
    (h : ∀ T', T' ≠ T → after T' = before T') : Assigns granted ids before after := by
  have hget : ∀ T', T ≠ T' → ∀ κ, after.get T' κ = before.get T' κ :=
    fun T' hT κ => by rw [Db.get, h T' (Ne.symm hT), Db.get]
  exact of_same (hget .role hrole) (hget .userRole huserRole)

/-- The roles of the assignments stay there. -/
lemma rolesExist (h : Assigns granted ids before after) (hexist : RolesExist before) :
    RolesExist after := by
  intro κ ur hur
  rcases h.source κ ur hur with ⟨ur₀, hur₀, hrole, -⟩ | ⟨role, -, hrole⟩
  · obtain ⟨role, hget⟩ := Option.isSome_iff_exists.mp (hexist κ ur₀ hur₀)
    rw [← hrole, h.roles _ role hget]
    rfl
  · rw [hrole]
    rfl

end Assigns

lemma RoleGranted.assigns {userId : String} {role : Role} {ids : String → Prop}
    {before after : Db store} (h : RoleGranted userId role before after) :
    Assigns (· = role) ids before after := by
  refine ⟨h.roles, fun κ ur hur => ?_⟩
  rcases h.assigned κ with hsame | ⟨-, roleId, hrole, hnew⟩
  · exact .inl ⟨ur, hsame.symm.trans hur, rfl, .inl rfl⟩
  · obtain rfl := Option.some.inj (hnew.symm.trans hur)
    exact .inr ⟨role, rfl, hrole⟩

lemma Creation.assigns {userId socialId : String} {user : User} {social : SocialAccount}
    {role : Role} {ids : String → Prop} {before created linked after : Db store}
    (h : Creation userId socialId user social role before created linked after) :
    Assigns (· = role) ids before after := by
  have hcreated : Assigns (· = role) ids before created :=
    .of_other (by simp) (by simp) h.user.other
  have hlinked : Assigns (· = role) ids created linked :=
    .of_other (by simp) (by simp) h.social.other
  exact (hcreated.trans hlinked).trans h.role.assigns

lemma UserRemoved.assigns {userId : String} {u : User} {whole : List Table}
    {granted : Role → Prop} {ids : String → Prop} {before after : Db store}
    (h : UserRemoved userId u whole before after) : Assigns granted ids before after := by
  have hrole : ∀ κ, after.get .role κ = before.get .role κ :=
    fun κ => by rw [Db.get, h.other .role (by simp) (by simp [childTables]), Db.get]
  refine ⟨fun κ r hr => (hrole κ).trans hr, fun κ ur hur => ?_⟩
  rcases h.child .userRole (by simp [childTables]) κ with hsame | ⟨hnone, -⟩
  · exact .inl ⟨ur, hsame.symm.trans hur, rfl, .inl rfl⟩
  · exact absurd (hnone.symm.trans hur) (by simp)

lemma Activation.assigns {tokenId userId activatedId : String} {usedAt : Timestamp} {role : Role}
    {token : EmailVerificationToken} {u : User} {whole : List Table} {ids : String → Prop}
    {before used activated moved after : Db store}
    (h : Activation tokenId userId activatedId usedAt role token u whole before used activated
      moved after) (hids : activatedId ≠ userId → ids activatedId) :
    Assigns (· = role) ids before after := by
  have hused : Assigns (· = role) ids before used :=
    .of_other (by simp) (by simp) h.token.other
  have hactivated : Assigns (· = role) ids used activated :=
    .of_other (by simp) (by simp) h.user.other
  have hmoved : Assigns (· = role) ids activated moved := by
    have hrole : ∀ κ, moved.get .role κ = activated.get .role κ :=
      fun κ => by rw [Db.get, h.children.other .role (by simp [childTables]), Db.get]
    refine ⟨fun κ r hr => (hrole κ).trans hr, fun κ ur hur => .inl ?_⟩
    rcases h.children.child .userRole (by simp [childTables]) κ with
      hsame | ⟨ur₀, hur₀, howner, hset⟩
    · exact ⟨ur, hsame.symm.trans hur, rfl, .inl rfl⟩
    · obtain rfl := Option.some.inj (hset.symm.trans hur)
      refine ⟨ur₀, hur₀, rfl, ?_⟩
      by_cases hid : activatedId = userId
      · exact .inl (hid.trans (Option.some.inj howner).symm)
      · exact .inr (hids hid)
  exact ((hused.trans hactivated).trans hmoved).trans h.role.assigns

/-- Reservations are those of the first tables. -/
lemma reservation_eq {log : Log store} (hv : AccountLog settings calls db₀ log) (κ : String) :
    log.db.get .subjectReservation κ = db₀.get .subjectReservation κ := by
  induction log with
  | initial db ext => exact hv.1 ▸ rfl
  | add log event ih =>
    cases event with
    | selected t q => exact ih hv.of_add
    | called t report ext => exact ih hv.of_add
    | committed t report held db => exact (hv.2.1.step.reservations κ).trans (ih hv.of_add)

lemma isReserved_of_reserved {log : Log store} (hv : AccountLog settings calls db₀ log)
    {user : User} {userId activatedId : String}
    (h : Reserved settings.py user userId activatedId log.db) (hne : activatedId ≠ userId) :
    IsReserved db₀ activatedId := by
  obtain ⟨-, κ, row, -, hrow, -, hsubject⟩ := h hne
  exact ⟨κ, row, (reservation_eq hv κ).symm.trans hrow, hsubject⟩

lemma AccountCommit.assigns {log : Log store} {t : ℕ} {held : Lock store → Bool} {after : Db store}
    {report : Report} (hv : AccountLog settings calls db₀ log)
    (h : AccountCommit settings calls log t held after report) :
    Assigns (fun role => (calls t).Grants settings role) (IsReserved db₀) log.db after := by
  cases h with
  | unchanged effect _ => exact effect ▸ .refl
  | pendingUpserted _ effect => exact .of_other (by simp) (by simp) effect.other
  | registered _ _ user credential =>
    exact .trans (.of_other (by simp) (by simp) user.other)
      (.of_other (by simp) (by simp) credential.other)
  | verificationTokenCreated _ effect _ _ => exact .of_other (by simp) (by simp) effect.other
  | confirmRefused _ effect => exact .of_same (effect .role) (effect .userRole)
  | confirmConflicted _ _ _ _ _ _ _ _ effect same =>
    exact .trans (.of_other (by simp) (by simp) effect.other)
      (.of_same (same .role) (same .userRole))
  | activated call _ _ _ reservationRead reserved _ _ effect =>
    have hassigns :=
      effect.assigns (isReserved_of_reserved (hv.of_extends reservationRead) reserved)
    exact hassigns.mono fun role hrole => by simpa [AccountCall.Grants, call] using hrole
  | attached _ _ _ _ _ _ _ _ _ _ effect =>
    exact .trans (.of_other (by simp) (by simp) effect.token.other)
      (.trans (.of_other (by simp) (by simp) effect.credential.other)
        (.of_other (by simp) (by simp) effect.pending.other))
  | linked _ effect => exact .of_other (by simp) (by simp) effect.other
  | created callback _ _ _ effect =>
    obtain ⟨_, _, client, _, call, hclient, rfl, -⟩ := callback
    refine effect.assigns.mono fun role hrole => ?_
    simpa [AccountCall.Grants, call] using ⟨client, hclient, hrole⟩
  | replaced callback _ _ _ _ _ _ _ _ removal effect =>
    obtain ⟨_, _, client, _, call, hclient, rfl, -⟩ := callback
    refine removal.assigns.trans (effect.assigns.mono fun role hrole => ?_)
    simpa [AccountCall.Grants, call] using ⟨client, hclient, hrole⟩
  | userStatusSet _ effect =>
    have hget : ∀ T, T ≠ .user → T ≠ .refreshToken → ∀ κ, after.get T κ = log.db.get T κ :=
      fun T hT hT' κ => by rw [Db.get, effect.other T hT hT', Db.get]
    exact .of_same (hget .role (by simp) (by simp)) (hget .userRole (by simp) (by simp))

/-- The assignments of a run are those of its first tables and new ones of grantable roles. -/
lemma assigns_of_log {log : Log store} (hv : AccountLog settings calls db₀ log) :
    Assigns (fun role => ∃ t, (calls t).Grants settings role) (IsReserved db₀) db₀ log.db := by
  induction log with
  | initial db ext => exact hv.1 ▸ .refl
  | add log event ih =>
    cases event with
    | selected t q => exact ih hv.of_add
    | called t report ext => exact ih hv.of_add
    | committed t report held db =>
      exact (ih hv.of_add).trans ((hv.2.1.assigns hv.of_add).mono fun role hrole => ⟨_, hrole⟩)

/-- A pending account whose owner is an administrator. -/
def pendingAdmin : Db store := view
  [.put .role "admin" ⟨"temis", "admin"⟩, .put .userRole "ur0" ⟨"bob", "admin"⟩] pendingAccount

def confirmedActs : List (Act store) :=
  [.call 0] ++ steps 0 4 ++ [.step 0 ["v1"]] ++ steps 0 2 ++ [.step 0 ["bob"]] ++ steps 0 8

lemma rolesExist_pendingAdmin : RolesExist pendingAdmin := by
  rw [RolesExist, forall_get_iff (Γ := store) (T := .userRole)
    (P := fun _ ur => (pendingAdmin.get .role ur.roleId).isSome = true)]
  decide

def HoldsRole (db : Db store) (userId : String) (role : Role) : Prop :=
  ∃ κ roleId, db.get .userRole κ = some ⟨userId, roleId⟩ ∧ db.get .role roleId = some role

lemma holdsRole_congr {before after : Db store} {userId : String} {role : Role}
    (hrole : ∀ κ, after.get .role κ = before.get .role κ)
    (huserRole : ∀ κ, after.get .userRole κ = before.get .userRole κ) :
    HoldsRole after userId role ↔ HoldsRole before userId role := by
  simp only [HoldsRole, hrole, huserRole]

lemma holdsRole_of_other {before after : Db store} {userId : String} {role : Role} {T : Table}
    (hrole : T ≠ .role) (huserRole : T ≠ .userRole) (h : ∀ T', T' ≠ T → after T' = before T') :
    HoldsRole after userId role ↔ HoldsRole before userId role := by
  have hget : ∀ T', T ≠ T' → ∀ κ, after.get T' κ = before.get T' κ :=
    fun T' hT κ => by rw [Db.get, h T' (Ne.symm hT), Db.get]
  exact holdsRole_congr (hget .role hrole) (hget .userRole huserRole)

/-- A grant adds its role and no other. -/
lemma RoleGranted.holdsRole_iff {userId : String} {role r : Role} {before after : Db store}
    (h : RoleGranted userId role before after) (hexist : RolesExist before) :
    HoldsRole after userId r ↔ r = role ∨ HoldsRole before userId r := by
  constructor
  · rintro ⟨κ, roleId, hassigned, hrole⟩
    rcases h.assigned κ with hsame | ⟨-, roleId', hrole', hnew⟩
    · refine .inr ⟨κ, roleId, hsame.symm.trans hassigned, ?_⟩
      obtain ⟨r₀, hr₀⟩ := Option.isSome_iff_exists.mp (hexist κ _ (hsame.symm.trans hassigned))
      obtain rfl := Option.some.inj ((h.roles roleId r₀ hr₀).symm.trans hrole)
      exact hr₀
    · obtain ⟨-, rfl⟩ := UserRole.mk.inj (Option.some.inj (hnew.symm.trans hassigned))
      exact .inl (Option.some.inj (hrole.symm.trans hrole'))
  · rintro (rfl | ⟨κ, roleId, hassigned, hrole⟩)
    · obtain ⟨roleId, κ, hrole, hassigned⟩ := h.granted
      exact ⟨κ, roleId, hassigned, hrole⟩
    · exact ⟨κ, roleId, h.keeps (T := .userRole) hassigned, h.roles roleId r hrole⟩

/-- The roles of a user follow it to its new id. -/
lemma Cascaded.holdsRole_iff {userId newId : String} {r : Role} {before after : Db store}
    (h : Cascaded (moveTo newId) userId childTables [.userRole] before after) :
    HoldsRole after newId r ↔ HoldsRole before userId r ∨ HoldsRole before newId r := by
  have hrole : ∀ κ, after.get .role κ = before.get .role κ :=
    fun κ => by rw [Db.get, h.other .role (by simp [childTables]), Db.get]
  have hmem : Table.userRole ∈ childTables := by simp [childTables]
  constructor
  · rintro ⟨κ, roleId, hassigned, hr⟩
    rw [hrole] at hr
    rcases h.child .userRole hmem κ with hsame | ⟨ur, hur, howner, hset⟩
    · exact .inr ⟨κ, roleId, hsame.symm.trans hassigned, hr⟩
    · obtain ⟨id, roleId₀⟩ := ur
      obtain rfl : id = userId := Option.some.inj howner
      obtain ⟨-, rfl⟩ := UserRole.mk.inj (Option.some.inj (hset.symm.trans hassigned))
      exact .inl ⟨κ, roleId₀, hur, hr⟩
  · rintro (⟨κ, roleId, hassigned, hr⟩ | ⟨κ, roleId, hassigned, hr⟩)
    · refine ⟨κ, roleId, ?_, (hrole roleId).trans hr⟩
      exact h.complete .userRole hmem (by simp) κ _ hassigned rfl
    · refine ⟨κ, roleId, ?_, (hrole roleId).trans hr⟩
      rcases h.child .userRole hmem κ with hsame | ⟨ur, hur, -, hset⟩
      · exact hsame.trans hassigned
      · obtain rfl := Option.some.inj (hur.symm.trans hassigned)
        exact hset

/-- What a confirmed account holds is the default role of the store and what the pending
account held. -/
lemma Activation.holdsRole_iff {tokenId userId activatedId : String} {usedAt : Timestamp}
    {role r : Role} {token : EmailVerificationToken} {u : User}
    {before used activated moved after : Db store}
    (h : Activation tokenId userId activatedId usedAt role token u [.userRole] before used
      activated moved after) (hexist : RolesExist before) :
    HoldsRole after activatedId r ↔
      r = role ∨ HoldsRole before userId r ∨ HoldsRole before activatedId r := by
  have hused : ∀ {id}, HoldsRole used id r ↔ HoldsRole before id r :=
    holdsRole_of_other (by simp) (by simp) h.token.other
  have hactivated : ∀ {id}, HoldsRole activated id r ↔ HoldsRole used id r :=
    holdsRole_of_other (by simp) (by simp) h.user.other
  have hmoved : RolesExist moved := by
    intro κ ur hur
    have hrole : ∀ κ, moved.get .role κ = before.get .role κ := fun κ => by
      rw [Db.get, h.children.other .role (by simp [childTables]), h.user.other .role (by simp),
        h.token.other .role (by simp), Db.get]
    have hbefore : ∀ κ, activated.get .userRole κ = before.get .userRole κ := fun κ => by
      rw [Db.get, h.user.other .userRole (by simp), h.token.other .userRole (by simp), Db.get]
    rw [hrole]
    rcases h.children.child .userRole (by simp [childTables]) κ with hsame | ⟨ur₀, hur₀, -, hset⟩
    · exact hexist κ ur ((hbefore κ).symm.trans (hsame.symm.trans hur))
    · obtain rfl := Option.some.inj (hset.symm.trans hur)
      exact hexist κ ur₀ ((hbefore κ).symm.trans hur₀)
  rw [h.role.holdsRole_iff hmoved, h.children.holdsRole_iff, hactivated, hactivated, hused, hused]

lemma rolesExist_of_log {log : Log store} (hv : AccountLog settings calls db₀ log)
    (hexist : RolesExist db₀) : RolesExist log.db :=
  (assigns_of_log hv).rolesExist hexist

/-- The id a call draws for a new user. -/
def AccountCall.drawnUser : AccountCall → Option String
  | .register _ draws => some draws.userId
  | .oauthCallback _ _ ids => some ids.user
  | _ => none

/-- The call brings in a profile whose provider has not verified the email. -/
def Unproven (settings : AccountSettings) (calls : ℕ → AccountCall) (t : ℕ) : Prop :=
  ∃ profile defaultRole ids, CallbackOf settings calls t profile defaultRole ids ∧
    profile.emailVerified = false

lemma callback_profile {t : ℕ} {profile profile' : OAuthProfileRecord}
    {defaultRole defaultRole' : DefaultRole} {ids ids' : OAuthIds}
    (h : CallbackOf settings calls t profile defaultRole ids)
    (h' : CallbackOf settings calls t profile' defaultRole' ids') : profile = profile' := by
  obtain ⟨clientId, rawUser, client, p, hcall, hclient, -, hp, rfl⟩ := h
  obtain ⟨clientId', rawUser', client', p', hcall', hclient', -, hp', rfl⟩ := h'
  obtain ⟨-, rfl, -⟩ := AccountCall.oauthCallback.inj (hcall.symm.trans hcall')
  rw [Option.some.inj (hp.symm.trans hp')]

/-- The event brings a user in under the id: a registration, a sign-in or a confirmation that
reports it. -/
def BringsUserIn (id : String) : Event store → Prop
  | .committed _ report _ _ =>
      report = .registered id ∨ report = .oauthResolved id ∨ report = .emailConfirmed (some id)
  | _ => False

/-- Until a user is brought in under its id, a row keeps its email. -/
lemma email_kept {log log' : Log store} {id : String} {u u' : User}
    (hv : AccountLog settings calls db₀ log')
    (h : log.Extends (fun event => ¬ BringsUserIn id event) log')
    (hu : log.db.get .user id = some u) (hu' : log'.db.get .user id = some u') :
    u'.email = u.email := by
  induction h generalizing u' with
  | refl => rw [Option.some.inj (hu.symm.trans hu')]
  | @add log' event _ hspares ih =>
    cases event with
    | selected t q => exact ih hv.of_add hu'
    | called t report ext => exact ih hv.of_add hu'
    | committed t report held after =>
      cases hv.2.1.userStep hu' with
      | same found => exact ih hv.of_add found
      | registered _ _ report => exact absurd (.inl report) hspares
      | activated _ report => exact absurd (.inr (.inr report)) hspares
      | signedIn _ report => exact absurd (.inr (.inl report)) hspares
      | @statusSet u₀ _ found row _ =>
        have hemail : u'.email = u₀.email := by rw [← row]
        exact hemail.trans (ih hv.of_add found)

/-- How a row with the reserved id comes into existence: a pending account that the call has
read with the reserved email is moved to the id and activated, and it has that email unless
another user was brought in under its old id since, or a sign-in brings the row in with that
email, verified as its provider says. -/
inductive ReservedUser (settings : AccountSettings) (calls : ℕ → AccountCall) (prior : Log store)
    (t : ℕ) (email : String) (u : User) : Prop
  | confirmed {tokenHash userId : String} {now : Timestamp} {ids : ConfirmIds}
      {userLog : Log store} {u₀ u₁ : User}
      (call : calls t = .confirmEmailVerification tokenHash now ids)
      (read : userLog.Precedes prior) (found : userLog.db.get .user userId = some u₀)
      (email_eq : u₀.email.map settings.py.lower = some email)
      (row : prior.db.get .user userId = some u₁)
      (pending : u₁.status = .pendingEmailVerification) (activated : u = u₁.activated)
      (kept : userLog.Extends (fun event => ¬ BringsUserIn userId event) prior →
        u.email.map settings.py.lower = some email)
  | signedIn {profile : OAuthProfileRecord} {defaultRole : DefaultRole} {ids : OAuthIds}
      (callback : CallbackOf settings calls t profile defaultRole ids)
      (email_eq : u.email = some email) (active : u.status = .active)
      (verified : u.emailVerified = profile.emailVerified)

/-- The email of such a row is proven unless the call is a sign-in with an unproven one. -/
lemma ReservedUser.verified_iff {prior : Log store} {t : ℕ} {email : String} {u : User}
    (h : ReservedUser settings calls prior t email u) :
    u.emailVerified = true ↔ ¬ Unproven settings calls t := by
  cases h with
  | confirmed call _ _ _ _ _ activated _ =>
    refine iff_of_true (activated ▸ rfl) ?_
    rintro ⟨_, _, _, ⟨_, _, _, _, hcall, -⟩, -⟩
    exact absurd (hcall.symm.trans call) (by simp)
  | @signedIn profile defaultRole ids callback _ _ verified =>
    rw [verified]
    constructor
    · rintro hverified ⟨profile', _, _, hcallback', hunverified⟩
      rw [← callback_profile callback hcallback', hverified] at hunverified
      exact absurd hunverified (by simp)
    · intro hproven
      by_contra hunverified
      exact hproven ⟨profile, defaultRole, ids, callback, by simpa using hunverified⟩

/-- A reservation that names the id is the reservation of that id. -/
lemma reservation_unique (hunique : UniqueEntries db₀) {log : Log store}
    (hv : AccountLog settings calls db₀ log) {κ κ' id email : String} {row : SubjectReservation}
    (hreserved : db₀.get .subjectReservation κ = some ⟨email, id⟩)
    (hrow : log.db.get .subjectReservation κ' = some row) (hid : row.subjectId = id) :
    row.email = email := by
  rw [reservation_eq hv] at hrow
  obtain rfl : κ' = κ := hunique .subjectReservation κ' κ row ⟨email, id⟩ hrow hreserved
    (.subjectId id) (by simp [← hid]) (by simp)
  rw [Option.some.inj (hrow.symm.trans hreserved)]

lemma Creation.user_eq {userId socialId id : String} {user u : User} {social : SocialAccount}
    {role : Role} {before created linked after : Db store}
    (h : Creation userId socialId user social role before created linked after)
    (hbefore : before.get .user id = none) (hu : after.get .user id = some u) :
    id = userId ∧ u = user := by
  rw [Db.get, h.role.other _ (by simp) (by simp), h.social.other _ (by simp)] at hu
  have hlookup := h.user.lookup id
  rw [Db.get] at hlookup
  rw [hlookup] at hu
  split at hu
  · next hid => exact ⟨hid, (Option.some.inj hu).symm⟩
  · exact absurd (hbefore.symm.trans hu) (by simp)

/-- A sign-in that creates a user under the reserved id has the reserved email. -/
lemma email_of_named (hunique : UniqueEntries db₀) {log : Log store}
    (hv : AccountLog settings calls db₀ log) {t : ℕ} {κ id email : String}
    {profile : OAuthProfileRecord} {defaultRole : DefaultRole} {ids : OAuthIds}
    {normalized userEmail : Option String}
    (hreserved : db₀.get .subjectReservation κ = some ⟨email, id⟩)
    (hdrawn : (calls t).drawnUser ≠ some id)
    (hcallback : CallbackOf settings calls t profile defaultRole ids)
    (hnamed : Named ids normalized userEmail id log.db) : userEmail = some email := by
  obtain ⟨_, _, _, _, hcall, -⟩ := hcallback
  rcases hnamed.id with hid | ⟨κ', row, hrow, hemail, hid⟩
  · exact absurd (by rw [hcall, hid]; rfl) hdrawn
  · rw [← reservation_unique hunique hv hreserved hrow hid]
    exact hemail

lemma AccountCommit.reservedUser (hunique : UniqueEntries db₀) {log : Log store}
    (hv : AccountLog settings calls db₀ log) {t : ℕ} {held : Lock store → Bool} {after : Db store}
    {report : Report} (h : AccountCommit settings calls log t held after report)
    {κ id email : String} {u : User}
    (hreserved : db₀.get .subjectReservation κ = some ⟨email, id⟩)
    (hdrawn : (calls t).drawnUser ≠ some id) (hbefore : log.db.get .user id = none)
    (hu : after.get .user id = some u) : ReservedUser settings calls log t email u := by
  -- Most commits bring in no user at all.
  have hnew : after.get .user id ≠ log.db.get .user id := by
    rw [hu, hbefore]
    simp
  cases h with
  | unchanged effect _ => exact absurd (by rw [effect]) hnew
  | pendingUpserted _ effect => exact absurd (by rw [Db.get, effect.other _ (by simp), Db.get]) hnew
  | registered call _ user credential =>
    have hlookup := user.lookup id
    rw [← credential.get_other (by simp), hu] at hlookup
    split at hlookup
    · next hid => exact absurd (by rw [call, hid]; rfl) hdrawn
    · exact absurd (hlookup.trans hbefore) (by simp)
  | verificationTokenCreated _ effect _ _ => exact absurd (effect.get_other (by simp) id) hnew
  | confirmRefused _ effect => exact absurd (effect .user id) hnew
  | confirmConflicted _ _ _ _ _ _ _ _ effect same =>
    exact absurd ((same .user id).trans (effect.get_other (by simp) id)) hnew
  | @activated _ _ userId activatedId _ _ _ _ _ u₁ _ _ _ _ call read found _ reservationRead
      reserved _ _ effect =>
    have hrow : log.db.get .user userId = some u₁ := by
      rw [← effect.token.get_other (by simp)]
      exact effect.user.found
    have hne : id ≠ userId := by
      rintro rfl
      exact absurd (hbefore.symm.trans hrow) (by simp)
    rw [Db.get, effect.role.other _ (by simp) (by simp),
      effect.children.other _ (by simp [childTables])] at hu
    have hlookup := (effect.user.lookup id).symm.trans hu
    rw [if_neg hne, effect.token.get_other (by simp), hbefore] at hlookup
    obtain ⟨hid, hactivated⟩ := Option.ite_none_right_eq_some.mp hlookup
    obtain ⟨email₀, κ', row, hemail₀, hreservation, hlower, hsubject⟩ := reserved (hid ▸ hne)
    have hemail := reservation_unique hunique (hv.of_extends reservationRead) hreserved
      hreservation (hsubject.trans hid.symm)
    have hfound : Option.map settings.py.lower _ = some email :=
      (congrArg _ hemail₀).trans (congrArg some (hlower.symm.trans hemail))
    refine .confirmed call read found hfound hrow effect.user.pending
      (Option.some.inj hactivated).symm fun hspared => ?_
    rw [← Option.some.inj hactivated]
    exact (congrArg _ (email_kept hv hspared found hrow)).trans hfound
  | attached _ _ _ _ _ _ _ _ _ _ effect =>
    refine absurd ?_ hnew
    rw [effect.pending.get_other (by simp), effect.credential.get_other (by simp),
      effect.token.get_other (by simp)]
  | linked _ effect => exact absurd (effect.get_other (by simp) id) hnew
  | created callback read named _ effect =>
    obtain ⟨rfl, rfl⟩ := effect.user_eq hbefore hu
    exact .signedIn callback
      (email_of_named hunique (hv.of_extends read) hreserved hdrawn callback named) rfl rfl
  | replaced callback _ _ _ _ read named _ _ removal effect =>
    have hremoved : _ = none := (removal.lookup id).trans (by simp [hbefore])
    obtain ⟨rfl, rfl⟩ := effect.user_eq hremoved hu
    exact .signedIn callback
      (email_of_named hunique (hv.of_extends read) hreserved hdrawn callback named) rfl rfl
  | userStatusSet _ effect =>
    rcases effect.user id with hsame | ⟨-, u₀, hu₀, -⟩
    · exact absurd hsame hnew
    · exact absurd (hbefore.symm.trans hu₀) (by simp)

/-- An id is reserved, and its user is not there yet. -/
def reservedAccount : Db store := view
  [.put .subjectReservation "sr1" ⟨"carol@example.com", "s1"⟩] pendingAccount

/-- A sign-in with Kakao, which does not verify emails. -/
def kakaoSignIn (_ : ℕ) : AccountCall :=
  .oauthCallback "temis" (.kakao "k1" (some "carol@example.com") none none)
    ⟨"ann", "a1", ⟨"x0", "x1", "x2", "x3", "x4"⟩⟩

end WiseacctSso
