import WiseacctSso.SessionServices

/-!
# Stores for registration, email verification and OAuth identities

Each definition is the store method of that name. An UPDATE or DELETE of a user's primary
key is followed by what its foreign keys cascade to; the row ids a method draws with
`application_uuid` are arguments.
-/
namespace WiseacctSso
open ReadCommitted

/-! ## Cascades of `User.id` -/

/-- The owner a row of a child table refers to. -/
def Table.owner : (T : Table) → T.Row → Option String
  | .passwordCredential, row => some row.userId
  | .pendingPasswordCredential, row => some row.userId
  | .socialAccount, row => some row.userId
  | .refreshToken, row => some row.userId
  | .emailVerificationToken, row => some row.userId
  | .passwordResetToken, row => some row.userId
  | .userRole, row => some row.userId
  | .user, _ => none
  | .subjectReservation, _ => none
  | .role, _ => none

def Table.setOwner (userId : String) : (T : Table) → T.Row → T.Row
  | .passwordCredential, row => { row with userId := userId }
  | .pendingPasswordCredential, row => { row with userId := userId }
  | .socialAccount, row => { row with userId := userId }
  | .refreshToken, row => { row with userId := userId }
  | .emailVerificationToken, row => { row with userId := userId }
  | .passwordResetToken, row => { row with userId := userId }
  | .userRole, row => { row with userId := userId }
  | .user, row => row
  | .subjectReservation, row => row
  | .role, row => row

/-- The tables with a foreign key ON DELETE CASCADE ON UPDATE CASCADE to `User.id`. -/
def childTables : List Table :=
  [.passwordCredential, .pendingPasswordCredential, .socialAccount, .refreshToken,
    .emailVerificationToken, .passwordResetToken, .userRole]

def cascadeUpdate (userId newId : String) : List Table → StoreProg Unit
  | [] => pure ()
  | T :: Ts => do
      let _ ← moveRows (Γ := store) .uniqueViolation T (fun _ r => T.owner r = some userId)
        (Table.setOwner newId T)
      cascadeUpdate userId newId Ts

def cascadeDelete (userId : String) : List Table → StoreProg Unit
  | [] => pure ()
  | T :: Ts => do
      let _ ← deleteRows (Γ := store) T fun _ r => T.owner r = some userId
      cascadeDelete userId Ts

def deleteUser (userId : String) : StoreProg (List (String × User)) := do
  let removed ← deleteRows (Γ := store) .user fun id _ => id = userId
  cascadeDelete userId childTables
  pure removed

namespace PasswordAuthStore

def createUserWithPassword (py : PythonText) (registration : PasswordRegistration) :
    StoreProg Unit := do
  insertRow (Γ := store) .uniqueViolation .user registration.userId
    ⟨some registration.email, registration.name, none, registration.status, false⟩
  insertRow (Γ := store) .uniqueViolation .passwordCredential registration.credentialId
    ⟨registration.userId, py.lower registration.email, registration.passwordHash, 0, none⟩

/-- ON CONFLICT (userId) DO UPDATE; a taken email is an error. -/
def upsertPendingPassword (py : PythonText) (pending : PendingPasswordUpsert) :
    StoreProg Unit := do
  let email := py.lower pending.email
  if ← insertOrSkip (Γ := store) .uniqueViolation .pendingPasswordCredential pending.id
      ⟨pending.userId, email, pending.passwordHash, pending.expiresAt⟩ then pure ()
  else do
  let rows ← moveRows (Γ := store) .uniqueViolation .pendingPasswordCredential
    (fun _ p => p.userId = pending.userId)
    (fun p => { p with email := email, passwordHash := pending.passwordHash,
                       expiresAt := pending.expiresAt })
  match rows with
  | [] => .raise .uniqueViolation
  | rows => requireOne rows "pending password credential upsert"

end PasswordAuthStore

structure VerificationEligibleUser where
  id : String
  email : Option String
  status : UserStatus
  hasPendingPasswordCredential : Bool

structure VerificationHandoff where
  clientId : String
  audience : String
  redirectUri : String
  state : Option String
  codeChallenge : String

structure EmailVerificationTokenInsert where
  id : String
  userId : String
  tokenHash : String
  expiresAt : Timestamp
  handoff : Option VerificationHandoff

structure EmailVerificationTokenRecord where
  id : String
  userId : String
  expiresAt : Timestamp
  usedAt : Option Timestamp
  handoff : Option VerificationHandoff

def DEFAULT_ROLE : DefaultRole := ⟨"temis", "user"⟩

/-- The row ids a role seeding draws. -/
structure SeedIds where
  pending : String
  user : String
  admin : String
  defaultRole : String
  assignment : String

/-- INSERTs under ON CONFLICT DO NOTHING, one role after another. -/
def seedRoles : List (String × Role) → StoreProg Unit
  | [] => pure ()
  | (id, role) :: roles => do
      let _ ← insertOrSkip (Γ := store) .uniqueViolation .role id role
      seedRoles roles

def seedTemisAndAssignDefaultRole (ids : SeedIds) (userId : String) (defaultRole : DefaultRole) :
    StoreProg Unit := do
  seedRoles [(ids.pending, ⟨"temis", "pending"⟩), (ids.user, ⟨"temis", "user"⟩),
    (ids.admin, ⟨"temis", "admin"⟩),
    (ids.defaultRole, ⟨defaultRole.serviceKey, defaultRole.name⟩)]
  let assignedRole ← query (.defaultRole defaultRole.serviceKey defaultRole.name) fun db =>
    firstRow db .role fun _ r => r.serviceKey = defaultRole.serviceKey && r.name = defaultRole.name
  match assignedRole with
  | none => .raise (.runtime "default role upsert did not resolve a role")
  | some (roleId, _) => do
      let _ ← insertOrSkip (Γ := store) .uniqueViolation .userRole ids.assignment
        ⟨userId, roleId⟩

/-- The row ids a confirmation draws. -/
structure ConfirmIds where
  seed : SeedIds
  credential : String

namespace EmailVerificationStore

/-- The outer join of a user with its pending credential. -/
def findEligibleUser (email : String) (now : Timestamp) :
    StoreProg (Option VerificationEligibleUser) :=
  query (.eligibleUser email) fun db =>
    (firstRow db .user fun _ u => u.email = some email).map fun u =>
      ⟨u.1, u.2.email, u.2.status,
        (firstRow db .pendingPasswordCredential fun _ p => p.userId = u.1).any fun p =>
          now < p.2.expiresAt⟩

def createToken (token : EmailVerificationTokenInsert) : StoreProg Unit :=
  insertRow (Γ := store) .uniqueViolation .emailVerificationToken token.id
    { tokenHash := token.tokenHash
      userId := token.userId
      expiresAt := token.expiresAt
      usedAt := none
      handoffClientId := token.handoff.map (·.clientId)
      handoffAudience := token.handoff.map (·.audience)
      handoffRedirectUri := token.handoff.map (·.redirectUri)
      handoffState := token.handoff.bind (·.state)
      handoffCodeChallenge := token.handoff.map (·.codeChallenge)
      handoffCodeChallengeMethod := token.handoff.map fun _ => "S256" }

/-- A handoff is only there with all of its fields. -/
def handoffOf (row : EmailVerificationToken) : Option VerificationHandoff := do
  let clientId ← row.handoffClientId
  let audience ← row.handoffAudience
  let redirectUri ← row.handoffRedirectUri
  let codeChallenge ← row.handoffCodeChallenge
  if clientId ≠ "" ∧ audience ≠ "" ∧ redirectUri ≠ "" ∧ codeChallenge ≠ "" ∧
      row.handoffCodeChallengeMethod = some "S256" then
    some ⟨clientId, audience, redirectUri, row.handoffState, codeChallenge⟩
  else none

def findToken (tokenHash : String) : StoreProg (Option EmailVerificationTokenRecord) :=
  query (.verificationToken tokenHash) fun db =>
    (firstRow db .emailVerificationToken fun _ r => r.tokenHash = tokenHash).map fun r =>
      ⟨r.1, r.2.userId, r.2.expiresAt, r.2.usedAt, handoffOf r.2⟩

/-- UPDATE "User" SET status, "emailVerified" WHERE the user is pending; a reserved id
becomes its primary key, and the foreign keys follow. -/
def activateUser (userId : String) (reservedId : Option String) :
    StoreProg (List (String × User)) :=
  let activated : User → User := fun u => { u with status := .active, emailVerified := true }
  match reservedId.filter (· ≠ userId) with
  | none => updateRows (Γ := store) .user
      (fun id u => id = userId && u.status = .pendingEmailVerification) activated
  | some newId => do
      let renamed ← deleteRows (Γ := store) .user fun id u =>
        id = userId && u.status = .pendingEmailVerification
      match renamed with
      | [(_, u)] => do
          insertRow (Γ := store) .uniqueViolation .user newId (activated u)
          cascadeUpdate userId newId childTables
          pure renamed
      | _ => pure renamed

/-- The branch of a confirmation that activates a pending user. -/
def activate (py : PythonText) (ids : SeedIds) (userId : String) (user : User)
    (defaultRole : DefaultRole) : StoreProg (Option String) := do
  let reservedId ← (match user.email.filter (· ≠ "") with
    | none => pure none
    | some email => query (.reservation (py.lower email)) fun db =>
        (firstRow db .subjectReservation fun _ r => r.email = py.lower email).map (·.2.subjectId)
    : StoreProg (Option String))
  let reservedId := reservedId.filter (· ≠ "")
  let taken ← (match reservedId.filter (· ≠ userId) with
    | none => pure false
    | some reserved => query (.userById reserved) fun db => (db.get .user reserved).isSome
    : StoreProg Bool)
  if taken then pure none else do
  let activated ← activateUser userId reservedId
  if activated.length ≠ 1 then pure none else do
  let activatedId := reservedId.getD userId
  seedTemisAndAssignDefaultRole ids activatedId defaultRole
  pure (some activatedId)

/-- The branch of a confirmation that gives an existing user its pending password. -/
def attach (credentialId userId : String) (pending : PendingPasswordCredential) :
    StoreProg (Option String) := do
  insertRow (Γ := store) .uniqueViolation .passwordCredential credentialId
    ⟨pending.userId, pending.email, pending.passwordHash, 0, none⟩
  let removed ← deleteRows (Γ := store) .pendingPasswordCredential fun _ p => p.userId = userId
  requireOne removed "pending password credential delete"
  pure (some userId)

def confirm (py : PythonText) (ids : ConfirmIds) (tokenId userId : String) (usedAt : Timestamp)
    (defaultRole : DefaultRole := DEFAULT_ROLE) : StoreProg (Option String) := do
  let user ← query (.confirmedUser userId) fun db => db.get .user userId
  let pending ← query (.pendingPassword userId) fun db =>
    (firstRow db .pendingPasswordCredential fun _ p => p.userId = userId).map (·.2)
  let activating := user.filter (·.status = .pendingEmailVerification)
  let attaching := pending.filter (usedAt < ·.expiresAt)
  if activating.isNone && attaching.isNone then pure none else do
  let consumed ← updateRows (Γ := store) .emailVerificationToken
    (fun id r => id = tokenId && r.userId = userId && r.usedAt = none && usedAt < r.expiresAt)
    (fun r => { r with usedAt := some usedAt })
  if consumed.length ≠ 1 then pure none else
  match activating, attaching with
  | some user, _ => activate py ids.seed userId user defaultRole
  | none, some pending => attach ids.credential userId pending
  | none, none => pure none

end EmailVerificationStore

structure OAuthProfileRecord where
  provider : String
  providerUserId : String
  email : Option String
  emailVerified : Bool
  name : Option String
  profileUrl : Option String

structure OAuthUserRecord where
  id : String
  email : Option String
  emailVerified : Bool
  name : Option String
  profileUrl : Option String
  status : UserStatus

/-- The row ids an OAuth sign-in draws. -/
structure OAuthIds where
  user : String
  social : String
  seed : SeedIds

namespace OAuthIdentityStore

def record (id : String) (u : User) : OAuthUserRecord :=
  ⟨id, u.email, u.emailVerified, u.name, u.profileUrl, u.status⟩

def findByProviderId (provider providerUserId : String) : StoreProg (Option OAuthUserRecord) :=
  query (.socialUser provider providerUserId) fun db =>
    ((selectRows db .socialAccount fun _ a =>
        a.provider = provider && a.providerUserId = providerUserId).filterMap fun a =>
      (db.get .user a.2.userId).map (record a.2.userId)).head?

/-- The new user of a profile, under its reserved id if its email has one. -/
def createUser (ids : OAuthIds) (profile : OAuthProfileRecord) (normalizedEmail : Option String)
    (defaultRole : DefaultRole) : StoreProg OAuthUserRecord := do
  let userEmail ← (match normalizedEmail.filter (· ≠ "") with
    | none => pure normalizedEmail
    | some email => do
        let owned ← query (.emailOwner email) fun db =>
          (firstRow db .user fun _ u => u.email = some email).isSome
        pure (if owned then none else some email)
    : StoreProg (Option String))
  let reserved ← (match userEmail.filter (· ≠ "") with
    | none => pure none
    | some email => query (.reservation email) fun db =>
        (firstRow db .subjectReservation fun _ r => r.email = email).map (·.2.subjectId)
    : StoreProg (Option String))
  let userId := reserved.getD ids.user
  let user : User :=
    ⟨userEmail, profile.name, profile.profileUrl, .active, profile.emailVerified⟩
  insertRow (Γ := store) .uniqueViolation .user userId user
  insertRow (Γ := store) .uniqueViolation .socialAccount ids.social
    ⟨profile.provider, profile.providerUserId, profile.email, userId⟩
  seedTemisAndAssignDefaultRole ids.seed userId defaultRole
  pure (record userId user)

def resolveOrCreate (py : PythonText) (ids : OAuthIds) (profile : OAuthProfileRecord)
    (defaultRole : DefaultRole) : StoreProg OAuthUserRecord := do
  let normalizedEmail := profile.email.map fun email => py.lower (py.strip email)
  let existing ← (match normalizedEmail.filter fun email => email ≠ "" && profile.emailVerified with
    | none => pure none
    | some email => query (.verifiedEmailUser email) fun db =>
        firstRow db .user fun _ u => u.email = some email
    : StoreProg (Option (String × User)))
  match existing with
  | none => createUser ids profile normalizedEmail defaultRole
  | some (existingId, u) =>
      if u.status = .pendingEmailVerification ∧ u.emailVerified = false then do
        let removed ← deleteUser existingId
        requireOne removed "pending OAuth identity replacement delete"
        createUser ids profile normalizedEmail defaultRole
      else if u.status = .active ∧ u.emailVerified = true then do
        insertRow (Γ := store) .uniqueViolation .socialAccount ids.social
          ⟨profile.provider, profile.providerUserId, normalizedEmail, existingId⟩
        pure (record existingId u)
      else createUser ids profile normalizedEmail defaultRole

end OAuthIdentityStore

end WiseacctSso
