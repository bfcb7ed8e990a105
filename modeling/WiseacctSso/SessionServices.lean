import WiseacctSso.AdminStores

/-!
# Session services

Login, token issue, refresh, logout, password reset and the handoff exchange, as
sequences of transactions and Redis commands. What a call reads from the clock, the
random source and the token codec are its parameters; audit writes after a transaction
and the mail sent are left out.
-/
namespace WiseacctSso
open ReadCommitted

structure DefaultRole where
  serviceKey : String
  name : String
  deriving DecidableEq

/-- The fields of a client policy that the services consult. -/
structure RelyingClientPolicy where
  clientId : String
  audience : String
  allowedRedirectUris : List String
  defaultRole : DefaultRole

structure ClientHandoff where
  clientId : String
  audience : String
  redirectUri : String
  state : Option String
  codeChallenge : String

/-- The settings of the authentication service and the functions of the packages it uses. -/
structure AuthSettings where
  py : PythonText
  /-- Does the Argon2 hash verify the password? -/
  verifyPassword : (passwordHash password : String) → Bool
  sha256Base64Url : String → String
  authClients : String → Option RelyingClientPolicy
  defaultAudience : String

def authHandoffTtlMs : ℕ := 120 * 1000

def failedLoginLockMs : ℕ := 15 * 60 * 1000

/-- A refresh token as the codec issued it, with the row id it is to be stored under. -/
structure IssuedRefreshToken where
  id : String
  tokenHash : String
  expiresAt : Timestamp

namespace AuthHandoffStore

/-- SET NX under one fresh code after another. -/
def create (record : StoredAuthHandoffMetadata) : List String → StoreProg String
  | [] => .raise .authHandoffCreation
  | code :: codes =>
      .call (fun redis => if (redis.handoffs.lookup code).isSome then redis
          else { redis with handoffs := redis.handoffs.insert code record })
        (fun redis => if (redis.handoffs.lookup code).isSome then .handoffCodeTaken code
          else .handoffCreated code)
        fun redis => if (redis.handoffs.lookup code).isSome then create record codes
          else .ret code

/-- Delete the record if it is still the one that was read. -/
def consumeIfExact (code : String) (record : StoredAuthHandoffMetadata) :
    StoreProg (Option StoredAuthHandoffMetadata) :=
  .call (fun redis => if redis.handoffs.lookup code = some record then
        { redis with handoffs := redis.handoffs.erase code }
      else redis)
    (fun redis => if redis.handoffs.lookup code = some record then .handoffConsumed code
      else .handoffMissed code)
    fun redis => .ret (if redis.handoffs.lookup code = some record then some record else none)

structure ConsumeInput where
  clientId : String
  redirectUri : String
  code : String
  codeVerifier : String

def consume (settings : AuthSettings) (input : ConsumeInput) (nowEpochMs : Timestamp) :
    StoreProg (Option StoredAuthHandoffMetadata) := do
  let raw ← inspect (.handoff input.code) fun redis => redis.handoffs.lookup input.code
  match raw with
  | none => pure none
  | some metadata =>
      if metadata.expiresAtEpochMs ≤ nowEpochMs then do
        let _ ← consumeIfExact input.code metadata
        pure none
      else if metadata.clientId = input.clientId ∧ metadata.redirectUri = input.redirectUri ∧
          metadata.codeChallenge = settings.sha256Base64Url input.codeVerifier then
        consumeIfExact input.code metadata
      else pure none

end AuthHandoffStore

namespace Phase5AuthService

variable (settings : AuthSettings)

def normalizeEmail (email : String) : String :=
  settings.py.lower (settings.py.strip email)

def clientForHandoff (handoff : ClientHandoff) : StoreProg RelyingClientPolicy :=
  let rejected := .raise (.domain 400 "INVALID_CLIENT_REDIRECT_URI" "Invalid request")
  match settings.authClients handoff.clientId with
  | none => rejected
  | some client =>
      if handoff.redirectUri ∈ client.allowedRedirectUris ∧ handoff.audience = client.audience
      then pure client else rejected

/-- The claims of the access token that goes with the stored refresh token. -/
def issuePair (userId audience : String) (issued : IssuedRefreshToken) :
    StoreProg CurrentUserRecord := do
  let user ← transaction
    (fun user => if user.isSome then .tokenIssued userId else .tokenRefused)
    (TokenIssueStore.issueForActiveUser userId
      ⟨issued.id, issued.tokenHash, audience, issued.expiresAt⟩)
  match user with
  | none => .raise (.domain 401 "UNAUTHORIZED" "Authentication is required")
  | some user => pure user

structure LoginInput where
  email : String
  password : String

inductive LoginResult
  | tokens (user : CurrentUserRecord)
  | redirect (redirectUri code : String) (state : Option String)

/-- What a login draws from the clock, the random source and the token codec. -/
structure LoginDraws where
  now : Timestamp
  nowEpochMs : Timestamp
  handoffCodes : List String
  issued : IssuedRefreshToken

def isLocked (credential : PasswordCredentialRecord) (now : Timestamp) : Bool :=
  match credential.lockedUntil with
  | none => false
  | some lockedUntil => now < lockedUntil

/-- The lock starts at the fifth failure and lasts fifteen minutes. -/
def markFailure (userId : String) (now : Timestamp) : StoreProg FailedLoginResult :=
  transaction (fun result => .loginFailureRecorded userId result.lockedUntil)
    (FailedLoginStore.recordFailure userId (now + failedLoginLockMs) 5)

def markSuccess (userId : String) : StoreProg (Option CurrentUserRecord) :=
  transaction (fun _ => .loginSucceeded userId) do
    PasswordAuthStore.markLoginSuccess userId
    UserReadStore.findCurrent userId

def loginFailureReason (credential : Option PasswordCredentialRecord) (locked : Bool) : String :=
  if locked then "ACCOUNT_LOCKED"
  else match credential with
    | none => "USER_INACTIVE"
    | some c => if c.userStatus = .active then "INVALID_CREDENTIALS" else "USER_INACTIVE"

/-- The credential is read and its lock and hash are checked outside the transactions that
count the attempt. -/
def authenticate (input : LoginInput) (now : Timestamp) : StoreProg CurrentUserRecord := do
  let email := normalizeEmail settings input.email
  let credential ← connection (PasswordAuthStore.findCredentialByEmail email)
  match credential with
  | none => .raise (.passwordAuthFailure none (loginFailureReason none false))
  | some c =>
      let verified := settings.verifyPassword c.passwordHash input.password
      let locked := isLocked c now
      if c.userStatus = .pendingEmailVerification ∧ verified ∧ ¬ locked then
        .raise (.passwordAuthFailure (some c.userId) "EMAIL_VERIFICATION_REQUIRED")
      else if c.userStatus = .active ∧ ¬ locked ∧ verified then do
        match ← markSuccess c.userId with
        | none => .raise (.domain 401 "INVALID_CREDENTIALS" "Invalid email or password")
        | some user => pure user
      else do
        if c.userStatus = .active ∧ ¬ locked then
          let _ ← markFailure c.userId now
        .raise (.passwordAuthFailure (some c.userId) (loginFailureReason (some c) locked))

def login (input : LoginInput) (handoff : Option ClientHandoff) (draws : LoginDraws) :
    StoreProg LoginResult := do
  match handoff with
  | none =>
      let user ← authenticate settings input draws.now
      .tokens <$> issuePair user.id settings.defaultAudience draws.issued
  | some handoff =>
      let client ← clientForHandoff settings handoff
      let user ← authenticate settings input draws.now
      let code ← AuthHandoffStore.create
        ⟨client.clientId, client.audience, handoff.redirectUri, user.id, .password,
          handoff.codeChallenge, handoff.state, draws.nowEpochMs + authHandoffTtlMs, none⟩
        draws.handoffCodes
      pure (.redirect handoff.redirectUri code handoff.state)

def exchangeAuthHandoff (input : AuthHandoffStore.ConsumeInput) (nowEpochMs : Timestamp)
    (issued : IssuedRefreshToken) : StoreProg CurrentUserRecord := do
  match ← AuthHandoffStore.consume settings input nowEpochMs with
  | none => .raise (.domain 400 "INVALID_AUTH_HANDOFF_CODE" "Invalid authorization code")
  | some handoff => issuePair handoff.userId handoff.audience issued

/-- Rotate a token whose signature and audience the codec has verified. -/
def refresh (tokenHash audience : String) (now : Timestamp) (issued : IssuedRefreshToken) :
    StoreProg CurrentUserRecord :=
  (transaction (Γ := store) (fun _ => .rotated tokenHash) do
    match ← RefreshRotationStore.rotate tokenHash audience now fun _ =>
        ⟨issued.id, issued.tokenHash, issued.expiresAt⟩ with
    | none => .raise (.refreshRotationConflict "refresh token was not rotatable")
    | some rotated =>
        match ← UserReadStore.findCurrentActive rotated.userId with
        | none => .raise (.refreshRotationConflict "refresh user was not active")
        | some user => pure user).handle fun
    | .refreshRotationConflict _ =>
        .raise (.domain 401 "INVALID_REFRESH_TOKEN" "Invalid refresh token")
    | e => .raise e

def logout (tokenHash : String) (now : Timestamp) : StoreProg (Option String) := do
  let userId ← LogoutStore.revoke tokenHash now
  .commit .loggedOut (pure userId)

def requestPasswordReset (email : String) (now : Timestamp) (tokenId tokenHash : String)
    (ttlMs : ℕ) : StoreProg Unit := do
  let user ← connection (PasswordResetStore.findActiveUser (normalizeEmail settings email))
  match user with
  | none => pure ()
  | some user =>
      transaction (Γ := store) (fun _ => .passwordResetRequested user.id) do
        PasswordResetStore.createToken ⟨tokenId, user.id, tokenHash, now + ttlMs⟩

def confirmPasswordReset (tokenHash passwordHash : String) (now : Timestamp) :
    StoreProg String := do
  match ← transaction .passwordReset (PasswordResetStore.confirm tokenHash passwordHash now) with
  | none => .raise .invalidResetToken
  | some userId => pure userId

end Phase5AuthService

namespace OidcService

open Phase5AuthService

/-- What the OIDC path takes from Redis and from its client policy: whether the login
transaction was found with the right CSRF token, whether it could still be consumed, and
which roles the policy requires and can project into groups. -/
structure OidcLogin where
  boundTransaction : Bool
  consumedTransaction : Bool
  requiredRoles : List Role
  groupsProjectable : List Role → Bool

def eligibleIdentity (oidc : OidcLogin) (user : CurrentUserRecord) : Bool :=
  user.status = .active && user.email.any (· ≠ "") && user.emailVerified &&
    oidc.requiredRoles.any (· ∈ user.roles) && oidc.groupsProjectable user.roles

def lockUser (userId : String) : StoreProg (Option CurrentUserRecord) := do
  let locked ← lockRows (Γ := store) .user fun id _ => id = userId
  match ← oneOrNone locked with
  | none => pure none
  | some (id, u) => some <$> UserReadStore.withRoles id u

def completeAuthorization (oidc : OidcLogin) (userId : String) : StoreProg Unit := do
  let eligible ← transaction
    (fun eligible => if eligible then .loginSucceeded userId else .authorizationDenied) do
      let user ← lockUser userId
      if user.any (eligibleIdentity oidc) then do
        PasswordAuthStore.markLoginSuccess userId
        pure true
      else pure false
  if eligible then pure ()
  else .raise (.oidcService "access_denied" "Account is not eligible")

def passwordLogin (settings : AuthSettings) (oidc : OidcLogin) (input : LoginInput)
    (now : Timestamp) : StoreProg Unit := do
  if ¬ oidc.boundTransaction then
    .raise (.oidcService "invalid_request" "Invalid login transaction")
  else do
  let email := normalizeEmail settings input.email
  let credential ← connection (PasswordAuthStore.findCredentialByEmail email)
  match credential with
  | none => .raise (.passwordAuthFailure none "USER_INACTIVE")
  | some c =>
      let verified := settings.verifyPassword c.passwordHash input.password
      let locked := isLocked c now
      if c.userStatus = .active ∧ ¬ locked ∧ verified then do
        if ¬ oidc.consumedTransaction then
          .raise (.oidcService "invalid_request" "Invalid login transaction")
        else completeAuthorization oidc c.userId
      else do
        if c.userStatus = .active ∧ ¬ locked then
          let _ ← markFailure c.userId now
        .raise (.passwordAuthFailure (some c.userId)
          (if locked then "ACCOUNT_LOCKED"
          else if c.userStatus = .pendingEmailVerification ∧ verified then
            "EMAIL_VERIFICATION_REQUIRED"
          else if c.userStatus = .active then "INVALID_CREDENTIALS" else "USER_INACTIVE"))

end OidcService

end WiseacctSso
