import WiseacctSso.AccountStores
import WiseacctSso.HandoffServices

/-!
# Account services

Registration, email verification and OAuth sign-in as sequences of transactions. The
Redis halves of these calls are those of the authorization handoffs; audit writes after a
transaction and the mail sent are left out.
-/
namespace WiseacctSso
open ReadCommitted
open AuthState (OAuthProvider javascriptStringLength)

structure PasswordPolicy where
  minLength : ℕ
  allowedEmailDomain : Option String

/-- The settings of the account services. Which texts pass the checks of `_optional_email` and
`_optional_url` is left open. -/
structure AccountSettings extends AuthSettings where
  passwordPolicy : PasswordPolicy
  isProviderEmail : String → Bool
  isProviderUrl : String → Bool

def pendingPasswordCredentialTtlMs : ℕ := 24 * 60 * 60 * 1000

def emailVerificationTokenTtlMs : ℕ := 24 * 60 * 60 * 1000

structure RegisterInput where
  email : String
  password : String
  name : Option String

/-- What a registration draws: the Argon2 hash of its password and three row ids. -/
structure RegisterDraws where
  now : Timestamp
  passwordHash : String
  userId : String
  credentialId : String
  pendingId : String

/-- What a request for a verification mail draws. -/
structure VerificationDraws where
  now : Timestamp
  tokenId : String
  tokenHash : String

/-- The parsed answer of a provider's user-info endpoint. -/
inductive ProviderUser
  | google (sub : String) (email : Option String) (emailVerified : Option Bool)
      (name picture : Option String)
  | naver (id : String) (email name profileImage : Option String)
  | kakao (id : String) (email nickname profileImageUrl : Option String)

structure OAuthProfile where
  provider : OAuthProvider
  providerUserId : String
  email : Option String
  emailVerified : Bool
  name : Option String
  profileUrl : Option String

section profiles

variable (settings : AccountSettings)

def optionalEmail (value : Option String) : Option (Option String) :=
  if value.all settings.isProviderEmail then some value else none

def optionalUrl (value : Option String) : Option (Option String) :=
  if value.all settings.isProviderUrl then some value else none

/-- Only Google says whether an email is verified. -/
def normalizeProfile : ProviderUser → Option OAuthProfile
  | .google sub email emailVerified name picture => do
      let email ← optionalEmail settings email
      let picture ← optionalUrl settings picture
      some ⟨.google, sub, email, emailVerified == some true, name, picture⟩
  | .naver id email name profileImage => do
      let email ← optionalEmail settings email
      let profileImage ← optionalUrl settings profileImage
      some ⟨.naver, id, email, false, name, profileImage⟩
  | .kakao id email nickname profileImageUrl => do
      let email ← optionalEmail settings email
      let profileImageUrl ← optionalUrl settings profileImageUrl
      some ⟨.kakao, id, email, false, nickname, profileImageUrl⟩

def oauthProfileRecord (profile : OAuthProfile) : OAuthProfileRecord :=
  ⟨profile.provider.text, profile.providerUserId, profile.email, profile.emailVerified,
    profile.name, profile.profileUrl⟩

end profiles

namespace Phase5AuthService

variable (settings : AccountSettings)

def assertPasswordPolicy (email password : String) (policy : PasswordPolicy) : StoreProg Unit :=
  if javascriptStringLength password < policy.minLength then
    .raise (.domain 400 "WEAK_PASSWORD"
      ("Password must be at least " ++ toString policy.minLength ++ " characters"))
  else if (policy.allowedEmailDomain.filter (· ≠ "")).any fun domain =>
      !("@" ++ domain).toList.isSuffixOf email.toList then
    .raise (.domain 403 "EMAIL_DOMAIN_NOT_ALLOWED" "Email domain is not allowed")
  else pure ()

/-- An existing user of the email keeps its account; a verified one without a password
gets a pending one. -/
def registerUser (email : String) (name : Option String) (draws : RegisterDraws) :
    StoreProg String := do
  match ← UserReadStore.findByEmail email with
  | some existing =>
      let credential ← PasswordAuthStore.findCredentialByEmail email
      if credential.isNone && existing.emailVerified then
        PasswordAuthStore.upsertPendingPassword settings.py
          ⟨draws.pendingId, existing.id, email, draws.passwordHash,
            draws.now + pendingPasswordCredentialTtlMs⟩
      pure existing.id
  | none =>
      PasswordAuthStore.createUserWithPassword settings.py
        ⟨draws.userId, draws.credentialId, email, name, draws.passwordHash,
          .pendingEmailVerification⟩
      pure draws.userId

def register (input : RegisterInput) (draws : RegisterDraws) : StoreProg String := do
  let email := normalizeEmail settings.toAuthSettings input.email
  assertPasswordPolicy email input.password settings.passwordPolicy
  transaction .registered (registerUser settings email input.name draws)

def requestEmailVerification (email : String) (handoff : Option ClientHandoff)
    (draws : VerificationDraws) : StoreProg Unit := do
  let normalized := normalizeEmail settings.toAuthSettings email
  let validatedHandoff ← (match handoff with
    | none => pure none
    | some handoff => do
        let client ← clientForHandoff settings.toAuthSettings handoff
        pure (some ⟨client.clientId, client.audience, handoff.redirectUri, handoff.state,
          handoff.codeChallenge⟩)
    : StoreProg (Option VerificationHandoff))
  let user ← connection (EmailVerificationStore.findEligibleUser normalized draws.now)
  match user with
  | none => pure ()
  | some user =>
      if user.email.any (· ≠ "") && (user.status = .pendingEmailVerification ||
          user.hasPendingPasswordCredential) then
        transaction (Γ := store) (fun _ => .verificationTokenCreated draws.tokenHash)
          (EmailVerificationStore.createToken ⟨draws.tokenId, user.id, draws.tokenHash,
            draws.now + emailVerificationTokenTtlMs, validatedHandoff⟩)
      else pure ()

/-- A token that was found unused and unexpired is confirmed under the default role of the
store. -/
def confirmToken (tokenHash : String) (now : Timestamp) (ids : ConfirmIds) :
    StoreProg (EmailVerificationTokenRecord × Option String) := do
  match ← EmailVerificationStore.findToken tokenHash with
  | none => .raise .invalidVerificationToken
  | some record =>
      if record.usedAt.isSome ∨ record.expiresAt ≤ now then .raise .invalidVerificationToken
      else do
      let activated ← EmailVerificationStore.confirm settings.py ids record.id record.userId now
      pure (record, activated)

/-- A confirmation that activated nothing has still committed its token. -/
def confirmEmailVerification (tokenHash : String) (now : Timestamp) (ids : ConfirmIds) :
    StoreProg (String × Option VerificationHandoff) := do
  let (record, activated) ← transaction (fun result => .emailConfirmed result.2)
    (confirmToken settings tokenHash now ids)
  match activated with
  | none => .raise .invalidVerificationToken
  | some userId => pure (userId, record.handoff)

def resolveOAuthUser (profile : OAuthProfileRecord) (defaultRole : DefaultRole) (ids : OAuthIds) :
    StoreProg String := do
  let user ← (do
    match ← OAuthIdentityStore.findByProviderId profile.provider profile.providerUserId with
    | some existing => pure existing
    | none => OAuthIdentityStore.resolveOrCreate settings.py ids profile defaultRole
    : StoreProg OAuthUserRecord)
  if user.status = .active then pure user.id
  else .raise (.domain 401 "UNAUTHORIZED" "Authentication is required")

/-- The user of a provider's profile, for the client the OAuth state was made for. A
callback that lost a race for its unique entries looks for the winner. -/
def oauthCallback (clientId : String) (rawUser : ProviderUser) (ids : OAuthIds) :
    StoreProg String := do
  match settings.authClients clientId with
  | none => .raise (.domain 400 "INVALID_OAUTH_STATE" "Invalid OAuth state")
  | some client =>
  match normalizeProfile settings rawUser with
  | none => .raise (.domain 400 "INVALID_REQUEST" "Invalid request")
  | some profile =>
      let profile := oauthProfileRecord profile
      (transaction Report.oauthResolved
        (resolveOAuthUser settings profile client.defaultRole ids)).handle fun
      | .uniqueViolation => do
          let canonical ← connection
            (OAuthIdentityStore.findByProviderId profile.provider profile.providerUserId)
          match canonical.filter (·.status = .active) with
          | none => .raise (.domain 400 "OAUTH_PROVIDER_ERROR" "OAuth provider returned an error")
          | some user => pure user.id
      | e => .raise e

end Phase5AuthService

/-- The calls that create, activate and replace accounts, and the administration of their
status. -/
inductive AccountCall
  | register (input : RegisterInput) (draws : RegisterDraws)
  | requestEmailVerification (email : String) (handoff : Option ClientHandoff)
      (draws : VerificationDraws)
  | confirmEmailVerification (tokenHash : String) (now : Timestamp) (ids : ConfirmIds)
  | oauthCallback (clientId : String) (rawUser : ProviderUser) (ids : OAuthIds)
  | setUserStatus (actorUserId targetUserId : String) (status : UserStatus) (now : Timestamp)

def AccountCall.prog (settings : AccountSettings) : AccountCall → StoreProg Unit
  | register input draws => do
      let _ ← Phase5AuthService.register settings input draws
  | requestEmailVerification email handoff draws =>
      Phase5AuthService.requestEmailVerification settings email handoff draws
  | confirmEmailVerification tokenHash now ids => do
      let _ ← Phase5AuthService.confirmEmailVerification settings tokenHash now ids
  | oauthCallback clientId rawUser ids => do
      let userId ← Phase5AuthService.oauthCallback settings clientId rawUser ids
      answer (.signedIn userId)
  | setUserStatus actorUserId targetUserId status now =>
      Phase6AdminService.request settings.py actorUserId (.setUserStatus targetUserId status now)

/-- Process `t` makes the call `calls t`, if the run ever starts it. -/
def accountRun (settings : AccountSettings) (calls : ℕ → AccountCall) (db : Db store)
    (acts : List (Act store)) : Option (System store) :=
  (System.initial db ⟨∅⟩).run (fun t => (calls t).prog settings) acts

end WiseacctSso
