import WiseacctSso.OneTimeRecords
import WiseacctSso.SessionServices

/-!
# OAuth sign-in and authorization handoffs

The calls that write and take OAuth states and handoff codes in Redis. What a call learns
from the database and the provider, and what it draws from the clock and the random
source, are its parameters; audit writes are left out.
-/
namespace WiseacctSso.AuthState
open ReadCommitted OneTimeRecords Phase5AuthService

inductive OAuthProvider
  | google
  | naver
  | kakao
  deriving DecidableEq

def OAuthProvider.text : OAuthProvider → String
  | google => "google"
  | naver => "naver"
  | kakao => "kakao"

structure OAuthStateMetadata where
  clientId : String
  redirectUri : String
  callerState : Option String
  codeChallenge : Option String
  codeChallengeMethod : Option String
  deriving DecidableEq

/-- A key is its prefix and what follows it. -/
inductive RedisKey
  | oauthState (suffix : List UInt8)
  | authHandoff (suffix : String)
  deriving DecidableEq

inductive RedisValue
  | oauthState (provider : OAuthProvider) (metadata : OAuthStateMetadata)
  | authHandoff (metadata : StoredAuthHandoffMetadata)
  deriving DecidableEq

/-- What the exchange of a code gave its caller. -/
inductive HandoffNote
  | pairReturned (userId audience : String)
  deriving DecidableEq

abbrev RedisProg : Type → Type := RecordProg RedisKey RedisValue HandoffNote Error

abbrev RedisReport : Type := RecordReport RedisKey RedisValue HandoffNote

/-- The settings of the authentication service that concern handoffs; the client policies
are keyed by their client ids. -/
structure HandoffSettings extends AuthSettings where
  nodeUtf8Bytes : String → List UInt8
  sha256Hex : String → String
  isAbsoluteZodUrl : String → Bool
  /-- Why a provider's configuration cannot be resolved. -/
  providerError : OAuthProvider → Option Error
  oauthClient : Bool
  authClients_keyed : ∀ clientId client, authClients clientId = some client →
    client.clientId = clientId

def oauthStateKey (settings : HandoffSettings) (state : String) : RedisKey :=
  .oauthState (settings.nodeUtf8Bytes state)

def authHandoffKey (settings : HandoffSettings) (code : String) : RedisKey :=
  .authHandoff (settings.sha256Hex code)

def maxGenerationAttempts : ℕ := 3

def maxCallerStateLength : ℕ := 512

/-- The length in UTF-16 code units. -/
def javascriptStringLength (value : String) : ℕ :=
  (value.toList.map fun c => if c.toNat < 0x10000 then 1 else 2).sum

/-- `^[A-Za-z0-9._~-]{43,128}$`. -/
def isPkceChallenge (value : String) : Bool :=
  43 ≤ value.toList.length && value.toList.length ≤ 128 && value.toList.all fun c =>
    ('A' ≤ c && c ≤ 'Z') || ('a' ≤ c && c ≤ 'z') || ('0' ≤ c && c ≤ '9') ||
      c = '.' || c = '_' || c = '~' || c = '-'

def nullableNonempty (value : Option String) : Bool := value.all (· ≠ "")

namespace OAuthStateStore

variable (settings : HandoffSettings)

def validRecord (metadata : OAuthStateMetadata) : Bool :=
  metadata.clientId ≠ "" && metadata.redirectUri ≠ "" &&
    settings.isAbsoluteZodUrl metadata.redirectUri && nullableNonempty metadata.callerState &&
    nullableNonempty metadata.codeChallenge && metadata.codeChallengeMethod.all (· = "S256")

def create (provider : OAuthProvider) (metadata : OAuthStateMetadata) (states : List String) :
    RedisProg String :=
  if validRecord settings metadata then
    storeFresh (oauthStateKey settings) (.oauthState provider metadata)
      (.runtime "Unable to generate a unique OAuth state") (states.take maxGenerationAttempts)
  else .raise (.value "invalid OAuth state metadata")

/-- The state is gone whether or not it is of the provider. -/
def consume (provider : OAuthProvider) (state : String) :
    RedisProg (Option OAuthStateMetadata) := do
  match ← OneTimeRecords.consume (oauthStateKey settings state) with
  | some (.oauthState provider' metadata) =>
      pure (if provider' = provider then some metadata else none)
  | _ => pure none

end OAuthStateStore

namespace AuthHandoffStore

variable (settings : HandoffSettings)

def validRecord (metadata : StoredAuthHandoffMetadata) : Bool :=
  metadata.clientId ≠ "" && metadata.audience ≠ "" && metadata.redirectUri ≠ "" &&
    settings.isAbsoluteZodUrl metadata.redirectUri && metadata.userId ≠ "" &&
    metadata.codeChallenge ≠ "" && nullableNonempty metadata.state &&
    0 < metadata.expiresAtEpochMs

/-- The record is stored with the time it expires. -/
def create (metadata : StoredAuthHandoffMetadata) (codes : List String) : RedisProg String :=
  if validRecord settings metadata then
    storeFresh (authHandoffKey settings) (.authHandoff metadata) .authHandoffCreation
      (codes.take maxGenerationAttempts)
  else .raise (.value "invalid auth handoff metadata")

/-- The presented binding is the recorded one. -/
def bindingMatches (metadata : StoredAuthHandoffMetadata) (input : AuthHandoffStore.ConsumeInput) :
    Prop :=
  metadata.clientId = input.clientId ∧ metadata.redirectUri = input.redirectUri ∧
    metadata.codeChallenge = settings.sha256Base64Url input.codeVerifier

instance (metadata : StoredAuthHandoffMetadata) (input : AuthHandoffStore.ConsumeInput) :
    Decidable (bindingMatches settings metadata input) := by
  unfold bindingMatches
  infer_instance

/-- What a consume does with the record it has read. -/
def consumeFound (input : AuthHandoffStore.ConsumeInput) (nowEpochMs : Timestamp) :
    Option RedisValue → RedisProg (Option StoredAuthHandoffMetadata)
  | none => pure none
  | some (.authHandoff metadata) =>
      if metadata.expiresAtEpochMs ≤ nowEpochMs then do
        let _ ← consumeIfExact (authHandoffKey settings input.code) (.authHandoff metadata)
        pure none
      else if bindingMatches settings metadata input then do
        let consumed ← consumeIfExact (authHandoffKey settings input.code) (.authHandoff metadata)
        pure (if consumed.isSome then some metadata else none)
      else pure none
  | some raw => do
      let _ ← consumeIfExact (authHandoffKey settings input.code) raw
      pure none

def consume (input : AuthHandoffStore.ConsumeInput) (nowEpochMs : Timestamp) :
    RedisProg (Option StoredAuthHandoffMetadata) := do
  let raw ← getRaw (authHandoffKey settings input.code)
  consumeFound settings input nowEpochMs raw

end AuthHandoffStore

namespace Phase5AuthService

variable (settings : HandoffSettings)

/-- What the password check of a login sees: the credential of its email, the clock, and
whether the user was still there when the success was recorded. -/
structure LoginSeen where
  credential : Option PasswordCredentialRecord
  now : Timestamp
  userFound : Bool

def clientForHandoff (handoff : ClientHandoff) : RedisProg RelyingClientPolicy :=
  let rejected := .raise (.domain 400 "INVALID_CLIENT_REDIRECT_URI" "Invalid request")
  match settings.authClients handoff.clientId with
  | none => rejected
  | some client =>
      if handoff.redirectUri ∈ client.allowedRedirectUris ∧ handoff.audience = client.audience
      then pure client else rejected

def authenticate (input : LoginInput) (seen : LoginSeen) : RedisProg String :=
  match seen.credential with
  | none => .raise (.passwordAuthFailure none (loginFailureReason none false))
  | some c =>
      let verified := settings.verifyPassword c.passwordHash input.password
      let locked := isLocked c seen.now
      if c.userStatus = .pendingEmailVerification ∧ verified ∧ ¬ locked then
        .raise (.passwordAuthFailure (some c.userId) "EMAIL_VERIFICATION_REQUIRED")
      else if c.userStatus = .active ∧ ¬ locked ∧ verified then
        if seen.userFound then pure c.userId
        else .raise (.domain 401 "INVALID_CREDENTIALS" "Invalid email or password")
      else .raise (.passwordAuthFailure (some c.userId) (loginFailureReason (some c) locked))

def login (input : LoginInput) (handoff : ClientHandoff) (seen : LoginSeen)
    (nowEpochMs : Timestamp) (codes : List String) : RedisProg String := do
  let client ← clientForHandoff settings handoff
  let userId ← authenticate settings input seen
  AuthHandoffStore.create settings
    ⟨client.clientId, client.audience, handoff.redirectUri, userId, .password,
      handoff.codeChallenge, handoff.state, nowEpochMs + authHandoffTtlMs, none⟩ codes

/-- The transaction that confirms a token gives the user and the handoff stored with the
token. -/
def confirmEmailVerification (confirmed : Except Error (String × Option ClientHandoff))
    (nowEpochMs : Timestamp) (codes : List String) : RedisProg (Option String) :=
  match confirmed with
  | .error e => .raise e
  | .ok (_, none) => pure none
  | .ok (userId, some handoff) =>
      some <$> AuthHandoffStore.create settings
        ⟨handoff.clientId, handoff.audience, handoff.redirectUri, userId, .password,
          handoff.codeChallenge, handoff.state, nowEpochMs + authHandoffTtlMs, none⟩ codes

structure OAuthStartInput where
  clientId : String
  redirectUri : Option String
  callerState : Option String
  codeChallenge : Option String
  codeChallengeMethod : Option String

/-- The redirect URI a sign-in goes to; an empty one counts as absent. -/
def startRedirectUri (input : OAuthStartInput) (client : RelyingClientPolicy) : Option String :=
  match input.redirectUri.filter (· ≠ "") with
  | some redirectUri => some redirectUri
  | none => client.allowedRedirectUris.head?

def invalidState (input : OAuthStartInput) : Bool :=
  input.callerState.any fun state =>
    state = "" || maxCallerStateLength < javascriptStringLength state

def invalidPkce (input : OAuthStartInput) : Bool :=
  !input.codeChallenge.any isPkceChallenge || !input.codeChallengeMethod.all (· = "S256")

def oauthStart (provider : OAuthProvider) (input : OAuthStartInput) (states : List String) :
    RedisProg String :=
  match settings.providerError provider with
  | some e => .raise e
  | none =>
  match settings.authClients input.clientId with
  | none => .raise (.domain 400 "INVALID_OAUTH_CLIENT" "Invalid OAuth client")
  | some client =>
  match startRedirectUri input client with
  | none => .raise (.runtime "tuple index out of range")
  | some redirectUri =>
      if redirectUri ∉ client.allowedRedirectUris then
        .raise (.domain 400 "INVALID_REDIRECT_URI" "Invalid redirect URI")
      else if invalidState input || invalidPkce input then
        .raise (.domain 400 "INVALID_OAUTH_REQUEST" "Invalid OAuth request")
      else OAuthStateStore.create settings provider
        ⟨client.clientId, redirectUri, input.callerState, input.codeChallenge, some "S256"⟩ states

/-- The provider's profile and the transaction that resolves it give a user or an error. -/
def oauthCallback (provider : OAuthProvider) (code state : String)
    (resolved : Except Error String) (nowEpochMs : Timestamp) (codes : List String) :
    RedisProg String := do
  let invalidOAuthState : RedisProg String :=
    .raise (.domain 400 "INVALID_OAUTH_STATE" "Invalid OAuth state")
  if code = "" then
    .raise (.domain 400 "MISSING_AUTHORIZATION_CODE" "Authorization code is required")
  else match settings.providerError provider with
  | some e => .raise e
  | none =>
  if !settings.oauthClient then
    .raise (.domain 503 "OAUTH_PROVIDER_UNAVAILABLE" "OAuth provider is unavailable")
  else do
  match ← OAuthStateStore.consume settings provider state with
  | none => invalidOAuthState
  | some metadata =>
      match metadata.codeChallenge with
      | none => invalidOAuthState
      | some codeChallenge =>
      if metadata.codeChallengeMethod ≠ some "S256" then invalidOAuthState
      else match settings.authClients metadata.clientId with
      | none => invalidOAuthState
      | some client =>
      match resolved with
      | .error e => .raise e
      | .ok userId =>
          AuthHandoffStore.create settings
            ⟨client.clientId, client.audience, metadata.redirectUri, userId, .oauth, codeChallenge,
              metadata.callerState, nowEpochMs + authHandoffTtlMs, some provider.text⟩ codes

/-- A code whose user is no longer ACTIVE gives no pair. -/
def returnPair (pairIssued : Bool) : Option StoredAuthHandoffMetadata → RedisProg Unit
  | none => .raise (.domain 400 "INVALID_AUTH_HANDOFF_CODE" "Invalid authorization code")
  | some handoff =>
      if pairIssued then note (.pairReturned handoff.userId handoff.audience)
      else .raise (.domain 401 "UNAUTHORIZED" "Authentication is required")

def exchangeAuthHandoff (input : AuthHandoffStore.ConsumeInput) (nowEpochMs : Timestamp)
    (pairIssued : Bool) : RedisProg Unit := do
  let handoff ← AuthHandoffStore.consume settings input nowEpochMs
  returnPair pairIssued handoff

end Phase5AuthService

inductive HandoffCall
  | oauthStart (provider : OAuthProvider) (input : Phase5AuthService.OAuthStartInput)
      (states : List String)
  | oauthCallback (provider : OAuthProvider) (code state : String)
      (resolved : Except Error String) (nowEpochMs : Timestamp) (codes : List String)
  | login (input : LoginInput) (handoff : ClientHandoff) (seen : Phase5AuthService.LoginSeen)
      (nowEpochMs : Timestamp) (codes : List String)
  | confirmEmailVerification (confirmed : Except Error (String × Option ClientHandoff))
      (nowEpochMs : Timestamp) (codes : List String)
  | exchange (input : AuthHandoffStore.ConsumeInput) (nowEpochMs : Timestamp) (pairIssued : Bool)
  /-- Redis drops a record whose time to live is over. -/
  | expire (key : RedisKey)

namespace HandoffCall

def prog (settings : HandoffSettings) : HandoffCall → RedisProg Unit
  | oauthStart provider input states => do
      let _ ← Phase5AuthService.oauthStart settings provider input states
  | oauthCallback provider code state resolved nowEpochMs codes => do
      let _ ← Phase5AuthService.oauthCallback settings provider code state resolved nowEpochMs codes
  | login input handoff seen nowEpochMs codes => do
      let _ ← Phase5AuthService.login settings input handoff seen nowEpochMs codes
  | confirmEmailVerification confirmed nowEpochMs codes => do
      let _ ← Phase5AuthService.confirmEmailVerification settings confirmed nowEpochMs codes
  | exchange input nowEpochMs pairIssued =>
      Phase5AuthService.exchangeAuthHandoff settings input nowEpochMs pairIssued
  | expire key => OneTimeRecords.expire key

/-- The keys of the states and codes a call draws. -/
def draws (settings : HandoffSettings) : HandoffCall → List RedisKey
  | oauthStart _ _ states => states.map (oauthStateKey settings)
  | oauthCallback _ _ _ _ _ codes => codes.map (authHandoffKey settings)
  | login _ _ _ _ codes => codes.map (authHandoffKey settings)
  | confirmEmailVerification _ _ codes => codes.map (authHandoffKey settings)
  | exchange _ _ _ => []
  | expire _ => []

end HandoffCall

/-- Process `t` makes the call `calls t`; Redis starts empty. -/
def handoffRun (settings : HandoffSettings) (calls : ℕ → HandoffCall)
    (acts : List (Act (records RedisKey RedisValue HandoffNote Error))) :
    Option (System (records RedisKey RedisValue HandoffNote Error)) :=
  recordRun (fun t => (calls t).prog settings) acts

end WiseacctSso.AuthState
