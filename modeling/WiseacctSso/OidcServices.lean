import WiseacctSso.HandoffServices

/-!
# The OIDC authorization code flow

The calls that write and take transactions, provider states, authorization codes and
access tokens in Redis. What a call learns from the database and the provider, and what it
draws from the clock and the random source, are its parameters; audit writes are left out.
-/
namespace WiseacctSso.OidcState
open ReadCommitted OneTimeRecords
open AuthState (OAuthProvider OAuthProvider.text isPkceChallenge maxGenerationAttempts
  nullableNonempty)
open WiseacctSso.Phase5AuthService (LoginInput isLocked)

structure OidcAuthorizationTransaction where
  clientId : String
  redirectUri : String
  scopes : List String
  state : Option String
  nonce : Option String
  codeChallenge : Option String
  codeChallengeMethod : Option String
  browserBindingHash : String
  csrfHash : String
  expiresAtEpochMs : Timestamp
  deriving DecidableEq

structure OidcProviderState where
  provider : OAuthProvider
  transactionId : String
  browserBindingHash : String
  expiresAtEpochMs : Timestamp
  deriving DecidableEq

structure StoredOidcAuthorizationCode where
  clientId : String
  redirectUri : String
  userId : String
  scopes : List String
  nonce : Option String
  codeChallenge : Option String
  codeChallengeMethod : Option String
  expiresAtEpochMs : Timestamp
  deriving DecidableEq

structure StoredOidcAccessToken where
  clientId : String
  userId : String
  scopes : List String
  expiresAtEpochMs : Timestamp
  deriving DecidableEq

/-- A key is its prefix and the digest that follows it. -/
inductive OidcKey
  | transaction (digest : String)
  | providerState (digest : String)
  | code (digest : String)
  | accessToken (digest : String)
  deriving DecidableEq

inductive OidcValue
  | transaction (record : OidcAuthorizationTransaction)
  | providerState (record : OidcProviderState)
  | code (record : StoredOidcAuthorizationCode)
  | accessToken (record : StoredOidcAccessToken)
  deriving DecidableEq

namespace OidcValue

def asTransaction : OidcValue → Option OidcAuthorizationTransaction
  | transaction record => some record
  | _ => none

def asProviderState : OidcValue → Option OidcProviderState
  | providerState record => some record
  | _ => none

def asCode : OidcValue → Option StoredOidcAuthorizationCode
  | code record => some record
  | _ => none

end OidcValue

/-- The token response a caller got. -/
structure TokenResponse where
  clientId : String
  redirectUri : String
  userId : String
  scopes : List String
  nonce : Option String
  deriving DecidableEq

abbrev OidcProg : Type → Type := RecordProg OidcKey OidcValue TokenResponse Error

abbrev OidcReport : Type := RecordReport OidcKey OidcValue TokenResponse

structure OidcClientPolicy where
  clientId : String
  clientSecretHash : String
  redirectUris : List String
  allowedScopes : List String
  requirePkce : Bool

/-- The settings of the OIDC service and the functions of the packages it uses; the client
policies are keyed by their client ids. -/
structure OidcSettings where
  /-- Does the Argon2 hash verify the secret? -/
  verifyPassword : (passwordHash password : String) → Bool
  oidcSecretDigest : String → String
  /-- The unpadded base64url digest of PKCE. -/
  s256 : String → String
  /-- `str.split` at whitespace. -/
  split : String → List String
  clients : String → Option OidcClientPolicy
  clients_keyed : ∀ clientId client, clients clientId = some client → client.clientId = clientId
  /-- Why a provider's configuration cannot be resolved. -/
  providerError : OAuthProvider → Option Error
  oauthClient : Bool

variable (settings : OidcSettings)

def oidcTransactionKey (transactionId : String) : OidcKey :=
  .transaction (settings.oidcSecretDigest transactionId)

def oidcProviderStateKey (state : String) : OidcKey :=
  .providerState (settings.oidcSecretDigest state)

def oidcAuthorizationCodeKey (code : String) : OidcKey :=
  .code (settings.oidcSecretDigest code)

def oidcAccessTokenKey (token : String) : OidcKey :=
  .accessToken (settings.oidcSecretDigest token)

/-- `[A-Za-z0-9_-]{43}`. -/
def isOpaqueValue (value : List Char) : Bool :=
  value.length = 43 && value.all fun c =>
    ('A' ≤ c && c ≤ 'Z') || ('a' ≤ c && c ≤ 'z') || ('0' ≤ c && c ≤ '9') || c = '_' || c = '-'

/-- 32 random bytes in base64url. -/
structure RandomToken where
  text : String
  valid : isOpaqueValue text.toList = true

/-- `^(?P<transaction>...)\.(?P<random>...)$`. -/
def providerStateTransactionId (state : String) : Option String :=
  let chars := state.toList
  if isOpaqueValue (chars.take 43) && chars[43]? = some '.' && isOpaqueValue (chars.drop 44) then
    some (String.ofList (chars.take 43))
  else none

def providerStateText (transactionId : String) (random : RandomToken) : String :=
  transactionId ++ "." ++ random.text

def oidcTransactionTtlMs : ℕ := 10 * 60 * 1000

def oidcProviderStateTtlMs : ℕ := 10 * 60 * 1000

def oidcAuthorizationCodeTtlMs : ℕ := 60 * 1000

def oidcAccessTokenTtlMs : ℕ := 5 * 60 * 1000

def invalidRequest (description : String) : Error := .oidcService "invalid_request" description

def oidcStateCreation : Error := .runtime "Unable to generate unique OIDC state"

/-! ## Records -/

def validScopes (scopes : List String) : Bool :=
  scopes ≠ [] && scopes.length ≤ 16 && scopes.all (· ≠ "") && decide scopes.Nodup

def validPkce (challenge method : Option String) : Bool :=
  match challenge with
  | none => method = none
  | some challenge => challenge ≠ "" && method = some "S256"

/-- Read a record; one that is stale is dropped, and one that is not bound to the caller is
kept from it. -/
def readLive {R : Type} (key : OidcKey) (parse : OidcValue → Option R) (stale bound : R → Bool) :
    OidcProg (Option (OidcValue × R)) := do
  match ← getRaw key with
  | none => pure none
  | some raw =>
      match parse raw with
      | none => do
          let _ ← consumeIfExact key raw
          pure none
      | some record =>
          if stale record then do
            let _ ← consumeIfExact key raw
            pure none
          else pure (if bound record then some (raw, record) else none)

/-- Read a record and take it if it is still the one that was read. -/
def takeLive {R : Type} (key : OidcKey) (parse : OidcValue → Option R) (stale bound : R → Bool) :
    OidcProg (Option R) := do
  match ← readLive key parse stale bound with
  | none => pure none
  | some (raw, record) => do
      let consumed ← consumeIfExact key raw
      pure (if consumed.isSome then some record else none)

namespace OidcAuthorizationTransactionStore

def validRecord (record : OidcAuthorizationTransaction) : Bool :=
  record.clientId ≠ "" && record.redirectUri ≠ "" && validScopes record.scopes &&
    nullableNonempty record.state && nullableNonempty record.nonce &&
    validPkce record.codeChallenge record.codeChallengeMethod &&
    record.browserBindingHash ≠ "" && record.csrfHash ≠ "" && 0 < record.expiresAtEpochMs

def create (record : OidcAuthorizationTransaction) (tokens : List RandomToken) :
    OidcProg RandomToken :=
  if validRecord record then
    storeFresh (fun token => oidcTransactionKey settings token.text) (.transaction record)
      oidcStateCreation (tokens.take maxGenerationAttempts)
  else .raise (.value "invalid OIDC authorization transaction")

def get (transactionId browserBinding : String) (now : Timestamp) :
    OidcProg (Option OidcAuthorizationTransaction) := do
  let found ← readLive (oidcTransactionKey settings transactionId) OidcValue.asTransaction
    (fun record => record.expiresAtEpochMs ≤ now)
    (fun record => record.browserBindingHash = settings.oidcSecretDigest browserBinding)
  pure (found.map Prod.snd)

def consume (transactionId browserBinding : String) (now : Timestamp) :
    OidcProg (Option OidcAuthorizationTransaction) :=
  takeLive (oidcTransactionKey settings transactionId) OidcValue.asTransaction
    (fun record => record.expiresAtEpochMs ≤ now)
    (fun record => record.browserBindingHash = settings.oidcSecretDigest browserBinding)

def discard (transactionId : String) : OidcProg Unit := do
  let _ ← OneTimeRecords.consume (oidcTransactionKey settings transactionId)

end OidcAuthorizationTransactionStore

namespace OidcProviderStateStore

def create (provider : OAuthProvider) (transactionId browserBinding : String) (now : Timestamp)
    (tokens : List RandomToken) : OidcProg RandomToken :=
  let record : OidcProviderState := ⟨provider, transactionId,
    settings.oidcSecretDigest browserBinding, now + oidcProviderStateTtlMs⟩
  if isOpaqueValue transactionId.toList && browserBinding ≠ "" &&
      record.browserBindingHash ≠ "" then
    storeFresh (fun token => oidcProviderStateKey settings (providerStateText transactionId token))
      (.providerState record) oidcStateCreation (tokens.take maxGenerationAttempts)
  else .raise (.value "invalid OIDC provider state metadata")

/-- A record of another transaction than the state names is dropped like a stale one. -/
def consumeForProvider (state : String) (provider : OAuthProvider) (browserBinding : String)
    (now : Timestamp) : OidcProg (Option OidcProviderState) :=
  match providerStateTransactionId state with
  | none => pure none
  | some transactionId =>
      takeLive (oidcProviderStateKey settings state) OidcValue.asProviderState
        (fun record => record.expiresAtEpochMs ≤ now || record.transactionId ≠ transactionId)
        (fun record => record.provider = provider &&
          record.browserBindingHash = settings.oidcSecretDigest browserBinding)

end OidcProviderStateStore

namespace OidcAuthorizationCodeStore

def validRecord (record : StoredOidcAuthorizationCode) : Bool :=
  record.clientId ≠ "" && record.redirectUri ≠ "" && record.userId ≠ "" &&
    validScopes record.scopes && nullableNonempty record.nonce &&
    validPkce record.codeChallenge record.codeChallengeMethod && 0 < record.expiresAtEpochMs

def create (record : StoredOidcAuthorizationCode) (tokens : List RandomToken) :
    OidcProg RandomToken :=
  if validRecord record then
    storeFresh (fun token => oidcAuthorizationCodeKey settings token.text) (.code record)
      oidcStateCreation (tokens.take maxGenerationAttempts)
  else .raise (.value "invalid OIDC authorization code metadata")

def consumeForClient (code clientId : String) (now : Timestamp) :
    OidcProg (Option StoredOidcAuthorizationCode) :=
  takeLive (oidcAuthorizationCodeKey settings code) OidcValue.asCode
    (fun record => record.expiresAtEpochMs ≤ now) (fun record => record.clientId = clientId)

def discard (code : String) : OidcProg Unit := do
  let _ ← OneTimeRecords.consume (oidcAuthorizationCodeKey settings code)

end OidcAuthorizationCodeStore

namespace OidcAccessTokenStore

def validRecord (record : StoredOidcAccessToken) : Bool :=
  record.clientId ≠ "" && record.userId ≠ "" && validScopes record.scopes &&
    0 < record.expiresAtEpochMs

def create (record : StoredOidcAccessToken) (tokens : List RandomToken) : OidcProg RandomToken :=
  if validRecord record then
    storeFresh (fun token => oidcAccessTokenKey settings token.text) (.accessToken record)
      (.runtime "Unable to generate unique OIDC token") (tokens.take maxGenerationAttempts)
  else .raise (.value "invalid OIDC access token metadata")

def revoke (token : String) : OidcProg Unit := do
  let _ ← OneTimeRecords.consume (oidcAccessTokenKey settings token)

end OidcAccessTokenStore

/-! ## Calls -/

namespace OidcService

structure AuthorizationRequest where
  clientId : String
  redirectUri : String
  responseType : String
  scopes : List String
  state : Option String
  nonce : Option String
  codeChallenge : Option String
  codeChallengeMethod : Option String
  prompt : Option String

/-- What the start of an authorization draws. -/
structure AuthorizationDraws where
  csrfToken : RandomToken
  browserBinding : RandomToken
  transactionIds : List RandomToken
  now : Timestamp

def parseRequestedScopes (rawScope : String) (allowedScopes : List String) :
    Option (List String) :=
  if rawScope = "" ∨ 1024 < rawScope.toList.length then none
  else
    let scopes := (settings.split rawScope).eraseDups
    if scopes ≠ [] ∧ "openid" ∈ scopes ∧ ∀ scope ∈ scopes, scope ∈ allowedScopes then some scopes
    else none

def validatePkceRequest (codeChallenge codeChallengeMethod : Option String) (required : Bool) :
    Bool :=
  match codeChallenge with
  | none => !required && codeChallengeMethod.isNone
  | some challenge => codeChallengeMethod = some "S256" && isOpaqueValue challenge.toList

def verifyPkce (codeVerifier storedChallenge : Option String) : Bool :=
  match storedChallenge, codeVerifier with
  | none, codeVerifier => codeVerifier.isNone
  | some _, none => false
  | some challenge, some verifier => isPkceChallenge verifier && settings.s256 verifier = challenge

/-- The transaction of an authorization that passes every check of its request. -/
def authorizationRecord (request : AuthorizationRequest) (draws : AuthorizationDraws) :
    Except Error OidcAuthorizationTransaction :=
  match settings.clients request.clientId with
  | none => .error (invalidRequest "Unknown client")
  | some client =>
      if request.redirectUri ∉ client.redirectUris then
        .error (invalidRequest "Invalid redirect URI")
      else if request.responseType ≠ "code" then
        .error (.oidcService "unsupported_response_type"
          "Only the authorization code flow is supported")
      else if request.prompt = some "none" then
        .error (.oidcService "login_required" "Interactive login is required")
      else if request.prompt.any fun prompt => prompt ∉ ["login", "consent", "select_account"] then
        .error (invalidRequest "Unsupported prompt")
      else match parseRequestedScopes settings (" ".intercalate request.scopes)
          client.allowedScopes with
      | none => .error (.oidcService "invalid_scope" "invalid OIDC scope")
      | some scopes =>
          if !validatePkceRequest request.codeChallenge request.codeChallengeMethod
              client.requirePkce then
            .error (invalidRequest "PKCE S256 is required")
          else .ok ⟨client.clientId, request.redirectUri, scopes, request.state, request.nonce,
            request.codeChallenge, request.codeChallenge.map fun _ => "S256",
            settings.oidcSecretDigest draws.browserBinding.text,
            settings.oidcSecretDigest draws.csrfToken.text, draws.now + oidcTransactionTtlMs⟩

def beginAuthorization (request : AuthorizationRequest) (draws : AuthorizationDraws) :
    OidcProg RandomToken :=
  match authorizationRecord settings request draws with
  | .error e => .raise e
  | .ok record => OidcAuthorizationTransactionStore.create settings record draws.transactionIds

/-- The second check of the expiry reads the clock again. -/
def boundTransaction (transactionId browserBinding : String) (clock : ℕ → Timestamp) :
    OidcProg OidcAuthorizationTransaction := do
  match ← OidcAuthorizationTransactionStore.get settings transactionId browserBinding (clock 0) with
  | none => .raise (invalidRequest "Invalid login transaction")
  | some transaction =>
      if transaction.expiresAtEpochMs ≤ clock 1 then do
        OidcAuthorizationTransactionStore.discard settings transactionId
        .raise (invalidRequest "Invalid login transaction")
      else pure transaction

/-- Whether the locked user is eligible, what the code draws, and whether the transaction
that holds the lock could commit. -/
structure CompletionSeen where
  eligible : Bool
  now : Timestamp
  codes : List RandomToken
  committed : Bool

def completeAuthorization (userId : String) (transaction : OidcAuthorizationTransaction)
    (seen : CompletionSeen) : OidcProg RandomToken :=
  match settings.clients transaction.clientId with
  | none => .raise (invalidRequest "Unknown client")
  | some client =>
      if !seen.eligible then .raise (.oidcService "access_denied" "Account is not eligible")
      else do
        let code ← OidcAuthorizationCodeStore.create settings
          ⟨client.clientId, transaction.redirectUri, userId, transaction.scopes, transaction.nonce,
            transaction.codeChallenge, transaction.codeChallengeMethod,
            seen.now + oidcAuthorizationCodeTtlMs⟩ seen.codes
        if seen.committed then pure code
        else do
          OidcAuthorizationCodeStore.discard settings code.text
          .raise (.runtime "commit failed")

structure PasswordLoginInput where
  transactionId : String
  browserBinding : String
  csrfToken : String
  login : LoginInput

/-- The credential of the email, and the time its lock is compared with. -/
structure LoginSeen where
  credential : Option PasswordCredentialRecord
  now : Timestamp

def loginFailureReason (credential : PasswordCredentialRecord) (locked verified : Bool) : String :=
  if locked then "ACCOUNT_LOCKED"
  else if credential.userStatus = .pendingEmailVerification ∧ verified then
    "EMAIL_VERIFICATION_REQUIRED"
  else if credential.userStatus = .active then "INVALID_CREDENTIALS" else "USER_INACTIVE"

/-- The user whose credential the password verifies. -/
def authenticate (input : LoginInput) (seen : LoginSeen) : OidcProg String :=
  match seen.credential with
  | none => .raise (.passwordAuthFailure none "USER_INACTIVE")
  | some c =>
      let verified := settings.verifyPassword c.passwordHash input.password
      let locked := isLocked c seen.now
      if c.userStatus = .active ∧ ¬ locked ∧ verified then pure c.userId
      else .raise (.passwordAuthFailure (some c.userId) (loginFailureReason c locked verified))

/-- Take the transaction that was read before. -/
def consumeSame (transactionId browserBinding : String) (now : Timestamp)
    (transaction : OidcAuthorizationTransaction) : OidcProg Unit := do
  let consumed ←
    OidcAuthorizationTransactionStore.consume settings transactionId browserBinding now
  if consumed = some transaction then pure ()
  else .raise (invalidRequest "Invalid login transaction")

def passwordLogin (input : PasswordLoginInput) (seen : LoginSeen) (clock : ℕ → Timestamp)
    (completion : CompletionSeen) : OidcProg RandomToken := do
  let transaction ← boundTransaction settings input.transactionId input.browserBinding clock
  if transaction.csrfHash ≠ settings.oidcSecretDigest input.csrfToken then
    .raise (invalidRequest "Invalid login transaction")
  else do
    let userId ← authenticate settings input.login seen
    consumeSame settings input.transactionId input.browserBinding (clock 2) transaction
    completeAuthorization settings userId transaction completion

def providerStart (transactionId browserBinding : String) (provider : OAuthProvider)
    (clock : ℕ → Timestamp) (randoms : List RandomToken) : OidcProg RandomToken := do
  let _ ← boundTransaction settings transactionId browserBinding clock
  match settings.providerError provider with
  | some e => .raise e
  | none =>
      OidcProviderStateStore.create settings provider transactionId browserBinding (clock 2) randoms

structure CallbackInput where
  provider : OAuthProvider
  code : String
  state : String
  browserBinding : String

/-- The provider's answer, and the user its profile is linked to. -/
structure ProfileSeen where
  fetched : Except Error Unit
  linkedUserId : Option String

def providerCallback (input : CallbackInput) (seen : ProfileSeen) (clock : ℕ → Timestamp)
    (completion : CompletionSeen) : OidcProg RandomToken := do
  match ← OidcProviderStateStore.consumeForProvider settings input.state input.provider
      input.browserBinding (clock 2) with
  | none => .raise (invalidRequest "Invalid provider state")
  | some providerState => do
      let transaction ←
        boundTransaction settings providerState.transactionId input.browserBinding clock
      if input.code = "" then .raise (invalidRequest "Authorization code is required")
      else if !settings.oauthClient then
        .raise (.oidcService "temporarily_unavailable" "OAuth provider is unavailable")
      else match settings.providerError input.provider, seen.fetched with
      | some e, _ => .raise e
      | none, .error e => .raise e
      | none, .ok () => do
          consumeSame settings providerState.transactionId input.browserBinding (clock 3)
            transaction
          match seen.linkedUserId with
          | none => .raise (.oidcService "access_denied" "Account is not eligible")
          | some userId => completeAuthorization settings userId transaction completion

def providerError (input : CallbackInput) (clock : ℕ → Timestamp) : OidcProg Unit := do
  match ← OidcProviderStateStore.consumeForProvider settings input.state input.provider
      input.browserBinding (clock 2) with
  | none => .raise (invalidRequest "Invalid provider state")
  | some providerState => do
      match ← OidcAuthorizationTransactionStore.consume settings providerState.transactionId
          input.browserBinding (clock 0) with
      | none => .raise (invalidRequest "Invalid login transaction")
      | some _ => .raise (.oidcService "access_denied" "Provider authorization was denied")

structure TokenExchangeInput where
  clientId : String
  clientSecret : String
  grantType : String
  code : String
  redirectUri : String
  codeVerifier : Option String

structure ExchangeSeen where
  withinRateLimit : Bool
  eligible : Bool
  now : Timestamp
  issuedAt : Timestamp
  accessTokens : List RandomToken
  committed : Bool

/-- The check of the redirect URI and of PKCE on the code that was taken. -/
def grantMatches (client : OidcClientPolicy) (input : TokenExchangeInput)
    (stored : StoredOidcAuthorizationCode) : Bool :=
  stored.redirectUri = input.redirectUri &&
    match stored.codeChallenge with
    | some challenge =>
        input.codeVerifier.isSome && verifyPkce settings input.codeVerifier (some challenge)
    | none => !client.requirePkce && verifyPkce settings input.codeVerifier none

def exchangeCode (input : TokenExchangeInput) (seen : ExchangeSeen) : OidcProg Unit :=
  let invalidGrant : OidcProg Unit :=
    .raise (.oidcService "invalid_grant" "Invalid authorization code")
  let invalidClient : OidcProg Unit :=
    .raise (.oidcService "invalid_client" "Client authentication failed")
  if input.grantType ≠ "authorization_code" then
    .raise (.oidcService "unsupported_grant_type" "Unsupported grant type")
  else if !seen.withinRateLimit then
    .raise (.oidcService "temporarily_unavailable" "Too many token requests")
  else match settings.clients input.clientId with
  | none => invalidClient
  | some client =>
      if !settings.verifyPassword client.clientSecretHash input.clientSecret then invalidClient
      else do
        match ← OidcAuthorizationCodeStore.consumeForClient settings input.code client.clientId
            seen.now with
        | none => invalidGrant
        | some stored =>
            if !grantMatches settings client input stored || !seen.eligible then invalidGrant
            else do
              let accessToken ← OidcAccessTokenStore.create settings
                ⟨client.clientId, stored.userId, stored.scopes,
                  seen.issuedAt + oidcAccessTokenTtlMs⟩
                seen.accessTokens
              if seen.committed then
                note ⟨client.clientId, stored.redirectUri, stored.userId, stored.scopes,
                  stored.nonce⟩
              else do
                OidcAccessTokenStore.revoke settings accessToken.text
                .raise (.runtime "commit failed")

end OidcService

open OidcState.OidcService

inductive OidcCall
  | beginAuthorization (request : AuthorizationRequest) (draws : AuthorizationDraws)
  | passwordLogin (input : PasswordLoginInput) (seen : LoginSeen) (clock : ℕ → Timestamp)
      (completion : CompletionSeen)
  | providerStart (transactionId browserBinding : String) (provider : OAuthProvider)
      (clock : ℕ → Timestamp) (randoms : List RandomToken)
  | providerCallback (input : CallbackInput) (seen : ProfileSeen) (clock : ℕ → Timestamp)
      (completion : CompletionSeen)
  | providerError (input : CallbackInput) (clock : ℕ → Timestamp)
  | exchangeCode (input : TokenExchangeInput) (seen : ExchangeSeen)
  /-- Redis drops a record whose time to live is over. -/
  | expire (key : OidcKey)

namespace OidcCall

def prog : OidcCall → OidcProg Unit
  | beginAuthorization request draws => do
      let _ ← OidcService.beginAuthorization settings request draws
  | passwordLogin input seen clock completion => do
      let _ ← OidcService.passwordLogin settings input seen clock completion
  | providerStart transactionId browserBinding provider clock randoms => do
      let _ ← OidcService.providerStart settings transactionId browserBinding provider clock randoms
  | providerCallback input seen clock completion => do
      let _ ← OidcService.providerCallback settings input seen clock completion
  | providerError input clock => OidcService.providerError settings input clock
  | exchangeCode input seen => OidcService.exchangeCode settings input seen
  | expire key => OneTimeRecords.expire key

/-- The keys of the ids, states, codes and tokens a call draws. -/
def draws : OidcCall → List OidcKey
  | beginAuthorization _ draws =>
      draws.transactionIds.map fun token => oidcTransactionKey settings token.text
  | passwordLogin _ _ _ completion =>
      completion.codes.map fun token => oidcAuthorizationCodeKey settings token.text
  | providerStart transactionId _ _ _ randoms => randoms.map fun token =>
      oidcProviderStateKey settings (providerStateText transactionId token)
  | providerCallback _ _ _ completion =>
      completion.codes.map fun token => oidcAuthorizationCodeKey settings token.text
  | providerError _ _ => []
  | exchangeCode _ seen =>
      seen.accessTokens.map fun token => oidcAccessTokenKey settings token.text
  | expire _ => []

end OidcCall

/-- Process `t` makes the call `calls t`; Redis starts empty. -/
def oidcRun (calls : ℕ → OidcCall)
    (acts : List (Act (records OidcKey OidcValue TokenResponse Error))) :
    Option (System (records OidcKey OidcValue TokenResponse Error)) :=
  recordRun (fun t => (calls t).prog settings) acts

end WiseacctSso.OidcState
