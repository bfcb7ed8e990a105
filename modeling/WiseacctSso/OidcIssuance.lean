import WiseacctSso.FaultyCalls
import WiseacctSso.OidcGroups

/-!
# Issuing authorization codes and tokens

The calls that write a secret to Redis inside a database transaction, statement by
statement, with the audit rows of the transaction and the cleanup after an error.
-/
namespace WiseacctSso.OidcIssuance
open ReadCommitted OneTimeRecords FaultyCalls OidcState
open OidcService (TokenExchangeInput grantMatches)

structure OidcAuditEvent where
  eventType : String
  outcome : String
  userId : Option String
  provider : Option String
  reasonCode : Option String
  details : List (String × String)
  deriving DecidableEq

structure OidcTables where
  store : Db store
  auditLog : List OidcAuditEvent

/-- Redis, and the secret that the call has prepared so far: a variable of the call. -/
structure OidcOutside where
  redis : AList fun _ : OidcKey => OidcValue
  prepared : Option RandomToken

abbrev OidcCall (α : Type) : Type := Call OidcTables OidcOutside Error α

/-- The settings of the provider; the roles of a client policy are keyed like the policy. -/
structure OidcProvider extends OidcSettings where
  clientRoles : String → OidcClientRoles
  issuer : String

variable (provider : OidcProvider)

def OidcProvider.client (clientId : String) : Option OidcClient :=
  (provider.clients clientId).map fun policy => ⟨policy, provider.clientRoles clientId⟩

variable {provider} in
lemma OidcProvider.client_keyed {clientId : String} {client : OidcClient}
    (h : provider.client clientId = some client) : client.clientId = clientId := by
  obtain ⟨policy, hpolicy, rfl⟩ := Option.map_eq_some_iff.mp h
  exact provider.clients_keyed _ _ hpolicy

/-! ## Statements and commands -/

def redis {α : Type} (p : OidcProg α) : OidcCall α :=
  Call.external fun out => ((alone p out.redis).1, { out with redis := (alone p out.redis).2 })

/-- Write a secret to Redis and keep it in the variable of the call. -/
def prepare (p : OidcProg RandomToken) : OidcCall RandomToken := do
  let secret ← redis p
  Call.external fun out => (.ok (), { out with prepared := some secret })
  pure secret

def forget : OidcCall Unit := Call.external fun out => (.ok (), { out with prepared := none })

def prepared : OidcCall (Option RandomToken) := Call.external fun out => (.ok out.prepared, out)

/-- Take back what has been prepared, and raise the error again. -/
def cleanUp {α : Type} (discard : RandomToken → OidcProg Unit) (e : Error) : OidcCall α := do
  match ← prepared with
  | none => Call.raise e
  | some secret => do
      redis (discard secret)
      Call.raise e

/-- The row is locked by one statement and the roles are read by the next. -/
def lockUser (userId : String) : OidcCall (Option CurrentUserRecord) := do
  match ← Call.query fun tables => tables.store.get .user userId with
  | none => pure none
  | some u => do
      let roles ← Call.query fun tables => rolesOf tables.store userId
      pure (some ⟨userId, u.email, u.emailVerified, u.name, u.status, roles⟩)

/-- `failedLoginCount=0, lockedUntil=None`. -/
def countReset (userId : String) (db : Db store) : List (String × PasswordCredential) × Db store :=
  let rows := selectRows db .passwordCredential fun _ c => c.userId = userId
  (rows, view (rows.map fun x => .put .passwordCredential x.1
    { x.2 with failedLoginCount := 0, lockedUntil := none }) db)

def markLoginSuccess (userId : String) : OidcCall Unit := do
  let rows ← Call.statement fun tables =>
    ((countReset userId tables.store).1,
      { tables with store := (countReset userId tables.store).2 })
  if rows.length = 1 then pure ()
  else Call.raise (.runtime "password login-success reset count was not one")

def createAudit (event : OidcAuditEvent) : OidcCall Unit :=
  Call.statement fun tables => ((), { tables with auditLog := tables.auditLog ++ [event] })

/-! ## ID tokens -/

structure OidcIdTokenIdentity where
  userId : String
  email : String
  emailVerified : Bool
  name : Option String
  groups : List String

/-- The payload of an ID token. -/
structure OidcIdTokenClaims where
  sub : String
  email : String
  emailVerified : Bool
  groups : List String
  iat : ℕ
  exp : ℕ
  iss : String
  aud : String
  name : Option String
  nonce : Option String
  deriving DecidableEq

def oidcAccessTokenTtlSeconds : ℕ := 5 * 60

/-- What is signed for the identity, if it may be. -/
def OidcIdTokenSigner.issue (identity : OidcIdTokenIdentity) (clientId : String)
    (nonce : Option String) (issuedAt : ℕ) : Except Error OidcIdTokenClaims :=
  if identity.userId = "" ∨ identity.email = "" ∨ identity.emailVerified = false ∨
      clientId = "" ∨ identity.name = some "" ∨ nonce = some "" ∨ "" ∈ identity.groups then
    .error (.value "invalid OIDC ID token identity or audience")
  else .ok ⟨identity.userId, identity.email, identity.emailVerified, identity.groups, issuedAt,
    issuedAt + oidcAccessTokenTtlSeconds, provider.issuer, clientId, identity.name, nonce⟩

/-! ## Calls -/

structure AuthorizationResult where
  redirectUri : String
  code : RandomToken
  state : Option String

/-- How the user has logged in, and what the authorization draws. -/
structure AuthorizationDraws where
  loginMethod : String
  resetPasswordLogin : Bool
  provider : Option String
  now : Timestamp
  codes : List RandomToken

def authorizeEvent (userId clientId : String) (draws : AuthorizationDraws)
    (denial : Option String) : OidcAuditEvent :=
  match denial with
  | some reasonCode => ⟨"oidc_authorize", "failure", some userId, draws.provider,
      some reasonCode, [("clientId", clientId)]⟩
  | none => ⟨"oidc_authorize", "success", some userId, draws.provider, none,
      [("clientId", clientId), ("loginMethod", draws.loginMethod)]⟩

/-- The record of the code that an authorization is given. -/
def authorizationCode (client : OidcClient) (userId : String)
    (transaction : OidcAuthorizationTransaction) (now : Timestamp) : StoredOidcAuthorizationCode :=
  ⟨client.clientId, transaction.redirectUri, userId, transaction.scopes, transaction.nonce,
    transaction.codeChallenge, transaction.codeChallengeMethod, now + oidcAuthorizationCodeTtlMs⟩

/-- The transaction that decides on an authorization. -/
def authorizeUser (client : OidcClient) (userId : String)
    (transaction : OidcAuthorizationTransaction) (draws : AuthorizationDraws) : OidcCall Unit := do
  let user ← lockUser userId
  match eligibleIdentity user client.toOidcClientRoles with
  | .error denial => createAudit (authorizeEvent userId client.clientId draws (some denial))
  | .ok _ => do
      if draws.resetPasswordLogin then markLoginSuccess userId else pure ()
      let _ ← prepare (OidcAuthorizationCodeStore.create provider.toOidcSettings
        (authorizationCode client userId transaction draws.now) draws.codes)
      createAudit (authorizeEvent userId client.clientId draws none)

def completeAuthorization (userId : String) (transaction : OidcAuthorizationTransaction)
    (draws : AuthorizationDraws) : OidcCall AuthorizationResult :=
  match provider.client transaction.clientId with
  | none => Call.raise (invalidRequest "Unknown client")
  | some client => do
      forget
      (Call.transaction (authorizeUser provider client userId transaction draws)).handle
        (cleanUp fun code => OidcAuthorizationCodeStore.discard provider.toOidcSettings code.text)
      match ← prepared with
      | none => Call.raise (.oidcService "access_denied" "Account is not eligible")
      | some code => pure ⟨transaction.redirectUri, code, transaction.state⟩

structure ExchangeDraws where
  withinRateLimit : Bool
  now : Timestamp
  issuedAtSeconds : ℕ
  accessTokens : List RandomToken

structure IssuedTokens where
  accessToken : RandomToken
  idToken : OidcIdTokenClaims

def tokenEvent (userId clientId : String) (denial : Option String) : OidcAuditEvent :=
  ⟨"oidc_token", if denial.isSome then "failure" else "success", some userId, none, denial,
    [("clientId", clientId)]⟩

def accessTokenRecord (clientId userId : String) (scopes : List String) (now : Timestamp) :
    StoredOidcAccessToken :=
  ⟨clientId, userId, scopes, now + oidcAccessTokenTtlMs⟩

/-- The groups and the ID token of the identity. -/
def signIdToken (client : OidcClient) (identity : OidcIdentity) (nonce : Option String)
    (issuedAt : ℕ) : OidcCall OidcIdTokenClaims := do
  let groups ← Call.external fun out =>
    (projectGroups identity client.toOidcClientRoles, out)
  Call.fallible
  Call.external fun out => (OidcIdTokenSigner.issue provider
    ⟨identity.userId, identity.email, identity.emailVerified, identity.name, groups⟩
    client.clientId nonce issuedAt, out)

/-- The transaction that decides on an exchange; `none` when the user is not eligible. -/
def issueTokens (client : OidcClient) (stored : StoredOidcAuthorizationCode)
    (draws : ExchangeDraws) : OidcCall (Option IssuedTokens) := do
  let user ← lockUser stored.userId
  match eligibleIdentity user client.toOidcClientRoles with
  | .error denial => do
      createAudit (tokenEvent stored.userId client.clientId (some denial))
      pure none
  | .ok identity => do
      let accessToken ← prepare (OidcAccessTokenStore.create provider.toOidcSettings
        (accessTokenRecord client.clientId identity.userId stored.scopes draws.now)
        draws.accessTokens)
      let idToken ← signIdToken provider client identity stored.nonce draws.issuedAtSeconds
      createAudit (tokenEvent identity.userId client.clientId none)
      pure (some ⟨accessToken, idToken⟩)

/-- What follows once the code has been taken. -/
def redeem (client : OidcClient) (input : TokenExchangeInput)
    (stored : StoredOidcAuthorizationCode) (draws : ExchangeDraws) : OidcCall IssuedTokens :=
  let invalidGrant : OidcCall IssuedTokens :=
    Call.raise (.oidcService "invalid_grant" "Invalid authorization code")
  if !grantMatches provider.toOidcSettings client.toOidcClientPolicy input stored then do
    Call.transaction
      (createAudit (tokenEvent stored.userId client.clientId (some "OIDC_INVALID_GRANT")))
    invalidGrant
  else do
    match ← (Call.transaction (issueTokens provider client stored draws)).handle
        (cleanUp fun token =>
          OidcAccessTokenStore.revoke provider.toOidcSettings token.text) with
    | none => invalidGrant
    | some tokens => pure tokens

def exchangeCode (input : TokenExchangeInput) (draws : ExchangeDraws) : OidcCall IssuedTokens :=
  let invalidClient : OidcCall IssuedTokens :=
    Call.raise (.oidcService "invalid_client" "Client authentication failed")
  if input.grantType ≠ "authorization_code" then
    Call.raise (.oidcService "unsupported_grant_type" "Unsupported grant type")
  else if !draws.withinRateLimit then
    Call.raise (.oidcService "temporarily_unavailable" "Too many token requests")
  else match provider.client input.clientId with
  | none => invalidClient
  | some client =>
      if !provider.verifyPassword client.clientSecretHash input.clientSecret then invalidClient
      else do
        forget
        match ← redis (OidcAuthorizationCodeStore.consumeForClient provider.toOidcSettings
            input.code client.clientId draws.now) with
        | none => Call.raise (.oidcService "invalid_grant" "Invalid authorization code")
        | some stored => redeem provider client input stored draws

structure UserInfo where
  sub : String
  email : String
  name : Option String
  groups : List String

def asAccessToken : OidcValue → Option StoredOidcAccessToken
  | .accessToken record => some record
  | _ => none

def OidcAccessTokenStore.get (token : String) (now : Timestamp) :
    OidcProg (Option StoredOidcAccessToken) := do
  let found ← readLive (oidcAccessTokenKey provider.toOidcSettings token) asAccessToken
    (fun record => record.expiresAtEpochMs ≤ now) (fun _ => true)
  pure (found.map Prod.snd)

def userinfo (accessToken : String) (now : Timestamp) : OidcCall UserInfo := do
  let invalidToken : OidcCall UserInfo :=
    Call.raise (.oidcService "invalid_token" "Invalid access token")
  match ← redis (OidcAccessTokenStore.get provider accessToken now) with
  | none => invalidToken
  | some stored =>
      match provider.client stored.clientId with
      | none => do
          redis (OidcState.OidcAccessTokenStore.revoke provider.toOidcSettings accessToken)
          invalidToken
      | some client =>
          Call.transaction do
            let user ← lockUser stored.userId
            match eligibleIdentity user client.toOidcClientRoles with
            | .error _ => do
                redis (OidcState.OidcAccessTokenStore.revoke provider.toOidcSettings accessToken)
                invalidToken
            | .ok identity => do
                let groups ← Call.external fun out =>
                  (projectGroups identity client.toOidcClientRoles, out)
                pure ⟨identity.userId, identity.email, identity.name, groups⟩

end WiseacctSso.OidcIssuance
