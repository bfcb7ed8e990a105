import WiseacctSso.OidcFaults
import WiseacctSso.OidcSafety
import WiseacctSso.ProviderIdentities

/-!
# What clients are told, and who can be served

Every group a client is told comes from an eligible identity. Eligibility looks at the
status, the email, the roles and the groups; the signer also refuses an empty name.
-/
namespace WiseacctSso.OidcIssuance
open ReadCommitted OneTimeRecords FaultyCalls OidcState
open OidcService (TokenExchangeInput grantMatches)

variable {provider : OidcProvider}

/-! ## Groups -/

/-- A token that is found is in Redis. -/
lemma lookup_of_get {token : String} {now : Timestamp} {ext : AList fun _ : OidcKey => OidcValue}
    {stored : StoredOidcAccessToken}
    (h : (alone (OidcAccessTokenStore.get provider token now) ext).1 = .ok (some stored)) :
    ext.lookup (oidcAccessTokenKey provider.toOidcSettings token) =
      some (.accessToken stored) := by
  change (alone (Prog.bind _ (readLive _ asAccessToken _ _)) ext).1 = _ at h
  rw [alone_bind] at h
  rcases hread : alone (readLive (oidcAccessTokenKey provider.toOidcSettings token) asAccessToken
    (fun record => record.expiresAtEpochMs ≤ now) fun _ => true) ext with ⟨e | found, ext'⟩
  · rw [hread] at h
    cases h
  rw [hread] at h
  change Except.ok (found.map Prod.snd) = _ at h
  obtain ⟨⟨raw, record⟩, rfl, hrecord⟩ := Option.map_eq_some_iff.mp (Except.ok.inj h)
  obtain rfl : record = stored := hrecord
  obtain ⟨hlookup, hparse⟩ := lookup_of_readLive _ _ _ _ (congrArg Prod.fst hread)
  cases raw with
  | accessToken _ =>
    obtain rfl := Option.some.inj hparse
    exact hlookup
  | _ => cases hparse

/-- What an access token says of its client and its user, and the groups they are given. -/
lemma wp_userinfo {w : OidcWorld} {accessToken : String} {now : Timestamp} :
    wp (userinfo provider accessToken now) (fun info _ => ∃ stored client,
      w.ext.redis.lookup (oidcAccessTokenKey provider.toOidcSettings accessToken) =
        some (.accessToken stored) ∧ info.sub = stored.userId ∧
      provider.client stored.clientId = some client ∧
      Admits client.toOidcClientRoles w.db.store info.sub info.groups) (fun _ _ => True) w := by
  refine wp_bind.mpr (wp_external (fun found hfound => ?_) fun _ _ => trivial)
  cases found with
  | none => trivial
  | some stored =>
  have hstored := lookup_of_get hfound
  dsimp only
  split
  · exact wp_bind.mpr (wp_external (fun _ _ => trivial) fun _ _ => trivial)
  next client hclient =>
  refine wp_transaction (wp_bind.mpr (wp_lockUser (fun faults => ?_) fun _ _ => trivial))
  split
  · exact wp_bind.mpr (wp_external (fun _ _ => trivial) fun _ _ => trivial)
  next identity heligible =>
  refine wp_bind.mpr (wp_external (fun groups hgroups => ?_) fun _ _ => trivial)
  obtain ⟨hid, hadmits⟩ := admits_of_eligible heligible hgroups
  refine ⟨fun _ => ⟨stored, client, hstored, hid, hclient, ?_⟩, fun _ _ => trivial⟩
  dsimp only
  rw [hid]
  exact hadmits

/-- The groups are those of the user's identity, as its row and its roles show it: faithful to
its roles, and one of them is of a role that the client requires and the user holds. -/
def NamesAdmittingRole (provider : OidcProvider) (db : Db store) (clientId userId : String)
    (groups : List String) : Prop :=
  ∃ client u identity, provider.client clientId = some client ∧ db.get .user userId = some u ∧
    eligibleIdentity (some (userRecord db userId u)) client.toOidcClientRoles = .ok identity ∧
    GroupsFaithful client.toOidcClientRoles identity groups ∧
    ∃ required ∈ client.requiredRoles, required ∈ rolesOf db userId ∧
      groupValue required ∈ groups

lemma Admits.namesRole {client : OidcClient} {db : Db store} {clientId userId : String}
    {groups : List String} (h : Admits client.toOidcClientRoles db userId groups)
    (hclient : provider.client clientId = some client)
    (hreleased : ∀ role ∈ client.requiredRoles, role.serviceKey ∈ client.groupsServiceKeys) :
    NamesAdmittingRole provider db clientId userId groups := by
  obtain ⟨u, identity, hu, heligible, hgroups⟩ := h
  have hfaithful := groupsFaithful hreleased hgroups
  obtain ⟨record, hrecord, -, -, -, -, -, -, -, hroles, hrole, -⟩ := eligible_spec heligible
  obtain rfl := Option.some.inj hrecord
  obtain ⟨required, hrequired, hheld, hgroup⟩ := hfaithful.admitted hrole
  rw [hroles] at hheld
  exact ⟨client, u, identity, hclient, hu, heligible, hfaithful, required, hrequired, hheld,
    hgroup⟩

/-- What an exchange releases: an ID token for the client that asks, with the groups of the
user it names. -/
def TokenNamesRole (provider : OidcProvider) (input : TokenExchangeInput) (before : OidcWorld)
    (idToken : OidcIdTokenClaims) : Prop :=
  idToken.aud = input.clientId ∧
    NamesAdmittingRole provider before.db.store input.clientId idToken.sub idToken.groups

/-- What a userinfo request releases: the groups of the access token's user for its client. -/
def UserInfoNamesRole (provider : OidcProvider) (accessToken : String) (before : OidcWorld)
    (info : UserInfo) : Prop :=
  ∃ stored, before.ext.redis.lookup (oidcAccessTokenKey provider.toOidcSettings accessToken) =
      some (.accessToken stored) ∧ info.sub = stored.userId ∧
    NamesAdmittingRole provider before.db.store stored.clientId stored.userId info.groups

/-- For every client policy that the validation accepts: the groups projected from an
identity are faithful to its roles, and every ID token and user info for a client names a role
that the client requires and its user holds. -/
theorem groups_claim_faithful {isRedirectUri isArgon2idHash : String → Bool} :
    (∀ client : OidcClient, client.accepted isRedirectUri isArgon2idHash = true →
      ∀ identity groups, projectGroups identity client.toOidcClientRoles = .ok groups →
        GroupsFaithful client.toOidcClientRoles identity groups) ∧
    ∀ provider : OidcProvider, (∀ clientId client, provider.client clientId = some client →
        client.accepted isRedirectUri isArgon2idHash = true) →
      ∀ w, (∀ input draws, wp (exchangeCode provider input draws)
          (fun tokens _ => TokenNamesRole provider input w tokens.idToken) (fun _ _ => True) w) ∧
        ∀ accessToken now, wp (userinfo provider accessToken now)
          (fun info _ => UserInfoNamesRole provider accessToken w info) (fun _ _ => True) w := by
  refine ⟨fun client haccepted identity groups h => groupsFaithful
    (fun role hrole => OidcClient.required_released haccepted hrole) h,
    fun provider haccepted w => ⟨fun input draws => ?_, fun accessToken now => ?_⟩⟩
  · refine FaultyCalls.wp_mono (fun tokens w' h => ?_) (fun _ _ _ => trivial) wp_exchangeCode
    obtain ⟨client, scopes, hclient, haud, hadmits, -⟩ := h
    exact ⟨haud.trans (OidcProvider.client_keyed hclient), hadmits.namesRole hclient
      fun role hrole => OidcClient.required_released (haccepted _ _ hclient) hrole⟩
  · refine FaultyCalls.wp_mono (fun info w' h => ?_) (fun _ _ _ => trivial) wp_userinfo
    obtain ⟨stored, client, hstored, hsub, hclient, hadmits⟩ := h
    exact ⟨stored, hstored, hsub, (hsub ▸ hadmits).namesRole hclient fun role hrole =>
      OidcClient.required_released (haccepted _ _ hclient) hrole⟩

/-! ## Eligible users -/

lemma lockUser_run {tables : OidcTables} {out : OidcOutside} {userId : String} {u : User}
    (hu : tables.store.get .user userId = some u) : lockUser userId ⟨tables, out, []⟩ =
      (.ok (some (userRecord tables.store userId u)), ⟨tables, out, []⟩) := by
  have hquery : (Call.query fun tables : OidcTables => tables.store.get .user userId)
      (⟨tables, out, []⟩ : OidcWorld) = (.ok (some u), ⟨tables, out, []⟩) := by
    rw [← hu]
    rfl
  exact Call.bind_ok hquery

/-- The signer accepts what eligibility has accepted, unless the name is empty. -/
lemma issue_eligible (provider : OidcProvider) {client : OidcClient} {user : CurrentUserRecord}
    {identity : OidcIdentity} {groups : List String} {nonce : Option String} (issuedAt : ℕ)
    (hclient : client.clientId ≠ "")
    (huser : user.id ≠ "") (hnonce : nonce ≠ some "")
    (heligible : eligibleIdentity (some user) client.toOidcClientRoles = .ok identity)
    (hgroups : projectGroups identity client.toOidcClientRoles = .ok groups) :
    OidcIdTokenSigner.issue provider ⟨identity.userId, identity.email, identity.emailVerified,
      identity.name, groups⟩ client.clientId nonce issuedAt =
      if user.name = some "" then .error (.value "invalid OIDC ID token identity or audience")
      else .ok ⟨user.id, identity.email, true, groups, issuedAt,
        issuedAt + oidcAccessTokenTtlSeconds, provider.issuer, client.clientId, user.name,
        nonce⟩ := by
  obtain ⟨u, hu, -, -, hemail, -, hid, hname, hverified, -⟩ := eligible_spec heligible
  obtain rfl := Option.some.inj hu
  have hnonempty : "" ∉ groups := by
    intro hmem
    obtain ⟨role, hrole⟩ := mem_groups hgroups hmem
    have hlist := congrArg String.toList hrole
    rw [toList_groupValue] at hlist
    simp at hlist
  unfold OidcIdTokenSigner.issue
  simp only [hid, hname, hverified, huser, hemail, hclient, hnonce, hnonempty, false_or, or_false,
    Bool.true_eq_false]

lemma signIdToken_run (provider : OidcProvider) (client : OidcClient) {identity : OidcIdentity}
    (nonce : Option String) (issuedAt : ℕ) {groups : List String} (tables : OidcTables)
    (out : OidcOutside) (hgroups : projectGroups identity client.toOidcClientRoles = .ok groups) :
    signIdToken provider client identity nonce issuedAt ⟨tables, out, []⟩ =
      (OidcIdTokenSigner.issue provider ⟨identity.userId, identity.email, identity.emailVerified,
        identity.name, groups⟩ client.clientId nonce issuedAt, ⟨tables, out, []⟩) := by
  have hproject : (Call.external fun out => (projectGroups identity client.toOidcClientRoles, out) :
      OidcCall (List String)) ⟨tables, out, []⟩ = (.ok groups, ⟨tables, out, []⟩) := by
    rw [← hgroups]
    rfl
  exact Call.bind_ok hproject

lemma prepare_run {p : OidcProg RandomToken} {secret : RandomToken} {tables : OidcTables}
    {out : OidcOutside} {ext : AList fun _ : OidcKey => OidcValue}
    (hrun : alone p out.redis = (.ok secret, ext)) :
    prepare p ⟨tables, out, []⟩ = (.ok secret, ⟨tables, ⟨ext, some secret⟩, []⟩) := by
  have hredis : redis p (⟨tables, out, []⟩ : OidcWorld) =
      (.ok secret, ⟨tables, ⟨ext, out.prepared⟩, []⟩) := by
    simp [redis, Call.external, hrun]
  exact Call.bind_ok hredis

/-- What an exchange needs besides its user: the code is in Redis, live and of this client, the
request matches it, and a fresh token can be drawn. -/
structure Redeemable (provider : OidcProvider) (client : OidcClient) (input : TokenExchangeInput)
    (stored : StoredOidcAuthorizationCode) (draws : ExchangeDraws) (w : OidcWorld) : Prop where
  registered : provider.client input.clientId = some client
  grantType : input.grantType = "authorization_code"
  withinRateLimit : draws.withinRateLimit = true
  secret : provider.verifyPassword client.clientSecretHash input.clientSecret = true
  found : w.ext.redis.lookup (oidcAuthorizationCodeKey provider.toOidcSettings input.code) =
    some (.code stored)
  valid : OidcAuthorizationCodeStore.validRecord stored = true
  owner : stored.clientId = client.clientId
  live : draws.now < stored.expiresAtEpochMs
  grant : grantMatches provider.toOidcSettings client.toOidcClientPolicy input stored = true
  fresh : ∃ token ∈ draws.accessTokens.take AuthState.maxGenerationAttempts,
    w.ext.redis.lookup (oidcAccessTokenKey provider.toOidcSettings token.text) = none
  noFault : w.faults = []

section served
variable {client : OidcClient} {input : TokenExchangeInput} {stored : StoredOidcAuthorizationCode}
  {draws : ExchangeDraws} {w : OidcWorld} {u : User} {identity : OidcIdentity}
  {groups : List String}

/-- The transaction of the exchange succeeds or raises as the signer does. -/
lemma issueTokens_run (provider : OidcProvider) (draws : ExchangeDraws) {tables : OidcTables}
    {out : OidcOutside} (hvalid : OidcAuthorizationCodeStore.validRecord stored = true)
    (hclient : client.clientId ≠ "")
    (hfresh : ∃ token ∈ draws.accessTokens.take AuthState.maxGenerationAttempts,
      out.redis.lookup (oidcAccessTokenKey provider.toOidcSettings token.text) = none)
    (hu : tables.store.get .user stored.userId = some u)
    (heligible : eligibleIdentity (some (userRecord tables.store stored.userId u))
      client.toOidcClientRoles = .ok identity)
    (hgroups : projectGroups identity client.toOidcClientRoles = .ok groups) :
    ∃ token ext tables', issueTokens provider client stored draws ⟨tables, out, []⟩ =
      match OidcIdTokenSigner.issue provider ⟨identity.userId, identity.email,
        identity.emailVerified, identity.name, groups⟩ client.clientId stored.nonce
        draws.issuedAtSeconds with
      | .error e => (.error e, ⟨tables, ⟨ext, some token⟩, []⟩)
      | .ok claims => (.ok (some ⟨token, claims⟩), ⟨tables', ⟨ext, some token⟩, []⟩) := by
  have huserId : identity.userId = stored.userId := by
    obtain ⟨v, hv, -, -, -, -, hid, -⟩ := eligible_spec heligible
    obtain rfl := Option.some.inj hv
    exact hid
  simp only [OidcAuthorizationCodeStore.validRecord, Bool.and_eq_true, decide_eq_true_eq] at hvalid
  obtain ⟨⟨⟨⟨⟨⟨-, -⟩, hstored⟩, hscopes⟩, -⟩, -⟩, -⟩ := hvalid
  have hrecord : OidcState.OidcAccessTokenStore.validRecord
      (accessTokenRecord client.clientId identity.userId stored.scopes draws.now) = true := by
    simp only [OidcState.OidcAccessTokenStore.validRecord, accessTokenRecord, huserId,
      Bool.and_eq_true, decide_eq_true_eq]
    exact ⟨⟨⟨hclient, hstored⟩, hscopes⟩, Nat.lt_add_left _ (by decide)⟩
  obtain ⟨token, ext, hcreate⟩ : ∃ token ext, alone (OidcState.OidcAccessTokenStore.create
      provider.toOidcSettings
      (accessTokenRecord client.clientId identity.userId stored.scopes draws.now)
      draws.accessTokens) out.redis = (.ok token, ext) := by
    unfold OidcState.OidcAccessTokenStore.create
    rw [if_pos hrecord]
    obtain ⟨free, hmem, hnone⟩ := hfresh
    rcases alone_storeFresh (N := TokenResponse)
      (fun token : RandomToken => oidcAccessTokenKey provider.toOidcSettings token.text) _ _
      (draws.accessTokens.take AuthState.maxGenerationAttempts) out.redis with
      ⟨htaken, -⟩ | ⟨token, -, -, hrun⟩
    · have hsome := htaken free hmem
      rw [hnone] at hsome
      simp at hsome
    · exact ⟨token, _, hrun⟩
  refine ⟨token, ext, { tables with
    auditLog := tables.auditLog ++ [tokenEvent identity.userId client.clientId none] }, ?_⟩
  unfold issueTokens
  rw [Call.bind_ok (lockUser_run hu), heligible]
  dsimp only
  rw [Call.bind_ok (prepare_run hcreate)]
  have hsign := signIdToken_run provider client stored.nonce draws.issuedAtSeconds tables
    ⟨ext, some token⟩ hgroups
  split
  · next e he =>
    rw [he] at hsign
    exact Call.bind_error hsign
  · next claims hclaims =>
    rw [hclaims] at hsign
    exact Call.bind_ok hsign

lemma exchangeCode_run (hredeemable : Redeemable provider client input stored draws w) :
    exchangeCode provider input draws w = redeem provider client input stored draws
      ⟨w.db, ⟨w.ext.redis.erase (oidcAuthorizationCodeKey provider.toOidcSettings input.code),
        none⟩, []⟩ := by
  obtain ⟨db, out, faults⟩ := w
  obtain rfl : faults = [] := hredeemable.noFault
  have htaken : redis (OidcAuthorizationCodeStore.consumeForClient provider.toOidcSettings
      input.code client.clientId draws.now) (⟨db, ⟨out.redis, none⟩, []⟩ : OidcWorld) =
      (.ok (some stored), ⟨db, ⟨out.redis.erase
        (oidcAuthorizationCodeKey provider.toOidcSettings input.code), none⟩, []⟩) := by
    have hrun : alone (OidcAuthorizationCodeStore.consumeForClient provider.toOidcSettings
        input.code client.clientId draws.now) out.redis = (.ok (some stored), out.redis.erase
          (oidcAuthorizationCodeKey provider.toOidcSettings input.code)) :=
      alone_takeLive_live _ OidcValue.asCode (fun record => record.expiresAtEpochMs ≤ draws.now)
        (fun record => record.clientId = client.clientId) hredeemable.found rfl
        (decide_eq_false (not_le.mpr hredeemable.live)) (decide_eq_true hredeemable.owner)
    simp only [redis, Call.external]
    rw [hrun]
  have hforget : forget (⟨db, out, []⟩ : OidcWorld) = (.ok (), ⟨db, ⟨out.redis, none⟩, []⟩) := rfl
  unfold exchangeCode
  simp only [hredeemable.grantType, hredeemable.withinRateLimit, hredeemable.registered,
    hredeemable.secret, ne_eq, not_true_eq_false, if_false, Bool.not_true, Bool.false_eq_true]
  rw [Call.bind_ok hforget, Call.bind_ok htaken]

/-- The signer accepts the identity, and the exchange returns its tokens. -/
def Served (provider : OidcProvider) (client : OidcClient) (input : TokenExchangeInput)
    (stored : StoredOidcAuthorizationCode) (draws : ExchangeDraws) (w : OidcWorld)
    (identity : OidcIdentity) (groups : List String) : Prop :=
  (∃ claims, OidcIdTokenSigner.issue provider ⟨identity.userId, identity.email,
    identity.emailVerified, identity.name, groups⟩ client.clientId stored.nonce
    draws.issuedAtSeconds = .ok claims) ∧
  ∃ tokens w', exchangeCode provider input draws w = (.ok tokens, w')

/-- An eligible user with a redeemable code is served unless the stored name is empty. -/
theorem eligible_user_served_iff {isRedirectUri isArgon2idHash : String → Bool}
    (haccepted : client.accepted isRedirectUri isArgon2idHash = true)
    (hredeemable : Redeemable provider client input stored draws w)
    (hu : w.db.store.get .user stored.userId = some u)
    (heligible : eligibleIdentity (some (userRecord w.db.store stored.userId u))
      client.toOidcClientRoles = .ok identity)
    (hgroups : projectGroups identity client.toOidcClientRoles = .ok groups) :
    Served provider client input stored draws w identity groups ↔ u.name ≠ some "" := by
  have hclient := OidcClient.clientId_ne_empty haccepted
  have hvalid := hredeemable.valid
  simp only [OidcAuthorizationCodeStore.validRecord, Bool.and_eq_true, decide_eq_true_eq] at hvalid
  obtain ⟨⟨⟨⟨⟨⟨-, -⟩, hstored⟩, -⟩, hnonce⟩, -⟩, -⟩ := hvalid
  have hnonce' : stored.nonce ≠ some "" := by
    intro hempty
    simp [hempty, AuthState.nullableNonempty] at hnonce
  have hissue := issue_eligible provider draws.issuedAtSeconds hclient hstored hnonce' heligible
    hgroups
  change _ = if u.name = some "" then _ else _ at hissue
  have hfresh : ∃ token ∈ draws.accessTokens.take AuthState.maxGenerationAttempts,
      (w.ext.redis.erase (oidcAuthorizationCodeKey provider.toOidcSettings input.code)).lookup
        (oidcAccessTokenKey provider.toOidcSettings token.text) = none := by
    obtain ⟨token, hmem, hnone⟩ := hredeemable.fresh
    refine ⟨token, hmem, ?_⟩
    rwa [AList.lookup_erase_ne (by simp [oidcAccessTokenKey, oidcAuthorizationCodeKey])]
  let out : OidcOutside := ⟨w.ext.redis.erase
    (oidcAuthorizationCodeKey provider.toOidcSettings input.code), none⟩
  obtain ⟨token, ext, tables', hrun⟩ : ∃ token ext tables', issueTokens provider client stored
      draws ⟨w.db, out, []⟩ = _ :=
    issueTokens_run provider draws hredeemable.valid hclient hfresh hu heligible hgroups
  have hexchange : exchangeCode provider input draws w = _ := exchangeCode_run hredeemable
  unfold redeem at hexchange
  simp only [hredeemable.grant, Bool.not_true, Bool.false_eq_true, if_false] at hexchange
  by_cases hname : u.name = some ""
  · -- The signer raises, so does the transaction, and the cleanup raises the error again.
    rw [if_pos hname] at hissue
    refine ⟨fun hserved => ?_, fun hne => absurd hname hne⟩
    obtain ⟨⟨claims, hclaims⟩, -⟩ := hserved
    exact absurd (hissue.symm.trans hclaims) (by simp)
  · rw [if_neg hname] at hissue
    refine ⟨fun _ => hname, fun _ => ⟨⟨_, hissue⟩, ?_⟩⟩
    rw [hissue] at hrun
    rw [Call.bind_ok (Call.handle_ok (Call.transaction_ok hrun))] at hexchange
    exact ⟨_, _, hexchange⟩

end served

/-! ## A client and its users -/

/-- The wiki, and the role that it requires. -/
def wikiProvider : OidcProvider where
  toOidcSettings := wikiSettings
  clientRoles _ := ⟨[⟨"temis", "user"⟩], ["temis"]⟩
  issuer := "https://auth.example"

def wikiClient : OidcClient :=
  ⟨⟨"wiki", "secret", ["https://wiki.example/callback"], ["openid"], true⟩,
    ⟨[⟨"temis", "user"⟩], ["temis"]⟩⟩

def wikiRedirectUri (uri : String) : Bool := uri = "https://wiki.example/callback"

def wikiSecretHash (passwordHash : String) : Bool := passwordHash = "secret"

/-- A sign-in with a provider profile of this name. -/
def googleCallback (name : String) : ℕ → AccountCall
  | _ => .oauthCallback "temis" (.google "g1" (some "bob@example.com") (some true) (some name) none)
      ⟨"u0", "a0", ⟨"x0", "x1", "x2", "x3", "x4"⟩⟩

def wikiStored : StoredOidcAuthorizationCode :=
  ⟨"wiki", "https://wiki.example/callback", "u0", ["openid"], none, some wikiVerifier,
    some "S256", 301000⟩

def wikiInput : TokenExchangeInput :=
  ⟨"wiki", "secret", "authorization_code", wikiCode.text, "https://wiki.example/callback",
    some wikiVerifier⟩

def wikiDraws : ExchangeDraws := ⟨true, 2000, 2, [wikiTransaction]⟩

/-- Redis with the code, and the database as it is. -/
def wikiWorld (db : Db store) : OidcWorld :=
  ⟨⟨db, []⟩, ⟨(∅ : AList fun _ : OidcKey => OidcValue).insert
    (oidcAuthorizationCodeKey wikiSettings wikiCode.text) (.code wikiStored), none⟩, []⟩

lemma wiki_redeemable (db : Db store) :
    Redeemable wikiProvider wikiClient wikiInput wikiStored wikiDraws (wikiWorld db) where
  registered := rfl
  grantType := rfl
  withinRateLimit := rfl
  secret := rfl
  found := AList.lookup_insert _
  valid := by decide
  owner := rfl
  live := by decide
  grant := by decide
  fresh := ⟨wikiTransaction, by simp [wikiDraws, AuthState.maxGenerationAttempts], rfl⟩
  noFault := rfl

def bobIdentity (name : String) : OidcIdentity :=
  ⟨"u0", "bob@example.com", some name, true, [⟨"temis", "user"⟩]⟩

/-- The user of the callback is in the database, and eligible at the wiki. -/
def BobEligible (name : String) (db : Db store) : Prop :=
  db.get .user "u0" = some ⟨some "bob@example.com", some name, none, .active, true⟩ ∧
    rolesOf db "u0" = [⟨"temis", "user"⟩]

lemma BobEligible.identity {name : String} {db : Db store} (h : BobEligible name db) :
    eligibleIdentity (some (userRecord db "u0"
      ⟨some "bob@example.com", some name, none, .active, true⟩)) wikiClient.toOidcClientRoles =
      .ok (bobIdentity name) := by
  unfold userRecord
  rw [h.2]
  rfl

/-- A client whose policy is accepted, and the groups of a user with two of its roles. -/
theorem wiki_groups_faithful :
    wikiClient.accepted wikiRedirectUri wikiSecretHash = true ∧
      GroupsFaithful wikiClient.toOidcClientRoles
        ⟨"u0", "bob@example.com", none, true, [⟨"temis", "user"⟩, ⟨"kbl", "user"⟩,
          ⟨"temis", "admin"⟩]⟩ ["temis:admin", "temis:user"] := by
  have haccepted : wikiClient.accepted wikiRedirectUri wikiSecretHash = true := by decide
  exact ⟨haccepted, groups_claim_faithful.1 wikiClient haccepted _ _ rfl⟩

/-- A sign-in stores a name, and the user is served. -/
theorem named_user_served : ∃ sys, accountRun plainAccountSettings (googleCallback "Bob")
    (fun _ => ∅) (.call 0 :: steps 0 15) = some sys ∧
      Served wikiProvider wikiClient wikiInput wikiStored wikiDraws (wikiWorld sys.shared.db)
        (bobIdentity "Bob") ["temis:user"] := by
  have hsome : (accountRun plainAccountSettings (googleCallback "Bob") (fun _ => ∅)
      (.call 0 :: steps 0 15)).any (fun sys => sys.shared.db.get .user "u0" =
          some ⟨some "bob@example.com", some "Bob", none, .active, true⟩ ∧
        rolesOf sys.shared.db "u0" = [⟨"temis", "user"⟩]) = true := by decide
  obtain ⟨sys, hrun, hsys⟩ := (Option.any_eq_true _ _).mp hsome
  obtain hbob : BobEligible "Bob" sys.shared.db := of_decide_eq_true (p := _ ∧ _) hsys
  have haccepted : wikiClient.accepted wikiRedirectUri wikiSecretHash = true := by decide
  exact ⟨sys, hrun, (eligible_user_served_iff haccepted (wiki_redeemable _) hbob.1 hbob.identity
    rfl).mpr (by decide)⟩

/-- What an exchange raises, if it does. -/
def raised {β : Type} : Except Error β → Option Error
  | .error e => some e
  | .ok _ => none

lemma eq_error_of_raised {β : Type} {r : Except Error β} {e : Error} (h : raised r = some e) :
    r = .error e := by
  cases r with
  | error e' => exact congrArg Except.error (Option.some.inj h)
  | ok _ => simp [raised] at h

/-- A sign-in stores an empty name: the user is eligible, and the exchange of the code raises
when the code is gone. -/
theorem nameless_user_not_served : ∃ sys,
    accountRun plainAccountSettings (googleCallback "") (fun _ => ∅)
      (.call 0 :: steps 0 15) = some sys ∧
    sys.shared.db.get .user "u0" =
      some ⟨some "bob@example.com", some "", none, .active, true⟩ ∧
    eligibleIdentity (some (userRecord sys.shared.db "u0"
      ⟨some "bob@example.com", some "", none, .active, true⟩)) wikiClient.toOidcClientRoles =
      .ok (bobIdentity "") ∧
    projectGroups (bobIdentity "") wikiClient.toOidcClientRoles = .ok ["temis:user"] ∧
    wikiClient.accepted wikiRedirectUri wikiSecretHash = true ∧
    Redeemable wikiProvider wikiClient wikiInput wikiStored wikiDraws
      (wikiWorld sys.shared.db) ∧
    ∃ w', exchangeCode wikiProvider wikiInput wikiDraws (wikiWorld sys.shared.db) =
        (.error (.value "invalid OIDC ID token identity or audience"), w') ∧
      w'.ext.redis.lookup (oidcAuthorizationCodeKey wikiSettings wikiCode.text) = none := by
  have hsome : (accountRun plainAccountSettings (googleCallback "") (fun _ => ∅)
      (.call 0 :: steps 0 15)).any (fun sys =>
        (sys.shared.db.get .user "u0" =
            some ⟨some "bob@example.com", some "", none, .active, true⟩ ∧
          rolesOf sys.shared.db "u0" = [⟨"temis", "user"⟩]) ∧
        raised (exchangeCode wikiProvider wikiInput wikiDraws (wikiWorld sys.shared.db)).1 =
          some (.value "invalid OIDC ID token identity or audience") ∧
        (exchangeCode wikiProvider wikiInput wikiDraws
          (wikiWorld sys.shared.db)).2.ext.redis.lookup
            (oidcAuthorizationCodeKey wikiSettings wikiCode.text) = none) = true := by decide
  obtain ⟨sys, hrun, hsys⟩ := (Option.any_eq_true _ _).mp hsome
  obtain ⟨hbob, hraised, hcode⟩ := of_decide_eq_true hsys
  have heligible : BobEligible "" sys.shared.db := hbob
  have haccepted : wikiClient.accepted wikiRedirectUri wikiSecretHash = true := by decide
  exact ⟨sys, hrun, hbob.1, heligible.identity, rfl, haccepted, wiki_redeemable _, _,
    Prod.ext (eq_error_of_raised hraised) rfl, hcode⟩

end WiseacctSso.OidcIssuance
