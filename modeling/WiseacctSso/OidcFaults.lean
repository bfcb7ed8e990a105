import WiseacctSso.OidcIssuance

/-!
# Failures while a secret is issued

Redis is written inside a transaction that may still fail. Wherever an error is raised, the
rollback takes back the rows and the cleanup takes back the secret.
-/
namespace WiseacctSso.OidcIssuance
open ReadCommitted OneTimeRecords FaultyCalls OidcState
open OidcService (TokenExchangeInput grantMatches)

abbrev OidcWorld : Type := World OidcTables OidcOutside Error

variable {provider : OidcProvider} {α : Type} {w : OidcWorld}

section statements
variable {Q : α → OidcWorld → Prop} {R : Error → OidcWorld → Prop}

lemma wp_redis {p : OidcProg α} {r : Except Error α} {ext : AList fun _ : OidcKey => OidcValue}
    (hrun : alone p w.ext.redis = (r, ext))
    (hok : ∀ a, r = .ok a → Q a { w with ext := { w.ext with redis := ext } })
    (herror : ∀ e, r = .error e → R e { w with ext := { w.ext with redis := ext } }) :
    wp (redis p) Q R w := by
  refine wp_external ?_ ?_
  · intro a ha
    rw [hrun] at ha ⊢
    exact hok a ha
  · intro e he
    rw [hrun] at he ⊢
    exact herror e he

/-- The user record that `lockUser` shows for a row. -/
def userRecord (db : Db store) (userId : String) (u : User) : CurrentUserRecord :=
  ⟨userId, u.email, u.emailVerified, u.name, u.status, rolesOf db userId⟩

lemma wp_lockUser {Q : Option CurrentUserRecord → OidcWorld → Prop} {userId : String}
    (hok : ∀ faults, Q ((w.db.store.get .user userId).map (userRecord w.db.store userId))
      { w with faults := faults })
    (herror : ∀ e faults, R e { w with faults := faults }) : wp (lockUser userId) Q R w := by
  refine wp_bind.mpr (wp_query (fun faults => ?_) herror)
  dsimp only
  rcases hu : w.db.store.get .user userId with _ | u
  · refine wp_pure.mpr ?_
    simpa only [hu, Option.map_none] using hok faults
  · refine wp_bind.mpr (wp_query (fun faults => wp_pure.mpr ?_) herror)
    simpa only [hu, Option.map_some, userRecord] using hok faults

lemma wp_createAudit {Q : Unit → OidcWorld → Prop} {event : OidcAuditEvent}
    (hok : ∀ faults, Q () { w with
      db := { w.db with auditLog := w.db.auditLog ++ [event] }, faults := faults })
    (herror : ∀ e faults, R e { w with faults := faults }) : wp (createAudit event) Q R w :=
  wp_statement hok herror

lemma wp_markLoginSuccess {Q : Unit → OidcWorld → Prop} {userId : String}
    (hok : ∀ faults, Q () { w with
      db := { w.db with store := (countReset userId w.db.store).2 }, faults := faults })
    (herror : ∀ e db faults, R e { w with db := db, faults := faults }) :
    wp (markLoginSuccess userId) Q R w := by
  refine wp_bind.mpr (wp_statement (fun faults => ?_) fun e faults => herror e _ faults)
  split
  · exact hok faults
  · exact herror _ _ faults

end statements

/-! ## Secrets -/

/-- Nothing has been prepared, or one secret under a key that was free. -/
def Prepared (key : RandomToken → OidcKey) (value : OidcValue)
    (before : AList fun _ : OidcKey => OidcValue) (out : OidcOutside) : Prop :=
  out.prepared = none ∧ out.redis = before ∨
    ∃ secret, out.prepared = some secret ∧ before.lookup (key secret) = none ∧
      out.redis = before.insert (key secret) value

lemma wp_prepare {key : RandomToken → OidcKey} {value : OidcValue} {failure : Error}
    {draws : List RandomToken} {Q : RandomToken → OidcWorld → Prop}
    {R : Error → OidcWorld → Prop}
    (hok : ∀ secret, w.ext.redis.lookup (key secret) = none →
      Q secret { w with ext := ⟨w.ext.redis.insert (key secret) value, some secret⟩ })
    (herror : ∀ e, R e w) :
    wp (prepare (storeFresh key value failure draws)) Q R w := by
  refine wp_bind.mpr ?_
  rcases alone_storeFresh (N := TokenResponse) key value failure draws w.ext.redis with
    ⟨-, hrun⟩ | ⟨secret, -, habsent, hrun⟩
  · exact wp_redis hrun (fun a ha => by simp at ha) fun e _ => herror e
  · refine wp_redis hrun (fun a ha => ?_) fun e he => by simp at he
    obtain rfl := Except.ok.inj ha
    exact wp_bind.mpr (wp_external (fun _ _ => hok _ habsent) fun e he => by simp at he)

/-- The cleanup leaves no secret behind. -/
lemma wp_cleanUp {key : RandomToken → OidcKey} {value : OidcValue}
    {before : AList fun _ : OidcKey => OidcValue} {discard : RandomToken → OidcProg Unit}
    {e : Error} {Q : α → OidcWorld → Prop} {R : Error → OidcWorld → Prop}
    (hprepared : Prepared key value before w.ext)
    (hdiscard : ∀ secret ext, alone (discard secret) ext = (.ok (), ext.erase (key secret)))
    (h : ∀ out : OidcOutside, (∀ κ, out.redis.lookup κ = before.lookup κ) →
      R e { w with ext := out }) : wp (cleanUp discard e) Q R w := by
  refine wp_bind.mpr (wp_external (fun a ha => ?_) fun e he => by simp at he)
  obtain rfl := Except.ok.inj ha
  rcases hprepared with ⟨hnone, hredis⟩ | ⟨secret, hsome, habsent, hredis⟩
  · dsimp only
    rw [hnone]
    exact h _ fun κ => by rw [hredis]
  · dsimp only
    rw [hsome]
    refine wp_bind.mpr (wp_redis (hdiscard secret _) (fun a _ => ?_) fun e he => by simp at he)
    refine h _ fun κ => ?_
    change (w.ext.redis.erase (key secret)).lookup κ = _
    rw [hredis]
    by_cases hκ : κ = key secret
    · rw [hκ, AList.lookup_erase, habsent]
    · rw [AList.lookup_erase_ne hκ, AList.lookup_insert_ne hκ]

lemma alone_discard (code : RandomToken) (ext : AList fun _ : OidcKey => OidcValue) :
    alone (OidcAuthorizationCodeStore.discard provider.toOidcSettings code.text) ext =
      (.ok (), ext.erase (oidcAuthorizationCodeKey provider.toOidcSettings code.text)) := rfl

lemma alone_revoke (token : RandomToken) (ext : AList fun _ : OidcKey => OidcValue) :
    alone (OidcState.OidcAccessTokenStore.revoke provider.toOidcSettings token.text) ext =
      (.ok (), ext.erase (oidcAccessTokenKey provider.toOidcSettings token.text)) := rfl

/-! ## Taking a record -/

section taking
variable {V : Type} (key : OidcKey) (parse : OidcValue → Option V) (stale bound : V → Bool)
  (ext : AList fun _ : OidcKey => OidcValue)

/-- Taking a record brings nothing in. -/
lemma alone_takeLive_subset : ∃ r ext', alone (takeLive key parse stale bound) ext = (.ok r, ext') ∧
    ∀ κ v, ext'.lookup κ = some v → ext.lookup κ = some v := by
  have herase : ∀ κ v, (ext.erase key).lookup κ = some v → ext.lookup κ = some v := by
    intro κ v hv
    by_cases hκ : κ = key
    · rw [hκ, AList.lookup_erase] at hv
      simp at hv
    · rwa [AList.lookup_erase_ne hκ] at hv
  have hexact : ∀ raw, ∃ r ext',
      alone (consumeIfExact key raw : OidcProg (Option OidcValue)) ext = (.ok r, ext') ∧
      ∀ κ v, ext'.lookup κ = some v → ext.lookup κ = some v := by
    intro raw
    refine ⟨_, _, rfl, ?_⟩
    dsimp only
    split
    · exact herase
    · exact fun _ _ hv => hv
  have hread : ∃ r ext', alone (readLive key parse stale bound) ext = (.ok r, ext') ∧
      (r.isSome = true → ext' = ext) ∧ ∀ κ v, ext'.lookup κ = some v → ext.lookup κ = some v := by
    change ∃ r ext', alone (Prog.bind _ (getRaw key)) ext = (.ok r, ext') ∧ _
    simp only [alone_bind, getRaw, alone]
    rcases ext.lookup key with _ | raw
    · exact ⟨none, ext, rfl, by simp, fun _ _ hv => hv⟩
    dsimp only
    obtain ⟨r, ext', hrun, hsub⟩ := hexact raw
    rcases parse raw with _ | record
    · refine ⟨none, ext', ?_, by simp, hsub⟩
      change alone (Prog.bind _ (consumeIfExact key raw)) ext = _
      rw [alone_bind, hrun]
      rfl
    dsimp only
    split
    · refine ⟨none, ext', ?_, by simp, hsub⟩
      change alone (Prog.bind _ (consumeIfExact key raw)) ext = _
      rw [alone_bind, hrun]
      rfl
    · exact ⟨_, ext, rfl, fun _ => rfl, fun _ _ hv => hv⟩
  obtain ⟨r, ext', hrun, hsame, hsub⟩ := hread
  change ∃ r ext', alone (Prog.bind _ (readLive key parse stale bound)) ext = (.ok r, ext') ∧ _
  rw [alone_bind, hrun]
  rcases r with _ | ⟨raw, record⟩
  · exact ⟨none, ext', rfl, hsub⟩
  · obtain rfl := hsame rfl
    obtain ⟨consumed, ext'', hconsume, hsub'⟩ := hexact raw
    refine ⟨if consumed.isSome then some record else none, ext'', ?_, hsub'⟩
    change alone (Prog.bind _ (consumeIfExact key raw)) ext' = _
    rw [alone_bind, hconsume]
    rfl

variable {ext}

/-- What is read is in Redis. -/
lemma lookup_of_readLive {raw : OidcValue} {record : V}
    (h : (alone (readLive key parse stale bound) ext).1 = .ok (some (raw, record))) :
    ext.lookup key = some raw ∧ parse raw = some record := by
  change (alone (Prog.bind _ (getRaw key)) ext).1 = _ at h
  simp only [alone_bind, getRaw, alone] at h
  rcases hfound : ext.lookup key with _ | found
  · rw [hfound] at h
    cases h
  rw [hfound] at h
  dsimp only at h
  -- A record that does not parse or is out of bounds is consumed, and none is returned.
  have hconsumed : (alone (Prog.bind (fun _ => pure none) (consumeIfExact key found) :
      OidcProg (Option (OidcValue × V))) ext).1 ≠ .ok (some (raw, record)) := by
    rw [alone_bind]
    simp only [consumeIfExact, alone]
    exact fun hsome => by cases hsome
  rcases hparse : parse found with _ | read
  · rw [hparse] at h
    exact absurd h hconsumed
  rw [hparse] at h
  dsimp only at h
  split at h
  · exact absurd h hconsumed
  · split at h
    · cases h
      exact ⟨rfl, hparse⟩
    · cases h

/-- A live record is taken. -/
lemma alone_takeLive_live {raw : OidcValue} {record : V} (hfound : ext.lookup key = some raw)
    (hparse : parse raw = some record) (hstale : stale record = false)
    (hbound : bound record = true) :
    alone (takeLive key parse stale bound) ext = (.ok (some record), ext.erase key) := by
  change alone (Prog.bind _ (Prog.bind _ (getRaw key))) ext = _
  rw [alone_bind, alone_bind]
  simp only [getRaw, alone, hfound, hparse, hstale, hbound, Bool.false_eq_true, if_false, if_true]
  change alone (Prog.bind _ (consumeIfExact key raw)) ext = _
  rw [alone_bind]
  simp only [consumeIfExact, alone, hfound, if_true]
  rfl

end taking

/-! ## Authorizations -/

/-- After an error nothing new is in Redis, and the tables are as before, apart from an audit
row that is not of a success. -/
structure NothingLeft (before after : OidcWorld) : Prop where
  redis : ∀ κ v, after.ext.redis.lookup κ = some v → before.ext.redis.lookup κ = some v
  db : after.db = before.db ∨ ∃ event : OidcAuditEvent, event.outcome = "failure" ∧
    after.db = { before.db with auditLog := before.db.auditLog ++ [event] }

/-- The authorization is in the audit log and its code can be redeemed. -/
structure Authorized (provider : OidcProvider) (userId : String)
    (transaction : OidcAuthorizationTransaction) (draws : AuthorizationDraws) (before : OidcWorld)
    (result : AuthorizationResult) (after : OidcWorld) : Prop where
  audited : ∃ client, provider.client transaction.clientId = some client ∧
    after.db.auditLog = before.db.auditLog ++ [authorizeEvent userId client.clientId draws none] ∧
    after.ext.redis.lookup (oidcAuthorizationCodeKey provider.toOidcSettings result.code.text) =
      some (.code (authorizationCode client userId transaction draws.now))
  store : after.db.store = before.db.store ∨
    draws.resetPasswordLogin = true ∧ after.db.store = (countReset userId before.db.store).2

/-- What the transaction of an authorization leaves, if it commits. -/
structure Decided (provider : OidcProvider) (client : OidcClient) (userId : String)
    (transaction : OidcAuthorizationTransaction) (draws : AuthorizationDraws)
    (before after : OidcWorld) : Prop where
  prepared : Prepared (fun code => oidcAuthorizationCodeKey provider.toOidcSettings code.text)
    (.code (authorizationCode client userId transaction draws.now)) before.ext.redis after.ext
  audited : after.db.auditLog = before.db.auditLog ++ [authorizeEvent userId client.clientId draws
    none] ∧ after.ext.prepared.isSome = true ∧ (after.db.store = before.db.store ∨
      draws.resetPasswordLogin = true ∧ after.db.store = (countReset userId before.db.store).2) ∨
    after.ext.prepared = none ∧ ∃ denial, after.db = { before.db with auditLog :=
      before.db.auditLog ++ [authorizeEvent userId client.clientId draws (some denial)] }

lemma wp_authorizeUser {client : OidcClient} {userId : String}
    {transaction : OidcAuthorizationTransaction} {draws : AuthorizationDraws}
    {Q : Unit → OidcWorld → Prop} {R : Error → OidcWorld → Prop}
    (hnone : w.ext.prepared = none)
    (hok : ∀ w', Decided provider client userId transaction draws w w' → Q () w')
    (herror : ∀ e w',
      Prepared (fun code => oidcAuthorizationCodeKey provider.toOidcSettings code.text)
        (.code (authorizationCode client userId transaction draws.now)) w.ext.redis w'.ext →
      R e w') :
    wp (authorizeUser provider client userId transaction draws) Q R w := by
  have hnothing : ∀ w' : OidcWorld, w'.ext = w.ext →
      Prepared (fun code => oidcAuthorizationCodeKey provider.toOidcSettings code.text)
        (.code (authorizationCode client userId transaction draws.now)) w.ext.redis w'.ext := by
    intro w' hext
    rw [hext]
    exact .inl ⟨hnone, rfl⟩
  refine wp_bind.mpr (wp_lockUser (fun faults => ?_) fun e faults => herror e _ (hnothing _ rfl))
  split
  · next denial _ =>
    exact wp_createAudit (fun faults => hok _ ⟨hnothing _ rfl, .inr ⟨hnone, denial, rfl⟩⟩)
      fun e faults => herror e _ (hnothing _ rfl)
  -- The code is prepared after the counter has been reset, if it is reset at all.
  have hcreate : ∀ (store' : Db store) faults, (store' = w.db.store ∨
      draws.resetPasswordLogin = true ∧ store' = (countReset userId w.db.store).2) →
      wp (do
        let _ ← prepare (OidcAuthorizationCodeStore.create provider.toOidcSettings
          (authorizationCode client userId transaction draws.now) draws.codes)
        createAudit (authorizeEvent userId client.clientId draws none) : OidcCall Unit) Q R
        { w with db := { w.db with store := store' }, faults := faults } := by
    intro store' faults hstore
    refine wp_bind.mpr ?_
    unfold OidcAuthorizationCodeStore.create
    split
    · refine wp_prepare (fun secret habsent => ?_) fun e => herror e _ (hnothing _ rfl)
      exact wp_createAudit (fun faults => hok _ ⟨.inr ⟨secret, rfl, habsent, rfl⟩,
        .inl ⟨rfl, rfl, hstore⟩⟩) fun e faults => herror e _ (.inr ⟨secret, rfl, habsent, rfl⟩)
    · exact wp_bind.mpr (wp_redis rfl (fun a ha => by simp at ha)
        fun e _ => herror e _ (hnothing _ rfl))
  dsimp only
  split
  · next hreset =>
    exact wp_bind.mpr (wp_markLoginSuccess (fun faults => hcreate _ faults (.inr ⟨hreset, rfl⟩))
      fun e db faults => herror e _ (hnothing _ rfl))
  · exact hcreate _ _ (.inl rfl)

lemma Prepared.redis_of_none {key : RandomToken → OidcKey} {value : OidcValue}
    {before : AList fun _ : OidcKey => OidcValue} {out : OidcOutside}
    (h : Prepared key value before out) (hnone : out.prepared = none) : out.redis = before := by
  rcases h with ⟨-, hredis⟩ | ⟨secret, hsome, -⟩
  · exact hredis
  · exact absurd (hnone.symm.trans hsome) (by simp)

lemma Prepared.live {key : RandomToken → OidcKey} {value : OidcValue}
    {before : AList fun _ : OidcKey => OidcValue} {out : OidcOutside} {secret : RandomToken}
    (h : Prepared key value before out) (hsome : out.prepared = some secret) :
    out.redis.lookup (key secret) = some value := by
  rcases h with ⟨hnone, -⟩ | ⟨secret', hsome', -, hredis⟩
  · exact absurd (hnone.symm.trans hsome) (by simp)
  · obtain rfl := Option.some.inj (hsome.symm.trans hsome')
    rw [hredis, AList.lookup_insert]

lemma wp_completeAuthorization {userId : String} {transaction : OidcAuthorizationTransaction}
    {draws : AuthorizationDraws} : wp (completeAuthorization provider userId transaction draws)
      (Authorized provider userId transaction draws w) (fun _ => NothingLeft w) w := by
  unfold completeAuthorization
  split
  · exact ⟨fun _ _ hv => hv, .inl rfl⟩
  next client hclient =>
  refine wp_bind.mpr (wp_external (fun _ _ => wp_bind.mpr (wp_handle (wp_transaction ?_)))
    fun e he => by simp at he)
  -- After an error the secret is taken back and the tables are as before.
  have hclean : ∀ {Q : Unit → OidcWorld → Prop} e (out : OidcOutside) faults,
      Prepared (fun code => oidcAuthorizationCodeKey provider.toOidcSettings code.text)
        (.code (authorizationCode client userId transaction draws.now)) w.ext.redis out →
      wp (cleanUp (fun code => OidcAuthorizationCodeStore.discard provider.toOidcSettings
        code.text) e) Q (fun _ => NothingLeft w) ⟨w.db, out, faults⟩ := by
    intro Q e out faults hprepared
    exact wp_cleanUp hprepared alone_discard fun out' hsame =>
      ⟨fun κ v hv => (hsame κ).symm.trans hv, .inl rfl⟩
  refine wp_authorizeUser rfl (fun w' hdecided => ⟨fun faults => ?_, fun e faults =>
    hclean e _ faults hdecided.prepared⟩) fun e w' hprepared => hclean e _ _ hprepared
  refine wp_bind.mpr (wp_external (fun a ha => ?_) fun e he => by simp at he)
  obtain rfl := Except.ok.inj ha
  rcases hdecided.audited with ⟨haudited, hsome, hstore⟩ | ⟨hnone, denial, hdb⟩
  · obtain ⟨code, hcode⟩ := Option.isSome_iff_exists.mp hsome
    dsimp only
    rw [hcode]
    exact ⟨⟨client, hclient, haudited, hdecided.prepared.live hcode⟩, hstore⟩
  · dsimp only
    rw [hnone]
    refine ⟨fun κ v hv => ?_, .inr ⟨_, rfl, hdb⟩⟩
    change w'.ext.redis.lookup κ = some v at hv
    rwa [hdecided.prepared.redis_of_none hnone] at hv

/-! ## Exchanges -/

/-- The groups are those of the user's identity, as its row and its roles show it, and the
client's policy admits it. -/
def Admits (client : OidcClientRoles) (db : Db store) (userId : String) (groups : List String) :
    Prop :=
  ∃ u identity, db.get .user userId = some u ∧
    eligibleIdentity (some (userRecord db userId u)) client = .ok identity ∧
    projectGroups identity client = .ok groups

lemma admits_of_eligible {client : OidcClientRoles} {db : Db store} {userId : String}
    {identity : OidcIdentity} {groups : List String}
    (heligible : eligibleIdentity ((db.get .user userId).map (userRecord db userId)) client =
      .ok identity) (hgroups : projectGroups identity client = .ok groups) :
    identity.userId = userId ∧ Admits client db userId groups := by
  obtain ⟨record, hrecord, -, -, -, -, hid, -⟩ := eligible_spec heligible
  obtain ⟨u, hu, rfl⟩ := Option.map_eq_some_iff.mp hrecord
  rw [hu] at heligible
  exact ⟨hid, u, identity, hu, heligible, hgroups⟩

/-- The exchange is in the audit log and its access token can be used. -/
def Exchanged (provider : OidcProvider) (input : TokenExchangeInput) (draws : ExchangeDraws)
    (before : OidcWorld) (tokens : IssuedTokens) (after : OidcWorld) : Prop :=
  ∃ client scopes, provider.client input.clientId = some client ∧
    tokens.idToken.aud = client.clientId ∧
    Admits client.toOidcClientRoles before.db.store tokens.idToken.sub tokens.idToken.groups ∧
    after.db = { before.db with auditLog := before.db.auditLog ++
      [tokenEvent tokens.idToken.sub client.clientId none] } ∧
    after.ext.redis.lookup (oidcAccessTokenKey provider.toOidcSettings tokens.accessToken.text) =
      some (.accessToken (accessTokenRecord client.clientId tokens.idToken.sub scopes draws.now))

/-- What the transaction of an exchange leaves, if it commits. -/
structure TokensDecided (provider : OidcProvider) (client : OidcClient)
    (stored : StoredOidcAuthorizationCode) (draws : ExchangeDraws) (before : OidcWorld)
    (response : Option IssuedTokens) (after : OidcWorld) : Prop where
  prepared : ∃ userId, Prepared (fun token => oidcAccessTokenKey provider.toOidcSettings token.text)
    (.accessToken (accessTokenRecord client.clientId userId stored.scopes draws.now))
    before.ext.redis after.ext ∧
    ∀ tokens, response = some tokens → tokens.idToken.sub = userId ∧
      tokens.idToken.aud = client.clientId ∧
      Admits client.toOidcClientRoles before.db.store userId tokens.idToken.groups ∧
      after.ext.prepared = some tokens.accessToken ∧
      after.db = { before.db with auditLog := before.db.auditLog ++
        [tokenEvent userId client.clientId none] }
  denied : response = none → after.ext.prepared = none ∧ ∃ denial,
    after.db = { before.db with auditLog := before.db.auditLog ++
      [tokenEvent stored.userId client.clientId (some denial)] }

lemma wp_signIdToken {client : OidcClient} {identity : OidcIdentity} {nonce : Option String}
    {issuedAt : ℕ} {Q : OidcIdTokenClaims → OidcWorld → Prop} {R : Error → OidcWorld → Prop}
    (hok : ∀ claims groups faults, projectGroups identity client.toOidcClientRoles = .ok groups →
      OidcIdTokenSigner.issue provider ⟨identity.userId, identity.email, identity.emailVerified,
        identity.name, groups⟩ client.clientId nonce issuedAt = .ok claims →
      Q claims { w with faults := faults })
    (herror : ∀ e faults, R e { w with faults := faults }) :
    wp (signIdToken provider client identity nonce issuedAt) Q R w := by
  refine wp_bind.mpr (wp_external (fun groups hgroups => ?_) fun e _ => herror e w.faults)
  refine wp_bind.mpr (wp_fallible (fun faults => ?_) herror)
  exact wp_external (fun claims hclaims => hok claims groups faults hgroups hclaims)
    fun e _ => herror e faults

lemma sub_of_issue {identity : OidcIdTokenIdentity} {clientId : String} {nonce : Option String}
    {issuedAt : ℕ} {claims : OidcIdTokenClaims}
    (h : OidcIdTokenSigner.issue provider identity clientId nonce issuedAt = .ok claims) :
    claims.sub = identity.userId ∧ claims.aud = clientId ∧ claims.groups = identity.groups := by
  unfold OidcIdTokenSigner.issue at h
  split at h
  · simp at h
  · obtain rfl := Except.ok.inj h
    exact ⟨rfl, rfl, rfl⟩

lemma wp_issueTokens {client : OidcClient} {stored : StoredOidcAuthorizationCode}
    {draws : ExchangeDraws} {Q : Option IssuedTokens → OidcWorld → Prop}
    {R : Error → OidcWorld → Prop} (hnone : w.ext.prepared = none)
    (hok : ∀ response w', TokensDecided provider client stored draws w response w' →
      Q response w')
    (herror : ∀ e w' userId, Prepared
      (fun token => oidcAccessTokenKey provider.toOidcSettings token.text)
      (.accessToken (accessTokenRecord client.clientId userId stored.scopes draws.now))
      w.ext.redis w'.ext → R e w') : wp (issueTokens provider client stored draws) Q R w := by
  have hnothing : ∀ (w' : OidcWorld) (userId : String), w'.ext = w.ext → Prepared
      (fun token => oidcAccessTokenKey provider.toOidcSettings token.text)
      (.accessToken (accessTokenRecord client.clientId userId stored.scopes draws.now))
      w.ext.redis w'.ext := by
    intro w' userId hext
    rw [hext]
    exact .inl ⟨hnone, rfl⟩
  have hearly : ∀ e (w' : OidcWorld), w'.ext = w.ext → R e w' :=
    fun e w' hext => herror e w' "" (hnothing w' "" hext)
  refine wp_bind.mpr (wp_lockUser (fun faults => ?_) fun e faults => hearly e _ rfl)
  split
  · next denial _ =>
    refine wp_bind.mpr (wp_createAudit (fun faults => hok _ _ ⟨⟨"", hnothing _ "" rfl, ?_⟩,
      fun _ => ⟨hnone, denial, rfl⟩⟩) fun e faults => hearly e _ rfl)
    intro tokens htokens
    simp at htokens
  next identity heligible =>
  refine wp_bind.mpr ?_
  unfold OidcState.OidcAccessTokenStore.create
  split
  swap
  · exact wp_bind.mpr (wp_redis rfl (fun a ha => by simp at ha) fun e _ => hearly e _ rfl)
  refine wp_prepare (fun secret habsent => ?_) fun e => hearly e _ rfl
  -- From here on the token is in Redis, and every error leaves it to the cleanup.
  have hsecret : ∀ w' : OidcWorld, w'.ext = ⟨w.ext.redis.insert
        (oidcAccessTokenKey provider.toOidcSettings secret.text) (.accessToken
          (accessTokenRecord client.clientId identity.userId stored.scopes draws.now)),
        some secret⟩ → Prepared (fun token => oidcAccessTokenKey provider.toOidcSettings token.text)
      (.accessToken (accessTokenRecord client.clientId identity.userId stored.scopes draws.now))
      w.ext.redis w'.ext := by
    intro w' hext
    rw [hext]
    exact .inr ⟨secret, rfl, habsent, rfl⟩
  refine wp_bind.mpr (wp_signIdToken (fun claims groups faults hgroups hclaims => ?_)
    fun e faults => herror e _ _ (hsecret _ rfl))
  obtain ⟨hsub, haud, hclaimed⟩ := sub_of_issue hclaims
  obtain ⟨hid, hadmits⟩ := admits_of_eligible heligible hgroups
  refine wp_bind.mpr (wp_createAudit (fun faults => hok _ _ ⟨⟨identity.userId, hsecret _ rfl, ?_⟩,
    fun h => by simp at h⟩) fun e faults => herror e _ _ (hsecret _ rfl))
  intro tokens htokens
  obtain rfl := Option.some.inj htokens
  refine ⟨hsub, haud, ?_, rfl, rfl⟩
  rw [hclaimed, hid]
  exact hadmits

/-- Redis holds nothing that was not there before the call. -/
lemma NothingLeft.of_subset {before mid after : OidcWorld} (hdb : mid.db = before.db)
    (h : ∀ κ v, mid.ext.redis.lookup κ = some v → before.ext.redis.lookup κ = some v)
    (hafter : NothingLeft mid after) : NothingLeft before after := by
  refine ⟨fun κ v hv => h κ v (hafter.redis κ v hv), ?_⟩
  rw [← hdb]
  exact hafter.db

lemma wp_redeem {client : OidcClient} {input : TokenExchangeInput}
    {stored : StoredOidcAuthorizationCode} {draws : ExchangeDraws} (hnone : w.ext.prepared = none)
    {clientId : String} (hclient : provider.client clientId = some client)
    (hinput : input.clientId = clientId) : wp (redeem provider client input stored draws)
      (Exchanged provider input draws w) (fun _ => NothingLeft w) w := by
  unfold redeem
  dsimp only
  split
  · refine wp_bind.mpr (wp_transaction (wp_createAudit (fun faults => ⟨fun faults => ?_,
      fun e faults => ?_⟩) fun e faults => ?_))
    · exact ⟨fun _ _ hv => hv, .inr ⟨_, rfl, rfl⟩⟩
    · exact ⟨fun _ _ hv => hv, .inl rfl⟩
    · exact ⟨fun _ _ hv => hv, .inl rfl⟩
  have hclean : ∀ {Q : Option IssuedTokens → OidcWorld → Prop} e (out : OidcOutside) faults userId,
      Prepared (fun token => oidcAccessTokenKey provider.toOidcSettings token.text)
        (.accessToken (accessTokenRecord client.clientId userId stored.scopes draws.now))
        w.ext.redis out →
      wp (cleanUp (fun token => OidcState.OidcAccessTokenStore.revoke provider.toOidcSettings
        token.text) e) Q (fun _ => NothingLeft w) ⟨w.db, out, faults⟩ := by
    intro Q e out faults userId hprepared
    exact wp_cleanUp hprepared alone_revoke fun out' hsame =>
      ⟨fun κ v hv => (hsame κ).symm.trans hv, .inl rfl⟩
  refine wp_bind.mpr (wp_handle (wp_transaction (wp_issueTokens hnone
    (fun response w' hdecided => ⟨fun faults => ?_, fun e faults => ?_⟩)
    fun e w' userId hprepared => hclean e _ _ userId hprepared)))
  · obtain ⟨userId, hprepared, hresponse⟩ := hdecided.prepared
    cases response with
    | none =>
      obtain ⟨hempty, denial, hdb⟩ := hdecided.denied rfl
      refine ⟨fun κ v hv => ?_, .inr ⟨_, rfl, hdb⟩⟩
      change w'.ext.redis.lookup κ = some v at hv
      rwa [hprepared.redis_of_none hempty] at hv
    | some tokens =>
      obtain ⟨hsub, haud, hadmits, hsome, hdb⟩ := hresponse tokens rfl
      refine ⟨client, stored.scopes, by rw [hinput, hclient], haud, hsub ▸ hadmits, ?_, ?_⟩
      · rw [hsub]
        exact hdb
      · rw [hsub]
        exact hprepared.live hsome
  · obtain ⟨userId, hprepared, -⟩ := hdecided.prepared
    exact hclean e _ _ userId hprepared

lemma wp_exchangeCode {input : TokenExchangeInput} {draws : ExchangeDraws} :
    wp (exchangeCode provider input draws) (Exchanged provider input draws w)
      (fun _ => NothingLeft w) w := by
  have hsame : NothingLeft w w := ⟨fun _ _ hv => hv, .inl rfl⟩
  unfold exchangeCode
  dsimp only
  split
  · exact hsame
  split
  · exact hsame
  split
  · exact hsame
  next client hclient =>
  split
  · exact hsame
  refine wp_bind.mpr (wp_external (fun _ _ => wp_bind.mpr ?_) fun e he => by simp at he)
  obtain ⟨taken, ext, hrun, hsub⟩ := alone_takeLive_subset
    (oidcAuthorizationCodeKey provider.toOidcSettings input.code) OidcValue.asCode
    (fun record => record.expiresAtEpochMs ≤ draws.now)
    (fun record => record.clientId = client.clientId) w.ext.redis
  refine wp_redis hrun (fun a ha => ?_) fun e he => by simp at he
  obtain rfl := Except.ok.inj ha
  cases taken with
  | none => exact ⟨hsub, .inl rfl⟩
  | some stored =>
    let mid : OidcWorld := ⟨w.db, ⟨ext, none⟩, w.faults⟩
    have hredeem : wp (redeem provider client input stored draws)
        (Exchanged provider input draws mid) (fun _ => NothingLeft mid) mid :=
      wp_redeem rfl hclient rfl
    have hdb : mid.db = w.db := rfl
    exact FaultyCalls.wp_mono (fun _ _ h => h) (fun _ _ h => NothingLeft.of_subset hdb hsub h)
      hredeem

/-- Wherever a step of an authorization or an exchange fails: a call that raises leaves no
secret and no success, and a call that returns has its success audited and its secret live. -/
theorem issuance_leaves_nothing_usable (provider : OidcProvider) (w : OidcWorld) :
    (∀ userId transaction draws, wp (completeAuthorization provider userId transaction draws)
      (Authorized provider userId transaction draws w) (fun _ => NothingLeft w) w) ∧
    ∀ input draws, wp (exchangeCode provider input draws) (Exchanged provider input draws w)
      (fun _ => NothingLeft w) w :=
  ⟨fun _ _ _ => wp_completeAuthorization, fun _ _ => wp_exchangeCode⟩

end WiseacctSso.OidcIssuance
