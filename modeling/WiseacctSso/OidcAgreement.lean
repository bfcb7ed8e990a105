import WiseacctSso.OidcDecisions
import WiseacctSso.OidcFaults
import WiseacctSso.SerialPrograms

/-!
# One service in several models

The OIDC service is modelled as statements among other calls, as commands to Redis, and as a call
by itself whose steps may fail. The models agree on what they share: which users are eligible, which
record a locked user has, and what a call does to Redis.
-/
namespace WiseacctSso
open ReadCommitted
open OidcState (OidcClientRoles projectGroups hasRequiredRole)

/-! ## Decisions -/

namespace OidcDecisions

/-- The client as the logins among the session calls see it. -/
def loginOf (client : OidcClientRoles) (boundTransaction consumedTransaction : Bool) :
    OidcService.OidcLogin where
  boundTransaction := boundTransaction
  consumedTransaction := consumedTransaction
  requiredRoles := client.requiredRoles
  groupsProjectable roles := (projectGroups ⟨"", "", none, true, roles⟩ client).toOption.isSome

variable {client : OidcClientRoles} {boundTransaction consumedTransaction : Bool} {userId : String}

lemma eligibleIdentity_loginOf (user : CurrentUserRecord) :
    OidcService.eligibleIdentity (loginOf client boundTransaction consumedTransaction) user =
      (OidcState.eligibleIdentity (some user) client).toOption.isSome := by
  unfold OidcService.eligibleIdentity OidcState.eligibleIdentity
  obtain ⟨id, email, emailVerified, name, status, roles⟩ := user
  have hgroups : ∀ email, (loginOf client boundTransaction consumedTransaction).groupsProjectable
      roles = (projectGroups ⟨id, email, name, true, roles⟩ client).toOption.isSome := fun _ => rfl
  have hrequired : ∀ email, (loginOf client boundTransaction
      consumedTransaction).requiredRoles.any (· ∈ roles) =
        hasRequiredRole ⟨id, email, name, true, roles⟩ client := fun _ => rfl
  dsimp only
  by_cases hactive : status = .active
  swap
  · simp [hactive, Except.toOption]
  rcases email with _ | email
  · simp [hactive, Except.toOption]
  by_cases hempty : email = ""
  · simp [hactive, hempty, Except.toOption, Option.filter]
  cases emailVerified with
  | false => simp [hactive, hempty, Except.toOption, Option.filter]
  | true =>
    rw [hgroups email, hrequired email]
    cases hhas : hasRequiredRole ⟨id, email, name, true, roles⟩ client with
    | false => simp [hactive, hempty, hhas, Except.toOption, Option.filter]
    | true =>
      cases hproject : projectGroups ⟨id, email, name, true, roles⟩ client <;>
        simp [hactive, hempty, hhas, hproject, Except.toOption, Option.filter]

/-- A login among the session calls is decided as the service decides, and reported under another
name. -/
theorem completeAuthorization_loginOf :
    OidcService.completeAuthorization (loginOf client boundTransaction consumedTransaction) userId =
      (do
        let eligible ← transaction (Γ := store)
          (fun eligible => if eligible then .loginSucceeded userId else .authorizationDenied)
          (decision userId client true)
        if eligible then pure ()
        else .raise (.oidcService "access_denied" "Account is not eligible")) := by
  have hdecision : decision userId client true = (do
      let user ← OidcService.lockUser userId
      if user.any (OidcService.eligibleIdentity
          (loginOf client boundTransaction consumedTransaction)) then do
        PasswordAuthStore.markLoginSuccess userId
        pure true
      else pure false : StoreProg Bool) := by
    unfold decision
    congr 1
    funext user
    cases user with
    | none => rfl
    | some user =>
      rw [Option.any_some, eligibleIdentity_loginOf]
      cases OidcState.eligibleIdentity (some user) client <;> rfl
  rw [hdecision]
  rfl

/-- By itself the locking read shows the record that the call with faults reads. -/
theorem lockUser_solo {step : Db store → Db store → Prop} {db₀ : Db store} {s : Shared store} :
    wp (soloGuarantee step db₀) 0 (OidcService.lockUser userId)
      ⟨fun record s' ws => ws = [] ∧ s'.db = s.db ∧
        record = (s.db.get .user userId).map (OidcIssuance.userRecord s.db userId),
        fun _ _ _ => False⟩ s [] := by
  refine wp_lockOne userId (fun κ r h => by simpa using h) ?_ ?_
  · intro sv s₁ hsv hs₁ hmissing
    have hnone : s.db.get .user userId = none := by
      rw [← hsv.solo_db, Option.eq_none_iff_forall_not_mem]
      intro u hu
      simpa using hmissing u hu
    refine ⟨rfl, hs₁.solo_db.trans hsv.solo_db, ?_⟩
    rw [hnone]
    rfl
  · intro sl u hsl _ ho hu
    refine wp_bind.mpr (wp_bind.mpr (wp_query fun sr hsr => ?_))
    have hdb : sr.db = s.db := hsr.solo_db.trans hsl.solo_db
    have hfound : s.db.get .user userId = some u := hsl.solo_db ▸ hu
    refine ⟨rfl, hdb, ?_⟩
    rw [hfound, ← hdb]
    rfl

end OidcDecisions

end WiseacctSso

namespace WiseacctSso.OidcIssuance
open ReadCommitted OneTimeRecords FaultyCalls OidcState
open OidcService (TokenExchangeInput grantMatches)

variable {provider : OidcProvider} {w : OidcWorld}

/-! ## Redis -/

/-- Nothing has been prepared, or the secret that the commands have stored. -/
def Drawn (p : OidcProg RandomToken) (before : AList fun _ : OidcKey => OidcValue)
    (out : OidcOutside) : Prop :=
  out.prepared = none ∧ out.redis = before ∨
    ∃ secret, out.prepared = some secret ∧ alone p before = (.ok secret, out.redis)

/-- What stores no secret leaves Redis as it was. -/
def KeptOnError (p : OidcProg RandomToken) : Prop :=
  ∀ before e ext, alone p before = (.error e, ext) → ext = before

lemma keptOnError_storeFresh {key : RandomToken → OidcKey} {value : OidcValue} {failure : Error}
    {draws : List RandomToken} : KeptOnError (storeFresh key value failure draws) := by
  intro before e ext hrun
  rcases alone_storeFresh (N := TokenResponse) key value failure draws before with
    ⟨-, herror⟩ | ⟨secret, -, -, hok⟩
  · exact (Prod.mk.inj (hrun.symm.trans herror)).2
  · simp [hok] at hrun

lemma keptOnError_code {record : StoredOidcAuthorizationCode} {codes : List RandomToken} :
    KeptOnError (OidcAuthorizationCodeStore.create provider.toOidcSettings record codes) := by
  unfold OidcAuthorizationCodeStore.create
  split
  · exact keptOnError_storeFresh
  · exact fun before e ext hrun => (Prod.mk.inj hrun).2.symm

lemma keptOnError_accessToken {record : StoredOidcAccessToken} {tokens : List RandomToken} :
    KeptOnError (OidcState.OidcAccessTokenStore.create provider.toOidcSettings record tokens) := by
  unfold OidcState.OidcAccessTokenStore.create
  split
  · exact keptOnError_storeFresh
  · exact fun before e ext hrun => (Prod.mk.inj hrun).2.symm

lemma wp_prepare_drawn {p : OidcProg RandomToken} {Q : RandomToken → OidcWorld → Prop}
    {R : Error → OidcWorld → Prop} (hkept : KeptOnError p)
    (hok : ∀ secret ext, alone p w.ext.redis = (.ok secret, ext) →
      Q secret { w with ext := ⟨ext, some secret⟩ })
    (herror : ∀ e, R e w) : wp (prepare p) Q R w := by
  refine wp_bind.mpr ?_
  rcases hrun : alone p w.ext.redis with ⟨e | secret, ext⟩
  · refine wp_redis hrun (fun a ha => by simp at ha) fun e' _ => ?_
    rw [hkept _ e ext hrun]
    exact herror e'
  · refine wp_redis hrun (fun a ha => ?_) fun e he => by simp at he
    obtain rfl := Except.ok.inj ha
    exact wp_bind.mpr (wp_external (fun _ _ => hok _ ext hrun) fun e he => by simp at he)

/-- The cleanup takes back what has been stored. -/
lemma wp_cleanUp_drawn {α : Type} {p : OidcProg RandomToken} {key : RandomToken → OidcKey}
    {before : AList fun _ : OidcKey => OidcValue} {discard : RandomToken → OidcProg Unit}
    {e : Error} {Q : α → OidcWorld → Prop} {R : Error → OidcWorld → Prop}
    (hdrawn : Drawn p before w.ext)
    (hdiscard : ∀ secret ext, alone (discard secret) ext = (.ok (), ext.erase (key secret)))
    (hkept : w.ext.redis = before → R e w)
    (hdiscarded : ∀ secret ext, alone p before = (.ok secret, ext) →
      R e { w with ext := { w.ext with redis := ext.erase (key secret) } }) :
    wp (cleanUp discard e) Q R w := by
  refine wp_bind.mpr (wp_external (fun a ha => ?_) fun e he => by simp at he)
  obtain rfl := Except.ok.inj ha
  rcases hdrawn with ⟨hnone, hredis⟩ | ⟨secret, hsome, hrun⟩
  · dsimp only
    rw [hnone]
    exact hkept hredis
  · dsimp only
    rw [hsome]
    exact wp_bind.mpr (wp_redis (hdiscard secret _) (fun _ _ => hdiscarded secret _ hrun)
      fun e he => by simp at he)

/-! ## Authorizations -/

section authorization
variable {client : OidcClient} {userId : String} {transaction : OidcAuthorizationTransaction}
  {draws : AuthorizationDraws}

variable (provider client userId transaction draws) in
/-- The commands that store the code of an authorization. -/
abbrev storeCode : OidcProg RandomToken :=
  OidcAuthorizationCodeStore.create provider.toOidcSettings
    (authorizationCode client userId transaction draws.now) draws.codes

lemma wp_authorizeUser_drawn {Q : Unit → OidcWorld → Prop} {R : Error → OidcWorld → Prop}
    (hnone : w.ext.prepared = none)
    (hok : ∀ w', Drawn (storeCode provider client userId transaction draws) w.ext.redis w'.ext →
      Q () w')
    (herror : ∀ e w',
      Drawn (storeCode provider client userId transaction draws) w.ext.redis w'.ext → R e w') :
    wp (authorizeUser provider client userId transaction draws) Q R w := by
  have hsame : ∀ w' : OidcWorld, w'.ext = w.ext →
      Drawn (storeCode provider client userId transaction draws) w.ext.redis w'.ext := by
    intro w' hext
    rw [hext]
    exact .inl ⟨hnone, rfl⟩
  refine wp_bind.mpr (wp_lockUser (fun faults => ?_) fun e faults => herror e _ (hsame _ rfl))
  split
  · exact wp_createAudit (fun faults => hok _ (hsame _ rfl))
      fun e faults => herror e _ (hsame _ rfl)
  have hcreate : ∀ db faults, wp (do
      let _ ← prepare (storeCode provider client userId transaction draws)
      createAudit (authorizeEvent userId client.clientId draws none) : OidcCall Unit) Q R
      ⟨db, w.ext, faults⟩ := by
    intro db faults
    refine wp_bind.mpr (wp_prepare_drawn keptOnError_code (fun secret ext hrun => ?_)
      fun e => herror e _ (hsame _ rfl))
    exact wp_createAudit (fun faults => hok _ (.inr ⟨secret, rfl, hrun⟩))
      fun e faults => herror e _ (.inr ⟨secret, rfl, hrun⟩)
  dsimp only
  split
  · exact wp_bind.mpr (wp_markLoginSuccess (fun faults => hcreate _ faults)
      fun e db faults => herror e _ (hsame _ rfl))
  · exact hcreate _ _

lemma alone_completeAuthorization
    (hclient : provider.client transaction.clientId = some client)
    (redis : AList fun _ : OidcKey => OidcValue) (eligible committed : Bool) :
    alone (OidcState.OidcService.completeAuthorization provider.toOidcSettings userId transaction
        ⟨eligible, draws.now, draws.codes, committed⟩) redis =
      if eligible then
        match alone (storeCode provider client userId transaction draws) redis with
        | (.ok code, ext) =>
          if committed then (.ok code, ext)
          else (.error (.runtime "commit failed"),
            ext.erase (oidcAuthorizationCodeKey provider.toOidcSettings code.text))
        | (.error e, ext) => (.error e, ext)
      else (.error (.oidcService "access_denied" "Account is not eligible"), redis) := by
  obtain ⟨policy, hpolicy, rfl⟩ := Option.map_eq_some_iff.mp hclient
  unfold OidcState.OidcService.completeAuthorization
  rw [hpolicy]
  cases eligible with
  | false => rfl
  | true =>
    refine alone_bind.trans ?_
    rcases hrun : alone (storeCode provider _ userId transaction draws) redis with ⟨e | code, ext⟩
    · simp only [storeCode, authorizationCode] at hrun
      simp only [hrun, if_true]
    · simp only [storeCode, authorizationCode] at hrun
      simp only [hrun, if_true]
      cases committed <;> rfl

/-- What an authorization does to Redis is what the commands alone do. -/
theorem completeAuthorization_refines :
    wp (completeAuthorization provider userId transaction draws)
      (fun result w' => ∃ seen, alone (OidcState.OidcService.completeAuthorization
        provider.toOidcSettings userId transaction seen) w.ext.redis =
          (.ok result.code, w'.ext.redis))
      (fun _ w' => ∃ seen e, alone (OidcState.OidcService.completeAuthorization
        provider.toOidcSettings userId transaction seen) w.ext.redis =
          (.error e, w'.ext.redis)) w := by
  unfold completeAuthorization
  split
  · next hclient =>
    have hpolicy : provider.clients transaction.clientId = none :=
      Option.map_eq_none_iff.mp hclient
    refine ⟨⟨false, 0, [], true⟩, invalidRequest "Unknown client", ?_⟩
    rw [OidcState.OidcService.completeAuthorization, hpolicy]
    rfl
  next client hclient =>
  -- A call that stores nothing does what the commands do for a user that is not eligible.
  have hdenied : ∀ redis, redis = w.ext.redis → ∃ seen e,
      alone (OidcState.OidcService.completeAuthorization provider.toOidcSettings userId transaction
        seen) w.ext.redis = (.error e, redis) := by
    rintro redis rfl
    exact ⟨⟨false, draws.now, draws.codes, true⟩, _, alone_completeAuthorization hclient _ _ _⟩
  have hclean : ∀ {Q : Unit → OidcWorld → Prop} e (out : OidcOutside) faults,
      Drawn (storeCode provider client userId transaction draws) w.ext.redis out →
      wp (cleanUp (fun code => OidcAuthorizationCodeStore.discard provider.toOidcSettings
        code.text) e) Q (fun _ w' => ∃ seen e, alone (OidcState.OidcService.completeAuthorization
          provider.toOidcSettings userId transaction seen) w.ext.redis = (.error e, w'.ext.redis))
        ⟨w.db, out, faults⟩ := by
    intro Q e out faults hdrawn
    refine wp_cleanUp_drawn hdrawn alone_discard (hdenied _) fun secret ext hrun => ?_
    refine ⟨⟨true, draws.now, draws.codes, false⟩, .runtime "commit failed", ?_⟩
    rw [alone_completeAuthorization hclient, hrun]
    rfl
  refine wp_bind.mpr (wp_external (fun _ _ => wp_bind.mpr (wp_handle (wp_transaction ?_)))
    fun e he => by simp at he)
  refine wp_authorizeUser_drawn rfl (fun w' hdrawn => ⟨fun faults => ?_,
    fun e faults => hclean e _ faults hdrawn⟩) fun e w' hdrawn => hclean e _ _ hdrawn
  refine wp_bind.mpr (wp_external (fun a ha => ?_) fun e he => by simp at he)
  obtain rfl := Except.ok.inj ha
  rcases hdrawn with ⟨hnone, hredis⟩ | ⟨secret, hsome, hrun⟩
  · dsimp only
    rw [hnone]
    exact hdenied _ hredis
  · dsimp only
    rw [hsome]
    refine ⟨⟨true, draws.now, draws.codes, true⟩, ?_⟩
    rw [alone_completeAuthorization hclient, hrun]
    rfl

end authorization

/-! ## Exchanges -/

section exchange
variable {client : OidcClient} {stored : StoredOidcAuthorizationCode} {input : TokenExchangeInput}
  {draws : ExchangeDraws}

variable (provider client stored draws) in
/-- The commands that store the access token of an exchange. -/
abbrev storeAccessToken : OidcProg RandomToken :=
  OidcState.OidcAccessTokenStore.create provider.toOidcSettings
    (accessTokenRecord client.clientId stored.userId stored.scopes draws.now) draws.accessTokens

lemma wp_issueTokens_drawn {Q : Option IssuedTokens → OidcWorld → Prop}
    {R : Error → OidcWorld → Prop} (hnone : w.ext.prepared = none)
    (hdenied : ∀ w' : OidcWorld, w'.ext = w.ext → Q none w')
    (hok : ∀ tokens w', w'.ext.prepared = some tokens.accessToken →
      alone (storeAccessToken provider client stored draws) w.ext.redis =
        (.ok tokens.accessToken, w'.ext.redis) → Q (some tokens) w')
    (herror : ∀ e w',
      Drawn (storeAccessToken provider client stored draws) w.ext.redis w'.ext → R e w') :
    wp (issueTokens provider client stored draws) Q R w := by
  have hsame : ∀ w' : OidcWorld, w'.ext = w.ext →
      Drawn (storeAccessToken provider client stored draws) w.ext.redis w'.ext := by
    intro w' hext
    rw [hext]
    exact .inl ⟨hnone, rfl⟩
  refine wp_bind.mpr (wp_lockUser (fun faults => ?_) fun e faults => herror e _ (hsame _ rfl))
  split
  · exact wp_bind.mpr (wp_createAudit (fun faults => hdenied _ rfl)
      fun e faults => herror e _ (hsame _ rfl))
  next identity heligible =>
  have hid : identity.userId = stored.userId := by
    obtain ⟨u, hu, -, -, -, -, hid, -⟩ := eligible_spec heligible
    obtain ⟨row, -, rfl⟩ := Option.map_eq_some_iff.mp hu
    exact hid
  rw [hid]
  refine wp_bind.mpr (wp_prepare_drawn keptOnError_accessToken (fun secret ext hrun => ?_)
    fun e => herror e _ (hsame _ rfl))
  refine wp_bind.mpr (wp_signIdToken (fun claims groups faults _ _ => ?_)
    fun e faults => herror e _ (.inr ⟨secret, rfl, hrun⟩))
  exact wp_bind.mpr (wp_createAudit (fun faults => hok ⟨secret, claims⟩ _ rfl hrun)
    fun e faults => herror e _ (.inr ⟨secret, rfl, hrun⟩))

/-- What the commands are told of the call. -/
def exchangeSeen (draws : ExchangeDraws) (eligible committed : Bool) : OidcService.ExchangeSeen :=
  ⟨draws.withinRateLimit, eligible, draws.now, draws.now, draws.accessTokens, committed⟩

def invalidGrant : Error := .oidcService "invalid_grant" "Invalid authorization code"

/-- What is left of an exchange once its code has been taken. -/
def redeemed (provider : OidcProvider) (client : OidcClient) (input : TokenExchangeInput)
    (draws : ExchangeDraws) (eligible committed : Bool)
    (taken : Option StoredOidcAuthorizationCode) (redis : AList fun _ : OidcKey => OidcValue) :
    Except Error Unit × AList fun _ : OidcKey => OidcValue :=
  match taken with
  | none => (.error invalidGrant, redis)
  | some stored =>
      if !grantMatches provider.toOidcSettings client.toOidcClientPolicy input stored ||
          !eligible then
        (.error invalidGrant, redis)
      else
        match alone (storeAccessToken provider client stored draws) redis with
        | (.ok token, ext) =>
          if committed then (.ok (), ext)
          else (.error (.runtime "commit failed"),
            ext.erase (oidcAccessTokenKey provider.toOidcSettings token.text))
        | (.error e, ext) => (.error e, ext)

lemma alone_exchangeCode (hgrant : input.grantType = "authorization_code")
    (hrate : draws.withinRateLimit = true) (hclient : provider.client input.clientId = some client)
    (hsecret : provider.verifyPassword client.clientSecretHash input.clientSecret = true)
    {redis ext : AList fun _ : OidcKey => OidcValue} {taken : Option StoredOidcAuthorizationCode}
    (hrun : alone (OidcAuthorizationCodeStore.consumeForClient provider.toOidcSettings input.code
      client.clientId draws.now) redis = (.ok taken, ext)) (eligible committed : Bool) :
    alone (OidcService.exchangeCode provider.toOidcSettings input
        (exchangeSeen draws eligible committed)) redis =
      redeemed provider client input draws eligible committed taken ext := by
  obtain ⟨policy, hpolicy, rfl⟩ := Option.map_eq_some_iff.mp hclient
  unfold OidcService.exchangeCode
  simp only [hgrant, exchangeSeen, hrate, hpolicy, hsecret, ne_eq, not_true_eq_false, if_false,
    Bool.not_true, Bool.false_eq_true]
  refine alone_bind.trans ?_
  rw [hrun]
  dsimp only
  cases taken with
  | none => rfl
  | some stored =>
    dsimp only [redeemed]
    split
    · rfl
    · refine alone_bind.trans ?_
      rcases hstore : alone (storeAccessToken provider _ stored draws) ext with ⟨e | token, ext'⟩
      · simp only [storeAccessToken, accessTokenRecord] at hstore
        simp only [hstore]
      · simp only [storeAccessToken, accessTokenRecord] at hstore
        simp only [hstore]
        cases committed <;> rfl

/-- A code that was taken is redeemed as the commands redeem it. -/
lemma wp_redeem_redeemed (hnone : w.ext.prepared = none) {taken : StoredOidcAuthorizationCode} :
    wp (redeem provider client input taken draws)
      (fun _ w' => ∃ eligible committed, redeemed provider client input draws eligible committed
        (some taken) w.ext.redis = (.ok (), w'.ext.redis))
      (fun _ w' => ∃ eligible committed e, redeemed provider client input draws eligible committed
        (some taken) w.ext.redis = (.error e, w'.ext.redis)) w := by
  have hdenied : ∀ redis, redis = w.ext.redis → ∃ eligible committed e,
      redeemed provider client input draws eligible committed (some taken) w.ext.redis =
        (.error e, redis) := by
    rintro redis rfl
    exact ⟨false, true, invalidGrant, by simp [redeemed]⟩
  unfold redeem
  dsimp only
  split
  · exact wp_bind.mpr (wp_transaction (wp_createAudit
      (fun faults => ⟨fun faults => hdenied _ rfl, fun e faults => hdenied _ rfl⟩)
      fun e faults => hdenied _ rfl))
  next hmatches =>
  have hmatched : grantMatches provider.toOidcSettings client.toOidcClientPolicy input taken =
      true := by simpa using hmatches
  -- After an error the token is revoked, if it was stored.
  have hclean : ∀ {Q : Option IssuedTokens → OidcWorld → Prop} e (out : OidcOutside) faults,
      Drawn (storeAccessToken provider client taken draws) w.ext.redis out →
      wp (cleanUp (fun token => OidcState.OidcAccessTokenStore.revoke provider.toOidcSettings
        token.text) e) Q (fun _ w' => ∃ eligible committed e, redeemed provider client input draws
          eligible committed (some taken) w.ext.redis = (.error e, w'.ext.redis))
        ⟨w.db, out, faults⟩ := by
    intro Q e out faults hdrawn
    refine wp_cleanUp_drawn hdrawn alone_revoke (hdenied _) fun secret ext hrun => ?_
    refine ⟨true, false, .runtime "commit failed", ?_⟩
    simp [redeemed, hmatched, hrun]
  refine wp_bind.mpr (wp_handle (wp_transaction (wp_issueTokens_drawn hnone ?_ ?_ ?_)))
  · exact fun w' hext => ⟨fun faults => hdenied _ (by rw [hext]),
      fun e faults => hclean e _ faults (by rw [hext]; exact .inl ⟨hnone, rfl⟩)⟩
  · intro tokens w' hsome hrun
    refine ⟨fun faults => ⟨true, true, ?_⟩, fun e faults => hclean e _ faults
      (.inr ⟨_, hsome, hrun⟩)⟩
    simp [redeemed, hmatched, hrun]
  · exact fun e w' hdrawn => hclean e _ _ hdrawn

/-- What an exchange does to Redis is what the commands alone do. -/
theorem exchangeCode_refines :
    wp (exchangeCode provider input draws)
      (fun _ w' => ∃ seen, alone (OidcService.exchangeCode provider.toOidcSettings input seen)
        w.ext.redis = (.ok (), w'.ext.redis))
      (fun _ w' => ∃ seen e, alone (OidcService.exchangeCode provider.toOidcSettings input seen)
        w.ext.redis = (.error e, w'.ext.redis)) w := by
  unfold exchangeCode
  dsimp only
  split
  · next hgrant =>
    refine ⟨exchangeSeen draws false true, .oidcService "unsupported_grant_type"
      "Unsupported grant type", ?_⟩
    rw [OidcService.exchangeCode, if_pos hgrant]
    rfl
  next hgrant =>
  split
  · next hrate =>
    refine ⟨exchangeSeen draws false true, .oidcService "temporarily_unavailable"
      "Too many token requests", ?_⟩
    have hlimited : draws.withinRateLimit = false := by simpa using hrate
    rw [OidcService.exchangeCode, if_neg hgrant]
    simp only [exchangeSeen, hlimited, Bool.not_false, if_true]
    rfl
  next hlimited =>
  have hrate : draws.withinRateLimit = true := by simpa using hlimited
  have hunknown : (provider.clients input.clientId = none ∨ ∃ policy,
      provider.clients input.clientId = some policy ∧
        provider.verifyPassword policy.clientSecretHash input.clientSecret = false) →
      ∃ seen e, alone (OidcService.exchangeCode provider.toOidcSettings input seen) w.ext.redis =
        (.error e, w.ext.redis) := by
    intro h
    refine ⟨exchangeSeen draws false true, .oidcService "invalid_client"
      "Client authentication failed", ?_⟩
    rw [OidcService.exchangeCode, if_neg hgrant]
    simp only [exchangeSeen, hrate, Bool.not_true, Bool.false_eq_true, if_false]
    rcases h with hpolicy | ⟨policy, hpolicy, hsecret⟩
    · rw [hpolicy]
      rfl
    · rw [hpolicy]
      simp only [hsecret, Bool.not_false, if_true]
      rfl
  split
  · next hclient => exact hunknown (.inl (Option.map_eq_none_iff.mp hclient))
  next client hclient =>
  split
  · next hsecret =>
    obtain ⟨policy, hpolicy, rfl⟩ := Option.map_eq_some_iff.mp hclient
    exact hunknown (.inr ⟨policy, hpolicy, by simpa using hsecret⟩)
  next hsecret =>
  rw [not_not] at hgrant
  have hsecret : provider.verifyPassword client.clientSecretHash input.clientSecret = true := by
    simpa using hsecret
  refine wp_bind.mpr (wp_external (fun _ _ => wp_bind.mpr ?_) fun e he => by simp at he)
  obtain ⟨taken, ext, hrun, -⟩ := alone_takeLive_subset
    (oidcAuthorizationCodeKey provider.toOidcSettings input.code) OidcValue.asCode
    (fun record => record.expiresAtEpochMs ≤ draws.now)
    (fun record => record.clientId = client.clientId) w.ext.redis
  refine wp_redis hrun (fun a ha => ?_) fun e he => by simp at he
  obtain rfl := Except.ok.inj ha
  have halone := alone_exchangeCode hgrant hrate hclient hsecret hrun
  cases taken with
  | none => exact ⟨_, invalidGrant, halone false true⟩
  | some stored =>
    refine FaultyCalls.wp_mono (fun tokens w' h => ?_) (fun e w' h => ?_) (wp_redeem_redeemed rfl)
    · obtain ⟨eligible, committed, h⟩ := h
      exact ⟨_, (halone eligible committed).trans h⟩
    · obtain ⟨eligible, committed, e, h⟩ := h
      exact ⟨_, e, (halone eligible committed).trans h⟩

end exchange

end WiseacctSso.OidcIssuance
