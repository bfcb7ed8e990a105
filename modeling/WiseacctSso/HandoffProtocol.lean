import WiseacctSso.HandoffServices

/-!
# The handoff protocol

A state is taken before its callback stores a code, and a code is taken before its
exchange returns a pair, so each is of use once; the record that is taken names the client,
the redirect URI, the challenge, the user and the audience of the flow that stored it.
-/
namespace WiseacctSso.AuthState
open ReadCommitted OneTimeRecords AuthState.Phase5AuthService
open WiseacctSso.Phase5AuthService (LoginInput isLocked)

section protocol

variable (settings : HandoffSettings)

/-- The record a call stores for the user that signed in with it. -/
inductive SignedIn : HandoffCall → List RedisReport → StoredAuthHandoffMetadata → Prop
  | login {input : LoginInput} {handoff : ClientHandoff} {seen : LoginSeen}
      {nowEpochMs : Timestamp} {codes : List String} {rs : List RedisReport}
      {client : RelyingClientPolicy} {c : PasswordCredentialRecord}
      (client_eq : settings.authClients handoff.clientId = some client)
      (redirect_mem : handoff.redirectUri ∈ client.allowedRedirectUris)
      (credential : seen.credential = some c) (active : c.userStatus = .active)
      (verified : settings.verifyPassword c.passwordHash input.password = true) :
      SignedIn (.login input handoff seen nowEpochMs codes) rs
        ⟨handoff.clientId, client.audience, handoff.redirectUri, c.userId, .password,
          handoff.codeChallenge, handoff.state, nowEpochMs + authHandoffTtlMs, none⟩
  | confirmation {userId : String} {handoff : ClientHandoff} {nowEpochMs : Timestamp}
      {codes : List String} {rs : List RedisReport} :
      SignedIn (.confirmEmailVerification (.ok (userId, some handoff)) nowEpochMs codes) rs
        ⟨handoff.clientId, handoff.audience, handoff.redirectUri, userId, .password,
          handoff.codeChallenge, handoff.state, nowEpochMs + authHandoffTtlMs, none⟩
  | callback {provider : OAuthProvider} {code state : String} {userId : String}
      {nowEpochMs : Timestamp} {codes : List String} {rs : List RedisReport}
      {metadata : OAuthStateMetadata} {codeChallenge : String} {client : RelyingClientPolicy}
      (taken : .consumed (oauthStateKey settings state) (.oauthState provider metadata) ∈ rs)
      (challenge : metadata.codeChallenge = some codeChallenge)
      (client_eq : settings.authClients metadata.clientId = some client) :
      SignedIn (.oauthCallback provider code state (.ok userId) nowEpochMs codes) rs
        ⟨metadata.clientId, client.audience, metadata.redirectUri, userId, .oauth, codeChallenge,
          metadata.callerState, nowEpochMs + authHandoffTtlMs, some provider.text⟩

/-- What a call may report after what it has reported. -/
inductive HandoffStep : HandoffCall → List RedisReport → RedisReport → Prop
  | stateStored {provider : OAuthProvider} {input : OAuthStartInput} {states : List String}
      {rs : List RedisReport} {client : RelyingClientPolicy} {redirectUri state : String}
      (client_eq : settings.authClients input.clientId = some client)
      (redirect : startRedirectUri input client = some redirectUri)
      (redirect_mem : redirectUri ∈ client.allowedRedirectUris) (drawn : state ∈ states)
      (once : ∀ r ∈ rs, r.isStored = false) :
      HandoffStep (.oauthStart provider input states) rs (.stored (oauthStateKey settings state)
        (.oauthState provider ⟨input.clientId, redirectUri, input.callerState,
          input.codeChallenge, some "S256"⟩))
  | codeStored {call : HandoffCall} {rs : List RedisReport} {key : RedisKey}
      {metadata : StoredAuthHandoffMetadata} (signedIn : SignedIn settings call rs metadata)
      (drawn : key ∈ call.draws settings) (once : ∀ r ∈ rs, r.isStored = false) :
      HandoffStep call rs (.stored key (.authHandoff metadata))
  | found {call : HandoffCall} {rs : List RedisReport} {key : RedisKey}
      {raw : Option RedisValue} : HandoffStep call rs (.found key raw)
  | refused {call : HandoffCall} {rs : List RedisReport} {key : RedisKey} :
      HandoffStep call rs (.refused key)
  | missed {call : HandoffCall} {rs : List RedisReport} {key : RedisKey} :
      HandoffStep call rs (.missed key)
  | stateTaken {provider : OAuthProvider} {code state : String} {resolved : Except Error String}
      {nowEpochMs : Timestamp} {codes : List String} {rs : List RedisReport} {value : RedisValue} :
      HandoffStep (.oauthCallback provider code state resolved nowEpochMs codes) rs
        (.consumed (oauthStateKey settings state) value)
  | codeTaken {input : AuthHandoffStore.ConsumeInput} {nowEpochMs : Timestamp}
      {pairIssued : Bool} {rs : List RedisReport} {value : RedisValue}
      (entitled : ∀ metadata, value = .authHandoff metadata →
        metadata.expiresAtEpochMs ≤ nowEpochMs ∨
          AuthHandoffStore.bindingMatches settings metadata input) :
      HandoffStep (.exchange input nowEpochMs pairIssued) rs
        (.consumed (authHandoffKey settings input.code) value)
  | pairReturned {input : AuthHandoffStore.ConsumeInput} {nowEpochMs : Timestamp}
      {rs : List RedisReport} {metadata : StoredAuthHandoffMetadata}
      (taken : .consumed (authHandoffKey settings input.code) (.authHandoff metadata) ∈ rs)
      (live : nowEpochMs < metadata.expiresAtEpochMs)
      (bound : AuthHandoffStore.bindingMatches settings metadata input)
      (once : ∀ r ∈ rs, r.isNoted = false) :
      HandoffStep (.exchange input nowEpochMs true) rs
        (.noted (.pairReturned metadata.userId metadata.audience))
  | expired {key : RedisKey} {rs : List RedisReport} :
      HandoffStep (.expire key) rs (.expired key)

def handoffProtocol (calls : ℕ → HandoffCall) : Protocol RedisKey RedisValue HandoffNote :=
  fun t rs report => HandoffStep settings (calls t) rs report

end protocol

variable {settings : HandoffSettings} {calls : ℕ → HandoffCall} {t : ℕ}
  {rs : List RedisReport}

/-! ## The calls keep the protocol -/

lemma isStored_of_mem_refused {rs : List RedisReport} (hrs : ∀ r ∈ rs, r.isStored = false)
    (taken : List RedisKey) : ∀ r ∈ rs ++ taken.map RecordReport.refused, r.isStored = false := by
  intro r hr
  rcases List.mem_append.mp hr with hr | hr
  · exact hrs r hr
  · obtain ⟨key, -, rfl⟩ := List.mem_map.mp hr
    rfl

lemma SignedIn.append {call : HandoffCall} {rs rs' : List RedisReport}
    {metadata : StoredAuthHandoffMetadata} (h : SignedIn settings call rs metadata) :
    SignedIn settings call (rs ++ rs') metadata := by
  cases h with
  | login client_eq redirect_mem credential active verified =>
    exact .login client_eq redirect_mem credential active verified
  | confirmation => exact .confirmation
  | callback taken challenge client_eq =>
    exact .callback (List.mem_append_left _ taken) challenge client_eq

lemma traces_createCode {metadata : StoredAuthHandoffMetadata} {codes : List String}
    (hdraws : ∀ code ∈ codes, authHandoffKey settings code ∈ (calls t).draws settings)
    (hsigned : SignedIn settings (calls t) rs metadata) (hrs : ∀ r ∈ rs, r.isStored = false) :
    Traces (handoffProtocol settings calls) t rs
      (AuthHandoffStore.create settings metadata codes) fun _ _ => True := by
  unfold AuthHandoffStore.create
  split
  · apply traces_storeFresh
    · intro code hcode taken
      have hdrawn := hdraws code (List.mem_of_mem_take hcode)
      exact ⟨.codeStored hsigned.append hdrawn (isStored_of_mem_refused hrs taken), trivial⟩
    · exact fun _ _ _ => .refused
  · exact traces_raise

lemma traces_clientForHandoff {handoff : ClientHandoff} :
    Traces (handoffProtocol settings calls) t rs (clientForHandoff settings handoff)
      fun client rs' => rs' = rs ∧ settings.authClients handoff.clientId = some client ∧
        handoff.redirectUri ∈ client.allowedRedirectUris := by
  unfold clientForHandoff
  cases hclient : settings.authClients handoff.clientId with
  | none => exact traces_raise
  | some client =>
    by_cases hmem : handoff.redirectUri ∈ client.allowedRedirectUris ∧
        handoff.audience = client.audience
    · simp only [hmem, and_self, if_true]
      exact traces_ret ⟨rfl, rfl, hmem.1⟩
    · simp only [hmem, if_false]
      exact traces_raise

lemma traces_authenticate {input : LoginInput} {seen : LoginSeen} :
    Traces (handoffProtocol settings calls) t rs (authenticate settings input seen)
      fun userId rs' => rs' = rs ∧ ∃ c, seen.credential = some c ∧ c.userStatus = .active ∧
        settings.verifyPassword c.passwordHash input.password = true ∧ c.userId = userId := by
  unfold authenticate
  cases hc : seen.credential with
  | none => exact traces_raise
  | some c =>
    dsimp only
    split
    · exact traces_raise
    · split
      · next hlogin =>
        split
        · exact traces_ret ⟨rfl, c, rfl, hlogin.1, hlogin.2.2, rfl⟩
        · exact traces_raise
      · exact traces_raise

lemma traces_login {input : LoginInput} {handoff : ClientHandoff} {seen : LoginSeen}
    {nowEpochMs : Timestamp} {codes : List String}
    (hcall : calls t = .login input handoff seen nowEpochMs codes) :
    Traces (handoffProtocol settings calls) t []
      (login settings input handoff seen nowEpochMs codes) fun _ _ => True := by
  apply traces_bind
  apply traces_mono _ traces_clientForHandoff
  rintro client _ ⟨rfl, hclient, hmem⟩
  apply traces_bind
  apply traces_mono _ traces_authenticate
  rintro userId _ ⟨rfl, c, hc, hactive, hverified, rfl⟩
  have hsigned : SignedIn settings (calls t) [] ⟨client.clientId, client.audience,
      handoff.redirectUri, c.userId, .password, handoff.codeChallenge, handoff.state,
      nowEpochMs + authHandoffTtlMs, none⟩ := by
    rw [hcall, settings.authClients_keyed _ _ hclient]
    exact .login hclient hmem hc hactive hverified
  exact traces_createCode (fun code hcode => hcall ▸ List.mem_map_of_mem hcode) hsigned (by simp)

lemma traces_confirmEmailVerification {confirmed : Except Error (String × Option ClientHandoff)}
    {nowEpochMs : Timestamp} {codes : List String}
    (hcall : calls t = .confirmEmailVerification confirmed nowEpochMs codes) :
    Traces (handoffProtocol settings calls) t []
      (confirmEmailVerification settings confirmed nowEpochMs codes) fun _ _ => True := by
  match confirmed with
  | .error e => exact traces_raise
  | .ok (userId, none) => exact traces_ret trivial
  | .ok (userId, some handoff) =>
    apply traces_bind
    have hsigned : SignedIn settings (calls t) [] ⟨handoff.clientId, handoff.audience,
        handoff.redirectUri, userId, .password, handoff.codeChallenge, handoff.state,
        nowEpochMs + authHandoffTtlMs, none⟩ := hcall ▸ .confirmation
    apply traces_mono _ (traces_createCode
      (fun code hcode => hcall ▸ List.mem_map_of_mem hcode) hsigned (by simp))
    exact fun _ _ _ => traces_ret trivial

lemma traces_oauthStart {provider : OAuthProvider} {input : OAuthStartInput}
    {states : List String} (hcall : calls t = .oauthStart provider input states) :
    Traces (handoffProtocol settings calls) t []
      (oauthStart settings provider input states) fun _ _ => True := by
  unfold oauthStart
  cases settings.providerError provider with
  | some e => exact traces_raise
  | none =>
    cases hclient : settings.authClients input.clientId with
    | none => exact traces_raise
    | some client =>
      dsimp only
      rw [settings.authClients_keyed _ _ hclient]
      cases hredirect : startRedirectUri input client with
      | none => exact traces_raise
      | some redirectUri =>
        dsimp only
        split
        · exact traces_raise
        · next hmem =>
          split
          · exact traces_raise
          · unfold OAuthStateStore.create
            split
            · apply traces_storeFresh
              · intro state hstate taken
                have hdrawn := List.mem_of_mem_take hstate
                refine ⟨?_, trivial⟩
                unfold handoffProtocol
                rw [hcall]
                exact .stateStored hclient hredirect (not_not.mp hmem) hdrawn
                  (isStored_of_mem_refused (by simp) taken)
              · exact fun _ _ _ => .refused
            · exact traces_raise

/-- A callback that got metadata has taken the state. -/
lemma traces_consumeState {provider : OAuthProvider} {code state : String}
    {resolved : Except Error String} {nowEpochMs : Timestamp} {codes : List String}
    (hcall : calls t = .oauthCallback provider code state resolved nowEpochMs codes) :
    Traces (handoffProtocol settings calls) t []
      (OAuthStateStore.consume settings provider state) fun found rs' =>
        ∀ metadata, found = some metadata →
          rs' = [.consumed (oauthStateKey settings state) (.oauthState provider metadata)] := by
  apply traces_bind
  have hstep : ∀ value, handoffProtocol settings calls t []
      (.consumed (oauthStateKey settings state) value) := by
    intro value
    unfold handoffProtocol
    rw [hcall]
    exact .stateTaken
  apply traces_consume
  · intro value
    refine ⟨hstep value, ?_⟩
    cases value with
    | oauthState provider' metadata' =>
      apply traces_ret
      intro metadata hfound
      split at hfound
      · next hprovider =>
        obtain rfl := Option.some.inj hfound
        rw [hprovider]
        rfl
      · exact absurd hfound (by simp)
    | authHandoff metadata' => exact traces_ret (by simp)
  · exact ⟨.missed, traces_ret (by simp)⟩

lemma traces_oauthCallback {provider : OAuthProvider} {code state : String}
    {resolved : Except Error String} {nowEpochMs : Timestamp} {codes : List String}
    (hcall : calls t = .oauthCallback provider code state resolved nowEpochMs codes) :
    Traces (handoffProtocol settings calls) t []
      (oauthCallback settings provider code state resolved nowEpochMs codes) fun _ _ => True := by
  unfold oauthCallback
  dsimp only
  split
  · exact traces_raise
  · cases settings.providerError provider with
    | some e => exact traces_raise
    | none =>
      dsimp only
      split
      · exact traces_raise
      · apply traces_bind
        apply traces_mono _ (traces_consumeState hcall)
        intro found rs' hfound
        cases found with
        | none => exact traces_raise
        | some metadata =>
          obtain rfl := hfound metadata rfl
          dsimp only
          cases hchallenge : metadata.codeChallenge with
          | none => exact traces_raise
          | some codeChallenge =>
            dsimp only
            split
            · exact traces_raise
            · cases hclient : settings.authClients metadata.clientId with
              | none => exact traces_raise
              | some client =>
                cases resolved with
                | error e => exact traces_raise
                | ok userId =>
                  dsimp only
                  rw [settings.authClients_keyed _ _ hclient]
                  refine traces_createCode (fun code hcode => ?_) ?_
                    (by simp [RecordReport.isStored])
                  · exact hcall ▸ List.mem_map_of_mem hcode
                  · rw [hcall]
                    exact .callback (by simp) hchallenge hclient

/-- An exchange that got a record has taken it, live and with the binding presented. -/
lemma traces_consumeCode {input : AuthHandoffStore.ConsumeInput} {nowEpochMs : Timestamp}
    {pairIssued : Bool} (hcall : calls t = .exchange input nowEpochMs pairIssued) :
    Traces (handoffProtocol settings calls) t []
      (AuthHandoffStore.consume settings input nowEpochMs) fun found rs' =>
        ∀ metadata, found = some metadata →
          nowEpochMs < metadata.expiresAtEpochMs ∧
          AuthHandoffStore.bindingMatches settings metadata input ∧
          ∃ raw, rs' = [.found (authHandoffKey settings input.code) raw,
            .consumed (authHandoffKey settings input.code) (.authHandoff metadata)] := by
  have hstep : ∀ rs value, (∀ metadata, value = .authHandoff metadata →
      metadata.expiresAtEpochMs ≤ nowEpochMs ∨
        AuthHandoffStore.bindingMatches settings metadata input) →
      handoffProtocol settings calls t rs
        (.consumed (authHandoffKey settings input.code) value) := by
    intro rs value hvalue
    unfold handoffProtocol
    rw [hcall]
    exact .codeTaken hvalue
  unfold AuthHandoffStore.consume
  apply traces_bind
  apply traces_getRaw
  intro raw
  refine ⟨.found, ?_⟩
  cases raw with
  | none => exact traces_ret (by simp)
  | some value =>
    cases value with
    | oauthState provider metadata' =>
      apply traces_bind
      apply traces_consumeIfExact
      · exact ⟨hstep _ _ (by simp), traces_ret (by simp)⟩
      · exact ⟨.missed, traces_ret (by simp)⟩
    | authHandoff metadata' =>
      unfold AuthHandoffStore.consumeFound
      dsimp only
      split
      · next hexpired =>
        apply traces_bind
        apply traces_consumeIfExact
        · refine ⟨hstep _ _ fun metadata heq => .inl ?_, traces_ret (by simp)⟩
          obtain rfl := RedisValue.authHandoff.inj heq
          exact hexpired
        · exact ⟨.missed, traces_ret (by simp)⟩
      · next hlive =>
        split
        · next hbound =>
          apply traces_bind
          apply traces_consumeIfExact
          · refine ⟨hstep _ _ fun metadata heq => .inr ?_, traces_ret fun metadata heq => ?_⟩
            · obtain rfl := RedisValue.authHandoff.inj heq
              exact hbound
            · obtain rfl : metadata' = metadata := by simpa using heq
              exact ⟨not_le.mp hlive, hbound, _, rfl⟩
          · exact ⟨.missed, traces_ret (by simp)⟩
        · exact traces_ret (by simp)

lemma traces_exchange {input : AuthHandoffStore.ConsumeInput} {nowEpochMs : Timestamp}
    {pairIssued : Bool} (hcall : calls t = .exchange input nowEpochMs pairIssued) :
    Traces (handoffProtocol settings calls) t []
      (exchangeAuthHandoff settings input nowEpochMs pairIssued) fun _ _ => True := by
  apply traces_bind
  apply traces_mono _ (traces_consumeCode hcall)
  intro found rs' hfound
  cases found with
  | none => exact traces_raise
  | some metadata =>
    obtain ⟨hlive, hbound, raw, rfl⟩ := hfound metadata rfl
    cases pairIssued with
    | false => exact traces_raise
    | true =>
      refine traces_note ⟨?_, trivial⟩
      unfold handoffProtocol
      rw [hcall]
      exact .pairReturned (by simp) hlive hbound (by simp [RecordReport.isNoted])

theorem handoff_traces (settings : HandoffSettings) (calls : ℕ → HandoffCall) (t : ℕ) :
    Traces (handoffProtocol settings calls) t [] ((calls t).prog settings) fun _ _ => True := by
  cases hcall : calls t with
  | oauthStart provider input states =>
    exact traces_bind (traces_mono (fun _ _ _ => traces_ret trivial) (traces_oauthStart hcall))
  | oauthCallback provider code state resolved nowEpochMs codes =>
    exact traces_bind (traces_mono (fun _ _ _ => traces_ret trivial) (traces_oauthCallback hcall))
  | login input handoff seen nowEpochMs codes =>
    exact traces_bind (traces_mono (fun _ _ _ => traces_ret trivial) (traces_login hcall))
  | confirmEmailVerification confirmed nowEpochMs codes =>
    exact traces_bind (traces_mono (fun _ _ _ => traces_ret trivial)
      (traces_confirmEmailVerification hcall))
  | exchange input nowEpochMs pairIssued => exact traces_exchange hcall
  | expire key =>
    apply traces_expire
    unfold handoffProtocol
    rw [hcall]
    exact ⟨.expired, trivial⟩

/-! ## What the protocol gives -/

lemma handoff_storesDrawn (settings : HandoffSettings) (calls : ℕ → HandoffCall) :
    StoresDrawn (handoffProtocol settings calls) fun t => (calls t).draws settings := by
  intro t rs key value hstep
  unfold handoffProtocol at hstep
  dsimp only
  generalize calls t = call at hstep ⊢
  generalize hreport : RecordReport.stored key value = report at hstep
  cases hstep with
  | stateStored client_eq redirect redirect_mem drawn once =>
    obtain ⟨rfl, -⟩ := RecordReport.stored.inj hreport
    exact ⟨List.mem_map_of_mem drawn, once⟩
  | codeStored signedIn drawn once =>
    obtain ⟨rfl, -⟩ := RecordReport.stored.inj hreport
    exact ⟨drawn, once⟩
  | _ => cases hreport

/-- A callback that presented a state of the key stores a code. -/
def storesForState (settings : HandoffSettings) (calls : ℕ → HandoffCall) (key : RedisKey)
    (t : ℕ) (report : RedisReport) : Bool :=
  match calls t, report with
  | .oauthCallback _ _ state _ _ _, .stored _ _ => oauthStateKey settings state = key
  | _, _ => false

/-- An exchange that presented a code of the key returns a pair. -/
def returnsForCode (settings : HandoffSettings) (calls : ℕ → HandoffCall) (key : RedisKey)
    (t : ℕ) (report : RedisReport) : Bool :=
  match calls t, report with
  | .exchange input _ _, .noted _ => authHandoffKey settings input.code = key
  | _, _ => false

lemma storesForState_isStored {key : RedisKey} {report : RedisReport}
    (h : storesForState settings calls key t report = true) : report.isStored = true := by
  unfold storesForState at h
  split at h
  · rfl
  · simp at h

lemma returnsForCode_isNoted {key : RedisKey} {report : RedisReport}
    (h : returnsForCode settings calls key t report = true) : report.isNoted = true := by
  unfold returnsForCode at h
  split at h
  · rfl
  · simp at h

lemma HandoffStep.taken_of_storesForState {key : RedisKey} {report : RedisReport}
    (hstep : HandoffStep settings (calls t) rs report)
    (h : storesForState settings calls key t report = true) :
    (∃ r ∈ rs, r.consumes key = true) ∧
      ∀ r ∈ rs, storesForState settings calls key t r = false := by
  have hnone : (∀ r ∈ rs, r.isStored = false) →
      ∀ r ∈ rs, storesForState settings calls key t r = false := by
    intro honce r hr
    by_contra hstores
    have h' := storesForState_isStored (by simpa using hstores)
    exact absurd (h'.symm.trans (honce r hr)) (by simp)
  unfold storesForState at h
  split at h
  · next provider code state resolved nowEpochMs codes stored value hcall =>
    obtain rfl : oauthStateKey settings state = key := by simpa using h
    rw [hcall] at hstep
    cases hstep with
    | codeStored signedIn drawn once =>
      cases signedIn with
      | callback taken challenge client_eq =>
        exact ⟨⟨_, taken, by simp [RecordReport.consumes]⟩, hnone once⟩
  · simp at h

lemma HandoffStep.taken_of_returnsForCode {key : RedisKey} {report : RedisReport}
    (hstep : HandoffStep settings (calls t) rs report)
    (h : returnsForCode settings calls key t report = true) :
    (∃ r ∈ rs, r.consumes key = true) ∧
      ∀ r ∈ rs, returnsForCode settings calls key t r = false := by
  have hnone : (∀ r ∈ rs, r.isNoted = false) →
      ∀ r ∈ rs, returnsForCode settings calls key t r = false := by
    intro honce r hr
    by_contra hreturns
    have h' := returnsForCode_isNoted (by simpa using hreturns)
    exact absurd (h'.symm.trans (honce r hr)) (by simp)
  unfold returnsForCode at h
  split at h
  · next input nowEpochMs pairIssued n hcall =>
    obtain rfl : authHandoffKey settings input.code = key := by simpa using h
    rw [hcall] at hstep
    cases hstep with
    | pairReturned taken live bound once =>
      exact ⟨⟨_, taken, by simp [RecordReport.consumes]⟩, hnone once⟩
  · simp at h

abbrev RedisLog : Type := Log (records RedisKey RedisValue HandoffNote Error)

/-- Process `t₀` stored the record for a flow that is recorded as it was started. -/
inductive FlowStarted (settings : HandoffSettings) (calls : ℕ → HandoffCall) (prior : RedisLog)
    (t₀ : ℕ) : StoredAuthHandoffMetadata → Prop
  | login {input : LoginInput} {handoff : ClientHandoff} {seen : LoginSeen}
      {nowEpochMs : Timestamp} {codes : List String} {client : RelyingClientPolicy}
      {c : PasswordCredentialRecord}
      (call : calls t₀ = .login input handoff seen nowEpochMs codes)
      (client_eq : settings.authClients handoff.clientId = some client)
      (redirect_mem : handoff.redirectUri ∈ client.allowedRedirectUris)
      (credential : seen.credential = some c) (active : c.userStatus = .active)
      (verified : settings.verifyPassword c.passwordHash input.password = true) :
      FlowStarted settings calls prior t₀
        ⟨handoff.clientId, client.audience, handoff.redirectUri, c.userId, .password,
          handoff.codeChallenge, handoff.state, nowEpochMs + authHandoffTtlMs, none⟩
  | confirmation {userId : String} {handoff : ClientHandoff} {nowEpochMs : Timestamp}
      {codes : List String}
      (call : calls t₀ = .confirmEmailVerification (.ok (userId, some handoff)) nowEpochMs codes) :
      FlowStarted settings calls prior t₀
        ⟨handoff.clientId, handoff.audience, handoff.redirectUri, userId, .password,
          handoff.codeChallenge, handoff.state, nowEpochMs + authHandoffTtlMs, none⟩
  | oauth {t₁ : ℕ} {provider : OAuthProvider} {code state started userId : String}
      {nowEpochMs : Timestamp} {codes states : List String} {input : OAuthStartInput}
      {client : RelyingClientPolicy} {redirectUri codeChallenge : String}
      (callback : calls t₀ = .oauthCallback provider code state (.ok userId) nowEpochMs codes)
      (start : calls t₁ = .oauthStart provider input states) (drawn : started ∈ states)
      (presented : oauthStateKey settings state = oauthStateKey settings started)
      (stored : .stored (oauthStateKey settings started) (.oauthState provider
        ⟨input.clientId, redirectUri, input.callerState, input.codeChallenge, some "S256"⟩) ∈
          prior.reports t₁)
      (client_eq : settings.authClients input.clientId = some client)
      (redirect : startRedirectUri input client = some redirectUri)
      (redirect_mem : redirectUri ∈ client.allowedRedirectUris)
      (challenge : input.codeChallenge = some codeChallenge) :
      FlowStarted settings calls prior t₀
        ⟨input.clientId, client.audience, redirectUri, userId, .oauth, codeChallenge,
          input.callerState, nowEpochMs + authHandoffTtlMs, some provider.text⟩

/-- A pair goes to a caller that presents what the flow of the code has recorded, in time,
and it is for the user and the audience recorded. -/
structure PairEntitled (settings : HandoffSettings) (calls : ℕ → HandoffCall) (prior : RedisLog)
    (t : ℕ) (input : AuthHandoffStore.ConsumeInput) (nowEpochMs : Timestamp)
    (t₀ : ℕ) (metadata : StoredAuthHandoffMetadata) (userId audience : String) : Prop where
  call : calls t = .exchange input nowEpochMs true
  stored : .stored (authHandoffKey settings input.code) (.authHandoff metadata) ∈ prior.reports t₀
  flow : FlowStarted settings calls prior t₀ metadata
  clientId : input.clientId = metadata.clientId
  redirectUri : input.redirectUri = metadata.redirectUri
  codeVerifier : settings.sha256Base64Url input.codeVerifier = metadata.codeChallenge
  live : nowEpochMs < metadata.expiresAtEpochMs
  user : userId = metadata.userId
  audience : audience = metadata.audience

abbrev HandoffLog (settings : HandoffSettings) (calls : ℕ → HandoffCall) (log : RedisLog) : Prop :=
  log.Valid (recordGuarantee Error (handoffProtocol settings calls))

/-- A state record was stored by the start of its flow. -/
lemma HandoffStep.started {call : HandoffCall} {key : RedisKey} {provider : OAuthProvider}
    {metadata : OAuthStateMetadata}
    (hstep : HandoffStep settings call rs (.stored key (.oauthState provider metadata))) :
    ∃ input states client redirectUri state, call = .oauthStart provider input states ∧
      state ∈ states ∧ key = oauthStateKey settings state ∧
      settings.authClients input.clientId = some client ∧
      startRedirectUri input client = some redirectUri ∧
      redirectUri ∈ client.allowedRedirectUris ∧
      metadata = ⟨input.clientId, redirectUri, input.callerState, input.codeChallenge,
        some "S256"⟩ := by
  generalize hreport : RecordReport.stored key (RedisValue.oauthState provider metadata) =
    report at hstep
  cases hstep with
  | @stateStored provider' input states _ client redirectUri state client_eq redirect mem drawn _ =>
    obtain ⟨rfl, hvalue⟩ := RecordReport.stored.inj hreport
    obtain ⟨rfl, rfl⟩ := RedisValue.oauthState.inj hvalue
    exact ⟨input, states, client, redirectUri, state, rfl, drawn, rfl, client_eq, redirect, mem,
      rfl⟩
  | codeStored signedIn drawn once =>
    exact absurd (RecordReport.stored.inj hreport).2 (by simp)
  | _ => cases hreport

/-- A handoff record was stored by the call its user signed in with. -/
lemma HandoffStep.signedIn {call : HandoffCall} {key : RedisKey}
    {metadata : StoredAuthHandoffMetadata}
    (hstep : HandoffStep settings call rs (.stored key (.authHandoff metadata))) :
    SignedIn settings call rs metadata := by
  cases hstep with
  | codeStored signedIn drawn once => exact signedIn

lemma flowStarted_of_signedIn {prior : RedisLog} (hv : HandoffLog settings calls prior) {t₀ : ℕ}
    {metadata : StoredAuthHandoffMetadata}
    (h : SignedIn settings (calls t₀) (prior.reports t₀) metadata) :
    FlowStarted settings calls prior t₀ metadata := by
  generalize hrs : prior.reports t₀ = rs at h
  generalize hcall : calls t₀ = call at h
  cases h with
  | login client_eq redirect_mem credential active verified =>
    exact .login hcall client_eq redirect_mem credential active verified
  | confirmation => exact .confirmation hcall
  | callback taken challenge client_eq =>
    obtain ⟨t₁, hstored⟩ := stored_of_consumed hv (hrs ▸ taken)
    obtain ⟨_, -, -, -, hstep⟩ := protocol_of_mem hv hstored
    obtain ⟨input, states, client, redirectUri, started, hstart, hdrawn, hkey, hclient, hredirect,
      hmem, rfl⟩ := hstep.started
    obtain rfl := Option.some.inj (hclient.symm.trans client_eq)
    exact .oauth hcall hstart hdrawn hkey (hkey ▸ hstored) hclient hredirect hmem challenge

lemma FlowStarted.mono {prior log : RedisLog} (hle : prior.Precedes log) {t₀ : ℕ}
    {metadata : StoredAuthHandoffMetadata} (h : FlowStarted settings calls prior t₀ metadata) :
    FlowStarted settings calls log t₀ metadata := by
  cases h with
  | login call client_eq redirect_mem credential active verified =>
    exact .login call client_eq redirect_mem credential active verified
  | confirmation call => exact .confirmation call
  | oauth callback start drawn presented stored client_eq redirect redirect_mem challenge =>
    exact .oauth callback start drawn presented (mem_reports_of_precedes hle stored) client_eq
      redirect redirect_mem challenge

lemma pairEntitled_of_step {prior : RedisLog} (hv : HandoffLog settings calls prior)
    {userId audience : String}
    (hstep : HandoffStep settings (calls t) (prior.reports t)
      (.noted (.pairReturned userId audience))) :
    ∃ input nowEpochMs t₀ metadata,
      PairEntitled settings calls prior t input nowEpochMs t₀ metadata userId audience := by
  generalize hrs : prior.reports t = rs at hstep
  generalize hcall : calls t = call at hstep
  cases hstep with
  | @pairReturned input nowEpochMs _ metadata taken live bound once =>
    obtain ⟨t₀, hstored⟩ := stored_of_consumed hv (hrs ▸ taken)
    obtain ⟨before, hvalid, hle, -, hstep⟩ := protocol_of_mem hv hstored
    have hflow := flowStarted_of_signedIn hvalid hstep.signedIn
    obtain ⟨hclient, hredirect, hchallenge⟩ := bound
    exact ⟨input, nowEpochMs, t₀, metadata, hcall, hstored, hflow.mono hle, hclient.symm,
      hredirect.symm, hchallenge.symm, live, rfl, rfl⟩

/-- An attempt with a wrong binding does not take a live record. -/
lemma lookup_of_wrongBinding {ext : AList fun _ : RedisKey => RedisValue} {report : RedisReport}
    {input : AuthHandoffStore.ConsumeInput} {nowEpochMs : Timestamp} {pairIssued : Bool}
    {metadata : StoredAuthHandoffMetadata}
    (hcall : calls t = .exchange input nowEpochMs pairIssued) (hfits : report.Fits ext)
    (hstep : HandoffStep settings (calls t) rs report)
    (hfound : ext.lookup (authHandoffKey settings input.code) = some (.authHandoff metadata))
    (hlive : nowEpochMs < metadata.expiresAtEpochMs)
    (hwrong : ¬ AuthHandoffStore.bindingMatches settings metadata input) :
    (report.apply ext).lookup (authHandoffKey settings input.code) =
      some (.authHandoff metadata) := by
  by_contra hne
  rw [hcall] at hstep
  rcases RecordReport.removed_of_lookup_ne hfits hfound hne with rfl | rfl
  · generalize authHandoffKey settings input.code = key at hstep
    cases hstep with
    | codeTaken entitled =>
      rcases entitled metadata rfl with hexpired | hbound
      · exact absurd hexpired (not_le.mpr hlive)
      · exact absurd hbound hwrong
  · cases hstep

end WiseacctSso.AuthState
