import WiseacctSso.OidcProtocol

/-!
# Safety and provenance of the OIDC code flow

Every transaction gives one code and every code one token response. The response goes back
to the request that began its transaction, through a call that came with the browser of
the transaction and authenticated the user; a record is only removed by its own party.
-/
namespace WiseacctSso.OidcState
open ReadCommitted OneTimeRecords OidcState.OidcService
open AuthState (OAuthProvider)

abbrev OidcLog : Type := Log (records OidcKey OidcValue TokenResponse Error)

abbrev OidcRecords : Type := AList fun _ : OidcKey => OidcValue

variable {settings : OidcSettings} {calls : ℕ → OidcCall} {t : ℕ} {rs : List OidcReport}

abbrev OidcGuaranteed (settings : OidcSettings) (calls : ℕ → OidcCall) (log : OidcLog) : Prop :=
  log.Valid (recordGuarantee Error (oidcProtocol settings calls))

lemma oidc_storesDrawn (settings : OidcSettings) (calls : ℕ → OidcCall) :
    StoresDrawn (oidcProtocol settings calls) fun t => (calls t).draws settings := by
  intro t rs key value hstep
  unfold oidcProtocol at hstep
  dsimp only
  generalize calls t = call at hstep ⊢
  generalize hreport : RecordReport.stored key value = report at hstep
  cases hstep with
  | transactionStored record_eq drawn once =>
    obtain ⟨rfl, -⟩ := RecordReport.stored.inj hreport
    exact ⟨List.mem_map.mpr ⟨_, drawn, rfl⟩, once⟩
  | providerStateStored valid drawn once =>
    obtain ⟨rfl, -⟩ := RecordReport.stored.inj hreport
    exact ⟨List.mem_map.mpr ⟨_, drawn, rfl⟩, once⟩
  | codeStored presented taken bound authenticated completion drawn once =>
    obtain ⟨rfl, -⟩ := RecordReport.stored.inj hreport
    refine ⟨?_, once⟩
    cases call with
    | passwordLogin input seen clock completion' =>
      obtain rfl := Option.some.inj completion
      exact List.mem_map.mpr ⟨_, drawn, rfl⟩
    | providerCallback input seen clock completion' =>
      obtain rfl := Option.some.inj completion
      exact List.mem_map.mpr ⟨_, drawn, rfl⟩
    | _ => simp [OidcCall.completion] at completion
  | accessTokenStored drawn once =>
    obtain ⟨rfl, -⟩ := RecordReport.stored.inj hreport
    exact ⟨List.mem_map.mpr ⟨_, drawn, rfl⟩, once⟩
  | _ => cases hreport

/-! ## Once -/

/-- A call that presented a transaction of the key stores a code. -/
def storesForTransaction (settings : OidcSettings) (calls : ℕ → OidcCall) (key : OidcKey)
    (t : ℕ) (report : OidcReport) : Bool :=
  match (calls t).transaction, report with
  | some (transactionId, _), .stored (.code _) _ =>
      oidcTransactionKey settings transactionId = key
  | _, _ => false

/-- An exchange that presented a code of the key returns a token response. -/
def respondsForCode (settings : OidcSettings) (calls : ℕ → OidcCall) (key : OidcKey)
    (t : ℕ) (report : OidcReport) : Bool :=
  match calls t, report with
  | .exchangeCode input _, .noted _ => oidcAuthorizationCodeKey settings input.code = key
  | _, _ => false

lemma storesForTransaction_isStored {key : OidcKey} {report : OidcReport}
    (h : storesForTransaction settings calls key t report = true) : report.isStored = true := by
  unfold storesForTransaction at h
  split at h
  · rfl
  · simp at h

lemma respondsForCode_isNoted {key : OidcKey} {report : OidcReport}
    (h : respondsForCode settings calls key t report = true) : report.isNoted = true := by
  unfold respondsForCode at h
  split at h
  · rfl
  · simp at h

lemma OidcStep.taken_of_storesForTransaction {key : OidcKey} {report : OidcReport}
    (hstep : OidcStep settings (calls t) rs report)
    (h : storesForTransaction settings calls key t report = true) :
    (∃ r ∈ rs, r.consumes key = true) ∧
      ∀ r ∈ rs, storesForTransaction settings calls key t r = false := by
  have hnone : (∀ r ∈ rs, r.isStored = false) →
      ∀ r ∈ rs, storesForTransaction settings calls key t r = false := by
    intro honce r hr
    by_contra hstores
    have h' := storesForTransaction_isStored (by simpa using hstores)
    exact absurd (h'.symm.trans (honce r hr)) (by simp)
  unfold storesForTransaction at h
  split at h
  · next transactionId _ code stored hcall =>
    obtain rfl : oidcTransactionKey settings transactionId = key := by simpa using h
    generalize hreport : RecordReport.stored (OidcKey.code code) stored = report at hstep
    generalize calls t = call at hstep hcall
    cases hstep with
    | codeStored presented taken bound authenticated completion drawn once =>
      obtain ⟨rfl, -⟩ := Prod.mk.inj (Option.some.inj (hcall.symm.trans presented))
      exact ⟨⟨_, taken, by simp [RecordReport.consumes]⟩, hnone once⟩
    | transactionStored record_eq drawn once =>
      exact absurd (RecordReport.stored.inj hreport).1 (by simp [oidcTransactionKey])
    | providerStateStored valid drawn once =>
      exact absurd (RecordReport.stored.inj hreport).1 (by simp [oidcProviderStateKey])
    | accessTokenStored drawn once =>
      exact absurd (RecordReport.stored.inj hreport).1 (by simp [oidcAccessTokenKey])
    | _ => cases hreport
  · simp at h

lemma OidcStep.taken_of_respondsForCode {key : OidcKey} {report : OidcReport}
    (hstep : OidcStep settings (calls t) rs report)
    (h : respondsForCode settings calls key t report = true) :
    (∃ r ∈ rs, r.consumes key = true) ∧
      ∀ r ∈ rs, respondsForCode settings calls key t r = false := by
  have hnone : (∀ r ∈ rs, r.isNoted = false) →
      ∀ r ∈ rs, respondsForCode settings calls key t r = false := by
    intro honce r hr
    by_contra hresponds
    have h' := respondsForCode_isNoted (by simpa using hresponds)
    exact absurd (h'.symm.trans (honce r hr)) (by simp)
  unfold respondsForCode at h
  split at h
  · next input seen n hcall =>
    obtain rfl : oidcAuthorizationCodeKey settings input.code = key := by simpa using h
    rw [hcall] at hstep
    cases hstep with
    | tokenIssued client_authenticated taken owned granted once =>
      exact ⟨⟨_, taken, by simp [RecordReport.consumes]⟩, hnone once⟩
  · simp at h

/-! ## Provenance -/

/-- Process `t₂` began the transaction with a request whose client had registered the
redirect URI. -/
structure Begun (settings : OidcSettings) (calls : ℕ → OidcCall) (prior : OidcLog) (t₂ : ℕ)
    (key : OidcKey) (request : AuthorizationRequest) (draws : AuthorizationDraws)
    (client : OidcClientPolicy) (transaction : OidcAuthorizationTransaction) : Prop where
  call : calls t₂ = .beginAuthorization request draws
  stored : .stored key (.transaction transaction) ∈ prior.reports t₂
  registered : settings.clients request.clientId = some client
  redirect_mem : request.redirectUri ∈ client.redirectUris
  clientId : transaction.clientId = request.clientId
  redirectUri : transaction.redirectUri = request.redirectUri
  scopes : parseRequestedScopes settings (" ".intercalate request.scopes) client.allowedScopes =
    some transaction.scopes
  nonce : transaction.nonce = request.nonce
  codeChallenge : transaction.codeChallenge = request.codeChallenge
  binding : transaction.browserBindingHash =
    settings.oidcSecretDigest draws.browserBinding.text

/-- Process `t₁` took the transaction with a binding of the same digest, authenticated the user
and stored the code. -/
structure Completed (settings : OidcSettings) (calls : ℕ → OidcCall) (prior : OidcLog) (t₁ : ℕ)
    (key : OidcKey) (transactionId browserBinding userId : String)
    (transaction : OidcAuthorizationTransaction) (code : StoredOidcAuthorizationCode) :
    Prop where
  stored : .stored key (.code code) ∈ prior.reports t₁
  presented : ∃ clock, (calls t₁).transaction = some (transactionId, browserBinding, clock)
  taken : .consumed (oidcTransactionKey settings transactionId) (.transaction transaction) ∈
    prior.reports t₁
  binding : transaction.browserBindingHash = settings.oidcSecretDigest browserBinding
  authenticated : Authenticated settings (calls t₁) userId
  code_eq : ∃ expiresAtEpochMs, code = ⟨transaction.clientId, transaction.redirectUri, userId,
    transaction.scopes, transaction.nonce, transaction.codeChallenge,
    transaction.codeChallengeMethod, expiresAtEpochMs⟩

/-- What stands behind a token response: the exchange that got it, the call that completed the
authorization and the request that began it. -/
structure TokenEntitled (settings : OidcSettings) (calls : ℕ → OidcCall) (prior : OidcLog)
    (t : ℕ) (response : TokenResponse) (input : TokenExchangeInput) (client : OidcClientPolicy)
    (t₁ : ℕ) (transactionId browserBinding : String) (t₂ : ℕ) (request : AuthorizationRequest)
    (draws : AuthorizationDraws) : Prop where
  exchange : ∃ seen, calls t = .exchangeCode input seen
  client_authenticated : ClientAuthenticated settings input client
  clientId : response.clientId = input.clientId
  redirectUri : response.redirectUri = input.redirectUri
  completed : ∃ transaction code, Completed settings calls prior t₁
    (oidcAuthorizationCodeKey settings input.code) transactionId browserBinding response.userId
    transaction code
  begun : ∃ transaction, Begun settings calls prior t₂
    (oidcTransactionKey settings transactionId) request draws client transaction
  sameBrowser : settings.oidcSecretDigest browserBinding =
    settings.oidcSecretDigest draws.browserBinding.text
  requested : request.clientId = response.clientId ∧ request.redirectUri = response.redirectUri ∧
    request.nonce = response.nonce ∧
    parseRequestedScopes settings (" ".intercalate request.scopes) client.allowedScopes =
      some response.scopes
  pkce : request.codeChallenge.isSome = true ∨ client.requirePkce = true →
    ∃ verifier challenge, input.codeVerifier = some verifier ∧
      request.codeChallenge = some challenge ∧ settings.s256 verifier = challenge

lemma authorizationRecord_ok {request : AuthorizationRequest} {draws : AuthorizationDraws}
    {record : OidcAuthorizationTransaction}
    (h : authorizationRecord settings request draws = .ok record) :
    ∃ client scopes, settings.clients request.clientId = some client ∧
      request.redirectUri ∈ client.redirectUris ∧
      parseRequestedScopes settings (" ".intercalate request.scopes) client.allowedScopes =
        some scopes ∧
      record = ⟨request.clientId, request.redirectUri, scopes, request.state, request.nonce,
        request.codeChallenge, request.codeChallenge.map fun _ => "S256",
        settings.oidcSecretDigest draws.browserBinding.text,
        settings.oidcSecretDigest draws.csrfToken.text, draws.now + oidcTransactionTtlMs⟩ := by
  unfold authorizationRecord at h
  cases hclient : settings.clients request.clientId with
  | none => simp [hclient] at h
  | some client =>
    simp only [hclient] at h
    split at h
    · simp at h
    next hmem =>
    split at h
    · simp at h
    split at h
    · simp at h
    split at h
    · simp at h
    cases hscopes : parseRequestedScopes settings (" ".intercalate request.scopes)
        client.allowedScopes with
    | none => simp [hscopes] at h
    | some scopes =>
      simp only [hscopes] at h
      split at h
      · simp at h
      · refine ⟨client, scopes, rfl, not_not.mp hmem, hscopes, ?_⟩
        rw [← settings.clients_keyed _ _ hclient]
        exact (Except.ok.inj h).symm

/-- A transaction record was stored by the request that began it. -/
lemma begun_of_stored {prior : OidcLog} (hv : OidcGuaranteed settings calls prior) {t₂ : ℕ}
    {key : OidcKey} {transaction : OidcAuthorizationTransaction}
    (h : .stored key (.transaction transaction) ∈ prior.reports t₂) :
    ∃ request draws client, Begun settings calls prior t₂ key request draws client transaction := by
  obtain ⟨before, -, -, -, hstep⟩ := protocol_of_mem hv h
  unfold oidcProtocol at hstep
  generalize hcall : calls t₂ = call at hstep
  generalize hreport : RecordReport.stored key (OidcValue.transaction transaction) = report at hstep
  cases hstep with
  | @transactionStored request draws _ record token record_eq drawn once =>
    obtain ⟨-, hvalue⟩ := RecordReport.stored.inj hreport
    obtain rfl := OidcValue.transaction.inj hvalue
    obtain ⟨client, scopes, hclient, hmem, hscopes, rfl⟩ := authorizationRecord_ok record_eq
    exact ⟨request, draws, client, hcall, h, hclient, hmem, rfl, rfl, hscopes, rfl, rfl, rfl⟩
  | codeStored => exact absurd (RecordReport.stored.inj hreport).2 (by simp)
  | providerStateStored => exact absurd (RecordReport.stored.inj hreport).2 (by simp)
  | accessTokenStored => exact absurd (RecordReport.stored.inj hreport).2 (by simp)
  | _ => cases hreport

/-- A code record was stored by the call that completed its authorization. -/
lemma completed_of_stored {prior : OidcLog} (hv : OidcGuaranteed settings calls prior) {t₁ : ℕ}
    {key : OidcKey} {code : StoredOidcAuthorizationCode}
    (h : .stored key (.code code) ∈ prior.reports t₁) :
    ∃ transactionId browserBinding userId transaction, Completed settings calls prior t₁ key
      transactionId browserBinding userId transaction code := by
  obtain ⟨before, -, hle, -, hstep⟩ := protocol_of_mem hv h
  unfold oidcProtocol at hstep
  generalize hcall : calls t₁ = call at hstep
  generalize hreport : RecordReport.stored key (OidcValue.code code) = report at hstep
  generalize hrs : before.reports t₁ = rs at hstep
  cases hstep with
  | @codeStored _ _ transactionId browserBinding clock transaction userId seen token presented taken
      bound authenticated completion drawn once =>
    obtain ⟨-, hvalue⟩ := RecordReport.stored.inj hreport
    obtain rfl := OidcValue.code.inj hvalue
    exact ⟨transactionId, browserBinding, userId, transaction, h, ⟨clock, hcall ▸ presented⟩,
      mem_reports_of_precedes hle (hrs ▸ taken), bound, hcall ▸ authenticated, _, rfl⟩
  | transactionStored => exact absurd (RecordReport.stored.inj hreport).2 (by simp)
  | providerStateStored => exact absurd (RecordReport.stored.inj hreport).2 (by simp)
  | accessTokenStored => exact absurd (RecordReport.stored.inj hreport).2 (by simp)
  | _ => cases hreport

/-- The verifier is the one of the challenge wherever a challenge was sent or is required. -/
lemma pkce_of_grantMatches {client : OidcClientPolicy} {input : TokenExchangeInput}
    {stored : StoredOidcAuthorizationCode}
    (h : grantMatches settings client input stored = true) :
    stored.redirectUri = input.redirectUri ∧
      (stored.codeChallenge.isSome = true ∨ client.requirePkce = true →
        ∃ verifier challenge, input.codeVerifier = some verifier ∧
          stored.codeChallenge = some challenge ∧ settings.s256 verifier = challenge) := by
  simp only [grantMatches, Bool.and_eq_true, decide_eq_true_eq] at h
  refine ⟨h.1, fun hneed => ?_⟩
  have hcheck := h.2
  cases hchallenge : stored.codeChallenge with
  | none =>
    simp only [hchallenge, Bool.and_eq_true, Bool.not_eq_true'] at hcheck
    simp [hchallenge, hcheck.1] at hneed
  | some challenge =>
    simp only [hchallenge, Bool.and_eq_true] at hcheck
    obtain ⟨verifier, hverifier⟩ := Option.isSome_iff_exists.mp hcheck.1
    rw [hverifier] at hcheck
    simp only [verifyPkce, Bool.and_eq_true, decide_eq_true_eq] at hcheck
    exact ⟨verifier, challenge, hverifier, rfl, hcheck.2.2⟩

lemma tokenEntitled_of_step {prior : OidcLog} (hv : OidcGuaranteed settings calls prior)
    {response : TokenResponse}
    (hstep : OidcStep settings (calls t) (prior.reports t) (.noted response)) :
    ∃ input client t₁ transactionId browserBinding t₂ request draws, TokenEntitled settings calls
      prior t response input client t₁ transactionId browserBinding t₂ request draws := by
  generalize hrs : prior.reports t = rs at hstep
  generalize hcall : calls t = call at hstep
  cases hstep with
  | @tokenIssued input seen _ client code client_authenticated taken owned granted once =>
    obtain ⟨t₁, hcode⟩ := stored_of_consumed hv (hrs ▸ taken)
    obtain ⟨transactionId, browserBinding, userId, transaction, hcompleted⟩ :=
      completed_of_stored hv hcode
    obtain ⟨t₂, htransaction⟩ := stored_of_consumed hv hcompleted.taken
    obtain ⟨request, draws, client', hbegun⟩ := begun_of_stored hv htransaction
    obtain ⟨expiresAtEpochMs, rfl⟩ := hcompleted.code_eq
    obtain ⟨hredirect, hpkce⟩ := pkce_of_grantMatches granted
    have hclientId : request.clientId = input.clientId := hbegun.clientId.symm.trans owned
    obtain rfl : client = client' := Option.some.inj
      (client_authenticated.registered.symm.trans (hclientId ▸ hbegun.registered))
    refine ⟨input, client, t₁, transactionId, browserBinding, t₂, request, draws, ⟨seen, hcall⟩,
      client_authenticated, rfl, hredirect, ⟨transaction, _, hcompleted⟩, ⟨transaction, hbegun⟩,
      hcompleted.binding.symm.trans hbegun.binding,
      ⟨hclientId, hbegun.redirectUri.symm, hbegun.nonce.symm, hbegun.scopes⟩, ?_⟩
    rw [← hbegun.codeChallenge]
    exact hpkce

/-! ## Removal -/

/-- A transaction is removed by its expiry or by a call that presents it, with the browser of
the transaction, and for a callback with a provider state of the right provider. -/
def TransactionKept (settings : OidcSettings) (calls : ℕ → OidcCall) (prior : OidcLog) (t : ℕ)
    (report : OidcReport) (ext : OidcRecords) : Prop :=
  ∀ key record, prior.ext.lookup key = some (.transaction record) →
    ext.lookup key ≠ some (.transaction record) → report = .expired key ∨
    ∃ transactionId browserBinding clock,
      (calls t).transaction = some (transactionId, browserBinding, clock) ∧
      key = oidcTransactionKey settings transactionId ∧
      Provided settings (calls t) (prior.reports t) ∧
      ((∃ n, record.expiresAtEpochMs ≤ clock n) ∨
        record.browserBindingHash = settings.oidcSecretDigest browserBinding)

/-- The state that a provider start has handed out with the record under this key. -/
structure HandedOut (settings : OidcSettings) (calls : ℕ → OidcCall) (prior : OidcLog)
    (key : OidcKey) (record : OidcProviderState) (state : String) : Prop where
  started : ∃ t₀ transactionId binding₀ provider₀ clock₀ randoms token,
    calls t₀ = .providerStart transactionId binding₀ provider₀ clock₀ randoms ∧
    .stored key (.providerState record) ∈ prior.reports t₀ ∧
    state = providerStateText transactionId token
  key_eq : key = oidcProviderStateKey settings state
  named : providerStateTransactionId state = some record.transactionId

/-- A provider state is removed by its expiry or by a callback that presents the state handed
out with it, of its provider and from its browser (or another state of the same digest). -/
def ProviderStateKept (settings : OidcSettings) (calls : ℕ → OidcCall) (prior : OidcLog) (t : ℕ)
    (report : OidcReport) (ext : OidcRecords) : Prop :=
  ∀ key record, prior.ext.lookup key = some (.providerState record) →
    ext.lookup key ≠ some (.providerState record) → report = .expired key ∨
    ∃ input clock state, (calls t).callback = some (input, clock) ∧
      HandedOut settings calls prior key record state ∧
      key = oidcProviderStateKey settings input.state ∧
      (record.expiresAtEpochMs ≤ clock 2 ∨ input.state ≠ state ∨
        record.provider = input.provider ∧
          record.browserBindingHash = settings.oidcSecretDigest input.browserBinding)

/-- A code is removed by its expiry, by the call that drew it, or by an exchange of its client
with the client's secret. -/
def CodeKept (settings : OidcSettings) (calls : ℕ → OidcCall) (prior : OidcLog) (t : ℕ)
    (report : OidcReport) (ext : OidcRecords) : Prop :=
  ∀ key record, prior.ext.lookup key = some (.code record) →
    ext.lookup key ≠ some (.code record) → report = .expired key ∨
    key ∈ (calls t).draws settings ∨
    ∃ input seen client, calls t = .exchangeCode input seen ∧
      key = oidcAuthorizationCodeKey settings input.code ∧
      ClientAuthenticated settings input client ∧
      (record.expiresAtEpochMs ≤ seen.now ∨ record.clientId = input.clientId)

/-- A token response is one its caller is entitled to. -/
def RespondsEntitled (settings : OidcSettings) (calls : ℕ → OidcCall) (prior : OidcLog) (t : ℕ)
    (report : OidcReport) (_ : OidcRecords) : Prop :=
  ∀ response, report = .noted response →
    ∃ input client t₁ transactionId browserBinding t₂ request draws, TokenEntitled settings calls
      prior t response input client t₁ transactionId browserBinding t₂ request draws

/-- A key names the kind of record that is stored under it. -/
def OidcKey.holds : OidcKey → OidcValue → Bool
  | .transaction _, .transaction _ => true
  | .providerState _, .providerState _ => true
  | .code _, .code _ => true
  | .accessToken _, .accessToken _ => true
  | _, _ => false

section removal

variable {prior : OidcLog} {report : OidcReport}

lemma holds_of_lookup (hv : OidcGuaranteed settings calls prior) {key : OidcKey}
    {value : OidcValue} (h : prior.ext.lookup key = some value) : key.holds value = true := by
  obtain ⟨t, hstored⟩ := stored_of_lookup hv h
  obtain ⟨before, -, -, -, hstep⟩ := protocol_of_mem hv hstored
  unfold oidcProtocol at hstep
  generalize calls t = call at hstep
  cases hstep <;> rfl

lemma transactionKept_of_step (hv : OidcGuaranteed settings calls prior)
    (hfresh : FreshDraws fun t => (calls t).draws settings) (hfits : report.Fits prior.ext)
    (hstep : OidcStep settings (calls t) (prior.reports t) report) :
    TransactionKept settings calls prior t report (report.apply prior.ext) := by
  intro key record hlookup hne
  have hkind := holds_of_lookup hv hlookup
  rcases RecordReport.removed_of_lookup_ne hfits hlookup hne with rfl | rfl
  · refine .inr ?_
    generalize hrs : prior.reports t = rs at hstep ⊢
    generalize hcall : calls t = call at hstep ⊢
    generalize hvalue : OidcValue.transaction record = value at hstep
    cases hstep with
    | @transactionTaken _ _ transactionId browserBinding clock _ presented provided entitled =>
      exact ⟨transactionId, browserBinding, clock, presented, rfl, provided,
        entitled record hvalue.symm⟩
    | @transactionDiscarded _ _ transactionId browserBinding clock _ record' presented provided
        read expired =>
      obtain ⟨t₁, hstored⟩ := stored_of_found hv (hrs ▸ read)
      obtain ⟨t₂, hstored'⟩ := stored_of_lookup hv hlookup
      have hsame := stored_unique hv (oidc_storesDrawn settings calls) hfresh hstored hstored'
      obtain rfl := OidcValue.transaction.inj hsame
      exact ⟨transactionId, browserBinding, clock, presented, rfl, provided, .inl ⟨1, expired⟩⟩
    | _ => exact absurd hkind (by simp [OidcKey.holds, oidcProviderStateKey,
        oidcAuthorizationCodeKey, oidcAccessTokenKey])
  · exact .inl rfl

/-- The state text names its transaction. -/
lemma providerStateTransactionId_text {transactionId : String} {token : RandomToken}
    (hvalid : isOpaqueValue transactionId.toList = true) :
    providerStateTransactionId (providerStateText transactionId token) = some transactionId := by
  have hlength : transactionId.toList.length = 43 := by
    simp only [isOpaqueValue, Bool.and_eq_true, decide_eq_true_eq] at hvalid
    exact hvalid.1
  have hchars : (providerStateText transactionId token).toList =
      transactionId.toList ++ '.' :: token.text.toList := by
    simp [providerStateText, String.toList_append]
  have htake : (transactionId.toList ++ '.' :: token.text.toList).take 43 =
      transactionId.toList := List.take_left' hlength
  have hdot : (transactionId.toList ++ '.' :: token.text.toList)[43]? = some '.' := by
    rw [List.getElem?_append_right (by omega), hlength]
    rfl
  have hdrop : (transactionId.toList ++ '.' :: token.text.toList).drop 44 =
      token.text.toList := by
    rw [List.drop_append, hlength, List.drop_eq_nil_of_le (by omega)]
    rfl
  unfold providerStateTransactionId
  simp only [hchars, htake, hdot, hdrop, hvalid, token.valid, String.ofList_toList, Bool.and_self,
    decide_true, if_true]

/-- A provider state was stored by the start that handed it out. -/
lemma handedOut_of_stored (hv : OidcGuaranteed settings calls prior) {t₀ : ℕ} {key : OidcKey}
    {record : OidcProviderState}
    (h : .stored key (.providerState record) ∈ prior.reports t₀) :
    ∃ state, HandedOut settings calls prior key record state := by
  obtain ⟨before, -, -, -, hstep⟩ := protocol_of_mem hv h
  unfold oidcProtocol at hstep
  generalize hcall : calls t₀ = call at hstep
  generalize hreport : RecordReport.stored key (OidcValue.providerState record) = report at hstep
  cases hstep with
  | providerStateStored valid drawn once =>
    obtain ⟨rfl, hvalue⟩ := RecordReport.stored.inj hreport
    obtain rfl := OidcValue.providerState.inj hvalue
    exact ⟨_, ⟨_, _, _, _, _, _, _, hcall, h, rfl⟩, rfl, providerStateTransactionId_text valid⟩
  | transactionStored => exact absurd (RecordReport.stored.inj hreport).2 (by simp)
  | codeStored => exact absurd (RecordReport.stored.inj hreport).2 (by simp)
  | accessTokenStored => exact absurd (RecordReport.stored.inj hreport).2 (by simp)
  | _ => cases hreport

lemma providerStateKept_of_step (hv : OidcGuaranteed settings calls prior)
    (hfits : report.Fits prior.ext)
    (hstep : OidcStep settings (calls t) (prior.reports t) report) :
    ProviderStateKept settings calls prior t report (report.apply prior.ext) := by
  intro key record hlookup hne
  have hkind := holds_of_lookup hv hlookup
  obtain ⟨t₀, hstored⟩ := stored_of_lookup hv hlookup
  obtain ⟨state, hhanded⟩ := handedOut_of_stored hv hstored
  rcases RecordReport.removed_of_lookup_ne hfits hlookup hne with rfl | rfl
  · refine .inr ?_
    generalize prior.reports t = rs at hstep
    generalize calls t = call at hstep ⊢
    generalize hvalue : OidcValue.providerState record = value at hstep
    cases hstep with
    | @providerStateTaken _ _ input clock _ presented entitled =>
      refine ⟨input, clock, state, presented, hhanded, rfl, ?_⟩
      rcases entitled record hvalue.symm with hexpired | hother | hbound
      · exact .inl hexpired
      · exact .inr (.inl fun heq => hother (heq ▸ hhanded.named))
      · exact .inr (.inr hbound)
    | _ => exact absurd hkind (by simp [OidcKey.holds, oidcTransactionKey,
        oidcAuthorizationCodeKey, oidcAccessTokenKey])
  · exact .inl rfl

lemma codeKept_of_step (hv : OidcGuaranteed settings calls prior) (hfits : report.Fits prior.ext)
    (hstep : OidcStep settings (calls t) (prior.reports t) report) :
    CodeKept settings calls prior t report (report.apply prior.ext) := by
  intro key record hlookup hne
  have hkind := holds_of_lookup hv hlookup
  rcases RecordReport.removed_of_lookup_ne hfits hlookup hne with rfl | rfl
  · refine .inr ?_
    generalize prior.reports t = rs at hstep
    generalize calls t = call at hstep ⊢
    generalize hvalue : OidcValue.code record = value at hstep
    cases hstep with
    | codeDiscarded completion drawn =>
      refine .inl ?_
      cases call with
      | passwordLogin input seen clock completion' =>
        obtain rfl := Option.some.inj completion
        exact List.mem_map.mpr ⟨_, drawn, rfl⟩
      | providerCallback input seen clock completion' =>
        obtain rfl := Option.some.inj completion
        exact List.mem_map.mpr ⟨_, drawn, rfl⟩
      | _ => simp [OidcCall.completion] at completion
    | @codeTaken input seen _ client _ client_authenticated entitled =>
      exact .inr ⟨input, seen, client, rfl, rfl, client_authenticated, entitled record hvalue.symm⟩
    | _ => exact absurd hkind (by simp [OidcKey.holds, oidcTransactionKey, oidcProviderStateKey,
        oidcAccessTokenKey])
  · exact .inl rfl

end removal

theorem oidc_code_flow_safe (settings : OidcSettings) (calls : ℕ → OidcCall)
    (hfresh : FreshDraws fun t => (calls t).draws settings)
    (acts : List (Act (records OidcKey OidcValue TokenResponse Error)))
    (sys : System (records OidcKey OidcValue TokenResponse Error))
    (hrun : oidcRun settings calls acts = some sys) :
    (∀ transactionId, sys.shared.log.tally
      (storesForTransaction settings calls (oidcTransactionKey settings transactionId)) ≤ 1) ∧
    (∀ code, sys.shared.log.tally
      (respondsForCode settings calls (oidcAuthorizationCodeKey settings code)) ≤ 1) ∧
    sys.shared.log.Calls (RespondsEntitled settings calls) ∧
    sys.shared.log.Calls (TransactionKept settings calls) ∧
    sys.shared.log.Calls (ProviderStateKept settings calls) ∧
    sys.shared.log.Calls (CodeKept settings calls) := by
  have hv : OidcGuaranteed settings calls sys.shared.log :=
    recordRun_valid (oidc_traces settings calls) hrun
  have hdrawn := oidc_storesDrawn settings calls
  refine ⟨fun transactionId => ?_, fun code => ?_, ?_, ?_, ?_, ?_⟩
  · exact once_after_consumed hv hdrawn hfresh _
      fun _ _ _ hstep hp => OidcStep.taken_of_storesForTransaction hstep hp
  · exact once_after_consumed hv hdrawn hfresh _
      fun _ _ _ hstep hp => OidcStep.taken_of_respondsForCode hstep hp
  · refine hv.calls fun prior t report ext hprior hcall response hreport => ?_
    subst hreport
    exact tokenEntitled_of_step hprior hcall.2.2
  · refine hv.calls fun prior t report ext hprior hcall => ?_
    obtain ⟨hfits, rfl, hstep⟩ := hcall
    exact transactionKept_of_step hprior hfresh hfits hstep
  · refine hv.calls fun prior t report ext hprior hcall => ?_
    obtain ⟨hfits, rfl, hstep⟩ := hcall
    exact providerStateKept_of_step hprior hfits hstep
  · refine hv.calls fun prior t report ext hprior hcall => ?_
    obtain ⟨hfits, rfl, hstep⟩ := hcall
    exact codeKept_of_step hprior hfits hstep

/-! ## A login at one client -/

/-- One client that requires PKCE; hashes leave text as it is. -/
def wikiSettings : OidcSettings where
  verifyPassword passwordHash password := passwordHash = password
  oidcSecretDigest := id
  s256 := id
  split value := [value]
  clients clientId := if clientId = "wiki" then
    some ⟨"wiki", "secret", ["https://wiki.example/callback"], ["openid"], true⟩ else none
  clients_keyed clientId client h := by
    split at h
    · next hid => rw [← Option.some.inj h, hid]
    · simp at h
  providerError _ := none
  oauthClient := true

def wikiTransaction : RandomToken := ⟨"ttttttttttttttttttttttttttttttttttttttttttt", by decide⟩

def wikiBrowser : RandomToken := ⟨"bbbbbbbbbbbbbbbbbbbbbbbbbbbbbbbbbbbbbbbbbbb", by decide⟩

def wikiCode : RandomToken := ⟨"kkkkkkkkkkkkkkkkkkkkkkkkkkkkkkkkkkkkkkkkkkk", by decide⟩

def wikiVerifier : String := "vvvvvvvvvvvvvvvvvvvvvvvvvvvvvvvvvvvvvvvvvvv"

/-- The start of an authorization, a password login and the exchange of its code. -/
def wikiLogin : ℕ → OidcCall
  | 0 => .beginAuthorization ⟨"wiki", "https://wiki.example/callback", "code", ["openid"], none,
      some "nonce", some wikiVerifier, some "S256", none⟩
      ⟨wikiCode, wikiBrowser, [wikiTransaction], 0⟩
  | 1 => .passwordLogin ⟨wikiTransaction.text, wikiBrowser.text, wikiCode.text,
      ⟨"alice@example.com", "password"⟩⟩
      ⟨some ⟨"alice", "alice@example.com", "password", 0, none, .active⟩, 0⟩ (fun _ => 1000)
      ⟨true, 1000, [wikiCode], true⟩
  | 2 => .exchangeCode ⟨"wiki", "secret", "authorization_code", wikiCode.text,
      "https://wiki.example/callback", some wikiVerifier⟩
      ⟨true, true, 2000, 2000, [wikiTransaction], true⟩
  | _ => .expire (.code "")

lemma wikiLogin_fresh : FreshDraws fun t => (wikiLogin t).draws wikiSettings := by
  have hlater : ∀ t key, key ∉ (wikiLogin (t + 3)).draws wikiSettings := by
    intro t key
    simp [wikiLogin, OidcCall.draws]
  have h₀ : ∀ key ∈ (wikiLogin 0).draws wikiSettings, ∃ d, key = .transaction d := by
    simp [wikiLogin, OidcCall.draws, oidcTransactionKey]
  have h₁ : ∀ key ∈ (wikiLogin 1).draws wikiSettings, ∃ d, key = .code d := by
    simp [wikiLogin, OidcCall.draws, oidcAuthorizationCodeKey]
  have h₂ : ∀ key ∈ (wikiLogin 2).draws wikiSettings, ∃ d, key = .accessToken d := by
    simp [wikiLogin, OidcCall.draws, oidcAccessTokenKey]
  intro t t' key h h'
  match t, t' with
  | 0, 0 => rfl
  | 1, 1 => rfl
  | 2, 2 => rfl
  | t + 3, _ => exact absurd h (hlater t key)
  | _, t' + 3 => exact absurd h' (hlater t' key)
  | 0, 1 => obtain ⟨_, rfl⟩ := h₀ key h; simpa using h₁ _ h'
  | 0, 2 => obtain ⟨_, rfl⟩ := h₀ key h; simpa using h₂ _ h'
  | 1, 0 => obtain ⟨_, rfl⟩ := h₁ key h; simpa using h₀ _ h'
  | 1, 2 => obtain ⟨_, rfl⟩ := h₁ key h; simpa using h₂ _ h'
  | 2, 0 => obtain ⟨_, rfl⟩ := h₂ key h; simpa using h₀ _ h'
  | 2, 1 => obtain ⟨_, rfl⟩ := h₂ key h; simpa using h₁ _ h'

def wikiActs : List (Act (records OidcKey OidcValue TokenResponse Error)) :=
  [.call 0, .step 0 [], .call 1, .step 1 [], .step 1 [], .step 1 [], .step 1 [],
    .call 2, .step 2 [], .step 2 [], .step 2 [], .step 2 []]

theorem wikiLogin_safe : ∃ sys, oidcRun wikiSettings wikiLogin wikiActs = some sys ∧
    .noted ⟨"wiki", "https://wiki.example/callback", "alice", ["openid"], some "nonce"⟩ ∈
      sys.shared.log.reports 2 ∧
    sys.shared.log.Calls (RespondsEntitled wikiSettings wikiLogin) := by
  have hsome : (oidcRun wikiSettings wikiLogin wikiActs).any (fun sys =>
      .noted ⟨"wiki", "https://wiki.example/callback", "alice", ["openid"], some "nonce"⟩ ∈
        sys.shared.log.reports 2) = true := by decide
  obtain ⟨sys, hrun, hsys⟩ := (Option.any_eq_true _ _).mp hsome
  have hsafe := oidc_code_flow_safe wikiSettings wikiLogin wikiLogin_fresh wikiActs sys hrun
  exact ⟨sys, hrun, of_decide_eq_true hsys, hsafe.2.2.1⟩

end WiseacctSso.OidcState
