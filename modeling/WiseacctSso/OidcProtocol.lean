import WiseacctSso.OidcServices

/-!
# The protocol of the OIDC code flow

A transaction is taken before its code is stored, and a code is taken before its token
response is returned; a record is only taken by a call it is bound to, unless it has
expired.
-/
namespace WiseacctSso.OidcState
open ReadCommitted OneTimeRecords OidcState.OidcService
open AuthState (OAuthProvider)

section protocol

variable (settings : OidcSettings)

/-- The transaction a call presents, with its browser binding and its clock. -/
def OidcCall.transaction : OidcCall → Option (String × String × (ℕ → Timestamp))
  | passwordLogin input _ clock _ => some (input.transactionId, input.browserBinding, clock)
  | providerStart transactionId browserBinding _ clock _ =>
      some (transactionId, browserBinding, clock)
  | providerCallback input _ clock _ =>
      (providerStateTransactionId input.state).map fun id => (id, input.browserBinding, clock)
  | providerError input clock =>
      (providerStateTransactionId input.state).map fun id => (id, input.browserBinding, clock)
  | _ => none

/-- The provider state a call presents. -/
def OidcCall.callback : OidcCall → Option (CallbackInput × (ℕ → Timestamp))
  | providerCallback input _ clock _ => some (input, clock)
  | providerError input clock => some (input, clock)
  | _ => none

def OidcCall.completion : OidcCall → Option CompletionSeen
  | passwordLogin _ _ _ completion => some completion
  | providerCallback _ _ _ completion => some completion
  | _ => none

/-- The caller knew the password of an ACTIVE user, or came with a provider identity that is
linked to the user. -/
inductive Authenticated : OidcCall → String → Prop
  | password {input : PasswordLoginInput} {seen : LoginSeen} {clock : ℕ → Timestamp}
      {completion : CompletionSeen} {c : PasswordCredentialRecord}
      (credential : seen.credential = some c) (active : c.userStatus = .active)
      (verified : settings.verifyPassword c.passwordHash input.login.password = true) :
      Authenticated (.passwordLogin input seen clock completion) c.userId
  | provider {input : CallbackInput} {seen : ProfileSeen} {clock : ℕ → Timestamp}
      {completion : CompletionSeen} {userId : String} (fetched : seen.fetched = .ok ())
      (linked : seen.linkedUserId = some userId) :
      Authenticated (.providerCallback input seen clock completion) userId

/-- The client of an exchange knew its secret. -/
structure ClientAuthenticated (input : TokenExchangeInput) (client : OidcClientPolicy) : Prop where
  registered : settings.clients input.clientId = some client
  verified : settings.verifyPassword client.clientSecretHash input.clientSecret = true

/-- A callback has taken a provider state of its provider and its browser. -/
def Provided (call : OidcCall) (rs : List OidcReport) : Prop :=
  ∀ input clock, call.callback = some (input, clock) → ∃ providerState,
    .consumed (oidcProviderStateKey settings input.state) (.providerState providerState) ∈ rs ∧
    providerState.provider = input.provider ∧
    providerState.browserBindingHash = settings.oidcSecretDigest input.browserBinding

/-- What a call may report after what it has reported. -/
inductive OidcStep : OidcCall → List OidcReport → OidcReport → Prop
  | found {call : OidcCall} {rs : List OidcReport} {key : OidcKey} {raw : Option OidcValue} :
      OidcStep call rs (.found key raw)
  | refused {call : OidcCall} {rs : List OidcReport} {key : OidcKey} :
      OidcStep call rs (.refused key)
  | missed {call : OidcCall} {rs : List OidcReport} {key : OidcKey} :
      OidcStep call rs (.missed key)
  | transactionStored {request : AuthorizationRequest} {draws : AuthorizationDraws}
      {rs : List OidcReport} {record : OidcAuthorizationTransaction} {token : RandomToken}
      (record_eq : authorizationRecord settings request draws = .ok record)
      (drawn : token ∈ draws.transactionIds) (once : ∀ r ∈ rs, r.isStored = false) :
      OidcStep (.beginAuthorization request draws) rs
        (.stored (oidcTransactionKey settings token.text) (.transaction record))
  | providerStateStored {transactionId browserBinding : String} {provider : OAuthProvider}
      {clock : ℕ → Timestamp} {randoms : List RandomToken} {rs : List OidcReport}
      {token : RandomToken} (valid : isOpaqueValue transactionId.toList = true)
      (drawn : token ∈ randoms) (once : ∀ r ∈ rs, r.isStored = false) :
      OidcStep (.providerStart transactionId browserBinding provider clock randoms) rs
        (.stored (oidcProviderStateKey settings (providerStateText transactionId token))
          (.providerState ⟨provider, transactionId, settings.oidcSecretDigest browserBinding,
            clock 2 + oidcProviderStateTtlMs⟩))
  | codeStored {call : OidcCall} {rs : List OidcReport} {transactionId browserBinding : String}
      {clock : ℕ → Timestamp} {transaction : OidcAuthorizationTransaction} {userId : String}
      {seen : CompletionSeen} {token : RandomToken}
      (presented : call.transaction = some (transactionId, browserBinding, clock))
      (taken :
        .consumed (oidcTransactionKey settings transactionId) (.transaction transaction) ∈ rs)
      (bound : transaction.browserBindingHash = settings.oidcSecretDigest browserBinding)
      (authenticated : Authenticated settings call userId)
      (completion : call.completion = some seen) (drawn : token ∈ seen.codes)
      (once : ∀ r ∈ rs, r.isStored = false) :
      OidcStep call rs (.stored (oidcAuthorizationCodeKey settings token.text)
        (.code ⟨transaction.clientId, transaction.redirectUri, userId, transaction.scopes,
          transaction.nonce, transaction.codeChallenge, transaction.codeChallengeMethod,
          seen.now + oidcAuthorizationCodeTtlMs⟩))
  | codeDiscarded {call : OidcCall} {rs : List OidcReport} {seen : CompletionSeen}
      {token : RandomToken} {value : OidcValue} (completion : call.completion = some seen)
      (drawn : token ∈ seen.codes) :
      OidcStep call rs (.consumed (oidcAuthorizationCodeKey settings token.text) value)
  | accessTokenStored {input : TokenExchangeInput} {seen : ExchangeSeen} {rs : List OidcReport}
      {record : StoredOidcAccessToken} {token : RandomToken} (drawn : token ∈ seen.accessTokens)
      (once : ∀ r ∈ rs, r.isStored = false) :
      OidcStep (.exchangeCode input seen) rs
        (.stored (oidcAccessTokenKey settings token.text) (.accessToken record))
  | accessTokenRevoked {call : OidcCall} {rs : List OidcReport} {token : RandomToken}
      {value : OidcValue} :
      OidcStep call rs (.consumed (oidcAccessTokenKey settings token.text) value)
  | transactionTaken {call : OidcCall} {rs : List OidcReport}
      {transactionId browserBinding : String} {clock : ℕ → Timestamp} {value : OidcValue}
      (presented : call.transaction = some (transactionId, browserBinding, clock))
      (provided : Provided settings call rs)
      (entitled : ∀ record, value = .transaction record →
        (∃ n, record.expiresAtEpochMs ≤ clock n) ∨
          record.browserBindingHash = settings.oidcSecretDigest browserBinding) :
      OidcStep call rs (.consumed (oidcTransactionKey settings transactionId) value)
  | transactionDiscarded {call : OidcCall} {rs : List OidcReport}
      {transactionId browserBinding : String} {clock : ℕ → Timestamp} {value : OidcValue}
      {record : OidcAuthorizationTransaction}
      (presented : call.transaction = some (transactionId, browserBinding, clock))
      (provided : Provided settings call rs)
      (read : .found (oidcTransactionKey settings transactionId) (some (.transaction record)) ∈ rs)
      (expired : record.expiresAtEpochMs ≤ clock 1) :
      OidcStep call rs (.consumed (oidcTransactionKey settings transactionId) value)
  | providerStateTaken {call : OidcCall} {rs : List OidcReport} {input : CallbackInput}
      {clock : ℕ → Timestamp} {value : OidcValue} (presented : call.callback = some (input, clock))
      (entitled : ∀ record, value = .providerState record →
        record.expiresAtEpochMs ≤ clock 2 ∨
          providerStateTransactionId input.state ≠ some record.transactionId ∨
          record.provider = input.provider ∧
            record.browserBindingHash = settings.oidcSecretDigest input.browserBinding) :
      OidcStep call rs (.consumed (oidcProviderStateKey settings input.state) value)
  | codeTaken {input : TokenExchangeInput} {seen : ExchangeSeen} {rs : List OidcReport}
      {client : OidcClientPolicy} {value : OidcValue}
      (client_authenticated : ClientAuthenticated settings input client)
      (entitled : ∀ record, value = .code record →
        record.expiresAtEpochMs ≤ seen.now ∨ record.clientId = input.clientId) :
      OidcStep (.exchangeCode input seen) rs
        (.consumed (oidcAuthorizationCodeKey settings input.code) value)
  | tokenIssued {input : TokenExchangeInput} {seen : ExchangeSeen} {rs : List OidcReport}
      {client : OidcClientPolicy} {stored : StoredOidcAuthorizationCode}
      (client_authenticated : ClientAuthenticated settings input client)
      (taken : .consumed (oidcAuthorizationCodeKey settings input.code) (.code stored) ∈ rs)
      (owned : stored.clientId = input.clientId)
      (granted : grantMatches settings client input stored = true)
      (once : ∀ r ∈ rs, r.isNoted = false) :
      OidcStep (.exchangeCode input seen) rs (.noted ⟨input.clientId, stored.redirectUri,
        stored.userId, stored.scopes, stored.nonce⟩)
  | expired {key : OidcKey} {rs : List OidcReport} : OidcStep (.expire key) rs (.expired key)

def oidcProtocol (calls : ℕ → OidcCall) : Protocol OidcKey OidcValue TokenResponse :=
  fun t rs report => OidcStep settings (calls t) rs report

end protocol

variable {settings : OidcSettings} {calls : ℕ → OidcCall} {t : ℕ} {rs : List OidcReport}

/-! ## Reading and taking records -/

/-- Nothing has been stored or noted. -/
def Quiet (rs : List OidcReport) : Prop := ∀ r ∈ rs, r.isStored = false ∧ r.isNoted = false

lemma quiet_nil : Quiet [] := by simp [Quiet]

lemma Quiet.stored (h : Quiet rs) : ∀ r ∈ rs, r.isStored = false := fun r hr => (h r hr).1

/-- More has been reported, but nothing stored or noted. -/
structure Grown (rs rs' : List OidcReport) : Prop where
  quiet : Quiet rs'
  subset : rs ⊆ rs'

lemma Grown.trans {rs' rs'' : List OidcReport} (h : Grown rs rs') (h' : Grown rs' rs'') :
    Grown rs rs'' := ⟨h'.quiet, List.Subset.trans h.subset h'.subset⟩

lemma Quiet.concat (h : Quiet rs) {report : OidcReport} (hstored : report.isStored = false)
    (hnoted : report.isNoted = false) : Grown rs (rs ++ [report]) := by
  refine ⟨fun r hr => ?_, List.subset_append_left _ _⟩
  rcases List.mem_append.mp hr with hr | hr
  · exact h r hr
  · obtain rfl := List.mem_singleton.mp hr
    exact ⟨hstored, hnoted⟩

lemma stored_of_refused (h : Quiet rs) (taken : List OidcKey) :
    ∀ r ∈ rs ++ taken.map RecordReport.refused, r.isStored = false := by
  intro r hr
  rcases List.mem_append.mp hr with hr | hr
  · exact h.stored r hr
  · obtain ⟨key, -, rfl⟩ := List.mem_map.mp hr
    rfl

/-- What the check of a record says of the value it is parsed from. -/
def Entitled {R : Type} (parse : OidcValue → Option R) (stale bound : R → Bool)
    (raw : OidcValue) : Prop :=
  ∀ record, parse raw = some record → stale record = true ∨ bound record = true

variable {R : Type} {key : OidcKey} {parse : OidcValue → Option R} {stale bound : R → Bool}

lemma traces_drop {raw : OidcValue} {α : Type} {Q : Option α → List OidcReport → Prop}
    (hquiet : Quiet rs) (htake : OidcStep settings (calls t) rs (.consumed key raw))
    (hQ : ∀ rs', Grown rs rs' → Q none rs') :
    Traces (oidcProtocol settings calls) t rs
      ((consumeIfExact key raw).bind fun _ => (.ret none : OidcProg (Option α))) Q := by
  apply traces_bind
  apply traces_consumeIfExact
  · exact ⟨htake, traces_ret (hQ _ (hquiet.concat rfl rfl))⟩
  · exact ⟨.missed, traces_ret (hQ _ (hquiet.concat rfl rfl))⟩

lemma traces_readLive (hquiet : Quiet rs)
    (htake : ∀ rs' raw, rs ⊆ rs' → Entitled parse stale bound raw →
      OidcStep settings (calls t) rs' (.consumed key raw)) :
    Traces (oidcProtocol settings calls) t rs (readLive key parse stale bound)
      fun result rs' => Grown rs rs' ∧ ∀ raw record, result = some (raw, record) →
        .found key (some raw) ∈ rs' ∧ parse raw = some record ∧ stale record = false ∧
        bound record = true := by
  unfold readLive
  apply traces_bind
  apply traces_getRaw
  intro raw
  refine ⟨.found, ?_⟩
  have hgrown : Grown rs (rs ++ [.found key raw]) := hquiet.concat rfl rfl
  cases raw with
  | none => exact traces_ret ⟨hgrown, by simp⟩
  | some raw =>
    dsimp only
    cases hparse : parse raw with
    | none =>
      refine traces_drop hgrown.quiet (htake _ raw hgrown.subset ?_) fun rs' h =>
        ⟨hgrown.trans h, by simp⟩
      intro record hrecord
      simp [hparse] at hrecord
    | some record =>
      dsimp only
      split
      · next hstale =>
        refine traces_drop hgrown.quiet (htake _ raw hgrown.subset ?_) fun rs' h =>
          ⟨hgrown.trans h, by simp⟩
        intro record' hrecord
        obtain rfl := Option.some.inj (hparse.symm.trans hrecord)
        exact .inl hstale
      · next hstale =>
        refine traces_ret ⟨hgrown, fun raw' record' heq => ?_⟩
        split at heq
        · next hbound =>
          obtain ⟨rfl, rfl⟩ := Prod.mk.inj (Option.some.inj heq)
          exact ⟨by simp, hparse, by simpa using hstale, hbound⟩
        · simp at heq

lemma traces_takeLive (hquiet : Quiet rs)
    (htake : ∀ rs' raw, rs ⊆ rs' → Entitled parse stale bound raw →
      OidcStep settings (calls t) rs' (.consumed key raw)) :
    Traces (oidcProtocol settings calls) t rs (takeLive key parse stale bound)
      fun result rs' => Grown rs rs' ∧ ∀ record, result = some record →
        ∃ raw, .consumed key raw ∈ rs' ∧ parse raw = some record ∧ stale record = false ∧
        bound record = true := by
  unfold takeLive
  apply traces_bind
  apply traces_mono _ (traces_readLive hquiet htake)
  rintro (_ | ⟨raw, record⟩) rs' ⟨hgrown, hread⟩
  · exact traces_ret ⟨hgrown, by simp⟩
  · obtain ⟨-, hparse, hstale, hbound⟩ := hread raw record rfl
    have hentitled : Entitled parse stale bound raw := by
      intro record' hrecord
      obtain rfl := Option.some.inj (hparse.symm.trans hrecord)
      exact .inr hbound
    apply traces_bind
    apply traces_consumeIfExact
    · refine ⟨htake _ raw hgrown.subset hentitled, traces_ret
        ⟨hgrown.trans (hgrown.quiet.concat rfl rfl), fun record' heq => ?_⟩⟩
      obtain rfl : record = record' := by simpa using heq
      exact ⟨raw, by simp, hparse, hstale, hbound⟩
    · exact ⟨.missed, traces_ret ⟨hgrown.trans (hgrown.quiet.concat rfl rfl), by simp⟩⟩

lemma eq_transaction_of_parse {raw : OidcValue} {record : OidcAuthorizationTransaction}
    (h : raw.asTransaction = some record) : raw = .transaction record := by
  cases raw with
  | transaction record' => rw [Option.some.inj h]
  | _ => simp [OidcValue.asTransaction] at h

lemma eq_providerState_of_parse {raw : OidcValue} {record : OidcProviderState}
    (h : raw.asProviderState = some record) : raw = .providerState record := by
  cases raw with
  | providerState record' => rw [Option.some.inj h]
  | _ => simp [OidcValue.asProviderState] at h

lemma eq_code_of_parse {raw : OidcValue} {record : StoredOidcAuthorizationCode}
    (h : raw.asCode = some record) : raw = .code record := by
  cases raw with
  | code record' => rw [Option.some.inj h]
  | _ => simp [OidcValue.asCode] at h

/-! ## The calls keep the protocol -/

section transactions

variable {transactionId browserBinding : String} {clock : ℕ → Timestamp}

lemma Provided.mono {call : OidcCall} {rs' : List OidcReport} (h : Provided settings call rs)
    (hsub : rs ⊆ rs') : Provided settings call rs' := by
  intro input clock hcall
  obtain ⟨providerState, hmem, hbound⟩ := h input clock hcall
  exact ⟨providerState, hsub hmem, hbound⟩

lemma transactionTaken_of_entitled (n : ℕ)
    (hcall : (calls t).transaction = some (transactionId, browserBinding, clock))
    (hprovided : Provided settings (calls t) rs) :
    ∀ rs' raw, rs ⊆ rs' →
      Entitled OidcValue.asTransaction (fun record => record.expiresAtEpochMs ≤ clock n)
        (fun record => record.browserBindingHash = settings.oidcSecretDigest browserBinding) raw →
      OidcStep settings (calls t) rs'
        (.consumed (oidcTransactionKey settings transactionId) raw) := by
  intro rs' raw hsub hentitled
  refine .transactionTaken hcall (hprovided.mono hsub) fun record heq => ?_
  subst heq
  rcases hentitled record rfl with hstale | hbound
  · exact .inl ⟨n, by simpa using hstale⟩
  · exact .inr (by simpa using hbound)

/-- A transaction that was read is bound to the caller. -/
lemma traces_boundTransaction (hquiet : Quiet rs)
    (hcall : (calls t).transaction = some (transactionId, browserBinding, clock))
    (hprovided : Provided settings (calls t) rs) :
    Traces (oidcProtocol settings calls) t rs
      (boundTransaction settings transactionId browserBinding clock) fun _ rs' => Grown rs rs' := by
  unfold boundTransaction OidcAuthorizationTransactionStore.get
  apply traces_bind
  apply traces_bind
  apply traces_mono _ (traces_readLive hquiet (transactionTaken_of_entitled 0 hcall hprovided))
  rintro (_ | ⟨raw, record⟩) rs' ⟨hgrown, hread⟩
  · exact traces_ret traces_raise
  · obtain ⟨hfound, hparse, -, -⟩ := hread raw record rfl
    rw [eq_transaction_of_parse hparse] at hfound
    apply traces_ret
    dsimp only [Option.map]
    split
    · next hexpired =>
      apply traces_bind
      apply traces_bind
      apply traces_consume
      · exact fun value => ⟨.transactionDiscarded hcall (hprovided.mono hgrown.subset) hfound
        hexpired, traces_ret traces_raise⟩
      · exact ⟨.missed, traces_ret traces_raise⟩
    · exact traces_ret hgrown

/-- The transaction that is taken is the one that was read, bound to the caller. -/
lemma traces_consumeSame {n : ℕ} {transaction : OidcAuthorizationTransaction} (hquiet : Quiet rs)
    (hcall : (calls t).transaction = some (transactionId, browserBinding, clock))
    (hprovided : Provided settings (calls t) rs) :
    Traces (oidcProtocol settings calls) t rs
      (consumeSame settings transactionId browserBinding (clock n) transaction) fun _ rs' =>
        Grown rs rs' ∧
        .consumed (oidcTransactionKey settings transactionId) (.transaction transaction) ∈ rs' ∧
        transaction.browserBindingHash = settings.oidcSecretDigest browserBinding := by
  unfold consumeSame OidcAuthorizationTransactionStore.consume
  apply traces_bind
  apply traces_mono _ (traces_takeLive hquiet (transactionTaken_of_entitled n hcall hprovided))
  rintro result rs' ⟨hgrown, htaken⟩
  split
  · next heq =>
    obtain ⟨raw, hmem, hparse, -, hbound⟩ := htaken transaction heq
    rw [eq_transaction_of_parse hparse] at hmem
    exact traces_ret ⟨hgrown, hmem, by simpa using hbound⟩
  · exact traces_raise

lemma traces_completeAuthorization {userId : String} {transaction : OidcAuthorizationTransaction}
    {seen : CompletionSeen} (hquiet : Quiet rs)
    (hcall : (calls t).transaction = some (transactionId, browserBinding, clock))
    (htaken : .consumed (oidcTransactionKey settings transactionId) (.transaction transaction) ∈ rs)
    (hbound : transaction.browserBindingHash = settings.oidcSecretDigest browserBinding)
    (hauth : Authenticated settings (calls t) userId)
    (hcompletion : (calls t).completion = some seen) :
    Traces (oidcProtocol settings calls) t rs
      (completeAuthorization settings userId transaction seen) fun _ _ => True := by
  unfold completeAuthorization
  cases hclient : settings.clients transaction.clientId with
  | none => exact traces_raise
  | some client =>
    dsimp only
    rw [settings.clients_keyed _ _ hclient]
    split
    · exact traces_raise
    · unfold OidcAuthorizationCodeStore.create
      apply traces_bind
      split
      · apply traces_storeFresh
        · intro token htoken taken
          refine ⟨.codeStored hcall (List.mem_append_left _ htaken) hbound hauth hcompletion
            (List.mem_of_mem_take htoken) (stored_of_refused hquiet taken), ?_⟩
          split
          · exact traces_ret trivial
          · apply traces_bind
            apply traces_bind
            apply traces_consume
            · exact fun value => ⟨.codeDiscarded hcompletion
              (List.mem_of_mem_take htoken), traces_ret traces_raise⟩
            · exact ⟨.missed, traces_ret traces_raise⟩
        · exact fun _ _ _ => .refused
      · exact traces_raise

end transactions

lemma traces_authenticate {input : WiseacctSso.Phase5AuthService.LoginInput} {seen : LoginSeen} :
    Traces (oidcProtocol settings calls) t rs (authenticate settings input seen)
      fun userId rs' => rs' = rs ∧ ∃ c, seen.credential = some c ∧ c.userStatus = .active ∧
        settings.verifyPassword c.passwordHash input.password = true ∧ c.userId = userId := by
  unfold authenticate
  cases hc : seen.credential with
  | none => exact traces_raise
  | some c =>
    dsimp only
    split
    · next hlogin => exact traces_ret ⟨rfl, c, rfl, hlogin.1, hlogin.2.2, rfl⟩
    · exact traces_raise

lemma traces_passwordLogin {input : PasswordLoginInput} {seen : LoginSeen} {clock : ℕ → Timestamp}
    {completion : CompletionSeen} (hcall : calls t = .passwordLogin input seen clock completion) :
    Traces (oidcProtocol settings calls) t []
      (passwordLogin settings input seen clock completion) fun _ _ => True := by
  have hpresented : (calls t).transaction =
      some (input.transactionId, input.browserBinding, clock) := by rw [hcall]; rfl
  have hprovided : ∀ rs, Provided settings (calls t) rs := by
    intro rs input clock h
    simp [hcall, OidcCall.callback] at h
  apply traces_bind
  apply traces_mono _ (traces_boundTransaction quiet_nil hpresented (hprovided _))
  intro transaction rs hgrown
  split
  · exact traces_raise
  · apply traces_bind
    apply traces_mono _ traces_authenticate
    rintro userId _ ⟨rfl, c, hc, hactive, hverified, rfl⟩
    have hauth : Authenticated settings (calls t) c.userId :=
      hcall ▸ .password hc hactive hverified
    apply traces_bind
    apply traces_mono _ (traces_consumeSame hgrown.quiet hpresented (hprovided _))
    rintro _ rs' ⟨hgrown', htaken, hbound⟩
    exact traces_completeAuthorization hgrown'.quiet hpresented htaken hbound hauth
      (by rw [hcall]; rfl)

lemma OidcCall.transaction_of_callback {call : OidcCall} {input : CallbackInput}
    {clock : ℕ → Timestamp} (h : call.callback = some (input, clock)) :
    call.transaction =
      (providerStateTransactionId input.state).map fun id => (id, input.browserBinding, clock) := by
  cases call with
  | providerCallback input' seen clock' completion =>
    obtain ⟨rfl, rfl⟩ := Prod.mk.inj (Option.some.inj h)
    rfl
  | providerError input' clock' =>
    obtain ⟨rfl, rfl⟩ := Prod.mk.inj (Option.some.inj h)
    rfl
  | _ => simp [OidcCall.callback] at h

/-- The provider state that is taken names the transaction of the state presented. -/
lemma traces_consumeForProvider {input : CallbackInput} {clock : ℕ → Timestamp}
    (hcall : (calls t).callback = some (input, clock)) :
    Traces (oidcProtocol settings calls) t []
      (OidcProviderStateStore.consumeForProvider settings input.state input.provider
        input.browserBinding (clock 2)) fun result rs' => ∀ providerState,
          result = some providerState → Quiet rs' ∧ Provided settings (calls t) rs' ∧
            (calls t).transaction =
              some (providerState.transactionId, input.browserBinding, clock) := by
  have hpresented := OidcCall.transaction_of_callback hcall
  unfold OidcProviderStateStore.consumeForProvider
  cases hid : providerStateTransactionId input.state with
  | none => exact traces_ret (by simp)
  | some transactionId =>
    refine traces_mono ?_ (traces_takeLive quiet_nil fun rs raw _ hentitled => ?_)
    · rintro result rs' ⟨hgrown, htaken⟩ providerState heq
      obtain ⟨raw, hmem, hparse, hstale, hbound⟩ := htaken providerState heq
      rw [eq_providerState_of_parse hparse] at hmem
      have hprovided : Provided settings (calls t) rs' := by
        intro input' clock' hcall'
        obtain ⟨rfl, rfl⟩ := Prod.mk.inj (Option.some.inj (hcall.symm.trans hcall'))
        exact ⟨providerState, hmem, by simpa using hbound⟩
      have hsame : providerState.transactionId = transactionId := by
        simp only [Bool.or_eq_false_iff, decide_eq_false_iff_not, not_not] at hstale
        exact hstale.2
      rw [hpresented, hid, hsame]
      exact ⟨hgrown.quiet, hprovided, rfl⟩
    · refine .providerStateTaken hcall fun record heq => ?_
      subst heq
      rcases hentitled record rfl with hstale | hbound
      · simp only [Bool.or_eq_true, decide_eq_true_eq] at hstale
        rcases hstale with hexpired | hother
        · exact .inl hexpired
        · refine .inr (.inl ?_)
          rw [hid]
          exact fun hsame => hother (Option.some.inj hsame).symm
      · exact .inr (.inr (by simpa using hbound))

lemma traces_providerCallback {input : CallbackInput} {seen : ProfileSeen} {clock : ℕ → Timestamp}
    {completion : CompletionSeen}
    (hcall : calls t = .providerCallback input seen clock completion) :
    Traces (oidcProtocol settings calls) t []
      (providerCallback settings input seen clock completion) fun _ _ => True := by
  apply traces_bind
  apply traces_mono _ (traces_consumeForProvider (by rw [hcall]; rfl))
  rintro (_ | providerState) rs hstate
  · exact traces_raise
  obtain ⟨hquiet, hprovided, hpresented⟩ := hstate providerState rfl
  apply traces_bind
  apply traces_mono _ (traces_boundTransaction hquiet hpresented hprovided)
  intro transaction rs' hgrown
  split
  · exact traces_raise
  split
  · exact traces_raise
  cases settings.providerError input.provider with
  | some e => exact traces_raise
  | none =>
    cases hfetched : seen.fetched with
    | error e => exact traces_raise
    | ok _ =>
      apply traces_bind
      apply traces_mono _ (traces_consumeSame hgrown.quiet hpresented
        (hprovided.mono hgrown.subset))
      rintro _ rs'' ⟨hgrown', htaken, hbound⟩
      cases hlinked : seen.linkedUserId with
      | none => exact traces_raise
      | some userId =>
        have hauth : Authenticated settings (calls t) userId := hcall ▸ .provider hfetched hlinked
        exact traces_completeAuthorization hgrown'.quiet hpresented htaken hbound hauth
          (by rw [hcall]; rfl)

lemma traces_providerError {input : CallbackInput} {clock : ℕ → Timestamp}
    (hcall : calls t = .providerError input clock) :
    Traces (oidcProtocol settings calls) t [] (providerError settings input clock)
      fun _ _ => True := by
  apply traces_bind
  apply traces_mono _ (traces_consumeForProvider (by rw [hcall]; rfl))
  rintro (_ | providerState) rs hstate
  · exact traces_raise
  obtain ⟨hquiet, hprovided, hpresented⟩ := hstate providerState rfl
  apply traces_bind
  apply traces_mono _ (traces_takeLive hquiet (transactionTaken_of_entitled 0 hpresented hprovided))
  rintro (_ | transaction) rs' -
  · exact traces_raise
  · exact traces_raise

lemma traces_providerStart {transactionId browserBinding : String} {provider : OAuthProvider}
    {clock : ℕ → Timestamp} {randoms : List RandomToken}
    (hcall : calls t = .providerStart transactionId browserBinding provider clock randoms) :
    Traces (oidcProtocol settings calls) t []
      (providerStart settings transactionId browserBinding provider clock randoms)
      fun _ _ => True := by
  apply traces_bind
  have hprovided : Provided settings (calls t) [] := by
    intro input clock h
    simp [hcall, OidcCall.callback] at h
  apply traces_mono _ (traces_boundTransaction quiet_nil (by rw [hcall]; rfl) hprovided)
  intro transaction rs hgrown
  cases settings.providerError provider with
  | some e => exact traces_raise
  | none =>
    unfold OidcProviderStateStore.create
    dsimp only
    split
    · next hvalid =>
      simp only [Bool.and_eq_true] at hvalid
      apply traces_storeFresh
      · intro token htoken taken
        refine ⟨?_, trivial⟩
        unfold oidcProtocol
        rw [hcall]
        exact .providerStateStored hvalid.1.1 (List.mem_of_mem_take htoken)
          (stored_of_refused hgrown.quiet taken)
      · exact fun _ _ _ => .refused
    · exact traces_raise

lemma traces_beginAuthorization {request : AuthorizationRequest} {draws : AuthorizationDraws}
    (hcall : calls t = .beginAuthorization request draws) :
    Traces (oidcProtocol settings calls) t [] (beginAuthorization settings request draws)
      fun _ _ => True := by
  unfold beginAuthorization
  cases hrecord : authorizationRecord settings request draws with
  | error e => exact traces_raise
  | ok record =>
    unfold OidcAuthorizationTransactionStore.create
    dsimp only
    split
    · apply traces_storeFresh
      · intro token htoken taken
        refine ⟨?_, trivial⟩
        unfold oidcProtocol
        rw [hcall]
        exact .transactionStored hrecord (List.mem_of_mem_take htoken)
          (stored_of_refused quiet_nil taken)
      · exact fun _ _ _ => .refused
    · exact traces_raise

lemma traces_exchangeCode {input : TokenExchangeInput} {seen : ExchangeSeen}
    (hcall : calls t = .exchangeCode input seen) :
    Traces (oidcProtocol settings calls) t [] (exchangeCode settings input seen)
      fun _ _ => True := by
  unfold exchangeCode
  dsimp only
  split
  · exact traces_raise
  split
  · exact traces_raise
  cases hclient : settings.clients input.clientId with
  | none => exact traces_raise
  | some client =>
    dsimp only
    split
    · exact traces_raise
    next hsecret =>
    have hkeyed : client.clientId = input.clientId := settings.clients_keyed _ _ hclient
    have hauth : ClientAuthenticated settings input client := ⟨hclient, by simpa using hsecret⟩
    unfold OidcAuthorizationCodeStore.consumeForClient
    apply traces_bind
    refine traces_mono ?_ (traces_takeLive quiet_nil fun rs raw _ hentitled => ?_)
    · rintro (_ | stored) rs ⟨hgrown, htaken⟩
      · exact traces_raise
      obtain ⟨raw, hmem, hparse, -, howned⟩ := htaken stored rfl
      rw [eq_code_of_parse hparse] at hmem
      have howned : stored.clientId = input.clientId := by
        rw [← hkeyed]
        simpa using howned
      dsimp only
      split
      · exact traces_raise
      next hgranted =>
      have hgranted : grantMatches settings client input stored = true := by
        simp only [Bool.or_eq_true, Bool.not_eq_true', not_or, Bool.not_eq_false] at hgranted
        exact hgranted.1
      unfold OidcAccessTokenStore.create
      apply traces_bind
      split
      · apply traces_storeFresh
        · intro token htoken taken
          have hnoted : ∀ r ∈ rs ++ taken.map RecordReport.refused ++ [RecordReport.stored
              (oidcAccessTokenKey settings token.text) (.accessToken ⟨client.clientId,
                stored.userId, stored.scopes, seen.issuedAt + oidcAccessTokenTtlMs⟩)],
              r.isNoted = false := by
            intro r hr
            rcases List.mem_append.mp hr with hr | hr
            · rcases List.mem_append.mp hr with hr | hr
              · exact (hgrown.quiet r hr).2
              · obtain ⟨key, -, rfl⟩ := List.mem_map.mp hr
                rfl
            · obtain rfl := List.mem_singleton.mp hr
              rfl
          constructor
          · unfold oidcProtocol
            rw [hcall]
            exact .accessTokenStored (List.mem_of_mem_take htoken)
              (stored_of_refused hgrown.quiet taken)
          · split
            · apply traces_note
              unfold oidcProtocol
              rw [hcall, hkeyed]
              have hmem' : RecordReport.consumed (oidcAuthorizationCodeKey settings input.code)
                  (.code stored) ∈ rs ++ taken.map RecordReport.refused :=
                List.mem_append_left _ hmem
              exact ⟨.tokenIssued hauth (List.mem_append_left _ hmem') howned hgranted
                (hkeyed ▸ hnoted), trivial⟩
            · apply traces_bind
              apply traces_bind
              apply traces_consume
              · exact fun value => ⟨.accessTokenRevoked, traces_ret traces_raise⟩
              · exact ⟨.missed, traces_ret traces_raise⟩
        · exact fun _ _ _ => .refused
      · exact traces_raise
    · rw [hcall]
      refine .codeTaken hauth fun record heq => ?_
      subst heq
      rcases hentitled record rfl with hexpired | howned
      · exact .inl (by simpa using hexpired)
      · exact .inr (by rw [← hkeyed]; simpa using howned)

theorem oidc_traces (settings : OidcSettings) (calls : ℕ → OidcCall) (t : ℕ) :
    Traces (oidcProtocol settings calls) t [] ((calls t).prog settings) fun _ _ => True := by
  cases hcall : calls t with
  | beginAuthorization request draws =>
    exact traces_bind (traces_mono (fun _ _ _ => traces_ret trivial)
      (traces_beginAuthorization hcall))
  | passwordLogin input seen clock completion =>
    exact traces_bind (traces_mono (fun _ _ _ => traces_ret trivial) (traces_passwordLogin hcall))
  | providerStart transactionId browserBinding provider clock randoms =>
    exact traces_bind (traces_mono (fun _ _ _ => traces_ret trivial) (traces_providerStart hcall))
  | providerCallback input seen clock completion =>
    exact traces_bind (traces_mono (fun _ _ _ => traces_ret trivial)
      (traces_providerCallback hcall))
  | providerError input clock => exact traces_providerError hcall
  | exchangeCode input seen => exact traces_exchangeCode hcall
  | expire key =>
    apply traces_expire
    unfold oidcProtocol
    rw [hcall]
    exact ⟨.expired, trivial⟩

end WiseacctSso.OidcState
