import WiseacctSso.PasswordResetEffects

/-!
# Session calls keep the session guarantee
-/
namespace WiseacctSso
open ReadCommitted Phase5AuthService OidcService AdminMutationStore

variable {settings : AuthSettings} {calls : ℕ → SessionCall} {db₀ : Db store} {t : ℕ}
  {s : Shared store} {ws : List (Write store)}

/-! ## From pending writes to commits -/

lemma SessionCommit.of_ready {tokenHash audience : String} {now : Timestamp}
    {issued : IssuedRefreshToken} {sr s₁ : Shared store} {stored source : RefreshToken}
    {sourceId : String}
    (hcall : (calls t).rotation = some (tokenHash, audience, now, issued))
    (hfirst : s.log.reports t = [])
    (hsr : Follows (sessionGuarantee settings calls db₀) t sr s₁)
    (hs₁ : Follows (sessionGuarantee settings calls db₀) t s₁ s)
    (h : RefreshRotationStore.Ready t sr s₁ tokenHash audience now
      ⟨issued.id, issued.tokenHash, issued.expiresAt⟩ stored sourceId source) :
    SessionCommit settings calls s.log t (s.held t)
      (view [.put .refreshToken sourceId { source with revokedAt := some now },
        .put .refreshToken issued.id
          ⟨issued.tokenHash, stored.userId, issued.expiresAt, none, stored.audience⟩] s.db)
      (.rotated tokenHash) := by
  obtain ⟨storedId, hstored⟩ := h.read
  exact .rotated hcall hfirst (hsr.trans hs₁).precedes hstored h.storedHash h.audience
    (.of_ready hs₁ h)

lemma SessionCommit.of_issue {userId audience : String} {issued : IssuedRefreshToken}
    {s₁ : Shared store} {u : User} (hcall : (calls t).issued = some issued)
    (hfirst : ∀ report ∈ s.log.reports t, report.insertsToken = false)
    (horigin : IssueOrigin settings calls s.log t userId)
    (hs₁ : Follows (sessionGuarantee settings calls db₀) t s₁ s)
    (hu : s₁.Holds t .user userId (some u)) (hactive : u.status = .active)
    (hfresh : s₁.Holds t .refreshToken issued.id none) :
    SessionCommit settings calls s.log t (s.held t)
      (view [.put .refreshToken issued.id
        ⟨issued.tokenHash, userId, issued.expiresAt, none, audience⟩] s.db)
      (.tokenIssued userId) :=
  @SessionCommit.tokenIssued _ _ _ _ _ _ _ audience _ hcall hfirst horigin
    (.of_holds hs₁ hu hactive hfresh)

lemma sessionsRevoked_of_missing (hdb : TokenUsersExist db₀) {userId : String}
    {sv : Shared store} (hs : Follows (sessionGuarantee settings calls db₀) t sv s)
    (hmissing : sv.db.get .user userId = none) (hws : ∀ w ∈ ws, w.place.1 ≠ .refreshToken) :
    SessionsRevoked userId s.db (view ws s.db) := by
  refine ⟨tokensRevoked_refl (view_of_table_ne hws _), fun κ r hr huser _ => ?_⟩
  rw [view_get_of_table_ne hws] at hr
  have hexists := tokenUsersExist_of_valid hdb hs.valid κ r hr
  rw [huser, user_isSome_of_extends session_takesSteps hs.log hs.valid, hmissing] at hexists
  exact Bool.false_ne_true hexists

lemma credentialsChanged_put {change : PasswordCredential → PasswordCredential → Prop}
    {userId κ : String} {c c' : PasswordCredential}
    (hc : s.Holds t .passwordCredential κ (some c)) (huser : c.userId = userId)
    (hchange : change c c') :
    CredentialsChanged userId change s.db (view [.put .passwordCredential κ c'] s.db) := by
  intro κ'
  rw [view_cons, view_nil, apply_put_get]
  split
  · next hκ => exact .inr ⟨c, c', hκ ▸ hc.lookup, huser, hchange, rfl⟩
  · exact .inl rfl

/-! ## The calls -/

section calls

variable (hdb : TokenUsersExist db₀) (hreports : s.log.reports t = [])

include hreports in
lemma wp_rotate_call {tokenHash audience : String} {now : Timestamp}
    {issued : IssuedRefreshToken} (hcall : calls t = .rotate tokenHash audience now issued) :
    wp (sessionGuarantee settings calls db₀) t ((calls t).prog settings)
      (.kept (sessionGuarantee settings calls db₀) t) s [] := by
  rw [hcall]
  refine wp_bind.mpr (wp_transaction fun s₀ hs₀ => ?_)
  refine RefreshRotationStore.wp_rotate ?_ ?_ ?_
  · intro e s₁ _ hs₁ s' hs' _
    rw [hs'.reports, hs₁.reports, hs₀.reports, hreports]
  · intro s₁ _ s' hs'
    exact ⟨.refused (by simp) rfl, trivial⟩
  · intro sr s₁ stored sourceId source hsr hs₁ hready s' hs'
    refine ⟨.of_ready (by rw [hcall]; rfl) ?_ hs₁ hs' hready, trivial⟩
    rw [hs'.reports, hs₁.reports, hsr.reports, hs₀.reports, hreports]

include hreports in
lemma wp_refresh_call {tokenHash audience : String} {now : Timestamp}
    {issued : IssuedRefreshToken} (hcall : calls t = .refresh tokenHash audience now issued) :
    wp (sessionGuarantee settings calls db₀) t ((calls t).prog settings)
      (.kept (sessionGuarantee settings calls db₀) t) s [] := by
  rw [hcall]
  refine wp_bind.mpr (wp_handle.mpr (wp_transaction fun s₀ hs₀ => wp_bind.mpr ?_))
  have hnothing : ∀ s₁, Follows (sessionGuarantee settings calls db₀) t s₀ s₁ → ∀ s',
      Later (sessionGuarantee settings calls db₀) t s₁ s' → s'.log.reports t = [] := by
    intro s₁ hs₁ s' hs'
    rw [hs'.reports, hs₁.reports, hs₀.reports, hreports]
  refine RefreshRotationStore.wp_rotate ?_ ?_ ?_
  · intro e s₁ _ hs₁ s' hs'
    cases e <;> exact fun _ => hnothing s₁ hs₁ s' hs'
  · exact fun s₁ hs₁ s' hs' _ => hnothing s₁ hs₁ s' hs'
  intro sr s₁ stored sourceId source hsr hs₁ hready
  refine wp_bind.mpr (UserReadStore.wp_findCurrentActive ?_ ?_)
  · exact fun s₂ hs₂ s' hs' _ => hnothing s₂ ((hsr.trans hs₁).trans hs₂) s' hs'
  · intro s₂ user hs₂ _ s' hs'
    refine ⟨.of_ready (by rw [hcall]; rfl) ?_ hs₁ (hs₂.trans hs') hready, trivial⟩
    rw [hs'.reports, hs₂.reports, hs₁.reports, hsr.reports, hs₀.reports, hreports]

omit hreports in
lemma wp_logout_call {tokenHash : String} {now : Timestamp}
    (hcall : calls t = .logout tokenHash now) :
    wp (sessionGuarantee settings calls db₀) t ((calls t).prog settings) .top s [] := by
  rw [hcall]
  refine wp_bind.mpr (wp_bind.mpr (LogoutStore.wp_revoke fun s₀ s₁ r done hs₀ hd s' hs' => ?_))
  refine ⟨.loggedOut hcall (tokensRevoked_of_swept (by simp) (by simp) hd hs' now)
    (onlyTables_view (fun w hw => ?_) _), trivial⟩
  rw [sweepWrites_table (by simpa using hw)]
  exact List.mem_singleton_self _

/-- The transaction of `issuePair`, after whatever made the call entitled to a token. -/
lemma wp_issuePair {userId audience : String} {issued : IssuedRefreshToken}
    {Q : Post store CurrentUserRecord} (hcall : (calls t).issued = some issued)
    (hfirst : ∀ report ∈ s.log.reports t, report.insertsToken = false)
    (horigin : ∀ log, s.log.Precedes log → IssueOrigin settings calls log t userId)
    (hret : ∀ a s' ws', Q.ret a s' ws') (hraise : ∀ e s' ws', Q.raise e s' ws') :
    wp (sessionGuarantee settings calls db₀) t (issuePair userId audience issued) Q s ws := by
  refine wp_bind.mpr (wp_transaction fun s₀ hs₀ => ?_)
  refine TokenIssueStore.wp_issueForActiveUser (fun _ _ _ _ _ => hraise _ _ _) ?_ ?_
  · intro s₁ _ s' hs'
    exact ⟨.refused (by simp) rfl, hraise _ _ _⟩
  · intro s₁ user u hs₁ hu hactive hfresh s' hs'
    refine ⟨.of_issue hcall ?_ (horigin _ ?_) hs' hu hactive hfresh, hret _ _ _⟩
    · rw [hs'.reports, hs₁.reports, hs₀.reports]
      exact hfirst
    · exact (hs₀.precedes.trans hs₁.precedes).trans hs'.precedes

include hreports in
lemma wp_issue_call {userId audience : String} {issued : IssuedRefreshToken}
    (hcall : calls t = .issue userId audience issued) :
    wp (sessionGuarantee settings calls db₀) t ((calls t).prog settings) .top s [] := by
  rw [hcall]
  refine wp_bind.mpr (wp_issuePair (by rw [hcall]; rfl) (by simp [hreports])
    (fun _ _ => .plain hcall) (fun _ _ _ => trivial) fun _ _ _ => trivial)

/-! ### Password attempts -/

lemma wp_markFailure {input : LoginInput} {now : Timestamp} {userId : String}
    {Q : Post store FailedLoginResult} (hcall : (calls t).attempt = some (input, now))
    (hret : ∀ a s' ws', Q.ret a s' ws') (hraise : ∀ e s' ws', Q.raise e s' ws') :
    wp (sessionGuarantee settings calls db₀) t (markFailure userId now) Q s ws := by
  refine wp_transaction fun s₀ hs₀ =>
    FailedLoginStore.wp_recordFailure (fun _ _ _ _ _ _ => hraise _ _ _)
      (fun _ _ _ _ _ _ _ _ _ _ => hraise _ _ _) ?_ ?_
  · intro s₁ _ _ s' _
    exact ⟨.loginFailureRecorded hcall (by simp) (fun _ => .inl rfl) (fun _ _ => rfl), hret _ _ _⟩
  · intro s₁ κ c _ hc huser s' hs'
    have hheld := hs'.holds hc
    refine ⟨.loginFailureRecorded hcall ?_ (fun κ' => ?_)
      (onlyTables_view (fun w hw => by simp [FailedLoginStore.failureWrites_table hw]) _),
      hret _ _ _⟩
    · simp [FailedLoginStore.failureLock]
    · rw [FailedLoginStore.failureWrites_get]
      split
      · next hκ => exact .inr ⟨c, _, hκ ▸ hheld.lookup, huser, rfl, rfl⟩
      · exact .inl rfl

lemma CredentialVerified.mono {log log' : Log store} {input : LoginInput} {now : Timestamp}
    {userId : String} {readLog : Log store} {c : PasswordCredentialRecord}
    (h : CredentialVerified settings log t input now userId readLog c)
    (hlog : log.Precedes log') :
    CredentialVerified settings log' t input now userId readLog c :=
  ⟨h.read.trans hlog, h.found, h.user, h.active, h.unlocked, h.verified⟩

lemma SessionCommit.of_markLoginSuccess {input : LoginInput} {now : Timestamp} {userId : String}
    {readLog : Log store} {c : PasswordCredentialRecord} {κ : String} {row : PasswordCredential}
    {s₁ : Shared store} (hcall : (calls t).attempt = some (input, now))
    (hverified : CredentialVerified settings s.log t input now userId readLog c)
    (hs₁ : Follows (sessionGuarantee settings calls db₀) t s₁ s)
    (hrow : s₁.Holds t .passwordCredential κ (some row)) (huser : row.userId = userId) :
    SessionCommit settings calls s.log t (s.held t)
      (view [.put .passwordCredential κ { row with failedLoginCount := 0, lockedUntil := none }]
        s.db) (.loginSucceeded userId) :=
  .loginSucceeded hcall hverified (credentialsChanged_put (hs₁.holds hrow) huser rfl)
    (onlyTables_view (by simp [Write.place]) _)

/-- An attempt that succeeds has verified a credential and reported its success. -/
lemma wp_authenticate {input : LoginInput} {now : Timestamp} {Q : Post store CurrentUserRecord}
    (hcall : (calls t).attempt = some (input, now))
    (hret : ∀ s' user readLog c, CredentialVerified settings s'.log t input now user.id readLog c →
      s'.log.reports t = s.log.reports t ++ [.loginSucceeded user.id] → Q.ret user s' [])
    (hraise : ∀ e s' ws', Q.raise e s' ws') :
    wp (sessionGuarantee settings calls db₀) t (authenticate settings input now) Q s [] := by
  refine wp_bind.mpr (wp_connection (wp_query fun sr hsr s₀ hs₀ => ?_))
  dsimp only
  split
  · exact hraise _ _ _
  next c hc =>
  have hread : ((sr.log.add (.selected t (.findCredentialByEmail
      (normalizeEmail settings input.email)))).Precedes s₀.log) := hs₀.precedes
  split
  · exact hraise _ _ _
  split
  · next hgood =>
    obtain ⟨hactive, hunlocked, hverifies⟩ := hgood
    have hverified : CredentialVerified settings s₀.log t input now c.userId sr.log c :=
      ⟨hread, hc, rfl, hactive, by simpa using hunlocked, hverifies⟩
    refine wp_bind.mpr (wp_transaction fun s₁ hs₁ => ?_)
    refine wp_bind.mpr (PasswordAuthStore.wp_markLoginSuccess (fun _ _ _ _ _ => hraise _ _ _) ?_)
    intro s₂ κ row hs₂ hrow huser
    have hcommit : ∀ s', Follows (sessionGuarantee settings calls db₀) t s₂ s' →
        SessionCommit settings calls s'.log t (s'.held t) (view [.put .passwordCredential κ
          { row with failedLoginCount := 0, lockedUntil := none }] s'.db)
          (.loginSucceeded c.userId) := fun s' hs' =>
      SessionCommit.of_markLoginSuccess hcall
        (hverified.mono ((hs₁.precedes.trans hs₂.precedes).trans hs'.precedes)) hs' hrow huser
    refine UserReadStore.wp_findCurrent ?_ ?_
    · exact fun s₃ hs₃ s' hs' => ⟨hcommit s' (hs₃.trans hs'), hraise _ _ _⟩
    · intro s₃ user hs₃ hid s' hs'
      refine ⟨hcommit s' (hs₃.trans hs'), hret _ user sr.log c ?_ ?_⟩
      · rw [hid]
        exact hverified.mono ((((hs₁.precedes.trans hs₂.precedes).trans hs₃.precedes).trans
          hs'.precedes).trans (.single trivial))
      · have hold : s'.log.reports t = s.log.reports t := by
          rw [hs'.reports, hs₃.reports, hs₂.reports, hs₁.reports, hs₀.reports]
          exact hsr.reports
        rw [hid, ← hold]
        exact if_pos rfl
  · split
    · exact wp_bind.mpr (wp_markFailure hcall (fun _ _ _ => hraise _ _ _) hraise)
    · exact hraise _ _ _

/-! ### Handoffs -/

lemma wp_createHandoff {input : LoginInput} {handoff : ClientHandoff} {draws : LoginDraws}
    {record : StoredAuthHandoffMetadata} {readLog : Log store} {c : PasswordCredentialRecord}
    {Q : Post store String} (hcall : calls t = .login input (some handoff) draws)
    (hverified : CredentialVerified settings s.log t input draws.now record.userId readLog c)
    (hmethod : record.loginMethod = .password) (hret : ∀ a s' ws', Q.ret a s' ws')
    (hraise : ∀ e s' ws', Q.raise e s' ws') (codes : List String) :
    wp (sessionGuarantee settings calls db₀) t (AuthHandoffStore.create record codes) Q s ws := by
  induction codes generalizing s with
  | nil => exact hraise _ _ _
  | cons code codes ih =>
    intro s' hs'
    have hlater := hverified.mono hs'.precedes
    by_cases htaken : (s'.ext.handoffs.lookup code).isSome = true
    · simp only [htaken, if_true]
      exact ⟨.codeTaken rfl, ih (hlater.mono (.single trivial))⟩
    · simp only [htaken, if_false, Bool.false_eq_true]
      exact ⟨.created hcall hlater hmethod (by simpa using htaken) rfl, hret _ _ _⟩

/-- Process `t` has consumed this handoff. -/
def HandoffConsumed (log : Log store) (t : ℕ) (code : String)
    (handoff : StoredAuthHandoffMetadata) : Prop :=
  ∃ (consumedLog : Log store) (ext : RedisState),
    (consumedLog.add (.called t (.handoffConsumed code) ext)).Precedes log ∧
    consumedLog.ext.handoffs.lookup code = some handoff

lemma wp_consumeIfExact {code : String} {record : StoredAuthHandoffMetadata}
    {Q : Post store (Option StoredAuthHandoffMetadata)} (hnone : ∀ s', Q.ret none s' ws)
    (hsome : ∀ s', HandoffConsumed s'.log t code record →
      s'.log.reports t = s.log.reports t ++ [.handoffConsumed code] →
      Q.ret (some record) s' ws) :
    wp (sessionGuarantee settings calls db₀) t (AuthHandoffStore.consumeIfExact code record) Q s
      ws := by
  intro s' hs'
  by_cases hfound : s'.ext.handoffs.lookup code = some record
  · simp only [hfound, if_true]
    refine ⟨.consumed hfound rfl, hsome _ ⟨s'.log, _, .refl, hfound⟩ ?_⟩
    rw [← hs'.reports]
    exact if_pos rfl
  · simp only [hfound, if_false]
    exact ⟨.missed rfl, hnone _⟩

lemma wp_consume {input : AuthHandoffStore.ConsumeInput} {nowEpochMs : Timestamp}
    {Q : Post store (Option StoredAuthHandoffMetadata)} (hnone : ∀ s', Q.ret none s' ws)
    (hsome : ∀ s' handoff, HandoffConsumed s'.log t input.code handoff →
      s'.log.reports t = s.log.reports t ++ [.handoffConsumed input.code] →
      Q.ret (some handoff) s' ws) :
    wp (sessionGuarantee settings calls db₀) t
      (AuthHandoffStore.consume settings input nowEpochMs) Q s ws := by
  refine wp_bind.mpr (wp_inspect fun s₀ hs₀ => ?_)
  dsimp only
  split
  · exact hnone _
  next handoff _ =>
  split
  · exact wp_bind.mpr (wp_consumeIfExact (fun _ => hnone _) fun _ _ _ => hnone _)
  split
  · refine wp_consumeIfExact (fun _ => hnone _) fun s' hc hr => hsome s' handoff hc ?_
    rw [hr]
    exact congrArg (· ++ _) hs₀.reports
  · exact hnone _

include hreports in
lemma wp_login_call {input : LoginInput} {handoff : Option ClientHandoff} {draws : LoginDraws}
    (hcall : calls t = .login input handoff draws) :
    wp (sessionGuarantee settings calls db₀) t ((calls t).prog settings) .top s [] := by
  rw [hcall]
  refine wp_bind.mpr ?_
  cases handoff with
  | none =>
    refine wp_bind.mpr (wp_authenticate (by rw [hcall]; rfl) ?_ fun _ _ _ => trivial)
    intro s' user readLog c hverified hlast
    refine wp_bind.mpr (wp_issuePair (by rw [hcall]; rfl) ?_ ?_ (fun _ _ _ => trivial)
      fun _ _ _ => trivial)
    · simp [hlast, hreports, Report.insertsToken]
    · exact fun log hlog => .login hcall (hverified.mono hlog)
  | some handoff =>
    refine wp_bind.mpr ?_
    unfold clientForHandoff
    split
    · trivial
    split
    · refine wp_bind.mpr (wp_authenticate (by rw [hcall]; rfl) ?_ fun _ _ _ => trivial)
      intro s' user readLog c hverified _
      exact wp_bind.mpr (wp_createHandoff hcall hverified rfl (fun _ _ _ => trivial)
        (fun _ _ _ => trivial) _)
    · trivial

include hreports in
lemma wp_exchange_call {input : AuthHandoffStore.ConsumeInput} {nowEpochMs : Timestamp}
    {issued : IssuedRefreshToken} (hcall : calls t = .exchange input nowEpochMs issued) :
    wp (sessionGuarantee settings calls db₀) t ((calls t).prog settings) .top s [] := by
  rw [hcall]
  refine wp_bind.mpr (wp_bind.mpr (wp_consume (fun _ => trivial) ?_))
  intro s' handoff hconsumed hlast
  change wp _ t (issuePair handoff.userId handoff.audience issued) _ s' []
  refine wp_issuePair (by rw [hcall]; rfl) ?_ ?_ (fun _ _ _ => trivial) fun _ _ _ => trivial
  · simp [hlast, hreports, Report.insertsToken]
  · intro log hlog
    obtain ⟨consumedLog, ext, hprecedes, hfound⟩ := hconsumed
    exact .exchange hcall (hprecedes.trans hlog) hfound rfl

lemma wp_expireHandoff_call {code : String} (hcall : calls t = .expireHandoff code) :
    wp (sessionGuarantee settings calls db₀) t ((calls t).prog settings) .top s [] := by
  rw [hcall]
  exact fun s' _ => ⟨.expired rfl, trivial⟩

/-- The transaction that ends an OIDC login, after its credential was verified. -/
lemma wp_completeAuthorization {oidc : OidcLogin} {input : LoginInput} {now : Timestamp}
    {userId : String} {readLog : Log store} {c : PasswordCredentialRecord} {Q : Post store Unit}
    (hcall : (calls t).attempt = some (input, now)) (hret : ∀ a s' ws', Q.ret a s' ws')
    (hraise : ∀ e s' ws', Q.raise e s' ws')
    (hverified : ∀ log, s.log.Precedes log →
      CredentialVerified settings log t input now userId readLog c) :
    wp (sessionGuarantee settings calls db₀) t (completeAuthorization oidc userId) Q s ws := by
  have hend : ∀ eligible s' ws', wp (sessionGuarantee settings calls db₀) t
      (if eligible = true then pure ()
        else .raise (.oidcService "access_denied" "Account is not eligible")) Q s' ws' := by
    intro eligible s' ws'
    cases eligible
    · exact hraise _ _ _
    · exact hret _ _ _
  refine wp_bind.mpr (wp_transaction fun s₀ hs₀ => wp_bind.mpr ?_)
  have hdenied : ∀ s₁, Follows (sessionGuarantee settings calls db₀) t s₀ s₁ → ∀ s',
      Follows (sessionGuarantee settings calls db₀) t s₁ s' →
      SessionCommit settings calls s'.log t (s'.held t) (view [] s'.db) .authorizationDenied :=
    fun _ _ _ _ => .refused (by simp) rfl
  refine wp_lockOne userId (fun κ r hp => by simpa using hp) ?_ ?_
  · intro sv s₁ hsv hsv' _ s' hs'
    exact ⟨hdenied s₁ (hsv.trans hsv') s' hs', hend _ _ _⟩
  · intro s₁ u hs₁ _ _ _
    refine UserReadStore.wp_someWithRoles fun s₂ user hs₂ _ => ?_
    dsimp only
    split
    · refine wp_bind.mpr (PasswordAuthStore.wp_markLoginSuccess (fun _ _ _ _ _ => hraise _ _ _) ?_)
      intro s₃ κ row hs₃ hrow huser s' hs'
      refine ⟨SessionCommit.of_markLoginSuccess hcall (hverified _ ?_) hs' hrow huser, hend _ _ _⟩
      exact ((hs₀.precedes.trans hs₁.precedes).trans hs₂.precedes).trans
        (hs₃.precedes.trans hs'.precedes)
    · exact fun s' hs' => ⟨hdenied s₂ (hs₁.trans hs₂) s' hs', hend _ _ _⟩

lemma wp_passwordLogin_call {oidc : OidcLogin} {input : LoginInput} {now : Timestamp}
    (hcall : calls t = .passwordLogin oidc input now) :
    wp (sessionGuarantee settings calls db₀) t ((calls t).prog settings) .top s [] := by
  have hattempt : (calls t).attempt = some (input, now) := by rw [hcall]; rfl
  rw [hcall]
  change wp _ t (OidcService.passwordLogin settings oidc input now) .top s []
  unfold OidcService.passwordLogin
  split
  · trivial
  refine wp_bind.mpr (wp_connection (wp_query fun sr hsr s₀ hs₀ => ?_))
  dsimp only
  split
  · trivial
  next c hc =>
  split
  · next hgood =>
    obtain ⟨hactive, hunlocked, hverifies⟩ := hgood
    have hverified : CredentialVerified settings s₀.log t input now c.userId sr.log c :=
      ⟨hs₀.precedes, hc, rfl, hactive, by simpa using hunlocked, hverifies⟩
    split
    · trivial
    exact wp_completeAuthorization hattempt (fun _ _ _ => trivial) (fun _ _ _ => trivial)
      fun log hlog => hverified.mono hlog
  · split
    · exact wp_bind.mpr (wp_markFailure hattempt (fun _ _ _ => trivial) fun _ _ _ => trivial)
    · trivial

/-! ### Password resets -/

lemma wp_requestPasswordReset_call {email tokenId tokenHash : String} {now : Timestamp} {ttlMs : ℕ}
    (hcall : calls t = .requestPasswordReset email now tokenId tokenHash ttlMs) :
    wp (sessionGuarantee settings calls db₀) t ((calls t).prog settings) .top s [] := by
  rw [hcall]
  refine wp_bind.mpr (wp_connection (wp_query fun sr _ s₀ _ => ?_))
  dsimp only
  split
  · trivial
  · refine wp_transaction fun s₁ _ => wp_insertRow (fun _ _ _ _ => trivial) ?_
    intro s₂ _ _ _ s' _
    exact ⟨.passwordResetRequested (onlyTables_view (by simp [Write.place]) _), trivial⟩

lemma wp_confirmPasswordReset_call {tokenHash passwordHash : String} {now : Timestamp}
    (hcall : calls t = .confirmPasswordReset tokenHash passwordHash now) :
    wp (sessionGuarantee settings calls db₀) t ((calls t).prog settings) .top s [] := by
  rw [hcall]
  refine wp_bind.mpr (wp_bind.mpr (wp_transaction fun s₀ _ => ?_))
  refine PasswordResetStore.wp_confirm (fun _ _ _ _ _ => trivial) ?_ ?_ ?_
  · exact fun s₁ _ s' _ => ⟨.passwordResetRefused fun _ _ => rfl, trivial⟩
  · intro sr s₀ sv s₁ stored tokenId token _ _ _ _ _ _ s' _
    exact ⟨.passwordResetRefused (onlyTables_view (by simp [Write.place]) _), trivial⟩
  · intro sr s₀ sl s₂ s₁ stored tokenId token κ c done _ _ _ _ ho hs₂ hc huser hd s' hs'
    have hreplaced := PasswordReplaced.of_reset session_takesSteps ho hs₂ hc huser hd hs'
    exact ⟨.passwordReset hcall hreplaced.changed
      (fun κ c hc huser => hreplaced.stored hs'.valid.unique hc huser) hreplaced.tokens
      hreplaced.only, trivial⟩

/-! ### Administration -/

include hdb in
/-- After a revocation the commit revokes the user's sessions, whatever else is pending. -/
lemma wp_revokeSessions {userId : String} {now : Timestamp} {Q : Post store ℕ}
    (hws : ∀ w ∈ ws, w.place.1 ≠ .refreshToken)
    (huser : ∀ db, (view ws db).get .user userId = none → db.get .user userId = none)
    (h : ∀ s₁ n ws', Follows (sessionGuarantee settings calls db₀) t s s₁ →
      (∀ w ∈ ws', w.place.1 = .refreshToken) →
      (∀ s', Follows (sessionGuarantee settings calls db₀) t s₁ s' →
        SessionsRevoked userId s'.db (view (ws ++ ws') s'.db)) → Q.ret n s₁ (ws ++ ws')) :
    wp (sessionGuarantee settings calls db₀) t (revokeAllRefreshTokensForUser userId now) Q s
      ws := by
  refine wp_revokeAllRefreshTokensForUser ?_ ?_
  · intro sv s₁ hsv hsv' hn
    have hQ := h s₁ 0 [] (hsv.trans hsv') (by simp)
    rw [List.append_nil] at hQ
    exact hQ fun s' hs' => sessionsRevoked_of_missing hdb (hsv'.trans hs') (huser _ hn) hws
  · intro sl s₀ s₁ done hsl ho hs₀ hd
    exact h s₁ _ _ ((hsl.trans hs₀).trans hd.follows) (fun w hw => sweepWrites_table hw)
      fun s' hs' => sessionsRevoked_of_swept session_takesSteps ho hs₀ hd hs' hws

lemma UserStatusSet.of_missing {userId : String} {status : UserStatus} {sv : Shared store}
    (hs : Follows (sessionGuarantee settings calls db₀) t sv s)
    (hmissing : sv.db.get .user userId = none) (hws : ∀ w ∈ ws, w.place.1 ≠ .user) :
    UserStatusSet userId status s.db (view ws s.db) := by
  intro id
  rw [view_get_of_table_ne hws]
  split
  · next hid =>
    have hsome := user_isSome_of_extends session_takesSteps hs.log hs.valid userId
    rw [hmissing, Option.isSome_none, Option.isSome_eq_false_iff, Option.isNone_iff_eq_none]
      at hsome
    rw [hid, hsome, Option.map_none]
  · rfl

lemma UserStatusSet.of_put {userId : String} {status : UserStatus} {u : User}
    (hu : s.Holds t .user userId (some u)) (hws : ∀ w ∈ ws, w.place.1 ≠ .user) :
    UserStatusSet userId status s.db
      (view ([.put .user userId { u with status := status }] ++ ws) s.db) := by
  intro id
  rw [view_append, view_get_of_table_ne hws, view_cons, view_nil, apply_put_get]
  split
  · next hid => rw [hid, hu.lookup, Option.map_some]
  · rfl

include hdb in
lemma wp_revokeSessionsIf {revoke : Bool} {userId : String} {now : Timestamp} {Q : Post store ℕ}
    (hv : s.log.Valid (sessionGuarantee settings calls db₀))
    (hws : ∀ w ∈ ws, w.place.1 ≠ .refreshToken)
    (huser : ∀ db, (view ws db).get .user userId = none → db.get .user userId = none)
    (h : ∀ s₁ n ws', Follows (sessionGuarantee settings calls db₀) t s s₁ →
      (∀ w ∈ ws', w.place.1 = .refreshToken) →
      (∀ s', Follows (sessionGuarantee settings calls db₀) t s₁ s' →
        if revoke then SessionsRevoked userId s'.db (view (ws ++ ws') s'.db) else ws' = []) →
      Q.ret n s₁ (ws ++ ws')) :
    wp (sessionGuarantee settings calls db₀) t
      (if revoke then revokeAllRefreshTokensForUser userId now else pure 0) Q s ws := by
  cases revoke with
  | false =>
    have hQ := h s 0 [] (.refl hv) (by simp) fun _ _ => rfl
    rwa [List.append_nil] at hQ
  | true => exact wp_revokeSessions hdb hws huser h

lemma SessionCommit.of_setUserStatus {actor target : String} {status : UserStatus}
    {now : Timestamp} (ws : List (Write store)) {ws' : List (Write store)}
    (hcall : calls t = .admin actor (.setUserStatus target status now))
    (hguard : ¬ (actor = target ∧ selfStatusForbidden status = true))
    (hws : ∀ w ∈ ws, w.place.1 = .user) (hws' : ∀ w ∈ ws', w.place.1 = .refreshToken)
    (heffect : UserStatusSet target status s.db (view (ws ++ ws') s.db))
    (htokens : if shouldRevokeForStatus status then
      SessionsRevoked target s.db (view (ws ++ ws') s.db) else ws' = []) :
    SessionCommit settings calls s.log t (s.held t) (view (ws ++ ws') s.db)
      (.userStatusSet target status) := by
  refine .userStatusSet hcall hguard heffect ?_ (onlyTables_view (fun w hw => ?_) _)
  · split
    · next hrevoke => exact (if_pos hrevoke).mp htokens
    · next hrevoke =>
      rw [if_neg hrevoke] at htokens
      subst htokens
      exact onlyTables_view (fun w hw => by simp [hws w (by simpa using hw)]) _
  · rcases List.mem_append.mp hw with hw | hw
    · simp [hws w hw]
    · simp [hws' w hw]

include hdb in
lemma wp_setUserStatus {actor target : String} {status : UserStatus} {now : Timestamp}
    (hcall : calls t = .admin actor (.setUserStatus target status now)) :
    wp (sessionGuarantee settings calls db₀) t
      (Phase6AdminService.setUserStatus settings.py actor target status now)
      ⟨fun _ _ _ => True, fun _ _ _ => True⟩ s ws := by
  refine wp_assert trivial fun _ => wp_assert trivial fun hguard => ?_
  refine wp_transaction fun s₀ _ => wp_bind.mpr (wp_updateUserStatus ?_ ?_)
  · intro sv s₁ hsv hsv' hmissing
    refine wp_bind.mpr (wp_revokeSessionsIf hdb hsv'.valid (by simp) (fun _ hn => hn) ?_)
    intro s₂ _ ws' hs₂ hws' htokens s' hs'
    refine ⟨.of_setUserStatus [] hcall hguard (by simp) hws' ?_ (htokens s' hs'), trivial⟩
    exact .of_missing ((hsv'.trans hs₂).trans hs') hmissing fun w hw he => by simp [hws' w hw] at he
  · intro s₁ u hs₁ hu
    refine wp_bind.mpr (wp_revokeSessionsIf hdb hs₁.valid (by simp [Write.place]) ?_ ?_)
    · intro db hn
      rw [view_cons, view_nil, apply_put_get, if_pos rfl] at hn
      exact absurd hn (by simp)
    · intro s₂ _ ws' hs₂ hws' htokens s' hs'
      refine ⟨.of_setUserStatus _ hcall hguard (by simp [Write.place]) hws' ?_ (htokens s' hs'),
        trivial⟩
      exact .of_put ((hs₂.trans hs').holds hu) fun w hw he => by simp [hws' w hw] at he

lemma wp_assignRole {actor target serviceKey name newRoleId newUserRoleId : String}
    (hcall : calls t = .admin actor
      (.assignRole target serviceKey name newRoleId newUserRoleId)) :
    wp (sessionGuarantee settings calls db₀) t
      (Phase6AdminService.assignRole settings.py target serviceKey name newRoleId newUserRoleId)
      ⟨fun _ _ _ => True, fun _ _ _ => True⟩ s ws := by
  refine wp_assert trivial fun _ => wp_assert trivial fun _ => ?_
  refine wp_transaction fun s₀ _ => wp_bind.mpr ?_
  refine wp_upsertRole (fun _ _ _ _ _ => trivial) fun s₁ roleId hs₁ hrole => ?_
  have hkept : ∀ s', Follows (sessionGuarantee settings calls db₀) t s₁ s' → ∀ ws',
      (∀ w ∈ ws', w.place.1 = .userRole) → ∀ id (r : Role), s'.db.get .role id = some r →
      (view ([.put .role roleId ⟨serviceKey, name⟩] ++ ws') s'.db).get .role id = some r := by
    intro s' hs' ws' hws' id r hr
    rw [view_append, view_get_of_table_ne fun w hw he => by simp [hws' w hw] at he, view_cons,
      view_nil, apply_put_get]
    split
    · next hid =>
      subst hid
      rcases hrole with hnone | hsome
      · exact absurd ((hs'.holds hnone).lookup.symm.trans hr) (by simp)
      · exact (hs'.holds hsome).lookup.symm.trans hr
    · exact hr
  refine wp_bind.mpr (wp_assignRoleToUser (fun _ _ _ _ _ => trivial) ?_ ?_)
  · intro s₂ hs₂ s' hs'
    have hview : ∀ id, (view (Γ := store) [.put .role roleId ⟨serviceKey, name⟩] s'.db).get
        .userRole id = s'.db.get .userRole id :=
      view_get_of_table_ne (by simp [Write.place]) _
    refine ⟨.roleAssigned hcall ⟨?_, fun id ur hur => (hview id).trans hur,
      fun id ur hur => .inl ((hview id).symm.trans hur)⟩
      (onlyTables_view (by simp [Write.place]) _), trivial⟩
    exact hkept s' (hs₂.trans hs') [] (by simp)
  · intro s₂ hs₂ ho habsent s' hs'
    have hview : ∀ id, (view (Γ := store) ([.put .role roleId ⟨serviceKey, name⟩] ++
        [.put .userRole newUserRoleId ⟨target, roleId⟩]) s'.db).get .userRole id =
        if id = newUserRoleId then some ⟨target, roleId⟩ else s'.db.get .userRole id := by
      intro id
      rw [view_concat_put_get, view_get_of_table_ne (by simp [Write.place])]
    have hfresh : s'.db.get .userRole newUserRoleId = none := by
      rw [hs'.lookup ho]
      rwa [view_get_of_table_ne (by simp [Write.place])] at habsent
    refine ⟨.roleAssigned hcall ⟨hkept s' (hs₂.trans hs') _ (by simp [Write.place]), ?_, ?_⟩
      (onlyTables_view (by simp [Write.place]) _), trivial⟩
    · intro id ur hur
      rw [hview, if_neg fun hid => by simp [hid, hfresh] at hur]
      exact hur
    · intro id ur hur
      rw [hview] at hur
      split at hur
      · exact .inr (Option.some.inj hur).symm
      · exact .inl hur

lemma RoleRemoved.of_swept {target roleId : String} {keys : List String} {s₀ s₁ : Shared store}
    {done : List (String × UserRole)} {ws' : List (Write store)}
    (hd : Swept (sessionGuarantee settings calls db₀) t Table.userRole
      (fun _ ur => ur.userId = target && ur.roleId = roleId) keys [] s₀ s₁ done)
    (hs : Follows (sessionGuarantee settings calls db₀) t s₁ s)
    (hws' : ∀ w ∈ ws', w.place.1 = .refreshToken) :
    RoleRemoved target roleId s.db
      (view ([] ++ sweepWrites (Γ := store) (T := Table.userRole) .delete done ++ ws') s.db) := by
  have hrefresh : ∀ w ∈ ws', w.place.1 ≠ .userRole := fun w hw he => by simp [hws' w hw] at he
  have hin : ∀ id ur, (id, ur) ∈ done →
      s.db.get .userRole id = some ur ∧ ur = ⟨target, roleId⟩ := by
    intro id ur hm
    obtain ⟨hp, ho, hur⟩ := hd.found id ur hm
    simp only [Bool.and_eq_true, decide_eq_true_eq] at hp
    obtain ⟨rfl, rfl⟩ := hp
    exact ⟨(hs.lookup ho).trans hur, rfl⟩
  refine ⟨fun id ur hur => ?_, fun id ur hur => ?_⟩
  · by_cases hm : ∃ ur', (id, ur') ∈ done
    · obtain ⟨ur', hm⟩ := hm
      obtain ⟨hget, rfl⟩ := hin id ur' hm
      exact .inr (Option.some.inj (hur.symm.trans hget))
    · refine .inl ?_
      rw [view_append, view_get_of_table_ne hrefresh, view_sweep_of_notMem fun r hr => hm ⟨r, hr⟩]
      exact hur
  · rw [view_append, view_get_of_table_ne hrefresh] at hur
    by_cases hm : ∃ ur', (id, ur') ∈ done
    · obtain ⟨ur', hm⟩ := hm
      rw [view_delete_of_mem hd.nodup hm] at hur
      exact absurd hur (by simp)
    · rwa [view_sweep_of_notMem fun r hr => hm ⟨r, hr⟩] at hur

include hdb in
lemma wp_removeRole {actor target serviceKey name : String} {now : Timestamp}
    (hcall : calls t = .admin actor (.removeRole target serviceKey name now)) :
    wp (sessionGuarantee settings calls db₀) t
      (Phase6AdminService.removeRole settings.py actor target serviceKey name now)
      ⟨fun _ _ _ => True, fun _ _ _ => True⟩ s ws := by
  refine wp_assert trivial fun _ => wp_assert trivial fun _ => ?_
  refine wp_assert trivial fun hguard => wp_transaction fun s₀ _ => ?_
  refine wp_bind.mpr (wp_query fun sr hsr => ?_)
  rcases hfirst : firstRow (view [] sr.db) Table.role
    (fun _ (r : Role) => r.serviceKey = serviceKey && r.name = name) with _ | ⟨roleId, role⟩
  · exact fun s' _ => ⟨.roleRemoved hcall hguard (.inl rfl) (fun _ _ => rfl) (fun _ _ => rfl),
      trivial⟩
  obtain ⟨hrole, hmatch⟩ := firstRow_some hfirst
  simp only [Bool.and_eq_true, decide_eq_true_eq] at hmatch
  have hstored : sr.db.get .role roleId = some ⟨serviceKey, name⟩ := by
    rw [← hmatch.1, ← hmatch.2]
    exact hrole
  refine wp_bind.mpr (wp_removeRoleFromUser fun s₁ s₂ done hs₁ hd => ?_)
  have hfollows := (hs₁.trans hd.follows)
  have hdelete : ∀ w ∈ [] ++ sweepWrites (Γ := store) (T := Table.userRole) .delete done,
      w.place.1 = .userRole := fun w hw => sweepWrites_table (by simpa using hw)
  refine wp_bind.mpr (wp_revokeSessionsIf hdb hd.follows.valid
    (fun w hw he => by simp [hdelete w hw] at he) ?_ ?_)
  · intro db hn
    rwa [view_get_of_table_ne fun w hw he => by simp [hdelete w hw] at he] at hn
  · intro s₃ _ ws' hs₃ hws' htokens s' hs'
    have hlog := ((Follows.record_selected hsr.valid (.findRole serviceKey name)).trans
      (hfollows.trans (hs₃.trans hs')))
    refine ⟨.roleRemoved hcall hguard (.inr ⟨roleId, role_of_extends hlog.log hlog.valid hstored,
      .of_swept hd (hs₃.trans hs') hws'⟩) ?_ (onlyTables_view (fun w hw => ?_) _), trivial⟩
    · have hnow := htokens s' hs'
      split
      · next hremoved => exact (if_pos hremoved).mp hnow
      · next hremoved =>
        rw [if_neg hremoved] at hnow
        subst hnow
        exact onlyTables_view (fun w hw => by simp [hdelete w (by simpa using hw)]) _
    · rcases List.mem_append.mp hw with hw | hw
      · simp [hdelete w hw]
      · simp [hws' w hw]

include hdb in
lemma wp_revokeSessions_request {actor target : String} {now : Timestamp}
    (hcall : calls t = .admin actor (.revokeSessions target now)) :
    wp (sessionGuarantee settings calls db₀) t
      (Phase6AdminService.revokeSessions settings.py actor target now)
      ⟨fun _ _ _ => True, fun _ _ _ => True⟩ s ws := by
  refine wp_assert trivial fun _ => wp_assert trivial fun hguard => ?_
  refine wp_transaction fun s₀ hs₀ => wp_bind.mpr ?_
  refine wp_revokeSessions hdb (by simp) (fun _ hn => hn) ?_
  intro s₁ _ ws' _ hws' htokens s' hs'
  exact ⟨.sessionsRevoked hcall hguard (htokens s' hs')
    (onlyTables_view (fun w hw => by simp [hws' w (by simpa using hw)]) _), trivial⟩

include hdb in
lemma wp_admin_call {actor : String} {request : AdminRequest}
    (hcall : calls t = .admin actor request) :
    wp (sessionGuarantee settings calls db₀) t ((calls t).prog settings) .top s [] := by
  rw [hcall]
  refine wp_bind.mpr (wp_assert trivial fun _ => wp_bind.mpr ?_)
  refine wp_connection (wp_query fun sr _ s₀ _ => ?_)
  dsimp only
  split
  swap
  · trivial
  cases request with
  | setUserStatus target status now => exact wp_bind.mpr (wp_setUserStatus hdb hcall)
  | assignRole target serviceKey name newRoleId newUserRoleId =>
    exact wp_bind.mpr (wp_assignRole hcall)
  | removeRole target serviceKey name now => exact wp_bind.mpr (wp_removeRole hdb hcall)
  | revokeSessions target now => exact wp_bind.mpr (wp_revokeSessions_request hdb hcall)

omit hreports in
include hdb in
/-- Every family of session calls keeps the session guarantee. -/
theorem session_keeps : Keeps (sessionGuarantee settings calls db₀)
    fun t => (calls t).prog settings := by
  intro t s _ hreports _
  -- Only a rotation promises anything when it raises.
  have hother : (calls t).rotation = none →
      wp (sessionGuarantee settings calls db₀) t ((calls t).prog settings) .top s [] →
      wp (sessionGuarantee settings calls db₀) t ((calls t).prog settings)
        (.kept (sessionGuarantee settings calls db₀) t) s [] := fun hnone hwp =>
    wp_mono (fun _ _ _ _ => trivial)
      (fun _ _ _ _ hsome => absurd hsome (by rw [hnone]; exact Bool.false_ne_true)) hwp
  rcases hcall : calls t with _ | _ | _ | _ | _ | _ | _ | _ | _ | _ | _
  case rotate => exact wp_rotate_call hreports hcall
  case refresh => exact wp_refresh_call hreports hcall
  case logout => exact hother (by rw [hcall]; rfl) (wp_logout_call hcall)
  case issue => exact hother (by rw [hcall]; rfl) (wp_issue_call hreports hcall)
  case login => exact hother (by rw [hcall]; rfl) (wp_login_call hreports hcall)
  case passwordLogin => exact hother (by rw [hcall]; rfl) (wp_passwordLogin_call hcall)
  case exchange => exact hother (by rw [hcall]; rfl) (wp_exchange_call hreports hcall)
  case expireHandoff => exact hother (by rw [hcall]; rfl) (wp_expireHandoff_call hcall)
  case requestPasswordReset =>
    exact hother (by rw [hcall]; rfl) (wp_requestPasswordReset_call hcall)
  case confirmPasswordReset =>
    exact hother (by rw [hcall]; rfl) (wp_confirmPasswordReset_call hcall)
  case admin => exact hother (by rw [hcall]; rfl) (wp_admin_call hdb hcall)

end calls

end WiseacctSso
