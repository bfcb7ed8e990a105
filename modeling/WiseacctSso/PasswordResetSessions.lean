import WiseacctSso.SessionRuns

/-!
# Password resets and the sessions of password logins

A token stems from the credential its login verified, directly or through a handoff. A
login that read the credential before a reset committed may store its token after it.
-/
namespace WiseacctSso
open ReadCommitted Phase5AuthService

variable {settings : AuthSettings} {calls : ℕ → SessionCall} {db₀ : Db store}

/-- The commit of `reset`, or a later one of the same user, stored the hash. -/
def StoredSince (calls : ℕ → SessionCall) (reset log : Log store)
    (userId passwordHash : String) : Prop :=
  ∃ (prior : Log store) (t : ℕ) (held : Lock store → Bool) (after : Db store)
    (tokenHash : String) (now : Timestamp),
    reset.Precedes (prior.add (.committed t (.passwordReset (some userId)) held after)) ∧
    (prior.add (.committed t (.passwordReset (some userId)) held after)).Precedes log ∧
    calls t = .confirmPasswordReset tokenHash passwordHash now

/-- The token that process `t` is about to store for the user comes from a password login
that read the credential `c` after `readLog`. -/
inductive StemsFrom (settings : AuthSettings) (calls : ℕ → SessionCall) (log : Log store) (t : ℕ)
    (userId : String) (readLog : Log store) (c : PasswordCredentialRecord) : Prop
  | direct {input : LoginInput} {draws : LoginDraws} (call : calls t = .login input none draws)
      (verified : CredentialVerified settings log t input draws.now userId readLog c)
  | handoff {input : AuthHandoffStore.ConsumeInput} {nowEpochMs : Timestamp}
      {issued : IssuedRefreshToken} {consumedLog createdLog : Log store} {creator : ℕ}
      {ext ext' : RedisState} {record : StoredAuthHandoffMetadata} {loginInput : LoginInput}
      {clientHandoff : ClientHandoff} {draws : LoginDraws}
      (call : calls t = .exchange input nowEpochMs issued)
      (consumed : (consumedLog.add (.called t (.handoffConsumed input.code) ext)).Precedes log)
      (found : consumedLog.ext.handoffs.lookup input.code = some record)
      (created : (createdLog.add (.called creator (.handoffCreated input.code) ext')).Precedes
        consumedLog)
      (stored : ext'.handoffs.lookup input.code = some record) (user : record.userId = userId)
      (creatorCall : calls creator = .login loginInput (some clientHandoff) draws)
      (verified : CredentialVerified settings createdLog creator loginInput draws.now userId
        readLog c)

lemma StemsFrom.read {log : Log store} {t : ℕ} {userId : String} {readLog : Log store}
    {c : PasswordCredentialRecord} (h : StemsFrom settings calls log t userId readLog c) :
    readLog.Precedes log ∧ ∃ email, credentialByEmail readLog.db email = some c ∧
      c.userId = userId := by
  cases h with
  | direct _ verified =>
    exact ⟨.trans (.single trivial) verified.read, _, verified.found, verified.user⟩
  | handoff _ consumed _ created _ _ _ verified =>
    refine ⟨?_, _, verified.found, verified.user⟩
    exact ((Log.Extends.single trivial).trans verified.read).trans
      (((Log.Extends.single trivial).trans created).trans
        ((Log.Extends.single trivial).trans consumed))

lemma SessionCommit.hash_stored {log : Log store} {t : ℕ} {held : Lock store → Bool}
    {after : Db store} {userId : String}
    (h : SessionCommit settings calls log t held after (.passwordReset (some userId))) :
    ∃ tokenHash passwordHash now, calls t = .confirmPasswordReset tokenHash passwordHash now ∧
      ∀ κ (c : PasswordCredential), after.get .passwordCredential κ = some c →
        c.userId = userId → c.passwordHash = passwordHash := by
  cases h with
  | passwordReset call _ stored _ _ => exact ⟨_, _, _, call, stored⟩
  | refused report_mem _ => simp at report_mem

/-- From a reset on, each credential of the user has a hash stored since. -/
lemma storedSince_of_precedes {prior log : Log store} {t : ℕ} {held : Lock store → Bool}
    {after : Db store} {userId : String}
    (h : (prior.add (.committed t (.passwordReset (some userId)) held after)).Precedes log)
    (hv : SessionLog settings calls db₀ log) {κ : String} {c : PasswordCredential}
    (hc : log.db.get .passwordCredential κ = some c) (huser : c.userId = userId) :
    StoredSince calls (prior.add (.committed t (.passwordReset (some userId)) held after)) log
      userId c.passwordHash := by
  have hlater : ∀ {log : Log store} {event : Event store} {passwordHash : String},
      StoredSince calls (prior.add (.committed t (.passwordReset (some userId)) held after)) log
        userId passwordHash →
      StoredSince calls (prior.add (.committed t (.passwordReset (some userId)) held after))
        (log.add event) userId passwordHash :=
    fun ⟨prior', t', held', after', tokenHash, now, hle, hle', hcall⟩ =>
      ⟨prior', t', held', after', tokenHash, now, hle, hle'.add trivial, hcall⟩
  induction h generalizing κ c with
  | refl =>
    obtain ⟨tokenHash, passwordHash, now, hcall, hstored⟩ := hv.2.1.hash_stored
    rw [hstored κ c hc huser]
    exact ⟨prior, t, held, after, tokenHash, now, .refl, .refl, hcall⟩
  | @add log event h _ ih =>
    cases event with
    | selected t' q => exact hlater (ih hv.of_add hc huser)
    | called t' report ext => exact hlater (ih hv.of_add hc huser)
    | committed t' report held' after' =>
      cases hv.2.1.credentialStep κ with
      | same hsame => exact hlater (ih hv.of_add (hsame.symm.trans hc) huser)
      | @changed c₀ _ found hafter user _ hash =>
        obtain rfl := Option.some.inj (hafter.symm.trans hc)
        rcases hash with hsame | rfl
        · rw [hsame]
          exact hlater (ih hv.of_add found (user.symm.trans huser))
        · rw [user.symm.trans huser] at hv ⊢
          obtain ⟨tokenHash, passwordHash, now, hcall, hstored⟩ := hv.2.1.hash_stored
          rw [hstored κ _ hafter huser]
          exact ⟨log, t', held', after', tokenHash, now, h.add trivial, .refl, hcall⟩

lemma SessionCommand.handoff {log : Log store} {t : ℕ} {ext : RedisState} {report : Report}
    (h : SessionCommand settings calls log t ext report) {code : String}
    {record : StoredAuthHandoffMetadata} (hrecord : ext.handoffs.lookup code = some record) :
    log.ext.handoffs.lookup code = some record ∨ report = .handoffCreated code := by
  have herase : ∀ code', (log.ext.handoffs.erase code').lookup code = some record →
      log.ext.handoffs.lookup code = some record := by
    intro code' hlookup
    by_cases heq : code = code'
    · rw [heq, AList.lookup_erase] at hlookup
      exact absurd hlookup (by simp)
    · rwa [AList.lookup_erase_ne heq] at hlookup
  cases h with
  | @created code' _ _ _ _ _ _ _ _ _ _ effect =>
    subst effect
    by_cases heq : code = code'
    · exact .inr (heq ▸ rfl)
    · exact .inl (by rwa [AList.lookup_insert_ne heq] at hrecord)
  | codeTaken effect => exact .inl (effect ▸ hrecord)
  | consumed _ effect =>
    subst effect
    exact .inl (herase _ hrecord)
  | missed effect => exact .inl (effect ▸ hrecord)
  | expired effect =>
    subst effect
    exact .inl (herase _ hrecord)

/-- A live handoff was in Redis at the start of the log, or a login has created it. -/
inductive HandoffOrigin (settings : AuthSettings) (calls : ℕ → SessionCall) (log : Log store)
    (code : String) (record : StoredAuthHandoffMetadata) : Prop
  | initial {db : Db store} {redis : RedisState} (start : (Log.initial db redis).Precedes log)
      (found : redis.handoffs.lookup code = some record)
  | created {createdLog : Log store} {creator : ℕ} {ext : RedisState}
      (created : (createdLog.add (.called creator (.handoffCreated code) ext)).Precedes log)
      (stored : ext.handoffs.lookup code = some record)
      (command : SessionCommand settings calls createdLog creator ext (.handoffCreated code))

lemma HandoffOrigin.add {log : Log store} {code : String} {record : StoredAuthHandoffMetadata}
    (h : HandoffOrigin settings calls log code record) (event : Event store) :
    HandoffOrigin settings calls (log.add event) code record := by
  cases h with
  | initial start found => exact .initial (start.add trivial) found
  | created created stored command => exact .created (created.add trivial) stored command

lemma handoff_origin {log : Log store} (hv : SessionLog settings calls db₀ log) {code : String}
    {record : StoredAuthHandoffMetadata} (h : log.ext.handoffs.lookup code = some record) :
    HandoffOrigin settings calls log code record := by
  induction log with
  | initial db redis => exact .initial .refl h
  | add log event ih =>
    cases event with
    | selected t q => exact (ih hv.of_add h).add _
    | committed t report held after => exact (ih hv.of_add h).add _
    | called t report ext =>
      rcases hv.2.handoff h with hlog | rfl
      · exact (ih hv.of_add hlog).add _
      · exact .created .refl h hv.2

/-- A token of a password login stems from the credential it verified. -/
lemma SessionCommit.stems {log : Log store} {t : ℕ} {held : Lock store → Bool}
    {after : Db store} {userId : String} (hv : SessionLog settings calls db₀ log)
    (h : SessionCommit settings calls log t held after (.tokenIssued userId)) :
    (∃ audience issued, calls t = .issue userId audience issued) ∨
    (∃ readLog c, StemsFrom settings calls log t userId readLog c) ∨
    ∃ input nowEpochMs issued db redis record,
      calls t = .exchange input nowEpochMs issued ∧ (Log.initial db redis).Precedes log ∧
      redis.handoffs.lookup input.code = some record ∧ record.userId = userId := by
  cases h with
  | refused report_mem _ => simp at report_mem
  | tokenIssued _ _ origin _ =>
    cases origin with
    | plain call => exact .inl ⟨_, _, call⟩
    | login call verified => exact .inr (.inl ⟨_, _, .direct call verified⟩)
    | @exchange input nowEpochMs issued consumedLog ext record call consumed found user =>
      have hconsumed : SessionLog settings calls db₀ consumedLog :=
        (Log.Valid.of_extends consumed hv).of_add
      cases handoff_origin hconsumed found with
      | @initial db redis start hredis =>
        exact .inr (.inr ⟨input, nowEpochMs, issued, db, redis, record, call,
          start.trans ((Log.Extends.single trivial).trans consumed), hredis, user⟩)
      | created created stored command =>
        cases command with
        | created creatorCall verified _ _ effect =>
          have hrecord := stored
          rw [effect, AList.lookup_insert] at hrecord
          obtain rfl := Option.some.inj hrecord
          exact .inr (.inl ⟨_, _, .handoff call consumed found created stored user creatorCall
            (user ▸ verified)⟩)

/-! ## Runs -/

/-- What a reset means for the sessions of password logins. -/
structure ResetEndsSessions (settings : AuthSettings) (calls : ℕ → SessionCall)
    (redis : RedisState) (userId : String) (log : Log store) : Prop where
  /-- The commit of a reset revokes the tokens the user has, and leaves none live. -/
  revoked : ∀ (prior : Log store) t held after,
    (prior.add (.committed t (.passwordReset (some userId)) held after)).Precedes log →
    SessionsRevoked userId prior.db after
  /-- A token of a login that read its credential after a reset stems from a hash that this
  reset or a later one stored. -/
  since : ∀ (reset prior : Log store) t t' held held' after after' readLog c,
    (reset.add (.committed t (.passwordReset (some userId)) held after)).Precedes readLog →
    (prior.add (.committed t' (.tokenIssued userId) held' after')).Precedes log →
    StemsFrom settings calls prior t' userId readLog c →
    StoredSince calls (reset.add (.committed t (.passwordReset (some userId)) held after)) readLog
      userId c.passwordHash
  /-- Other tokens are of plain issues or of handoffs older than the run. -/
  stems : ∀ (prior : Log store) t held after,
    (prior.add (.committed t (.tokenIssued userId) held after)).Precedes log →
    (∃ audience issued, calls t = .issue userId audience issued) ∨
    (∃ readLog c, StemsFrom settings calls prior t userId readLog c) ∨
    ∃ input nowEpochMs issued record, calls t = .exchange input nowEpochMs issued ∧
      redis.handoffs.lookup input.code = some record ∧ record.userId = userId

theorem reset_ends_sessions {redis : RedisState} {acts : List (Act store)} {sys : System store}
    (hunique : UniqueEntries db₀) (husers : TokenUsersExist db₀)
    (hrun : sessionRun settings calls db₀ redis acts = some sys) (userId : String) :
    ResetEndsSessions settings calls redis userId sys.shared.log := by
  have hv := sessionLog_of_run hunique husers hrun
  refine ⟨fun prior t held after h => ?_,
    fun reset prior t t' held held' after after' readLog c hreset hissue hstems => ?_,
    fun prior t held after h => ?_⟩
  · have hcommit := (Log.Valid.of_extends h hv).2.1
    cases hcommit with
    | passwordReset _ _ _ tokens _ => exact tokens
    | refused report_mem _ => simp at report_mem
  · obtain ⟨hread, email, hfound, huser⟩ := hstems.read
    obtain ⟨κ, row, hrow, hrowUser, hhash, -⟩ := credentialByEmail_some hfound
    have hprior := (Log.Valid.of_extends hissue hv).of_add
    rw [← hhash]
    exact storedSince_of_precedes hreset (Log.Valid.of_extends hread hprior) hrow
      (hrowUser.trans huser)
  · have hcommit := Log.Valid.of_extends h hv
    rcases hcommit.2.1.stems hcommit.of_add with hplain | hstems |
      ⟨input, nowEpochMs, issued, db, redis', record, hcall, hstart, hfound, huser⟩
    · exact .inl hplain
    · exact .inr (.inl hstems)
    · -- The log of the run has one start.
      have hpast : prior.Precedes sys.shared.log := (Log.Extends.single trivial).trans h
      obtain ⟨-, rfl⟩ := initial_precedes_unique (hstart.trans hpast) (System.run_precedes hrun)
      exact .inr (.inr ⟨input, nowEpochMs, issued, record, hcall, hfound, huser⟩)

/-- A user with a password and an open reset. -/
def openReset : Db store :=
  view [.put .passwordResetToken "p0" ⟨"reset", "bob", 1000, none⟩] adminAndUser

/-- Logins with the old and with the new password, and the reset between the two. -/
def resetAndLogins : ℕ → SessionCall
  | 0 => .login ⟨"bob@example.com", "old"⟩ none ⟨10, 10, [], ⟨"r2", "h2", 200⟩⟩
  | 1 => .confirmPasswordReset "reset" "new" 20
  | 2 => .login ⟨"bob@example.com", "new"⟩ none ⟨30, 30, [], ⟨"r3", "h3", 200⟩⟩
  | _ => .logout "" 0

def resetActs : List (Act store) :=
  [.call 1, .step 1 [], .step 1 [], .step 1 ["p0"], .step 1 [], .step 1 ["bob"], .step 1 [],
    .step 1 ["c1"], .step 1 [], .step 1 ["r1"], .step 1 [], .step 1 []]

/-- A login up to the commit of its success, then the transaction that stores its token. -/
def verifyActs (t : ℕ) : List (Act store) :=
  [.call t, .step t [], .step t [], .step t [], .step t ["c1"], .step t [], .step t [], .step t [],
    .step t []]

def issueActs (t : ℕ) : List (Act store) :=
  [.step t [], .step t ["bob"], .step t [], .step t [], .step t [], .step t [], .step t []]

theorem loginAfterReset_ends_sessions :
    ∃ sys, sessionRun plainSettings resetAndLogins openReset ⟨∅⟩
        (resetActs ++ verifyActs 2 ++ issueActs 2) = some sys ∧
      sys.shared.log.reports 1 = [.passwordReset (some "bob")] ∧
      sys.shared.log.reports 2 = [.loginSucceeded "bob", .tokenIssued "bob"] ∧
      ResetEndsSessions plainSettings resetAndLogins ⟨∅⟩ "bob" sys.shared.log := by
  have hsome : (sessionRun plainSettings resetAndLogins openReset ⟨∅⟩
      (resetActs ++ verifyActs 2 ++ issueActs 2)).any (fun sys =>
        sys.shared.log.reports 1 = [.passwordReset (some "bob")] ∧
        sys.shared.log.reports 2 = [.loginSucceeded "bob", .tokenIssued "bob"]) = true := by
    decide
  obtain ⟨sys, hrun, hsys⟩ := (Option.any_eq_true _ _).mp hsome
  obtain ⟨hreset, hlogin⟩ := of_decide_eq_true hsys
  exact ⟨sys, hrun, hreset, hlogin, reset_ends_sessions (by decide) (by decide) hrun "bob"⟩

/-- Every token stored after a reset for a password login stems from a hash stored since. -/
def TokensFromNewPassword (settings : AuthSettings) (calls : ℕ → SessionCall) (userId : String)
    (log : Log store) : Prop :=
  ∀ (reset prior : Log store) t t' held held' after after' readLog c,
    (reset.add (.committed t (.passwordReset (some userId)) held after)).Precedes prior →
    (prior.add (.committed t' (.tokenIssued userId) held' after')).Precedes log →
    StemsFrom settings calls prior t' userId readLog c →
    StoredSince calls (reset.add (.committed t (.passwordReset (some userId)) held after)) prior
      userId c.passwordHash

/-- The report of the commit a log ends with. -/
def lastCommit : Log store → Option (ℕ × Report)
  | .add _ (.committed t report _ _) => some (t, report)
  | _ => none

lemma lastCommit_eq {log : Log store} {t : ℕ} {report : Report}
    (h : lastCommit log = some (t, report)) :
    ∃ prior held after, log = .add prior (.committed t report held after) := by
  cases log with
  | initial db redis => simp [lastCommit] at h
  | add log event =>
    cases event with
    | selected t' q => simp [lastCommit] at h
    | called t' report' ext => simp [lastCommit] at h
    | committed t' report' held after =>
      obtain ⟨rfl, rfl⟩ := Prod.mk.inj (Option.some.inj h)
      exact ⟨log, held, after, rfl⟩

lemma oldPassword_notStoredSince {reset log : Log store} :
    ¬ StoredSince resetAndLogins reset log "bob" "old" := by
  rintro ⟨_, t, _, _, tokenHash, now, -, -, hcall⟩
  match t with
  | 0 => simp [resetAndLogins] at hcall
  | 1 => simp [resetAndLogins] at hcall
  | 2 => simp [resetAndLogins] at hcall
  | _ + 3 => simp [resetAndLogins] at hcall

/-- The login with the old password reads the credential before the reset and stores a live
token after it. -/
theorem old_password_outlives_reset :
    ∃ sys, sessionRun plainSettings resetAndLogins openReset ⟨∅⟩
        (verifyActs 0 ++ resetActs ++ issueActs 0) = some sys ∧
      sys.shared.db.get .refreshToken "r2" = some ⟨"h2", "bob", 200, none, "temis"⟩ ∧
      ¬ TokensFromNewPassword plainSettings resetAndLogins "bob" sys.shared.log := by
  have hfirst : (sessionRun plainSettings resetAndLogins openReset ⟨∅⟩
      (verifyActs 0 ++ resetActs)).any (fun sys =>
        lastCommit sys.shared.log = some (1, .passwordReset (some "bob")) ∧
        (sys.run (fun t => (resetAndLogins t).prog plainSettings) (issueActs 0)).any fun sys' =>
          lastCommit sys'.shared.log = some (0, .tokenIssued "bob") ∧
          sys'.shared.db.get .refreshToken "r2" = some ⟨"h2", "bob", 200, none, "temis"⟩) =
      true := by decide
  obtain ⟨sys₁, hrun₁, hsys₁⟩ := (Option.any_eq_true _ _).mp hfirst
  obtain ⟨hreset, hrest⟩ := of_decide_eq_true hsys₁
  obtain ⟨sys, hrun₂, hsys⟩ := (Option.any_eq_true _ _).mp hrest
  obtain ⟨hissue, htoken⟩ := of_decide_eq_true hsys
  have hrun : sessionRun plainSettings resetAndLogins openReset ⟨∅⟩
      (verifyActs 0 ++ resetActs ++ issueActs 0) = some sys := by
    rw [sessionRun] at hrun₁
    rw [sessionRun, System.run_append, hrun₁]
    exact hrun₂
  refine ⟨sys, hrun, htoken, fun hclaim => ?_⟩
  obtain ⟨reset, held, after, hresetLog⟩ := lastCommit_eq hreset
  obtain ⟨prior, held', after', hissueLog⟩ := lastCommit_eq hissue
  have hv := sessionLog_of_run (by decide) (by decide) hrun
  have hle := System.run_precedes hrun₂
  rw [hresetLog, hissueLog] at hle
  rw [hissueLog] at hv hclaim
  have hbefore : (reset.add (.committed 1 (.passwordReset (some "bob")) held after)).Precedes
      prior := by
    cases hle with
    | add hle _ => exact hle
  rcases hv.2.1.stems hv.of_add with ⟨_, _, hcall⟩ | ⟨readLog, c, hstems⟩ |
    ⟨_, _, _, _, _, _, hcall, -⟩
  · simp [resetAndLogins] at hcall
  · have hold : c.passwordHash = "old" := by
      cases hstems with
      | direct call verified =>
        obtain ⟨rfl, -⟩ := SessionCall.login.inj call
        simpa [plainSettings] using verified.verified
      | handoff call _ _ _ _ _ _ _ => simp [resetAndLogins] at call
    have hstored := hclaim reset prior 1 0 held held' after after' readLog c hbefore .refl hstems
    rw [hold] at hstored
    exact oldPassword_notStoredSince hstored
  · simp [resetAndLogins] at hcall

end WiseacctSso
