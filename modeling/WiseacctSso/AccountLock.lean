import WiseacctSso.SessionRuns

/-!
# Account locks

A login reads the lock in a connection of its own, and its later transaction clears the
lock without a second look.
-/
namespace WiseacctSso
open ReadCommitted Phase5AuthService

variable {settings : AuthSettings} {calls : ℕ → SessionCall} {db₀ : Db store}

/-- Before a login's success commits, the credential of the user carries no lock beyond the
time the login observed. -/
def lockRespected (calls : ℕ → SessionCall) (prior : Log store) (t : ℕ) : Report → Bool
  | .loginSucceeded userId =>
      (calls t).attempt.all fun attempt =>
        (selectRows prior.db .passwordCredential fun _ c => c.userId = userId).all fun row =>
          row.2.lockedUntil.all (· ≤ attempt.2)
  | _ => true

def Query.readsCredential : Query → Bool
  | findCredentialByEmail _ => true
  | _ => false

/-- Process `t` has read a credential by its email. -/
def hasReadCredential (t : ℕ) : Log store → Bool
  | .initial _ _ => false
  | .add log (.selected t' query) => (t' = t && query.readsCredential) || hasReadCredential t log
  | .add log (.called _ _ _) => hasReadCredential t log
  | .add log (.committed _ _ _ _) => hasReadCredential t log

/-- The lock a failed attempt on the user has set. -/
def Report.locks (userId : String) : Report → Option Timestamp
  | loginFailureRecorded target lockedUntil => if target = userId then lockedUntil else none
  | _ => none

/-- No failed attempt has locked the user beyond `now` since process `t` read the credential. -/
def notLockedSinceRead (t : ℕ) (userId : String) (now : Timestamp) : Log store → Bool
  | .initial _ _ => true
  | .add log (.selected _ _) => notLockedSinceRead t userId now log
  | .add log (.called _ _ _) => notLockedSinceRead t userId now log
  | .add log (.committed _ report _ _) =>
      ((report.locks userId).all (· ≤ now) || !hasReadCredential t log) &&
        notLockedSinceRead t userId now log

/-- A login that succeeds has not been overtaken by a lock. -/
def notOvertaken (calls : ℕ → SessionCall) (prior : Log store) (t : ℕ) : Report → Bool
  | .loginSucceeded userId =>
      (calls t).attempt.all fun attempt => notLockedSinceRead t userId attempt.2 prior
  | _ => true

lemma hasReadCredential_of_precedes {read log : Log store} {t : ℕ} {email : String}
    (h : (read.add (.selected t (.findCredentialByEmail email))).Precedes log) :
    hasReadCredential t log = true := by
  induction h with
  | refl => simp [hasReadCredential, Query.readsCredential]
  | @add log event _ _ ih =>
    cases event <;> simp [hasReadCredential, ih]

/-- No credential of the user is locked beyond `now`. -/
def NotLockedBeyond (userId : String) (now : Timestamp) (db : Db store) : Prop :=
  ∀ κ (c : PasswordCredential), db.get .passwordCredential κ = some c → c.userId = userId →
    ∀ l ∈ c.lockedUntil, l ≤ now

lemma SessionCommit.notLockedBeyond {log : Log store} {t : ℕ} {held : Lock store → Bool}
    {after : Db store} {report : Report} {userId : String} {now : Timestamp}
    (h : SessionCommit settings calls log t held after report)
    (hlock : ∀ l ∈ report.locks userId, l ≤ now) (hbefore : NotLockedBeyond userId now log.db) :
    NotLockedBeyond userId now after := by
  intro κ c' hc' huser l hl
  cases h.credentialStep κ with
  | same hsame => exact hbefore κ c' (hsame.symm.trans hc') huser l hl
  | @changed c _ found hafter user lock _ =>
    obtain rfl := Option.some.inj (hafter.symm.trans hc')
    rcases lock with hsame | hnone | hreport
    · exact hbefore κ c found (user.symm.trans huser) l (hsame ▸ hl)
    · simp [hnone] at hl
    · refine hlock l ?_
      rw [hreport, Report.locks, if_pos (user.symm.trans huser)]
      exact hl

/-- A credential that was not locked when it was read is not locked later on, unless a
failed attempt has locked it since. -/
lemma notLockedBeyond_of_read {read log : Log store} {t : ℕ} {email userId : String}
    {now : Timestamp} (h : (read.add (.selected t (.findCredentialByEmail email))).Precedes log)
    (hv : SessionLog settings calls db₀ log) (hread : NotLockedBeyond userId now read.db)
    (hsince : notLockedSinceRead t userId now log = true) :
    NotLockedBeyond userId now log.db := by
  induction h with
  | refl => exact hread
  | @add log event h _ ih =>
    cases event with
    | selected t' q => exact ih hv.of_add hsince
    | called t' report ext => exact ih hv.of_add hsince
    | committed t' report held after =>
      simp only [notLockedSinceRead, hasReadCredential_of_precedes h, Bool.not_true,
        Bool.or_false, Bool.and_eq_true] at hsince
      refine hv.2.1.notLockedBeyond (fun l hl => ?_) (ih hv.of_add hsince.2)
      simpa using (Option.all_eq_true _ _).mp hsince.1 l hl

/-- The read that a login verified found its user's only credential not locked. -/
lemma CredentialVerified.notLockedBeyond {log : Log store} {t : ℕ} {input : LoginInput}
    {now : Timestamp} {userId : String} {readLog : Log store} {c : PasswordCredentialRecord}
    (h : CredentialVerified settings log t input now userId readLog c)
    (hv : SessionLog settings calls db₀ readLog) : NotLockedBeyond userId now readLog.db := by
  obtain ⟨κ₀, row, hget, huser, -, hlock⟩ := credentialByEmail_some h.found
  rw [h.user] at huser
  intro κ c' hc' huser' l hl
  obtain rfl := hv.unique .passwordCredential κ κ₀ c' row hc' hget (.userId userId)
    (by simp [huser']) (by simp [huser])
  obtain rfl := Option.some.inj (hc'.symm.trans hget)
  have hunlocked := h.unlocked
  rw [isLocked, ← hlock, Option.mem_def.mp hl] at hunlocked
  simpa using hunlocked

lemma SessionCommit.lockRespected {log : Log store} {t : ℕ} {held : Lock store → Bool}
    {after : Db store} {report : Report} (hv : SessionLog settings calls db₀ log)
    (h : SessionCommit settings calls log t held after report)
    (hsince : notOvertaken calls log t report = true) :
    WiseacctSso.lockRespected calls log t report = true := by
  cases h with
  | @loginSucceeded input now userId readLog c call verified _ _ =>
    simp only [notOvertaken, call, Option.all_some] at hsince
    have hread := Log.Valid.of_extends verified.read hv
    have hlock := notLockedBeyond_of_read verified.read hv (verified.notLockedBeyond hread) hsince
    simp only [WiseacctSso.lockRespected, call, Option.all_some, List.all_eq_true,
      Option.all_eq_true, decide_eq_true_eq]
    rintro ⟨κ, row⟩ hrow l hl
    obtain ⟨hget, huser⟩ := mem_selectRows.mp hrow
    exact hlock κ row hget (by simpa using huser) l hl
  | refused report_mem _ =>
    simp only [List.mem_cons, List.not_mem_nil, or_false] at report_mem
    rcases report_mem with rfl | rfl | rfl <;> rfl
  | _ => rfl

/-! ## Runs -/

/-- In a run in which no lock overtakes a login, every login that succeeds finds the
credential's lock absent or expired. -/
theorem lock_holds {redis : RedisState} {acts : List (Act store)} {sys : System store}
    (hunique : UniqueEntries db₀) (husers : TokenUsersExist db₀)
    (hrun : sessionRun settings calls db₀ redis acts = some sys)
    (hsince : sys.shared.log.Commits fun prior t report _ =>
      notOvertaken calls prior t report = true) :
    sys.shared.log.Commits fun prior t report _ => lockRespected calls prior t report = true := by
  refine Log.Commits.imp ?_ (sessionLog_of_run hunique husers hrun) hsince
  exact fun log t report held after hv hc hlog => SessionCommit.lockRespected hv hc hlog

/-- A user one failure short of the lock. -/
def fourFailures : Db store :=
  view [.put .passwordCredential "c1" ⟨"bob", "bob@example.com", "old", 4, none⟩] adminAndUser

/-- Two attempts on one credential, the right password at time 10 and a guess at time 11. -/
def twoAttempts : ℕ → SessionCall
  | 0 => .login ⟨"bob@example.com", "old"⟩ none ⟨10, 10, [], ⟨"r2", "h2", 200⟩⟩
  | 1 => .login ⟨"bob@example.com", "guess"⟩ none ⟨11, 11, [], ⟨"r3", "h3", 200⟩⟩
  | _ => .logout "" 0

/-- The right password succeeds before the guess is counted. -/
def attemptsInTurnActs : List (Act store) :=
  [.call 0, .step 0 [], .step 0 [], .step 0 [], .step 0 ["c1"], .step 0 [], .step 0 [],
    .step 0 [], .step 0 [], .call 1, .step 1 [], .step 1 [], .step 1 [], .step 1 ["c1"],
    .step 1 [], .step 1 [], .step 1 []]

theorem attemptsInTurn_lock_holds :
    ∃ sys, sessionRun plainSettings twoAttempts fourFailures ⟨∅⟩ attemptsInTurnActs = some sys ∧
      sys.shared.log.reports 0 = [.loginSucceeded "bob"] ∧
      sys.shared.log.reports 1 = [.loginFailureRecorded "bob" none] ∧
      sys.shared.log.Commits fun prior t report _ =>
        lockRespected twoAttempts prior t report = true := by
  have hsome : (sessionRun plainSettings twoAttempts fourFailures ⟨∅⟩ attemptsInTurnActs).any
      (fun sys => sys.shared.log.reports 0 = [.loginSucceeded "bob"] ∧
        sys.shared.log.reports 1 = [.loginFailureRecorded "bob" none] ∧
        sys.shared.log.Commits fun prior t report _ =>
          notOvertaken twoAttempts prior t report = true) = true := by decide
  obtain ⟨sys, hrun, hsys⟩ := (Option.any_eq_true _ _).mp hsome
  obtain ⟨hsucceeded, hfailed, hsince⟩ := of_decide_eq_true hsys
  exact ⟨sys, hrun, hsucceeded, hfailed, lock_holds (by decide) (by decide) hrun hsince⟩

/-- The guess locks the account between the read of the right password and its success. -/
def lockOvertakenActs : List (Act store) :=
  [.call 0, .step 0 [], .step 0 [], .call 1, .step 1 [], .step 1 [], .step 1 [],
    .step 1 ["c1"], .step 1 [], .step 1 ["c1"], .step 1 [], .step 1 [],
    .step 0 [], .step 0 ["c1"], .step 0 [], .step 0 [], .step 0 [], .step 0 []]

/-- The success at time 10 lifts a lock that lasts until 900011. -/
theorem lock_lifted_by_stale_login :
    ∃ sys, sessionRun plainSettings twoAttempts fourFailures ⟨∅⟩ lockOvertakenActs = some sys ∧
      sys.shared.log.reports 1 = [.loginFailureRecorded "bob" (some 900011)] ∧
      sys.shared.log.reports 0 = [.loginSucceeded "bob"] ∧
      (∀ κ (c : PasswordCredential), sys.shared.db.get .passwordCredential κ = some c →
        c.lockedUntil = none) ∧
      ¬ sys.shared.log.Commits fun prior t report _ =>
        lockRespected twoAttempts prior t report = true := by
  have hsome : (sessionRun plainSettings twoAttempts fourFailures ⟨∅⟩ lockOvertakenActs).any
      (fun sys => sys.shared.log.reports 1 = [.loginFailureRecorded "bob" (some 900011)] ∧
        sys.shared.log.reports 0 = [.loginSucceeded "bob"] ∧
        (∀ x ∈ (sys.shared.db .passwordCredential).entries, x.2.lockedUntil = none) ∧
        ¬ sys.shared.log.Commits fun prior t report _ =>
          lockRespected twoAttempts prior t report = true) = true := by decide
  obtain ⟨sys, hrun, hsys⟩ := (Option.any_eq_true _ _).mp hsome
  obtain ⟨hfailed, hsucceeded, hunlocked, hnot⟩ := of_decide_eq_true hsys
  exact ⟨sys, hrun, hfailed, hsucceeded,
    (forall_get_iff (Γ := store) (T := .passwordCredential)
      (P := fun _ (c : PasswordCredential) => c.lockedUntil = none)).mpr hunlocked, hnot⟩

end WiseacctSso
