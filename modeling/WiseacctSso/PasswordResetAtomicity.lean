import WiseacctSso.AuditedKeeps
import WiseacctSso.SessionRuns

/-!
# Password resets are atomic and single-use

A reset token that is used stays used, so at most one commit changes a password with it. A
confirmation answers after its commit; one that raises has committed nothing, or has used up
the token of a user who is missing, or has lost the audit of its success.
-/
namespace WiseacctSso
open ReadCommitted

variable {calls : ℕ → AuditedCall} {db₀ : Db store} {t : ℕ}

/-- The call presents this reset token and the commit changes a password. -/
def changesPassword (calls : ℕ → AuditedCall) (tokenHash : String) (t : ℕ) : Report → Bool
  | .passwordReset (some _) =>
      match calls t with
      | .confirmPasswordReset _ tokenHash' _ _ => tokenHash' = tokenHash
      | _ => false
  | _ => false

def ResetTokensUsed (tokenHash : String) (db : Db store) : Prop :=
  ∀ κ r, db.get .passwordResetToken κ = some r → r.tokenHash = tokenHash → r.usedAt ≠ none

lemma ResetTokensUsed.step {tokenHash : String} {before after : Db store}
    (h : ResetTokensUsed tokenHash before) (hstep : ∀ κ, ResetTokenStep before after κ) :
    ResetTokensUsed tokenHash after := by
  intro κ r hr hhash
  cases hstep κ with
  | same hsame => exact h κ r (hsame.symm.trans hr) hhash
  | used found hafter =>
    obtain rfl := Option.some.inj (hafter.symm.trans hr)
    simp

/-- The rows of the hash are one row, by the unique index, and it has been used. -/
lemma ResetTokenUsed.all_used {tokenId tokenHash : String} {token : PasswordResetToken}
    {now : Timestamp} {before after : Db store}
    (h : ResetTokenUsed tokenId token now before after) (hhash : token.tokenHash = tokenHash)
    (hunique : UniqueEntries before) : ResetTokensUsed tokenHash after := by
  intro κ r hr hr'
  rw [h.lookup] at hr
  split at hr
  · obtain rfl := Option.some.inj hr
    simp
  · next hκ =>
    exact absurd (hunique .passwordResetToken κ tokenId r token hr h.found
      (.tokenHash tokenHash) (by simp [hr']) (by simp [hhash])) hκ

/-- A password has been changed with the token once at most, and then the token is used. -/
lemma changes_le_one {tokenHash : String} {log : Log store} (hv : AuditedLog calls db₀ log) :
    log.tally (changesPassword calls tokenHash) ≤ 1 ∧
      (log.tally (changesPassword calls tokenHash) = 1 → ResetTokensUsed tokenHash log.db) := by
  induction log with
  | initial db ext => simp [Log.tally]
  | add log event ih =>
    obtain ⟨hle, hused⟩ := ih hv.of_add
    cases event with
    | selected t q => exact ⟨hle, hused⟩
    | called t report ext =>
      have hnot : changesPassword calls tokenHash t report = false := by
        cases hv.2
        rfl
      simp only [Log.tally, hnot]
      exact ⟨hle, hused⟩
    | committed t report held after =>
      have hcommit := hv.2.1.2
      have hstep := hcommit.resetTokenStep
      by_cases hchange : changesPassword calls tokenHash t report = true
      swap
      · simp only [Log.tally, Bool.eq_false_iff.mpr hchange]
        exact ⟨hle, fun hone => (hused hone).step hstep⟩
      obtain ⟨tokenId, token, now, hmarked, hhash⟩ : ∃ tokenId token now,
          ResetTokenUsed tokenId token now log.db after ∧ token.tokenHash = tokenHash := by
        cases hcommit with
        | rotated _ _ => simp [changesPassword] at hchange
        | tokenIssued _ _ => simp [changesPassword] at hchange
        | refused report_mem _ =>
          simp only [List.mem_cons, List.not_mem_nil, or_false] at report_mem
          rcases report_mem with rfl | rfl | rfl <;> simp [changesPassword] at hchange
        | resetWithoutUser _ _ _ _ _ => simp [changesPassword] at hchange
        | @reset _ tokenHash' now _ tokenId token call used hash _ =>
          simp only [changesPassword, call, decide_eq_true_eq] at hchange
          exact ⟨tokenId, token, now, used, hash.trans hchange⟩
      -- The token was unused before this commit, so nothing had been changed with it.
      have hnone : log.tally (changesPassword calls tokenHash) = 0 := by
        by_contra hsome
        exact hused (by omega) tokenId token hmarked.found hhash hmarked.unused
      simp only [Log.tally, hnone, hchange, Bool.toNat_true]
      exact ⟨le_rfl, fun _ => hmarked.all_used hhash hv.of_add.unique⟩

/-- What a confirmation of the token commits when it succeeds. -/
def ResetCommitted (tokenHash passwordHash userId : String) (now : Timestamp)
    (before after : Db store) : Prop :=
  ∃ tokenId token, ResetTokenUsed tokenId token now before after ∧ token.tokenHash = tokenHash ∧
    token.userId = userId ∧ PasswordReplaced userId passwordHash before after

/-- What a confirmation of the token may have committed when it raises: nothing, the use of a
token whose user is missing, or a reset if the audit of its success has failed. -/
def ResetFailed (hashed : Except Error String) (tokenHash : String) (now : Timestamp)
    (faults : Faults) (before after : Db store) : Prop :=
  after = before ∨
  (∃ tokenId token, ResetTokenUsed tokenId token now before after ∧
    token.tokenHash = tokenHash ∧ before.get .user token.userId = none ∧
    OnlyTables [.passwordResetToken] before after) ∨
  faults.successAudit.isSome = true ∧ ∃ passwordHash userId, hashed = .ok passwordHash ∧
    ResetCommitted tokenHash passwordHash userId now before after

lemma AuditedCommit.resetCommitted {log : Log store} {held : Lock store → Bool}
    {after : Db store} {userId : String}
    (h : AuditedCommit calls log t held after (.passwordReset (some userId))) :
    ∃ passwordHash tokenHash now faults,
      calls t = .confirmPasswordReset (.ok passwordHash) tokenHash now faults ∧
        ResetCommitted tokenHash passwordHash userId now log.db after := by
  cases h with
  | refused report_mem _ => simp at report_mem
  | reset call used hash replaced =>
    exact ⟨_, _, _, _, call, _, _, used, hash, rfl, replaced⟩

/-- A confirmation that answers with success has committed the whole reset before. -/
def AnswersAfterReset (calls : ℕ → AuditedCall) (prior : Log store) (t : ℕ) (report : Report) :
    Prop :=
  ∀ userId, report = .passwordResetConfirmed userId →
    ∃ (earlier : Log store) (held : Lock store → Bool) (after : Db store) (passwordHash tokenHash :
      String) (now : Timestamp) (faults : Faults),
      (earlier.add (.committed t (.passwordReset (some userId)) held after)).Precedes prior ∧
      calls t = .confirmPasswordReset (.ok passwordHash) tokenHash now faults ∧
      ResetCommitted tokenHash passwordHash userId now earlier.db after

/-- In every run of confirmations, issues and rotations: each reset token changes a password
once at most, and nothing else changes one; a confirmation that succeeds has committed the
reset; and one that raises has committed no more than `ResetFailed` says. -/
theorem passwordReset_atomic {acts : List (Act store)} {sys : System store}
    (hunique : UniqueEntries db₀) (hrun : auditedRun calls db₀ acts = some sys) :
    (∀ tokenHash, sys.shared.log.tally (changesPassword calls tokenHash) ≤ 1) ∧
    (sys.shared.log.Commits fun prior _ (report : Report) after =>
      (∃ userId, report = .passwordReset (some userId)) ∨
        after Table.passwordCredential = prior.db Table.passwordCredential) ∧
    (sys.shared.log.Calls fun prior t report _ => AnswersAfterReset calls prior t report) ∧
    ∀ t hashed tokenHash now faults e,
      calls t = .confirmPasswordReset hashed tokenHash now faults → sys.error t = some e →
        sys.shared.log.Commits fun prior t' _ after => t' = t →
          ResetFailed hashed tokenHash now faults prior.db after := by
  have hv : AuditedLog calls db₀ sys.shared.log := auditedLog_of_run hunique hrun
  refine ⟨fun tokenHash => (changes_le_one hv).1, hv.commits ?_, hv.calls ?_, ?_⟩
  · rintro prior t report held after - ⟨-, hcommit⟩
    cases hcommit with
    | rotated _ effect => exact .inr (effect.only _ (by simp))
    | tokenIssued _ effect => exact .inr (effect.only _ (by simp))
    | refused _ effect => exact .inr (by rw [effect])
    | resetWithoutUser _ _ _ _ only => exact .inr (only _ (by simp))
    | reset _ _ _ _ => exact .inl ⟨_, rfl⟩
  · rintro prior t report ext hprior hanswer userId rfl
    cases hanswer with
    | @confirmed earlier held after _ committed _ =>
      have hearlier : AuditedLog calls db₀ _ := .of_extends committed hprior
      obtain ⟨passwordHash, tokenHash, now, faults, hcall, hreset⟩ :=
        hearlier.2.1.2.resetCommitted
      exact ⟨earlier, held, after, passwordHash, tokenHash, now, faults, committed, hcall, hreset⟩
  · intro t hashed tokenHash now faults e hcall herror
    refine run_commits_of_error audited_keeps rfl hunique hrun herror
      (p := fun report => report = .passwordReset none ∨
        ∃ userId, report = .passwordReset (some userId) ∧ faults.successAudit.isSome = true) ?_ ?_
    · intro reports hraised report hreport
      simp only [auditedGuarantee, hcall, AuditedCall.Raised] at hraised
      rcases hraised with rfl | rfl | ⟨userId, rfl, haudit⟩
      · simp at hreport
      · exact .inl (List.mem_singleton.mp hreport)
      · exact .inr ⟨userId, List.mem_singleton.mp hreport, haudit⟩
    · rintro prior report held after - ⟨-, hcommit⟩ (rfl | ⟨userId, rfl, haudit⟩)
      · cases hcommit with
        | refused _ effect => exact .inl effect
        | resetWithoutUser call used hash missing only =>
          obtain ⟨rfl, rfl, rfl, rfl⟩ :=
            AuditedCall.confirmPasswordReset.inj (hcall.symm.trans call)
          exact .inr (.inl ⟨_, _, used, hash, missing, only⟩)
      · obtain ⟨passwordHash, tokenHash', now', faults', call, hreset⟩ := hcommit.resetCommitted
        obtain ⟨rfl, rfl, rfl, rfl⟩ := AuditedCall.confirmPasswordReset.inj (hcall.symm.trans call)
        exact .inr (.inr ⟨haudit, passwordHash, userId, rfl, hreset⟩)

/-! ## Resets of one user -/

/-- The second user has an open reset token. -/
def bobResetting : Db store := view
  [.put .passwordResetToken "p1" ⟨"reset", "bob", 1000, none⟩] adminAndUser

/-- Two confirmations of one token, and an issue. -/
def twoResets : ℕ → AuditedCall
  | 0 => .confirmPasswordReset (.ok "new") "reset" 10 ⟨none, none, none⟩
  | 1 => .confirmPasswordReset (.ok "other") "reset" 11 ⟨none, none, none⟩
  | _ => .issue "bob" "temis" ⟨"r2", "h2", 200⟩

def twoResetsActs : List (Act store) :=
  [.call 0, .call 1, .call 2, .step 0 [], .step 0 [], .step 1 [], .step 1 [], .step 1 ["p1"],
    .step 2 [], .step 2 ["bob"], .step 2 [], .step 2 [], .step 2 [], .step 2 [], .step 2 [],
    .step 0 ["p1"], .step 0 [], .step 0 ["bob"], .step 0 [], .step 0 ["c1"], .step 0 [],
    .step 0 ["r2", "r1"], .step 0 [], .step 0 [], .step 0 [], .step 0 [], .step 1 [], .step 1 []]

/-- Both confirmations have found the token open; one changes the password. -/
theorem racingResets_change_once :
    ∃ sys, auditedRun twoResets bobResetting twoResetsActs = some sys ∧
      sys.shared.log.reports 0 = [.passwordReset (some "bob"), .passwordResetConfirmed "bob"] ∧
      sys.error 1 = some .invalidResetToken ∧
      sys.shared.log.tally (changesPassword twoResets "reset") ≤ 1 := by
  have hsome : (auditedRun twoResets bobResetting twoResetsActs).any (fun sys =>
      sys.shared.log.reports 0 = [.passwordReset (some "bob"), .passwordResetConfirmed "bob"] ∧
      sys.error 1 = some .invalidResetToken) = true := by decide
  obtain ⟨sys, hrun, hsys⟩ := (Option.any_eq_true _ _).mp hsome
  obtain ⟨hfirst, hsecond⟩ := of_decide_eq_true hsys
  exact ⟨sys, hrun, hfirst, hsecond, (passwordReset_atomic (by decide) hrun).1 "reset"⟩

def unauditedReset : ℕ → AuditedCall
  | _ => .confirmPasswordReset (.ok "new") "reset" 10 ⟨none, some (.runtime "audit"), none⟩

/-- The audit of a committed reset fails: the call raises, and everything has changed. -/
theorem failedAudit_keeps_reset :
    ∃ sys, auditedRun unauditedReset bobResetting
        [.call 0, .step 0 [], .step 0 [], .step 0 ["p1"], .step 0 [], .step 0 ["bob"], .step 0 [],
          .step 0 ["c1"], .step 0 [], .step 0 ["r1"], .step 0 [], .step 0 []] = some sys ∧
      sys.error 0 = some (.runtime "audit") ∧
      bobResetting.get .passwordResetToken "p1" = some ⟨"reset", "bob", 1000, none⟩ ∧
      sys.shared.db.get .passwordResetToken "p1" = some ⟨"reset", "bob", 1000, some 10⟩ ∧
      bobResetting.get .passwordCredential "c1" =
        some ⟨"bob", "bob@example.com", "old", 0, none⟩ ∧
      sys.shared.db.get .passwordCredential "c1" =
        some ⟨"bob", "bob@example.com", "new", 0, none⟩ ∧
      sys.shared.db.get .refreshToken "r1" = some ⟨"h1", "bob", 100, some 10, "temis"⟩ := by
  have hsome : (auditedRun unauditedReset bobResetting
      [.call 0, .step 0 [], .step 0 [], .step 0 ["p1"], .step 0 [], .step 0 ["bob"], .step 0 [],
        .step 0 ["c1"], .step 0 [], .step 0 ["r1"], .step 0 [], .step 0 []]).any (fun sys =>
      sys.error 0 = some (.runtime "audit") ∧
      bobResetting.get .passwordResetToken "p1" = some ⟨"reset", "bob", 1000, none⟩ ∧
      sys.shared.db.get .passwordResetToken "p1" = some ⟨"reset", "bob", 1000, some 10⟩ ∧
      bobResetting.get .passwordCredential "c1" =
        some ⟨"bob", "bob@example.com", "old", 0, none⟩ ∧
      sys.shared.db.get .passwordCredential "c1" =
        some ⟨"bob", "bob@example.com", "new", 0, none⟩ ∧
      sys.shared.db.get .refreshToken "r1" = some ⟨"h1", "bob", 100, some 10, "temis"⟩) =
        true := by decide
  obtain ⟨sys, hrun, hsys⟩ := (Option.any_eq_true _ _).mp hsome
  exact ⟨sys, hrun, of_decide_eq_true hsys⟩

end WiseacctSso
