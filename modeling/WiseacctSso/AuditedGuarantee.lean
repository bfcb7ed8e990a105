import WiseacctSso.AuditedServices
import WiseacctSso.PasswordResetEffects

/-!
# What the commits of audited calls may do

For each report of an audited call, what its commit does to the tables, and what a call
that has raised an error may have reported.
-/
namespace WiseacctSso
open ReadCommitted PasswordResetStore

namespace AuditedCall

/-- The token a rotation presents, when, and what it would issue. -/
def rotation : AuditedCall → Option (String × Timestamp × IssuedRefreshToken)
  | rotate tokenHash _ now issued => some (tokenHash, now, issued)
  | refresh _ tokenHash now issued _ => some (tokenHash, now, issued)
  | _ => none

/-- What a call that raises may have reported: the commit of a refresh only when the audit of
its success failed, that of a reset also when it found no user. -/
def Raised : AuditedCall → List Report → Prop
  | refresh _ tokenHash _ _ faults, reports =>
      reports = [] ∨ reports = [.rotated tokenHash] ∧ faults.successAudit.isSome = true
  | confirmPasswordReset _ _ _ faults, reports =>
      reports = [] ∨ reports = [.passwordReset none] ∨
        ∃ userId, reports = [.passwordReset (some userId)] ∧ faults.successAudit.isSome = true
  | _, _ => True

end AuditedCall

section guarantee

variable (calls : ℕ → AuditedCall)

/-- The commits of audited calls, by what they report. -/
inductive AuditedCommit (log : Log store) (t : ℕ) (held : Lock store → Bool)
    (after : Db store) : Report → Prop
  | rotated {tokenHash userId audience : String} {now : Timestamp} {issued : IssuedRefreshToken}
      {sourceId : String} {source : RefreshToken}
      (call : (calls t).rotation = some (tokenHash, now, issued))
      (effect : TokenRotated tokenHash userId audience now issued held log.db after sourceId
        source) : AuditedCommit log t held after (.rotated tokenHash)
  | tokenIssued {userId audience : String} {issued : IssuedRefreshToken}
      (call : calls t = .issue userId audience issued)
      (effect : TokenInserted userId audience issued held log.db after) :
      AuditedCommit log t held after (.tokenIssued userId)
  | refused {report : Report}
      (report_mem : report ∈ [.rotationRefused, .tokenRefused, .passwordReset none])
      (effect : after = log.db) : AuditedCommit log t held after report
  | resetWithoutUser {hashed : Except Error String} {tokenHash : String} {now : Timestamp}
      {faults : Faults} {tokenId : String} {token : PasswordResetToken}
      (call : calls t = .confirmPasswordReset hashed tokenHash now faults)
      (used : ResetTokenUsed tokenId token now log.db after) (hash : token.tokenHash = tokenHash)
      (missing : log.db.get .user token.userId = none)
      (only : OnlyTables [.passwordResetToken] log.db after) :
      AuditedCommit log t held after (.passwordReset none)
  | reset {passwordHash tokenHash : String} {now : Timestamp} {faults : Faults}
      {tokenId : String} {token : PasswordResetToken}
      (call : calls t = .confirmPasswordReset (.ok passwordHash) tokenHash now faults)
      (used : ResetTokenUsed tokenId token now log.db after) (hash : token.tokenHash = tokenHash)
      (replaced : PasswordReplaced token.userId passwordHash log.db after) :
      AuditedCommit log t held after (.passwordReset (some token.userId))

/-- A confirmation answers when its commit has been made. -/
inductive AuditedAnswer (log : Log store) (t : ℕ) (ext : RedisState) : Report → Prop
  | confirmed {earlier : Log store} {held : Lock store → Bool} {after : Db store}
      {userId : String}
      (committed : (earlier.add
        (.committed t (.passwordReset (some userId)) held after)).Precedes log)
      (effect : ext = log.ext) : AuditedAnswer log t ext (.passwordResetConfirmed userId)

def auditedGuarantee (db₀ : Db store) : Guarantee store where
  initial db _ := db = db₀
  commit log t report held after :=
    log.reports t = [] ∧ AuditedCommit calls log t held after report
  call log t report ext := AuditedAnswer log t ext report
  raised t reports := (calls t).Raised reports

end guarantee

variable {calls : ℕ → AuditedCall} {db₀ : Db store} {t : ℕ}

/-! ## What a call relies on -/

lemma AuditedCommit.step {log : Log store} {held : Lock store → Bool} {after : Db store}
    {report : Report} (h : AuditedCommit calls log t held after report) :
    SessionStep held log.db after := by
  cases h with
  | rotated _ effect => exact effect.only.sessionStep (by simp) (by simp) effect.step
  | tokenIssued _ effect => exact effect.only.sessionStep (by simp) (by simp) effect.step
  | refused _ effect =>
    subst effect
    exact ⟨fun _ => rfl, fun _ _ hr => hr, fun _ => .same rfl⟩
  | resetWithoutUser _ _ _ _ only =>
    exact only.sessionStep (by simp) (by simp) fun κ => .same (only.get (by simp) κ)
  | reset _ _ _ replaced =>
    exact replaced.only.sessionStep (by simp) (by simp) (replaced.tokens.revoked.step held)

lemma audited_takesSteps : TakesSessionSteps (auditedGuarantee calls db₀) :=
  fun _ _ _ _ _ h => h.2.step

/-- What one commit does to one reset token. -/
inductive ResetTokenStep (before after : Db store) (κ : String) : Prop
  | same (h : after.get .passwordResetToken κ = before.get .passwordResetToken κ)
  | used {r : PasswordResetToken} {now : Timestamp}
      (found : before.get .passwordResetToken κ = some r)
      (h : after.get .passwordResetToken κ = some { r with usedAt := some now })

lemma ResetTokenUsed.step {tokenId : String} {token : PasswordResetToken} {now : Timestamp}
    {before after : Db store} (h : ResetTokenUsed tokenId token now before after) (κ : String) :
    ResetTokenStep before after κ := by
  by_cases hκ : κ = tokenId
  · subst hκ
    exact .used h.found ((h.lookup κ).trans (if_pos rfl))
  · exact .same ((h.lookup κ).trans (if_neg hκ))

lemma AuditedCommit.resetTokenStep {log : Log store} {held : Lock store → Bool}
    {after : Db store} {report : Report} (h : AuditedCommit calls log t held after report)
    (κ : String) : ResetTokenStep log.db after κ := by
  cases h with
  | rotated _ effect => exact .same (effect.only.get (by simp) κ)
  | tokenIssued _ effect => exact .same (effect.only.get (by simp) κ)
  | refused _ effect => exact .same (by rw [effect])
  | resetWithoutUser _ used _ _ _ => exact used.step κ
  | reset _ used _ _ => exact used.step κ

/-- A reset token keeps its hash and its user, and stays used. -/
lemma resetToken_of_extends {permitted : Event store → Prop} {log log' : Log store}
    (h : log.Extends permitted log') (hv : log'.Valid (auditedGuarantee calls db₀)) {κ : String}
    {r : PasswordResetToken} (hr : log.db.get .passwordResetToken κ = some r) :
    ∃ r', log'.db.get .passwordResetToken κ = some r' ∧ r'.tokenHash = r.tokenHash ∧
      r'.userId = r.userId ∧ (r.usedAt ≠ none → r'.usedAt ≠ none) := by
  induction h with
  | refl => exact ⟨r, hr, rfl, rfl, id⟩
  | @add log' event _ _ ih =>
    cases event with
    | selected t q => exact ih hv.of_add
    | called t report ext => exact ih hv.of_add
    | committed t report held db =>
      obtain ⟨r₁, hr₁, hhash, huser, hused⟩ := ih hv.of_add
      cases hv.2.1.2.resetTokenStep κ with
      | same hsame => exact ⟨r₁, hsame.trans hr₁, hhash, huser, hused⟩
      | used found hafter =>
        obtain rfl := Option.some.inj (found.symm.trans hr₁)
        exact ⟨_, hafter, hhash, huser, fun _ => by simp⟩

end WiseacctSso
