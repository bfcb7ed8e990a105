import WiseacctSso.ReadCommittedFaults
import WiseacctSso.SessionServices

/-!
# Services that write an audit event

A refresh and the confirmation of a password reset with the audit writes that follow their
transaction. A call is given the faults that its transaction and its audit writes meet.
-/
namespace WiseacctSso
open ReadCommitted

/-- Where a call fails besides its own checks. -/
structure Faults where
  /-- The error that a step of the transaction raises, its commit included. -/
  transaction : Option (ℕ × Error)
  successAudit : Option Error
  failureAudit : Option Error

namespace Phase5AuthService

/-- The audit event goes into a table of its own, in a transaction of its own. -/
def writeAudit (fault : Option Error) : StoreProg Unit :=
  match fault with
  | none => pure ()
  | some e => .raise e

/-- The work of the transaction of a refresh. -/
def rotateCurrent (tokenHash audience : String) (now : Timestamp) (issued : IssuedRefreshToken) :
    StoreProg CurrentUserRecord := do
  match ← RefreshRotationStore.rotate tokenHash audience now fun _ =>
      ⟨issued.id, issued.tokenHash, issued.expiresAt⟩ with
  | none => .raise (.refreshRotationConflict "refresh token was not rotatable")
  | some rotated =>
      match ← UserReadStore.findCurrentActive rotated.userId with
      | none => .raise (.refreshRotationConflict "refresh user was not active")
      | some user => pure user

def invalidRefreshToken : Error :=
  .domain 401 "INVALID_REFRESH_TOKEN" "Invalid refresh token"

/-- `verified` is the audience of the token if the codec accepts it. -/
def refreshAudited (verified : Option String) (tokenHash : String) (now : Timestamp)
    (issued : IssuedRefreshToken) (faults : Faults) : StoreProg CurrentUserRecord :=
  match verified with
  | none => do
      writeAudit faults.failureAudit
      .raise invalidRefreshToken
  | some audience =>
      (do
        let user ← transaction (Γ := store) (fun _ => .rotated tokenHash)
          ((rotateCurrent tokenHash audience now issued).faulty faults.transaction)
        writeAudit faults.successAudit
        pure user : StoreProg CurrentUserRecord).handle fun e => do
          writeAudit faults.failureAudit
          match e with
          | .refreshRotationConflict _ => .raise invalidRefreshToken
          | e => .raise e

/-- Without faults it is the refresh of a session. -/
lemma refreshAudited_of_no_faults (tokenHash audience : String) (now : Timestamp)
    (issued : IssuedRefreshToken) :
    refreshAudited (some audience) tokenHash now issued ⟨none, none, none⟩ =
      refresh tokenHash audience now issued := by
  have haudit : (do
        let user ← transaction (Γ := store) (fun _ => .rotated tokenHash)
          (rotateCurrent tokenHash audience now issued)
        writeAudit none
        pure user : StoreProg CurrentUserRecord) =
      transaction (Γ := store) (fun _ => .rotated tokenHash)
        (rotateCurrent tokenHash audience now issued) := Prog.bind_ret _
  unfold refreshAudited
  simp only [Prog.faulty, haudit]
  rfl

/-- `hashed` is the hash of the new password, or the error of its policy check. -/
def confirmPasswordResetAudited (hashed : Except Error String) (tokenHash : String)
    (now : Timestamp) (faults : Faults) : StoreProg String := do
  let userId ← (do
      match hashed with
      | .error e => .raise e
      | .ok passwordHash =>
          match ← transaction (Γ := store) .passwordReset
              ((PasswordResetStore.confirm tokenHash passwordHash now).faulty
                faults.transaction) with
          | none => .raise .invalidResetToken
          | some userId => pure userId : StoreProg String).handle fun e => do
        writeAudit faults.failureAudit
        .raise e
  writeAudit faults.successAudit
  pure userId

/-- Without faults it is the confirmation of a session. -/
lemma confirmPasswordResetAudited_of_no_faults (passwordHash tokenHash : String)
    (now : Timestamp) :
    confirmPasswordResetAudited (.ok passwordHash) tokenHash now ⟨none, none, none⟩ =
      confirmPasswordReset tokenHash passwordHash now := by
  have hhandled := Prog.handle_raise (confirmPasswordReset tokenHash passwordHash now)
  exact (Prog.bind_ret _).trans hhandled

end Phase5AuthService

inductive AuditedCall
  /-- The store's rotation in a transaction of its own. -/
  | rotate (tokenHash audience : String) (now : Timestamp) (issued : IssuedRefreshToken)
  | refresh (verified : Option String) (tokenHash : String) (now : Timestamp)
      (issued : IssuedRefreshToken) (faults : Faults)
  | issue (userId audience : String) (issued : IssuedRefreshToken)
  | confirmPasswordReset (hashed : Except Error String) (tokenHash : String) (now : Timestamp)
      (faults : Faults)

namespace AuditedCall

/-- A confirmation that succeeds reports its answer. -/
def prog : AuditedCall → StoreProg Unit
  | rotate tokenHash audience now issued => do
      let _ ← transaction (fun record => if record.isSome then .rotated tokenHash
          else .rotationRefused)
        (RefreshRotationStore.rotate tokenHash audience now fun _ =>
          ⟨issued.id, issued.tokenHash, issued.expiresAt⟩)
  | refresh verified tokenHash now issued faults => do
      let _ ← Phase5AuthService.refreshAudited verified tokenHash now issued faults
  | issue userId audience issued => do
      let _ ← Phase5AuthService.issuePair userId audience issued
  | confirmPasswordReset hashed tokenHash now faults => do
      let userId ← Phase5AuthService.confirmPasswordResetAudited hashed tokenHash now faults
      .call id (fun _ => .passwordResetConfirmed userId) fun _ => pure ()

end AuditedCall

/-- Process `t` makes the call `calls t`, if the run ever starts it. -/
def auditedRun (calls : ℕ → AuditedCall) (db : Db store) (acts : List (Act store)) :
    Option (System store) :=
  (System.initial db ⟨∅⟩).run (fun t => (calls t).prog) acts

end WiseacctSso
