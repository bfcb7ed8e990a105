import WiseacctSso.AccountStores
import WiseacctSso.SerialStatements

/-!
# Merges of split email identities

The maintenance command that gives the password of an email to the user of the Google
account with that email, and deletes the user that had it. A merge is one serializable
transaction, so its statements are functions of the tables.
-/
namespace WiseacctSso
open ReadCommitted

/-- A row of `AuditLog`. -/
structure AuditLogRow where
  userId : Option String
  actorUserId : Option String
  targetUserId : Option String
  eventType : String
  outcome : String
  provider : Option String
  reasonCode : Option String
  detailsJson : Option (List (String × String))
  deriving DecidableEq

/-- The tables together with the audit log, whose rows are kept by their ids. -/
structure Maintained where
  db : Db store
  auditLog : List (String × AuditLogRow)

/-- The foreign keys of the audit log are ON DELETE SET NULL. -/
def AuditLogRow.setNull (userId : String) (row : AuditLogRow) : AuditLogRow :=
  { row with
    userId := row.userId.filter (· ≠ userId)
    actorUserId := row.actorUserId.filter (· ≠ userId)
    targetUserId := row.targetUserId.filter (· ≠ userId) }

namespace MergeSplitIdentities

structure SplitAccountCandidate where
  email : String
  canonicalUserId : String
  passwordUserId : String
  provider : String
  providerUserId : String
  deriving DecidableEq

structure MergeSplitIdentityOptions where
  apply : Bool := false
  email : Option String := none

structure MergeSplitIdentityResult where
  mode : String
  candidates : List SplitAccountCandidate
  mergedCount : ℕ
  staleCount : ℕ
  deriving DecidableEq

section statements

-- `lower` as the database has it.
variable (lower : String → String)

/-- The ON and WHERE clauses of the candidate query. -/
def isSplit (db : Db store) (email : Option String) (pc : PasswordCredential)
    (sa : SocialAccount) : Bool :=
  (sa.providerEmail.any fun e => lower e = lower pc.email) && sa.provider = "google" &&
    sa.userId ≠ pc.userId &&
    ((db.get .user sa.userId).any fun (u : User) => u.status = .active && u.emailVerified) &&
    ((db.get .user pc.userId).any fun (u : User) => u.emailVerified) &&
    (firstRow db .passwordCredential fun _ c => c.userId = sa.userId).isNone &&
    email.all fun e => lower pc.email = lower e

def candidateSelect (db : Db store) (email : Option String) : List SplitAccountCandidate :=
  (selectRows db .passwordCredential fun _ _ => true).flatMap fun pc =>
    (selectRows db .socialAccount fun _ sa => isSplit lower db email pc.2 sa).map fun sa =>
      ⟨lower pc.2.email, sa.2.userId, pc.2.userId, sa.2.provider, sa.2.providerUserId⟩

/-- The candidate query again, for the row of one candidate. -/
def lockedCandidates (db : Db store) (candidate : SplitAccountCandidate) :
    List SplitAccountCandidate :=
  (candidateSelect lower db (some candidate.email)).filter fun row =>
    row.canonicalUserId = candidate.canonicalUserId &&
      row.passwordUserId = candidate.passwordUserId && row.provider = candidate.provider &&
      row.providerUserId = candidate.providerUserId && row.email = candidate.email

def requireOne (rowcount : ℕ) (operation : String) : Except Error Unit :=
  if rowcount = 1 then .ok ()
  else .error (.runtime (operation ++ " affected an unexpected row count"))

def updateOne (db : Db store) (T : Table) (p : String → T.Row → Bool) (assign : T.Row → T.Row)
    (operation : String) : Except Error (Db store) :=
  match updateTable (Γ := store) db T p assign with
  | none => .error .uniqueViolation
  | some after => do
      requireOne (rowcount (Γ := store) db T p) operation
      pure after

/-- DELETE of a user, with what its foreign keys cascade to. -/
def deleteUserRows (userId : String) (db : Db store) : Db store :=
  childTables.foldl (fun db T => deleteFrom (Γ := store) db T fun _ r => T.owner r = some userId)
    (deleteFrom (Γ := store) db .user fun id _ => id = userId)

def insertAudit (auditLog : List (String × AuditLogRow)) (id : String) (row : AuditLogRow) :
    Except Error (List (String × AuditLogRow)) :=
  if auditLog.any (·.1 = id) then .error .uniqueViolation else .ok (auditLog ++ [(id, row)])

def auditRow (candidate : SplitAccountCandidate) : AuditLogRow where
  userId := some candidate.canonicalUserId
  actorUserId := none
  targetUserId := some candidate.passwordUserId
  eventType := "identity_merge"
  outcome := "success"
  provider := some candidate.provider
  reasonCode := some "OPS_MERGE_SPLIT_EMAIL_IDENTITIES"
  detailsJson := some [("email", candidate.email), ("providerUserId", candidate.providerUserId),
    ("canonicalUserId", candidate.canonicalUserId),
    ("mergedPasswordUserId", candidate.passwordUserId)]

/-- The transaction of one merge; a candidate that is no longer there is stale. -/
def mergeCandidate (auditId : String) (candidate : SplitAccountCandidate) (m : Maintained) :
    Except Error (Bool × Maintained) :=
  match lockedCandidates lower m.db candidate with
  | [] => .ok (false, m)
  | [_] => do
      let db ← updateOne m.db .user (fun id _ => id = candidate.passwordUserId)
        (fun u => { u with email := none }) "password user update"
      let db ← updateOne db .user (fun id _ => id = candidate.canonicalUserId)
        (fun u => { u with email := some candidate.email, emailVerified := true })
        "canonical user update"
      let db ← updateOne db .passwordCredential (fun _ pc => pc.userId = candidate.passwordUserId)
        (fun pc => { pc with userId := candidate.canonicalUserId }) "password credential update"
      let auditLog ← insertAudit m.auditLog auditId (auditRow candidate)
      requireOne (rowcount (Γ := store) db .user fun id _ => id = candidate.passwordUserId)
        "password user delete"
      .ok (true, ⟨deleteUserRows candidate.passwordUserId db,
        auditLog.map fun row => (row.1, row.2.setNull candidate.passwordUserId)⟩)
  | _ => .error .multipleResults

/-- Candidates are merged one after another, each in a transaction of its own; the first
error ends the command and leaves what has been merged before it. -/
def mergeAll (auditId : ℕ → String) :
    ℕ → List SplitAccountCandidate → Maintained → Except Error ℕ × Maintained
  | _, [], m => (.ok 0, m)
  | n, candidate :: candidates, m =>
      match mergeCandidate lower (auditId n) candidate m with
      | .error e => (.error e, m)
      | .ok (merged, m') =>
          let (count, final) := mergeAll auditId (n + 1) candidates m'
          (count.map (merged.toNat + ·), final)

/-- The database returns the candidates in the order of their emails, ties in any order. -/
def mergeSplitIdentities (order : List SplitAccountCandidate → List SplitAccountCandidate)
    (auditId : ℕ → String) (options : MergeSplitIdentityOptions) (m : Maintained) :
    Except Error MergeSplitIdentityResult × Maintained :=
  let candidates := order (candidateSelect lower m.db options.email)
  if options.apply then
    let (merged, final) := mergeAll lower auditId 0 candidates m
    (merged.map fun count => ⟨"apply", candidates, count, candidates.length - count⟩, final)
  else (.ok ⟨"dry-run", candidates, 0, 0⟩, m)

end statements

end MergeSplitIdentities

end WiseacctSso
