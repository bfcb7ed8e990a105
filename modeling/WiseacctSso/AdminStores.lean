import WiseacctSso.SessionStores

/-!
# Administration: guards, stores and requests

A request is authorized in a connection of its own, before its mutation's transaction
begins. Success audits ride in the mutation's transaction and are left out.
-/
namespace WiseacctSso
open ReadCommitted

/-- `str.lower` and `str.strip` of Python. -/
structure PythonText where
  lower : String → String
  strip : String → String

structure AdminRoleProfile where
  id : String
  serviceKey : String
  name : String

def selfStatusForbidden (status : UserStatus) : Bool :=
  status = .suspended || status = .deleted

def shouldRevokeForStatus (status : UserStatus) : Bool :=
  status = .suspended || status = .deleted

section guards

variable (py : PythonText)

def assertUserId (userId : String) : StoreProg Unit :=
  if py.strip userId = "" then .raise (.domain 400 "INVALID_USER_ID" "User id is required")
  else pure ()

def assertRoleInput (serviceKey name : String) : StoreProg Unit :=
  if py.strip serviceKey = "" ∨ py.strip name = "" then
    .raise (.domain 400 "INVALID_ROLE" "Role service key and name are required")
  else pure ()

end guards

def assertSelfStatusChangeAllowed (actorUserId targetUserId : String) (status : UserStatus) :
    StoreProg Unit :=
  if actorUserId = targetUserId ∧ selfStatusForbidden status then
    .raise (.domain 403 "FORBIDDEN" "Admins cannot suspend or delete their own account")
  else pure ()

def assertSelfAdminRoleRemovalAllowed (actorUserId targetUserId serviceKey name : String) :
    StoreProg Unit :=
  if actorUserId = targetUserId ∧ serviceKey = "temis" ∧ name = "admin" then
    .raise (.domain 403 "FORBIDDEN" "Admins cannot remove their own admin role")
  else pure ()

def assertSelfSessionRevokeAllowed (actorUserId targetUserId : String) : StoreProg Unit :=
  if actorUserId = targetUserId then
    .raise (.domain 403 "FORBIDDEN" "Admins cannot revoke their own sessions")
  else pure ()

/-- The user is ACTIVE and holds a role `temis:admin`. -/
def activeTemisAdmin (db : Db store) (userId : String) : Bool :=
  match db.get .user userId with
  | none => false
  | some u => u.status = .active && (rolesOf db userId).any fun r =>
      r.serviceKey = "temis" && r.name = "admin"

namespace AdminDirectoryStore

def isActiveTemisAdmin (userId : String) : StoreProg Bool :=
  query (.isActiveTemisAdmin userId) fun db => activeTemisAdmin db userId

end AdminDirectoryStore

namespace AdminMutationStore

def updateUserStatus (userId : String) (status : UserStatus) : StoreProg Bool := do
  let result ← updateRows (Γ := store) .user (fun id _ => id = userId)
    (fun u => { u with status := status })
  if 1 < result.length then
    .raise (.runtime "admin user status update count exceeded one")
  else pure (result.length = 1)

def lockUserForRefreshTokenRevocation (userId : String) : StoreProg Bool := do
  let locked ← lockRows (Γ := store) .user fun id _ => id = userId
  let row ← oneOrNone locked
  pure row.isSome

def revokeAllRefreshTokensForUser (userId : String) (revokedAt : Timestamp) :
    StoreProg ℕ := do
  if ← lockUserForRefreshTokenRevocation userId then
    let result ← updateRows (Γ := store) .refreshToken
      (fun _ r => r.userId = userId && r.revokedAt = none)
      (fun r => { r with revokedAt := some revokedAt }) (uniques_revoked revokedAt)
    pure result.length
  else pure 0

/-- ON CONFLICT DO UPDATE: an existing role is locked and written back as it was. -/
def upsertRole (id serviceKey name : String) : StoreProg AdminRoleProfile := do
  if ← insertOrSkip (Γ := store) .uniqueViolation .role id ⟨serviceKey, name⟩ then
    pure ⟨id, serviceKey, name⟩
  else do
  let rows ← updateRows (Γ := store) .role
    (fun _ r => r.serviceKey = serviceKey && r.name = name) (fun r => r)
  match rows with
  | [(existing, r)] => pure ⟨existing, r.serviceKey, r.name⟩
  | _ => .raise (.runtime "admin role upsert did not return a role")

def findRole (serviceKey name : String) : StoreProg (Option AdminRoleProfile) :=
  query (.findRole serviceKey name) fun db =>
    (firstRow db .role fun _ r => r.serviceKey = serviceKey && r.name = name).map fun r =>
      ⟨r.1, r.2.serviceKey, r.2.name⟩

def assignRoleToUser (id userId roleId : String) : StoreProg Bool :=
  insertOrSkip (Γ := store) .uniqueViolation .userRole id ⟨userId, roleId⟩

def removeRoleFromUser (userId roleId : String) : StoreProg Bool := do
  let result ← deleteRows (Γ := store) .userRole fun _ ur =>
    ur.userId = userId && ur.roleId = roleId
  pure (0 < result.length)

end AdminMutationStore

inductive AdminRequest
  | setUserStatus (targetUserId : String) (status : UserStatus) (now : Timestamp)
  | assignRole (targetUserId serviceKey name newRoleId newUserRoleId : String)
  | removeRole (targetUserId serviceKey name : String) (now : Timestamp)
  | revokeSessions (targetUserId : String) (now : Timestamp)

structure SetUserStatusResult where
  statusChanged : Bool
  revokedRefreshTokenCount : ℕ

structure AssignRoleResult where
  roleAssigned : Bool
  roleId : String

structure RemoveRoleResult where
  roleRemoved : Bool
  roleId : Option String
  revokedRefreshTokenCount : ℕ

structure RevokeSessionsResult where
  revokedCount : ℕ

namespace Phase6AdminService

open AdminMutationStore

/-- Re-read the caller's authorization from the database. -/
def authorizeAdmin (py : PythonText) (userId : String) : StoreProg Unit := do
  assertUserId py userId
  let authorized ← connection (AdminDirectoryStore.isActiveTemisAdmin userId)
  if authorized then pure ()
  else .raise (.domain 403 "FORBIDDEN" "Admin role is required")

section mutations

variable (py : PythonText) (actorUserId targetUserId : String)

def setUserStatus (status : UserStatus) (now : Timestamp) : StoreProg SetUserStatusResult := do
  assertUserId py targetUserId
  assertSelfStatusChangeAllowed actorUserId targetUserId status
  transaction (fun _ => .userStatusSet targetUserId status) do
    let changed ← updateUserStatus targetUserId status
    let revoked ← (if shouldRevokeForStatus status then
        revokeAllRefreshTokensForUser targetUserId now
      else pure 0)
    pure ⟨changed, revoked⟩

def assignRole (serviceKey name newRoleId newUserRoleId : String) :
    StoreProg AssignRoleResult := do
  assertUserId py targetUserId
  assertRoleInput py serviceKey name
  transaction (fun result => .roleAssigned targetUserId result.roleId) do
    let role ← upsertRole newRoleId serviceKey name
    let assigned ← assignRoleToUser newUserRoleId targetUserId role.id
    pure ⟨assigned, role.id⟩

def removeRole (serviceKey name : String) (now : Timestamp) : StoreProg RemoveRoleResult := do
  assertUserId py targetUserId
  assertRoleInput py serviceKey name
  assertSelfAdminRoleRemovalAllowed actorUserId targetUserId serviceKey name
  transaction (fun result => .roleRemoved targetUserId result.roleRemoved) do
    match ← findRole serviceKey name with
    | none => pure ⟨false, none, 0⟩
    | some role =>
        let removed ← removeRoleFromUser targetUserId role.id
        let revoked ← (if removed then revokeAllRefreshTokensForUser targetUserId now
          else pure 0)
        pure ⟨removed, some role.id, revoked⟩

def revokeSessions (now : Timestamp) : StoreProg RevokeSessionsResult := do
  assertUserId py targetUserId
  assertSelfSessionRevokeAllowed actorUserId targetUserId
  transaction (fun _ => .sessionsRevoked targetUserId) do
    let revoked ← revokeAllRefreshTokensForUser targetUserId now
    pure ⟨revoked⟩

end mutations

/-- The mutation a request runs once its caller is authorized. -/
def mutate (py : PythonText) (actorUserId : String) : AdminRequest → StoreProg Unit
  | .setUserStatus target status now => do
      let _ ← setUserStatus py actorUserId target status now
  | .assignRole target serviceKey name newRoleId newUserRoleId => do
      let _ ← assignRole py target serviceKey name newRoleId newUserRoleId
  | .removeRole target serviceKey name now => do
      let _ ← removeRole py actorUserId target serviceKey name now
  | .revokeSessions target now => do
      let _ ← revokeSessions py actorUserId target now

def request (py : PythonText) (actorUserId : String) (r : AdminRequest) : StoreProg Unit := do
  authorizeAdmin py actorUserId
  mutate py actorUserId r

end Phase6AdminService

end WiseacctSso
