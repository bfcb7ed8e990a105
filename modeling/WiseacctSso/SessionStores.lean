import WiseacctSso.Store

/-!
# Stores for sessions and password credentials

Each definition is the store method of that name; a `with_for_update` SELECT is
`lockRows`, and a rowcount is the length of the list a statement returns.
-/
namespace WiseacctSso
open ReadCommitted

structure CurrentUserRecord where
  id : String
  email : Option String
  emailVerified : Bool
  name : Option String
  status : UserStatus
  roles : List Role

/-- The roles a join of `UserRole` and `Role` shows for a user. -/
def rolesOf (db : Db store) (userId : String) : List Role :=
  (selectRows db .userRole fun _ ur => ur.userId = userId).filterMap fun ur =>
    db.get .role ur.2.roleId

namespace UserReadStore

def withRoles (id : String) (user : User) : StoreProg CurrentUserRecord := do
  let roles ← query (.roles id) fun db => rolesOf db id
  pure ⟨id, user.email, user.emailVerified, user.name, user.status, roles⟩

def findByEmail (email : String) : StoreProg (Option CurrentUserRecord) := do
  let user ← query (.findByEmail email) fun db =>
    firstRow db .user fun _ u => u.email = some email
  match user with
  | none => pure none
  | some (id, u) => some <$> withRoles id u

def findCurrentActive (userId : String) : StoreProg (Option CurrentUserRecord) := do
  let user ← query (.findCurrentActive userId) fun db =>
    firstRow db .user fun id u => id = userId && u.status = .active
  match user with
  | none => pure none
  | some (id, u) => some <$> withRoles id u

/-- Read current claims without authorizing the status. -/
def findCurrent (userId : String) : StoreProg (Option CurrentUserRecord) := do
  let user ← query (.findCurrent userId) fun db => firstRow db .user fun id _ => id = userId
  match user with
  | none => pure none
  | some (id, u) => some <$> withRoles id u

end UserReadStore

structure PasswordCredentialRecord where
  userId : String
  email : String
  passwordHash : String
  failedLoginCount : ℕ
  lockedUntil : Option Timestamp
  userStatus : UserStatus

/-- The join of a credential with its user. -/
def credentialByEmail (db : Db store) (email : String) : Option PasswordCredentialRecord :=
  ((selectRows db .passwordCredential fun _ c => c.email = email).filterMap fun c =>
    (db.get .user c.2.userId).map fun u =>
      ⟨c.2.userId, c.2.email, c.2.passwordHash, c.2.failedLoginCount, c.2.lockedUntil,
        u.status⟩).head?

lemma credentialByEmail_some {db : Db store} {email : String} {c : PasswordCredentialRecord}
    (h : credentialByEmail db email = some c) :
    ∃ (κ : String) (row : PasswordCredential), db.get .passwordCredential κ = some row ∧
      row.userId = c.userId ∧ row.passwordHash = c.passwordHash ∧
      row.lockedUntil = c.lockedUntil := by
  obtain ⟨⟨κ, row⟩, hrow, hc⟩ := List.mem_filterMap.mp (List.mem_of_mem_head? h)
  obtain ⟨u, -, rfl⟩ := Option.map_eq_some_iff.mp hc
  exact ⟨κ, row, (mem_selectRows.mp hrow).1, rfl, rfl, rfl⟩

structure PasswordRegistration where
  userId : String
  credentialId : String
  email : String
  name : Option String
  passwordHash : String
  status : UserStatus

structure PendingPasswordUpsert where
  id : String
  userId : String
  email : String
  passwordHash : String
  expiresAt : Timestamp

namespace PasswordAuthStore

def findCredentialByEmail (email : String) : StoreProg (Option PasswordCredentialRecord) :=
  query (.findCredentialByEmail email) fun db => credentialByEmail db email

/-- The reset is unconditional: the row is found by its user alone. -/
def markLoginSuccess (userId : String) : StoreProg Unit := do
  let result ← updateRows (Γ := store) .passwordCredential (fun _ c => c.userId = userId)
    (fun c => { c with failedLoginCount := 0, lockedUntil := none })
  requireOne result "password login-success reset"

end PasswordAuthStore

structure FailedLoginResult where
  found : Bool
  failedLoginCount : Option ℕ
  lockedUntil : Option Timestamp

namespace FailedLoginStore

/-- The largest value of the `Integer` column of the count. -/
def maxFailedLoginCount : ℕ := 2 ^ 31 - 1

/-- Increment atomically, then lock once the new count reaches the threshold. -/
def recordFailure (userId : String) (lockedUntil : Timestamp) (threshold : ℕ) :
    StoreProg FailedLoginResult := do
  if threshold < 1 then .raise (.value "threshold must be positive") else do
  let incremented ← updateRows (Γ := store) .passwordCredential (fun _ c => c.userId = userId)
    (fun c => { c with failedLoginCount := c.failedLoginCount + 1 })
  -- An UPDATE that takes a count out of the range of its column fails.
  if incremented.any fun x => maxFailedLoginCount ≤ x.2.failedLoginCount then
    .raise .numericOutOfRange
  else
  match incremented with
  | [] => pure ⟨false, none, none⟩
  | [(_, c)] =>
      let locked ← updateRows (Γ := store) .passwordCredential
        (fun _ c => c.userId = userId && threshold ≤ c.failedLoginCount)
        (fun c => { c with lockedUntil := some lockedUntil })
      match locked with
      | [] => pure ⟨true, some (c.failedLoginCount + 1), none⟩
      | [_] => pure ⟨true, some (c.failedLoginCount + 1), some lockedUntil⟩
      | _ => .raise (.runtime "password credential lock update count exceeded one")
  | _ => .raise (.runtime "password credential increment count was not one")

end FailedLoginStore

structure RefreshTokenRecord where
  userId : String
  audience : String
  deriving DecidableEq

structure RefreshReplacement where
  id : String
  tokenHash : String
  expiresAt : Timestamp

structure RefreshTokenInsert where
  id : String
  tokenHash : String
  audience : String
  expiresAt : Timestamp

namespace TokenIssueStore

/-- Lock an active user, read its claims, then persist its refresh token. -/
def issueForActiveUser (userId : String) (refresh : RefreshTokenInsert) :
    StoreProg (Option CurrentUserRecord) := do
  let locked ← lockRows (Γ := store) .user fun id u => id = userId && u.status = .active
  match ← oneOrNone locked with
  | none => pure none
  | some _ =>
      match ← UserReadStore.findCurrentActive userId with
      | none => pure none
      | some user =>
          insertRow (Γ := store) .uniqueViolation .refreshToken refresh.id
            ⟨refresh.tokenHash, userId, refresh.expiresAt, none, refresh.audience⟩
          pure (some user)

end TokenIssueStore

/-- A revocation leaves the unique columns as they are. -/
lemma uniques_revoked (now : Timestamp) (r : RefreshToken) :
    store.uniques .refreshToken { r with revokedAt := some now } =
      store.uniques .refreshToken r := rfl

namespace RefreshRotationStore

/-- Read the token, lock its user, revoke the token if it is still live, insert the
replacement. -/
def rotate (oldTokenHash expectedAudience : String) (now : Timestamp)
    (replacementFactory : RefreshTokenRecord → RefreshReplacement) :
    StoreProg (Option RefreshTokenRecord) := do
  let stored ← query (.storedRefreshToken oldTokenHash) fun db =>
    (firstRow db .refreshToken fun _ r => r.tokenHash = oldTokenHash).map fun r =>
      (⟨r.2.userId, r.2.audience⟩ : RefreshTokenRecord)
  match stored with
  | none => pure none
  | some tokenRecord =>
      if tokenRecord.audience ≠ expectedAudience then pure none else do
      let locked ← lockRows (Γ := store) .user fun id u =>
        id = tokenRecord.userId && u.status = .active
      match ← oneOrNone locked with
      | none => pure none
      | some _ =>
          let revoked ← updateRows (Γ := store) .refreshToken
            (fun _ r => r.tokenHash = oldTokenHash && r.revokedAt = none && now < r.expiresAt)
            (fun r => { r with revokedAt := some now })
          if revoked.length ≠ 1 then
            .raise (.refreshRotationConflict "refresh token conditional revoke count was not one")
          else do
          let replacement := replacementFactory tokenRecord
          insertRow (Γ := store) .uniqueViolation .refreshToken replacement.id
            ⟨replacement.tokenHash, tokenRecord.userId, replacement.expiresAt, none,
              tokenRecord.audience⟩
          pure (some tokenRecord)

end RefreshRotationStore

namespace LogoutStore

/-- Find, then update: on the autocommit connection these are two transactions. -/
def revoke (tokenHash : String) (revokedAt : Timestamp) : StoreProg (Option String) := do
  let stored ← query (.unrevokedRefreshToken tokenHash) fun db =>
    firstRow db .refreshToken fun _ r => r.tokenHash = tokenHash && r.revokedAt = none
  let _ ← updateRows (Γ := store) .refreshToken
    (fun _ r => r.tokenHash = tokenHash && r.revokedAt = none)
    (fun r => { r with revokedAt := some revokedAt })
  pure (stored.map fun r => r.2.userId)

end LogoutStore

structure PasswordResetUser where
  id : String
  email : String

structure PasswordResetTokenInsert where
  id : String
  userId : String
  tokenHash : String
  expiresAt : Timestamp

namespace PasswordResetStore

def findActiveUser (email : String) : StoreProg (Option PasswordResetUser) :=
  query (.activePasswordUser email) fun db =>
    ((selectRows db .passwordCredential fun _ c => c.email = email).filterMap fun c =>
      (db.get .user c.2.userId).bind fun u =>
        if u.status = .active then some ⟨c.2.userId, c.2.email⟩ else none).head?

def createToken (token : PasswordResetTokenInsert) : StoreProg Unit :=
  insertRow (Γ := store) .uniqueViolation .passwordResetToken token.id
    ⟨token.tokenHash, token.userId, token.expiresAt, none⟩

def confirm (tokenHash passwordHash : String) (now : Timestamp) :
    StoreProg (Option String) := do
  let token ← query (.passwordResetToken tokenHash) fun db =>
    firstRow db .passwordResetToken fun _ r =>
      r.tokenHash = tokenHash && r.usedAt = none && now < r.expiresAt
  match token with
  | none => pure none
  | some (tokenId, token) =>
      let consumed ← updateRows (Γ := store) .passwordResetToken
        (fun id r => id = tokenId && r.usedAt = none && now < r.expiresAt)
        (fun r => { r with usedAt := some now })
      if consumed.length ≠ 1 then pure none else do
      let locked ← lockRows (Γ := store) .user fun id _ => id = token.userId
      match ← oneOrNone locked with
      | none => pure none
      | some _ =>
          let updated ← updateRows (Γ := store) .passwordCredential
            (fun _ c => c.userId = token.userId)
            (fun c => { c with passwordHash := passwordHash, failedLoginCount := 0,
                               lockedUntil := none })
          requireOne updated "password reset credential update"
          let _ ← updateRows (Γ := store) .refreshToken
            (fun _ r => r.userId = token.userId && r.revokedAt = none)
            (fun r => { r with revokedAt := some now })
          pure (some token.userId)

end PasswordResetStore

end WiseacctSso
