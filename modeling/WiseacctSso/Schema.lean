import WiseacctSso.ReadCommittedPrograms

/-!
# The database schema

The tables the authentication and administration stores read and write, with their
primary keys and unique indexes. Columns that no modelled statement reads back
(`createdAt`, `updatedAt`, `passwordUpdatedAt`, `reason`) are left out.
-/
namespace WiseacctSso
open ReadCommitted

/-- Milliseconds of a timezone-naive UTC timestamp. -/
abbrev Timestamp : Type := ℕ

inductive UserStatus
  | pendingEmailVerification
  | active
  | suspended
  | deleted
  deriving DecidableEq

structure User where
  email : Option String
  name : Option String
  profileUrl : Option String
  status : UserStatus
  emailVerified : Bool
  deriving DecidableEq

structure PasswordCredential where
  userId : String
  email : String
  passwordHash : String
  failedLoginCount : ℕ
  lockedUntil : Option Timestamp
  deriving DecidableEq

structure PendingPasswordCredential where
  userId : String
  email : String
  passwordHash : String
  expiresAt : Timestamp
  deriving DecidableEq

structure SubjectReservation where
  email : String
  subjectId : String
  deriving DecidableEq

structure SocialAccount where
  provider : String
  providerUserId : String
  providerEmail : Option String
  userId : String
  deriving DecidableEq

structure RefreshToken where
  tokenHash : String
  userId : String
  expiresAt : Timestamp
  revokedAt : Option Timestamp
  audience : String
  deriving DecidableEq

structure EmailVerificationToken where
  tokenHash : String
  userId : String
  expiresAt : Timestamp
  usedAt : Option Timestamp
  handoffClientId : Option String
  handoffAudience : Option String
  handoffRedirectUri : Option String
  handoffState : Option String
  handoffCodeChallenge : Option String
  handoffCodeChallengeMethod : Option String
  deriving DecidableEq

structure PasswordResetToken where
  tokenHash : String
  userId : String
  expiresAt : Timestamp
  usedAt : Option Timestamp
  deriving DecidableEq

structure Role where
  serviceKey : String
  name : String
  deriving DecidableEq

structure UserRole where
  userId : String
  roleId : String
  deriving DecidableEq

inductive Table
  | user
  | passwordCredential
  | pendingPasswordCredential
  | subjectReservation
  | socialAccount
  | refreshToken
  | emailVerificationToken
  | passwordResetToken
  | role
  | userRole
  deriving DecidableEq

instance : Fintype Table where
  elems := {.user, .passwordCredential, .pendingPasswordCredential, .subjectReservation,
    .socialAccount, .refreshToken, .emailVerificationToken, .passwordResetToken, .role, .userRole}
  complete T := by cases T <;> decide

/-- The rows of a table; the primary key `id` of each is the key it is stored under. -/
abbrev Table.Row : Table → Type
  | .user => User
  | .passwordCredential => PasswordCredential
  | .pendingPasswordCredential => PendingPasswordCredential
  | .subjectReservation => SubjectReservation
  | .socialAccount => SocialAccount
  | .refreshToken => RefreshToken
  | .emailVerificationToken => EmailVerificationToken
  | .passwordResetToken => PasswordResetToken
  | .role => Role
  | .userRole => UserRole

/-- An entry of one of the unique indexes other than the primary keys. -/
inductive Entry
  | email (value : String)
  | userId (value : String)
  | subjectId (value : String)
  | tokenHash (value : String)
  | providerUserId (provider providerUserId : String)
  | serviceRole (serviceKey name : String)
  | userRole (userId roleId : String)
  deriving DecidableEq

/-- `RefreshToken.tokenHash` carries no unique index. -/
abbrev Table.uniques : (T : Table) → T.Row → List Entry
  | .user, row => row.email.toList.map .email
  | .passwordCredential, row => [.userId row.userId, .email row.email]
  | .pendingPasswordCredential, row => [.userId row.userId, .email row.email]
  | .subjectReservation, row => [.email row.email, .subjectId row.subjectId]
  | .socialAccount, row => [.providerUserId row.provider row.providerUserId]
  | .refreshToken, _ => []
  | .emailVerificationToken, row => [.tokenHash row.tokenHash]
  | .passwordResetToken, row => [.tokenHash row.tokenHash]
  | .role, row => [.serviceRole row.serviceKey row.name]
  | .userRole, row => [.userRole row.userId row.roleId]

end WiseacctSso
