import WiseacctSso.Schema
import WiseacctSso.ReadCommittedSoundness

/-!
# The store signature

The statements, results and errors of the persistence layer, and the part of Redis that
holds authorization handoffs.
-/
namespace WiseacctSso
open ReadCommitted

inductive LoginMethod
  | oauth
  | password
  deriving DecidableEq

/-- A stored authorization handoff. -/
structure StoredAuthHandoffMetadata where
  clientId : String
  audience : String
  redirectUri : String
  userId : String
  loginMethod : LoginMethod
  codeChallenge : String
  state : Option String
  expiresAtEpochMs : Timestamp
  provider : Option String
  deriving DecidableEq

/-- The Redis keys of live handoffs. -/
structure RedisState where
  handoffs : AList fun _ : String => StoredAuthHandoffMetadata

/-- The SELECT statements and Redis reads, by the store method that issues them. -/
inductive Query
  | findByEmail (email : String)
  | findCurrentActive (userId : String)
  | findCurrent (userId : String)
  | roles (userId : String)
  | findCredentialByEmail (email : String)
  | storedRefreshToken (tokenHash : String)
  | unrevokedRefreshToken (tokenHash : String)
  | activePasswordUser (email : String)
  | passwordResetToken (tokenHash : String)
  | isActiveTemisAdmin (userId : String)
  | findRole (serviceKey name : String)
  | handoff (code : String)
  | eligibleUser (email : String)
  | verificationToken (tokenHash : String)
  | confirmedUser (userId : String)
  | pendingPassword (userId : String)
  | reservation (email : String)
  | userById (userId : String)
  | defaultRole (serviceKey name : String)
  | socialUser (provider providerUserId : String)
  | verifiedEmailUser (email : String)
  | emailOwner (email : String)
  deriving DecidableEq

/-- What a committed transaction or a Redis command did. -/
inductive Report
  | rotated (tokenHash : String)
  | rotationRefused
  | tokenIssued (userId : String)
  | tokenRefused
  | loggedOut
  | userStatusSet (userId : String) (status : UserStatus)
  | roleAssigned (userId roleId : String)
  | roleRemoved (userId : String) (removed : Bool)
  | sessionsRevoked (userId : String)
  | passwordResetRequested (userId : String)
  | passwordReset (userId : Option String)
  | passwordResetConfirmed (userId : String)
  | loginSucceeded (userId : String)
  | loginFailureRecorded (userId : String) (lockedUntil : Option Timestamp)
  | failureCounted (userId : String) (found : Bool) (failedLoginCount : Option ℕ)
      (lockedUntil : Option Timestamp)
  | authorizationDenied
  | handoffCreated (code : String)
  | handoffCodeTaken (code : String)
  | handoffConsumed (code : String)
  | handoffMissed (code : String)
  | handoffExpired (code : String)
  | registered (userId : String)
  | verificationTokenCreated (tokenHash : String)
  | emailConfirmed (userId : Option String)
  | oauthResolved (userId : String)
  | signedIn (userId : String)
  deriving DecidableEq

inductive Error
  /-- A `RuntimeError` that names its operation. -/
  | runtime (message : String)
  /-- A `ValueError` of a record that does not meet its contract. -/
  | value (message : String)
  /-- An `IntegrityError` with SQLSTATE 23505. -/
  | uniqueViolation
  /-- A `DataError` with SQLSTATE 22003. -/
  | numericOutOfRange
  /-- `MultipleResultsFound` of `one_or_none`. -/
  | multipleResults
  | refreshRotationConflict (message : String)
  | invalidVerificationToken
  | invalidResetToken
  | authHandoffCreation
  | passwordAuthFailure (userId : Option String) (reasonCode : String)
  | oidcService (error description : String)
  | domain (statusCode : ℕ) (code message : String)
  deriving DecidableEq

abbrev store : Signature where
  Table := Table
  Key := String
  Entry := Entry
  Row := Table.Row
  uniques := Table.uniques
  Query := Query
  Report := Report
  External := RedisState
  Error := Error
  tableDecEq := inferInstance
  keyDecEq := inferInstance
  entryDecEq := inferInstance

instance : Fintype store.Table := inferInstanceAs (Fintype Table)

abbrev StoreProg (α : Type) : Type := Prog store α

/-- The answer of a call reaches its caller. -/
def answer (report : Report) : StoreProg Unit := .call id (fun _ => report) fun _ => .ret ()

/-- The rowcount check after a statement that must touch one row. -/
def requireOne {α : Type} (rows : List α) (operation : String) : StoreProg Unit :=
  if rows.length = 1 then pure () else .raise (.runtime (operation ++ " count was not one"))

/-- `one_or_none` over the rows a locking SELECT returned. -/
def oneOrNone {α : Type} : List α → StoreProg (Option α)
  | [] => pure none
  | [row] => pure (some row)
  | _ => .raise .multipleResults

end WiseacctSso
