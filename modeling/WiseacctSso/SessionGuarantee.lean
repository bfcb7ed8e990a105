import WiseacctSso.SessionStoreSpecs

/-!
# What the commits of session calls may do

The family of calls, and for each report of one of them what its commit does to the
tables. The step lemmas below are what a call relies on while others commit.
-/
namespace WiseacctSso
open ReadCommitted Phase5AuthService OidcService

inductive SessionCall
  /-- The store's rotation in a transaction of its own. -/
  | rotate (tokenHash audience : String) (now : Timestamp) (issued : IssuedRefreshToken)
  | refresh (tokenHash audience : String) (now : Timestamp) (issued : IssuedRefreshToken)
  | logout (tokenHash : String) (now : Timestamp)
  | issue (userId audience : String) (issued : IssuedRefreshToken)
  | login (input : LoginInput) (handoff : Option ClientHandoff) (draws : LoginDraws)
  | passwordLogin (oidc : OidcLogin) (input : LoginInput) (now : Timestamp)
  | exchange (input : AuthHandoffStore.ConsumeInput) (nowEpochMs : Timestamp)
      (issued : IssuedRefreshToken)
  /-- Redis drops a handoff whose time to live is over. -/
  | expireHandoff (code : String)
  | requestPasswordReset (email : String) (now : Timestamp) (tokenId tokenHash : String)
      (ttlMs : ℕ)
  | confirmPasswordReset (tokenHash passwordHash : String) (now : Timestamp)
  | admin (actorUserId : String) (request : AdminRequest)

namespace SessionCall

def prog (settings : AuthSettings) : SessionCall → StoreProg Unit
  | rotate tokenHash audience now issued => do
      let _ ← transaction (fun record => if record.isSome then .rotated tokenHash
          else .rotationRefused)
        (RefreshRotationStore.rotate tokenHash audience now fun _ =>
          ⟨issued.id, issued.tokenHash, issued.expiresAt⟩)
  | refresh tokenHash audience now issued => do
      let _ ← Phase5AuthService.refresh tokenHash audience now issued
  | logout tokenHash now => do
      let _ ← Phase5AuthService.logout tokenHash now
  | issue userId audience issued => do
      let _ ← issuePair userId audience issued
  | login input handoff draws => do
      let _ ← Phase5AuthService.login settings input handoff draws
  | passwordLogin oidc input now => OidcService.passwordLogin settings oidc input now
  | exchange input nowEpochMs issued => do
      let _ ← exchangeAuthHandoff settings input nowEpochMs issued
  | expireHandoff code =>
      .call (fun redis => { redis with handoffs := redis.handoffs.erase code })
        (fun _ => .handoffExpired code) fun _ => pure ()
  | requestPasswordReset email now tokenId tokenHash ttlMs =>
      Phase5AuthService.requestPasswordReset settings email now tokenId tokenHash ttlMs
  | confirmPasswordReset tokenHash passwordHash now => do
      let _ ← Phase5AuthService.confirmPasswordReset tokenHash passwordHash now
  | admin actorUserId request => Phase6AdminService.request settings.py actorUserId request

/-- The refresh token a call may store. -/
def issued : SessionCall → Option IssuedRefreshToken
  | rotate _ _ _ issued => some issued
  | refresh _ _ _ issued => some issued
  | issue _ _ issued => some issued
  | login _ _ draws => some draws.issued
  | exchange _ _ issued => some issued
  | _ => none

/-- What a password attempt presents, and the time it observes. -/
def attempt : SessionCall → Option (LoginInput × Timestamp)
  | login input _ draws => some (input, draws.now)
  | passwordLogin _ input now => some (input, now)
  | _ => none

/-- The token a rotation presents, the audience it expects and what it would issue. -/
def rotation : SessionCall → Option (String × String × Timestamp × IssuedRefreshToken)
  | rotate tokenHash audience now issued => some (tokenHash, audience, now, issued)
  | refresh tokenHash audience now issued => some (tokenHash, audience, now, issued)
  | _ => none

end SessionCall

def Report.insertsToken : Report → Bool
  | .rotated _ => true
  | .tokenIssued _ => true
  | _ => false

/-- Attempt `t` read the credential `c` after `readLog`, found it of an ACTIVE user and
not locked, and its hash verified the password. -/
structure CredentialVerified (settings : AuthSettings) (log : Log store) (t : ℕ)
    (input : LoginInput) (now : Timestamp) (userId : String) (readLog : Log store)
    (c : PasswordCredentialRecord) : Prop where
  read : (readLog.add (.selected t (.findCredentialByEmail (normalizeEmail settings
    input.email)))).Precedes log
  found : credentialByEmail readLog.db (normalizeEmail settings input.email) = some c
  user : c.userId = userId
  active : c.userStatus = .active
  unlocked : isLocked c now = false
  verified : settings.verifyPassword c.passwordHash input.password = true

section guarantee

variable (settings : AuthSettings) (calls : ℕ → SessionCall)

/-- Why process `t` may be issued a token for the user. -/
inductive IssueOrigin (log : Log store) (t : ℕ) (userId : String) : Prop
  | plain {audience : String} {issued : IssuedRefreshToken}
      (call : calls t = .issue userId audience issued)
  | login {input : LoginInput} {draws : LoginDraws} {readLog : Log store}
      {c : PasswordCredentialRecord} (call : calls t = .login input none draws)
      (verified : CredentialVerified settings log t input draws.now userId readLog c)
  | exchange {input : AuthHandoffStore.ConsumeInput} {nowEpochMs : Timestamp}
      {issued : IssuedRefreshToken} {consumedLog : Log store} {ext : RedisState}
      {handoff : StoredAuthHandoffMetadata} (call : calls t = .exchange input nowEpochMs issued)
      (consumed : (consumedLog.add (.called t (.handoffConsumed input.code) ext)).Precedes log)
      (found : consumedLog.ext.handoffs.lookup input.code = some handoff)
      (user : handoff.userId = userId)

/-- The commits of session calls, by what they report. -/
inductive SessionCommit (log : Log store) (t : ℕ) (held : Lock store → Bool)
    (after : Db store) : Report → Prop
  | rotated {tokenHash audience : String} {now : Timestamp} {issued : IssuedRefreshToken}
      {readLog : Log store} {storedId : String} {stored : RefreshToken} {sourceId : String}
      {source : RefreshToken}
      (call : (calls t).rotation = some (tokenHash, audience, now, issued))
      (first : log.reports t = []) (read : readLog.Precedes log)
      (found : readLog.db.get .refreshToken storedId = some stored)
      (hash : stored.tokenHash = tokenHash) (audience_eq : stored.audience = audience)
      (effect : TokenRotated tokenHash stored.userId stored.audience now issued held log.db after
        sourceId source) :
      SessionCommit log t held after (.rotated tokenHash)
  | tokenIssued {userId audience : String} {issued : IssuedRefreshToken}
      (call : (calls t).issued = some issued)
      (first : ∀ report ∈ log.reports t, report.insertsToken = false)
      (origin : IssueOrigin settings calls log t userId)
      (effect : TokenInserted userId audience issued held log.db after) :
      SessionCommit log t held after (.tokenIssued userId)
  | refused {report : Report}
      (report_mem : report ∈ [.rotationRefused, .tokenRefused, .authorizationDenied])
      (effect : after = log.db) : SessionCommit log t held after report
  | loggedOut {tokenHash : String} {now : Timestamp} (call : calls t = .logout tokenHash now)
      (effect : TokensRevoked (fun r => r.tokenHash = tokenHash) log.db after)
      (only : OnlyTables [.refreshToken] log.db after) : SessionCommit log t held after .loggedOut
  | userStatusSet {actor target : String} {status : UserStatus} {now : Timestamp}
      (call : calls t = .admin actor (.setUserStatus target status now))
      (guard : ¬ (actor = target ∧ selfStatusForbidden status = true))
      (effect : UserStatusSet target status log.db after)
      (tokens : if shouldRevokeForStatus status then SessionsRevoked target log.db after
        else OnlyTables [.user] log.db after)
      (only : OnlyTables [.user, .refreshToken] log.db after) :
      SessionCommit log t held after (.userStatusSet target status)
  | roleAssigned {actor target serviceKey name newRoleId newUserRoleId roleId : String}
      (call : calls t = .admin actor (.assignRole target serviceKey name newRoleId newUserRoleId))
      (effect : RoleAssigned target roleId log.db after)
      (only : OnlyTables [.role, .userRole] log.db after) :
      SessionCommit log t held after (.roleAssigned target roleId)
  | roleRemoved {actor target serviceKey name : String} {now : Timestamp} {removed : Bool}
      (call : calls t = .admin actor (.removeRole target serviceKey name now))
      (guard : ¬ (actor = target ∧ serviceKey = "temis" ∧ name = "admin"))
      (effect : after .userRole = log.db .userRole ∨ ∃ roleId,
        log.db.get .role roleId = some ⟨serviceKey, name⟩ ∧
        RoleRemoved target roleId log.db after)
      (tokens : if removed then SessionsRevoked target log.db after
        else OnlyTables [.userRole] log.db after)
      (only : OnlyTables [.userRole, .refreshToken] log.db after) :
      SessionCommit log t held after (.roleRemoved target removed)
  | sessionsRevoked {actor target : String} {now : Timestamp}
      (call : calls t = .admin actor (.revokeSessions target now)) (guard : actor ≠ target)
      (effect : SessionsRevoked target log.db after)
      (only : OnlyTables [.refreshToken] log.db after) :
      SessionCommit log t held after (.sessionsRevoked target)
  | passwordResetRequested {userId : String}
      (only : OnlyTables [.passwordResetToken] log.db after) :
      SessionCommit log t held after (.passwordResetRequested userId)
  | passwordResetRefused (only : OnlyTables [.passwordResetToken] log.db after) :
      SessionCommit log t held after (.passwordReset none)
  | passwordReset {tokenHash passwordHash userId : String} {now : Timestamp}
      (call : calls t = .confirmPasswordReset tokenHash passwordHash now)
      (effect : CredentialsChanged userId (passwordStored passwordHash) log.db after)
      (stored : ∀ κ c, after.get .passwordCredential κ = some c → c.userId = userId →
        c.passwordHash = passwordHash)
      (tokens : SessionsRevoked userId log.db after)
      (only : OnlyTables [.passwordResetToken, .passwordCredential, .refreshToken] log.db after) :
      SessionCommit log t held after (.passwordReset (some userId))
  | loginSucceeded {input : LoginInput} {now : Timestamp} {userId : String}
      {readLog : Log store} {c : PasswordCredentialRecord}
      (call : (calls t).attempt = some (input, now))
      (verified : CredentialVerified settings log t input now userId readLog c)
      (effect : CredentialsChanged userId failuresCleared log.db after)
      (only : OnlyTables [.passwordCredential] log.db after) :
      SessionCommit log t held after (.loginSucceeded userId)
  | loginFailureRecorded {input : LoginInput} {now : Timestamp} {userId : String}
      {lockedUntil : Option Timestamp} (call : (calls t).attempt = some (input, now))
      (lock : ∀ l ∈ lockedUntil, l = now + failedLoginLockMs)
      (effect : CredentialsChanged userId (failureCounted lockedUntil) log.db after)
      (only : OnlyTables [.passwordCredential] log.db after) :
      SessionCommit log t held after (.loginFailureRecorded userId lockedUntil)

/-- The Redis commands of session calls, by what they report. -/
inductive SessionCommand (log : Log store) (t : ℕ) (ext : RedisState) : Report → Prop
  | created {code : String} {input : LoginInput} {handoff : ClientHandoff} {draws : LoginDraws}
      {record : StoredAuthHandoffMetadata} {readLog : Log store} {c : PasswordCredentialRecord}
      (call : calls t = .login input (some handoff) draws)
      (verified : CredentialVerified settings log t input draws.now record.userId readLog c)
      (method : record.loginMethod = .password)
      (absent : log.ext.handoffs.lookup code = none)
      (effect : ext = ⟨log.ext.handoffs.insert code record⟩) :
      SessionCommand log t ext (.handoffCreated code)
  | codeTaken {code : String} (effect : ext = log.ext) :
      SessionCommand log t ext (.handoffCodeTaken code)
  | consumed {code : String} {record : StoredAuthHandoffMetadata}
      (found : log.ext.handoffs.lookup code = some record)
      (effect : ext = ⟨log.ext.handoffs.erase code⟩) :
      SessionCommand log t ext (.handoffConsumed code)
  | missed {code : String} (effect : ext = log.ext) :
      SessionCommand log t ext (.handoffMissed code)
  | expired {code : String} (effect : ext = ⟨log.ext.handoffs.erase code⟩) :
      SessionCommand log t ext (.handoffExpired code)

/-- Runs of session calls from the tables `db₀`. A rotation that raises an error has
committed nothing. -/
def sessionGuarantee (db₀ : Db store) : Guarantee store where
  initial db _ := db = db₀
  commit log t report held after := SessionCommit settings calls log t held after report
  call log t report ext := SessionCommand settings calls log t ext report
  raised t reports := (calls t).rotation.isSome = true → reports = []

end guarantee

end WiseacctSso
