import WiseacctSso.ReadCommittedAttempts
import WiseacctSso.SessionStores
import WiseacctSso.TokenCodec
import WiseacctSso.TransactionRetries

/-!
# A refresh and the retries of its rotation

The rotation draws its replacement inside the callback and keeps it in a variable of the
callback. An attempt that is rolled back has drawn a token that nobody gets.
-/
namespace WiseacctSso.RefreshRetries
open ReadCommitted TransactionRetries

variable {Token Key : Type} {jwt : JwtTokens.Jwt Token Key}

/-! ## The rotation with a replacement that is drawn -/

/-- The rotation of the store, for a factory that may raise and that changes `cell`. -/
def rotateDrawing {Cell : Type} (oldTokenHash expectedAudience : String) (now : Timestamp)
    (replacementFactory : RefreshTokenRecord → Cell → Except Error (RefreshReplacement × Cell))
    (cell : Cell) : StoreProg (Option RefreshTokenRecord × Cell) := do
  let stored ← query (.storedRefreshToken oldTokenHash) fun db =>
    (firstRow db .refreshToken fun _ r => r.tokenHash = oldTokenHash).map fun r =>
      (⟨r.2.userId, r.2.audience⟩ : RefreshTokenRecord)
  match stored with
  | none => pure (none, cell)
  | some tokenRecord =>
      if tokenRecord.audience ≠ expectedAudience then pure (none, cell) else do
      let locked ← lockRows (Γ := store) .user fun id u =>
        id = tokenRecord.userId && u.status = .active
      match ← oneOrNone locked with
      | none => pure (none, cell)
      | some _ =>
          let revoked ← updateRows (Γ := store) .refreshToken
            (fun _ r => r.tokenHash = oldTokenHash && r.revokedAt = none && now < r.expiresAt)
            (fun r => { r with revokedAt := some now }) (uniques_revoked now)
          if revoked.length ≠ 1 then
            .raise (.refreshRotationConflict "refresh token conditional revoke count was not one")
          else
            match replacementFactory tokenRecord cell with
            | .error e => .raise e
            | .ok (replacement, cell) => do
                insertRow (Γ := store) .uniqueViolation .refreshToken replacement.id
                  ⟨replacement.tokenHash, tokenRecord.userId, replacement.expiresAt, none,
                    tokenRecord.audience⟩
                pure (some tokenRecord, cell)

/-- For a factory that is a function it is the rotation of the store. -/
lemma rotateDrawing_eq_rotate (oldTokenHash audience : String) (now : Timestamp)
    (factory : RefreshTokenRecord → RefreshReplacement) :
    ((rotateDrawing oldTokenHash audience now (fun record cell => .ok (factory record, cell))
      ()).bind fun r => .ret r.1) =
        RefreshRotationStore.rotate oldTokenHash audience now factory := by
  refine (Prog.bind_assoc _ _ _).trans (congrArg (Prog.bind · _) ?_)
  funext stored
  cases stored with
  | none => rfl
  | some tokenRecord =>
    dsimp only
    split
    · rfl
    refine (Prog.bind_assoc _ _ _).trans (congrArg (Prog.bind · _) (funext fun locked => ?_))
    refine (Prog.bind_assoc _ _ _).trans (congrArg (Prog.bind · _) (funext fun row => ?_))
    cases row with
    | none => rfl
    | some user =>
      refine (Prog.bind_assoc _ _ _).trans (congrArg (Prog.bind · _) (funext fun revoked => ?_))
      split
      · rfl
      · exact Prog.bind_assoc _ _ _

lemma oneOrNone_returns {α : Type} {rows : List α} {ws : List (Write store)} {row : Option α}
    (h : (oneOrNone rows).Returns ws row) : ws = [] := by
  unfold oneOrNone at h
  split at h
  · exact h.of_ret.1
  · exact h.of_ret.1
  · cases h

/-- A rotation that returns a record has revoked one live token and put in the replacement
that its factory drew. -/
theorem rotateDrawing_returns {Cell : Type} {oldTokenHash audience : String} {now : Timestamp}
    {factory : RefreshTokenRecord → Cell → Except Error (RefreshReplacement × Cell)}
    {cell cell' : Cell} {ws : List (Write store)} {record : RefreshTokenRecord}
    (h : (rotateDrawing oldTokenHash audience now factory cell).Returns ws
      (some record, cell')) :
    ∃ sourceId, ∃ source : RefreshToken, ∃ replacement, source.tokenHash = oldTokenHash ∧
      source.revokedAt = none ∧ now < source.expiresAt ∧
      factory record cell = .ok (replacement, cell') ∧
      ws = [.put .refreshToken sourceId { source with revokedAt := some now },
        .put .refreshToken replacement.id
          ⟨replacement.tokenHash, record.userId, replacement.expiresAt, none,
            record.audience⟩] := by
  obtain ⟨ws₁, stored, rest₁, hquery, h, hws⟩ := Prog.Returns.bind h
  have hws₁ := hquery.of_query.1
  cases stored with
  | none => cases h.of_ret.2
  | some tokenRecord =>
  dsimp only at h
  split at h
  · cases h.of_ret.2
  obtain ⟨ws₂, locked, rest₂, hlock, h, hrest₁⟩ := Prog.Returns.bind h
  have hws₂ := hlock.of_sweep.1
  obtain ⟨ws₃, row, rest₃, hrow, h, hrest₂⟩ := Prog.Returns.bind h
  have hws₃ := oneOrNone_returns hrow
  cases row with
  | none => cases h.of_ret.2
  | some user =>
  obtain ⟨ws₄, revoked, rest₄, hrevoke, h, hrest₃⟩ := Prog.Returns.bind h
  obtain ⟨hws₄, hlive⟩ := hrevoke.of_sweep
  split at h
  · cases h
  rename_i hone
  obtain ⟨⟨sourceId, source⟩, rfl⟩ := List.length_eq_one_iff.mp (not_not.mp hone)
  have hsource := hlive _ (List.mem_singleton.mpr rfl)
  simp only [Bool.and_eq_true, decide_eq_true_eq] at hsource
  split at h
  · cases h
  rename_i replacement drawn hfactory
  obtain ⟨ws₅, u, rest₅, hinsert, h, hrest₄⟩ := Prog.Returns.bind h
  have hws₅ := hinsert.of_insertRow
  obtain ⟨hrest₅, heq⟩ := h.of_ret
  obtain ⟨hrecord, rfl⟩ := Prod.mk.inj heq
  obtain rfl := Option.some.inj hrecord
  refine ⟨sourceId, source, replacement, hsource.1.1, hsource.1.2, hsource.2, hfactory, ?_⟩
  rw [hws, hrest₁, hrest₂, hrest₃, hrest₄, hrest₅, hws₁, hws₂, hws₃, hws₄, hws₅]
  simp [sweepWrites, Effect.writes]

lemma of_bind {E α β : Type} {step : Except E α} {f : α → Except E β} {b : β}
    (h : (step >>= f) = .ok b) : ∃ a, step = .ok a ∧ f a = .ok b := by
  cases step with
  | error e => cases h
  | ok a => exact ⟨a, rfl, h⟩

lemma of_toOption {E α : Type} {step : Except E α} {a : α} (h : step.toOption = some a) :
    step = .ok a := by
  cases step with
  | error e => cases h
  | ok b => exact congrArg _ (Option.some.inj h)

/-! ## The service -/

/-- What the random source and the clock give to one call of the factory. -/
structure Draw where
  id : String
  random : List.Vector UInt8 32
  issuedAt : JwtTokens.DateTime

/-- The variable of the callback, and how often the factory was called. -/
structure Cell (Token : Type) where
  drawn : ℕ
  issuedRefresh : Option (JwtTokens.IssuedRefreshToken Token)

structure TokenPair (Token : Type) where
  accessToken : Token
  refreshToken : Token

/-- In the milliseconds of the store; no token expires before 1970. -/
def naive (time : JwtTokens.DateTime) : Timestamp := time.timestamp.toNat * 1000

def identity (record : CurrentUserRecord) : JwtTokens.AccessTokenIdentity where
  userId := record.id
  email := record.email
  name := record.name
  emailVerified := record.emailVerified
  roles := record.roles.map fun role => ⟨role.serviceKey, role.name⟩

/-- An error of the codec; a date past the last one is an `OverflowError`. -/
def ofTokenError : JwtTokens.TokenError → Error
  | .value message => .value message
  | .overflow => .value "date value out of range"
  | .pyJwt => .value "JWT"
  | .tokenValidation => .domain 401 "INVALID_REFRESH_TOKEN" "Invalid refresh token"

/-- A unique violation is an error of the driver. -/
def ofError : Error → AttemptError Error
  | .uniqueViolation => .dbapi ⟨some "23505", none⟩
  | e => .other e

structure TokenService (jwt : JwtTokens.Jwt Token Key) where
  codec : JwtTokens.JwtTokenCodec jwt
  sha256Token : Token → String

namespace TokenService

variable (service : TokenService jwt)

/-- The closure that draws a replacement and puts it into the variable. -/
def replacementFactory (draws : ℕ → Draw) (record : RefreshTokenRecord) (cell : Cell Token) :
    Except Error (RefreshReplacement × Cell Token) :=
  let draw := draws cell.drawn
  match service.codec.issueRefreshToken service.sha256Token record.userId (some record.audience)
      draw.random draw.issuedAt with
  | .error e => .error (ofTokenError e)
  | .ok issued => .ok (⟨draw.id, issued.tokenHash, naive issued.expiresAt⟩,
      ⟨cell.drawn + 1, some issued⟩)

/-- The callback. Its variable starts afresh with every attempt. -/
def rotate (draws : ℕ → Draw) (accessIssuedAt : JwtTokens.DateTime)
    (oldHash audience : String) (now : Timestamp) :
    StoreProg (CurrentUserRecord × JwtTokens.IssuedRefreshToken Token × Token) := do
  let (rotated, cell) ← rotateDrawing oldHash audience now
    (service.replacementFactory draws) ⟨0, none⟩
  match rotated with
  | none => .raise (.refreshRotationConflict "refresh token was not rotatable")
  | some rotated =>
      match ← UserReadStore.findCurrentActive rotated.userId with
      | none => .raise (.refreshRotationConflict "refresh user was not active")
      | some user =>
          match cell.issuedRefresh with
          | none => .raise (.runtime "refresh rotation did not produce exactly one replacement")
          | some issued =>
              match service.codec.issueAccessToken (identity user) (some audience)
                  accessIssuedAt with
              | .error e => .raise (ofTokenError e)
              | .ok accessToken => pure (user, issued, accessToken)

/-- What an attempt meets: the connection, the answers of its statements and its commit, and
what it draws. -/
structure Meeting where
  begun : Except (AttemptError Error) Unit
  answers : Answers store (AttemptError Error)
  commit : Except (AttemptError Error) Unit
  draws : ℕ → Draw
  accessIssuedAt : JwtTokens.DateTime

def rotateAttempt (oldHash audience : String) (now : Timestamp) (met : Meeting) :
    Attempt (List (Write store)) (CurrentUserRecord × JwtTokens.IssuedRefreshToken Token × Token)
      Error :=
  attempt met.begun ((service.rotate met.draws met.accessIssuedAt oldHash audience now).play
    met.answers ofError 0) met.commit

/-- How a refresh ends. -/
inductive RefreshError
  | invalidRefreshToken
  | call (error : CallError)
  | attempt (error : AttemptError Error)
  /-- The assertion after the loop over the attempts. -/
  | assertion
  | audit (error : Error)

/-- A failure is audited before it is raised. -/
def failed {α : Type} (auditFault : Option Error) (error : RefreshError) :
    Except RefreshError α :=
  match auditFault with
  | some e => .error (.audit e)
  | none => .error error

/-- The answer of a refresh with what its transaction ran. -/
structure Refreshed (Token : Type) where
  run : Option (Run (List (Write store))
    (CurrentUserRecord × JwtTokens.IssuedRefreshToken Token × Token) Error)
  answer : Except RefreshError (TokenPair Token)

def refresh (db : Database Error) (meetings : ℕ → Meeting)
    (successAudit failureAudit : Option Error) (refreshToken : Token) (clock : ℚ)
    (now : Timestamp) : Refreshed Token :=
  match service.codec.verifyRefreshToken refreshToken none clock with
  | .error _ => ⟨none, failed failureAudit .invalidRefreshToken⟩
  | .ok claims =>
      let oldHash := service.sha256Token refreshToken
      match db.transaction ⟨true, fun n => service.rotateAttempt oldHash claims.audience now
          (meetings n)⟩ 3 with
      | .error e => ⟨none, failed failureAudit (.call e)⟩
      | .ok run => ⟨some run,
          match run.ending with
          | .raised (.other (.refreshRotationConflict _)) =>
              failed failureAudit .invalidRefreshToken
          | .raised e => failed failureAudit (.attempt e)
          | .exhausted => failed failureAudit .assertion
          | .returned (_, issued, accessToken) =>
              match successAudit with
              | some e => failed failureAudit (.audit e)
              | none => .ok ⟨accessToken, issued.token⟩⟩

/-! ## What a rotation writes -/

lemma replacementFactory_ok {draws : ℕ → Draw} {record : RefreshTokenRecord}
    {cell cell' : Cell Token} {replacement : RefreshReplacement}
    (h : service.replacementFactory draws record cell = .ok (replacement, cell')) :
    ∃ issued, service.codec.issueRefreshToken service.sha256Token record.userId
        (some record.audience) (draws cell.drawn).random (draws cell.drawn).issuedAt =
          .ok issued ∧
      replacement = ⟨(draws cell.drawn).id, issued.tokenHash, naive issued.expiresAt⟩ ∧
      cell'.issuedRefresh = some issued := by
  unfold replacementFactory at h
  dsimp only at h
  split at h
  · cases h
  · rename_i issued hissued
    obtain ⟨rfl, rfl⟩ := Prod.mk.inj (Except.ok.inj h)
    exact ⟨issued, hissued, rfl, rfl⟩

lemma tokenHash_of_issued {userId audience : String} {random : List.Vector UInt8 32}
    {issuedAt : JwtTokens.DateTime} {issued : JwtTokens.IssuedRefreshToken Token}
    (h : service.codec.issueRefreshToken service.sha256Token userId (some audience) random
      issuedAt = .ok issued) : issued.tokenHash = service.sha256Token issued.token := by
  unfold JwtTokens.JwtTokenCodec.issueRefreshToken at h
  obtain ⟨expiresAt, -, h⟩ := of_bind h
  obtain ⟨signing, -, h⟩ := of_bind h
  obtain rfl := Except.ok.inj h
  rfl

lemma findCurrentActive_returns {userId : String} {ws : List (Write store)}
    {user : Option CurrentUserRecord}
    (h : (UserReadStore.findCurrentActive userId).Returns ws user) : ws = [] := by
  obtain ⟨ws₁, found, ws₂, hquery, h, hws⟩ := Prog.Returns.bind h
  rw [hws, hquery.of_query.1]
  cases found with
  | none => exact h.of_ret.1
  | some r =>
    obtain ⟨ws₃, record, ws₄, hroles, h, hws₂⟩ := Prog.Returns.bind h
    rw [hws₂, h.of_ret.1]
    obtain ⟨ws₅, roles, ws₆, hroles, h, hws₃⟩ := Prog.Returns.bind hroles
    rw [hws₃, hroles.of_query.1, h.of_ret.1]
    rfl

/-- The writes of a rotation: the old token is revoked and the token of the hash goes in. -/
def Rotated (oldHash : String) (now : Timestamp) (tokenHash : String)
    (ws : List (Write store)) : Prop :=
  ∃ sourceId, ∃ source : RefreshToken, ∃ id userId expiresAt audience,
    source.tokenHash = oldHash ∧ source.revokedAt = none ∧ now < source.expiresAt ∧
    ws = [.put .refreshToken sourceId { source with revokedAt := some now },
      .put .refreshToken id ⟨tokenHash, userId, expiresAt, none, audience⟩]

/-- The token that the callback returns is the one whose hash it has put in. -/
theorem rotate_returns {draws : ℕ → Draw} {accessIssuedAt : JwtTokens.DateTime}
    {oldHash audience : String} {now : Timestamp} {ws : List (Write store)}
    {user : CurrentUserRecord} {issued : JwtTokens.IssuedRefreshToken Token} {accessToken : Token}
    (h : (service.rotate draws accessIssuedAt oldHash audience now).Returns ws
      (user, issued, accessToken)) :
    Rotated oldHash now (service.sha256Token issued.token) ws := by
  obtain ⟨ws₁, ⟨rotated, cell⟩, ws₂, hrotate, h, hws⟩ := Prog.Returns.bind h
  cases rotated with
  | none => cases h
  | some record =>
  obtain ⟨sourceId, source, replacement, hhash, hlive, hunexpired, hfactory, hws₁⟩ :=
    rotateDrawing_returns hrotate
  obtain ⟨issued', hissue, hreplacement, hcell⟩ := service.replacementFactory_ok hfactory
  obtain ⟨ws₃, found, ws₄, hfind, h, hws₂⟩ := Prog.Returns.bind h
  have hws₃ := findCurrentActive_returns hfind
  cases found with
  | none => cases h
  | some current =>
  dsimp only at h
  rw [hcell] at h
  dsimp only at h
  split at h
  · cases h
  · obtain ⟨hws₄, heq⟩ := h.of_ret
    obtain ⟨-, heq⟩ := Prod.mk.inj heq
    obtain rfl := (Prod.mk.inj heq).1
    refine ⟨sourceId, source, replacement.id, record.userId, replacement.expiresAt,
      record.audience, hhash, hlive, hunexpired, ?_⟩
    have htokenHash : replacement.tokenHash = service.sha256Token issued.token := by
      rw [hreplacement]
      exact service.tokenHash_of_issued hissue
    rw [hws, hws₁, hws₂, hws₃, hws₄, htokenHash]
    rfl

/-- A refresh that answers has returned what one attempt of its transaction returned. -/
lemma refresh_answers {db : Database Error} {meetings : ℕ → Meeting}
    {successAudit failureAudit : Option Error} {refreshToken : Token} {clock : ℚ}
    {now : Timestamp} {pair : TokenPair Token}
    (h : (service.refresh db meetings successAudit failureAudit refreshToken clock now).answer =
      .ok pair) :
    ∃ audience run user issued,
      db.transaction ⟨true, fun n => service.rotateAttempt (service.sha256Token refreshToken)
        audience now (meetings n)⟩ 3 = .ok run ∧
      (service.refresh db meetings successAudit failureAudit refreshToken clock now).run =
        some run ∧
      run.ending = .returned (user, issued, pair.accessToken) ∧
      issued.token = pair.refreshToken := by
  have hfailed : ∀ (e : RefreshError), failed failureAudit e ≠ .ok pair := by
    intro e
    cases failureAudit <;> exact nofun
  unfold refresh at h ⊢
  split at h
  · exact absurd h (hfailed _)
  rename_i claims hclaims
  dsimp only at h ⊢
  split at h
  · exact absurd h (hfailed _)
  rename_i run hrun
  dsimp only at h
  split at h
  · exact absurd h (hfailed _)
  · exact absurd h (hfailed _)
  · exact absurd h (hfailed _)
  rename_i user issued accessToken hending
  split at h
  · exact absurd h (hfailed _)
  · obtain rfl := Except.ok.inj h
    exact ⟨claims.audience, run, user, issued, hrun, rfl, hending, rfl⟩

end TokenService

/-- The runner tries at most as often as it is told, tries again only after the database has
aborted an attempt, and returns or raises as the one attempt that committed, or none of them,
did. So a refresh returns the token whose hash its committed attempt has put in. -/
theorem transaction_commits_once {Effects Value E : Type} (db : Database E)
    (attempts : ℕ → Attempt Effects Value E) (maxAttempts : ℤ) (service : TokenService jwt)
    (hopen : db.closed = false) (hmax : 1 ≤ maxAttempts ∧ maxAttempts ≤ 3) :
    (∃ run, db.transaction ⟨true, attempts⟩ maxAttempts = .ok run ∧
      run.attempts <+: (List.range' 1 maxAttempts.toNat).map attempts ∧
      (run.attempts.length : ℤ) ≤ maxAttempts ∧
      (∀ a ∈ run.attempts.dropLast, ∃ orig, a = .failed (.dbapi orig) ∧
        (sqlstate orig = some "40001" ∨ sqlstate orig = some "40P01")) ∧
      (∀ value, run.ending = .returned value → ∃ effects, run.committed = [(effects, value)]) ∧
      (∀ error, run.ending = .raised error → run.committed = []) ∧
      run.ending ≠ .exhausted) ∧
    ∀ (database : Database Error) (meetings : ℕ → TokenService.Meeting)
      (successAudit failureAudit : Option Error) (refreshToken : Token) (clock : ℚ)
      (now : Timestamp) (pair : TokenPair Token),
      (service.refresh database meetings successAudit failureAudit refreshToken clock
        now).answer = .ok pair →
      ∃ run ws user issued,
        (service.refresh database meetings successAudit failureAudit refreshToken clock
          now).run = some run ∧
        run.committed = [(ws, user, issued, pair.accessToken)] ∧
        issued.token = pair.refreshToken ∧
        TokenService.Rotated (service.sha256Token refreshToken) now
          (service.sha256Token pair.refreshToken) ws := by
  constructor
  · obtain ⟨run, hrun⟩ : ∃ run, db.transaction ⟨true, attempts⟩ maxAttempts = .ok run := by
      unfold Database.transaction
      simp [hopen, hmax]
    obtain ⟨hended, hprefix⟩ := transaction_ran hrun
    refine ⟨run, hrun, hprefix, ?_, ?_, fun value => hended.committed_of_returned,
      fun error => hended.committed_of_raised, hended.ending_ne_exhausted⟩
    · have hlength := hprefix.length_le
      simp only [List.length_map, List.length_range'] at hlength
      omega
    · intro a ha
      obtain ⟨orig, rfl, hretry⟩ := hended.retries a ha
      refine ⟨orig, rfl, ?_⟩
      obtain ⟨state, hstate, hmem⟩ := (Option.any_eq_true _ _).mp hretry
      simpa [hstate, retryableSqlstates] using hmem
  · intro database meetings successAudit failureAudit refreshToken clock now pair hanswer
    obtain ⟨audience, run, user, issued, hrun, hran, hending, hpair⟩ :=
      service.refresh_answers hanswer
    obtain ⟨hended, hprefix⟩ := transaction_ran hrun
    obtain ⟨ws, hcommitted⟩ := hended.committed_of_returned hending
    refine ⟨run, ws, user, issued, hran, hcommitted, hpair, ?_⟩
    have hmem : (ws, user, issued, pair.accessToken) ∈ run.committed := by simp [hcommitted]
    obtain ⟨n, hattempt⟩ := run.attempt_of_committed hprefix hmem
    have hplay := attempt_committed hattempt
    rw [← hpair]
    exact service.rotate_returns (Prog.returns_of_play hplay)

/-! ## A refresh whose third attempt commits -/

/-- A library whose tokens are what it has signed. -/
def plainJwt : JwtTokens.Jwt (JwtTokens.Signing ℕ) ℕ where
  encode signing := signing
  decode token key options now :=
    if token.algorithm = options.algorithm ∧ token.key = key ∧
        options.accepts now token.payload then some token.payload
    else none
  pairs _ signing verifying := signing = verifying

lemma plainJwt_pairs : plainJwt.pairs .hs256 7 7 := rfl

lemma temis_ne : "temis" ≠ "" := by decide

/-- The hash of a refresh token is the start of its id. -/
def shortHash : TokenService plainJwt where
  codec :=
    { accessPrivateKey := 1, accessPublicKey := 1, accessKeyId := "access-key",
      issuer := "https://auth.example", defaultAudience := "temis",
      accessExpiresInSeconds := 900, refreshSecret := 7, refreshExpiresInDays := 30,
      access_pairs := rfl, refresh_pairs := plainJwt_pairs, defaultAudience_ne := temis_ne }
  sha256Token token :=
    match token.payload.lookup "tokenId" with
    | some (.str tokenId) => String.ofList (tokenId.toList.take 2)
    | _ => ""

def atMinute (n : ℕ) (h : JwtTokens.inDateRange (60 * n) := by decide) : JwtTokens.DateTime :=
  ⟨60 * n, h⟩

lemma minuteZero_inDateRange : JwtTokens.inDateRange (60 * (0 : ℕ)) := by decide

/-- The token that the client shows. -/
def bobToken : JwtTokens.Signing ℕ :=
  ⟨shortHash.codec.refreshPayload "bob" (some "temis")
    (JwtTokens.tokenHex (List.replicate 32 1)) (atMinute 0 minuteZero_inDateRange)
      (atMinute 100), 7, .hs256, none⟩

def bobTables : Db store := view
  [.put .user "bob" ⟨some "bob@example.com", none, none, .active, true⟩,
    .put .refreshToken "r1" ⟨"01", "bob", 6000000, none, "temis"⟩] fun _ => ∅

/-- An attempt that draws a token from `byte` on and meets the fault at a step. -/
def bobMeets (byte : UInt8) (fault : ℕ → Option (AttemptError Error))
    (commit : Except (AttemptError Error) Unit) : TokenService.Meeting where
  begun := .ok ()
  answers :=
    { fault := fault, snapshot := fun _ => bobTables, external := fun _ => ⟨∅⟩,
      candidates := fun n => if n = 1 then ["bob"] else ["r1"],
      version := fun _ T κ => bobTables.get T κ, insertion := fun _ => .inserted }
  commit := commit
  draws _ := ⟨"r2", List.Vector.replicate 32 byte, atMinute 1⟩
  accessIssuedAt := atMinute 1

/-- The first attempt fails at its commit, the second meets a deadlock when it reads the
user, and both have drawn a token by then. -/
def bobMeetings : ℕ → TokenService.Meeting
  | 1 => bobMeets 2 (fun _ => none) (.error (.dbapi ⟨some "40001", none⟩))
  | 2 => bobMeets 3 (fun n => if n = 6 then some (.dbapi ⟨none, some "40P01"⟩) else none) (.ok ())
  | _ => bobMeets 4 (fun _ => none) (.ok ())

def patient : Database Error := ⟨false, fun _ => .ok ()⟩

theorem thirdAttempt_commits :
    (∃ run, patient.transaction ⟨true, fun n => shortHash.rotateAttempt "01" "temis" 60000
        (bobMeetings n)⟩ 2 = .ok run ∧ run.committed = []) ∧
    ∃ pair, (shortHash.refresh patient bobMeetings none none bobToken 60 60000).answer =
        .ok pair ∧ shortHash.sha256Token pair.refreshToken = "04" ∧
      ∃ run ws user issued,
        (shortHash.refresh patient bobMeetings none none bobToken 60 60000).run = some run ∧
        run.committed = [(ws, user, issued, pair.accessToken)] ∧
        TokenService.Rotated "01" 60000 "04" ws := by
  obtain ⟨⟨run, hrun, -, -, -, hreturned, hraised, hended⟩, hrefresh⟩ :=
    transaction_commits_once patient (fun n => shortHash.rotateAttempt "01" "temis" 60000
      (bobMeetings n)) 2 shortHash rfl (by decide)
  constructor
  · refine ⟨run, hrun, ?_⟩
    have hnone : (patient.transaction ⟨true, fun n => shortHash.rotateAttempt "01" "temis" 60000
        (bobMeetings n)⟩ 2).toOption.all fun run => run.committed.isEmpty = true := by
      decide +kernel
    rw [hrun] at hnone
    exact List.isEmpty_iff.mp (of_decide_eq_true hnone)
  have hanswer : ((shortHash.refresh patient bobMeetings none none bobToken 60
      60000).answer.toOption.any fun pair => shortHash.sha256Token pair.refreshToken = "04") =
        true := by decide +kernel
  obtain ⟨pair, hpair, hhash⟩ := (Option.any_eq_true _ _).mp hanswer
  have hpair := of_toOption hpair
  have hhash : shortHash.sha256Token pair.refreshToken = "04" := of_decide_eq_true hhash
  obtain ⟨run, ws, user, issued, hran, hcommitted, -, hrotated⟩ :=
    hrefresh patient bobMeetings none none bobToken 60 60000 pair hpair
  rw [hhash] at hrotated
  exact ⟨pair, hpair, hhash, run, ws, user, issued, hran, hcommitted, hrotated⟩

end WiseacctSso.RefreshRetries
