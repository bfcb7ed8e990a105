import WiseacctSso.SessionKeeps

/-!
# Runs of session calls

A run starts from committed tables with nothing open. Its log is valid, so each commit in
it is one of the session guarantee.
-/
namespace WiseacctSso
open ReadCommitted

/-- Process `t` makes the call `calls t`, if the run ever starts it. -/
def sessionRun (settings : AuthSettings) (calls : ℕ → SessionCall) (db : Db store)
    (redis : RedisState) (acts : List (Act store)) : Option (System store) :=
  (System.initial db redis).run (fun t => (calls t).prog settings) acts

variable {settings : AuthSettings} {calls : ℕ → SessionCall} {db₀ : Db store}
  {redis : RedisState} {acts : List (Act store)} {sys : System store}

theorem sessionLog_of_run (hunique : UniqueEntries db₀) (husers : TokenUsersExist db₀)
    (hrun : sessionRun settings calls db₀ redis acts = some sys) :
    SessionLog settings calls db₀ sys.shared.log :=
  run_valid (session_keeps husers) rfl hunique hrun

theorem rotation_raised (hunique : UniqueEntries db₀) (husers : TokenUsersExist db₀)
    (hrun : sessionRun settings calls db₀ redis acts = some sys) {t : ℕ} {c : Process store}
    {e : Error} (hcall : (calls t).rotation.isSome = true) (hc : sys.process t = some c)
    (hraise : c.prog = .raise e) : sys.shared.log.reports t = [] :=
  run_raised (G := sessionGuarantee settings calls db₀) (session_keeps husers) rfl hunique hrun hc
    hraise hcall

/-! ## Concrete inputs -/

/-- A hash is its password, and text is left as it is. -/
def plainSettings : AuthSettings where
  py := ⟨id, id⟩
  verifyPassword passwordHash password := passwordHash = password
  sha256Base64Url := id
  authClients _ := none
  defaultAudience := "temis"

/-- One ACTIVE administrator with a password and a session. -/
def oneAdmin : Db store := view
  [.put .user "alice" ⟨some "alice@example.com", none, none, .active, true⟩,
    .put .passwordCredential "c0" ⟨"alice", "alice@example.com", "old", 0, none⟩,
    .put .refreshToken "r0" ⟨"h0", "alice", 100, none, "temis"⟩,
    .put .role "admin" ⟨"temis", "admin"⟩, .put .userRole "ur0" ⟨"alice", "admin"⟩]
  fun _ => ∅

/-- The administrator and a user with a password and a session. -/
def adminAndUser : Db store := view
  [.put .user "bob" ⟨some "bob@example.com", none, none, .active, true⟩,
    .put .passwordCredential "c1" ⟨"bob", "bob@example.com", "old", 0, none⟩,
    .put .refreshToken "r1" ⟨"h1", "bob", 100, none, "temis"⟩]
  oneAdmin

end WiseacctSso
