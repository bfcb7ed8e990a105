import WiseacctSso.AccountConsistency

/-!
# Accounts over whole runs

Account calls one at a time, session calls side by side, and merges between them, in any
order. Any of them may be cut short by a crash, which loses the open transactions.
-/
namespace WiseacctSso
open ReadCommitted MergeSplitIdentities

/-- A run of the command is a chain of merges. The audit log is what a merge finds there. -/
inductive MaintainedAct
  | account (call : AccountCall) (acts : List (Act store))
  | sessions (calls : ℕ → SessionCall) (redis : RedisState) (acts : List (Act store))
  | merge (auditLog : List (String × AuditLogRow)) (auditId : String)
      (candidate : SplitAccountCandidate)

namespace MaintainedAct

/-- The tables that an act leaves, if its steps can be taken. A failed merge leaves all as it
was. -/
def run (settings : AccountSettings) (lower : String → String) (db : Db store) :
    MaintainedAct → Option (Db store)
  | account call acts => (serialRun settings call db acts).map fun sys => sys.shared.db
  | sessions calls redis acts =>
      (sessionRun settings.toAuthSettings calls db redis acts).map fun sys => sys.shared.db
  | merge auditLog auditId candidate =>
      match mergeCandidate lower auditId candidate ⟨db, auditLog⟩ with
      | .error _ => some db
      | .ok (_, m) => some m.db

/-- The administration makes a user ACTIVE by hand. -/
inductive Activates : MaintainedAct → Prop
  | account {actor target : String} {now : Timestamp} {acts : List (Act store)} :
      Activates (.account (.setUserStatus actor target .active now) acts)
  | session {calls : ℕ → SessionCall} {redis : RedisState} {acts : List (Act store)} {t : ℕ}
      {actor target : String} {now : Timestamp}
      (call : calls t = .admin actor (.setUserStatus target .active now)) :
      Activates (.sessions calls redis acts)

end MaintainedAct

def maintainedRun (settings : AccountSettings) (lower : String → String)
    (acts : List MaintainedAct) (db : Db store) : Option (Db store) :=
  acts.foldlM (MaintainedAct.run settings lower) db

variable {settings : AccountSettings} {lower : String → String} {db db' : Db store}
  {acts : List MaintainedAct} {act : MaintainedAct}

lemma maintainedRun_cons : maintainedRun settings lower (act :: acts) db = some db' ↔
    ∃ mid, act.run settings lower db = some mid ∧
      maintainedRun settings lower acts mid = some db' := by
  rw [maintainedRun, List.foldlM_cons]
  exact Option.bind_eq_some_iff

/-- A property of the tables that every step of an account call keeps. -/
lemma account_act {call : AccountCall} {steps : List (Act store)} {P : Db store → Prop}
    (hunique : UniqueEntries db)
    (hrun : (MaintainedAct.account call steps).run settings lower db = some db')
    (hP : ∀ before after, SerialStep settings call before after → UniqueEntries after →
      P before → P after)
    (hdb : P db) : P db' ∧ UniqueEntries db' := by
  obtain ⟨sys, hsys, rfl⟩ := Option.map_eq_some_iff.mp hrun
  have hsteps := serialRun_steps hunique hsys
  generalize sys.shared.db = after at hsteps ⊢
  induction hsteps with
  | refl => exact ⟨hdb, hunique⟩
  | tail _ hstep ih => exact ⟨hP _ _ hstep.1 hstep.2 ih.1, hstep.2⟩

/-- A property of the tables that every commit of a session call keeps. -/
lemma session_act {calls : ℕ → SessionCall} {redis : RedisState} {steps : List (Act store)}
    {P : Db store → Prop} (hunique : UniqueEntries db) (husers : TokenUsersExist db)
    (hrun : (MaintainedAct.sessions calls redis steps).run settings lower db = some db')
    (hP : ∀ log t held after report,
      SessionCommit settings.toAuthSettings calls log t held after report → P log.db → P after)
    (hdb : P db) : P db' ∧ UniqueEntries db' := by
  obtain ⟨sys, hsys, rfl⟩ := Option.map_eq_some_iff.mp hrun
  have hv := sessionLog_of_run hunique husers hsys
  refine ⟨?_, hv.unique⟩
  change P sys.shared.log.db
  generalize sys.shared.log = log at hv
  induction log with
  | initial db₀ ext =>
    obtain rfl : db₀ = db := hv.1
    exact hdb
  | add log event ih =>
    cases event with
    | selected t q => exact ih hv.of_add
    | called t report ext => exact ih hv.of_add
    | committed t report held after => exact hP log t held after report hv.2.1 (ih hv.of_add)

/-- What a merge does to the tables, if it does anything. -/
lemma merge_act {auditLog : List (String × AuditLogRow)} {auditId : String}
    {c : SplitAccountCandidate} (hlower : ∀ s, lower (lower s) = lower s)
    (hunique : UniqueEntries db)
    (hrun : (MaintainedAct.merge auditLog auditId c).run settings lower db = some db') :
    db' = db ∨ Split lower db c ∧ Merged c db db' := by
  simp only [MaintainedAct.run] at hrun
  split at hrun
  · exact .inl (Option.some.inj hrun).symm
  · next merged m hmerge =>
    obtain rfl := Option.some.inj hrun
    rcases mergeCandidate_cases (m := ⟨db, auditLog⟩) hlower hunique hmerge with
      ⟨-, -, rfl⟩ | ⟨hsplit, -, heffect, -⟩
    · exact .inl rfl
    · exact .inr ⟨hsplit, heffect⟩

/-- What holds of the tables of every run, whatever the administration does. -/
structure Kept (db : Db store) : Prop where
  unique : UniqueEntries db
  tokens : TokenUsersExist db

lemma kept_act (hlower : ∀ s, lower (lower s) = lower s) (h : Kept db)
    (hrun : act.run settings lower db = some db') : Kept db' := by
  cases act with
  | account call steps =>
    obtain ⟨htokens, hunique⟩ := account_act (P := TokenUsersExist) h.unique hrun
      (fun before after hstep _ htokens => hstep.tokenUsersExist htokens) h.tokens
    exact ⟨hunique, htokens⟩
  | sessions calls redis steps =>
    obtain ⟨htokens, hunique⟩ := session_act (P := TokenUsersExist) h.unique h.tokens hrun
      (fun log t held after report hcommit hlog => hcommit.step.tokenUsersExist hlog) h.tokens
    exact ⟨hunique, htokens⟩
  | merge auditLog auditId c =>
    rcases merge_act hlower h.unique hrun with rfl | ⟨hsplit, heffect⟩
    · exact h
    · exact ⟨heffect.unique, h.tokens.merged hsplit heffect⟩

/-! ## Emails -/

lemma consistent_act (laws : TextLaws settings.py lower) (hact : ¬ act.Activates) (hkept : Kept db)
    (h : Consistent settings.py db) (hrun : act.run settings lower db = some db') :
    Consistent settings.py db' := by
  cases act with
  | account call steps =>
    have hstatus : ∀ actor target now, call ≠ .setUserStatus actor target .active now := by
      rintro actor target now rfl
      exact hact .account
    exact (account_act hkept.unique hrun
      (fun before after hstep hunique => hstep.consistent laws hstatus hunique) h).1
  | sessions calls redis steps =>
    exact (session_act hkept.unique hkept.tokens hrun
      (fun log t held after report hcommit hlog =>
        hcommit.consistent (fun actor target now hcall => hact (.session hcall)) hlog) h).1
  | merge auditLog auditId c =>
    rcases merge_act laws.database_lower_lower hkept.unique hrun with rfl | ⟨hsplit, heffect⟩
    · exact h
    · exact h.merged laws hsplit heffect

/-- Users, credentials and pending credentials keep their emails in step. -/
theorem consistent_run (laws : TextLaws settings.py lower)
    (hacts : ∀ act ∈ acts, ¬ act.Activates) (hkept : Kept db) (hdb : Consistent settings.py db)
    (hrun : maintainedRun settings lower acts db = some db') :
    Kept db' ∧ Consistent settings.py db' := by
  induction acts generalizing db with
  | nil =>
    obtain rfl := Option.some.inj hrun
    exact ⟨hkept, hdb⟩
  | cons act acts ih =>
    obtain ⟨mid, hact, hrest⟩ := maintainedRun_cons.mp hrun
    exact ih (fun act' hact' => hacts act' (List.mem_cons_of_mem act hact'))
      (kept_act laws.database_lower_lower hkept hact)
      (consistent_act laws (hacts act List.mem_cons_self) hkept hdb hact) hrest

/-- The tables before anyone has registered. -/
def emptyTables : Db store := fun _ => ∅

lemma emptyTables_get (T : Table) (κ : String) : emptyTables.get T κ = none := AList.lookup_empty κ

lemma emptyTables_consistent {py : PythonText} : Consistent py emptyTables := by
  refine ⟨fun id u hu => ?_, fun κ c hc => ?_, fun κ p hp => ?_⟩
  · simp [emptyTables_get] at hu
  · simp [emptyTables_get] at hc
  · simp [emptyTables_get] at hp

lemma emptyTables_kept : Kept emptyTables := by
  refine ⟨fun T κ κ' r r' hr => ?_, fun κ r hr => ?_⟩
  · simp [emptyTables_get] at hr
  · simp [emptyTables_get] at hr

/-- In every state that is reached from nothing without making users ACTIVE by hand, an email
is normal, a credential has the email of its owner, and an ACTIVE owner is verified. -/
theorem accounts_consistent (laws : TextLaws settings.py lower)
    (hacts : ∀ act ∈ acts, ¬ act.Activates)
    (hrun : maintainedRun settings lower acts emptyTables = some db) :
    (∀ id (u : User), db.get .user id = some u → ∀ e ∈ u.email, NormalEmail settings.py e) ∧
      (∀ κ c, db.get .passwordCredential κ = some c → OwnsCredential db c) ∧
      ∀ κ p, db.get .pendingPasswordCredential κ = some p → OwnsPending db p := by
  obtain ⟨-, h⟩ := consistent_run laws hacts emptyTables_kept emptyTables_consistent hrun
  exact ⟨h.email, h.credential, h.pending⟩

/-- Users of the client administer the service. -/
def adminClientSettings : AccountSettings :=
  { plainAccountSettings with
    authClients := fun clientId =>
      if clientId = "temis" then some ⟨"temis", "temis", [], ⟨"temis", "admin"⟩⟩ else none }

/-- Google says that the email is verified. -/
def googleSignIn (sub email userId : String) : AccountCall :=
  .oauthCallback "temis" (.google sub (some email) (some true) none none)
    ⟨userId, sub, ⟨userId ++ "0", userId ++ "1", userId ++ "2", userId ++ "3", userId ++ "4"⟩⟩

/-- Bob registers and confirms his email; Alice, who administers the service, suspends him; and
he comes back with the Google account of that email. -/
def suspendedReturn : List MaintainedAct :=
  [.account (googleSignIn "g0" "alice@example.com" "alice") ([.call 0] ++ steps 0 14),
    .account (.register ⟨"bob@example.com", "password", none⟩ ⟨10, "hash", "bob", "c0", "p0"⟩)
      ([.call 0] ++ steps 0 5),
    .account (.requestEmailVerification "bob@example.com" none ⟨11, "v1", "verify"⟩)
      ([.call 0] ++ steps 0 5),
    .account (.confirmEmailVerification "verify" 20 ⟨⟨"x0", "x1", "x2", "x3", "x4"⟩, "c3"⟩)
      ([.call 0] ++ steps 0 4 ++ [.step 0 ["v1"]] ++ steps 0 2 ++ [.step 0 ["bob"]] ++ steps 0 8),
    .account (.setUserStatus "alice" "bob" .suspended 30)
      ([.call 0] ++ steps 0 3 ++ [.step 0 ["bob"]] ++ steps 0 1 ++ [.step 0 ["bob"]] ++ steps 0 3),
    .account (googleSignIn "g1" "bob@example.com" "ann") ([.call 0] ++ steps 0 13)]

lemma suspendedReturn_activates : ∀ act ∈ suspendedReturn, ¬ act.Activates := by
  intro act hact
  simp only [suspendedReturn, googleSignIn, List.mem_cons, List.not_mem_nil, or_false] at hact
  rcases hact with rfl | rfl | rfl | rfl | rfl | rfl <;> rintro ⟨⟩

lemma plainText_laws : TextLaws adminClientSettings.py id :=
  ⟨fun _ => rfl, fun _ => rfl, fun _ => rfl, fun _ => rfl⟩

theorem accounts_consistent_example :
    ∃ db, maintainedRun adminClientSettings id suspendedReturn emptyTables = some db ∧
      (db.get .user "bob").map (·.status) = some .suspended ∧
      (∀ id (u : User), db.get .user id = some u →
        ∀ e ∈ u.email, NormalEmail adminClientSettings.py e) ∧
      (∀ κ c, db.get .passwordCredential κ = some c → OwnsCredential db c) ∧
      ∀ κ p, db.get .pendingPasswordCredential κ = some p → OwnsPending db p := by
  have hsome : (maintainedRun adminClientSettings id suspendedReturn emptyTables).any
      (fun db => (db.get .user "bob").map (·.status) = some .suspended) = true := by
    decide +kernel
  obtain ⟨db, hrun, hdb⟩ := (Option.any_eq_true _ _).mp hsome
  exact ⟨db, hrun, of_decide_eq_true hdb,
    accounts_consistent plainText_laws suspendedReturn_activates hrun⟩

/-! ## The merge command -/

section command

variable {auditId : ℕ → String} {order : List SplitAccountCandidate → List SplitAccountCandidate}
  {options : MergeSplitIdentityOptions} {m : Maintained}

variable (settings lower auditId) in
lemma mergeAll_acts (n : ℕ) (cs : List SplitAccountCandidate) (m : Maintained) :
    ∃ acts, maintainedRun settings lower acts m.db =
        some (mergeAll lower auditId n cs m).2.db ∧
      ∀ act ∈ acts, ∃ auditLog id c, act = .merge auditLog id c := by
  induction cs generalizing n m with
  | nil => exact ⟨[], rfl, by simp⟩
  | cons c cs ih =>
    rcases hmerge : mergeCandidate lower (auditId n) c m with e | ⟨merged, m'⟩
    · refine ⟨[], ?_, by simp⟩
      simp only [mergeAll, hmerge]
      rfl
    obtain ⟨acts, hacts, hall⟩ := ih (n + 1) m'
    refine ⟨.merge m.auditLog (auditId n) c :: acts, maintainedRun_cons.mpr ⟨m'.db, ?_, ?_⟩, ?_⟩
    · simp only [MaintainedAct.run, hmerge]
    · simpa only [mergeAll, hmerge] using hacts
    · rintro act (_ | ⟨_, hact⟩)
      · exact ⟨_, _, _, rfl⟩
      · exact hall act hact

/-- The command does what some chain of merges does. -/
theorem mergeSplitIdentities_acts : ∃ acts, maintainedRun settings lower acts m.db =
      some (mergeSplitIdentities lower order auditId options m).2.db ∧
    ∀ act ∈ acts, ¬ act.Activates := by
  unfold mergeSplitIdentities
  dsimp only
  split
  · obtain ⟨acts, hacts, hall⟩ := mergeAll_acts settings lower auditId 0
      (order (candidateSelect lower m.db options.email)) m
    refine ⟨acts, hacts, fun act hact => ?_⟩
    obtain ⟨auditLog, id, c, rfl⟩ := hall act hact
    rintro ⟨⟩
  · exact ⟨[], rfl, by simp⟩

lemma mergeAll_completes {py : PythonText} {m : Maintained} (n : ℕ)
    (cs : List SplitAccountCandidate) (laws : TextLaws py lower) (hdb : Consistent py m.db)
    (hunique : UniqueEntries m.db) (hids : Function.Injective auditId)
    (hfresh : ∀ k, n ≤ k → Fresh (auditId k) m.auditLog) :
    ∃ count m', mergeAll lower auditId n cs m = (.ok count, m') := by
  induction cs generalizing n m with
  | nil => exact ⟨0, m, rfl⟩
  | cons c cs ih =>
    by_cases hsplit : Split lower m.db c
    · obtain ⟨after, hmerge, heffect⟩ := mergeCandidate_merged laws.database_lower_lower hunique
        hsplit (hsplit.unclaimed laws hdb hunique) (hfresh n le_rfl)
      have hrest : ∀ k, n + 1 ≤ k → Fresh (auditId k) (recorded (auditId n) c m.auditLog) := by
        intro k hk row hrow
        obtain ⟨row₀, hrow₀, rfl⟩ := List.mem_map.mp hrow
        rcases List.mem_append.mp hrow₀ with hold | hnew
        · exact hfresh k (Nat.le_of_succ_le hk) row₀ hold
        · obtain rfl := List.mem_singleton.mp hnew
          exact fun heq => absurd (hids heq) (by omega)
      obtain ⟨count, m', hall⟩ := ih (m := ⟨after, recorded (auditId n) c m.auditLog⟩) (n + 1)
        (hdb.merged laws hsplit heffect) heffect.unique hrest
      refine ⟨true.toNat + count, m', ?_⟩
      simp only [mergeAll, hmerge, hall, Except.map]
    · obtain ⟨count, m', hall⟩ := ih (n + 1) hdb hunique fun k hk =>
        hfresh k (Nat.le_of_succ_le hk)
      refine ⟨false.toNat + count, m', ?_⟩
      simp only [mergeAll, mergeCandidate_stale hsplit, hall, Except.map]

/-- In every state that is reached without making users ACTIVE by hand, the command with apply
completes, as no third user can have the email of a candidate. -/
theorem command_completes (laws : TextLaws settings.py lower)
    (hacts : ∀ act ∈ acts, ¬ act.Activates)
    (hrun : maintainedRun settings lower acts emptyTables = some db)
    {auditLog : List (String × AuditLogRow)} (hids : Function.Injective auditId)
    (hfresh : ∀ n, Fresh (auditId n) auditLog) :
    ∃ result m', mergeSplitIdentities lower order auditId options ⟨db, auditLog⟩ =
      (.ok result, m') := by
  obtain ⟨hkept, hdb⟩ := consistent_run laws hacts emptyTables_kept emptyTables_consistent hrun
  unfold mergeSplitIdentities
  dsimp only
  split
  · obtain ⟨count, m', hall⟩ := mergeAll_completes (m := ⟨db, auditLog⟩) 0
      (order (candidateSelect lower db options.email)) laws hdb hkept.unique hids
      fun k _ => hfresh k
    rw [hall]
    exact ⟨_, _, rfl⟩
  · exact ⟨_, _, rfl⟩

/-- Ids that have nothing in common but their letters. -/
def countedId (n : ℕ) : String := String.ofList (List.replicate n 'a')

lemma countedId_injective : Function.Injective countedId :=
  fun a b h => by simpa [countedId] using congrArg String.length h

theorem command_completes_example :
    ∃ db result m', maintainedRun adminClientSettings id suspendedReturn emptyTables = some db ∧
      candidateSelect id db none = [⟨"bob@example.com", "ann", "bob", "google", "g1"⟩] ∧
      mergeSplitIdentities id id countedId ⟨true, none⟩ ⟨db, []⟩ = (.ok result, m') := by
  have hsome : (maintainedRun adminClientSettings id suspendedReturn emptyTables).any
      (fun db => candidateSelect id db none =
        [⟨"bob@example.com", "ann", "bob", "google", "g1"⟩]) = true := by
    decide +kernel
  obtain ⟨db, hrun, hdb⟩ := (Option.any_eq_true _ _).mp hsome
  have hfresh : ∀ n, Fresh (countedId n) [] := fun _ _ h => by simp at h
  obtain ⟨result, m', hcommand⟩ := command_completes plainText_laws suspendedReturn_activates hrun
    countedId_injective hfresh
  exact ⟨db, result, m', hrun, of_decide_eq_true hdb, hcommand⟩

end command

end WiseacctSso
