import WiseacctSso.SessionRuns

/-!
# Administration and the last administrator

A request reads its caller's authorization before its mutation begins, and the guard on an
administrator's own status names SUSPENDED and DELETED only.
-/
namespace WiseacctSso
open ReadCommitted

variable {settings : AuthSettings} {calls : ℕ → SessionCall} {db₀ : Db store}

lemma activeTemisAdmin_iff {db : Db store} {userId : String} :
    activeTemisAdmin db userId = true ↔
      (∃ u : User, db.get .user userId = some u ∧ u.status = .active) ∧
      ∃ (id : String) (ur : UserRole), db.get .userRole id = some ur ∧ ur.userId = userId ∧
        db.get .role ur.roleId = some ⟨"temis", "admin"⟩ := by
  have hroles : (rolesOf db userId).any (fun r => r.serviceKey = "temis" && r.name = "admin") =
      true ↔ ∃ (id : String) (ur : UserRole), db.get .userRole id = some ur ∧
        ur.userId = userId ∧ db.get .role ur.roleId = some ⟨"temis", "admin"⟩ := by
    rw [List.any_eq_true]
    constructor
    · rintro ⟨⟨serviceKey, name⟩, hr, hadmin⟩
      obtain ⟨⟨id, ur⟩, hur, hrole⟩ := List.mem_filterMap.mp hr
      obtain ⟨hget, huser⟩ := mem_selectRows.mp hur
      simp only [Bool.and_eq_true, decide_eq_true_eq] at hadmin
      obtain ⟨rfl, rfl⟩ := hadmin
      exact ⟨id, ur, hget, by simpa using huser, hrole⟩
    · rintro ⟨id, ur, hget, huser, hrole⟩
      exact ⟨⟨"temis", "admin"⟩,
        List.mem_filterMap.mpr
          ⟨⟨id, ur⟩, mem_selectRows.mpr ⟨hget, by simp [huser]⟩, hrole⟩, by simp⟩
  rw [← hroles, activeTemisAdmin]
  rcases db.get .user userId with _ | u
  · simp
  · simp

/-- Some ACTIVE user holds `temis:admin`. -/
def HasAdmin (db : Db store) : Prop := ∃ userId, activeTemisAdmin db userId = true

instance (db : Db store) : Decidable (HasAdmin db) :=
  decidable_of_iff (∃ x ∈ (db .user).entries, activeTemisAdmin db x.1 = true) <| by
    constructor
    · rintro ⟨x, -, hx⟩
      exact ⟨x.1, hx⟩
    · rintro ⟨userId, h⟩
      obtain ⟨⟨u, hu, -⟩, -⟩ := activeTemisAdmin_iff.mp h
      exact ⟨⟨userId, u⟩, AList.mem_lookup_iff.mp hu, h⟩

/-- The requests that may take `temis:admin` or the ACTIVE status from a user. -/
def AdminRequest.demotes : AdminRequest → Bool
  | setUserStatus _ _ _ => true
  | removeRole _ _ _ _ => true
  | _ => false

/-- A commit of such a request finds its caller still an ACTIVE `temis:admin`. -/
def StillAuthorized (calls : ℕ → SessionCall) (prior : Db store) (t : ℕ) : Bool :=
  match calls t with
  | .admin actor request => !request.demotes || activeTemisAdmin prior actor
  | _ => true

lemma activeTemisAdmin_mono {before after : Db store} {userId : String}
    (huser : ∀ u : User, before.get .user userId = some u → u.status = .active →
      ∃ u' : User, after.get .user userId = some u' ∧ u'.status = .active)
    (hur : ∀ id (ur : UserRole), before.get .userRole id = some ur → ur.userId = userId →
      before.get .role ur.roleId = some ⟨"temis", "admin"⟩ → after.get .userRole id = some ur)
    (hrole : ∀ id (r : Role), before.get .role id = some r → after.get .role id = some r)
    (h : activeTemisAdmin before userId = true) : activeTemisAdmin after userId = true := by
  obtain ⟨⟨u, hu, hactive⟩, id, ur, hget, hid, hadmin⟩ := activeTemisAdmin_iff.mp h
  exact activeTemisAdmin_iff.mpr
    ⟨huser u hu hactive, id, ur, hur id ur hget hid hadmin, hid, hrole _ _ hadmin⟩

lemma OnlyTables.activeTemisAdmin {Ts : List Table} {before after : Db store} {userId : String}
    (h : OnlyTables Ts before after) (huser : .user ∉ Ts) (hur : .userRole ∉ Ts)
    (hrole : .role ∉ Ts) (ha : WiseacctSso.activeTemisAdmin before userId = true) :
    WiseacctSso.activeTemisAdmin after userId = true :=
  activeTemisAdmin_mono (fun u hu hactive => ⟨u, (h.get huser _).trans hu, hactive⟩)
    (fun id _ hget _ _ => (h.get hur id).trans hget) (fun id _ hr => (h.get hrole id).trans hr) ha

/-- One commit keeps an administrator: its caller if it may demote, and anyone otherwise. -/
lemma SessionCommit.hasAdmin {log : Log store} {t : ℕ} {held : Lock store → Bool}
    {after : Db store} {report : Report}
    (h : SessionCommit settings calls log t held after report)
    (hpending : ∀ t actor now,
      calls t ≠ .admin actor (.setUserStatus actor .pendingEmailVerification now))
    (hauthorized : StillAuthorized calls log.db t = true) (hadmin : HasAdmin log.db) :
    HasAdmin after := by
  obtain ⟨userId, ha⟩ := hadmin
  have honly : ∀ {Ts : List Table}, OnlyTables Ts log.db after → .user ∉ Ts → .userRole ∉ Ts →
      .role ∉ Ts → HasAdmin after := fun ho huser hur hrole =>
    ⟨userId, ho.activeTemisAdmin huser hur hrole ha⟩
  cases h with
  | rotated _ _ _ _ _ _ effect => exact honly effect.only (by simp) (by simp) (by simp)
  | tokenIssued _ _ _ effect => exact honly effect.only (by simp) (by simp) (by simp)
  | refused _ effect => exact ⟨userId, effect ▸ ha⟩
  | loggedOut _ _ only => exact honly only (by simp) (by simp) (by simp)
  | @userStatusSet actor target status now call guard effect _ only =>
    have hactor : activeTemisAdmin log.db actor = true := by
      simpa [StillAuthorized, call, AdminRequest.demotes] using hauthorized
    refine ⟨actor, activeTemisAdmin_mono (fun u hu hactive => ?_)
      (fun id ur hget _ _ => (only.get (by simp) id).trans hget)
      (fun id r hr => (only.get (by simp) id).trans hr) hactor⟩
    rw [effect actor]
    split
    · next hself =>
      rw [hu, Option.map_some]
      refine ⟨_, rfl, ?_⟩
      -- The guard and the first condition leave an actor ACTIVE only.
      subst hself
      cases status with
      | active => rfl
      | pendingEmailVerification => exact absurd call (hpending t actor now)
      | suspended => exact absurd ⟨rfl, by decide⟩ guard
      | deleted => exact absurd ⟨rfl, by decide⟩ guard
    · exact ⟨u, hu, hactive⟩
  | roleAssigned _ effect only =>
    exact ⟨userId, activeTemisAdmin_mono
      (fun u hu hactive => ⟨u, (only.get (by simp) _).trans hu, hactive⟩)
      (fun id ur hget _ _ => effect.kept id ur hget) effect.roles ha⟩
  | @roleRemoved actor target serviceKey name now removed call guard effect _ only =>
    have hactor : activeTemisAdmin log.db actor = true := by
      simpa [StillAuthorized, call, AdminRequest.demotes] using hauthorized
    refine ⟨actor, activeTemisAdmin_mono
      (fun u hu hactive => ⟨u, (only.get (by simp) _).trans hu, hactive⟩)
      (fun id ur hget huser hadmin => ?_) (fun id r hr => (only.get (by simp) id).trans hr) hactor⟩
    rcases effect with hsame | ⟨roleId, hrole, hremoved⟩
    · rw [Db.get, hsame]
      exact hget
    rcases hremoved.kept id ur hget with hkept | rfl
    · exact hkept
    · obtain ⟨hkey, hname⟩ := Role.mk.inj (Option.some.inj (hrole.symm.trans hadmin))
      exact absurd ⟨huser.symm, hkey, hname⟩ guard
  | sessionsRevoked _ _ _ only => exact honly only (by simp) (by simp) (by simp)
  | passwordResetRequested only => exact honly only (by simp) (by simp) (by simp)
  | passwordResetRefused only => exact honly only (by simp) (by simp) (by simp)
  | passwordReset _ _ _ _ only => exact honly only (by simp) (by simp) (by simp)
  | loginSucceeded _ _ _ only => exact honly only (by simp) (by simp) (by simp)
  | loginFailureRecorded _ _ _ only => exact honly only (by simp) (by simp) (by simp)

lemma hasAdmin_of_valid (hadmin : HasAdmin db₀)
    (hpending : ∀ t actor now,
      calls t ≠ .admin actor (.setUserStatus actor .pendingEmailVerification now))
    {log : Log store} (hv : SessionLog settings calls db₀ log)
    (hauthorized : log.Commits fun prior t _ _ => StillAuthorized calls prior.db t = true) :
    HasAdmin log.db := by
  induction log with
  | initial db ext =>
    obtain rfl : db = db₀ := hv.1
    exact hadmin
  | add log event ih =>
    cases event with
    | selected t q => exact ih hv.of_add hauthorized
    | called t report ext => exact ih hv.of_add hauthorized
    | committed t report held after =>
      exact hv.2.1.hasAdmin hpending hauthorized.2 (ih hv.of_add hauthorized.1)

/-! ## Runs -/

/-- An administrator remains if nobody sets their own status to PENDING_EMAIL_VERIFICATION
and every demotion commits while its caller is still an ACTIVE administrator. -/
theorem admin_remains {redis : RedisState} {acts : List (Act store)} {sys : System store}
    (hunique : UniqueEntries db₀) (husers : TokenUsersExist db₀) (hadmin : HasAdmin db₀)
    (hpending : ∀ t actor now,
      calls t ≠ .admin actor (.setUserStatus actor .pendingEmailVerification now))
    (hrun : sessionRun settings calls db₀ redis acts = some sys)
    (hauthorized : sys.shared.log.Commits fun prior t _ _ =>
      StillAuthorized calls prior.db t = true) : HasAdmin sys.shared.db :=
  hasAdmin_of_valid hadmin hpending (sessionLog_of_run hunique husers hrun) hauthorized

/-- The administrator suspends the user. -/
def suspendUser (_ : ℕ) : SessionCall := .admin "alice" (.setUserStatus "bob" .suspended 5)

def suspendUserActs : List (Act store) :=
  [.call 0, .step 0 [], .step 0 [], .step 0 [], .step 0 ["bob"], .step 0 [], .step 0 ["bob"],
    .step 0 [], .step 0 ["r1"], .step 0 [], .step 0 []]

theorem suspendUser_admin_remains :
    ∃ sys, sessionRun plainSettings suspendUser adminAndUser ⟨∅⟩ suspendUserActs = some sys ∧
      sys.shared.log.reports 0 = [.userStatusSet "bob" .suspended] ∧ HasAdmin sys.shared.db := by
  have hsome : (sessionRun plainSettings suspendUser adminAndUser ⟨∅⟩ suspendUserActs).any
      (fun sys => sys.shared.log.reports 0 = [.userStatusSet "bob" .suspended] ∧
        sys.shared.log.Commits fun prior t _ _ => StillAuthorized suspendUser prior.db t = true) =
      true := by decide
  obtain ⟨sys, hrun, hsys⟩ := (Option.any_eq_true _ _).mp hsome
  obtain ⟨hreports, hauthorized⟩ := of_decide_eq_true hsys
  exact ⟨sys, hrun, hreports, admin_remains (by decide) (by decide) (by decide)
    (fun _ _ _ h => by simp [suspendUser] at h) hrun hauthorized⟩

/-- The only administrator sets their own status to PENDING_EMAIL_VERIFICATION. -/
def ownStatus (_ : ℕ) : SessionCall :=
  .admin "alice" (.setUserStatus "alice" .pendingEmailVerification 5)

def ownStatusActs : List (Act store) :=
  [.call 0, .step 0 [], .step 0 [], .step 0 [], .step 0 ["alice"], .step 0 [], .step 0 []]

/-- Two administrators, each with nobody else left if both are suspended. -/
def twoAdmins : Db store := view [.put .userRole "ur1" ⟨"bob", "admin"⟩] adminAndUser

/-- Each suspends the other. -/
def crossedSuspensions : ℕ → SessionCall
  | 0 => .admin "alice" (.setUserStatus "bob" .suspended 5)
  | _ => .admin "bob" (.setUserStatus "alice" .suspended 5)

/-- Both requests are authorized before either mutation begins. -/
def crossedSuspensionsActs : List (Act store) :=
  [.call 0, .call 1, .step 0 [], .step 1 [], .step 0 [], .step 1 [],
    .step 0 [], .step 0 ["bob"], .step 0 [], .step 0 ["bob"], .step 0 [], .step 0 ["r1"],
    .step 0 [], .step 0 [],
    .step 1 [], .step 1 ["alice"], .step 1 [], .step 1 ["alice"], .step 1 [], .step 1 ["r0"],
    .step 1 [], .step 1 []]

theorem administration_locks_out :
    (HasAdmin oneAdmin ∧ ∃ sys,
      sessionRun plainSettings ownStatus oneAdmin ⟨∅⟩ ownStatusActs = some sys ∧
      ¬ HasAdmin sys.shared.db) ∧
    (HasAdmin twoAdmins ∧ ∃ sys,
      sessionRun plainSettings crossedSuspensions twoAdmins ⟨∅⟩ crossedSuspensionsActs = some sys ∧
      ¬ HasAdmin sys.shared.db) := by
  have hown : (sessionRun plainSettings ownStatus oneAdmin ⟨∅⟩ ownStatusActs).any
      (fun sys => ¬ HasAdmin sys.shared.db) = true := by decide
  have hcrossed : (sessionRun plainSettings crossedSuspensions twoAdmins ⟨∅⟩
      crossedSuspensionsActs).any (fun sys => ¬ HasAdmin sys.shared.db) = true := by decide
  obtain ⟨sys, hrun, hsys⟩ := (Option.any_eq_true _ _).mp hown
  obtain ⟨sys', hrun', hsys'⟩ := (Option.any_eq_true _ _).mp hcrossed
  exact ⟨⟨by decide, sys, hrun, of_decide_eq_true hsys⟩,
    ⟨by decide, sys', hrun', of_decide_eq_true hsys'⟩⟩

end WiseacctSso
