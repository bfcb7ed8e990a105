import WiseacctSso.AdminLockout

/-!
# Authorization and mutation of an admin request

`authorize_admin` reads the caller's rights in a connection of its own. The transaction of
the mutation that follows neither locks nor reads the caller.
-/
namespace WiseacctSso
open ReadCommitted

variable {settings : AuthSettings} {calls : ℕ → SessionCall} {db₀ : Db store}

/-- The administrator a call acts for. -/
def SessionCall.actor : SessionCall → Option String
  | admin actor _ => some actor
  | _ => none

/-- The actor of call `t`, if it is an admin request, is an ACTIVE `temis:admin`. -/
def actorAuthorized (calls : ℕ → SessionCall) (db : Db store) (t : ℕ) : Bool :=
  (calls t).actor.all (activeTemisAdmin db)

/-- Process `t` has read whether the user is an ACTIVE `temis:admin`. -/
def hasReadAuthorization (t : ℕ) (userId : String) : Log store → Bool
  | .initial _ _ => false
  | .add log (.selected t' query) =>
      (t' = t && query = .isActiveTemisAdmin userId) || hasReadAuthorization t userId log
  | .add log (.called _ _ _) => hasReadAuthorization t userId log
  | .add log (.committed _ _ _ _) => hasReadAuthorization t userId log

/-- Some commit took the user's rights after process `t` had read them. -/
def demotedSinceRead (t : ℕ) (userId : String) : Log store → Bool
  | .initial _ _ => false
  | .add log (.selected _ _) => demotedSinceRead t userId log
  | .add log (.called _ _ _) => demotedSinceRead t userId log
  | .add log (.committed _ _ _ after) =>
      (hasReadAuthorization t userId log && activeTemisAdmin log.db userId &&
        !activeTemisAdmin after userId) || demotedSinceRead t userId log

/-- Process `t` has read that the user is an ACTIVE `temis:admin`. -/
def AuthorizedByRead (t : ℕ) (userId : String) (log : Log store) : Prop :=
  ∃ read : Log store, (read.add (.selected t (.isActiveTemisAdmin userId))).Precedes log ∧
    activeTemisAdmin read.db userId = true

lemma AuthorizedByRead.mono {t : ℕ} {userId : String} {log log' : Log store}
    (hlog : log.Precedes log') (h : AuthorizedByRead t userId log) :
    AuthorizedByRead t userId log' := by
  obtain ⟨read, hread, ha⟩ := h
  exact ⟨read, hread.trans hlog, ha⟩

lemma hasReadAuthorization_of_precedes {read log : Log store} {t : ℕ} {userId : String}
    (h : (read.add (.selected t (.isActiveTemisAdmin userId))).Precedes log) :
    hasReadAuthorization t userId log = true := by
  induction h with
  | refl => simp [hasReadAuthorization]
  | @add log event _ _ ih =>
    cases event <;> simp [hasReadAuthorization, ih]

/-- Rights that were read last until a commit takes them. -/
lemma authorized_of_read {read log : Log store} {t : ℕ} {userId : String}
    (h : (read.add (.selected t (.isActiveTemisAdmin userId))).Precedes log)
    (ha : activeTemisAdmin read.db userId = true)
    (hsince : demotedSinceRead t userId log = false) :
    activeTemisAdmin log.db userId = true := by
  induction h with
  | refl => exact ha
  | @add log event h _ ih =>
    cases event with
    | selected t' q => exact ih hsince
    | called t' report ext => exact ih hsince
    | committed t' report held after =>
      simp only [demotedSinceRead, Bool.or_eq_false_iff] at hsince
      have hbefore : activeTemisAdmin log.db userId = true := ih hsince.2
      have hafter : activeTemisAdmin after userId = true := by
        simpa [hasReadAuthorization_of_precedes h, hbefore] using hsince.1
      exact hafter

/-! ## The guarantee of admin requests -/

/-- Whatever an admin request commits, it has read its actor's rights before. -/
def authorizationGuarantee (calls : ℕ → SessionCall) : Guarantee store where
  initial _ _ := True
  commit log t _ _ _ := ∀ actor ∈ (calls t).actor, AuthorizedByRead t actor log
  call _ _ _ _ := True
  raised _ _ := True

/-- From its read on, every step of a request only needs that the read took place. -/
lemma wp_authorized {α : Type} {t : ℕ} {s : Shared store} {ws : List (Write store)}
    {p : StoreProg α} (h : ∀ actor ∈ (calls t).actor, AuthorizedByRead t actor s.log) :
    wp (authorizationGuarantee calls) t p (.kept (authorizationGuarantee calls) t) s ws :=
  wp_of_stable (I := fun log => ∀ actor ∈ (calls t).actor, AuthorizedByRead t actor log)
    (fun _ _ hlog hI actor hactor => (hI actor hactor).mono hlog) (fun _ _ _ _ hI => hI)
    (fun _ _ _ _ => trivial) (fun _ _ => trivial) h

lemma wp_request {t : ℕ} {s : Shared store} {actor : String} {request : AdminRequest}
    (hcall : calls t = .admin actor request) :
    wp (authorizationGuarantee calls) t (Phase6AdminService.request settings.py actor request)
      (.kept (authorizationGuarantee calls) t) s [] := by
  refine wp_bind.mpr (wp_bind.mpr ?_)
  rw [assertUserId]
  split
  · trivial
  refine wp_bind.mpr (wp_connection (wp_query fun sr _ s₀ hs₀ => ?_))
  dsimp only
  split
  · next hauthorized =>
    refine wp_authorized fun actor' hactor' => ?_
    obtain rfl : actor = actor' := by simpa [hcall, SessionCall.actor] using hactor'
    exact ⟨sr.log, hs₀.precedes, hauthorized⟩
  · trivial

lemma authorization_keeps : Keeps (authorizationGuarantee calls)
    fun t => (calls t).prog settings := by
  intro t s _ _ _
  have hother : (calls t).actor = none →
      wp (authorizationGuarantee calls) t ((calls t).prog settings)
        (.kept (authorizationGuarantee calls) t) s [] := fun hnone =>
    wp_authorized (by simp [hnone])
  cases hcall : calls t with
  | admin actor request =>
    change wp _ t ((calls t).prog settings) _ s []
    rw [hcall]
    exact wp_request hcall
  | _ => exact hother (by rw [hcall]; rfl)

/-! ## Runs -/

/-- Whenever an admin request commits, its actor was an ACTIVE `temis:admin` when its
authorization was read, and is one still unless another commit has taken the rights since. -/
theorem mutation_authorized {redis : RedisState} {acts : List (Act store)} {sys : System store}
    (hunique : UniqueEntries db₀)
    (hrun : sessionRun settings calls db₀ redis acts = some sys) :
    sys.shared.log.Commits fun prior t _ _ => ∀ actor ∈ (calls t).actor,
      AuthorizedByRead t actor prior ∧
      (demotedSinceRead t actor prior = false → activeTemisAdmin prior.db actor = true) := by
  have hkeeps : Keeps (authorizationGuarantee calls) fun t => (calls t).prog settings :=
    authorization_keeps
  have hv : sys.shared.log.Valid (authorizationGuarantee calls) :=
    run_valid hkeeps trivial hunique hrun
  refine hv.commits fun log t report held after _ hread actor hactor => ?_
  obtain ⟨read, hprecedes, ha⟩ := hread actor hactor
  exact ⟨⟨read, hprecedes, ha⟩, authorized_of_read hprecedes ha⟩

theorem suspendUser_mutation_authorized :
    ∃ sys, sessionRun plainSettings suspendUser adminAndUser ⟨∅⟩ suspendUserActs = some sys ∧
      sys.shared.log.reports 0 = [.userStatusSet "bob" .suspended] ∧
      sys.shared.log.Commits fun prior t _ _ => ∀ actor ∈ (suspendUser t).actor,
        AuthorizedByRead t actor prior ∧
        (demotedSinceRead t actor prior = false → activeTemisAdmin prior.db actor = true) := by
  have hsome : (sessionRun plainSettings suspendUser adminAndUser ⟨∅⟩ suspendUserActs).any
      (fun sys => sys.shared.log.reports 0 = [.userStatusSet "bob" .suspended]) = true := by decide
  obtain ⟨sys, hrun, hsys⟩ := (Option.any_eq_true _ _).mp hsome
  exact ⟨sys, hrun, of_decide_eq_true hsys, mutation_authorized (by decide) hrun⟩

/-- An administrator who has been suspended suspends another one. -/
theorem suspended_admin_commits :
    ∃ sys, sessionRun plainSettings crossedSuspensions twoAdmins ⟨∅⟩ crossedSuspensionsActs =
        some sys ∧
      sys.shared.log.reports 0 = [.userStatusSet "bob" .suspended] ∧
      sys.shared.log.reports 1 = [.userStatusSet "alice" .suspended] ∧
      ¬ sys.shared.log.Commits fun prior t _ _ =>
        actorAuthorized crossedSuspensions prior.db t = true := by
  have hsome : (sessionRun plainSettings crossedSuspensions twoAdmins ⟨∅⟩
      crossedSuspensionsActs).any (fun sys =>
        sys.shared.log.reports 0 = [.userStatusSet "bob" .suspended] ∧
        sys.shared.log.reports 1 = [.userStatusSet "alice" .suspended] ∧
        ¬ sys.shared.log.Commits fun prior t _ _ =>
          actorAuthorized crossedSuspensions prior.db t = true) = true := by decide
  obtain ⟨sys, hrun, hsys⟩ := (Option.any_eq_true _ _).mp hsome
  exact ⟨sys, hrun, of_decide_eq_true hsys⟩

end WiseacctSso
