import WiseacctSso.SessionRuns

/-!
# Revocation is complete

A commit that ends the sessions of a user leaves no live token of that user, whatever
rotations and issues were under way, and none of those tokens is rotated later.
-/
namespace WiseacctSso
open ReadCommitted AdminMutationStore

variable {settings : AuthSettings} {calls : ℕ → SessionCall} {db₀ : Db store}

/-- The transactions that end the sessions of the user. -/
def Report.revokes (userId : String) : Report → Bool
  | .userStatusSet target status => target = userId && shouldRevokeForStatus status
  | .roleRemoved target removed => target = userId && removed
  | .sessionsRevoked target => target = userId
  | .passwordReset target => target = some userId
  | _ => false

section commit

variable {log : Log store} {t : ℕ} {held : Lock store → Bool} {after : Db store}
  {report : Report} {userId : String}

lemma SessionCommit.sessionsRevoked_of_revokes
    (h : SessionCommit settings calls log t held after report)
    (hrevokes : report.revokes userId = true) : SessionsRevoked userId log.db after := by
  cases h with
  | userStatusSet _ _ _ tokens _ =>
    simp only [Report.revokes, Bool.and_eq_true, decide_eq_true_eq] at hrevokes
    obtain ⟨rfl, hstatus⟩ := hrevokes
    rwa [if_pos hstatus] at tokens
  | roleRemoved _ _ _ tokens _ =>
    simp only [Report.revokes, Bool.and_eq_true, decide_eq_true_eq] at hrevokes
    obtain ⟨rfl, hremoved⟩ := hrevokes
    rwa [if_pos hremoved] at tokens
  | sessionsRevoked _ _ effect _ =>
    obtain rfl : _ = userId := by simpa [Report.revokes] using hrevokes
    exact effect
  | passwordReset _ _ _ tokens _ =>
    obtain rfl : _ = userId := by simpa [Report.revokes] using hrevokes
    exact tokens
  | refused report_mem _ =>
    simp only [List.mem_cons, List.not_mem_nil, or_false] at report_mem
    rcases report_mem with rfl | rfl | rfl <;> simp [Report.revokes] at hrevokes
  | _ => simp [Report.revokes] at hrevokes

/-- Only a user who is ACTIVE before a commit may have a live token because of it. -/
lemma SessionStep.noLiveToken {before : Db store} (h : SessionStep held before after)
    (hinactive : ∀ u : User, before.get .user userId = some u → u.status ≠ .active)
    (hnone : NoLiveToken userId before) : NoLiveToken userId after := by
  intro κ r hr huser hlive
  cases h.tokens κ with
  | same hsame => exact hnone κ r (hsame.symm.trans hr) huser hlive
  | revoked _ _ hrevoked =>
    obtain rfl := Option.some.inj (hrevoked.symm.trans hr)
    simp at hlive
  | inserted _ active hins =>
    obtain rfl := Option.some.inj (hins.symm.trans hr)
    obtain ⟨u, hu, hactive⟩ := active.2
    exact hinactive u (huser ▸ hu) hactive

end commit

/-- A revoked token stays as it is. -/
lemma revoked_of_extends {permitted : Event store → Prop} {log log' : Log store}
    (h : log.Extends permitted log') (hv : SessionLog settings calls db₀ log') {κ : String}
    {r : RefreshToken} (hr : log.db.get .refreshToken κ = some r) (hrevoked : r.revokedAt ≠ none) :
    log'.db.get .refreshToken κ = some r := by
  refine stable_of_step (P := fun db => db.get .refreshToken κ = some r) session_takesSteps ?_ h hv
    hr
  intro held before after hstep hbefore
  cases hstep.tokens κ with
  | same hsame => exact hsame.trans hbefore
  | revoked found live _ =>
    obtain rfl := Option.some.inj (found.symm.trans hbefore)
    exact absurd live hrevoked
  | inserted fresh _ _ => exact absurd (fresh.symm.trans hbefore) (by simp)

/-- While a user stays in a status other than ACTIVE no token of the user comes to life. -/
lemma noLiveToken_of_extends {log log' : Log store} {userId : String} {status : UserStatus}
    (h : log.Precedes log') (hv : SessionLog settings calls db₀ log') (hstatus : status ≠ .active)
    (hkept : ∀ between : Log store, log.Precedes between → between.Precedes log' →
      ∀ u : User, between.db.get .user userId = some u → u.status = status)
    (hnone : NoLiveToken userId log.db) : NoLiveToken userId log'.db := by
  induction h with
  | refl => exact hnone
  | @add log' event h _ ih =>
    have hbefore := ih hv.of_add fun between hb hb' => hkept between hb (.add hb' trivial)
    cases event with
    | selected t q => exact hbefore
    | called t report ext => exact hbefore
    | committed t report held after =>
      exact hv.2.1.step.noLiveToken
        (fun u hu => hkept log' h (.single trivial) u hu ▸ hstatus) hbefore

/-! ## Runs -/

/-- What a complete revocation says of a log. -/
structure RevocationComplete (userId : String) (log : Log store) : Prop where
  /-- A revoking commit revokes all tokens of the user, and leaves none live. -/
  revoked : ∀ (prior : Log store) t report held after,
    (prior.add (.committed t report held after)).Precedes log → report.revokes userId = true →
    SessionsRevoked userId prior.db after
  /-- The source of a later rotation is no token the user had at that moment. -/
  notRotated : ∀ (prior later : Log store) t t' report tokenHash held held' after after',
    (prior.add (.committed t report held after)).Precedes later → report.revokes userId = true →
    (later.add (.committed t' (.rotated tokenHash) held' after')).Precedes log →
    ∃ owner audience now issued sourceId source,
      TokenRotated tokenHash owner audience now issued held' later.db after' sourceId source ∧
      ∀ r : RefreshToken, after.get .refreshToken sourceId = some r → r.userId ≠ userId
  /-- A user whose status was set to SUSPENDED or DELETED has no live token as long as the
  status stays. -/
  inactive : ∀ (prior : Log store) t status held after,
    (prior.add (.committed t (.userStatusSet userId status) held after)).Precedes log →
    status = .suspended ∨ status = .deleted →
    (∀ between : Log store,
      (prior.add (.committed t (.userStatusSet userId status) held after)).Precedes between →
      between.Precedes log →
      ∀ u : User, between.db.get .user userId = some u → u.status = status) →
    NoLiveToken userId log.db

theorem revocation_complete {redis : RedisState} {acts : List (Act store)} {sys : System store}
    (hunique : UniqueEntries db₀) (husers : TokenUsersExist db₀)
    (hrun : sessionRun settings calls db₀ redis acts = some sys) (userId : String) :
    RevocationComplete userId sys.shared.log := by
  have hv := sessionLog_of_run hunique husers hrun
  have hrevoked : ∀ (prior log : Log store) t report held after,
      (prior.add (.committed t report held after)).Precedes log →
      SessionLog settings calls db₀ log → report.revokes userId = true →
      SessionsRevoked userId prior.db after := fun prior log t report held after h hlog hr =>
    (Log.Valid.of_extends h hlog).2.1.sessionsRevoked_of_revokes hr
  refine ⟨fun prior t report held after h => hrevoked prior _ t report held after h hv,
    fun prior later t t' report tokenHash held held' after after' h hr h' => ?_,
    fun prior t status held after h hstatus hkept => ?_⟩
  · have hlater := Log.Valid.of_extends h' hv
    obtain ⟨-, hnone⟩ := hrevoked prior later t report held after h hlater.of_add hr
    cases hlater.2.1 with
    | rotated _ _ _ _ _ _ effect =>
      refine ⟨_, _, _, _, _, _, effect, fun r hr huser => ?_⟩
      -- The source was live before the rotation, and such a token was revoked for good.
      have hkept := revoked_of_extends h hlater.of_add hr (hnone _ r hr huser)
      obtain rfl := Option.some.inj (hkept.symm.trans effect.found)
      exact hnone _ _ hr huser effect.live
    | refused report_mem _ => simp at report_mem
  · have hrevokes : (Report.userStatusSet userId status).revokes userId = true := by
      rcases hstatus with rfl | rfl <;> simp [Report.revokes, shouldRevokeForStatus]
    refine noLiveToken_of_extends h hv ?_ hkept
      (hrevoked prior _ t _ held after h hv hrevokes).none_live
    rcases hstatus with rfl | rfl <;> decide

/-- An administrator ends the sessions of a user whose rotation is under way. -/
def revocationAndRotation : ℕ → SessionCall
  | 0 => .admin "alice" (.revokeSessions "bob" 5)
  | 1 => .rotate "h1" "temis" 5 ⟨"r2", "h2", 200⟩
  | _ => .logout "" 0

def revocationAndRotationActs : List (Act store) :=
  [.call 0, .call 1, .step 0 [], .step 0 [], .step 1 [], .step 1 [], .step 0 [], .step 0 ["bob"],
    .step 0 [], .step 1 ["bob"], .step 0 ["r1"], .step 0 [], .step 0 [], .step 1 [], .step 1 [],
    .step 1 []]

theorem revocationAndRotation_complete :
    ∃ sys, sessionRun plainSettings revocationAndRotation adminAndUser ⟨∅⟩
        revocationAndRotationActs = some sys ∧
      sys.shared.log.reports 0 = [.sessionsRevoked "bob"] ∧ sys.shared.log.reports 1 = [] ∧
      RevocationComplete "bob" sys.shared.log := by
  have hsome : (sessionRun plainSettings revocationAndRotation adminAndUser ⟨∅⟩
      revocationAndRotationActs).any (fun sys =>
        sys.shared.log.reports 0 = [.sessionsRevoked "bob"] ∧ sys.shared.log.reports 1 = []) =
      true := by decide
  obtain ⟨sys, hrun, hreports⟩ := (Option.any_eq_true _ _).mp hsome
  obtain ⟨hrevoked, hrotated⟩ := of_decide_eq_true hreports
  exact ⟨sys, hrun, hrevoked, hrotated,
    revocation_complete (by decide) (by decide) hrun "bob"⟩

end WiseacctSso
