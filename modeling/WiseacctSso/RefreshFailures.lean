import WiseacctSso.AuditedKeeps
import WiseacctSso.SessionRuns

/-!
# What a failed refresh costs

The rotation is one transaction and each audit event another. A refresh that raises has
rotated nothing, unless the rotation was committed and the audit of its success then failed.
-/
namespace WiseacctSso
open ReadCommitted

variable {calls : ℕ → AuditedCall} {db₀ : Db store} {t : ℕ}

/-- The live token of the hash is revoked and replaced by the token that was issued; no other
row changes. -/
def TokenReplaced (tokenHash : String) (now : Timestamp) (issued : IssuedRefreshToken)
    (before after : Db store) : Prop :=
  ∃ userId audience held sourceId source,
    TokenRotated tokenHash userId audience now issued held before after sourceId source

lemma refresh_commits_of_error {acts : List (Act store)} {sys : System store}
    (hunique : UniqueEntries db₀) (hrun : auditedRun calls db₀ acts = some sys)
    {verified : Option String} {tokenHash : String} {now : Timestamp}
    {issued : IssuedRefreshToken} {faults : Faults}
    (hcall : calls t = .refresh verified tokenHash now issued faults) {e : Error}
    (herror : sys.error t = some e) :
    sys.shared.log.Commits fun prior t' _ after => t' = t →
      faults.successAudit.isSome = true ∧ TokenReplaced tokenHash now issued prior.db after := by
  refine run_commits_of_error audited_keeps rfl hunique hrun herror
    (p := fun report => report = .rotated tokenHash ∧ faults.successAudit.isSome = true) ?_ ?_
  · intro reports hraised report hreport
    simp only [auditedGuarantee, hcall, AuditedCall.Raised] at hraised
    rcases hraised with rfl | ⟨rfl, haudit⟩
    · simp at hreport
    · exact ⟨List.mem_singleton.mp hreport, haudit⟩
  · rintro prior report held after - ⟨-, hcommit⟩ ⟨rfl, haudit⟩
    refine ⟨haudit, ?_⟩
    cases hcommit with
    | refused report_mem _ => simp at report_mem
    | rotated call effect =>
      simp only [hcall, AuditedCall.rotation, Option.some.injEq, Prod.mk.injEq] at call
      obtain ⟨-, rfl, rfl⟩ := call
      exact ⟨_, _, held, _, _, effect⟩

/-- Whatever fails, a refresh that raises has committed nothing, or it has committed the
rotation and the audit of its success has failed. If nothing else runs, the tables are as
before the call in the first case, and rotated in the second. -/
theorem failed_refresh_costs {acts : List (Act store)} {sys : System store}
    (hunique : UniqueEntries db₀) (hrun : auditedRun calls db₀ acts = some sys)
    {verified : Option String} {tokenHash : String} {now : Timestamp}
    {issued : IssuedRefreshToken} {faults : Faults}
    (hcall : calls t = .refresh verified tokenHash now issued faults) {e : Error}
    (herror : sys.error t = some e) :
    (sys.shared.log.Commits fun prior t' _ after => t' = t →
      faults.successAudit.isSome = true ∧ TokenReplaced tokenHash now issued prior.db after) ∧
    ((∀ a ∈ acts, a.process = t) → sys.shared.db = db₀ ∨
      faults.successAudit.isSome = true ∧
        TokenReplaced tokenHash now issued db₀ sys.shared.db) := by
  have hcommits := refresh_commits_of_error hunique hrun hcall herror
  refine ⟨hcommits, fun halone => ?_⟩
  have hext := run_alone halone hrun
  obtain ⟨c, hc, hprog⟩ := System.process_of_error herror
  have hraised := run_raised (G := auditedGuarantee calls db₀) audited_keeps rfl hunique hrun hc
    hprog
  simp only [auditedGuarantee, hcall, AuditedCall.Raised] at hraised
  rcases hraised with hnone | ⟨hone, -⟩
  · exact .inl (db_eq_of_alone hext hnone)
  · rcases db_of_commits_alone hext hone hcommits with hsame | ⟨prior, hprior, hcommit⟩
    · exact .inl hsame
    · obtain ⟨haudit, hreplaced⟩ := hcommit rfl
      have hbefore : prior.db = db₀ := hprior
      rw [hbefore] at hreplaced
      exact .inr ⟨haudit, hreplaced⟩

/-! ## One refresh -/

/-- A refresh of the second user's token. -/
def bobRefreshes (faults : Faults) : ℕ → AuditedCall
  | _ => .refresh (some "temis") "h1" 50 ⟨"r2", "h2", 200⟩ faults

def refreshActs : List (Act store) :=
  [.call 0, .step 0 [], .step 0 [], .step 0 ["bob"], .step 0 [], .step 0 ["r1"], .step 0 [],
    .step 0 [], .step 0 [], .step 0 [], .step 0 []]

/-- The commit of the rotation fails, and nothing has changed. -/
theorem failedCommit_costs_nothing :
    ∃ sys, auditedRun (bobRefreshes ⟨some (8, .runtime "commit"), none, none⟩) adminAndUser
        refreshActs = some sys ∧ sys.error 0 = some (.runtime "commit") ∧
      sys.shared.db = adminAndUser := by
  have hsome : (auditedRun (bobRefreshes ⟨some (8, .runtime "commit"), none, none⟩) adminAndUser
      refreshActs).any (fun sys => sys.error 0 = some (.runtime "commit")) = true := by decide
  obtain ⟨sys, hrun, hsys⟩ := (Option.any_eq_true _ _).mp hsome
  have herror : sys.error 0 = some (.runtime "commit") := of_decide_eq_true hsys
  have hcosts := (failed_refresh_costs (by decide) hrun rfl herror).2 (by decide)
  exact ⟨sys, hrun, herror, hcosts.resolve_right fun haudit => by simp at haudit⟩

/-- The audit of a successful rotation fails: the call raises, and the client's token is
revoked. -/
theorem failedAudit_costs_token :
    ∃ sys, auditedRun (bobRefreshes ⟨none, some (.runtime "audit"), none⟩) adminAndUser
        refreshActs = some sys ∧ sys.error 0 = some (.runtime "audit") ∧
      adminAndUser.get .refreshToken "r1" = some ⟨"h1", "bob", 100, none, "temis"⟩ ∧
      sys.shared.db.get .refreshToken "r1" = some ⟨"h1", "bob", 100, some 50, "temis"⟩ ∧
      adminAndUser.get .refreshToken "r2" = none ∧
      sys.shared.db.get .refreshToken "r2" = some ⟨"h2", "bob", 200, none, "temis"⟩ := by
  have hsome : (auditedRun (bobRefreshes ⟨none, some (.runtime "audit"), none⟩) adminAndUser
      refreshActs).any (fun sys => sys.error 0 = some (.runtime "audit") ∧
        adminAndUser.get .refreshToken "r1" = some ⟨"h1", "bob", 100, none, "temis"⟩ ∧
        sys.shared.db.get .refreshToken "r1" = some ⟨"h1", "bob", 100, some 50, "temis"⟩ ∧
        adminAndUser.get .refreshToken "r2" = none ∧
        sys.shared.db.get .refreshToken "r2" = some ⟨"h2", "bob", 200, none, "temis"⟩) =
          true := by decide
  obtain ⟨sys, hrun, hsys⟩ := (Option.any_eq_true _ _).mp hsome
  exact ⟨sys, hrun, of_decide_eq_true hsys⟩

end WiseacctSso
