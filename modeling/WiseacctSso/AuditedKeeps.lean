import WiseacctSso.AuditedGuarantee

/-!
# Audited calls keep the audited guarantee
-/
namespace WiseacctSso
open ReadCommitted Phase5AuthService

variable {calls : ℕ → AuditedCall} {db₀ : Db store} {t : ℕ} {s : Shared store}
  {ws : List (Write store)}

lemma wp_writeAudit {G : Guarantee store} {fault : Option Error} {Q : Post store Unit}
    (hret : Q.ret () s ws) (hraise : ∀ e, fault = some e → Q.raise e s ws) :
    wp G t (writeAudit fault) Q s ws := by
  rcases fault with _ | e
  · exact hret
  · exact hraise e rfl

lemma silent_rotateCurrent {tokenHash audience : String} {now : Timestamp}
    {issued : IssuedRefreshToken} : (rotateCurrent tokenHash audience now issued).Silent := by
  refine RefreshRotationStore.silent_rotate.bind fun rotated => ?_
  split
  · trivial
  · refine Prog.Silent.bind (Prog.Silent.query.bind fun user => ?_) fun user => ?_
    · split
      · trivial
      · exact .bind (Prog.Silent.query.bind fun _ => trivial) fun _ => trivial
    · split <;> trivial

section calls
/-- Whatever is raised, the audit of the failure is written first, or fails in its turn. -/
lemma wp_refreshFailed {audit : Option Error} (e : Error)
    (h : (auditedGuarantee calls db₀).raised t (s.log.reports t)) :
    wp (auditedGuarantee calls db₀) t (do
        writeAudit audit
        match e with
        | .refreshRotationConflict _ => .raise invalidRefreshToken
        | e => .raise e : StoreProg CurrentUserRecord)
      ⟨fun _ _ _ => True, fun _ s' _ => (auditedGuarantee calls db₀).raised t
        (s'.log.reports t)⟩ s [] := by
  refine wp_bind.mpr (wp_writeAudit ?_ fun _ _ => h)
  cases e <;> exact h

variable (hfirst : s.log.reports t = [])
include hfirst

lemma reports_of_later {s' : Shared store} (hs : Later (auditedGuarantee calls db₀) t s s') :
    s'.log.reports t = [] :=
  hs.reports.trans hfirst

lemma reports_of_commit {report : Report} {after : Db store} :
    (s.commit t report after).log.reports t = [report] := by
  change (if t = t then s.log.reports t ++ [report] else _) = _
  rw [if_pos rfl, hfirst]
  rfl

lemma wp_rotate_audited {tokenHash audience : String} {now : Timestamp}
    {issued : IssuedRefreshToken} (hcall : calls t = .rotate tokenHash audience now issued) :
    wp (auditedGuarantee calls db₀) t (calls t).prog
      (.kept (auditedGuarantee calls db₀) t) s [] := by
  have hraised : ∀ reports, (auditedGuarantee calls db₀).raised t reports := by
    intro reports
    simp [auditedGuarantee, hcall, AuditedCall.Raised]
  rw [hcall]
  refine wp_bind.mpr (wp_transaction fun s₀ hs₀ => ?_)
  refine RefreshRotationStore.wp_rotate (fun _ _ _ _ _ _ => hraised _) ?_ ?_
  · intro s₁ hs₁ s' hs'
    exact ⟨⟨hs'.reports.trans (hs₁.reports.trans (reports_of_later hfirst hs₀)),
      .refused (by simp) rfl⟩, trivial⟩
  · intro sr s₁ stored sourceId source hsr hs₁ hready s' hs'
    have hreports := hs'.reports.trans (hs₁.reports.trans (hsr.reports.trans
      (reports_of_later hfirst hs₀)))
    exact ⟨⟨hreports, .rotated (by rw [hcall]; rfl) (.of_ready hs' hready)⟩, trivial⟩

lemma wp_issue_audited {userId audience : String} {issued : IssuedRefreshToken}
    (hcall : calls t = .issue userId audience issued) :
    wp (auditedGuarantee calls db₀) t (calls t).prog
      (.kept (auditedGuarantee calls db₀) t) s [] := by
  have hraised : ∀ reports, (auditedGuarantee calls db₀).raised t reports := by
    intro reports
    simp [auditedGuarantee, hcall, AuditedCall.Raised]
  rw [hcall]
  refine wp_bind.mpr (wp_bind.mpr (wp_transaction fun s₀ hs₀ => ?_))
  refine TokenIssueStore.wp_issueForActiveUser (fun _ _ _ _ _ => hraised _) ?_ ?_
  · intro s₁ hs₁ s' hs'
    exact ⟨⟨hs'.reports.trans (hs₁.reports.trans (reports_of_later hfirst hs₀)),
      .refused (by simp) rfl⟩, hraised _⟩
  · intro s₁ user u hs₁ hu hactive hfresh s' hs'
    exact ⟨⟨hs'.reports.trans (hs₁.reports.trans (reports_of_later hfirst hs₀)),
      .tokenIssued hcall (.of_holds hs' hu hactive hfresh)⟩, trivial⟩

lemma wp_refresh_audited {verified : Option String} {tokenHash : String} {now : Timestamp}
    {issued : IssuedRefreshToken} {faults : Faults}
    (hcall : calls t = .refresh verified tokenHash now issued faults) :
    wp (auditedGuarantee calls db₀) t (calls t).prog
      (.kept (auditedGuarantee calls db₀) t) s [] := by
  have hraised : ∀ {s' : Shared store}, (s'.log.reports t = [] ∨
      s'.log.reports t = [.rotated tokenHash] ∧ faults.successAudit.isSome = true) →
      (auditedGuarantee calls db₀).raised t (s'.log.reports t) := by
    intro s' hreports
    simpa [auditedGuarantee, hcall, AuditedCall.Raised] using hreports
  rw [hcall]
  refine wp_bind.mpr ?_
  rcases verified with _ | audience
  · exact wp_bind.mpr (wp_writeAudit (hraised (.inl hfirst)) fun _ _ => hraised (.inl hfirst))
  refine wp_handle.mpr (wp_bind.mpr (wp_transaction_silent silent_rotateCurrent.faulty ?_ ?_))
  · exact fun e s' hs' => wp_refreshFailed e (hraised (.inl (reports_of_later hfirst hs')))
  intro s₀ hs₀
  refine wp_faulty (fun _ _ _ => trivial) (wp_bind.mpr ?_)
  refine RefreshRotationStore.wp_rotate (fun _ _ _ _ => trivial) (fun _ _ => trivial) ?_
  intro sr s₁ stored sourceId source hsr hs₁ hready
  refine wp_bind.mpr (UserReadStore.wp_findCurrentActive (fun _ _ => trivial) ?_)
  intro s₂ user hs₂ _ s' hs'
  have hreports : s'.log.reports t = [] :=
    hs'.reports.trans (hs₂.reports.trans (hs₁.reports.trans (hsr.reports.trans
      (reports_of_later hfirst hs₀))))
  refine ⟨⟨hreports, .rotated (by rw [hcall]; rfl) (.of_ready (hs₂.trans hs') hready)⟩, ?_⟩
  refine wp_bind.mpr (wp_writeAudit trivial fun e he =>
    wp_refreshFailed e (hraised (.inr ⟨?_, ?_⟩)))
  · exact reports_of_commit hreports
  · rw [he]
    rfl

lemma wp_confirmPasswordReset_audited {hashed : Except Error String} {tokenHash : String}
    {now : Timestamp} {faults : Faults}
    (hcall : calls t = .confirmPasswordReset hashed tokenHash now faults) :
    wp (auditedGuarantee calls db₀) t (calls t).prog
      (.kept (auditedGuarantee calls db₀) t) s [] := by
  have hraised : ∀ {s' : Shared store}, (s'.log.reports t = [] ∨
      s'.log.reports t = [.passwordReset none] ∨ ∃ userId, s'.log.reports t =
        [.passwordReset (some userId)] ∧ faults.successAudit.isSome = true) →
      (auditedGuarantee calls db₀).raised t (s'.log.reports t) := by
    intro s' hreports
    simpa [auditedGuarantee, hcall, AuditedCall.Raised] using hreports
  have hfailed : ∀ {s' : Shared store} {Q : Post store String} (e : Error),
      (∀ e, Q.raise e s' []) → wp (auditedGuarantee calls db₀) t (do
        writeAudit faults.failureAudit
        .raise e : StoreProg String) Q s' [] :=
    fun e hQ => wp_bind.mpr (wp_writeAudit (hQ e) fun e _ => hQ e)
  rw [hcall]
  refine wp_bind.mpr (wp_bind.mpr (wp_handle.mpr ?_))
  rcases hashed with e | passwordHash
  · exact hfailed e fun _ => hraised (.inl hfirst)
  refine wp_bind.mpr (wp_transaction_silent PasswordResetStore.silent_confirm.faulty ?_ ?_)
  · exact fun e s' hs' => hfailed e fun _ => hraised (.inl (reports_of_later hfirst hs'))
  intro s₀ hs₀
  have hstart := reports_of_later hfirst hs₀
  -- A reset that returns no user commits and raises.
  have hnone : ∀ {s' : Shared store} {after : Db store}, s'.log.reports t = [] →
      wp (auditedGuarantee calls db₀) t (do
        writeAudit faults.failureAudit
        .raise .invalidResetToken : StoreProg String)
      ⟨fun userId s' ws' => wp (auditedGuarantee calls db₀) t (do
          writeAudit faults.successAudit
          pure userId : StoreProg String) ⟨fun userId s' ws' =>
            wp (auditedGuarantee calls db₀) t (.call id (fun _ => .passwordResetConfirmed userId)
              fun _ => pure () : StoreProg Unit) (.kept (auditedGuarantee calls db₀) t) s' ws',
            fun _ s' _ => (auditedGuarantee calls db₀).raised t (s'.log.reports t)⟩ s' ws',
        fun _ s' _ => (auditedGuarantee calls db₀).raised t (s'.log.reports t)⟩
      (s'.commit t (.passwordReset none) after) [] := fun hreports =>
    hfailed _ fun _ => hraised (.inr (.inl (reports_of_commit hreports)))
  refine wp_faulty (fun _ _ _ => trivial) (PasswordResetStore.wp_confirm (fun _ _ _ => trivial)
    ?_ ?_ ?_)
  · intro s₁ hs₁ s' hs'
    have hreports := hs'.reports.trans (hs₁.reports.trans hstart)
    exact ⟨⟨hreports, .refused (by simp) rfl⟩, hnone hreports⟩
  · intro sr s₂ sv s₁ stored tokenId token hsr hs₂ hconsumed hsv hs₁ hmissing s' hs'
    have hreports := hs'.reports.trans (hs₁.reports.trans (hsv.reports.trans (hs₂.reports.trans
      (hsr.reports.trans hstart))))
    have hlast := (hsv.trans hs₁).trans hs'
    obtain ⟨token', htoken', hhash, huser, -⟩ :=
      resetToken_of_extends hs₂.log hs₂.valid hconsumed.read
    obtain rfl := Option.some.inj (htoken'.symm.trans hconsumed.held.lookup)
    have hgone : s'.db.get .user token'.userId = none := by
      have hsome := user_isSome_of_extends audited_takesSteps (hs₁.trans hs').log hs'.valid
        stored.userId
      rw [hmissing] at hsome
      simpa [huser] using hsome
    exact ⟨⟨hreports, .resetWithoutUser hcall (.of_consumed hconsumed hlast)
      (hhash.trans hconsumed.hash) hgone (onlyTables_view (by simp [Write.place]) _)⟩,
      hnone hreports⟩
  · intro sr s₂ sl s₃ s₁ stored tokenId token κ c done hsr hs₂ hconsumed hsl ho hs₃ hc huser hd
      s' hs'
    have hlast := ((hsl.trans hs₃).trans hd.follows).trans hs'
    have hreports := hlast.reports.trans (hs₂.reports.trans (hsr.reports.trans hstart))
    obtain ⟨token', htoken', hhash, huser', -⟩ :=
      resetToken_of_extends hs₂.log hs₂.valid hconsumed.read
    obtain rfl := Option.some.inj (htoken'.symm.trans hconsumed.held.lookup)
    have hreplaced := PasswordReplaced.of_reset audited_takesSteps ho hs₃ hc huser hd hs'
    rw [← huser'] at hreplaced ⊢
    refine ⟨⟨hreports, .reset hcall (.of_reset hconsumed hlast) (hhash.trans hconsumed.hash)
      hreplaced⟩, ?_⟩
    refine wp_bind.mpr (wp_writeAudit ?_ fun e he => hraised (.inr (.inr ⟨token'.userId, ?_, ?_⟩)))
    · intro s₄ hs₄
      exact ⟨.confirmed hs₄.precedes rfl, trivial⟩
    · exact reports_of_commit hreports
    · rw [he]
      rfl

end calls

theorem audited_keeps : Keeps (auditedGuarantee calls db₀) fun t => (calls t).prog := by
  intro t s _ hfirst _
  cases hcall : calls t with
  | rotate tokenHash audience now issued => exact wp_rotate_audited hfirst hcall
  | refresh verified tokenHash now issued faults =>
    exact wp_refresh_audited hfirst hcall
  | issue userId audience issued => exact wp_issue_audited hfirst hcall
  | confirmPasswordReset hashed tokenHash now faults =>
    exact wp_confirmPasswordReset_audited hfirst hcall

abbrev AuditedLog (calls : ℕ → AuditedCall) (db₀ : Db store) (log : Log store) : Prop :=
  log.Valid (auditedGuarantee calls db₀)

theorem auditedLog_of_run {acts : List (Act store)} {sys : System store}
    (hunique : UniqueEntries db₀) (hrun : auditedRun calls db₀ acts = some sys) :
    AuditedLog calls db₀ sys.shared.log :=
  run_valid audited_keeps rfl hunique hrun

end WiseacctSso
