import WiseacctSso.AccountKeeps
import WiseacctSso.AccountSteps

/-!
# Replacement of pending accounts

A sign-in with a verified email replaces the pending account of that email. The SELECT
that finds the account and the DELETE that removes it are separate statements, and the
DELETE names the account by its id only.
-/
namespace WiseacctSso
open ReadCommitted OAuthIdentityStore

variable {settings : AccountSettings} {calls : ℕ → AccountCall} {db₀ : Db store}

/-- The account is still pending and its email is not verified. -/
def User.unproven (u : User) : Bool := u.status = .pendingEmailVerification && !u.emailVerified

/-- The user's row, or a row that a foreign key ties to it, has gone. -/
def Removed (id : String) (before after : Db store) : Prop :=
  after.get .user id ≠ before.get .user id ∨ ∃ T ∈ childTables, ∃ κ r,
    before.get T κ = some r ∧ T.owner r = some id ∧ after.get T κ = none

/-- Only accounts that are pending and unverified in their last committed version go. -/
def RemovesUnprovenOnly (before after : Db store) : Prop :=
  ∀ id u, before.get .user id = some u → Removed id before after → u.unproven = true

/-- A SELECT of process `t` by verified email has shown the account as `shown` says. -/
def hasReadUser (shown : Db store → User → Bool) (t : ℕ) (id : String) : Log store → Bool
  | .initial _ _ => false
  | .add log (.selected t' query) =>
      (match query with
        | .verifiedEmailUser email => t' = t && (log.db.get .user id).any fun u =>
            u.email = some email && shown log.db u
        | _ => false) || hasReadUser shown t id log
  | .add log (.called _ _ _) => hasReadUser shown t id log
  | .add log (.committed _ _ _ _) => hasReadUser shown t id log

/-- It has shown the account pending and unverified. -/
abbrev hasReadUnproven : ℕ → String → Log store → Bool := hasReadUser fun _ u => u.unproven

/-- Since then a commit has reported what `reported` describes. -/
def followed (reported : Report → Bool) (t : ℕ) (id : String) : Log store → Bool
  | .initial _ _ => false
  | .add log (.selected _ _) => followed reported t id log
  | .add log (.called _ _ _) => followed reported t id log
  | .add log (.committed _ report _ _) =>
      (hasReadUnproven t id log && reported report) || followed reported t id log

/-- The report of a sign-in. -/
def Report.resolves : Report → Bool
  | oauthResolved _ => true
  | _ => false

/-- The report of a confirmation of the user, of a sign-in of it, or of a change of its status
to one that is not pending. -/
def Report.settles (id : String) : Report → Bool
  | emailConfirmed (some userId) => userId = id
  | oauthResolved userId => userId = id
  | userStatusSet userId status => userId = id && status ≠ .pendingEmailVerification
  | _ => false

/-- No user that process `t` has found pending and unverified has been confirmed or signed in,
or has been given another status, in a commit since. -/
def NotOvertaken (prior : Log store) (t : ℕ) : Prop :=
  ∀ id u, prior.db.get .user id = some u → followed (Report.settles id) t id prior = false

instance (prior : Log store) (t : ℕ) : Decidable (NotOvertaken prior t) :=
  decidable_of_iff (∀ x ∈ (prior.db .user).entries,
      followed (Report.settles x.1) t x.1 prior = false) <|
    (forall_get_iff (Γ := store) (T := .user) (P := fun id (_ : User) =>
      followed (Report.settles id) t id prior = false)).symm

lemma hasReadUser_of_precedes {shown : Db store → User → Bool} {readLog log : Log store} {t : ℕ}
    {id email : String} {u : User}
    (h : (readLog.add (.selected t (.verifiedEmailUser email))).Precedes log)
    (hget : readLog.db.get .user id = some u) (hemail : u.email = some email)
    (hshown : shown readLog.db u = true) : hasReadUser shown t id log = true := by
  induction h with
  | refl => simp [hasReadUser, hget, hemail, hshown]
  | @add log event _ _ ih =>
    cases event <;> simp [hasReadUser, ih]

/-- What the SELECT makes true, and every event but the commits with such a report keeps, is
still true. -/
lemma kept_since_read {I : Log store → Prop} {reported : Report → Bool} {t : ℕ} {id : String}
    (hread : ∀ {log : Log store} {email : String} {u : User}, log.db.get .user id = some u →
      u.email = some email → u.unproven = true →
      I (log.add (.selected t (.verifiedEmailUser email))))
    (hselected : ∀ {log t' q}, I log → I (log.add (.selected t' q)))
    (hcalled : ∀ {log t' report ext}, I log → I (log.add (.called t' report ext)))
    (hcommitted : ∀ {log t' report held after},
      AccountCommit settings calls log t' held after report → reported report = false → I log →
      I (log.add (.committed t' report held after)))
    {log : Log store} (hv : AccountLog settings calls db₀ log)
    (hunproven : hasReadUnproven t id log = true) (hfollowed : followed reported t id log = false) :
    I log := by
  induction log with
  | initial db ext => simp [hasReadUser] at hunproven
  | add log event ih =>
    cases event with
    | called t' report ext => exact hcalled (ih hv.of_add hunproven hfollowed)
    | selected t' q =>
      rcases Bool.or_eq_true_iff.mp hunproven with hnow | hbefore
      · cases q with
        | verifiedEmailUser email =>
          rw [Bool.and_eq_true, Option.any_eq_true, decide_eq_true_eq] at hnow
          obtain ⟨rfl, u, hu, hshown⟩ := hnow
          rw [Bool.and_eq_true, decide_eq_true_eq] at hshown
          exact hread hu hshown.1 hshown.2
        | _ => simp at hnow
      · exact hselected (ih hv.of_add hbefore hfollowed)
    | committed t' report held after =>
      have hunproven' : hasReadUnproven t id log = true := hunproven
      simp only [followed, hunproven', Bool.true_and, Bool.or_eq_false_iff] at hfollowed
      exact hcommitted hv.2.1 hfollowed.1 (ih hv.of_add hunproven' hfollowed.2)

/-- Only a confirmation, a sign-in or a change of status makes of an unproven user, or of none,
another one. -/
lemma AccountCommit.unproven_kept {log : Log store} {t : ℕ} {held : Lock store → Bool}
    {after : Db store} {report : Report}
    (h : AccountCommit settings calls log t held after report) {id : String}
    (hsettles : report.settles id = false)
    (hbefore : ∀ u, log.db.get .user id = some u → u.unproven = true) :
    ∀ u, after.get .user id = some u → u.unproven = true := by
  intro u hu
  cases h.userStep hu with
  | same found => exact hbefore u found
  | registered pending unverified _ => simp [User.unproven, pending, unverified]
  | activated _ report => simp [report, Report.settles] at hsettles
  | signedIn _ report => simp [report, Report.settles] at hsettles
  | statusSet found row report =>
    have hunproven := hbefore _ found
    subst row
    rw [report] at hsettles
    simp only [Report.settles, decide_true, Bool.true_and, decide_not, Bool.not_eq_false',
      decide_eq_true_eq] at hsettles
    simp only [User.unproven, Bool.and_eq_true] at hunproven
    simp [User.unproven, hsettles, hunproven.2]

/-- What a sign-in has found pending and unverified is still so, if it has not been overtaken. -/
lemma NotOvertaken.unproven {log : Log store} {t : ℕ} {id : String} {u : User}
    (h : NotOvertaken log t) (hv : AccountLog settings calls db₀ log)
    (hread : hasReadUnproven t id log = true) (hu : log.db.get .user id = some u) :
    u.unproven = true := by
  refine kept_since_read (I := fun log => ∀ u, log.db.get .user id = some u → u.unproven = true)
    (fun hget _ hunproven u' hu' => ?_) (fun hI => hI) (fun hI => hI)
    (fun hcommit => hcommit.unproven_kept) hv hread (h id u hu) u hu
  obtain rfl := Option.some.inj (hget.symm.trans hu')
  exact hunproven

/-- A commit that takes no row away removes no account. -/
lemma not_removed_of_keeps {before after : Db store} {id : String} {u : User}
    (h : ∀ (T : Table) κ (r : T.Row), before.get T κ = some r → after.get T κ = some r)
    (hu : before.get .user id = some u) : ¬ Removed id before after := by
  rintro (hrow | ⟨T, -, κ, r, hr, -, hnone⟩)
  · exact hrow ((h .user id u hu).trans hu.symm)
  · exact absurd ((h T κ r hr).symm.trans hnone) (by simp)

/-- A replacement removes the account it has found and no other. -/
lemma eq_of_removed {oldId userId socialId id : String} {u u' : User} {user : User}
    {social : SocialAccount} {role : Role} {whole : List Table}
    {before removed created linked after : Db store}
    (hremoval : UserRemoved oldId u whole before removed)
    (hcreation : Creation userId socialId user social role removed created linked after)
    (hu : before.get .user id = some u') (h : Removed id before after) : id = oldId := by
  by_contra hne
  rcases h with hrow | ⟨T, hT, κ, r, hr, howner, hnone⟩
  · have hremoved : removed.get .user id = some u' := by rw [hremoval.lookup, if_neg hne, hu]
    exact hrow ((hcreation.keeps hremoved).trans hu.symm)
  · have howner' : T.owner r ≠ some oldId := by
      rw [howner]
      exact fun he => hne (Option.some.inj he)
    have hkept := hcreation.keeps (hremoval.keeps hT hr howner')
    exact absurd (hkept.symm.trans hnone) (by simp)

lemma AccountCommit.removesUnprovenOnly {log : Log store} {t : ℕ} {held : Lock store → Bool}
    {after : Db store} {userId : String}
    (h : AccountCommit settings calls log t held after (.oauthResolved userId))
    (hv : AccountLog settings calls db₀ log) (hquiet : NotOvertaken log t) :
    RemovesUnprovenOnly log.db after := by
  intro id u hu hremoved
  cases h with
  | unchanged effect _ =>
    subst effect
    exact absurd hremoved (not_removed_of_keeps (fun _ _ _ hr => hr) hu)
  | linked _ effect =>
    exact absurd hremoved (not_removed_of_keeps (fun _ _ _ hr => effect.keepsAll hr) hu)
  | created _ _ _ _ effect =>
    exact absurd hremoved (not_removed_of_keeps (fun _ _ _ hr => effect.keeps hr) hu)
  | replaced _ read found pending unverified _ _ _ _ removal effect =>
    obtain rfl := eq_of_removed removal effect hu hremoved
    have hunproven : hasReadUnproven t id log = true :=
      hasReadUser_of_precedes read found.user found.email
        (by simp [User.unproven, pending, unverified])
    exact hquiet.unproven hv hunproven hu

/-! ## Runs -/

/-- Sign-ins remove unproven accounts only, in every run in which no confirmation, sign-in or
change of status of the account commits between the SELECT of a sign-in that found it unproven
and the commit of that sign-in. -/
theorem signIns_remove_unproven_only {acts : List (Act store)} {sys : System store}
    (hunique : UniqueEntries db₀) (hrun : accountRun settings calls db₀ acts = some sys)
    (hquiet : sys.shared.log.Commits fun prior t (report : Report) _ =>
      report.resolves = true → NotOvertaken prior t) :
    sys.shared.log.Commits fun prior _ (report : Report) after =>
      report.resolves = true → RemovesUnprovenOnly prior.db after := by
  refine Log.Commits.imp ?_ (accountLog_of_run hunique hrun) hquiet
  intro log t report held after hv hcommit hcond hresolves
  cases report with
  | oauthResolved userId => exact hcommit.removesUnprovenOnly hv (hcond hresolves)
  | _ => simp [Report.resolves] at hresolves

/-- A sign-in with the verified email of the pending account, and its confirmation. -/
def signInAndConfirmation : ℕ → AccountCall
  | 0 => .oauthCallback "temis" (.google "g1" (some "bob@example.com") (some true) none none)
      ⟨"ann", "s1", ⟨"x0", "x1", "x2", "x3", "x4"⟩⟩
  | _ => .confirmEmailVerification "verify" 20 ⟨⟨"y0", "y1", "y2", "y3", "y4"⟩, "c2"⟩

/-- The sign-in has the account to itself. -/
def signInAloneActs : List (Act store) :=
  [.call 0] ++ steps 0 3 ++ [.step 0 ["bob"], .step 0 [], .step 0 ["c1"], .step 0 []] ++
    steps 0 3 ++ [.step 0 ["v1"]] ++ steps 0 14

theorem signInAlone_removes_unproven :
    ∃ sys, accountRun plainAccountSettings signInAndConfirmation pendingAccount signInAloneActs =
        some sys ∧
      sys.shared.log.reports 0 = [.oauthResolved "ann"] ∧
      sys.shared.db.get .user "bob" = none ∧
      sys.shared.log.Commits fun prior _ (report : Report) after =>
        report.resolves = true → RemovesUnprovenOnly prior.db after := by
  have hsome : (accountRun plainAccountSettings signInAndConfirmation pendingAccount
      signInAloneActs).any (fun sys => sys.shared.log.reports 0 = [.oauthResolved "ann"] ∧
        sys.shared.db.get .user "bob" = none ∧
        sys.shared.log.Commits fun prior t (report : Report) _ =>
          report.resolves = true → NotOvertaken prior t) = true := by decide
  obtain ⟨sys, hrun, hsys⟩ := (Option.any_eq_true _ _).mp hsome
  obtain ⟨hreports, hgone, hquiet⟩ := of_decide_eq_true hsys
  exact ⟨sys, hrun, hreports, hgone, signIns_remove_unproven_only (by decide) hrun hquiet⟩

/-- The account is confirmed between the SELECT and the DELETE of the sign-in. -/
def signInOvertakenActs : List (Act store) :=
  [.call 0, .call 1] ++ steps 0 3 ++
    steps 1 4 ++ [.step 1 ["v1"]] ++ steps 1 2 ++ [.step 1 ["bob"]] ++ steps 1 8 ++
    [.step 0 ["bob"], .step 0 [], .step 0 ["c1"], .step 0 []] ++ steps 0 3 ++
    [.step 0 ["v1"], .step 0 [], .step 0 [], .step 0 ["y4"]] ++ steps 0 12

/-- The confirmed account, ACTIVE and verified, is deleted with its password. -/
theorem signIn_deletes_confirmed_account :
    ∃ sys, accountRun plainAccountSettings signInAndConfirmation pendingAccount
        signInOvertakenActs = some sys ∧
      sys.shared.log.reports 1 = [.emailConfirmed (some "bob")] ∧
      sys.shared.log.reports 0 = [.oauthResolved "ann"] ∧
      sys.shared.db.get .user "bob" = none ∧
      sys.shared.db.get .passwordCredential "c1" = none ∧
      ¬ sys.shared.log.Commits fun prior _ (report : Report) after =>
        report.resolves = true → RemovesUnprovenOnly prior.db after := by
  have hsome : (accountRun plainAccountSettings signInAndConfirmation pendingAccount
      signInOvertakenActs).any (fun sys =>
        sys.shared.log.reports 1 = [.emailConfirmed (some "bob")] ∧
        sys.shared.log.reports 0 = [.oauthResolved "ann"] ∧
        sys.shared.db.get .user "bob" = none ∧
        sys.shared.db.get .passwordCredential "c1" = none ∧
        ¬ sys.shared.log.Commits fun (prior : Log store) _ (report : Report) after =>
          report.resolves = true → ∀ x ∈ (prior.db Table.user).entries,
            after.get Table.user x.1 = none → x.2.unproven = true) = true := by decide
  obtain ⟨sys, hrun, hsys⟩ := (Option.any_eq_true _ _).mp hsome
  obtain ⟨hconfirmed, hresolved, hgone, hpassword, hnot⟩ := of_decide_eq_true hsys
  refine ⟨sys, hrun, hconfirmed, hresolved, hgone, hpassword, fun hclaim => hnot ?_⟩
  refine Log.Commits.imp ?_ (accountLog_of_run (by decide) hrun) hclaim
  intro log t report held after _ _ honly hresolves x hx hnone
  have hget : log.db.get .user x.1 = some x.2 := AList.mem_lookup_iff.mpr hx
  refine honly hresolves x.1 x.2 hget (.inl ?_)
  simp [hnone, hget]

end WiseacctSso
