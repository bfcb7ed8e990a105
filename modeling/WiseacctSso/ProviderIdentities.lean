import WiseacctSso.PendingReplacement

/-!
# Accounts of provider identities

Callbacks take no lock on what they look up: two of one identity may both find nothing. The
unique index lets one of them in, and the other reads the winner's row.
-/
namespace WiseacctSso
open ReadCommitted

variable {settings : AccountSettings} {calls : ℕ → AccountCall} {db₀ : Db store}

/-- No two accounts of one provider identity. -/
def OneAccountEach (db : Db store) : Prop :=
  ∀ κ κ' (a a' : SocialAccount), db.get .socialAccount κ = some a →
    db.get .socialAccount κ' = some a' → a.provider = a'.provider →
    a.providerUserId = a'.providerUserId → κ = κ'

lemma oneAccountEach_of_unique {db : Db store} (h : UniqueEntries db) : OneAccountEach db := by
  intro κ κ' a a' ha ha' hprovider hid
  refine h .socialAccount κ κ' a a' ha ha' (.providerUserId a.provider a.providerUserId) ?_ ?_
  · exact List.mem_singleton_self _
  · change _ ∈ [Entry.providerUserId a'.provider a'.providerUserId]
    rw [hprovider, hid]
    exact List.mem_singleton_self _

/-- Two rows for the same provider identity. -/
def SameIdentity (a a' : SocialAccount) : Prop :=
  a.provider = a'.provider ∧ a.providerUserId = a'.providerUserId

/-- No two accounts of one provider identity have ever been committed, not even one after the
other. -/
def OneAccountEver (log : Log store) : Prop :=
  ∀ earlier later : Log store, earlier.Precedes later → later.Precedes log →
    ∀ κ κ' a a', earlier.db.get .socialAccount κ = some a →
      later.db.get .socialAccount κ' = some a' → SameIdentity a a' → κ = κ'

/-! ## Accounts of replaced users -/

/-- A user has an account with some provider. -/
def hasAccount (db : Db store) (userId : String) : Bool :=
  (db .socialAccount).entries.any fun x => x.2.userId = userId

lemma hasAccount_iff {db : Db store} {userId : String} : hasAccount db userId = true ↔
    ∃ (κ : String) (a : SocialAccount), db.get .socialAccount κ = some a ∧ a.userId = userId := by
  rw [hasAccount, List.any_eq_true]
  constructor
  · rintro ⟨x, hx, howner⟩
    exact ⟨x.1, x.2, AList.mem_lookup_iff.mpr hx, of_decide_eq_true howner⟩
  · rintro ⟨κ, a, ha, howner⟩
    exact ⟨⟨κ, a⟩, AList.mem_lookup_iff.mp ha, decide_eq_true howner⟩

/-- A SELECT of process `t` by verified email has shown the account pending and unverified,
and it had an account with a provider. -/
abbrev hasReadLinked (t : ℕ) (id : String) : Log store → Bool :=
  hasReadUser (fun db u => u.unproven && hasAccount db id) t id

/-- The users that process `t` has found pending and unverified had no provider's account, and
they have not been overtaken. -/
def FoundUnlinked (prior : Log store) (t : ℕ) : Prop :=
  NotOvertaken prior t ∧
    ∀ id u, prior.db.get .user id = some u → hasReadLinked t id prior = false

instance (prior : Log store) (t : ℕ) : Decidable (FoundUnlinked prior t) :=
  have : Decidable (∀ id (u : User), prior.db.get .user id = some u →
      hasReadLinked t id prior = false) :=
    decidable_of_iff _ (forall_get_iff (Γ := store) (T := .user)
      (P := fun id (_ : User) => hasReadLinked t id prior = false)).symm
  inferInstanceAs (Decidable (_ ∧ _))

/-- A user that has not been overtaken has been given no account since. -/
lemma FoundUnlinked.no_account {log : Log store} {t : ℕ} {id : String} {u : User}
    (h : FoundUnlinked log t) (hv : AccountLog settings calls db₀ log)
    (hread : hasReadUnproven t id log = true) (hu : log.db.get .user id = some u) :
    hasAccount log.db id = false := by
  have hfollowed : followed (Report.settles id) t id log = false := h.1 id u hu
  refine (kept_since_read
    (I := fun log => hasReadLinked t id log = true ∨ hasAccount log.db id = false) ?_ ?_
    (fun hI => hI) ?_ hv hread hfollowed).resolve_left (by simp [h.2 id u hu])
  · intro log email u hu hemail hunproven
    rcases haccount : hasAccount log.db id with _ | _
    · exact .inr haccount
    · exact .inl (hasReadUser_of_precedes .refl hu hemail (by simp [hunproven, haccount]))
  · rintro log t' q (hlinked | hnone)
    · exact .inl (Bool.or_eq_true_iff.mpr (.inr hlinked))
    · exact .inr hnone
  · rintro log t' report held after hcommit hsettles (hlinked | hnone)
    · exact .inl hlinked
    · refine .inr (Bool.eq_false_iff.mpr fun haccount => ?_)
      obtain ⟨κ, a, ha, rfl⟩ := hasAccount_iff.mp haccount
      cases hcommit.socialStep ha with
      | same found =>
        rw [hasAccount_iff.mpr ⟨κ, a, found, rfl⟩] at hnone
        exact absurd hnone (by simp)
      | renamed report_eq => simp [report_eq, Report.settles] at hsettles
      | created report_eq => simp [report_eq, Report.settles] at hsettles

/-- An account keeps its identity in every commit but that of a sign-in which replaces its
user. -/
lemma AccountCommit.account_kept {log : Log store} {t : ℕ} {held : Lock store → Bool}
    {after : Db store} {report : Report}
    (h : AccountCommit settings calls log t held after report)
    (hv : AccountLog settings calls db₀ log)
    (hunlinked : report.resolves = true → FoundUnlinked log t) {κ : String} {a : SocialAccount}
    (ha : log.db.get .socialAccount κ = some a) :
    ∃ a', after.get .socialAccount κ = some a' ∧ SameIdentity a a' := by
  have hsame : after.get .socialAccount κ = log.db.get .socialAccount κ →
      ∃ a', after.get .socialAccount κ = some a' ∧ SameIdentity a a' :=
    fun heq => ⟨a, heq.trans ha, rfl, rfl⟩
  cases h with
  | unchanged effect _ => exact hsame (by rw [effect])
  | pendingUpserted _ effect => exact hsame (by rw [Db.get, effect.other _ (by simp), Db.get])
  | registered _ _ user credential =>
    exact hsame (by rw [credential.get_other (by simp), user.get_other (by simp)])
  | verificationTokenCreated _ effect _ _ => exact hsame (effect.get_other (by simp) κ)
  | confirmRefused _ effect => exact hsame (effect _ _)
  | confirmConflicted _ _ _ _ _ _ _ _ effect same =>
    exact hsame ((same _ _).trans (effect.get_other (by simp) κ))
  | activated _ _ _ _ _ _ _ _ effect =>
    rcases effect.child (T := .socialAccount) (by simp [childTables]) (by simp) (by simp) κ with
      heq | ⟨a₀, ha₀, -, hmoved⟩
    · exact hsame heq
    · obtain rfl := Option.some.inj (ha₀.symm.trans ha)
      exact ⟨_, hmoved, rfl, rfl⟩
  | attached _ _ _ _ _ _ _ _ _ _ effect =>
    refine hsame ?_
    rw [effect.pending.get_other (by simp), effect.credential.get_other (by simp),
      effect.token.get_other (by simp)]
  | linked _ effect => exact ⟨a, effect.keepsAll ha, rfl, rfl⟩
  | created _ _ _ _ effect => exact ⟨a, effect.keeps ha, rfl, rfl⟩
  | replaced _ read found pending unverified _ _ _ _ removal effect =>
    rcases removal.child .socialAccount (by simp [childTables]) κ with heq | ⟨-, a', ha', howner⟩
    · exact ⟨a, effect.keeps (heq.trans ha), rfl, rfl⟩
    · -- The deleted user had no account.
      have hread : hasReadUnproven t _ log = true :=
        hasReadUser_of_precedes read found.user found.email
          (by simp [User.unproven, pending, unverified])
      have hnone := (hunlinked rfl).no_account hv hread removal.found
      rw [hasAccount_iff.mpr ⟨κ, a', ha', Option.some.inj howner⟩] at hnone
      exact absurd hnone (by simp)
  | userStatusSet _ effect =>
    exact hsame (by rw [Db.get, effect.other _ (by simp) (by simp), Db.get])

lemma account_kept_along {earlier later : Log store} (hle : earlier.Precedes later)
    (hv : AccountLog settings calls db₀ later)
    (hunlinked : later.Commits fun prior t (report : Report) _ =>
      report.resolves = true → FoundUnlinked prior t) {κ : String} {a : SocialAccount}
    (ha : earlier.db.get .socialAccount κ = some a) :
    ∃ a', later.db.get .socialAccount κ = some a' ∧ SameIdentity a a' := by
  induction hle with
  | refl => exact ⟨a, ha, rfl, rfl⟩
  | @add log event _ _ ih =>
    cases event with
    | selected t q => exact ih hv.of_add hunlinked
    | called t report ext => exact ih hv.of_add hunlinked
    | committed t report held after =>
      obtain ⟨a₁, ha₁, hidentity⟩ := ih hv.of_add hunlinked.1
      obtain ⟨a₂, ha₂, hidentity'⟩ := hv.2.1.account_kept hv.of_add hunlinked.2 ha₁
      exact ⟨a₂, ha₂, hidentity.1.trans hidentity'.1, hidentity.2.trans hidentity'.2⟩

/-- What a callback that returns a user has seen: an account of the identity, of that user,
and the user ACTIVE. -/
def ReturnsOwner (settings : AccountSettings) (calls : ℕ → AccountCall) (prior : Log store)
    (t : ℕ) (report : Report) : Prop :=
  ∀ userId, report = .signedIn userId → ∃ profile defaultRole ids,
    CallbackOf settings calls t profile defaultRole ids ∧ SignedIn t profile userId prior

/-- In every run in which no sign-in has found a pending user with a provider's account, and
none has been overtaken: an identity has had one account at most; and in any case a callback
that returns a user returns the owner of the identity's account, seen ACTIVE, and one that
raises an error has committed nothing. -/
theorem callbacks_share_one_account {acts : List (Act store)} {sys : System store}
    (hunique : UniqueEntries db₀) (hrun : accountRun settings calls db₀ acts = some sys)
    (hunlinked : sys.shared.log.Commits fun prior t (report : Report) _ =>
      report.resolves = true → FoundUnlinked prior t) :
    OneAccountEver sys.shared.log ∧
    (sys.shared.log.Calls fun prior t report _ => ReturnsOwner settings calls prior t report) ∧
    ∀ t clientId rawUser ids e, calls t = .oauthCallback clientId rawUser ids →
      sys.error t = some e → sys.shared.log.Commits fun _ t' _ _ => t' ≠ t := by
  have hv : AccountLog settings calls db₀ sys.shared.log := accountLog_of_run hunique hrun
  refine ⟨?_, hv.calls fun prior t report ext _ hcall => hcall, ?_⟩
  · intro earlier later hle hle' κ κ' a a' ha ha' hidentity
    have hlater := Log.Valid.of_extends hle' hv
    obtain ⟨a₁, ha₁, hkept⟩ := account_kept_along hle hlater (hunlinked.of_precedes hle') ha
    exact oneAccountEach_of_unique hlater.unique κ κ' a₁ a' ha₁ ha'
      (hkept.1.symm.trans hidentity.1) (hkept.2.symm.trans hidentity.2)
  · intro t clientId rawUser ids e hcall herror
    have hnone : sys.shared.log.Commits fun _ t' _ _ => t' = t → False := by
      refine run_commits_of_error account_keeps rfl hunique hrun herror
        (p := fun report => report = .emailConfirmed none) (fun _ hraised => hraised) ?_
      rintro prior report held after _ hcommit rfl
      exact hcommit.not_callback hcall
    exact hnone

/-- Two callbacks of one identity. -/
def twoCallbacks : ℕ → AccountCall
  | 0 => .oauthCallback "temis" (.google "g1" (some "bob@example.com") (some true) none none)
      ⟨"u0", "a0", ⟨"x0", "x1", "x2", "x3", "x4"⟩⟩
  | _ => .oauthCallback "temis" (.google "g1" (some "bob@example.com") (some true) none none)
      ⟨"u1", "a1", ⟨"y0", "y1", "y2", "y3", "y4"⟩⟩

/-- Both callbacks find nothing; the second one loses and returns the first one's user. -/
theorem racingCallbacks_share_account :
    ∃ sys, accountRun plainAccountSettings twoCallbacks (fun _ => ∅)
        ([.call 0, .call 1] ++ steps 0 4 ++ steps 1 4 ++ steps 0 11 ++ steps 1 6) = some sys ∧
      sys.shared.log.reports 0 = [.oauthResolved "u0", .signedIn "u0"] ∧
      sys.shared.log.reports 1 = [.signedIn "u0"] ∧
      OneAccountEver sys.shared.log := by
  have hsome : (accountRun plainAccountSettings twoCallbacks (fun _ => ∅)
      ([.call 0, .call 1] ++ steps 0 4 ++ steps 1 4 ++ steps 0 11 ++ steps 1 6)).any (fun sys =>
        sys.shared.log.reports 0 = [.oauthResolved "u0", .signedIn "u0"] ∧
        sys.shared.log.reports 1 = [.signedIn "u0"] ∧
        sys.shared.log.Commits fun prior t (report : Report) _ =>
          report.resolves = true → FoundUnlinked prior t) = true := by decide
  obtain ⟨sys, hrun, hsys⟩ := (Option.any_eq_true _ _).mp hsome
  obtain ⟨hfirst, hsecond, hunlinked⟩ := of_decide_eq_true hsys
  exact ⟨sys, hrun, hfirst, hsecond, (callbacks_share_one_account (by decide) hrun hunlinked).1⟩

/-- A pending account under the id that is reserved for its email. -/
def pendingReserved : Db store := view
  [.put .user "s1" ⟨some "bob@example.com", none, none, .pendingEmailVerification, false⟩,
    .put .subjectReservation "sr1" ⟨"bob@example.com", "s1"⟩] fun _ => ∅

/-- Both callbacks find the pending account, and each replaces it under the same id. -/
def replacedTwiceActs : List (Act store) :=
  [.call 0, .call 1] ++ steps 1 3 ++ steps 0 3 ++ [.step 0 ["s1"]] ++ steps 0 20 ++
    [.step 1 ["s1"]] ++ steps 1 3 ++ [.step 1 ["a0"]] ++ steps 1 4 ++ [.step 1 ["x4"]] ++ steps 1 13

def bobWithGoogle : SocialAccount := ⟨"google", "g1", some "bob@example.com", "s1"⟩

/-- The second callback deletes the account that the first one has returned and commits
another one for the identity. -/
theorem overtakenCallback_commits_second_account :
    ∃ sys, accountRun plainAccountSettings twoCallbacks pendingReserved replacedTwiceActs =
        some sys ∧
      sys.shared.log.reports 0 = [.oauthResolved "s1", .signedIn "s1"] ∧
      sys.shared.log.reports 1 = [.oauthResolved "s1", .signedIn "s1"] ∧
      ¬ OneAccountEver sys.shared.log := by
  have hsome : (accountRun plainAccountSettings twoCallbacks pendingReserved
      replacedTwiceActs).any (fun sys =>
        sys.shared.log.reports 0 = [.oauthResolved "s1", .signedIn "s1"] ∧
        sys.shared.log.reports 1 = [.oauthResolved "s1", .signedIn "s1"] ∧
        sys.shared.db.get .socialAccount "a1" = some bobWithGoogle ∧
        ¬ sys.shared.log.Commits fun _ _ _ (after : Db store) =>
          after.get .socialAccount "a0" ≠ some bobWithGoogle) = true := by decide
  obtain ⟨sys, hrun, hsys⟩ := (Option.any_eq_true _ _).mp hsome
  obtain ⟨hfirst, hsecond, hlast, hnot⟩ := of_decide_eq_true hsys
  refine ⟨sys, hrun, hfirst, hsecond, fun hclaim => hnot ?_⟩
  refine (accountLog_of_run (by decide) hrun).commits_within ?_ .refl
  intro prior t report held after hle _ _ hget
  have heq := hclaim _ _ hle .refl "a0" "a1" _ _ hget hlast ⟨rfl, rfl⟩
  exact absurd heq (by decide)

end WiseacctSso
