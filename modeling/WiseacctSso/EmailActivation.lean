import WiseacctSso.AccountSteps
import WiseacctSso.PendingReplacement

/-!
# Email activation

A confirmation marks its token used before it activates the user, and a confirmation that
then finds a conflict commits the token alone. A sign-in that replaces a pending account
under the same id is the one other way to an ACTIVE status.
-/
namespace WiseacctSso
open ReadCommitted EmailVerificationStore

variable {settings : AccountSettings} {calls : ℕ → AccountCall} {db₀ : Db store}

/-! ## Rejected confirmations -/

/-- The commit marks the presented token used and does nothing else: its user had been read
pending, and the activation has met a conflict since. -/
def BurnsToken (py : PythonText) (tokenHash : String) (now : Timestamp) (prior : Log store)
    (after : Db store) : Prop :=
  ∃ (tokenLog userLog : Log store) (tokenId userId : String)
    (record token : EmailVerificationToken) (u₀ : User) (used : Db store),
    tokenLog.Precedes userLog ∧
    tokenLog.db.get .emailVerificationToken tokenId = some record ∧
    record.tokenHash = tokenHash ∧ userLog.Precedes prior ∧
    userLog.db.get .user userId = some u₀ ∧ u₀.status = .pendingEmailVerification ∧
    ActivationConflict py u₀ userId userLog prior ∧
    TokenUsed tokenId userId now token prior.db used ∧ SameRows used after

lemma AccountCommit.burnsToken {log : Log store} {t : ℕ} {held : Lock store → Bool}
    {after : Db store} {tokenHash : String} {now : Timestamp} {ids : ConfirmIds}
    (h : AccountCommit settings calls log t held after (.emailConfirmed none))
    (hcall : calls t = .confirmEmailVerification tokenHash now ids) :
    SameRows log.db after ∨ BurnsToken settings.py tokenHash now log after := by
  cases h with
  | unchanged _ report_eq => simp at report_eq
  | confirmRefused _ effect => exact .inl effect
  | confirmConflicted call tokenRead tokenFound tokenHash_eq read found pending conflict effect
      same =>
    obtain ⟨rfl, rfl, rfl⟩ := AccountCall.confirmEmailVerification.inj (hcall.symm.trans call)
    exact .inr ⟨_, _, _, _, _, _, _, _, tokenRead, tokenFound, tokenHash_eq, read, found,
      pending, conflict, effect, same⟩

/-- The account is pending, and the id that is reserved for its email is another user's. -/
def reservedForAnother : Db store := view
  [.put .user "s1" ⟨some "other@example.com", none, none, .active, true⟩,
    .put .subjectReservation "sr1" ⟨"bob@example.com", "s1"⟩] pendingAccount

def oneConfirmation (_ : ℕ) : AccountCall :=
  .confirmEmailVerification "verify" 20 ⟨⟨"y0", "y1", "y2", "y3", "y4"⟩, "c2"⟩

def rejectedActs : List (Act store) :=
  [.call 0] ++ steps 0 4 ++ [.step 0 ["v1"]] ++ steps 0 4

/-- The commit marks the token used. -/
def MarksUsed (before after : Db store) (κ : String) : Prop :=
  ∃ token token', before.get .emailVerificationToken κ = some token ∧ token.usedAt = none ∧
    after.get .emailVerificationToken κ = some token' ∧ token'.usedAt.isSome = true

/-- A pending user, and it alone, becomes ACTIVE and verified, possibly under a new id. -/
structure GuardedActivation (userId activatedId : String) (now : Timestamp)
    (before after : Db store) : Prop where
  pending : ∃ u, before.get .user userId = some u ∧ u.status = .pendingEmailVerification ∧
    after.get .user activatedId = some { u with status := .active, emailVerified := true }
  renamed : activatedId ≠ userId → before.get .user activatedId = none ∧
    after.get .user userId = none
  others : ∀ id, id ≠ userId → id ≠ activatedId → after.get .user id = before.get .user id
  /-- Exactly one live token of the user is marked. -/
  token : ∃ κ token, before.get .emailVerificationToken κ = some token ∧ token.userId = userId ∧
    now < token.expiresAt ∧ MarksUsed before after κ ∧ ∀ κ', MarksUsed before after κ' → κ' = κ
  role : ∃ roleId κ, after.get .role roleId = some DEFAULT_ROLE.toRole ∧
    after.get .userRole κ = some ⟨activatedId, roleId⟩

/-- The report of a status change of the user. -/
def Report.setsStatus (id : String) : Report → Bool
  | userStatusSet userId _ => userId = id
  | _ => false

/-- What a commit of process `t` may do to the statuses of the users. -/
def StatusesGuarded (calls : ℕ → AccountCall) (prior : Log store) (t : ℕ) (after : Db store) :
    Prop :=
  match calls t with
  | .setUserStatus _ target _ _ => ∀ id, id ≠ target → after.get .user id = prior.db.get .user id
  | .confirmEmailVerification _ now _ => (∀ id, after.get .user id = prior.db.get .user id) ∨
      ∃ userId activatedId, GuardedActivation userId activatedId now prior.db after
  | .oauthCallback _ _ _ => (∀ κ, ¬ MarksUsed prior.db after κ) ∧
      ∀ id u u', prior.db.get .user id = some u → after.get .user id = some u' →
        u'.status ≠ u.status → followed (Report.setsStatus id) t id prior = false →
          u.status = .pendingEmailVerification ∧ u'.status = .active ∧
            hasReadUnproven t id prior = true
  | _ => ∀ id u, prior.db.get .user id = some u → after.get .user id = some u

lemma Activation.guarded {tokenId userId activatedId : String} {usedAt : Timestamp}
    {token : EmailVerificationToken} {u : User} {whole : List Table}
    {before used activated moved after : Db store}
    (h : Activation tokenId userId activatedId usedAt DEFAULT_ROLE.toRole token u whole before used
      activated moved after) : GuardedActivation userId activatedId usedAt before after := by
  have huser : ∀ id, after.get .user id = activated.get .user id := fun id => by
    rw [Db.get, h.role.other _ (by simp) (by simp), h.children.other _ (by simp [childTables]),
      Db.get]
  have hused : ∀ id, used.get .user id = before.get .user id := fun id =>
    h.token.get_other (by simp) id
  have hmoved : ∀ κ, after.get .emailVerificationToken κ =
      moved.get .emailVerificationToken κ := fun κ => by
    rw [Db.get, h.role.other _ (by simp) (by simp), Db.get]
  have htokens : ∀ κ, activated.get .emailVerificationToken κ =
      used.get .emailVerificationToken κ := fun κ => by
    rw [Db.get, h.user.other _ (by simp), Db.get]
  -- The cascade may move a token to the new id but leaves its mark alone.
  have hmark : ∀ κ, (after.get .emailVerificationToken κ).map (·.usedAt) =
      (used.get .emailVerificationToken κ).map (·.usedAt) := by
    intro κ
    rw [hmoved, ← htokens]
    rcases h.children.child .emailVerificationToken (by simp [childTables]) κ with
      hsame | ⟨r, hr, -, hset⟩
    · rw [hsame]
    · rw [hr, hset]
      rfl
  refine ⟨⟨u, ?_, h.user.pending, ?_⟩, fun hne => ⟨?_, ?_⟩, fun id hid hid' => ?_,
    ⟨tokenId, token, h.token.found, h.token.owner, h.token.unexpired, ?_, ?_⟩, h.role.granted⟩
  · rw [← hused]
    exact h.user.found
  · rw [huser, h.user.lookup, if_pos rfl]
    rfl
  · rw [← hused]
    exact h.user.fresh hne
  · rw [huser, h.user.lookup, if_neg hne.symm, if_pos rfl]
  · rw [huser, h.user.lookup, if_neg hid', if_neg hid, hused]
  · have hset := hmark tokenId
    rw [h.token.lookup, if_pos rfl] at hset
    obtain ⟨token', htoken', hat⟩ := Option.map_eq_some_iff.mp hset
    exact ⟨token, token', h.token.found, h.token.unused, htoken', by rw [hat]; rfl⟩
  · rintro κ ⟨token₀, token', hbefore, hunused, hafter, hset⟩
    by_contra hne
    have hkept := hmark κ
    rw [h.token.lookup, if_neg hne, hbefore, hafter] at hkept
    rw [show token'.usedAt = none by simpa [hunused] using hkept] at hset
    exact absurd hset (by simp)

/-- A callback marks no token. -/
lemma AccountCommit.not_marksUsed {log : Log store} {t : ℕ} {held : Lock store → Bool}
    {after : Db store} {report : Report}
    (h : AccountCommit settings calls log t held after report)
    (hcallback : ∃ clientId rawUser ids, calls t = .oauthCallback clientId rawUser ids)
    (κ : String) : ¬ MarksUsed log.db after κ := by
  obtain ⟨clientId, rawUser, ids, hcall⟩ := hcallback
  rintro ⟨token, token', hfound, hunused, hafter, hset⟩
  cases h.verificationTokenStep hafter with
  | same found =>
    obtain rfl := Option.some.inj (hfound.symm.trans found)
    simp [hunused] at hset
  | renamed _ _ report_eq => exact (report_eq ▸ h).not_callback hcall
  | used _ _ _ _ report_eq => exact (report_eq ▸ h).not_callback hcall
  | created absent _ _ => exact absurd (absent.symm.trans hfound) (by simp)

/-- What is created keeps the users that were there. -/
lemma statusesGuarded_of_keeps {prior : Log store} {t : ℕ} {after : Db store}
    (hcall : (∃ input draws, calls t = .register input draws) ∨
      (∃ email handoff draws, calls t = .requestEmailVerification email handoff draws) ∨
      ∃ clientId rawUser ids, calls t = .oauthCallback clientId rawUser ids)
    (hmarks : (∃ clientId rawUser ids, calls t = .oauthCallback clientId rawUser ids) →
      ∀ κ, ¬ MarksUsed prior.db after κ)
    (h : ∀ id (u : User), prior.db.get .user id = some u → after.get .user id = some u) :
    StatusesGuarded calls prior t after := by
  rcases hcall with ⟨input, draws, hcall⟩ | ⟨email, handoff, draws, hcall⟩ |
    ⟨clientId, rawUser, ids, hcall⟩ <;> simp only [StatusesGuarded, hcall]
  · exact h
  · exact h
  · refine ⟨hmarks ⟨_, _, _, hcall⟩, fun id u u' hu hu' hne => ?_⟩
    obtain rfl := Option.some.inj ((h id u hu).symm.trans hu')
    exact absurd rfl hne

lemma statusesGuarded_of_same {prior : Log store} {t : ℕ} {after : Db store}
    (hmarks : (∃ clientId rawUser ids, calls t = .oauthCallback clientId rawUser ids) →
      ∀ κ, ¬ MarksUsed prior.db after κ)
    (h : ∀ id, after.get .user id = prior.db.get .user id) :
    StatusesGuarded calls prior t after := by
  unfold StatusesGuarded
  split
  · exact fun id _ => h id
  · exact .inl h
  · next hcall =>
    refine ⟨hmarks ⟨_, _, _, hcall⟩, fun id u u' hu hu' hne => ?_⟩
    obtain rfl := Option.some.inj (hu.symm.trans ((h id).symm.trans hu'))
    exact absurd rfl hne
  · exact fun id u hu => (h id).trans hu

/-- What a callback has read pending is pending or ACTIVE as long as nobody sets its status. -/
lemma pending_or_active {log : Log store} {t : ℕ} {id : String} {u : User}
    (hv : AccountLog settings calls db₀ log) (hread : hasReadUnproven t id log = true)
    (hfollowed : followed (Report.setsStatus id) t id log = false)
    (hu : log.db.get .user id = some u) :
    u.status = .pendingEmailVerification ∨ u.status = .active := by
  refine kept_since_read (I := fun log => ∀ u, log.db.get .user id = some u →
      u.status = .pendingEmailVerification ∨ u.status = .active)
    (fun hget _ hunproven u' hu' => ?_) (fun hI => hI) (fun hI => hI)
    (fun hcommit hsets hI u' hu' => ?_) hv hread hfollowed u hu
  · obtain rfl := Option.some.inj (hget.symm.trans hu')
    simp only [User.unproven, Bool.and_eq_true, decide_eq_true_eq] at hunproven
    exact .inl hunproven.1
  · cases hcommit.userStep hu' with
    | same found => exact hI u' found
    | registered pending _ _ => exact .inl pending
    | activated active _ => exact .inr active
    | signedIn active _ => exact .inr active
    | statusSet _ _ report => simp [report, Report.setsStatus] at hsets

lemma AccountCommit.statusesGuarded {log : Log store} {t : ℕ} {held : Lock store → Bool}
    {after : Db store} {report : Report} (hv : AccountLog settings calls db₀ log)
    (h : AccountCommit settings calls log t held after report) :
    StatusesGuarded calls log t after := by
  have hmarks := h.not_marksUsed
  cases h with
  | unchanged effect _ => exact statusesGuarded_of_same hmarks fun _ => by rw [effect]
  | pendingUpserted _ effect =>
    exact statusesGuarded_of_same hmarks fun _ => by rw [Db.get, effect.other _ (by simp), Db.get]
  | registered call _ user credential =>
    exact statusesGuarded_of_keeps (.inl ⟨_, _, call⟩) hmarks
      fun _ _ hu => credential.keepsAll (user.keepsAll hu)
  | verificationTokenCreated _ effect _ _ =>
    exact statusesGuarded_of_same hmarks (effect.get_other (by simp))
  | confirmRefused _ effect => exact statusesGuarded_of_same hmarks (effect .user)
  | confirmConflicted _ _ _ _ _ _ _ _ effect same =>
    exact statusesGuarded_of_same hmarks fun id =>
      (same .user id).trans (effect.get_other (by simp) id)
  | activated call _ _ _ _ _ _ _ effect =>
    simp only [StatusesGuarded, call]
    exact .inr ⟨_, _, effect.guarded⟩
  | attached _ _ _ _ _ _ _ _ _ _ effect =>
    refine statusesGuarded_of_same hmarks fun id => ?_
    rw [effect.pending.get_other (by simp), effect.credential.get_other (by simp),
      effect.token.get_other (by simp)]
  | linked _ effect => exact statusesGuarded_of_same hmarks (effect.get_other (by simp))
  | created callback _ _ _ effect =>
    obtain ⟨_, _, _, _, call, -⟩ := callback
    exact statusesGuarded_of_keeps (.inr (.inr ⟨_, _, _, call⟩)) hmarks
      fun _ _ hu => effect.keeps hu
  | @replaced profile _ _ oldId userId _ _ _ _ _ _ _ _ _ callback read found pending unverified _ _
      _ _ removal effect =>
    obtain ⟨_, _, _, _, call, -⟩ := callback
    simp only [StatusesGuarded, call]
    refine ⟨hmarks ⟨_, _, _, call⟩, fun id u u' hu hu' hne hfollowed => ?_⟩
    -- A user that is there before and after is an old one, or the new one has the old id.
    by_cases hid : id = oldId
    · subst hid
      have hread : hasReadUnproven t id log = true :=
        hasReadUser_of_precedes read found.user found.email
          (by simp [User.unproven, pending, unverified])
      have hactive : u'.status = .active := by
        cases effect.userStep rfl hu' with
        | same found' =>
          rw [removal.lookup, if_pos rfl] at found'
          simp at found'
        | signedIn active _ => exact active
        | registered _ _ report => simp at report
        | activated _ report => simp at report
        | statusSet _ _ report => simp at report
      rw [hactive] at hne
      exact ⟨(pending_or_active hv hread hfollowed hu).resolve_right (Ne.symm hne), hactive, hread⟩
    · have hremoved := removal.lookup id
      rw [if_neg hid, hu] at hremoved
      obtain rfl := Option.some.inj ((effect.keeps hremoved).symm.trans hu')
      exact absurd rfl hne
  | userStatusSet call effect =>
    simp only [StatusesGuarded, call]
    intro id hid
    rcases effect.user id with hsame | ⟨rfl, -⟩
    · exact hsame
    · exact absurd rfl hid

/-! ## Marks -/

/-- A token that has been marked keeps its mark as long as it is there. -/
lemma marked_of_precedes {log log' : Log store} (h : log.Precedes log')
    (hv : AccountLog settings calls db₀ log') {κ : String} {token : EmailVerificationToken}
    (hfound : log.db.get .emailVerificationToken κ = some token)
    (hmarked : token.usedAt.isSome = true) :
    (∃ token', log'.db.get .emailVerificationToken κ = some token' ∧
      token'.usedAt = token.usedAt) ∨
    ∃ mid, log.Precedes mid ∧ mid.Precedes log' ∧
      mid.db.get .emailVerificationToken κ = none := by
  induction h with
  | refl => exact .inl ⟨token, hfound, rfl⟩
  | @add log' event hle _ ih =>
    rcases ih hv.of_add with ⟨token₁, hfound₁, hat₁⟩ | ⟨mid, hmid, hmid', hnone⟩
    swap
    · exact .inr ⟨mid, hmid, hmid'.add trivial, hnone⟩
    cases event with
    | selected t q => exact .inl ⟨token₁, hfound₁, hat₁⟩
    | called t report ext => exact .inl ⟨token₁, hfound₁, hat₁⟩
    | committed t report held after =>
      rcases htoken : after.get .emailVerificationToken κ with _ | token₂
      · exact .inr ⟨_, hle.add trivial, .refl, htoken⟩
      refine .inl ⟨token₂, htoken, ?_⟩
      cases hv.2.1.verificationTokenStep htoken with
      | same found =>
        obtain rfl := Option.some.inj (hfound₁.symm.trans found)
        exact hat₁
      | renamed found row _ =>
        obtain rfl := Option.some.inj (hfound₁.symm.trans found)
        rw [← row]
        exact hat₁
      | used found unused _ _ _ =>
        obtain rfl := Option.some.inj (hfound₁.symm.trans found)
        rw [← hat₁, unused] at hmarked
        simp at hmarked
      | created absent _ _ => exact absurd (absent.symm.trans hfound₁) (by simp)

/-- Between two marks of one token the token has been gone. -/
def MarksOnce (prior : Log store) (after : Db store) : Prop :=
  ∀ κ, MarksUsed prior.db after κ → ∀ (earlier : Log store) t report held after',
    (earlier.add (.committed t report held after')).Precedes prior →
    MarksUsed earlier.db after' κ →
      ∃ mid, (earlier.add (.committed t report held after')).Precedes mid ∧ mid.Precedes prior ∧
        mid.db.get .emailVerificationToken κ = none

lemma marksOnce {prior : Log store} {after : Db store}
    (hv : AccountLog settings calls db₀ prior) : MarksOnce prior after := by
  rintro κ ⟨token, -, hfound, hunused, -⟩ earlier t report held after' hle
    ⟨-, marked, -, -, hmarked, hset⟩
  rcases marked_of_precedes hle hv hmarked hset with ⟨token', hfound', hat⟩ | hgone
  · obtain rfl := Option.some.inj (hfound.symm.trans hfound')
    rw [← hat, hunused] at hset
    simp at hset
  · exact hgone

/-- In every run, a confirmation that changes a user activates a pending one under a live
token of its own and gives it the default role; a token is marked once; and apart from the
administration only a sign-in that has read the account unproven changes a status. -/
theorem activations_guarded {acts : List (Act store)} {sys : System store}
    (hunique : UniqueEntries db₀) (hrun : accountRun settings calls db₀ acts = some sys) :
    sys.shared.log.Commits fun prior t _ after =>
      StatusesGuarded calls prior t after ∧ MarksOnce prior after := by
  refine (accountLog_of_run hunique hrun).commits ?_
  intro prior t report held after hv hcommit
  exact ⟨hcommit.statusesGuarded hv, marksOnce hv⟩

theorem confirmation_activates :
    ∃ sys, accountRun plainAccountSettings oneConfirmation pendingAccount
        ([.call 0] ++ steps 0 4 ++ [.step 0 ["v1"]] ++ steps 0 2 ++ [.step 0 ["bob"]] ++
          steps 0 8) = some sys ∧
      sys.shared.log.reports 0 = [.emailConfirmed (some "bob")] ∧
      sys.shared.log.Commits fun prior t _ after =>
        StatusesGuarded oneConfirmation prior t after ∧ MarksOnce prior after := by
  have hsome : (accountRun plainAccountSettings oneConfirmation pendingAccount
      ([.call 0] ++ steps 0 4 ++ [.step 0 ["v1"]] ++ steps 0 2 ++ [.step 0 ["bob"]] ++
        steps 0 8)).any (fun sys => sys.shared.log.reports 0 = [.emailConfirmed (some "bob")]) =
      true := by decide
  obtain ⟨sys, hrun, hsys⟩ := (Option.any_eq_true _ _).mp hsome
  exact ⟨sys, hrun, of_decide_eq_true hsys, activations_guarded (by decide) hrun⟩

/-- Outside the administration, a status changes in commits only that mark a token. -/
def activationMarked (before after : Db store) : Report → Bool
  | .userStatusSet _ _ => true
  | _ => (before .user).entries.all fun x => (after.get .user x.1).all fun u =>
      u.status = x.2.status || (before .emailVerificationToken).entries.any fun y =>
        y.2.usedAt.isNone && (after.get .emailVerificationToken y.1).any (·.usedAt.isSome)

/-- An account that has the id reserved for its email, ACTIVE but not verified. -/
def reservedUnverified : Db store := view
  [.put .user "s1" ⟨some "bob@example.com", none, none, .active, false⟩,
    .put .subjectReservation "sr1" ⟨"bob@example.com", "s1"⟩] oneAdmin

/-- The administration sets the account back to pending; its owner signs in with Google. -/
def demotedAndSignedIn : ℕ → AccountCall
  | 0 => .setUserStatus "alice" "s1" .pendingEmailVerification 5
  | _ => .oauthCallback "temis" (.google "g1" (some "bob@example.com") (some true) none none)
      ⟨"ann", "a1", ⟨"x0", "x1", "x2", "x3", "x4"⟩⟩

/-- The sign-in deletes the pending account and creates an ACTIVE one under the same id. -/
theorem signIn_activates_without_token :
    ∃ sys, accountRun plainAccountSettings demotedAndSignedIn reservedUnverified
        ([.call 0] ++ steps 0 3 ++ [.step 0 ["s1"]] ++ steps 0 2 ++ [.call 1] ++ steps 1 3 ++
          [.step 1 ["s1"]] ++ steps 1 20) = some sys ∧
      sys.shared.log.reports 0 = [.userStatusSet "s1" .pendingEmailVerification] ∧
      sys.shared.log.reports 1 = [.oauthResolved "s1", .signedIn "s1"] ∧
      (sys.shared.db.get .user "s1").map (·.status) = some .active ∧
      ¬ sys.shared.log.Commits fun prior _ report after =>
        activationMarked prior.db after report = true := by
  have hsome : (accountRun plainAccountSettings demotedAndSignedIn reservedUnverified
      ([.call 0] ++ steps 0 3 ++ [.step 0 ["s1"]] ++ steps 0 2 ++ [.call 1] ++ steps 1 3 ++
        [.step 1 ["s1"]] ++ steps 1 20)).any (fun sys =>
        sys.shared.log.reports 0 = [.userStatusSet "s1" .pendingEmailVerification] ∧
        sys.shared.log.reports 1 = [.oauthResolved "s1", .signedIn "s1"] ∧
        (sys.shared.db.get .user "s1").map (·.status) = some .active ∧
        ¬ sys.shared.log.Commits fun prior _ report after =>
          activationMarked prior.db after report = true) = true := by decide
  obtain ⟨sys, hrun, hsys⟩ := (Option.any_eq_true _ _).mp hsome
  exact ⟨sys, hrun, of_decide_eq_true hsys⟩

end WiseacctSso
