import WiseacctSso.AccountKeeps
import WiseacctSso.AccountSteps

/-!
# Pending passwords and the tokens that attach them

A verification token names its user only. The password it attaches is the pending one that
the confirmation reads, which a later registration of the same email may have replaced.
-/
namespace WiseacctSso
open ReadCommitted

variable {settings : AccountSettings} {calls : ℕ → AccountCall} {db₀ : Db store}

/-- No registration of the user that a pending credential belongs to commits between the
two logs. -/
def NotRegistered (issued log : Log store) (κ : String) : Prop :=
  ∀ (prior : Log store) t userId held after, issued.Precedes prior →
    (prior.add (.committed t (.registered userId) held after)).Precedes log →
    ∀ p, after.get .pendingPasswordCredential κ = some p → p.userId ≠ userId

/-- A confirmation has activated a user under this id between the two logs. -/
def ActivatedAs (issued log : Log store) (userId : String) : Prop :=
  ∃ (prior : Log store) (t : ℕ) (held : Lock store → Bool) (after : Db store),
    issued.Precedes prior ∧
    (prior.add (.committed t (.emailConfirmed (some userId)) held after)).Precedes log

/-- The pending credential was stored at the earlier log already, if under a user that has
been given another id since. -/
def StoredAlready (issued log : Log store) (κ : String) (p : PendingPasswordCredential) : Prop :=
  ∃ p₀, issued.db.get .pendingPasswordCredential κ = some p₀ ∧
    { p₀ with userId := p.userId } = p ∧ (p₀.userId = p.userId ∨ ActivatedAs issued log p.userId)

lemma StoredAlready.add {issued log : Log store} {κ : String} {p : PendingPasswordCredential}
    (h : StoredAlready issued log κ p) (event : Event store) :
    StoredAlready issued (log.add event) κ p := by
  obtain ⟨p₀, hp₀, hrow, howner⟩ := h
  refine ⟨p₀, hp₀, hrow, howner.imp_right ?_⟩
  rintro ⟨prior, t, held, after, hle, hle'⟩
  exact ⟨prior, t, held, after, hle, hle'.add trivial⟩

/-- Without a registration in between, a pending credential has been there all along. -/
lemma storedAlready_of_precedes {issued log : Log store} (h : issued.Precedes log)
    (hv : AccountLog settings calls db₀ log) {κ : String} {p : PendingPasswordCredential}
    (hp : log.db.get .pendingPasswordCredential κ = some p)
    (hnot : NotRegistered issued log κ) : StoredAlready issued log κ p := by
  induction h generalizing p with
  | refl => exact ⟨p, hp, rfl, .inl rfl⟩
  | @add log event hle _ ih =>
    have hearlier : NotRegistered issued log κ := fun prior t userId held after h h' =>
      hnot prior t userId held after h (h'.add trivial)
    cases event with
    | selected t q => exact (ih hv.of_add hp hearlier).add _
    | called t report ext => exact (ih hv.of_add hp hearlier).add _
    | committed t report held after =>
      cases hv.2.1.pendingStep hp with
      | same found => exact (ih hv.of_add found hearlier).add _
      | @renamed p₁ found row hreport =>
        subst hreport
        obtain ⟨p₀, hp₀, hrow, -⟩ := ih hv.of_add found hearlier
        refine ⟨p₀, hp₀, ?_, .inr ⟨log, t, held, after, hle, .refl⟩⟩
        rw [← row, ← hrow]
      | registered hreport =>
        subst hreport
        exact absurd rfl (hnot log t p.userId held after hle .refl p hp)

/-- At the end of this log the token has just been issued, or it has been there from the
start. -/
inductive IssueOf (tokenHash : String) : Log store → Prop
  | initial {db : Db store} {redis : RedisState} {κ : String} {token : EmailVerificationToken}
      (found : db.get .emailVerificationToken κ = some token)
      (hash : token.tokenHash = tokenHash) : IssueOf tokenHash (.initial db redis)
  | requested {prior : Log store} {t : ℕ} {held : Lock store → Bool} {after : Db store} :
      IssueOf tokenHash (prior.add (.committed t (.verificationTokenCreated tokenHash) held after))

/-- A stored token has been issued. -/
lemma exists_issueOf {log : Log store} (hv : AccountLog settings calls db₀ log) {κ : String}
    {token : EmailVerificationToken} (h : log.db.get .emailVerificationToken κ = some token) :
    ∃ issued, issued.Precedes log ∧ IssueOf token.tokenHash issued := by
  induction log generalizing token with
  | initial db redis => exact ⟨_, .refl, .initial h rfl⟩
  | add log event ih =>
    have hadd : ∀ {token₀ : EmailVerificationToken}, token₀.tokenHash = token.tokenHash →
        log.db.get .emailVerificationToken κ = some token₀ →
        ∃ issued, issued.Precedes (log.add event) ∧ IssueOf token.tokenHash issued := by
      intro token₀ hhash hfound
      obtain ⟨issued, hle, hissue⟩ := ih hv.of_add hfound
      exact ⟨issued, hle.add trivial, hhash ▸ hissue⟩
    cases event with
    | selected t q => exact hadd rfl h
    | called t report ext => exact hadd rfl h
    | committed t report held after =>
      cases hv.2.1.verificationTokenStep h with
      | same found => exact hadd rfl found
      | renamed found row _ => exact hadd (by rw [← row]) found
      | used found _ _ row _ => exact hadd (by rw [← row]) found
      | created _ _ hreport =>
        subst hreport
        exact ⟨_, .refl, .requested⟩

/-! ## Runs -/

/-- The confirmation of a token by process `t` attaches the pending credential `p` that it
has read after `pendingLog`. -/
structure AttachesRead (prior : Log store) (t : ℕ) (tokenHash userId : String)
    (c : PasswordCredential) (pendingLog : Log store) (κ : String)
    (p : PendingPasswordCredential) : Prop where
  read : (pendingLog.add (.selected t (.pendingPassword userId))).Precedes prior
  found : pendingLog.db.get .pendingPasswordCredential κ = some p
  owner : p.userId = userId
  attached : c = ⟨userId, p.email, p.passwordHash, 0, none⟩
  /-- The token was issued before. -/
  issue : ∃ issued, issued.Precedes pendingLog ∧ IssueOf tokenHash issued
  /-- Unless the user has been registered again since, the credential was stored then. -/
  stored : ∀ issued, issued.Precedes pendingLog → NotRegistered issued pendingLog κ →
    StoredAlready issued pendingLog κ p

/-- The commit brings in the credential under the key `κ`. -/
def BringsIn (before after : Db store) (κ : String) (c : PasswordCredential) : Prop :=
  before.get .passwordCredential κ = none ∧ after.get .passwordCredential κ = some c

lemma AccountCommit.attachesRead {log : Log store} {t : ℕ} {held : Lock store → Bool}
    {after : Db store} {userId : String}
    (h : AccountCommit settings calls log t held after (.emailConfirmed (some userId)))
    (hv : AccountLog settings calls db₀ log) {κc : String} {c : PasswordCredential}
    (hnew : BringsIn log.db after κc c) : ∃ tokenHash now ids pendingLog κ p,
      calls t = .confirmEmailVerification tokenHash now ids ∧
      AttachesRead log t tokenHash userId c pendingLog κ p := by
  obtain ⟨habsent, hc⟩ := hnew
  cases h with
  | unchanged _ report_eq => simp at report_eq
  | activated _ _ _ _ _ _ _ _ effect =>
    -- An activation only moves the credentials that were there.
    rcases effect.child (T := .passwordCredential) (by simp [childTables]) (by simp) (by simp) κc
      with hsame | ⟨c₀, hc₀, -, -⟩
    · exact absurd (habsent.symm.trans (hsame.symm.trans hc)) (by simp)
    · exact absurd (habsent.symm.trans hc₀) (by simp)
  | attached call tokenRead tokenFound tokenHash_eq _ _ read found owner _ effect =>
    have hpending := (Log.Valid.of_extends read hv).of_add
    rw [effect.pending.get_other (by simp), effect.credential.lookup] at hc
    split at hc
    · obtain ⟨issued, hissued, hissue⟩ :=
        exists_issueOf (Log.Valid.of_extends tokenRead hpending) tokenFound
      refine ⟨_, _, _, _, _, _, call, read, found, owner, ?_, ?_, ?_⟩
      · rw [← owner]
        exact (Option.some.inj hc).symm
      · exact ⟨issued, hissued.trans tokenRead, tokenHash_eq ▸ hissue⟩
      · intro issued' hissued' hnot
        exact storedAlready_of_precedes hissued' hpending found hnot
    · rw [effect.token.get_other (by simp), habsent] at hc
      exact absurd hc (by simp)

/-- Every password that a confirmation attaches to an existing user is the pending one it
read; that one was stored when the token was issued, unless the user has been registered
again since. -/
theorem confirmations_attach_read {acts : List (Act store)} {sys : System store}
    (hunique : UniqueEntries db₀) (hrun : accountRun settings calls db₀ acts = some sys) :
    sys.shared.log.Commits fun prior t (report : Report) after => ∀ userId,
      report = .emailConfirmed (some userId) → ∀ κc c, BringsIn prior.db after κc c →
        ∃ tokenHash now ids pendingLog κ p,
          calls t = .confirmEmailVerification tokenHash now ids ∧
          AttachesRead prior t tokenHash userId c pendingLog κ p := by
  refine (accountLog_of_run hunique hrun).commits ?_
  rintro log t report held after hv hcommit userId rfl κc c hnew
  exact hcommit.attachesRead hv hnew

/-- A verified account without a password. -/
def passwordlessAccount : Db store :=
  view [.put .user "bob" ⟨some "bob@example.com", none, none, .active, true⟩] fun _ => ∅

/-- A registration, a verification mail, another registration and the confirmation. -/
def twoRegistrations : ℕ → AccountCall
  | 0 => .register ⟨"bob@example.com", "password", none⟩ ⟨10, "mine", "u0", "c0", "p0"⟩
  | 1 => .requestEmailVerification "bob@example.com" none ⟨11, "v1", "verify"⟩
  | 2 => .register ⟨"bob@example.com", "password", none⟩ ⟨12, "theirs", "u2", "c2", "p2"⟩
  | _ => .confirmEmailVerification "verify" 20 ⟨⟨"x0", "x1", "x2", "x3", "x4"⟩, "c3"⟩

def requestActs : List (Act store) := [.call 0] ++ steps 0 6 ++ [.call 1] ++ steps 1 5

def secondRegistrationActs : List (Act store) :=
  [.call 2] ++ steps 2 5 ++ [.step 2 ["p0"]] ++ steps 2 3

def attachActs : List (Act store) :=
  [.call 3] ++ steps 3 4 ++ [.step 3 ["v1"]] ++ steps 3 2 ++ [.step 3 ["p0"]] ++ steps 3 2

theorem ownRegistration_attached :
    ∃ sys, accountRun plainAccountSettings twoRegistrations passwordlessAccount
        (requestActs ++ attachActs) = some sys ∧
      sys.shared.db.get .passwordCredential "c3" =
        some ⟨"bob", "bob@example.com", "mine", 0, none⟩ ∧
      sys.shared.log.Commits fun prior t (report : Report) after => ∀ userId,
        report = .emailConfirmed (some userId) → ∀ κc c, BringsIn prior.db after κc c →
          ∃ tokenHash now ids pendingLog κ p,
            twoRegistrations t = .confirmEmailVerification tokenHash now ids ∧
            AttachesRead prior t tokenHash userId c pendingLog κ p := by
  have hsome : (accountRun plainAccountSettings twoRegistrations passwordlessAccount
      (requestActs ++ attachActs)).any (fun sys => sys.shared.db.get .passwordCredential "c3" =
        some ⟨"bob", "bob@example.com", "mine", 0, none⟩) = true := by decide
  obtain ⟨sys, hrun, hsys⟩ := (Option.any_eq_true _ _).mp hsome
  exact ⟨sys, hrun, of_decide_eq_true hsys, confirmations_attach_read (by decide) hrun⟩

/-- The hash of the user's pending credential. -/
def pendingHash (db : Db store) (userId : String) : Option String :=
  (firstRow db .pendingPasswordCredential fun _ p => p.userId = userId).map (·.2.passwordHash)

/-- The hash of the user's pending credential when the token was last issued. -/
def hashAtIssue (tokenHash userId : String) : Log store → Option String
  | .initial db _ => pendingHash db userId
  | .add log (.selected _ _) => hashAtIssue tokenHash userId log
  | .add log (.called _ _ _) => hashAtIssue tokenHash userId log
  | .add log (.committed _ (.verificationTokenCreated tokenHash') _ after) =>
      if tokenHash' = tokenHash then pendingHash after userId
      else hashAtIssue tokenHash userId log
  | .add log (.committed _ _ _ _) => hashAtIssue tokenHash userId log

/-- The commit of a confirmation attaches only the hash that was pending at the issue of its
token. -/
def attachesIssued (calls : ℕ → AccountCall) (prior : Log store) (t : ℕ) (after : Db store) :
    Report → Bool
  | .emailConfirmed (some userId) =>
      match calls t with
      | .confirmEmailVerification tokenHash _ _ =>
          (after .passwordCredential).entries.all fun x =>
            (prior.db.get .passwordCredential x.1).isSome ||
              hashAtIssue tokenHash userId prior = some x.2.passwordHash
      | _ => true
  | _ => true

/-- The second registration replaces the password that the token of the first one attaches. -/
theorem laterRegistration_attached :
    ∃ sys, accountRun plainAccountSettings twoRegistrations passwordlessAccount
        (requestActs ++ secondRegistrationActs ++ attachActs) = some sys ∧
      sys.shared.log.reports 1 = [.verificationTokenCreated "verify"] ∧
      sys.shared.log.reports 2 = [.registered "bob"] ∧
      sys.shared.log.reports 3 = [.emailConfirmed (some "bob")] ∧
      hashAtIssue "verify" "bob" sys.shared.log = some "mine" ∧
      sys.shared.db.get .passwordCredential "c3" =
        some ⟨"bob", "bob@example.com", "theirs", 0, none⟩ ∧
      ¬ sys.shared.log.Commits fun prior t report after =>
        attachesIssued twoRegistrations prior t after report = true := by
  have hsome : (accountRun plainAccountSettings twoRegistrations passwordlessAccount
      (requestActs ++ secondRegistrationActs ++ attachActs)).any (fun sys =>
        sys.shared.log.reports 1 = [.verificationTokenCreated "verify"] ∧
        sys.shared.log.reports 2 = [.registered "bob"] ∧
        sys.shared.log.reports 3 = [.emailConfirmed (some "bob")] ∧
        hashAtIssue "verify" "bob" sys.shared.log = some "mine" ∧
        sys.shared.db.get .passwordCredential "c3" =
          some ⟨"bob", "bob@example.com", "theirs", 0, none⟩ ∧
        ¬ sys.shared.log.Commits fun prior t report after =>
          attachesIssued twoRegistrations prior t after report = true) = true := by decide
  obtain ⟨sys, hrun, hsys⟩ := (Option.any_eq_true _ _).mp hsome
  exact ⟨sys, hrun, of_decide_eq_true hsys⟩

end WiseacctSso
