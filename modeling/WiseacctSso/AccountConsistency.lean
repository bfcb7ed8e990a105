import WiseacctSso.IdentityMergeRuns
import WiseacctSso.SerialAccounts

/-!
# The emails of accounts

Login finds a user by the email of its credential, registration and OAuth by its own. What
each kind of commit does to the rows involved keeps the two in step.
-/
namespace WiseacctSso
open ReadCommitted MergeSplitIdentities OAuthIdentityStore

/-- What `lower` and `strip` are relied on for, and `lower` as the database has it. -/
structure TextLaws (py : PythonText) (lower : String → String) : Prop where
  lower_lower : ∀ s, py.lower (py.lower s) = py.lower s
  strip_lower : ∀ s, py.strip (py.lower (py.strip s)) = py.lower (py.strip s)
  database_lower : ∀ s, lower (py.lower s) = py.lower s
  database_lower_lower : ∀ s, lower (lower s) = lower s

/-- An email as `_normalize_email` leaves it. -/
def NormalEmail (py : PythonText) (email : String) : Prop :=
  py.strip email = email ∧ py.lower email = email

/-- The owner of a credential has its email, and is verified once it is ACTIVE. -/
def OwnsCredential (db : Db store) (c : PasswordCredential) : Prop :=
  ∃ u : User, db.get .user c.userId = some u ∧ u.email = some c.email ∧
    (u.status = .active → u.emailVerified = true)

/-- The owner of a pending credential is verified, and has its email or a credential. -/
def OwnsPending (db : Db store) (p : PendingPasswordCredential) : Prop :=
  ∃ u : User, db.get .user p.userId = some u ∧ u.emailVerified = true ∧
    (u.email = some p.email ∨ HasPassword db p.userId)

structure Consistent (py : PythonText) (db : Db store) : Prop where
  email : ∀ id (u : User), db.get .user id = some u → ∀ e ∈ u.email, NormalEmail py e
  credential : ∀ κ c, db.get .passwordCredential κ = some c → OwnsCredential db c
  pending : ∀ κ p, db.get .pendingPasswordCredential κ = some p → OwnsPending db p

/-! ## Cascades -/

variable {py : PythonText} {lower : String → String} {before after : Db store}

lemma Cascaded.lookup {f : (T : Table) → T.Row → Option T.Row} {userId : String}
    {Ts whole : List Table} (h : Cascaded f userId Ts whole before after) {T : Table}
    (hT : T ∈ Ts) (hwhole : T ∈ whole) (κ : String) : after.get T κ =
      (before.get T κ).bind fun r => if T.owner r = some userId then f T r else some r := by
  rcases hr : before.get T κ with _ | r
  · rcases h.child T hT κ with hsame | ⟨r, hr', -⟩
    · exact hsame.trans hr
    · simp [hr] at hr'
  by_cases howner : T.owner r = some userId
  · rw [h.complete T hT hwhole κ r hr howner, Option.bind_some, if_pos howner]
  rcases h.child T hT κ with hsame | ⟨r', hr', howner', -⟩
  · rw [hsame, hr, Option.bind_some, if_neg howner]
  · obtain rfl := Option.some.inj (hr'.symm.trans hr)
    exact absurd howner' howner

lemma UserRemoved.child_lookup {userId : String} {u : User}
    (h : UserRemoved userId u childTables before after) {T : Table} (hT : T ∈ childTables)
    (κ : String) : after.get T κ = (before.get T κ).filter fun r => !(T.owner r = some userId) := by
  rcases hr : before.get T κ with _ | r
  · rcases h.child T hT κ with hsame | ⟨-, r, hr', -⟩
    · exact hsame.trans hr
    · simp [hr] at hr'
  by_cases howner : T.owner r = some userId
  · rw [h.complete T hT hT κ r hr howner]
    simp [howner, Option.filter]
  · rw [h.keeps hT hr howner]
    simp [howner, Option.filter]

/-! ## One kind of change at a time -/

/-- Nothing is said of the other tables. -/
lemma Consistent.of_same (h : Consistent py before)
    (hsame : ∀ T ∈ [Table.user, .passwordCredential, .pendingPasswordCredential],
      ∀ κ, after.get T κ = before.get T κ) : Consistent py after := by
  have huser := hsame .user (by simp)
  have hcredential := hsame .passwordCredential (by simp)
  have hpassword : ∀ id, HasPassword before id → HasPassword after id := by
    rintro id ⟨κ, c, hc, howner⟩
    exact ⟨κ, c, (hcredential κ).trans hc, howner⟩
  refine ⟨fun id u hu => h.email id u ((huser id).symm.trans hu), fun κ c hc => ?_,
    fun κ p hp => ?_⟩
  · obtain ⟨u, hu, hemail⟩ := h.credential κ c ((hcredential κ).symm.trans hc)
    exact ⟨u, (huser _).trans hu, hemail⟩
  · obtain ⟨u, hu, hverified, hemail⟩ := h.pending κ p ((hsame _ (by simp) κ).symm.trans hp)
    exact ⟨u, (huser _).trans hu, hverified, hemail.imp_right (hpassword _)⟩

/-- Users may change their status, but for becoming ACTIVE, and be joined by new ones. -/
lemma Consistent.of_users (h : Consistent py before)
    (hkept : ∀ id (u : User), before.get .user id = some u → ∃ status : UserStatus,
      after.get .user id = some { u with status := status } ∧
      (status = .active → u.status = .active))
    (hnew : ∀ id (u : User), after.get .user id = some u → before.get .user id = none →
      ∀ e ∈ u.email, NormalEmail py e)
    (hsame : ∀ T ∈ [Table.passwordCredential, .pendingPasswordCredential],
      ∀ κ, after.get T κ = before.get T κ) : Consistent py after := by
  have hcredential := hsame .passwordCredential (by simp)
  have hpassword : ∀ id, HasPassword before id → HasPassword after id := by
    rintro id ⟨κ, c, hc, howner⟩
    exact ⟨κ, c, (hcredential κ).trans hc, howner⟩
  refine ⟨fun id u hu e he => ?_, fun κ c hc => ?_, fun κ p hp => ?_⟩
  · rcases hbefore : before.get .user id with _ | u₀
    · exact hnew id u hu hbefore e he
    · obtain ⟨status, hafter, -⟩ := hkept id u₀ hbefore
      obtain rfl := Option.some.inj (hafter.symm.trans hu)
      exact h.email id u₀ hbefore e he
  · obtain ⟨u, hu, hemail, hverified⟩ := h.credential κ c ((hcredential κ).symm.trans hc)
    obtain ⟨status, hafter, hactive⟩ := hkept _ u hu
    exact ⟨_, hafter, hemail, fun hstatus => hverified (hactive hstatus)⟩
  · obtain ⟨u, hu, hverified, hemail⟩ := h.pending κ p ((hsame _ (by simp) κ).symm.trans hp)
    obtain ⟨status, hafter, -⟩ := hkept _ u hu
    exact ⟨_, hafter, hverified, hemail.imp_right (hpassword _)⟩

/-- The commit brings in a user with a normal email or none. -/
lemma Consistent.inserted (h : Consistent py before) {id : String} {u : User}
    (hemail : ∀ e ∈ u.email, NormalEmail py e)
    (hinserted : Inserted (Γ := store) .user id u before after) : Consistent py after := by
  refine h.of_users (fun id' u' hu' => ⟨u'.status, ?_, fun hactive => hactive⟩)
    (fun id' u' hu' hnone => ?_) fun T hT κ => hinserted.get_other (by rintro rfl; simp at hT) κ
  · exact hinserted.keepsAll hu'
  · have hlookup := hinserted.lookup id'
    split at hlookup
    · obtain rfl := Option.some.inj (hlookup.symm.trans hu')
      exact hemail
    · rw [hu', hnone] at hlookup
      simp at hlookup

/-- The commit takes a user away with all rows that refer to it. -/
lemma Consistent.removed (h : Consistent py before) {userId : String}
    (huser : ∀ id, after.get .user id = if id = userId then none else before.get .user id)
    (hchild : ∀ T ∈ childTables, ∀ κ, after.get T κ =
      (before.get T κ).filter fun r => !(T.owner r = some userId)) : Consistent py after := by
  have hrow : ∀ T ∈ childTables, ∀ κ r, after.get T κ = some r →
      before.get T κ = some r ∧ T.owner r ≠ some userId := by
    intro T hT κ r hr
    rw [hchild T hT, Option.filter_eq_some_iff] at hr
    simpa using hr
  have hkept : ∀ id, id ≠ userId → after.get .user id = before.get .user id :=
    fun id hid => by rw [huser, if_neg hid]
  have hpassword : ∀ id, id ≠ userId → HasPassword before id → HasPassword after id := by
    rintro id hid ⟨κ, c, hc, rfl⟩
    refine ⟨κ, c, ?_, rfl⟩
    rw [hchild _ (by simp [childTables]), hc]
    simp [Table.owner, hid, Option.filter]
  refine ⟨fun id u hu => ?_, fun κ c hc => ?_, fun κ p hp => ?_⟩
  · rw [huser] at hu
    split at hu
    · simp at hu
    · exact h.email id u hu
  · obtain ⟨hc', howner⟩ := hrow .passwordCredential (by simp [childTables]) κ c hc
    obtain ⟨u, hu, hemail⟩ := h.credential κ c hc'
    exact ⟨u, (hkept _ fun heq => howner (congrArg some heq)).trans hu, hemail⟩
  · obtain ⟨hp', howner⟩ := hrow .pendingPasswordCredential (by simp [childTables]) κ p hp
    have hne : p.userId ≠ userId := fun heq => howner (congrArg some heq)
    obtain ⟨u, hu, hverified, hemail⟩ := h.pending κ p hp'
    exact ⟨u, (hkept _ hne).trans hu, hverified, hemail.imp_right (hpassword _ hne)⟩

/-- A user is activated, under its old id or under a free one, and its rows follow. -/
structure AccountActivated (userId activatedId : String) (u : User) (before after : Db store) :
    Prop where
  found : before.get .user userId = some u
  pending : u.status = .pendingEmailVerification
  fresh : activatedId ≠ userId → before.get .user activatedId = none
  user : ∀ id, after.get .user id = if id = activatedId then some u.activated
    else if id = userId then none else before.get .user id
  child : ∀ T ∈ childTables, ∀ κ, after.get T κ = (before.get T κ).map fun r =>
    if T.owner r = some userId then T.setOwner activatedId r else r

section activated

variable {userId activatedId : String} {u : User}

lemma accountActivated_of_cascade {activated : Db store}
    (huser : UserActivated userId activatedId u before activated)
    (hchildren : Cascaded (moveTo activatedId) userId childTables childTables activated after) :
    AccountActivated userId activatedId u before after := by
  refine ⟨huser.found, huser.pending, huser.fresh, fun id => ?_, fun T hT κ => ?_⟩
  · rw [Db.get, hchildren.other .user (by simp [childTables])]
    exact huser.lookup id
  · have hne : T ≠ .user := by
      rintro rfl
      simp [childTables] at hT
    rw [hchildren.lookup hT hT, Db.get, huser.other T hne, ← Db.get]
    cases before.get T κ with
    | none => rfl
    | some r =>
      rw [Option.bind_some, Option.map_some]
      split <;> rfl

/-- A user other than the activated one has neither of its ids. -/
lemma AccountActivated.user_kept (h : AccountActivated userId activatedId u before after)
    {id : String} (hid : id ≠ userId) {u' : User} (hu' : before.get .user id = some u') :
    after.get .user id = some u' := by
  have hfree : id ≠ activatedId := by
    rintro rfl
    rw [h.fresh hid] at hu'
    simp at hu'
  rw [h.user, if_neg hfree, if_neg hid, hu']

lemma Consistent.activated (h : Consistent py before)
    (hmoved : AccountActivated userId activatedId u before after) : Consistent py after := by
  have hself : after.get .user activatedId = some u.activated := by
    rw [hmoved.user, if_pos rfl]
  have hpassword : ∀ id, HasPassword before id →
      HasPassword after (if id = userId then activatedId else id) := by
    rintro id ⟨κ, c, hc, rfl⟩
    refine ⟨κ, _, (hmoved.child _ (by simp [childTables]) κ).trans (congrArg _ hc), ?_⟩
    by_cases howner : c.userId = userId
    · simp [Table.owner, howner, Table.setOwner]
    · simp [Table.owner, howner]
  refine ⟨fun id u' hu' => ?_, fun κ c hc => ?_, fun κ p hp => ?_⟩
  · rw [hmoved.user] at hu'
    split at hu'
    · obtain rfl := Option.some.inj hu'
      exact h.email userId u hmoved.found
    split at hu'
    · simp at hu'
    · exact h.email id u' hu'
  · rw [hmoved.child _ (by simp [childTables])] at hc
    obtain ⟨c₀, hc₀, rfl⟩ := Option.map_eq_some_iff.mp hc
    obtain ⟨u', hu', hemail, hverified⟩ := h.credential κ c₀ hc₀
    by_cases howner : c₀.userId = userId
    · obtain rfl := Option.some.inj ((howner ▸ hu').symm.trans hmoved.found)
      simp only [Table.owner, howner, if_true]
      exact ⟨_, hself, hemail, fun _ => rfl⟩
    · simp only [Table.owner, Option.some.injEq, howner, if_false]
      exact ⟨u', hmoved.user_kept howner hu', hemail, hverified⟩
  · rw [hmoved.child _ (by simp [childTables])] at hp
    obtain ⟨p₀, hp₀, rfl⟩ := Option.map_eq_some_iff.mp hp
    obtain ⟨u', hu', hverified, hemail⟩ := h.pending κ p₀ hp₀
    have hemail' := hemail.imp_right (hpassword _)
    by_cases howner : p₀.userId = userId
    · obtain rfl := Option.some.inj ((howner ▸ hu').symm.trans hmoved.found)
      rw [if_pos howner] at hemail'
      simp only [Table.owner, howner, if_true]
      exact ⟨_, hself, rfl, hemail'⟩
    · rw [if_neg howner] at hemail'
      simp only [Table.owner, Option.some.injEq, howner, if_false]
      exact ⟨u', hmoved.user_kept howner hu', hverified, hemail'⟩

end activated

/-- The users stay, and the credentials and the pending ones have an owner among them. -/
lemma Consistent.of_rows (h : Consistent py before)
    (huser : ∀ id, after.get .user id = before.get .user id)
    (hcredential : ∀ κ c, after.get .passwordCredential κ = some c → OwnsCredential before c)
    (hkept : ∀ id, HasPassword before id → HasPassword after id)
    (hpending : ∀ κ p, after.get .pendingPasswordCredential κ = some p → OwnsPending before p) :
    Consistent py after := by
  refine ⟨fun id u hu => h.email id u ((huser id).symm.trans hu), fun κ c hc => ?_,
    fun κ p hp => ?_⟩
  · obtain ⟨u, hu, hemail⟩ := hcredential κ c hc
    exact ⟨u, (huser _).trans hu, hemail⟩
  · obtain ⟨u, hu, hverified, hemail⟩ := hpending κ p hp
    exact ⟨u, (huser _).trans hu, hverified, hemail.imp_right (hkept _)⟩

/-- Credentials may change their hash and their failures. -/
lemma Consistent.of_credentials (h : Consistent py before) {userId : String}
    {change : PasswordCredential → PasswordCredential → Prop}
    (hchange : ∀ c c', change c c' → c'.userId = c.userId ∧ c'.email = c.email)
    (heffect : CredentialsChanged userId change before after)
    (huser : ∀ id, after.get .user id = before.get .user id)
    (hpending : ∀ κ, after.get .pendingPasswordCredential κ =
      before.get .pendingPasswordCredential κ) : Consistent py after := by
  refine h.of_rows huser (fun κ c hc => ?_) ?_
    fun κ p hp => h.pending κ p ((hpending κ).symm.trans hp)
  · rcases heffect κ with hsame | ⟨c₀, c', hc₀, -, hc', hafter⟩
    · exact h.credential κ c (hsame.symm.trans hc)
    · obtain rfl := Option.some.inj (hafter.symm.trans hc)
      obtain ⟨howner, hemail⟩ := hchange c₀ c' hc'
      rw [OwnsCredential, howner, hemail]
      exact h.credential κ c₀ hc₀
  · rintro id ⟨κ, c, hc, rfl⟩
    rcases heffect κ with hsame | ⟨c₀, c', hc₀, -, hc', hafter⟩
    · exact ⟨κ, c, hsame.trans hc, rfl⟩
    · obtain rfl := Option.some.inj (hc₀.symm.trans hc)
      exact ⟨κ, c', hafter, (hchange _ c' hc').1⟩

/-! ## Session calls -/

/-- A status change, which may also revoke sessions. -/
lemma Consistent.of_status (h : Consistent py before) {target : String} {status : UserStatus}
    (hstatus : status ≠ .active) (heffect : UserStatusSet target status before after)
    (hsame : ∀ T ∈ [Table.passwordCredential, .pendingPasswordCredential],
      ∀ κ, after.get T κ = before.get T κ) : Consistent py after := by
  refine h.of_users (fun id u hu => ?_) (fun id u hu hnone => ?_) hsame
  · rw [heffect id, hu]
    split
    · exact ⟨status, rfl, fun hactive => absurd hactive hstatus⟩
    · exact ⟨u.status, rfl, fun hactive => hactive⟩
  · rw [heffect id, hnone] at hu
    split at hu <;> simp at hu

lemma SessionCommit.consistent {settings : AuthSettings} {calls : ℕ → SessionCall} {t : ℕ}
    {log : Log store} {held : Lock store → Bool} {report : Report}
    (hcommit : SessionCommit settings calls log t held after report)
    (hstatus : ∀ actor target now, calls t ≠ .admin actor (.setUserStatus target .active now))
    (h : Consistent py log.db) : Consistent py after := by
  -- Most commits leave users and credentials alone.
  have honly : ∀ {Ts}, OnlyTables Ts log.db after → Table.user ∉ Ts →
      Table.passwordCredential ∉ Ts → Table.pendingPasswordCredential ∉ Ts →
      Consistent py after := by
    intro Ts hTs huser hcredential hpending
    refine h.of_rows (hTs.get huser) (fun κ c hc => ?_) ?_ fun κ p hp => ?_
    · exact h.credential κ c ((hTs.get hcredential κ).symm.trans hc)
    · rintro id ⟨κ, c, hc, howner⟩
      exact ⟨κ, c, (hTs.get hcredential κ).trans hc, howner⟩
    · exact h.pending κ p ((hTs.get hpending κ).symm.trans hp)
  cases hcommit with
  | rotated _ _ _ _ _ _ effect => exact honly effect.only (by simp) (by simp) (by simp)
  | tokenIssued _ _ _ effect => exact honly effect.only (by simp) (by simp) (by simp)
  | refused _ effect => exact effect ▸ h
  | loggedOut _ _ only => exact honly only (by simp) (by simp) (by simp)
  | @userStatusSet actor target status now call _ effect _ only =>
    refine h.of_status ?_ effect fun T hT κ => only.get (by rintro hmem; simp at hT hmem; grind) κ
    rintro rfl
    exact hstatus actor target now call
  | roleAssigned _ _ only => exact honly only (by simp) (by simp) (by simp)
  | roleRemoved _ _ _ _ only => exact honly only (by simp) (by simp) (by simp)
  | sessionsRevoked _ _ _ only => exact honly only (by simp) (by simp) (by simp)
  | passwordResetRequested only => exact honly only (by simp) (by simp) (by simp)
  | passwordResetRefused only => exact honly only (by simp) (by simp) (by simp)
  | passwordReset _ effect _ _ only =>
    exact h.of_credentials (fun c c' hc => by rw [hc]; exact ⟨rfl, rfl⟩) effect
      (only.get (by simp)) (only.get (by simp))
  | loginSucceeded _ _ effect only =>
    exact h.of_credentials (fun c c' hc => by rw [hc]; exact ⟨rfl, rfl⟩) effect
      (only.get (by simp)) (only.get (by simp))
  | loginFailureRecorded _ _ effect only =>
    exact h.of_credentials (fun c c' hc => by rw [hc]; exact ⟨rfl, rfl⟩) effect
      (only.get (by simp)) (only.get (by simp))

/-! ## Merges -/

section merge

variable {c : SplitAccountCandidate}

/-- The email of a candidate is that of the user who has its password. -/
lemma MergeSplitIdentities.Split.password_email (laws : TextLaws py lower)
    (h : Consistent py before) (hsplit : Split lower before c) : NormalEmail py c.email ∧
      ∃ u : User, before.get .user c.passwordUserId = some u ∧ u.email = some c.email := by
  obtain ⟨κ, pc, hpc, howner, hlower⟩ := hsplit.credential
  obtain ⟨u, hu, hemail, -⟩ := h.credential κ pc hpc
  have hnormal := h.email _ u hu pc.email hemail
  have heq : pc.email = c.email := by rw [← hlower, ← hnormal.2, laws.database_lower]
  rw [heq] at hnormal hemail
  exact ⟨hnormal, u, howner ▸ hu, hemail⟩

/-- The email of a candidate is nobody else's. -/
lemma MergeSplitIdentities.Split.unclaimed (laws : TextLaws py lower) (h : Consistent py before)
    (hunique : UniqueEntries before) (hsplit : Split lower before c) : Unclaimed before c := by
  obtain ⟨-, u, hu, hemail⟩ := hsplit.password_email laws h
  intro id u' hu' hemail'
  exact .inl (hunique Table.user id _ u' u hu' hu (.email c.email) (by simp [hemail'])
    (by simp [hemail]))

lemma Consistent.merged (laws : TextLaws py lower) (h : Consistent py before)
    (hsplit : Split lower before c) (heffect : Merged c before after) : Consistent py after := by
  obtain ⟨hnormal, owner, howner, hemail⟩ := hsplit.password_email laws h
  obtain ⟨canonical, hcanonical, -, hverified⟩ := hsplit.canonical
  have hgiven : after.get .user c.canonicalUserId =
      some { canonical with email := some c.email, emailVerified := true } := by
    rw [heffect.user, if_neg hsplit.distinct, if_pos rfl, hcanonical, Option.map_some]
  have hchild : ∀ T ∈ childTables, T ≠ .passwordCredential → ∀ κ r, after.get T κ = some r →
      before.get T κ = some r ∧ T.owner r ≠ some c.passwordUserId := by
    intro T hT hne κ r hr
    rw [heffect.child T hT hne, Option.filter_eq_some_iff] at hr
    simpa using hr
  refine ⟨fun id u hu e he => ?_, fun κ pc hpc => ?_, fun κ p hp => ?_⟩
  · rw [heffect.user] at hu
    split at hu
    · simp at hu
    split at hu
    · obtain ⟨u₀, -, rfl⟩ := Option.map_eq_some_iff.mp hu
      obtain rfl : c.email = e := by simpa using he
      exact hnormal
    · exact h.email id u hu e he
  · obtain ⟨pc₀, hpc₀, hsame, ⟨hmoved, hto⟩ | ⟨hne, hto⟩⟩ := heffect.credential_before hpc
    · obtain ⟨u, hu, hemail', -⟩ := h.credential κ pc₀ hpc₀
      obtain rfl := Option.some.inj ((hmoved ▸ hu).symm.trans howner)
      refine ⟨_, hto ▸ hgiven, ?_, fun _ => rfl⟩
      rw [← hsame, ← hemail', hemail]
    · obtain ⟨u, hu, hemail', hverified'⟩ := h.credential κ pc₀ hpc₀
      refine ⟨u, ?_, hsame ▸ hemail', hverified'⟩
      rw [hto, heffect.user_other hne (hsplit.bare κ pc₀ hpc₀), hu]
  · obtain ⟨hp', hne⟩ := hchild .pendingPasswordCredential (by simp [childTables]) (by simp) κ p hp
    have hne' : p.userId ≠ c.passwordUserId := fun heq => hne (congrArg some heq)
    obtain ⟨u, hu, hverified', hemail'⟩ := h.pending κ p hp'
    by_cases hto : p.userId = c.canonicalUserId
    · exact ⟨_, hto ▸ hgiven, rfl, .inr (hto ▸ heffect.hasPassword hsplit)⟩
    · refine ⟨u, (heffect.user_other hne' hto).trans hu, hverified', ?_⟩
      exact hemail'.imp_right (heffect.hasPassword_kept hne')

end merge

/-! ## Account calls -/

lemma normalizeEmail_normal (laws : TextLaws py lower) (email : String) :
    NormalEmail py (py.lower (py.strip email)) :=
  ⟨laws.strip_lower email, laws.lower_lower _⟩

/-- The user of a provider's profile comes in with its first role. -/
lemma Consistent.creation (laws : TextLaws py lower) (h : Consistent py before)
    {profile : OAuthProfileRecord} {ids : OAuthIds} {userId socialId : String}
    {userEmail : Option String} {u : User} {social : SocialAccount} {role : Role}
    {created linked base : Db store} (hemail : u.email = userEmail)
    (hnamed : Named ids (profile.email.map fun email => py.lower (py.strip email)) userEmail userId
      base) (heffect : Creation userId socialId u social role before created linked after) :
    Consistent py after := by
  have hcreated : Consistent py created := by
    refine h.inserted (fun e he => ?_) heffect.user
    rcases hnamed.email with hnone | hsome
    · rw [hemail, hnone] at he
      simp at he
    · rw [hemail, hsome, Option.mem_map] at he
      obtain ⟨email, -, rfl⟩ := he
      exact normalizeEmail_normal laws email
  refine hcreated.of_same fun T hT κ => ?_
  have hne : T ≠ .role ∧ T ≠ .userRole ∧ T ≠ .socialAccount := by
    refine ⟨?_, ?_, ?_⟩ <;> rintro rfl <;> simp at hT
  rw [Db.get, heffect.role.other T hne.1 hne.2.1, heffect.social.other T hne.2.2, Db.get]

lemma SerialStep.consistent {settings : AccountSettings} {call : AccountCall}
    (laws : TextLaws settings.py lower)
    (hstatus : ∀ actor target now, call ≠ .setUserStatus actor target .active now)
    (hunique : UniqueEntries after) (hstep : SerialStep settings call before after)
    (h : Consistent settings.py before) : Consistent settings.py after := by
  cases hstep with
  | unchanged effect => exact h.of_same fun T _ κ => effect T κ
  | @registered input draws created call_eq user credential =>
    have hcreated : Consistent settings.py created := by
      refine h.inserted (fun e he => ?_) user
      obtain rfl : _ = e := by simpa using he
      exact normalizeEmail_normal laws input.email
    refine hcreated.of_rows (credential.get_other (by simp)) (fun κ c hc => ?_) ?_
      fun κ p hp => hcreated.pending κ p ((credential.get_other (by simp) κ).symm.trans hp)
    · rw [credential.lookup] at hc
      split at hc
      · obtain rfl := Option.some.inj hc
        exact ⟨_, user.self, congrArg some (normalizeEmail_normal laws input.email).2.symm,
          fun hactive => by simp at hactive⟩
      · exact hcreated.credential κ c hc
    · rintro id ⟨κ, c, hc, howner⟩
      exact ⟨κ, c, credential.keepsAll hc, howner⟩
  | @pendingUpserted input draws userId call_eq found effect =>
    have hother : ∀ T, T ≠ .pendingPasswordCredential → ∀ κ, after.get T κ = before.get T κ :=
      fun T hT κ => by rw [Db.get, effect.other T hT, Db.get]
    refine h.of_rows (hother _ (by simp))
      (fun κ c hc => h.credential κ c ((hother _ (by simp) κ).symm.trans hc))
      ?_ fun κ p hp => ?_
    · rintro id ⟨κ, c, hc, howner⟩
      exact ⟨κ, c, (hother _ (by simp) κ).trans hc, howner⟩
    rcases effect.kept κ p hp with hp' | rfl
    · exact h.pending κ p hp'
    · obtain ⟨u, hu, hemail, hverified⟩ := found.user
      refine ⟨u, hu, hverified, .inl ?_⟩
      rw [hemail]
      exact congrArg some (normalizeEmail_normal laws input.email).2.symm
  | tokenCreated effect =>
    exact h.of_same fun T hT κ => effect.get_other (by rintro rfl; simp at hT) κ
  | tokenUsed effect same =>
    refine h.of_same fun T hT κ => (same T κ).trans (effect.get_other ?_ κ)
    rintro rfl
    simp at hT
  | @activated tokenId userId activatedId now token u used activated moved effect =>
    have hused : Consistent settings.py used :=
      h.of_same fun T hT κ => effect.token.get_other (by rintro rfl; simp at hT) κ
    have hactivated := hused.activated (accountActivated_of_cascade effect.user effect.children)
    refine hactivated.of_same fun T hT κ => ?_
    rw [Db.get, effect.role.other T (by rintro rfl; simp at hT) (by rintro rfl; simp at hT), Db.get]
  | @attached tokenId userId credentialId κ₀ now pending token used attached found owner notPending
      effect =>
    have hbefore : ∀ T, T ≠ .emailVerificationToken → T ≠ .passwordCredential →
        T ≠ .pendingPasswordCredential → ∀ κ, after.get T κ = before.get T κ := by
      intro T hT hT' hT'' κ
      rw [effect.pending.get_other hT'', effect.credential.get_other hT', effect.token.get_other hT]
    have hcredential : ∀ κ, after.get .passwordCredential κ = if κ = credentialId then
        some ⟨pending.userId, pending.email, pending.passwordHash, 0, none⟩
        else before.get .passwordCredential κ := by
      intro κ
      rw [effect.pending.get_other (by simp), effect.credential.lookup,
        effect.token.get_other (by simp)]
    have hfresh : before.get .passwordCredential credentialId = none := by
      rw [← effect.token.get_other (by simp)]
      exact effect.credential.absent
    have hkept : ∀ κ c, before.get .passwordCredential κ = some c →
        κ ≠ credentialId ∧ after.get .passwordCredential κ = some c := by
      intro κ c hc
      have hne : κ ≠ credentialId := by
        rintro rfl
        simp [hfresh] at hc
      exact ⟨hne, by rw [hcredential, if_neg hne, hc]⟩
    refine h.of_rows (hbefore _ (by simp) (by simp) (by simp)) (fun κ c hc => ?_) ?_
      fun κ p hp => ?_
    · rw [hcredential] at hc
      split at hc
      swap
      · exact h.credential κ c hc
      obtain rfl := Option.some.inj hc
      obtain ⟨u, hu, hverified, hemail | ⟨κ', c', hc', howner⟩⟩ := h.pending κ₀ pending found
      · exact ⟨u, hu, hemail, fun _ => hverified⟩
      -- The index on the owner lets only one credential of a user in.
      · obtain ⟨hne, hafter⟩ := hkept κ' c' hc'
        have hself := hcredential credentialId
        rw [if_pos rfl] at hself
        exact absurd (hunique Table.passwordCredential κ' credentialId c' _ hafter hself
          (.userId pending.userId) (by simp [howner]) (by simp)) hne
    · rintro id ⟨κ, c, hc, howner⟩
      exact ⟨κ, c, (hkept κ c hc).2, howner⟩
    · rcases effect.pending.row κ with hsame | ⟨hnone, -⟩
      · rw [hsame, effect.credential.get_other (by simp), effect.token.get_other (by simp)] at hp
        exact h.pending κ p hp
      · rw [hnone] at hp
        simp at hp
  | linked effect => exact h.of_same fun T hT κ => effect.get_other (by rintro rfl; simp at hT) κ
  | created named effect => exact h.creation laws rfl named effect
  | @replaced profile defaultRole ids oldId userId userEmail u removed created linked _ _ named
      removal effect =>
    have hremoved : Consistent settings.py removed :=
      h.removed removal.lookup fun T hT κ => removal.child_lookup hT κ
    exact hremoved.creation laws rfl named effect
  | @userStatusSet actor target status now call_eq effect tokens only =>
    have hactive : status ≠ .active := by
      rintro rfl
      exact hstatus actor target now call_eq
    refine h.of_status hactive effect fun T hT κ => only.get ?_ κ
    rintro hmem
    simp at hT hmem
    grind

/-! ## Refresh tokens -/

/-- Users stay or are joined by new ones, tokens stay. -/
lemma TokenUsersExist.of_users (h : TokenUsersExist before)
    (huser : ∀ id, (before.get .user id).isSome = true → (after.get .user id).isSome = true)
    (htoken : ∀ κ, after.get .refreshToken κ = before.get .refreshToken κ) :
    TokenUsersExist after :=
  fun κ r hr => huser _ (h κ r ((htoken κ).symm.trans hr))

lemma TokenUsersExist.inserted (h : TokenUsersExist before) {id : String} {u : User}
    (hinserted : Inserted (Γ := store) .user id u before after) : TokenUsersExist after := by
  refine h.of_users (fun id' hsome => ?_) (hinserted.get_other (by simp))
  obtain ⟨u', hu'⟩ := Option.isSome_iff_exists.mp hsome
  rw [hinserted.keepsAll hu', Option.isSome_some]

lemma TokenUsersExist.removed (h : TokenUsersExist before) {userId : String}
    (huser : ∀ id, after.get .user id = if id = userId then none else before.get .user id)
    (htoken : ∀ κ, after.get .refreshToken κ =
      (before.get .refreshToken κ).filter fun r => !(Table.owner .refreshToken r = some userId)) :
    TokenUsersExist after := by
  intro κ r hr
  rw [htoken, Option.filter_eq_some_iff] at hr
  have hne : r.userId ≠ userId := by simpa [Table.owner] using hr.2
  rw [huser, if_neg hne]
  exact h κ r hr.1

lemma TokenUsersExist.activated (h : TokenUsersExist before) {userId activatedId : String}
    {u : User} (hmoved : AccountActivated userId activatedId u before after) :
    TokenUsersExist after := by
  intro κ r hr
  rw [hmoved.child _ (by simp [childTables])] at hr
  obtain ⟨r₀, hr₀, rfl⟩ := Option.map_eq_some_iff.mp hr
  obtain ⟨u', hu'⟩ := Option.isSome_iff_exists.mp (h κ r₀ hr₀)
  by_cases howner : r₀.userId = userId
  · simp only [Table.owner, howner, if_true, Table.setOwner]
    rw [hmoved.user, if_pos rfl, Option.isSome_some]
  · simp only [Table.owner, Option.some.injEq, howner, if_false]
    rw [hmoved.user_kept howner hu', Option.isSome_some]

lemma TokenUsersExist.merged (h : TokenUsersExist before) {c : SplitAccountCandidate}
    (hsplit : Split lower before c) (heffect : Merged c before after) : TokenUsersExist after := by
  intro κ r hr
  rw [heffect.child _ (by simp [childTables]) (by simp), Option.filter_eq_some_iff] at hr
  have hne : r.userId ≠ c.passwordUserId := by simpa [Table.owner] using hr.2
  have huser := h κ r hr.1
  by_cases hto : r.userId = c.canonicalUserId
  · obtain ⟨u, hu, -⟩ := hsplit.canonical
    rw [hto, heffect.user, if_neg hsplit.distinct, if_pos rfl, hu, Option.map_some,
      Option.isSome_some]
  · rwa [heffect.user_other hne hto]

lemma TokenUsersExist.creation (h : TokenUsersExist before) {userId socialId : String} {u : User}
    {social : SocialAccount} {role : Role} {created linked : Db store}
    (heffect : Creation userId socialId u social role before created linked after) :
    TokenUsersExist after := by
  refine (h.inserted heffect.user).of_users (fun id hsome => ?_) fun κ => ?_
  · rwa [Db.get, heffect.role.other _ (by simp) (by simp), heffect.social.other _ (by simp)]
  · rw [Db.get, heffect.role.other _ (by simp) (by simp), heffect.social.other _ (by simp), Db.get]

lemma SerialStep.tokenUsersExist {settings : AccountSettings} {call : AccountCall}
    (hstep : SerialStep settings call before after) (h : TokenUsersExist before) :
    TokenUsersExist after := by
  -- Most commits leave users and tokens alone.
  have hsame : after .user = before .user → after .refreshToken = before .refreshToken →
      TokenUsersExist after := by
    intro huser htoken
    exact h.of_users (fun id hsome => by rwa [Db.get, huser])
      fun κ => by rw [Db.get, htoken, Db.get]
  cases hstep with
  | unchanged effect =>
    exact h.of_users (fun id hsome => by rwa [effect]) (effect .refreshToken)
  | registered _ user credential =>
    refine (h.inserted user).of_users (fun id hsome => ?_) (credential.get_other (by simp))
    rwa [credential.get_other (by simp)]
  | pendingUpserted _ _ effect => exact hsame (effect.other _ (by simp)) (effect.other _ (by simp))
  | tokenCreated effect => exact hsame (effect.other _ (by simp)) (effect.other _ (by simp))
  | tokenUsed effect same =>
    refine h.of_users (fun id hsome => ?_) fun κ => ?_
    · rwa [same, effect.get_other (by simp)]
    · rw [same, effect.get_other (by simp)]
  | activated effect =>
    have hused := h.of_users (fun id hsome => by
      rwa [effect.token.get_other (by simp)]) (effect.token.get_other (by simp))
    refine (hused.activated (accountActivated_of_cascade effect.user effect.children)).of_users
      (fun id hsome => ?_) fun κ => ?_
    · rwa [Db.get, effect.role.other _ (by simp) (by simp)]
    · rw [Db.get, effect.role.other _ (by simp) (by simp), Db.get]
  | attached _ _ _ effect =>
    refine h.of_users (fun id hsome => ?_) fun κ => ?_
    · rwa [effect.pending.get_other (by simp), effect.credential.get_other (by simp),
        effect.token.get_other (by simp)]
    · rw [effect.pending.get_other (by simp), effect.credential.get_other (by simp),
        effect.token.get_other (by simp)]
  | linked effect => exact hsame (effect.other _ (by simp)) (effect.other _ (by simp))
  | created _ effect => exact h.creation effect
  | replaced _ _ _ removal effect =>
    exact (h.removed removal.lookup
      fun κ => removal.child_lookup (by simp [childTables]) κ).creation effect
  | userStatusSet _ effect tokens only =>
    have hstep : SessionStep (fun _ => false) before after :=
      ⟨effect.isSome, fun id r hr => by rw [only.get (by simp), hr], tokens.step _⟩
    exact hstep.tokenUsersExist h

end WiseacctSso
