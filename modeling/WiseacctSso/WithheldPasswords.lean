import WiseacctSso.MaintainedRuns

/-!
# Passwords of suspended accounts

Suspending or deleting an account leaves its password where it is. No call hands it to an
ACTIVE user, but a merge does.
-/
namespace WiseacctSso
open ReadCommitted MergeSplitIdentities OAuthIdentityStore

/-- The hash is that of a credential or of a pending credential of the user. -/
def HoldsHash (hash : String) (db : Db store) (userId : String) : Prop :=
  (∃ κ c, db.get .passwordCredential κ = some c ∧ c.userId = userId ∧ c.passwordHash = hash) ∨
    ∃ κ p, db.get .pendingPasswordCredential κ = some p ∧ p.userId = userId ∧
      p.passwordHash = hash

def Barred (db : Db store) (userId : String) : Prop :=
  ∃ u : User, db.get .user userId = some u ∧ (u.status = .suspended ∨ u.status = .deleted)

/-- Only the named users have the hash, and they are SUSPENDED or DELETED. -/
def Withheld (users : Set String) (hash : String) (db : Db store) : Prop :=
  ∀ userId, HoldsHash hash db userId → userId ∈ users ∧ Barred db userId

variable {lower : String → String} {users : Set String} {hash : String} {before after : Db store}

lemma Withheld.step (h : Withheld users hash before)
    (hstep : ∀ userId, HoldsHash hash after userId → HoldsHash hash before userId ∧
      (userId ∈ users → Barred before userId → Barred after userId)) :
    Withheld users hash after := by
  intro userId hafter
  obtain ⟨hbefore, hbarred⟩ := hstep userId hafter
  obtain ⟨hmem, hbar⟩ := h userId hbefore
  exact ⟨hmem, hbarred hmem hbar⟩

lemma holdsHash_of_same (hcredential : ∀ κ, after.get .passwordCredential κ =
      before.get .passwordCredential κ)
    (hpending : ∀ κ, after.get .pendingPasswordCredential κ =
      before.get .pendingPasswordCredential κ) (userId : String)
    (h : HoldsHash hash after userId) : HoldsHash hash before userId := by
  rcases h with ⟨κ, c, hc, hhash⟩ | ⟨κ, p, hp, hhash⟩
  · exact .inl ⟨κ, c, (hcredential κ).symm.trans hc, hhash⟩
  · exact .inr ⟨κ, p, (hpending κ).symm.trans hp, hhash⟩

lemma barred_of_kept {userId : String} (h : Barred before userId)
    (hkept : ∀ u, before.get .user userId = some u → after.get .user userId = some u) :
    Barred after userId := by
  obtain ⟨u, hu, hstatus⟩ := h
  exact ⟨u, hkept u hu, hstatus⟩

lemma barred_of_status {userId target : String} {status : UserStatus} (h : Barred before userId)
    (heffect : UserStatusSet target status before after)
    (hstatus : userId = target → status = .suspended ∨ status = .deleted) :
    Barred after userId := by
  obtain ⟨u, hu, hbarred⟩ := h
  have hafter := heffect userId
  rw [hu] at hafter
  split at hafter
  · next htarget => exact ⟨_, hafter, hstatus htarget⟩
  · exact ⟨u, hafter, hbarred⟩

/-! ## What may release a hash -/

/-- A call that stores the hash again, or makes one of the users anything but SUSPENDED or
DELETED. -/
inductive MaintainedAct.Releases (lower : String → String) (users : Set String)
    (hash : String) (db : Db store) : MaintainedAct → Prop
  | registered {input : RegisterInput} {draws : RegisterDraws} {acts : List (Act store)}
      (drawn : draws.passwordHash = hash) :
      Releases lower users hash db (.account (.register input draws) acts)
  | statusSet {actor target : String} {status : UserStatus} {now : Timestamp}
      {acts : List (Act store)} (mem : target ∈ users)
      (status_ne : ¬ (status = .suspended ∨ status = .deleted)) :
      Releases lower users hash db (.account (.setUserStatus actor target status now) acts)
  | passwordReset {calls : ℕ → SessionCall} {redis : RedisState} {acts : List (Act store)} {t : ℕ}
      {tokenHash : String} {now : Timestamp}
      (call : calls t = .confirmPasswordReset tokenHash hash now) :
      Releases lower users hash db (.sessions calls redis acts)
  | sessionStatusSet {calls : ℕ → SessionCall} {redis : RedisState} {acts : List (Act store)}
      {t : ℕ} {actor target : String} {status : UserStatus} {now : Timestamp}
      (call : calls t = .admin actor (.setUserStatus target status now)) (mem : target ∈ users)
      (status_ne : ¬ (status = .suspended ∨ status = .deleted)) :
      Releases lower users hash db (.sessions calls redis acts)
  | merged {auditLog : List (String × AuditLogRow)} {auditId : String}
      {c : SplitAccountCandidate} {κ : String} {pc : PasswordCredential} (split : Split lower db c)
      (found : db.get .passwordCredential κ = some pc) (owner : pc.userId = c.passwordUserId)
      (hash_eq : pc.passwordHash = hash) : Releases lower users hash db (.merge auditLog auditId c)

/-! ## One step -/

/-- The commit touches no user, no credential and no pending one. -/
lemma Withheld.of_same (h : Withheld users hash before)
    (hsame : ∀ T ∈ [Table.user, .passwordCredential, .pendingPasswordCredential],
      ∀ κ, after.get T κ = before.get T κ) : Withheld users hash after := by
  refine h.step fun userId hafter => ⟨?_, fun _ hbarred => ?_⟩
  · exact holdsHash_of_same (hsame _ (by simp)) (hsame _ (by simp)) userId hafter
  · exact barred_of_kept hbarred fun u hu => (hsame _ (by simp) userId).trans hu

lemma Withheld.of_only (h : Withheld users hash before) {Ts : List Table}
    (honly : OnlyTables Ts before after)
    (hother : ∀ T ∈ [Table.user, .passwordCredential, .pendingPasswordCredential], T ∉ Ts) :
    Withheld users hash after :=
  h.of_same fun T hT κ => honly.get (hother T hT) κ

/-- A status change leaves the named users SUSPENDED or DELETED. -/
lemma Withheld.of_status (h : Withheld users hash before) {target : String} {status : UserStatus}
    (hstatus : target ∈ users → status = .suspended ∨ status = .deleted)
    (heffect : UserStatusSet target status before after)
    (hcredential : ∀ κ, after.get .passwordCredential κ = before.get .passwordCredential κ)
    (hpending : ∀ κ, after.get .pendingPasswordCredential κ =
      before.get .pendingPasswordCredential κ) : Withheld users hash after := by
  refine h.step fun id hafter => ⟨?_, fun hmem hbarred => ?_⟩
  · exact holdsHash_of_same hcredential hpending id hafter
  · exact barred_of_status hbarred heffect fun htarget => hstatus (htarget ▸ hmem)

lemma Withheld.activated (h : Withheld users hash before) {userId activatedId : String} {u : User}
    (hmoved : AccountActivated userId activatedId u before after) : Withheld users hash after := by
  -- The activated user is PENDING, so it holds no withheld hash.
  have hother : ∀ id, HoldsHash hash before id → id ≠ userId := by
    rintro id hholds rfl
    obtain ⟨u', hu', hstatus⟩ := (h id hholds).2
    obtain rfl := Option.some.inj (hu'.symm.trans hmoved.found)
    simp [hmoved.pending] at hstatus
  have hbefore : ∀ id, HoldsHash hash after id → HoldsHash hash before id := by
    rintro id (⟨κ, c, hc, rfl, hhash⟩ | ⟨κ, p, hp, rfl, hhash⟩)
    · rw [hmoved.child _ (by simp [childTables])] at hc
      obtain ⟨c₀, hc₀, rfl⟩ := Option.map_eq_some_iff.mp hc
      have hsame : c₀.passwordHash = hash := by
        rw [← hhash]
        split <;> rfl
      have hne := hother _ (.inl ⟨κ, c₀, hc₀, rfl, hsame⟩)
      simp only [Table.owner, Option.some.injEq, hne, if_false]
      exact .inl ⟨κ, c₀, hc₀, rfl, hsame⟩
    · rw [hmoved.child _ (by simp [childTables])] at hp
      obtain ⟨p₀, hp₀, rfl⟩ := Option.map_eq_some_iff.mp hp
      have hsame : p₀.passwordHash = hash := by
        rw [← hhash]
        split <;> rfl
      have hne := hother _ (.inr ⟨κ, p₀, hp₀, rfl, hsame⟩)
      simp only [Table.owner, Option.some.injEq, hne, if_false]
      exact .inr ⟨κ, p₀, hp₀, rfl, hsame⟩
  refine h.step fun id hafter => ⟨hbefore id hafter, fun _ hbarred => ?_⟩
  exact barred_of_kept hbarred fun u' hu' => hmoved.user_kept (hother id (hbefore id hafter)) hu'

lemma Withheld.removed (h : Withheld users hash before) {userId : String} {u : User}
    (hpending : u.status = .pendingEmailVerification)
    (hremoved : UserRemoved userId u childTables before after) : Withheld users hash after := by
  refine h.step fun id hafter => ?_
  have hbefore : HoldsHash hash before id := by
    rcases hafter with ⟨κ, c, hc, hrest⟩ | ⟨κ, p, hp, hrest⟩
    · rw [hremoved.child_lookup (by simp [childTables]), Option.filter_eq_some_iff] at hc
      exact .inl ⟨κ, c, hc.1, hrest⟩
    · rw [hremoved.child_lookup (by simp [childTables]), Option.filter_eq_some_iff] at hp
      exact .inr ⟨κ, p, hp.1, hrest⟩
  refine ⟨hbefore, fun _ hbarred => barred_of_kept hbarred fun u' hu' => ?_⟩
  have hne : id ≠ userId := by
    rintro rfl
    obtain ⟨u₀, hu₀, hstatus⟩ := hbarred
    obtain rfl := Option.some.inj (hu₀.symm.trans hremoved.found)
    simp [hpending] at hstatus
  rw [hremoved.lookup, if_neg hne, hu']

lemma Withheld.creation (h : Withheld users hash before) {userId socialId : String} {u : User}
    {social : SocialAccount} {role : Role} {created linked : Db store}
    (heffect : Creation userId socialId u social role before created linked after) :
    Withheld users hash after := by
  have hother : ∀ T, T ∉ [Table.user, .socialAccount, .role, .userRole] → ∀ κ,
      after.get T κ = before.get T κ := fun T hT κ => by rw [Db.get, heffect.other hT, Db.get]
  refine h.step fun id hafter => ⟨?_, fun _ hbarred => ?_⟩
  · exact holdsHash_of_same (hother _ (by simp)) (hother _ (by simp)) id hafter
  · exact barred_of_kept hbarred fun u' hu' => heffect.keeps hu'

lemma SerialStep.withheld {settings : AccountSettings} {call : AccountCall}
    (hregister : ∀ input draws, call = .register input draws → draws.passwordHash ≠ hash)
    (hstatus : ∀ actor target status now, call = .setUserStatus actor target status now →
      target ∈ users → status = .suspended ∨ status = .deleted)
    (hstep : SerialStep settings call before after) (h : Withheld users hash before) :
    Withheld users hash after := by
  cases hstep with
  | unchanged effect => exact h.of_same fun T _ κ => effect T κ
  | registered call_eq user credential =>
    refine h.step fun id hafter => ⟨?_, fun _ hbarred => barred_of_kept hbarred fun u hu => ?_⟩
    · rcases hafter with ⟨κ, c, hc, howner, hhash⟩ | ⟨κ, p, hp, hrest⟩
      · rw [credential.lookup] at hc
        split at hc
        · obtain rfl := Option.some.inj hc
          exact absurd hhash (hregister _ _ call_eq)
        · rw [user.get_other (by simp)] at hc
          exact .inl ⟨κ, c, hc, howner, hhash⟩
      · rw [credential.get_other (by simp), user.get_other (by simp)] at hp
        exact .inr ⟨κ, p, hp, hrest⟩
    · exact credential.keepsAll (user.keepsAll hu)
  | pendingUpserted call_eq found effect =>
    have hother : ∀ T, T ≠ .pendingPasswordCredential → ∀ κ, after.get T κ = before.get T κ :=
      fun T hT κ => by rw [Db.get, effect.other T hT, Db.get]
    refine h.step fun id hafter => ⟨?_, fun _ hbarred => barred_of_kept hbarred fun u hu => ?_⟩
    · rcases hafter with ⟨κ, c, hc, hrest⟩ | ⟨κ, p, hp, howner, hhash⟩
      · exact .inl ⟨κ, c, (hother _ (by simp) κ).symm.trans hc, hrest⟩
      · rcases effect.kept κ p hp with hp' | rfl
        · exact .inr ⟨κ, p, hp', howner, hhash⟩
        · exact absurd hhash (hregister _ _ call_eq)
    · exact (hother _ (by simp) id).trans hu
  | tokenCreated effect =>
    exact h.of_same fun T hT κ => effect.get_other (by rintro rfl; simp at hT) κ
  | tokenUsed effect same =>
    refine h.of_same fun T hT κ => (same T κ).trans (effect.get_other ?_ κ)
    rintro rfl
    simp at hT
  | activated effect =>
    have hused := h.of_same fun T hT κ => effect.token.get_other (by rintro rfl; simp at hT) κ
    refine (hused.activated (accountActivated_of_cascade effect.user effect.children)).of_same
      fun T hT κ => ?_
    rw [Db.get, effect.role.other T (by rintro rfl; simp at hT) (by rintro rfl; simp at hT), Db.get]
  | @attached tokenId userId credentialId κ₀ now pending token used attached found owner notPending
      effect =>
    refine h.step fun id hafter => ⟨?_, fun _ hbarred => barred_of_kept hbarred fun u hu => ?_⟩
    · rcases hafter with ⟨κ, c, hc, howner, hhash⟩ | ⟨κ, p, hp, hrest⟩
      · rw [effect.pending.get_other (by simp), effect.credential.lookup] at hc
        split at hc
        · obtain rfl := Option.some.inj hc
          exact .inr ⟨κ₀, pending, found, howner, hhash⟩
        · rw [effect.token.get_other (by simp)] at hc
          exact .inl ⟨κ, c, hc, howner, hhash⟩
      · rcases effect.pending.row κ with hsame | ⟨hnone, -⟩
        · rw [hsame, effect.credential.get_other (by simp), effect.token.get_other (by simp)] at hp
          exact .inr ⟨κ, p, hp, hrest⟩
        · rw [hnone] at hp
          simp at hp
    · rw [effect.pending.get_other (by simp), effect.credential.get_other (by simp),
        effect.token.get_other (by simp), hu]
  | linked effect => exact h.of_same fun T hT κ => effect.get_other (by rintro rfl; simp at hT) κ
  | created _ effect => exact h.creation effect
  | replaced pending _ _ removal effect => exact (h.removed pending removal).creation effect
  | userStatusSet call_eq effect _ only =>
    exact h.of_status (hstatus _ _ _ _ call_eq) effect (only.get (by simp)) (only.get (by simp))

/-- Credentials keep their owners, and their hashes unless they are given another one. -/
lemma holdsHash_of_changed {userId : String}
    {change : PasswordCredential → PasswordCredential → Prop}
    (hchange : ∀ c c', change c c' → c'.userId = c.userId ∧
      (c'.passwordHash = hash → c.passwordHash = hash))
    (heffect : CredentialsChanged userId change before after)
    (hpending : ∀ κ, after.get .pendingPasswordCredential κ =
      before.get .pendingPasswordCredential κ) (id : String) (h : HoldsHash hash after id) :
    HoldsHash hash before id := by
  rcases h with ⟨κ, c, hc, howner, hhash⟩ | ⟨κ, p, hp, hrest⟩
  · rcases heffect κ with hsame | ⟨c₀, c', hc₀, -, hc', hafter⟩
    · exact .inl ⟨κ, c, hsame.symm.trans hc, howner, hhash⟩
    · obtain rfl := Option.some.inj (hafter.symm.trans hc)
      obtain ⟨howner', hhash'⟩ := hchange c₀ c' hc'
      exact .inl ⟨κ, c₀, hc₀, howner'.symm.trans howner, hhash' hhash⟩
  · exact .inr ⟨κ, p, (hpending κ).symm.trans hp, hrest⟩

lemma Withheld.of_changed (h : Withheld users hash before) {userId : String}
    {change : PasswordCredential → PasswordCredential → Prop}
    (hchange : ∀ c c', change c c' → c'.userId = c.userId ∧
      (c'.passwordHash = hash → c.passwordHash = hash))
    (heffect : CredentialsChanged userId change before after)
    (huser : ∀ κ, after.get .user κ = before.get .user κ)
    (hpending : ∀ κ, after.get .pendingPasswordCredential κ =
      before.get .pendingPasswordCredential κ) : Withheld users hash after := by
  refine h.step fun id hafter => ⟨?_, fun _ hbarred => barred_of_kept hbarred fun u hu => ?_⟩
  · exact holdsHash_of_changed hchange heffect hpending id hafter
  · exact (huser id).trans hu

lemma SessionCommit.withheld {settings : AuthSettings} {calls : ℕ → SessionCall} {t : ℕ}
    {log : Log store} {held : Lock store → Bool} {report : Report}
    (hreset : ∀ tokenHash now, calls t ≠ .confirmPasswordReset tokenHash hash now)
    (hstatus : ∀ actor target status now,
      calls t = .admin actor (.setUserStatus target status now) →
      target ∈ users → status = .suspended ∨ status = .deleted)
    (hcommit : SessionCommit settings calls log t held after report)
    (h : Withheld users hash log.db) : Withheld users hash after := by
  cases hcommit with
  | rotated _ _ _ _ _ _ effect => exact h.of_only effect.only (by simp)
  | tokenIssued _ _ _ effect => exact h.of_only effect.only (by simp)
  | refused _ effect => exact effect ▸ h
  | loggedOut _ _ only => exact h.of_only only (by simp)
  | userStatusSet call _ effect _ only =>
    exact h.of_status (hstatus _ _ _ _ call) effect (only.get (by simp)) (only.get (by simp))
  | roleAssigned _ _ only => exact h.of_only only (by simp)
  | roleRemoved _ _ _ _ only => exact h.of_only only (by simp)
  | sessionsRevoked _ _ _ only => exact h.of_only only (by simp)
  | passwordResetRequested only => exact h.of_only only (by simp)
  | passwordResetRefused only => exact h.of_only only (by simp)
  | @passwordReset tokenHash passwordHash _ now call effect _ _ only =>
    refine h.of_changed (fun c c' hc => ?_) effect (only.get (by simp)) (only.get (by simp))
    subst hc
    refine ⟨rfl, fun heq => absurd call ?_⟩
    rw [show passwordHash = hash from heq]
    exact hreset tokenHash now
  | loginSucceeded _ _ effect only =>
    exact h.of_changed (fun c c' hc => by rw [hc]; exact ⟨rfl, fun heq => heq⟩) effect
      (only.get (by simp)) (only.get (by simp))
  | loginFailureRecorded _ _ effect only =>
    exact h.of_changed (fun c c' hc => by rw [hc]; exact ⟨rfl, fun heq => heq⟩) effect
      (only.get (by simp)) (only.get (by simp))

lemma Withheld.merged (h : Withheld users hash before) {c : SplitAccountCandidate}
    (hsplit : Split lower before c)
    (hother : ∀ κ pc, before.get .passwordCredential κ = some pc → pc.userId = c.passwordUserId →
      pc.passwordHash ≠ hash)
    (heffect : Merged c before after) : Withheld users hash after := by
  refine h.step fun id hafter => ?_
  -- Who holds the hash afterwards held it before, and is not the user that is deleted.
  have hbefore : HoldsHash hash before id ∧ id ≠ c.passwordUserId := by
    rcases hafter with ⟨κ, pc, hpc, rfl, hhash⟩ | ⟨κ, p, hp, rfl, hhash⟩
    · rw [heffect.credential] at hpc
      obtain ⟨pc₀, hpc₀, rfl⟩ := Option.map_eq_some_iff.mp hpc
      by_cases howner : pc₀.userId = c.passwordUserId
      · rw [if_pos howner] at hhash
        exact absurd hhash (hother κ pc₀ hpc₀ howner)
      · rw [if_neg howner] at hhash ⊢
        exact ⟨.inl ⟨κ, pc₀, hpc₀, rfl, hhash⟩, howner⟩
    · rw [heffect.child _ (by simp [childTables]) (by simp), Option.filter_eq_some_iff] at hp
      exact ⟨.inr ⟨κ, p, hp.1, rfl, hhash⟩, by simpa [Table.owner] using hp.2⟩
  refine ⟨hbefore.1, fun _ hbarred => barred_of_kept hbarred fun u hu => ?_⟩
  have hne : id ≠ c.canonicalUserId := by
    rintro rfl
    obtain ⟨u₀, hu₀, hstatus⟩ := hbarred
    obtain ⟨canonical, hcanonical, hactive, -⟩ := hsplit.canonical
    obtain rfl := Option.some.inj (hu₀.symm.trans hcanonical)
    simp [hactive] at hstatus
  rw [heffect.user_other hbefore.2 hne, hu]

/-! ## Runs -/

variable {settings : AccountSettings} {db db' : Db store} {act : MaintainedAct}
  {acts : List MaintainedAct}

lemma withheld_act (hlower : ∀ s, lower (lower s) = lower s)
    (hact : ¬ act.Releases lower users hash db) (hkept : Kept db) (h : Withheld users hash db)
    (hrun : act.run settings lower db = some db') : Withheld users hash db' := by
  cases act with
  | account call steps =>
    have hregister : ∀ input draws, call = .register input draws → draws.passwordHash ≠ hash := by
      rintro input draws rfl hdrawn
      exact hact (.registered hdrawn)
    have hstatus : ∀ actor target status now, call = .setUserStatus actor target status now →
        target ∈ users → status = .suspended ∨ status = .deleted := by
      rintro actor target status now rfl hmem
      by_contra hne
      exact hact (.statusSet hmem hne)
    exact (account_act hkept.unique hrun
      (fun before after hstep _ => hstep.withheld hregister hstatus) h).1
  | sessions calls redis steps =>
    refine (session_act hkept.unique hkept.tokens hrun
      (fun log t held after report hcommit hlog => hcommit.withheld ?_ ?_ hlog) h).1
    · exact fun tokenHash now hcall => hact (.passwordReset hcall)
    · intro actor target status now hcall hmem
      by_contra hne
      exact hact (.sessionStatusSet hcall hmem hne)
  | merge auditLog auditId c =>
    rcases merge_act hlower hkept.unique hrun with rfl | ⟨hsplit, heffect⟩
    · exact h
    · exact h.merged hsplit
        (fun κ pc hpc howner hhash => hact (.merged hsplit hpc howner hhash)) heffect

/-- No act of the run releases the hash in the state it starts from. -/
def Unreleased (settings : AccountSettings) (lower : String → String) (users : Set String)
    (hash : String) : List MaintainedAct → Db store → Prop
  | [], _ => True
  | act :: acts, db => ¬ act.Releases lower users hash db ∧
      ∀ mid, act.run settings lower db = some mid → Unreleased settings lower users hash acts mid

/-- The password of SUSPENDED and DELETED users stays with them until an act releases it: one
that stores the same hash, lifts their status, or merges their account with a Google user's. -/
theorem withheld_run (hlower : ∀ s, lower (lower s) = lower s) (hkept : Kept db)
    (hdb : Withheld users hash db) (hacts : Unreleased settings lower users hash acts db)
    (hrun : maintainedRun settings lower acts db = some db') : Withheld users hash db' := by
  induction acts generalizing db with
  | nil =>
    obtain rfl := Option.some.inj hrun
    exact hdb
  | cons act acts ih =>
    obtain ⟨mid, hact, hrest⟩ := maintainedRun_cons.mp hrun
    exact ih (kept_act hlower hkept hact) (withheld_act hlower hacts.1 hkept hdb hact)
      (hacts.2 mid hact) hrest

/-- Carol is suspended, and her password is hers alone. -/
lemma rivalAccounts_withheld : Withheld {"carol"} "hash" rivalAccounts.db := by
  have hcredential : ∀ x ∈ (rivalAccounts.db .passwordCredential).entries,
      x.2.userId = "carol" := by decide +kernel
  have hpending : ∀ x ∈ (rivalAccounts.db .pendingPasswordCredential).entries,
      x.2.userId = "carol" := by decide +kernel
  have hbarred : Barred rivalAccounts.db "carol" :=
    ⟨⟨some "c@example.com", none, none, .suspended, true⟩, by decide +kernel, .inl rfl⟩
  rintro userId (⟨κ, c, hc, rfl, -⟩ | ⟨κ, p, hp, rfl, -⟩)
  · have howner : c.userId = "carol" := (forall_get_iff (Γ := store) (T := .passwordCredential)
      (P := fun _ (c : PasswordCredential) => c.userId = "carol")).mpr hcredential κ c hc
    rw [howner]
    exact ⟨rfl, hbarred⟩
  · have howner : p.userId = "carol" :=
      (forall_get_iff (Γ := store) (T := .pendingPasswordCredential)
        (P := fun _ (p : PendingPasswordCredential) => p.userId = "carol")).mpr hpending κ p hp
    rw [howner]
    exact ⟨rfl, hbarred⟩

lemma rivalAccounts_kept : Kept rivalAccounts.db := ⟨by decide +kernel, by decide +kernel⟩

/-- Carol comes back with a Google account, which gets a user without her password. -/
def carolSignsIn : MaintainedAct :=
  .account (googleSignIn "g9" "c@example.com" "ann") ([.call 0] ++ steps 0 13)

theorem withheld_run_example :
    ∃ db, maintainedRun plainAccountSettings id [carolSignsIn] rivalAccounts.db = some db ∧
      (db.get .user "ann").map (·.status) = some .active ∧ Withheld {"carol"} "hash" db := by
  have hsome : (maintainedRun plainAccountSettings id [carolSignsIn] rivalAccounts.db).any
      (fun db => (db.get .user "ann").map (·.status) = some .active) = true := by
    decide +kernel
  obtain ⟨db, hrun, hdb⟩ := (Option.any_eq_true _ _).mp hsome
  have hquiet : Unreleased plainAccountSettings id {"carol"} "hash" [carolSignsIn]
      rivalAccounts.db := by
    refine ⟨?_, fun _ _ => trivial⟩
    rintro ⟨⟩
  exact ⟨db, hrun, of_decide_eq_true hdb, withheld_run (fun _ => rfl) rivalAccounts_kept
    rivalAccounts_withheld hquiet hrun⟩

/-- A merge that takes place gives the hash to an ACTIVE user exactly if it releases it. -/
theorem merge_releases_iff (hlower : ∀ s, lower (lower s) = lower s) (hkept : Kept db)
    (hdb : Withheld users hash db) {auditLog : List (String × AuditLogRow)} {auditId : String}
    {c : SplitAccountCandidate} (hfree : Unclaimed db c) (hfresh : Fresh auditId auditLog)
    (hrun : (MaintainedAct.merge auditLog auditId c).run settings lower db = some db') :
    (∃ κ pc u, db'.get .passwordCredential κ = some pc ∧ pc.passwordHash = hash ∧
      db'.get .user pc.userId = some u ∧ u.status = .active) ↔
        (MaintainedAct.merge auditLog auditId c).Releases lower users hash db := by
  constructor
  · rintro ⟨κ, pc, u, hpc, hhash, hu, hactive⟩
    by_contra hnot
    obtain ⟨-, u', hu', hstatus⟩ := withheld_act hlower hnot hkept hdb hrun pc.userId
      (.inl ⟨κ, pc, hpc, rfl, hhash⟩)
    obtain rfl := Option.some.inj (hu.symm.trans hu')
    simp [hactive] at hstatus
  · intro hreleases
    cases hreleases with
    | @merged _ _ _ κ pc hsplit hfound howner hhash =>
      obtain ⟨after, hmerge, heffect⟩ := mergeCandidate_merged (m := ⟨db, auditLog⟩) hlower
        hkept.unique hsplit hfree hfresh
      obtain rfl : after = db' := by simpa [MaintainedAct.run, hmerge] using hrun
      obtain ⟨u, hu, hactive, -⟩ := hsplit.canonical
      refine ⟨κ, { pc with userId := c.canonicalUserId },
        { u with email := some c.email, emailVerified := true }, ?_, hhash, ?_, hactive⟩
      · rw [heffect.credential, hfound, Option.map_some, if_pos howner]
      · rw [heffect.user, if_neg hsplit.distinct, if_pos rfl, hu, Option.map_some]

/-- Bob's account is merged with Carol's password, although Carol is suspended. -/
theorem merge_releases_iff_example :
    ∃ db, (MaintainedAct.merge [] "a0" bobCandidate).run plainAccountSettings id rivalAccounts.db =
        some db ∧
      ∃ κ pc u, db.get .passwordCredential κ = some pc ∧ pc.passwordHash = "hash" ∧
        db.get .user pc.userId = some u ∧ u.status = .active := by
  have hmem : bobCandidate ∈ candidateSelect id rivalAccounts.db none := by decide +kernel
  have hfree : Unclaimed rivalAccounts.db bobCandidate :=
    (forall_get_iff (Γ := store) (T := .user) (P := fun id (u : User) =>
      u.email = some bobCandidate.email → id = bobCandidate.passwordUserId ∨
        id = bobCandidate.canonicalUserId)).mpr (by decide +kernel)
  have hsome : ((MaintainedAct.merge [] "a0" bobCandidate).run plainAccountSettings id
      rivalAccounts.db).isSome = true := by decide +kernel
  obtain ⟨db, hrun⟩ := Option.isSome_iff_exists.mp hsome
  refine ⟨db, hrun, (merge_releases_iff (fun _ => rfl) rivalAccounts_kept rivalAccounts_withheld
    hfree (by simp [Fresh]) hrun).mpr ?_⟩
  have hfound : rivalAccounts.db.get .passwordCredential "p0" =
      some ⟨"carol", "c@example.com", "hash", 0, none⟩ := by decide +kernel
  exact .merged (mem_candidateSelect.mp hmem).1 hfound rfl rfl

end WiseacctSso
