import WiseacctSso.AccountGuarantee

/-!
# Single rows across one commit

What one commit of an account call may make of a user, of a provider's account, of a pending
credential and of a verification token.
-/
namespace WiseacctSso
open ReadCommitted

variable {settings : AccountSettings} {calls : ℕ → AccountCall}

/-- A callback confirms no email. -/
lemma AccountCommit.not_callback {log : Log store} {t : ℕ} {held : Lock store → Bool}
    {after : Db store} {confirmed : Option String}
    (h : AccountCommit settings calls log t held after (.emailConfirmed confirmed))
    {clientId : String} {rawUser : ProviderUser} {ids : OAuthIds} :
    calls t ≠ .oauthCallback clientId rawUser ids := by
  intro hcall
  cases h with
  | unchanged _ report_eq => simp at report_eq
  | confirmRefused call _ => simp [call] at hcall
  | confirmConflicted call _ _ _ _ _ _ _ _ _ => simp [call] at hcall
  | activated call _ _ _ _ _ _ _ _ => simp [call] at hcall
  | attached call _ _ _ _ _ _ _ _ _ _ => simp [call] at hcall

/-- A commit keeps a user's row, or it brings the row in or settles it, and reports its id. -/
inductive UserStep (before : Db store) (report : Report) (id : String) (u : User) : Prop
  | same (found : before.get .user id = some u)
  | registered (pending : u.status = .pendingEmailVerification)
      (unverified : u.emailVerified = false) (report : report = .registered id)
  | activated (active : u.status = .active) (report : report = .emailConfirmed (some id))
  | signedIn (active : u.status = .active) (report : report = .oauthResolved id)
  | statusSet {u₀ : User} {status : UserStatus} (found : before.get .user id = some u₀)
      (row : { u₀ with status := status } = u) (report : report = .userStatusSet id status)

lemma Creation.userStep {userId socialId : String} {user : User} {social : SocialAccount}
    {role : Role} {before created linked after : Db store}
    (h : Creation userId socialId user social role before created linked after)
    (hactive : user.status = .active) {id : String} {u : User} (hu : after.get .user id = some u) :
    UserStep before (.oauthResolved userId) id u := by
  have hcreated : created.get .user id = some u := by
    rw [← hu, Db.get, Db.get, h.role.other _ (by simp) (by simp), h.social.other _ (by simp)]
  rw [h.user.lookup] at hcreated
  split at hcreated
  · next hid =>
    obtain rfl := Option.some.inj hcreated
    exact .signedIn hactive (by rw [hid])
  · exact .same hcreated

lemma AccountCommit.userStep {log : Log store} {t : ℕ} {held : Lock store → Bool}
    {after : Db store} {report : Report} (h : AccountCommit settings calls log t held after report)
    {id : String} {u : User} (hu : after.get .user id = some u) : UserStep log.db report id u := by
  cases h with
  | unchanged effect _ => exact .same (effect ▸ hu)
  | pendingUpserted _ effect =>
    rw [Db.get, effect.other _ (by simp)] at hu
    exact .same hu
  | registered _ _ user credential =>
    rw [credential.get_other (by simp), user.lookup] at hu
    split at hu
    · next hid =>
      obtain rfl := Option.some.inj hu
      exact .registered rfl rfl (by rw [hid])
    · exact .same hu
  | verificationTokenCreated _ effect _ _ =>
    exact .same ((effect.get_other (by simp) id).symm.trans hu)
  | confirmRefused _ effect => exact .same ((effect _ _).symm.trans hu)
  | confirmConflicted _ _ _ _ _ _ _ _ effect same =>
    rw [same, effect.get_other (by simp)] at hu
    exact .same hu
  | activated _ _ _ _ _ _ _ _ effect =>
    rw [Db.get, effect.role.other _ (by simp) (by simp),
      effect.children.other _ (by simp [childTables])] at hu
    have hlookup := (effect.user.lookup id).symm.trans hu
    split_ifs at hlookup with hid
    · obtain rfl := Option.some.inj hlookup
      exact .activated rfl (by rw [hid])
    · rw [effect.token.get_other (by simp)] at hlookup
      exact .same hlookup
  | attached _ _ _ _ _ _ _ _ _ _ effect =>
    rw [effect.pending.get_other (by simp), effect.credential.get_other (by simp),
      effect.token.get_other (by simp)] at hu
    exact .same hu
  | linked _ effect => exact .same ((effect.get_other (by simp) id).symm.trans hu)
  | created _ _ _ _ effect => exact effect.userStep rfl hu
  | replaced _ _ _ _ _ _ _ _ _ removal effect =>
    cases effect.userStep rfl hu with
    | same found =>
      rw [removal.lookup] at found
      exact .same (Option.ite_none_left_eq_some.mp found).2
    | signedIn active report => exact .signedIn active report
    | registered _ _ report => simp at report
    | activated _ report => simp at report
    | statusSet _ _ report => simp at report
  | userStatusSet _ effect =>
    rcases effect.user id with hsame | ⟨rfl, u₀, hu₀, hset⟩
    · exact .same (hsame.symm.trans hu)
    · exact .statusSet hu₀ (Option.some.inj (hset.symm.trans hu)) rfl

/-- A commit keeps a provider's account, or it gives the account's user another id, or a
sign-in of that user brings the account in. -/
inductive SocialStep (before : Db store) (report : Report) (κ : String) (a : SocialAccount) : Prop
  | same (found : before.get .socialAccount κ = some a)
  | renamed (report : report = .emailConfirmed (some a.userId))
  | created (report : report = .oauthResolved a.userId)

lemma Creation.socialStep {userId socialId : String} {user : User} {social : SocialAccount}
    {role : Role} {before created linked after : Db store}
    (h : Creation userId socialId user social role before created linked after)
    (howner : social.userId = userId) {κ : String} {a : SocialAccount}
    (ha : after.get .socialAccount κ = some a) :
    SocialStep before (.oauthResolved userId) κ a := by
  rw [Db.get, h.role.other _ (by simp) (by simp)] at ha
  have hlookup := (h.social.lookup κ).symm.trans ha
  split at hlookup
  · obtain rfl := Option.some.inj hlookup
    exact .created (by rw [howner])
  · rw [h.user.get_other (by simp)] at hlookup
    exact .same hlookup

lemma AccountCommit.socialStep {log : Log store} {t : ℕ} {held : Lock store → Bool}
    {after : Db store} {report : Report} (h : AccountCommit settings calls log t held after report)
    {κ : String} {a : SocialAccount} (ha : after.get .socialAccount κ = some a) :
    SocialStep log.db report κ a := by
  cases h with
  | unchanged effect _ => exact .same (effect ▸ ha)
  | pendingUpserted _ effect =>
    rw [Db.get, effect.other _ (by simp)] at ha
    exact .same ha
  | registered _ _ user credential =>
    rw [credential.get_other (by simp), user.get_other (by simp)] at ha
    exact .same ha
  | verificationTokenCreated _ effect _ _ =>
    exact .same ((effect.get_other (by simp) κ).symm.trans ha)
  | confirmRefused _ effect => exact .same ((effect _ _).symm.trans ha)
  | confirmConflicted _ _ _ _ _ _ _ _ effect same =>
    rw [same, effect.get_other (by simp)] at ha
    exact .same ha
  | activated _ _ _ _ _ _ _ _ effect =>
    rcases effect.child (T := .socialAccount) (by simp [childTables]) (by simp) (by simp) κ with
      hsame | ⟨a₀, -, -, hmoved⟩
    · exact .same (hsame.symm.trans ha)
    · obtain rfl := Option.some.inj (hmoved.symm.trans ha)
      exact .renamed rfl
  | attached _ _ _ _ _ _ _ _ _ _ effect =>
    rw [effect.pending.get_other (by simp), effect.credential.get_other (by simp),
      effect.token.get_other (by simp)] at ha
    exact .same ha
  | linked _ effect =>
    rw [effect.lookup] at ha
    split at ha
    · obtain rfl := Option.some.inj ha
      exact .created rfl
    · exact .same ha
  | created _ _ _ _ effect => exact effect.socialStep rfl ha
  | replaced _ _ _ _ _ _ _ _ _ removal effect =>
    cases effect.socialStep rfl ha with
    | same found =>
      rcases removal.child .socialAccount (by simp [childTables]) κ with hsame | ⟨hnone, -⟩
      · exact .same (hsame.symm.trans found)
      · exact absurd (hnone.symm.trans found) (by simp)
    | renamed report => simp at report
    | created report => exact .created report
  | userStatusSet _ effect =>
    rw [Db.get, effect.other _ (by simp) (by simp)] at ha
    exact .same ha

/-- A commit keeps a pending credential, or it gives the row's user another id, or it
registers the row's user. -/
inductive PendingStep (before : Db store) (report : Report) (κ : String)
    (p : PendingPasswordCredential) : Prop
  | same (found : before.get .pendingPasswordCredential κ = some p)
  | renamed {p₀ : PendingPasswordCredential}
      (found : before.get .pendingPasswordCredential κ = some p₀)
      (row : { p₀ with userId := p.userId } = p) (report : report = .emailConfirmed (some p.userId))
  | registered (report : report = .registered p.userId)

lemma AccountCommit.pendingStep {log : Log store} {t : ℕ} {held : Lock store → Bool}
    {after : Db store} {report : Report} (h : AccountCommit settings calls log t held after report)
    {κ : String} {p : PendingPasswordCredential}
    (hp : after.get .pendingPasswordCredential κ = some p) : PendingStep log.db report κ p := by
  cases h with
  | unchanged effect _ => exact .same (effect ▸ hp)
  | pendingUpserted _ effect =>
    rcases effect.kept κ p hp with hbefore | rfl
    · exact .same hbefore
    · exact .registered rfl
  | registered _ _ user credential =>
    rw [credential.get_other (by simp), user.get_other (by simp)] at hp
    exact .same hp
  | verificationTokenCreated _ effect _ _ =>
    rw [effect.get_other (by simp)] at hp
    exact .same hp
  | confirmRefused _ effect => exact .same ((effect _ _).symm.trans hp)
  | confirmConflicted _ _ _ _ _ _ _ _ effect same =>
    rw [same, effect.get_other (by simp)] at hp
    exact .same hp
  | activated _ _ _ _ _ _ _ _ effect =>
    rcases effect.child (T := .pendingPasswordCredential) (by simp [childTables]) (by simp)
      (by simp) κ with hsame | ⟨p₀, hp₀, -, hmoved⟩
    · exact .same (hsame.symm.trans hp)
    · obtain rfl := Option.some.inj (hmoved.symm.trans hp)
      exact .renamed hp₀ rfl rfl
  | attached _ _ _ _ _ _ _ _ _ _ effect =>
    rcases effect.pending.row κ with hsame | ⟨hnone, -⟩
    · rw [hsame, effect.credential.get_other (by simp), effect.token.get_other (by simp)] at hp
      exact .same hp
    · exact absurd (hnone.symm.trans hp) (by simp)
  | linked _ effect =>
    rw [effect.get_other (by simp)] at hp
    exact .same hp
  | created _ _ _ _ effect =>
    rw [Db.get, effect.other (by simp)] at hp
    exact .same hp
  | replaced _ _ _ _ _ _ _ _ _ removal effect =>
    rw [Db.get, effect.other (by simp)] at hp
    rcases removal.child .pendingPasswordCredential (by simp [childTables]) κ with
      hsame | ⟨hnone, -⟩
    · exact .same (hsame.symm.trans hp)
    · exact absurd (hnone.symm.trans hp) (by simp)
  | userStatusSet _ effect =>
    rw [Db.get, effect.other _ (by simp) (by simp)] at hp
    exact .same hp

/-- A commit keeps a verification token, or it gives the token's user another id, or it marks
the token used, or it brings the token in. -/
inductive VerificationTokenStep (before : Db store) (report : Report) (κ : String)
    (token : EmailVerificationToken) : Prop
  | same (found : before.get .emailVerificationToken κ = some token)
  | renamed {token₀ : EmailVerificationToken}
      (found : before.get .emailVerificationToken κ = some token₀)
      (row : { token₀ with userId := token.userId } = token)
      (report : report = .emailConfirmed (some token.userId))
  | used {token₀ : EmailVerificationToken} {usedAt : Timestamp} {confirmed : Option String}
      (found : before.get .emailVerificationToken κ = some token₀) (unused : token₀.usedAt = none)
      (unexpired : usedAt < token₀.expiresAt)
      (row : { token₀ with usedAt := some usedAt, userId := token.userId } = token)
      (report : report = .emailConfirmed confirmed)
  | created (absent : before.get .emailVerificationToken κ = none) (unused : token.usedAt = none)
      (report : report = .verificationTokenCreated token.tokenHash)

lemma TokenUsed.verificationTokenStep {tokenId userId : String} {usedAt : Timestamp}
    {token₀ : EmailVerificationToken} {before used : Db store}
    (h : TokenUsed tokenId userId usedAt token₀ before used) (confirmed : Option String)
    {κ : String} {token : EmailVerificationToken}
    (ht : used.get .emailVerificationToken κ = some token) :
    VerificationTokenStep before (.emailConfirmed confirmed) κ token := by
  rw [h.lookup] at ht
  split at ht
  · next hκ =>
    subst hκ
    obtain rfl := Option.some.inj ht
    exact .used h.found h.unused h.unexpired rfl rfl
  · exact .same ht

lemma AccountCommit.verificationTokenStep {log : Log store} {t : ℕ} {held : Lock store → Bool}
    {after : Db store} {report : Report} (h : AccountCommit settings calls log t held after report)
    {κ : String} {token : EmailVerificationToken}
    (ht : after.get .emailVerificationToken κ = some token) :
    VerificationTokenStep log.db report κ token := by
  cases h with
  | unchanged effect _ => exact .same (effect ▸ ht)
  | pendingUpserted _ effect =>
    rw [Db.get, effect.other _ (by simp)] at ht
    exact .same ht
  | registered _ _ user credential =>
    rw [credential.get_other (by simp), user.get_other (by simp)] at ht
    exact .same ht
  | verificationTokenCreated _ effect hash unused =>
    rw [effect.lookup] at ht
    split at ht
    · next hκ =>
      obtain rfl := Option.some.inj ht
      exact .created (hκ ▸ effect.absent) unused (by rw [hash])
    · exact .same ht
  | confirmRefused _ effect => exact .same ((effect _ _).symm.trans ht)
  | confirmConflicted _ _ _ _ _ _ _ _ effect same =>
    exact effect.verificationTokenStep none ((same _ _).symm.trans ht)
  | @activated _ _ _ activatedId _ _ _ _ _ _ _ used activated moved _ _ _ _ _ _ _ _ effect =>
    have hafter : after.get .emailVerificationToken κ = moved.get .emailVerificationToken κ := by
      rw [Db.get, effect.role.other _ (by simp) (by simp), Db.get]
    have hbefore : activated.get .emailVerificationToken κ =
        used.get .emailVerificationToken κ := by
      rw [Db.get, effect.user.other _ (by simp), Db.get]
    rw [hafter] at ht
    rcases effect.children.child .emailVerificationToken (by simp [childTables]) κ with
      hsame | ⟨token₁, htoken₁, -, hmoved⟩
    · exact effect.token.verificationTokenStep (some activatedId)
        (hbefore.symm.trans (hsame.symm.trans ht))
    · -- The cascade moves the token that has just been used as well as the others.
      obtain rfl := Option.some.inj (hmoved.symm.trans ht)
      cases effect.token.verificationTokenStep (some activatedId) (hbefore.symm.trans htoken₁) with
      | same found => exact .renamed found rfl rfl
      | renamed found row _ => exact .renamed found (by rw [← row]; rfl) rfl
      | used found unused unexpired row _ =>
        exact .used found unused unexpired (by rw [← row]; rfl) rfl
      | created _ _ report => simp at report
  | attached _ _ _ _ _ _ _ _ _ _ effect =>
    rw [effect.pending.get_other (by simp), effect.credential.get_other (by simp)] at ht
    exact effect.token.verificationTokenStep _ ht
  | linked _ effect =>
    rw [effect.get_other (by simp)] at ht
    exact .same ht
  | created _ _ _ _ effect =>
    rw [Db.get, effect.other (by simp)] at ht
    exact .same ht
  | replaced _ _ _ _ _ _ _ _ _ removal effect =>
    rw [Db.get, effect.other (by simp)] at ht
    rcases removal.child .emailVerificationToken (by simp [childTables]) κ with
      hsame | ⟨hnone, -⟩
    · exact .same (hsame.symm.trans ht)
    · exact absurd (hnone.symm.trans ht) (by simp)
  | userStatusSet _ effect =>
    rw [Db.get, effect.other _ (by simp) (by simp)] at ht
    exact .same ht

end WiseacctSso
