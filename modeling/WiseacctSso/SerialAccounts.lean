import WiseacctSso.AccountKeeps
import WiseacctSso.SerialPrograms

/-!
# Account calls one at a time

What the commits of an account call do when it runs by itself. All that a transaction has
read is then of the tables that it commits to, and its cascades are complete.
-/
namespace WiseacctSso
open ReadCommitted Phase5AuthService EmailVerificationStore OAuthIdentityStore AdminMutationStore

/-- The commits of an account call that runs by itself. -/
inductive SerialStep (settings : AccountSettings) (call : AccountCall) (before after : Db store) :
    Prop
  | unchanged (effect : SameRows before after)
  | registered {input : RegisterInput} {draws : RegisterDraws} {created : Db store}
      (call_eq : call = .register input draws)
      (user : Inserted (Γ := store) .user draws.userId
        ⟨some (normalizeEmail settings.toAuthSettings input.email), input.name, none,
          .pendingEmailVerification, false⟩ before created)
      (credential : Inserted (Γ := store) .passwordCredential draws.credentialId
        ⟨draws.userId, settings.py.lower (normalizeEmail settings.toAuthSettings input.email),
          draws.passwordHash, 0, none⟩ created after)
  | pendingUpserted {input : RegisterInput} {draws : RegisterDraws} {userId : String}
      (call_eq : call = .register input draws)
      (found : PendingFor (normalizeEmail settings.toAuthSettings input.email) userId before before)
      (effect : PendingUpserted ⟨userId, settings.py.lower
        (normalizeEmail settings.toAuthSettings input.email), draws.passwordHash,
        draws.now + pendingPasswordCredentialTtlMs⟩ before after)
  | tokenCreated {id : String} {row : EmailVerificationToken}
      (effect : Inserted (Γ := store) .emailVerificationToken id row before after)
  | tokenUsed {tokenId userId : String} {now : Timestamp} {token : EmailVerificationToken}
      {used : Db store} (effect : TokenUsed tokenId userId now token before used)
      (same : SameRows used after)
  | activated {tokenId userId activatedId : String} {now : Timestamp}
      {token : EmailVerificationToken} {u : User} {used activated moved : Db store}
      (effect : Activation tokenId userId activatedId now DEFAULT_ROLE.toRole token u childTables
        before used activated moved after)
  | attached {tokenId userId credentialId κ : String} {now : Timestamp}
      {pending : PendingPasswordCredential} {token : EmailVerificationToken}
      {used attached : Db store}
      (found : before.get .pendingPasswordCredential κ = some pending)
      (owner : pending.userId = userId)
      (notPending : ∀ u, before.get .user userId = some u → u.status ≠ .pendingEmailVerification)
      (effect : Attachment tokenId userId credentialId now token pending before used attached after)
  | linked {id : String} {row : SocialAccount}
      (effect : Inserted (Γ := store) .socialAccount id row before after)
  | created {profile : OAuthProfileRecord} {defaultRole : DefaultRole} {ids : OAuthIds}
      {userId : String} {userEmail : Option String} {created linked : Db store}
      (named : Named ids (profile.email.map fun email => settings.py.lower
        (settings.py.strip email)) userEmail userId before)
      (effect : Creation userId ids.social
        ⟨userEmail, profile.name, profile.profileUrl, .active, profile.emailVerified⟩
        ⟨profile.provider, profile.providerUserId, profile.email, userId⟩ defaultRole.toRole
        before created linked after)
  | replaced {profile : OAuthProfileRecord} {defaultRole : DefaultRole} {ids : OAuthIds}
      {oldId userId : String} {userEmail : Option String} {u : User}
      {removed created linked : Db store} (pending : u.status = .pendingEmailVerification)
      (unverified : u.emailVerified = false)
      (named : Named ids (profile.email.map fun email => settings.py.lower
        (settings.py.strip email)) userEmail userId before)
      (removal : UserRemoved oldId u childTables before removed)
      (effect : Creation userId ids.social
        ⟨userEmail, profile.name, profile.profileUrl, .active, profile.emailVerified⟩
        ⟨profile.provider, profile.providerUserId, profile.email, userId⟩ defaultRole.toRole
        removed created linked after)
  | userStatusSet {actor target : String} {status : UserStatus} {now : Timestamp}
      (call_eq : call = .setUserStatus actor target status now)
      (effect : UserStatusSet target status before after)
      (tokens : TokensRevoked (fun r => r.userId = target) before after)
      (only : OnlyTables [.user, .refreshToken] before after)

variable {settings : AccountSettings} {call : AccountCall} {db₀ : Db store} {s : Shared store}

/-- What a call guarantees when it runs by itself. -/
abbrev serialGuarantee (settings : AccountSettings) (call : AccountCall) (db₀ : Db store) :
    Guarantee store :=
  soloGuarantee (SerialStep settings call) db₀

/-- With nobody beside it, a call can rely on everything. -/
lemma serial_steady : Steady (serialGuarantee settings call db₀) 0 childTables := by
  refine ⟨fun hs hr => ?_, fun hs _ hur => ?_, fun _ hs _ _ hr => ?_⟩
  · rw [hs.solo_db]
    exact hr
  · rw [hs.solo_db]
    exact hur
  · rwa [hs.solo_db] at hr

/-- A transaction starts and commits with the same tables. -/
lemma wp_transaction_solo {α : Type} {report : α → Report} {work : StoreProg α}
    {Q : Post store α} (hraise : ∀ e s', Q.raise e s' [])
    (h : ∀ s₀, s₀.log.Valid (serialGuarantee settings call db₀) →
      wp (serialGuarantee settings call db₀) 0 work ⟨fun a s₁ ws =>
        SerialStep settings call s₀.db (view ws s₁.db) ∧ s₁.db = s₀.db ∧
          ∀ s', Q.ret a s' [], fun _ _ _ => True⟩ s₀ []) :
    wp (serialGuarantee settings call db₀) 0 (transaction report work) Q s [] := by
  refine wp_transaction fun s₀ hs₀ => wp_mono ?_ (fun e _ _ _ s' _ => hraise e s') (h s₀ hs₀.valid)
  rintro a s₁ ws ⟨hstep, hsame, hret⟩ s' hs'
  have hdb : s'.db = s₀.db := hs'.solo_db.trans hsame
  refine ⟨⟨rfl, ?_⟩, hret _⟩
  change SerialStep settings call s'.db (view ws s'.db)
  rw [hdb, ← hsame]
  rwa [← hsame] at hstep

lemma serial_register {input : RegisterInput} {draws : RegisterDraws} :
    wp (serialGuarantee settings (.register input draws) db₀) 0 (register settings input draws)
      .top s [] := by
  have hwork : wp (serialGuarantee settings (.register input draws) db₀) 0
      (transaction Report.registered (registerUser settings
        (normalizeEmail settings.toAuthSettings input.email) input.name draws)) .top s [] := by
    refine wp_transaction_solo (fun _ _ => trivial) fun s₀ _ =>
      wp_registerUser (fun _ _ _ => trivial) ?_ ?_ ?_
    · intro s₁ _ hs₁
      refine ⟨.unchanged ?_, hs₁.solo_db, fun _ => trivial⟩
      rw [view_nil, hs₁.solo_db]
      exact fun _ _ => rfl
    · intro su sc s₁ ws₁ userId hsu hsc hs₁ hfound heffect
      have hdb := (hsu.trans (hsc.trans hs₁)).solo_db
      rw [hsu.solo_db, (hsu.trans hsc).solo_db] at hfound
      have hrows := heffect s₁ (.refl hs₁.valid)
      refine ⟨?_, hdb, fun _ => trivial⟩
      rw [hdb] at hrows ⊢
      exact .pendingUpserted rfl hfound hrows
    · intro su s₁ ws₁ hsu hs₁ _ _ heffect
      have hdb := (hsu.trans hs₁).solo_db
      obtain ⟨created, huser, hcredential⟩ := heffect s₁ (.refl hs₁.valid)
      refine ⟨?_, hdb, fun _ => trivial⟩
      rw [hdb] at huser hcredential ⊢
      exact .registered rfl huser hcredential
  unfold register assertPasswordPolicy
  dsimp only
  split
  · trivial
  split
  · trivial
  · exact hwork

/-- What is left of a request once its handoff is validated. -/
lemma serial_verificationFor {email : String} {draws : VerificationDraws}
    (validated : Option VerificationHandoff) :
    wp (serialGuarantee settings call db₀) 0 (do
        let user ← connection (EmailVerificationStore.findEligibleUser
          (normalizeEmail settings.toAuthSettings email) draws.now)
        match user with
        | none => pure ()
        | some user =>
            if user.email.any (· ≠ "") && (user.status = .pendingEmailVerification ||
                user.hasPendingPasswordCredential) then
              transaction (Γ := store) (fun _ => .verificationTokenCreated draws.tokenHash)
                (EmailVerificationStore.createToken ⟨draws.tokenId, user.id, draws.tokenHash,
                  draws.now + emailVerificationTokenTtlMs, validated⟩)
            else pure ()) .top s [] := by
  refine wp_bind.mpr (wp_connection (wp_query fun s₁ _ s₂ _ => ?_))
  dsimp only
  split
  · trivial
  split
  swap
  · trivial
  refine wp_transaction_solo (fun _ _ => trivial) fun s₃ _ =>
    wp_putRow (fun _ _ => trivial) fun s₄ ws₄ hput => ?_
  have hdb := hput.follows.solo_db
  have hrows := hput.effect s₄ (.refl hput.follows.valid)
  refine ⟨?_, hdb, fun _ => trivial⟩
  rw [hdb] at hrows ⊢
  exact .tokenCreated hrows

lemma serial_requestEmailVerification {email : String} {handoff : Option ClientHandoff}
    {draws : VerificationDraws} :
    wp (serialGuarantee settings call db₀) 0
      (requestEmailVerification settings email handoff draws) .top s [] := by
  refine wp_bind.mpr ?_
  split
  · exact serial_verificationFor none
  · refine wp_bind.mpr ?_
    unfold clientForHandoff
    dsimp only
    split
    · trivial
    split
    · exact serial_verificationFor _
    · trivial

/-- A confirmation that activated nothing raises after its commit. -/
lemma serial_activated (record : EmailVerificationTokenRecord) (activated : Option String) :
    wp (serialGuarantee settings call db₀) 0 (do
        match activated with
        | none => .raise .invalidVerificationToken
        | some userId => pure (userId, record.handoff) :
          StoreProg (String × Option VerificationHandoff)) .top s [] := by
  cases activated <;> trivial

lemma serial_confirmEmailVerification {tokenHash : String} {now : Timestamp} {ids : ConfirmIds} :
    wp (serialGuarantee settings call db₀) 0
      (confirmEmailVerification settings tokenHash now ids) .top s [] := by
  refine wp_bind.mpr (wp_transaction_solo (fun _ _ => trivial) fun s₀ _ =>
    wp_bind.mpr (wp_query fun sq hsq => ?_))
  dsimp only
  split
  · trivial
  next record _ =>
  split
  · trivial
  have hread := hsq.selected (.verificationToken tokenHash)
  refine wp_bind.mpr (wp_confirm serial_steady (fun _ _ _ => trivial) ?_ ?_ ?_ ?_)
  · intro s₁ ws₁ hs₁ heffect
    refine ⟨?_, (hread.trans hs₁).solo_db, fun _ => serial_activated record none⟩
    have hrows := heffect s₁ (.refl hs₁.valid)
    rw [(hread.trans hs₁).solo_db] at hrows ⊢
    exact .unchanged hrows
  · intro su s₁ ws₁ u₀ hsu hs₁ _ _ _ heffect
    have hdb := (hread.trans (hsu.trans hs₁)).solo_db
    obtain ⟨token, used, hused, hsame⟩ := heffect s₁ (.refl hs₁.valid)
    refine ⟨?_, hdb, fun _ => serial_activated record none⟩
    rw [hdb] at hused hsame ⊢
    exact .tokenUsed hused hsame
  · intro su sr s₁ ws₁ activatedId u₀ token u hsu hsr hs₁ _ _ _ _ _ heffect
    have hdb := (hread.trans (hsu.trans (hsr.trans hs₁))).solo_db
    obtain ⟨used, activated, moved, hactivation⟩ := heffect s₁ (.refl hs₁.valid)
    refine ⟨?_, hdb, fun _ => serial_activated record activatedId⟩
    rw [hdb] at hactivation ⊢
    exact .activated hactivation
  · intro su sp s₁ ws₁ κ pending token hsu hsp hs₁ hnotPending hfound howner _ heffect
    have hsp' := hread.trans (hsu.trans hsp)
    have hdb := (hsp'.selected (.pendingPassword record.userId)).trans hs₁ |>.solo_db
    obtain ⟨used, attached, hattachment⟩ := heffect s₁ (.refl hs₁.valid)
    refine ⟨?_, hdb, fun _ => serial_activated record record.userId⟩
    rw [(hread.trans hsu).solo_db] at hnotPending
    rw [hsp'.solo_db] at hfound
    rw [hdb] at hattachment ⊢
    exact .attached hfound howner hnotPending hattachment

lemma serial_resolveOAuthUser {profile : OAuthProfileRecord} {defaultRole : DefaultRole}
    {ids : OAuthIds} {Q : Post store String}
    (hraise : ∀ e s' ws', Q.raise e s' ws')
    (hcommit : ∀ userId s₁ ws₁, SerialStep settings call s.db (view ws₁ s₁.db) →
      s₁.db = s.db → Q.ret userId s₁ ws₁) :
    wp (serialGuarantee settings call db₀) 0 (resolveOAuthUser settings profile defaultRole ids)
      Q s [] := by
  have hstatus : ∀ (user : OAuthUserRecord) s₁ ws₁,
      SerialStep settings call s.db (view ws₁ s₁.db) → s₁.db = s.db →
      wp (serialGuarantee settings call db₀) 0 (if user.status = .active then pure user.id
        else .raise (.domain 401 "UNAUTHORIZED" "Authentication is required") : StoreProg String)
        Q s₁ ws₁ := by
    intro user s₁ ws₁ hstep hdb
    split
    · exact hcommit _ _ _ hstep hdb
    · exact hraise _ _ _
  refine wp_bind.mpr (wp_bind.mpr (wp_query fun sq hsq => ?_))
  have hread := hsq.selected (.socialUser profile.provider profile.providerUserId)
  dsimp only
  split
  · refine hstatus _ _ _ (.unchanged ?_) hread.solo_db
    rw [view_nil, hread.solo_db]
    exact fun _ _ => rfl
  refine wp_resolveOrCreate serial_steady hread.valid (fun _ _ _ => hraise _ _ _) ?_ ?_ ?_
  · intro se s₁ ws₁ userId email u hse hs₁ _ _ _ heffect
    have hdb := ((hread.trans hse).selected (.verifiedEmailUser email)).trans hs₁ |>.solo_db
    have hrows := heffect s₁ (.refl hs₁.valid)
    refine hstatus _ _ _ ?_ hdb
    rw [hdb] at hrows ⊢
    exact .linked hrows
  · intro sr s₁ ws₁ userId userEmail hsr hs₁ hnamed _ heffect
    have hdb := (hread.trans (hsr.trans hs₁)).solo_db
    obtain ⟨created, linked, hcreation⟩ := heffect s₁ (.refl hs₁.valid)
    refine hstatus _ _ _ ?_ hdb
    rw [(hread.trans hsr).solo_db] at hnamed
    rw [hdb] at hcreation ⊢
    exact .created hnamed hcreation
  · intro se sr s₁ ws₁ oldId email u₀ u userId userEmail hse hsr hs₁ hfound hpending hunverified
      hnamed _ _ heffect
    have hse' := hread.trans hse
    have hsr' := (hse'.selected (.verifiedEmailUser email)).trans hsr
    have hdb := (hsr'.trans hs₁).solo_db
    obtain ⟨removed, created, linked, hremoved, hcreation⟩ := heffect s₁ (.refl hs₁.valid)
    refine hstatus _ _ _ ?_ hdb
    have huser := hfound.user
    rw [hse'.solo_db] at huser
    rw [hsr'.solo_db] at hnamed
    rw [hdb] at hremoved hcreation ⊢
    obtain rfl := Option.some.inj (hremoved.found.symm.trans huser)
    exact .replaced hpending hunverified hnamed hremoved hcreation

lemma serial_oauthCallback {clientId : String} {rawUser : ProviderUser} {ids : OAuthIds} :
    wp (serialGuarantee settings call db₀) 0
      ((oauthCallback settings clientId rawUser ids).bind fun userId => answer (.signedIn userId))
      .top s [] := by
  have hanswer : ∀ userId (s' : Shared store),
      wp (serialGuarantee settings call db₀) 0 (answer (.signedIn userId)) .top s' [] :=
    fun _ _ _ _ => ⟨rfl, trivial⟩
  refine wp_bind.mpr ?_
  unfold oauthCallback
  split
  · trivial
  split
  · trivial
  refine wp_handle.mpr (wp_transaction_solo ?_
    fun s₀ _ => serial_resolveOAuthUser (fun _ _ _ => trivial) ?_)
  · intro e s'
    cases e with
    | uniqueViolation =>
      refine wp_bind.mpr (wp_connection (wp_query fun s₁ _ s₂ _ => ?_))
      dsimp only
      split
      · trivial
      · exact hanswer _ _
    | _ => trivial
  · exact fun userId s₁ ws₁ hstep hdb => ⟨hstep, hdb, hanswer userId⟩

lemma wp_revokeTokensIf {G : Guarantee store} {revoke : Prop} [Decidable revoke]
    {userId : String} {now : Timestamp} {Q : Post store ℕ} {t : ℕ} {ws : List (Write store)}
    (hv : s.log.Valid G) (hws : ∀ w ∈ ws, w.place.1 ≠ .refreshToken)
    (h : ∀ s₁ n ws', Follows G t s s₁ → (∀ w ∈ ws', w.place.1 = .refreshToken) →
      TokensRevoked (fun r => r.userId = userId) s₁.db (view (ws ++ ws') s₁.db) →
      Q.ret n s₁ (ws ++ ws')) :
    wp G t (if revoke then revokeAllRefreshTokensForUser userId now else pure 0) Q s ws := by
  have hnone : ∀ s₁ n, Follows G t s s₁ → Q.ret n s₁ ws := by
    intro s₁ n hs₁
    have hQ := h s₁ n [] hs₁ (by simp)
    rw [List.append_nil] at hQ
    exact hQ (tokensRevoked_refl (view_of_table_ne hws _))
  split
  swap
  · exact hnone s 0 (.refl hv)
  refine wp_revokeAllRefreshTokensForUser (fun sv s₁ hsv hs₁ _ => hnone s₁ 0 (hsv.trans hs₁)) ?_
  intro sl s₀ s₁ done hsl _ hs₀ hd
  refine h s₁ _ _ ((hsl.trans hs₀).trans hd.follows) (fun w hw => sweepWrites_table hw) ?_
  exact tokensRevoked_of_swept (fun κ r hr => by simpa [revocable] using hr) hws hd
    (.refl hd.follows.valid) now

/-- What a change of status commits: the row of the user, and its revoked tokens. -/
lemma SerialStep.of_setUserStatus {actor target : String} {status : UserStatus}
    {now : Timestamp} {before : Db store} {ws ws' : List (Write store)}
    (hws : ∀ w ∈ ws, w.place.1 = .user) (hws' : ∀ w ∈ ws', w.place.1 = .refreshToken)
    (heffect : UserStatusSet target status before (view ws before))
    (htokens : TokensRevoked (fun r => r.userId = target) before (view (ws ++ ws') before)) :
    SerialStep settings (.setUserStatus actor target status now) before
      (view (ws ++ ws') before) := by
  refine .userStatusSet rfl (fun id => ?_) htokens (onlyTables_view (fun w hw => ?_) _)
  · rw [view_append, view_get_of_table_ne fun w hw => by simp [hws' w hw]]
    exact heffect id
  · rcases List.mem_append.mp hw with hw | hw
    · simp [hws w hw]
    · simp [hws' w hw]

lemma serial_setUserStatus {actor target : String} {status : UserStatus} {now : Timestamp} :
    wp (serialGuarantee settings (.setUserStatus actor target status now) db₀) 0
      (Phase6AdminService.request settings.py actor (.setUserStatus target status now)) .top s
      [] := by
  have hwork : ∀ s : Shared store,
      wp (serialGuarantee settings (.setUserStatus actor target status now) db₀) 0
        (Phase6AdminService.setUserStatus settings.py actor target status now) .top s [] := by
    intro s
    refine wp_assert trivial fun _ => wp_assert trivial fun _ => ?_
    refine wp_transaction_solo (fun _ _ => trivial) fun s₀ _ =>
      wp_bind.mpr (wp_updateUserStatus ?_ ?_)
    · intro sv s₁ hsv hs₁ hmissing
      refine wp_bind.mpr (wp_revokeTokensIf hs₁.valid (by simp) fun s₂ _ ws' hs₂ hws' htokens => ?_)
      have hdb := (hsv.trans (hs₁.trans hs₂)).solo_db
      refine ⟨?_, hdb, fun _ => trivial⟩
      rw [hdb] at htokens ⊢
      rw [hsv.solo_db] at hmissing
      refine .of_setUserStatus (by simp) hws' (fun id => ?_) htokens
      split
      · next hid => rw [hid, view_nil, hmissing, Option.map_none]
      · rw [view_nil]
    · intro s₁ u hs₁ hu
      refine wp_bind.mpr (wp_revokeTokensIf hs₁.valid (by simp [Write.place])
        fun s₂ _ ws' hs₂ hws' htokens => ?_)
      have hdb := (hs₁.trans hs₂).solo_db
      have heffect : UserStatusSet target status s₂.db
          (view [.put .user target { u with status := status }] s₂.db) :=
        UserStatusSet.of_put (hs₂.holds hu) (by simp)
      refine ⟨?_, hdb, fun _ => trivial⟩
      rw [hdb] at heffect htokens ⊢
      exact .of_setUserStatus (by simp [Write.place]) hws' heffect htokens
  refine wp_bind.mpr (wp_assert trivial fun _ => wp_bind.mpr ?_)
  refine wp_connection (wp_query fun s₁ _ s₂ _ => ?_)
  dsimp only
  split
  · exact wp_bind.mpr (wp_mono (fun _ _ _ _ => trivial) (fun _ _ _ h => h) (hwork s₂))
  · trivial

/-- An account call that nobody runs beside, with the row locks and reads of the database. -/
def serialRun (settings : AccountSettings) (call : AccountCall) (db : Db store)
    (acts : List (Act store)) : Option (System store) :=
  (System.initial db ⟨∅⟩).run (solo (call.prog settings)) acts

/-- What a call does to the tables when nobody runs beside it. -/
theorem serialRun_steps {acts : List (Act store)} {sys : System store}
    (hunique : UniqueEntries db₀) (hrun : serialRun settings call db₀ acts = some sys) :
    Relation.ReflTransGen (fun before after => SerialStep settings call before after ∧
      UniqueEntries after) db₀ sys.shared.db := by
  refine solo_run (fun s _ _ => ?_) hunique hrun
  cases call with
  | register =>
    exact wp_bind.mpr (wp_mono (fun _ _ _ _ => trivial) (fun _ _ _ h => h) serial_register)
  | requestEmailVerification => exact serial_requestEmailVerification
  | confirmEmailVerification =>
    exact wp_bind.mpr (wp_mono (fun _ _ _ _ => trivial) (fun _ _ _ h => h)
      serial_confirmEmailVerification)
  | oauthCallback => exact serial_oauthCallback
  | setUserStatus => exact serial_setUserStatus

end WiseacctSso
