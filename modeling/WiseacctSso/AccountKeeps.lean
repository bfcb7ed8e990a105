import WiseacctSso.AccountGuarantee
import WiseacctSso.SessionRuns

/-!
# Account calls keep the account guarantee
-/
namespace WiseacctSso
open ReadCommitted Phase5AuthService EmailVerificationStore OAuthIdentityStore AdminMutationStore

/-! ## Work without reports -/

section silence
open Prog.Silent

lemma silent_registerUser {settings : AccountSettings} {email : String} {name : Option String}
    {draws : RegisterDraws} : (registerUser settings email name draws).Silent := by
  refine .bind (query.bind fun user => ?_) fun existing => ?_
  · split
    · trivial
    · exact .bind (.bind query fun _ => trivial) fun _ => trivial
  split
  · refine query.bind fun credential => ?_
    dsimp only
    split
    · refine .bind (insertOrSkip.bind fun inserted => ?_) fun _ => trivial
      split
      · trivial
      · refine moveRows.bind fun rows => ?_
        split
        · trivial
        · exact silent_requireOne
    · trivial
  · exact .bind (insertRow.bind fun _ => insertRow) fun _ => trivial

lemma silent_cascadeUpdate {userId newId : String} {Ts : List Table} :
    (cascadeUpdate userId newId Ts).Silent := by
  induction Ts with
  | nil => trivial
  | cons T Ts ih => exact moveRows.bind fun _ => ih

lemma silent_cascadeDelete {userId : String} {Ts : List Table} :
    (cascadeDelete userId Ts).Silent := by
  induction Ts with
  | nil => trivial
  | cons T Ts ih => exact deleteRows.bind fun _ => ih

lemma silent_seedRoles {roles : List (String × Role)} : (seedRoles roles).Silent := by
  induction roles with
  | nil => trivial
  | cons x roles ih => exact insertOrSkip.bind fun _ => ih

lemma silent_seedTemisAndAssignDefaultRole {ids : SeedIds} {userId : String}
    {defaultRole : DefaultRole} :
    (seedTemisAndAssignDefaultRole ids userId defaultRole).Silent := by
  refine silent_seedRoles.bind fun _ => query.bind fun assigned => ?_
  split
  · trivial
  · exact insertOrSkip.bind fun _ => trivial

lemma silent_activateUser {userId : String} {reservedId : Option String} :
    (activateUser userId reservedId).Silent := by
  unfold activateUser
  dsimp only
  split
  · exact updateRows
  · refine deleteRows.bind fun renamed => ?_
    split
    · exact insertRow.bind fun _ => silent_cascadeUpdate.bind fun _ => trivial
    · trivial

lemma silent_activate {py : PythonText} {ids : SeedIds} {userId : String} {user : User}
    {defaultRole : DefaultRole} : (activate py ids userId user defaultRole).Silent := by
  refine .bind ?_ fun reserved => .bind ?_ fun taken => ?_
  · split
    · trivial
    · exact query
  · split
    · trivial
    · exact query
  · split
    · trivial
    · refine silent_activateUser.bind fun activated => ?_
      split
      · trivial
      · exact silent_seedTemisAndAssignDefaultRole.bind fun _ => trivial

lemma silent_confirm {py : PythonText} {ids : ConfirmIds} {tokenId userId : String}
    {usedAt : Timestamp} {defaultRole : DefaultRole} :
    (EmailVerificationStore.confirm py ids tokenId userId usedAt defaultRole).Silent := by
  refine query.bind fun user => query.bind fun pending => ?_
  dsimp only
  split
  · trivial
  refine updateRows.bind fun consumed => ?_
  split
  · trivial
  split
  · exact silent_activate
  · exact insertRow.bind fun _ => deleteRows.bind fun _ => silent_requireOne.bind fun _ => trivial
  · trivial

lemma silent_confirmToken {settings : AccountSettings} {tokenHash : String} {now : Timestamp}
    {ids : ConfirmIds} : (confirmToken settings tokenHash now ids).Silent := by
  refine query.bind fun record => ?_
  split
  · trivial
  split
  · trivial
  · exact silent_confirm.bind fun _ => trivial

lemma silent_createUser {ids : OAuthIds} {profile : OAuthProfileRecord}
    {normalizedEmail : Option String} {defaultRole : DefaultRole} :
    (createUser ids profile normalizedEmail defaultRole).Silent := by
  refine .bind ?_ fun userEmail => .bind ?_ fun reserved => ?_
  · split
    · trivial
    · exact query.bind fun _ => trivial
  · split
    · trivial
    · exact query
  · exact insertRow.bind fun _ => insertRow.bind fun _ =>
      silent_seedTemisAndAssignDefaultRole.bind fun _ => trivial

lemma silent_resolveOrCreate {py : PythonText} {ids : OAuthIds} {profile : OAuthProfileRecord}
    {defaultRole : DefaultRole} : (resolveOrCreate py ids profile defaultRole).Silent := by
  refine .bind ?_ fun existing => ?_
  · split
    · trivial
    · exact query
  split
  · exact silent_createUser
  split
  · exact .bind (deleteRows.bind fun _ => silent_cascadeDelete.bind fun _ => trivial) fun _ =>
      silent_requireOne.bind fun _ => silent_createUser
  split
  · exact insertRow.bind fun _ => trivial
  · exact silent_createUser

lemma silent_resolveOAuthUser {settings : AccountSettings} {profile : OAuthProfileRecord}
    {defaultRole : DefaultRole} {ids : OAuthIds} :
    (resolveOAuthUser settings profile defaultRole ids).Silent := by
  refine .bind (query.bind fun existing => ?_) fun user => ?_
  · split
    · trivial
    · exact silent_resolveOrCreate
  · split <;> trivial

lemma silent_revokeAllRefreshTokensForUser {userId : String} {now : Timestamp} :
    (revokeAllRefreshTokensForUser userId now).Silent := by
  refine .bind (lockRows.bind fun _ => silent_oneOrNone.bind fun _ => trivial) fun locked => ?_
  split
  · exact updateRows.bind fun _ => trivial
  · trivial

lemma silent_updateUserStatus {userId : String} {status : UserStatus} :
    (updateUserStatus userId status).Silent := by
  refine updateRows.bind fun result => ?_
  split <;> trivial

end silence

variable {settings : AccountSettings} {calls : ℕ → AccountCall} {db₀ : Db store} {t : ℕ}
  {s : Shared store} {ws : List (Write store)}

lemma held_of_owner {G : Guarantee store} {s' : Shared store} {l : Lock store}
    (hs : Follows G t s s') (ho : s.owner l = some t) : s'.held t l = true := by
  simp [Shared.held, hs.owner l ho]

/-- A call that raises before its first report promises nothing. -/
lemma raised_of_later (hfirst : s.log.reports t = []) {s' : Shared store}
    (hs : Later (accountGuarantee settings calls db₀) t s s') :
    (accountGuarantee settings calls db₀).raised t (s'.log.reports t) := by
  rw [hs.reports, hfirst]
  simp [accountGuarantee]

lemma raised_nil (hfirst : s.log.reports t = []) :
    (accountGuarantee settings calls db₀).raised t (s.log.reports t) := by
  rw [hfirst]
  simp [accountGuarantee]

/-! ## Calls -/

lemma wp_register {input : RegisterInput} {draws : RegisterDraws}
    (hcall : calls t = .register input draws) (hfirst : s.log.reports t = []) :
    wp (accountGuarantee settings calls db₀) t (register settings input draws)
      (.kept (accountGuarantee settings calls db₀) t) s [] := by
  have hwork : wp (accountGuarantee settings calls db₀) t
      (transaction Report.registered (registerUser settings
        (normalizeEmail settings.toAuthSettings input.email) input.name draws))
      (.kept (accountGuarantee settings calls db₀) t) s [] := by
    refine wp_transaction_silent silent_registerUser (fun _ _ hs => raised_of_later hfirst hs)
      fun s₀ _ => wp_registerUser (fun _ _ _ => trivial) ?_ ?_ ?_
    · intro s₁ userId _ s' _
      exact ⟨.unchanged rfl (.inl ⟨userId, rfl⟩), trivial⟩
    · intro su sc s₁ ws₁ userId _ _ _ _ heffect s' hs'
      exact ⟨.pendingUpserted hcall (heffect s' hs'), trivial⟩
    · intro su s₁ ws₁ _ _ _ ho heffect s' hs'
      obtain ⟨created, huser, hcredential⟩ := heffect s' hs'
      exact ⟨.registered hcall (held_of_owner hs' ho) huser hcredential, trivial⟩
  have hraised : (accountGuarantee settings calls db₀).raised t (s.log.reports t) :=
    raised_nil hfirst
  unfold register assertPasswordPolicy
  dsimp only
  split
  · exact hraised
  split
  · exact hraised
  · exact hwork

/-- What is left of a request once its handoff is validated. -/
lemma wp_verificationFor {email : String} {handoff : Option ClientHandoff}
    {draws : VerificationDraws}
    (hcall : calls t = .requestEmailVerification email handoff draws)
    (hfirst : s.log.reports t = []) (validated : Option VerificationHandoff) :
    wp (accountGuarantee settings calls db₀) t (do
        let user ← connection (EmailVerificationStore.findEligibleUser
          (normalizeEmail settings.toAuthSettings email) draws.now)
        match user with
        | none => pure ()
        | some user =>
            if user.email.any (· ≠ "") && (user.status = .pendingEmailVerification ||
                user.hasPendingPasswordCredential) then
              transaction (Γ := store) (fun _ => .verificationTokenCreated draws.tokenHash)
                (EmailVerificationStore.createToken ⟨draws.tokenId, user.id, draws.tokenHash,
                  draws.now + emailVerificationTokenTtlMs, validated⟩)
            else pure ()) (.kept (accountGuarantee settings calls db₀) t) s [] := by
  refine wp_bind.mpr (wp_connection (wp_query fun s₁ hs₁ s₂ hs₂ => ?_))
  have hread : Later (accountGuarantee settings calls db₀) t s s₂ :=
    .of_follows (hs₁.selected _) hs₂
  dsimp only
  split
  · trivial
  split
  swap
  · trivial
  refine wp_transaction_silent Prog.Silent.insertRow
    (fun _ _ hs => raised_of_later (hread.reports.trans hfirst) hs) fun s₃ _ =>
      wp_putRow (fun _ _ => trivial) fun s₄ ws₄ hput s' hs' => ?_
  exact ⟨.verificationTokenCreated hcall (hput.effect s' hs') rfl rfl, trivial⟩

lemma wp_requestEmailVerification {email : String} {handoff : Option ClientHandoff}
    {draws : VerificationDraws}
    (hcall : calls t = .requestEmailVerification email handoff draws)
    (hfirst : s.log.reports t = []) :
    wp (accountGuarantee settings calls db₀) t
      (requestEmailVerification settings email handoff draws)
      (.kept (accountGuarantee settings calls db₀) t) s [] := by
  have hraised : (accountGuarantee settings calls db₀).raised t (s.log.reports t) :=
    raised_nil hfirst
  refine wp_bind.mpr ?_
  split
  · exact wp_verificationFor hcall hfirst none
  · refine wp_bind.mpr ?_
    unfold clientForHandoff
    dsimp only
    split
    · exact hraised
    split
    · exact wp_verificationFor hcall hfirst _
    · exact hraised

lemma wp_confirmEmailVerification {tokenHash : String} {now : Timestamp} {ids : ConfirmIds}
    (hcall : calls t = .confirmEmailVerification tokenHash now ids)
    (hfirst : s.log.reports t = []) :
    wp (accountGuarantee settings calls db₀) t
      (confirmEmailVerification settings tokenHash now ids)
      (.kept (accountGuarantee settings calls db₀) t) s [] := by
  refine wp_bind.mpr (wp_transaction_silent silent_confirmToken
    (fun _ _ hs => raised_of_later hfirst hs)
    fun s₀ hs₀ => wp_bind.mpr (wp_query fun sq hsq => ?_))
  -- A confirmation that activated nothing raises after its commit.
  have hrefused : ∀ (s' : Shared store) db, Follows (accountGuarantee settings calls db₀) t sq s' →
      (accountGuarantee settings calls db₀).raised t
        ((s'.commit t (.emailConfirmed none) db).log.reports t) := by
    intro s' db hs'
    have hreports : s'.log.reports t = [] :=
      hs'.reports.trans (hsq.reports.trans (hs₀.reports.trans hfirst))
    intro report hreport
    have hlog : (s'.commit t (.emailConfirmed none) db).log.reports t = [.emailConfirmed none] := by
      change (if t = t then s'.log.reports t ++ [_] else _) = _
      rw [if_pos rfl, hreports]
      rfl
    rw [hlog] at hreport
    exact List.mem_singleton.mp hreport
  dsimp only
  split
  · trivial
  next record hrecord =>
  obtain ⟨⟨tokenId, row⟩, hfirst', rfl⟩ := Option.map_eq_some_iff.mp hrecord
  obtain ⟨hrow, hhash⟩ := firstRow_some hfirst'
  split
  · trivial
  have hread : Follows (accountGuarantee settings calls db₀) t sq
      (sq.record (.selected t (.verificationToken tokenHash))) := .record_selected hsq.valid _
  refine wp_bind.mpr (wp_confirm account_steady (fun _ _ _ => trivial) ?_ ?_ ?_ ?_)
  · intro s₁ ws₁ hs₁ heffect s' hs'
    exact ⟨.confirmRefused hcall (heffect s' hs'), hrefused s' _ ((hread.trans hs₁).trans hs')⟩
  · intro su s₁ ws₁ u₀ hsu hs₁ hfound hpending hconflict heffect s' hs'
    obtain ⟨token, used, hused, hsame⟩ := heffect s' hs'
    exact ⟨.confirmConflicted hcall (hread.trans hsu).precedes hrow (by simpa using hhash)
      (hs₁.trans hs').precedes hfound hpending (hconflict.mono .refl hs'.precedes) hused hsame,
      hrefused s' _ (((hread.trans hsu).trans hs₁).trans hs')⟩
  · intro su sr s₁ ws₁ activatedId u₀ token u _ hsr hs₁ hfound hpending hreserved ho ho' heffect s'
      hs'
    obtain ⟨used, activated, moved, hactivation⟩ := heffect s' hs'
    exact ⟨.activated hcall ((hsr.trans hs₁).trans hs').precedes hfound hpending
      (hs₁.trans hs').precedes hreserved (held_of_owner hs' ho) (held_of_owner hs' ho')
      hactivation, trivial⟩
  · intro su sp s₁ ws₁ κ pending token hsu hsp hs₁ hnotPending hfound howner hlive heffect s' hs'
    obtain ⟨used, attached, hattachment⟩ := heffect s' hs'
    have htoken : sq.log.Precedes sp.log := hread.precedes.trans (hsu.trans hsp).precedes
    have hpending : sp.log.Precedes s'.log :=
      (Log.Extends.single trivial).trans (hs₁.trans hs').precedes
    exact ⟨.attached hcall htoken hrow (by simpa using hhash) (hsp.precedes.trans hpending)
      hnotPending (hs₁.trans hs').precedes hfound howner hlive hattachment, trivial⟩

/-- The user a callback has found by its provider identity. -/
lemma signedIn_of_find {profile : OAuthProfileRecord} {sq : Shared store}
    {user : OAuthUserRecord} (hfound : ((selectRows sq.db Table.socialAccount fun _ a =>
      a.provider = profile.provider && a.providerUserId = profile.providerUserId).filterMap
        fun a => (sq.db.get .user a.2.userId).map (record a.2.userId)).head? = some user)
    (hactive : user.status = .active) {log : Log store} {q : Query}
    (hread : (sq.log.add (.selected t q)).Precedes log) : SignedIn t profile user.id log := by
  obtain ⟨⟨κ, a⟩, ha, huser⟩ := List.mem_filterMap.mp (List.mem_of_mem_head? hfound)
  obtain ⟨hget, hidentity⟩ := mem_selectRows.mp ha
  simp only [Bool.and_eq_true, decide_eq_true_eq] at hidentity
  obtain ⟨u, hu, rfl⟩ := Option.map_eq_some_iff.mp huser
  exact ⟨⟨sq.log, .inl ⟨q, hread⟩, κ, a, hget, hidentity.1, hidentity.2, rfl⟩,
    sq.log, .inl ⟨q, hread⟩, u, hu, hactive⟩

lemma Creation.ownedBy {userId socialId : String} {user : User} {social : SocialAccount}
    {role : Role} {before created linked after : Db store} {profile : OAuthProfileRecord}
    (h : Creation userId socialId user social role before created linked after)
    (hprovider : social.provider = profile.provider)
    (hid : social.providerUserId = profile.providerUserId) (howner : social.userId = userId) :
    OwnedBy profile userId after :=
  ⟨socialId, social, h.role.keeps h.social.self, hprovider, hid, howner⟩

lemma Creation.activeIn {userId socialId : String} {user : User} {social : SocialAccount}
    {role : Role} {before created linked after : Db store}
    (h : Creation userId socialId user social role before created linked after)
    (hactive : user.status = .active) : ActiveIn userId after :=
  ⟨user, h.role.keeps (h.social.keepsAll h.user.self), hactive⟩

/-- What a callback's transaction commits when it returns the user. -/
lemma wp_resolveOAuthUser {profile : OAuthProfileRecord} {defaultRole : DefaultRole}
    {ids : OAuthIds} (hcallback : CallbackOf settings calls t profile defaultRole ids)
    {Q : Post store String} (hraise : ∀ e s' ws', Q.raise e s' ws')
    (hcommit : ∀ userId s₁ ws₁, (∀ s', Follows (accountGuarantee settings calls db₀) t s₁ s' →
      AccountCommit settings calls s'.log t (s'.held t) (view ws₁ s'.db) (.oauthResolved userId) ∧
      SignedIn t profile userId (s'.commit t (.oauthResolved userId) (view ws₁ s'.db)).log) →
      Q.ret userId s₁ ws₁) :
    wp (accountGuarantee settings calls db₀) t (resolveOAuthUser settings profile defaultRole ids)
      Q s [] := by
  refine wp_bind.mpr (wp_bind.mpr (wp_query fun sq hsq => ?_))
  have hstatus : ∀ (user : OAuthUserRecord) s₁ ws₁,
      (user.status = .active → Q.ret user.id s₁ ws₁) →
      wp (accountGuarantee settings calls db₀) t (if user.status = .active then pure user.id
        else .raise (.domain 401 "UNAUTHORIZED" "Authentication is required") : StoreProg String)
        Q s₁ ws₁ := by
    intro user s₁ ws₁ hret
    split
    · next hactive => exact hret hactive
    · exact hraise _ _ _
  have hcommitted : ∀ (s' : Shared store) (userId : String) (db : Db store),
      Observed t (s'.commit t (.oauthResolved userId) db).log
        (s'.commit t (.oauthResolved userId) db).log :=
    fun s' userId db => .inr ⟨s'.log, .oauthResolved userId, s'.held t, db, rfl, .refl⟩
  dsimp only
  split
  · next existing hexisting =>
    refine hstatus existing _ _ fun hactive => hcommit _ _ _ fun s' hs' => ?_
    refine ⟨.unchanged rfl (.inr ⟨existing.id, rfl⟩), ?_⟩
    exact signedIn_of_find hexisting hactive (hs'.precedes.add trivial)
  refine wp_resolveOrCreate account_steady (hsq.selected _).valid (fun _ _ _ => hraise _ _ _) ?_ ?_
    ?_
  · intro se s₁ ws₁ userId email u _ hs₁ hfound hactive _ heffect
    refine hstatus _ _ _ fun _ => hcommit _ _ _ fun s' hs' => ?_
    refine ⟨.linked hcallback (heffect s' hs'), ⟨_, hcommitted s' _ _, ?_⟩, se.log,
      .inl ⟨.verifiedEmailUser email, ((hs₁.trans hs').precedes).add trivial⟩, u, hfound.user,
      hactive⟩
    exact ⟨_, _, (heffect s' hs').self, rfl, rfl, rfl⟩
  · intro sr s₁ ws₁ userId userEmail _ hs₁ hnamed ho heffect
    refine hstatus _ _ _ fun _ => hcommit _ _ _ fun s' hs' => ?_
    obtain ⟨created, linked, hcreation⟩ := heffect s' hs'
    exact ⟨.created hcallback (hs₁.trans hs').precedes hnamed (held_of_owner hs' ho) hcreation,
      ⟨_, hcommitted s' _ _, hcreation.ownedBy rfl rfl rfl⟩, _, hcommitted s' _ _,
      hcreation.activeIn rfl⟩
  · intro se sr s₁ ws₁ oldId email u₀ u userId userEmail _ hsr hs₁ hfound hpending hunverified
      hnamed ho ho' heffect
    refine hstatus _ _ _ fun _ => hcommit _ _ _ fun s' hs' => ?_
    obtain ⟨removed, created, linked, hremoved, hcreation⟩ := heffect s' hs'
    exact ⟨.replaced hcallback ((hsr.trans hs₁).trans hs').precedes hfound hpending hunverified
      (hs₁.trans hs').precedes hnamed (held_of_owner hs' ho) (held_of_owner hs' ho') hremoved
      hcreation, ⟨_, hcommitted s' _ _, hcreation.ownedBy rfl rfl rfl⟩, _, hcommitted s' _ _,
      hcreation.activeIn rfl⟩

lemma wp_oauthCallback {clientId : String} {rawUser : ProviderUser} {ids : OAuthIds}
    (hcall : calls t = .oauthCallback clientId rawUser ids) (hfirst : s.log.reports t = []) :
    wp (accountGuarantee settings calls db₀) t
      ((oauthCallback settings clientId rawUser ids).bind fun userId => answer (.signedIn userId))
      (.kept (accountGuarantee settings calls db₀) t) s [] := by
  have hanswer : ∀ {profile defaultRole userId} {s₁ : Shared store},
      CallbackOf settings calls t profile defaultRole ids → SignedIn t profile userId s₁.log →
      wp (accountGuarantee settings calls db₀) t (answer (.signedIn userId))
        (.kept (accountGuarantee settings calls db₀) t) s₁ [] := by
    intro profile defaultRole userId s₁ hcallback hsigned s' hs'
    refine ⟨fun userId' hreport => ?_, trivial⟩
    obtain rfl := Report.signedIn.inj hreport
    exact ⟨profile, defaultRole, ids, hcallback, hsigned.mono hs'.precedes⟩
  have hraised : (accountGuarantee settings calls db₀).raised t (s.log.reports t) :=
    raised_nil hfirst
  refine wp_bind.mpr ?_
  unfold oauthCallback
  split
  · exact hraised
  next client hclient =>
  split
  · exact hraised
  next p hprofile =>
  have hcallback : CallbackOf settings calls t (oauthProfileRecord p) client.defaultRole ids :=
    ⟨clientId, rawUser, client, p, hcall, hclient, rfl, hprofile, rfl⟩
  refine wp_handle.mpr (wp_transaction_silent silent_resolveOAuthUser ?_
    fun s₀ _ => wp_resolveOAuthUser hcallback (fun _ _ _ => trivial) ?_)
  · intro e s' hs'
    have hreports : s'.log.reports t = [] := hs'.reports.trans hfirst
    have hraised : (accountGuarantee settings calls db₀).raised t (s'.log.reports t) :=
      raised_nil hreports
    -- A callback that lost a race reads the winner and commits nothing.
    cases e with
    | uniqueViolation =>
      refine wp_bind.mpr (wp_connection (wp_query fun s₁ hs₁ s₂ hs₂ => ?_))
      have hlater : Later (accountGuarantee settings calls db₀) t s' s₂ :=
        .of_follows (hs₁.selected _) hs₂
      dsimp only
      split
      · exact raised_of_later hreports hlater
      · next user huser =>
        obtain ⟨hfound, hactive⟩ := Option.filter_eq_some_iff.mp huser
        exact hanswer hcallback
          (signedIn_of_find hfound (by simpa using hactive) hs₂.precedes)
    | _ => exact hraised
  · intro userId s₁ ws₁ hcommit s' hs'
    exact ⟨(hcommit s' hs').1, hanswer hcallback (hcommit s' hs').2⟩

lemma wp_revokeIf {G : Guarantee store} {revoke : Prop} [Decidable revoke] {userId : String}
    {now : Timestamp} {Q : Post store ℕ} (hv : s.log.Valid G)
    (h : ∀ s₁ ws₁ n, Follows G t s s₁ → (∀ db, ∀ T, T ≠ Table.refreshToken →
      view ws₁ db T = view ws db T) → Q.ret n s₁ ws₁) :
    wp G t (if revoke then revokeAllRefreshTokensForUser userId now else pure 0) Q s ws := by
  split
  swap
  · exact h s ws 0 (.refl hv) fun _ _ _ => rfl
  refine wp_revokeAllRefreshTokensForUser ?_ ?_
  · intro sv s₁ hsv hsv' _
    exact h s₁ ws 0 (hsv.trans hsv') fun _ _ _ => rfl
  · intro sl s₀ s₁ done hsl _ hs₀ hd
    refine h s₁ _ _ ((hsl.trans hs₀).trans hd.follows) fun db T hT => ?_
    rw [view_append]
    exact view_of_table_ne (fun w hw he => hT (he.symm.trans (sweepWrites_table hw))) _

lemma wp_setUserStatus_call {actor target : String} {status : UserStatus} {now : Timestamp}
    (hcall : calls t = .setUserStatus actor target status now) (hfirst : s.log.reports t = []) :
    wp (accountGuarantee settings calls db₀) t (Phase6AdminService.request settings.py actor
      (.setUserStatus target status now)) (.kept (accountGuarantee settings calls db₀) t) s [] := by
  have hwork : ∀ s : Shared store, s.log.reports t = [] → wp (accountGuarantee settings calls db₀) t
      (Phase6AdminService.setUserStatus settings.py actor target status now)
      (.kept (accountGuarantee settings calls db₀) t) s [] := by
    intro s hfirst
    have hraised : (accountGuarantee settings calls db₀).raised t (s.log.reports t) :=
      raised_nil hfirst
    refine wp_assert hraised fun _ => wp_assert hraised fun _ => ?_
    refine wp_transaction_silent (silent_updateUserStatus.bind fun _ => .bind ?_ fun _ => trivial)
      (fun _ _ hs => raised_of_later hfirst hs) fun s₀ _ => ?_
    · split
      · exact silent_revokeAllRefreshTokensForUser
      · trivial
    refine wp_bind.mpr (wp_bind.mpr (wp_updateRows fun s₁ ws₁ done hnodup hran => ?_))
    have hsmall : ¬ 1 < done.length := by
      rcases hran.nil_or_single target hnodup (fun κ _ hp => by simpa using hp) with
        rfl | ⟨u, rfl⟩ <;> simp
    dsimp only
    rw [if_neg hsmall]
    refine wp_bind.mpr (wp_revokeIf hran.follows.valid fun s₂ ws₂ n hs₂ hrest s' hs' => ?_)
    have heffect := hran.effect s' (hs₂.trans hs')
    refine ⟨.userStatusSet hcall ⟨fun id => ?_, fun T hT hT' => ?_⟩, trivial⟩
    · have huser : (view ws₂ s'.db).get .user id = (view ws₁ s'.db).get .user id := by
        rw [Db.get, hrest s'.db .user (by simp), Db.get]
      rw [huser]
      rcases heffect.cases id with hsame | ⟨u, hu, hbefore, hafter⟩
      · exact .inl hsame
      · exact .inr ⟨by simpa using hran.matched id u hu, u, hbefore, hafter⟩
    · rw [hrest s'.db T hT', heffect.other T hT]
      rfl
  have hraised : (accountGuarantee settings calls db₀).raised t (s.log.reports t) :=
    raised_nil hfirst
  refine wp_bind.mpr (wp_assert hraised fun _ => wp_bind.mpr ?_)
  refine wp_connection (wp_query fun s₁ hs₁ s₂ hs₂ => ?_)
  have hread : Later (accountGuarantee settings calls db₀) t s s₂ :=
    .of_follows (hs₁.selected _) hs₂
  have hreports : s₂.log.reports t = [] := hread.reports.trans hfirst
  dsimp only
  split
  · exact wp_bind.mpr (wp_mono (fun _ _ _ _ => trivial) (fun _ _ _ h => h) (hwork s₂ hreports))
  · exact raised_of_later hfirst hread

/-- Every account call keeps the account guarantee. -/
theorem account_keeps : Keeps (accountGuarantee settings calls db₀)
    fun t => (calls t).prog settings := by
  intro t s hv hfirst _
  change wp (accountGuarantee settings calls db₀) t ((calls t).prog settings) _ s []
  rcases hcall : calls t with _ | _ | _ | _ | _
  case register =>
    exact wp_bind.mpr (wp_mono (fun _ _ _ _ => trivial) (fun _ _ _ h => h)
      (wp_register hcall hfirst))
  case requestEmailVerification => exact wp_requestEmailVerification hcall hfirst
  case confirmEmailVerification =>
    refine wp_bind.mpr (wp_mono (fun _ _ _ _ => trivial) (fun _ _ _ h => h)
      (wp_confirmEmailVerification hcall hfirst))
  case oauthCallback => exact wp_oauthCallback hcall hfirst
  case setUserStatus => exact wp_setUserStatus_call hcall hfirst

theorem accountLog_of_run {acts : List (Act store)} {sys : System store}
    (hunique : UniqueEntries db₀) (hrun : accountRun settings calls db₀ acts = some sys) :
    AccountLog settings calls db₀ sys.shared.log :=
  run_valid account_keeps rfl hunique hrun

/-! ## Concrete inputs -/

/-- One client, whose users get `temis:user`; a provider accepts any text. -/
def plainAccountSettings : AccountSettings where
  toAuthSettings := { plainSettings with
    authClients := fun clientId =>
      if clientId = "temis" then some ⟨"temis", "temis", [], ⟨"temis", "user"⟩⟩ else none }
  passwordPolicy := ⟨8, none⟩
  isProviderEmail _ := true
  isProviderUrl _ := true

/-- A pending account with its password and an open verification. -/
def pendingAccount : Db store := view
  [.put .user "bob" ⟨some "bob@example.com", none, none, .pendingEmailVerification, false⟩,
    .put .passwordCredential "c1" ⟨"bob", "bob@example.com", "old", 0, none⟩,
    .put .emailVerificationToken "v1" ⟨"verify", "bob", 1000, none, none, none, none, none, none,
      none⟩]
  fun _ => ∅

/-- Steps of process `t` that scan no row. -/
def steps (t n : ℕ) : List (Act store) := List.replicate n (.step t [])

end WiseacctSso
