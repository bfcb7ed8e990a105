import WiseacctSso.ReadCommittedSilence
import WiseacctSso.SessionEffects

/-!
# What the session stores do

One rule for each store method: what is known of the shared state and of the pending
writes when the method returns.
-/
namespace WiseacctSso
open ReadCommitted

variable {G : Guarantee store} {t : ℕ} {s : Shared store} {ws : List (Write store)}

lemma silent_requireOne {α : Type} {rows : List α} {operation : String} :
    (requireOne rows operation).Silent := by
  unfold requireOne
  split <;> trivial

lemma silent_oneOrNone {α : Type} {rows : List α} : (oneOrNone rows).Silent := by
  unfold oneOrNone
  split <;> trivial

/-- A locking SELECT by primary key, read with `one_or_none`. -/
theorem wp_lockOne {β : Type} {T : Table} {p : String → T.Row → Bool} (id : String)
    (hp : ∀ κ r, p κ r = true → κ = id) {f : Option (String × T.Row) → StoreProg β}
    {Q : Post store β}
    (hnone : ∀ sv s₁, Follows G t s sv → Follows G t sv s₁ →
      (∀ r, (view ws sv.db).get T id = some r → p id r = false) →
      wp G t (f none) Q s₁ ws)
    (hsome : ∀ s₁ r, Follows G t s s₁ → p id r = true → s₁.owner (.row T id) = some t →
      (view ws s₁.db).get T id = some r → wp G t (f (some (id, r))) Q s₁ ws) :
    wp G t (lockRows (Γ := store) T p >>= fun locked => oneOrNone locked >>= f) Q s ws := by
  refine wp_bind.mpr (wp_sweep fun s₀ s₁ done hs hd => ?_)
  simp only [sweepWrites_lock, List.append_nil]
  rcases hd.keyed hp with rfl | ⟨r, rfl⟩
  · by_cases hm : id ∈ matching (view ws s₀.db) T p
    · rcases hd.missed id hm with ⟨r, hr⟩ | ⟨sv, hsv, hsv', hn⟩
      · simp at hr
      · exact hnone sv s₁ (hs.trans hsv) hsv' hn
    · refine hnone s₀ s₁ hs hd.follows fun r hr => ?_
      by_contra hpr
      exact hm (mem_matching.mpr ⟨r, hr, by simpa using hpr⟩)
  · obtain ⟨hpr, ho, hr⟩ := hd.found id r (by simp)
    exact hsome s₁ r (hs.trans hd.follows) hpr ho hr

/-- A check that raises or lets the rest go on. -/
theorem wp_assert {β : Type} {c : Prop} [Decidable c] {e : Error} {f : Unit → StoreProg β}
    {Q : Post store β} (hraise : Q.raise e s ws) (hret : ¬ c → wp G t (f ()) Q s ws) :
    wp G t ((if c then .raise e else pure ()) >>= f) Q s ws := by
  split
  · exact hraise
  · next hc => exact hret hc

namespace UserReadStore

theorem wp_withRoles {id : String} {u : User} {Q : Post store CurrentUserRecord}
    (h : ∀ s' user, Follows G t s s' → user.id = id → Q.ret user s' ws) :
    wp G t (withRoles id u) Q s ws := by
  refine wp_bind.mpr (wp_query fun s' hs => ?_)
  exact h _ _ (hs.selected _) rfl

theorem wp_someWithRoles {id : String} {u : User} {Q : Post store (Option CurrentUserRecord)}
    (h : ∀ s' user, Follows G t s s' → user.id = id → Q.ret (some user) s' ws) :
    wp G t (some <$> withRoles id u) Q s ws :=
  wp_bind.mpr (wp_withRoles h)

theorem wp_findCurrentActive {userId : String} {Q : Post store (Option CurrentUserRecord)}
    (hnone : ∀ s', Follows G t s s' → Q.ret none s' ws)
    (hsome : ∀ s' user, Follows G t s s' → user.id = userId → Q.ret (some user) s' ws) :
    wp G t (findCurrentActive userId) Q s ws := by
  refine wp_bind.mpr (wp_query fun s' hs => ?_)
  rcases hfirst : firstRow (view ws s'.db) Table.user
    (fun id (u : User) => id = userId && u.status = .active) with _ | ⟨id, u⟩
  · exact hnone _ (hs.selected _)
  · obtain ⟨-, hid⟩ := firstRow_some hfirst
    simp only [Bool.and_eq_true, decide_eq_true_eq] at hid
    exact wp_someWithRoles fun s'' user hs' he =>
      hsome s'' user ((hs.selected _).trans hs') (he.trans hid.1)

theorem wp_findCurrent {userId : String} {Q : Post store (Option CurrentUserRecord)}
    (hnone : ∀ s', Follows G t s s' → Q.ret none s' ws)
    (hsome : ∀ s' user, Follows G t s s' → user.id = userId → Q.ret (some user) s' ws) :
    wp G t (findCurrent userId) Q s ws := by
  refine wp_bind.mpr (wp_query fun s' hs => ?_)
  rcases hfirst : firstRow (view ws s'.db) Table.user
    (fun id (_ : User) => id = userId) with _ | ⟨id, u⟩
  · exact hnone _ (hs.selected _)
  · obtain ⟨-, hid⟩ := firstRow_some hfirst
    exact wp_someWithRoles fun s'' user hs' he =>
      hsome s'' user ((hs.selected _).trans hs') (he.trans (by simpa using hid))

end UserReadStore

namespace TokenIssueStore

theorem wp_issueForActiveUser {userId : String} {refresh : RefreshTokenInsert}
    {Q : Post store (Option CurrentUserRecord)} (hraise : ∀ e s' ws', Q.raise e s' ws')
    (hnone : ∀ s', Follows G t s s' → Q.ret none s' [])
    (hsome : ∀ s₁ user u, Follows G t s s₁ → s₁.Holds t .user userId (some u) →
      u.status = .active → s₁.Holds t .refreshToken refresh.id none →
      Q.ret (some user) s₁ [.put .refreshToken refresh.id
        ⟨refresh.tokenHash, userId, refresh.expiresAt, none, refresh.audience⟩]) :
    wp G t (issueForActiveUser userId refresh) Q s [] := by
  refine wp_lockOne userId (fun κ r h => by simp at h; exact h.1) ?_ ?_
  · intro sv s₁ hsv hsv' _
    exact hnone s₁ (hsv.trans hsv')
  · intro s₁ u hs hp ho hu
    have hactive : u.status = .active := by simpa using hp
    refine wp_bind.mpr (UserReadStore.wp_findCurrentActive ?_ ?_)
    · intro s₂ hs₂
      exact hnone s₂ (hs.trans hs₂)
    · intro s₂ user hs₂ _
      refine wp_bind.mpr (wp_insertRow (fun s₃ _ => hraise _ _ _) fun s₃ hs₃ habsent _ => ?_)
      have hacq := Follows.acquire (t := t) hs₃.valid
        (rowLocks (Γ := store) .refreshToken refresh.id
          ⟨refresh.tokenHash, userId, refresh.expiresAt, none, refresh.audience⟩)
      exact hsome _ user u (((hs.trans hs₂).trans hs₃).trans hacq)
        (((hs₂.trans hs₃).trans hacq).holds ⟨ho, hu⟩) hactive
        ⟨acquire_owner_self List.mem_cons_self, habsent⟩

end TokenIssueStore

namespace RefreshRotationStore

/-- What a rotation knows when it returns: the token it read first, the token it revoked
and the row it put in. -/
structure Ready (t : ℕ) (sr s₁ : Shared store) (tokenHash audience : String)
    (now : Timestamp) (replacement : RefreshReplacement) (stored : RefreshToken)
    (sourceId : String) (source : RefreshToken) : Prop where
  read : ∃ κ, sr.db.get .refreshToken κ = some stored
  storedHash : stored.tokenHash = tokenHash
  audience : stored.audience = audience
  user : ∃ u : User, s₁.Holds t .user stored.userId (some u) ∧ u.status = .active
  held : s₁.Holds t .refreshToken sourceId (some source)
  sourceHash : source.tokenHash = tokenHash
  live : source.revokedAt = none
  unexpired : now < source.expiresAt
  fresh : s₁.Holds t .refreshToken replacement.id none
  ne : replacement.id ≠ sourceId

theorem wp_rotate {tokenHash audience : String} {now : Timestamp}
    {factory : RefreshTokenRecord → RefreshReplacement}
    {Q : Post store (Option RefreshTokenRecord)}
    (hraise : ∀ e s' ws', Follows G t s s' → Q.raise e s' ws')
    (hnone : ∀ s', Follows G t s s' → Q.ret none s' [])
    (hsome : ∀ sr s₁ (stored : RefreshToken) sourceId (source : RefreshToken),
      Follows G t s sr → Follows G t sr s₁ →
      Ready t sr s₁ tokenHash audience now (factory ⟨stored.userId, stored.audience⟩) stored
        sourceId source →
      Q.ret (some ⟨stored.userId, stored.audience⟩) s₁
        [.put .refreshToken sourceId { source with revokedAt := some now },
          .put .refreshToken (factory ⟨stored.userId, stored.audience⟩).id
            ⟨(factory ⟨stored.userId, stored.audience⟩).tokenHash, stored.userId,
              (factory ⟨stored.userId, stored.audience⟩).expiresAt, none, stored.audience⟩]) :
    wp G t (rotate tokenHash audience now factory) Q s [] := by
  refine wp_bind.mpr (wp_query fun sr hsr => ?_)
  have hread := hsr.selected (.storedRefreshToken tokenHash)
  rcases hfirst : firstRow (view [] sr.db) Table.refreshToken
    (fun _ (r : RefreshToken) => r.tokenHash = tokenHash) with _ | ⟨κ, stored⟩
  · exact hnone _ hread
  obtain ⟨hstored, hhash⟩ := firstRow_some hfirst
  simp only [Option.map_some]
  by_cases haud : stored.audience = audience
  swap
  · rw [if_pos haud]
    exact hnone _ hread
  rw [if_neg (not_not.mpr haud)]
  refine wp_lockOne stored.userId (fun κ r h => by simp at h; exact h.1) ?_ ?_
  · intro sv s₁ hsv hsv' _
    exact hnone s₁ ((hread.trans hsv).trans hsv')
  intro s₁ u hs₁ hp ho hu
  have hactive : u.status = .active := by simpa using hp
  refine wp_bind.mpr (wp_sweep fun s₂ s₃ done hs₂ hd => ?_)
  dsimp only
  by_cases hone : done.length = 1
  swap
  · rw [if_pos hone]
    exact hraise _ _ _ (((hread.trans hs₁).trans hs₂).trans hd.follows)
  obtain ⟨⟨sourceId, source⟩, rfl⟩ := List.length_eq_one_iff.mp hone
  rw [if_neg (not_not.mpr hone)]
  obtain ⟨hmatch, hown, hsource⟩ := hd.found sourceId source (by simp)
  simp only [Bool.and_eq_true, decide_eq_true_eq] at hmatch
  refine wp_bind.mpr (wp_insertRow (fun s₄ hs₄ => hraise _ _ _ ?_) fun s₄ hs₄ habsent _ => ?_)
  · exact (((hread.trans hs₁).trans hs₂).trans hd.follows).trans hs₄
  set replacement := factory ⟨stored.userId, stored.audience⟩
  have hacq := Follows.acquire (t := t) hs₄.valid
    (rowLocks (Γ := store) .refreshToken replacement.id
      ⟨replacement.tokenHash, stored.userId, replacement.expiresAt, none, stored.audience⟩)
  have hend := hs₄.trans hacq
  have hview : (view (Γ := store)
      [.put .refreshToken sourceId { source with revokedAt := some now }] s₄.db
     ).get .refreshToken replacement.id = none := habsent
  have hne : replacement.id ≠ sourceId := by
    rintro he
    rw [he, view_cons, view_nil, apply_put_get, if_pos rfl] at hview
    exact absurd hview (by simp)
  rw [view_cons, view_nil, apply_put_get, if_neg hne] at hview
  refine hsome (sr.record (.selected t (.storedRefreshToken tokenHash))) _ stored sourceId source
    hread (((hs₁.trans hs₂).trans hd.follows).trans hend) ⟨⟨κ, hstored⟩, by simpa using hhash,
    haud, ⟨u, (((hs₂.trans hd.follows).trans hend)).holds ⟨ho, hu⟩, hactive⟩,
    hend.holds ⟨hown, hsource⟩, hmatch.1.1, hmatch.1.2, hmatch.2,
    ⟨acquire_owner_self List.mem_cons_self, hview⟩, hne⟩

open Prog.Silent in
lemma silent_rotate {tokenHash audience : String} {now : Timestamp}
    {factory : RefreshTokenRecord → RefreshReplacement} :
    (rotate tokenHash audience now factory).Silent := by
  refine query.bind fun stored => ?_
  split
  · trivial
  split
  · trivial
  refine lockRows.bind fun locked => silent_oneOrNone.bind fun row => ?_
  split
  · trivial
  refine updateRows.bind fun revoked => ?_
  dsimp only
  split
  · trivial
  · exact insertRow.bind fun _ => trivial

end RefreshRotationStore

namespace LogoutStore

theorem wp_revoke {tokenHash : String} {now : Timestamp} {Q : Post store (Option String)}
    (h : ∀ s₀ s₁ r done, Follows G t s s₀ → Swept G t Table.refreshToken
        (fun _ r => r.tokenHash = tokenHash && r.revokedAt = none)
        (matching s₀.db .refreshToken fun _ r => r.tokenHash = tokenHash && r.revokedAt = none)
        [] s₀ s₁ done →
      Q.ret r s₁ ([] ++ sweepWrites (Γ := store) (T := Table.refreshToken)
        (.set (fun r : RefreshToken => { r with revokedAt := some now })) done)) :
    wp G t (revoke tokenHash now) Q s [] := by
  refine wp_bind.mpr (wp_query fun sr hsr => ?_)
  refine wp_bind.mpr (wp_sweep fun s₀ s₁ done hs₀ hd => ?_)
  exact h s₀ s₁ _ done ((hsr.selected _).trans hs₀) hd

end LogoutStore

namespace PasswordAuthStore

theorem wp_markLoginSuccess {userId : String} {Q : Post store Unit}
    (hraise : ∀ e s' ws', Q.raise e s' ws')
    (h : ∀ s₁ κ c, Follows G t s s₁ → s₁.Holds t .passwordCredential κ (some c) →
      c.userId = userId →
      Q.ret () s₁ [.put .passwordCredential κ
        { c with failedLoginCount := 0, lockedUntil := none }]) :
    wp G t (markLoginSuccess userId) Q s [] := by
  refine wp_bind.mpr (wp_sweep fun s₀ s₁ done hs₀ hd => ?_)
  by_cases hone : done.length = 1
  · obtain ⟨⟨κ, c⟩, rfl⟩ := List.length_eq_one_iff.mp hone
    obtain ⟨hp, ho, hc⟩ := hd.found κ c (by simp)
    exact h s₁ κ c (hs₀.trans hd.follows) ⟨ho, hc⟩ (by simpa using hp)
  · simp only [requireOne, hone, if_false]
    exact hraise _ _ _

end PasswordAuthStore

namespace FailedLoginStore

/-- The count of the credential goes up, and at the threshold the credential is locked. -/
def failureWrites (κ : String) (c : PasswordCredential) (lockedUntil : Timestamp)
    (threshold : ℕ) : List (Write store) :=
  .put .passwordCredential κ { c with failedLoginCount := c.failedLoginCount + 1 } ::
    if threshold ≤ c.failedLoginCount + 1 then
      [.put .passwordCredential κ { c with failedLoginCount := c.failedLoginCount + 1,
                                           lockedUntil := some lockedUntil }]
    else []

/-- The lock that a failure sets, if it sets one. -/
def failureLock (c : PasswordCredential) (lockedUntil : Timestamp) (threshold : ℕ) :
    Option Timestamp :=
  if threshold ≤ c.failedLoginCount + 1 then some lockedUntil else none

lemma failureWrites_get (κ κ' : String) (c : PasswordCredential) (lockedUntil : Timestamp)
    (threshold : ℕ) (db : Db store) :
    (view (failureWrites κ c lockedUntil threshold) db).get .passwordCredential κ' =
      if κ' = κ then some { c with
        failedLoginCount := c.failedLoginCount + 1,
        lockedUntil := failureLock c lockedUntil threshold <|> c.lockedUntil }
      else db.get .passwordCredential κ' := by
  unfold failureWrites failureLock
  split <;> simp only [view_cons, view_nil, apply_put_get] <;> split <;> rfl

lemma failureWrites_table {κ : String} {c : PasswordCredential} {lockedUntil : Timestamp}
    {threshold : ℕ} {w : Write store} (hw : w ∈ failureWrites κ c lockedUntil threshold) :
    w.place.1 = .passwordCredential := by
  unfold failureWrites at hw
  split at hw
  · simp only [List.mem_cons, List.not_mem_nil, or_false] at hw
    rcases hw with rfl | rfl <;> rfl
  · obtain rfl := List.mem_singleton.mp hw
    rfl

/-- The user has one credential at most, so two locked rows are the same row. -/
lemma Swept.credential {userId : String} {p : String → PasswordCredential → Bool}
    (hp : ∀ κ c, p κ c = true → c.userId = userId) {keys : List String} {s₀ s₁ : Shared store}
    {done : List (String × PasswordCredential)}
    (hd : Swept G t Table.passwordCredential p keys [] s₀ s₁ done) :
    done = [] ∨ ∃ κ c, done = [(κ, c)] := by
  rcases hdone : done with _ | ⟨⟨κ, c⟩, rest⟩
  · exact .inl rfl
  obtain ⟨hpc, -, hc⟩ := hd.found κ c (by simp [hdone])
  have hsingle : ∀ κ' c', (κ', c') ∈ done → κ' = κ := by
    intro κ' c' hm
    obtain ⟨hpc', -, hc'⟩ := hd.found κ' c' hm
    exact hd.follows.valid.unique .passwordCredential κ' κ c' c hc' hc (.userId userId)
      (by simp [hp κ' c' hpc']) (by simp [hp κ c hpc])
  rcases hd.single hsingle with hnil | ⟨c', hone⟩
  · simp [hdone] at hnil
  · exact .inr ⟨κ, c', hdone ▸ hone⟩

/-- A failure finds no credential of the user, or counts itself on the one there is, if the
count stays in range, and locks it when the new count reaches the threshold. -/
theorem wp_recordFailure {userId : String} {lockedUntil : Timestamp} {threshold : ℕ}
    {Q : Post store FailedLoginResult}
    (hraise : threshold < 1 → ∀ e s' ws', Q.raise e s' ws')
    (hrange : ∀ s₁ κ (c : PasswordCredential), Follows G t s s₁ →
      s₁.Holds t .passwordCredential κ (some c) → c.userId = userId →
      maxFailedLoginCount ≤ c.failedLoginCount → ∀ ws', Q.raise .numericOutOfRange s₁ ws')
    (hmissing : ∀ s₁, Follows G t s s₁ → (∀ κ, ∃ sv, Follows G t s sv ∧ Follows G t sv s₁ ∧
        ∀ c, sv.db.get .passwordCredential κ = some c → c.userId ≠ userId) →
      Q.ret ⟨false, none, none⟩ s₁ [])
    (h : ∀ s₁ κ (c : PasswordCredential), Follows G t s s₁ →
      s₁.Holds t .passwordCredential κ (some c) → c.userId = userId →
      Q.ret ⟨true, some (c.failedLoginCount + 1), failureLock c lockedUntil threshold⟩ s₁
        (failureWrites κ c lockedUntil threshold)) :
    wp G t (recordFailure userId lockedUntil threshold) Q s [] := by
  unfold recordFailure
  split
  · next hthreshold => exact hraise hthreshold _ _ _
  refine wp_bind.mpr (wp_sweep fun s₀ s₁ done hs₀ hd => ?_)
  have howner : ∀ (κ : String) (c : PasswordCredential), decide (c.userId = userId) = true →
      c.userId = userId := by simp
  rcases Swept.credential howner hd with rfl | ⟨κ, c, rfl⟩
  · refine hmissing s₁ (hs₀.trans hd.follows) fun κ => ?_
    by_cases hm : κ ∈ matching (view [] s₀.db) Table.passwordCredential
        fun _ (c : PasswordCredential) => c.userId = userId
    · rcases hd.missed κ hm with ⟨c, hc⟩ | ⟨sv, hsv, hsv', hn⟩
      · simp at hc
      · exact ⟨sv, hs₀.trans hsv, hsv', fun c hc => by simpa using hn c hc⟩
    · refine ⟨s₀, hs₀, hd.follows, fun c hc huser => ?_⟩
      exact hm (mem_matching.mpr ⟨c, hc, by simpa using huser⟩)
  obtain ⟨hp, ho, hc⟩ := hd.found κ c (by simp)
  have huser : c.userId = userId := by simpa using hp
  dsimp only
  split
  · next hmax =>
    rw [List.any_cons, List.any_nil, Bool.or_false, decide_eq_true_eq] at hmax
    exact hrange s₁ κ c (hs₀.trans hd.follows) ⟨ho, hc⟩ huser hmax _
  refine wp_bind.mpr (wp_sweep fun s₂ s₃ locked hs₂ hl => ?_)
  have hfollows := hs₂.trans hl.follows
  have hheld : ∀ sv, Follows G t s₁ sv → sv.Holds t .passwordCredential κ (some c) :=
    fun sv hsv => hsv.holds ⟨ho, hc⟩
  set c₁ : PasswordCredential := { c with failedLoginCount := c.failedLoginCount + 1 } with hc₁
  have hown : ∀ sv : Shared store,
      (view (Γ := store) ([] ++ [.put .passwordCredential κ c₁]) sv.db).get
        .passwordCredential κ = some c₁ := by
    intro sv
    rw [view_concat_put_get, if_pos rfl]
  -- The user has one credential, so the second statement can only meet the same row.
  have hsame : ∀ κ' c', (κ', c') ∈ locked → κ' = κ := by
    intro κ' c' hm
    obtain ⟨hp', -, hc'⟩ := hl.found κ' c' hm
    simp only [Bool.and_eq_true, decide_eq_true_eq] at hp'
    by_contra hne
    have hview : s₃.db.get .passwordCredential κ' = some c' := by
      have hput := view_concat_put_get (Γ := store) [] s₃.db .passwordCredential κ κ' c₁
      rw [if_neg hne] at hput
      exact hput.symm.trans hc'
    exact hne (hl.follows.valid.unique .passwordCredential κ' κ c' c hview
      (hheld s₃ hfollows).lookup (.userId userId) (by simp [hp'.1]) (by simp [huser]))
  have hret := h s₃ κ c ((hs₀.trans hd.follows).trans hfollows) (hheld s₃ hfollows) huser
  by_cases hthreshold : threshold ≤ c.failedLoginCount + 1
  · have hmatch : κ ∈ matching (view (Γ := store) ([] ++ [.put .passwordCredential κ c₁]) s₂.db)
        Table.passwordCredential
        fun _ (c : PasswordCredential) => c.userId = userId && threshold ≤ c.failedLoginCount :=
      mem_matching.mpr ⟨c₁, hown s₂, by simp [hc₁, huser, hthreshold]⟩
    have hlocked : ∃ c', (κ, c') ∈ locked := by
      rcases hl.missed κ hmatch with hdone | ⟨sv, -, -, hn⟩
      · exact hdone
      · have hmissed := hn c₁ (hown sv)
        simp [hc₁, huser, hthreshold] at hmissed
    obtain ⟨c', hc'⟩ := hlocked
    rcases hl.single hsame with rfl | ⟨c'', rfl⟩
    · simp at hc'
    obtain rfl : c₁ = c'' := Option.some.inj ((hown s₃).symm.trans
      (hl.found κ c'' (by simp)).2.2)
    simp only [failureWrites, failureLock, if_pos hthreshold] at hret
    exact hret
  · simp only [failureWrites, failureLock, if_neg hthreshold] at hret
    rcases hl.single hsame with rfl | ⟨c', rfl⟩
    · exact hret
    · obtain ⟨hp', -, hc'⟩ := hl.found κ c' (by simp)
      obtain rfl : c₁ = c' := Option.some.inj ((hown s₃).symm.trans hc')
      simp [hc₁, hthreshold] at hp'

end FailedLoginStore

namespace AdminMutationStore

theorem wp_updateUserStatus {userId : String} {status : UserStatus} {Q : Post store Bool}
    (hmissing : ∀ sv s₁, Follows G t s sv → Follows G t sv s₁ → sv.db.get .user userId = none →
      Q.ret false s₁ [])
    (h : ∀ s₁ (u : User), Follows G t s s₁ → s₁.Holds t .user userId (some u) →
      Q.ret true s₁ [.put .user userId { u with status := status }]) :
    wp G t (updateUserStatus userId status) Q s [] := by
  refine wp_bind.mpr (wp_sweep fun s₀ s₁ done hs₀ hd => ?_)
  have hkey : ∀ (κ : String) (_ : User), decide (κ = userId) = true → κ = userId :=
    fun κ _ hp => by simpa using hp
  rcases hd.keyed hkey with rfl | ⟨u, rfl⟩
  · by_cases hm : userId ∈ matching (view [] s₀.db) Table.user fun id _ => id = userId
    · rcases hd.missed userId hm with ⟨r, hr⟩ | ⟨sv, hsv, hsv', hn⟩
      · simp at hr
      · refine hmissing sv s₁ (hs₀.trans hsv) hsv' ?_
        rcases hget : sv.db.get .user userId with _ | u
        · rfl
        · simpa using hn u hget
    · refine hmissing s₀ s₁ hs₀ hd.follows ?_
      rcases hget : s₀.db.get .user userId with _ | u
      · rfl
      · exact absurd (mem_matching.mpr ⟨u, hget, by simp⟩) hm
  · obtain ⟨-, ho, hu⟩ := hd.found userId u (by simp)
    exact h s₁ u (hs₀.trans hd.follows) ⟨ho, hu⟩

/-- The WHERE clause of a revocation. -/
abbrev revocable (userId : String) : String → RefreshToken → Bool :=
  fun _ r => r.userId = userId && r.revokedAt = none

/-- A revocation sweeps the live tokens of a user under that user's lock. -/
theorem wp_revokeAllRefreshTokensForUser {userId : String} {now : Timestamp}
    {Q : Post store ℕ}
    (hmissing : ∀ sv s₁, Follows G t s sv → Follows G t sv s₁ →
      (view ws sv.db).get .user userId = none → Q.ret 0 s₁ ws)
    (h : ∀ sl s₀ s₁ done, Follows G t s sl → sl.owner (.row .user userId) = some t →
      Follows G t sl s₀ → Swept G t Table.refreshToken (revocable userId)
        (matching (view ws s₀.db) .refreshToken (revocable userId)) ws s₀ s₁ done →
      Q.ret done.length s₁ (ws ++ sweepWrites (Γ := store) (T := Table.refreshToken)
        (.set fun r : RefreshToken => { r with revokedAt := some now }) done)) :
    wp G t (revokeAllRefreshTokensForUser userId now) Q s ws := by
  refine wp_bind.mpr (wp_lockOne userId (fun κ r hp => by simpa using hp) ?_ ?_)
  · intro sv s₁ hsv hsv' hn
    refine hmissing sv s₁ hsv hsv' ?_
    rcases hget : (view ws sv.db).get .user userId with _ | u
    · rfl
    · simpa using hn u hget
  · intro sl u hsl _ ho hu
    refine wp_bind.mpr (wp_sweep fun s₀ s₁ done hs₀ hd => ?_)
    exact h sl s₀ s₁ done hsl ho hs₀ hd

/-- An upsert brings the role in or writes an existing one back as it was. -/
theorem wp_upsertRole {id serviceKey name : String} {Q : Post store AdminRoleProfile}
    (hraise : ∀ e s' ws', Q.raise e s' ws')
    (h : ∀ s₁ κ, Follows G t s s₁ →
      s₁.Holds t .role κ none ∨ s₁.Holds t .role κ (some ⟨serviceKey, name⟩) →
      Q.ret ⟨κ, serviceKey, name⟩ s₁ [.put .role κ ⟨serviceKey, name⟩]) :
    wp G t (upsertRole id serviceKey name) Q s [] := by
  refine wp_bind.mpr (wp_insertOrSkip (fun s' _ => hraise _ _ _) ?_ ?_)
  · intro s₀ hs₀ _
    refine wp_bind.mpr (wp_sweep fun s₁ s₂ done hs₁ hd => ?_)
    match done, hd with
    | [], hd => exact hraise _ _ _
    | _ :: _ :: _, hd => exact hraise _ _ _
    | [(κ, ⟨k, n⟩)], hd =>
      obtain ⟨hp, ho, hr⟩ := hd.found κ ⟨k, n⟩ (by simp)
      simp only [Bool.and_eq_true, decide_eq_true_eq] at hp
      obtain ⟨rfl, rfl⟩ := hp
      exact h s₂ κ ((hs₀.trans hs₁).trans hd.follows) (.inr ⟨ho, hr⟩)
  · intro s₀ hs₀ habsent _
    exact h _ id (hs₀.trans (.acquire hs₀.valid _))
      (.inl ⟨acquire_owner_self List.mem_cons_self, habsent⟩)

theorem wp_assignRoleToUser {id userId roleId : String} {Q : Post store Bool}
    (hraise : ∀ e s' ws', Q.raise e s' ws') (hskip : ∀ s₁, Follows G t s s₁ → Q.ret false s₁ ws)
    (h : ∀ s₁, Follows G t s s₁ → s₁.owner (.row .userRole id) = some t →
      (view ws s₁.db).get .userRole id = none →
      Q.ret true s₁ (ws ++ [.put .userRole id ⟨userId, roleId⟩])) :
    wp G t (assignRoleToUser id userId roleId) Q s ws := by
  refine wp_insertOrSkip (fun s' _ => hraise _ _ _) (fun s₀ hs₀ _ => hskip s₀ hs₀) ?_
  intro s₀ hs₀ habsent _
  exact h _ (hs₀.trans (.acquire hs₀.valid _)) (acquire_owner_self List.mem_cons_self) habsent

theorem wp_removeRoleFromUser {userId roleId : String} {Q : Post store Bool}
    (h : ∀ s₀ s₁ done, Follows G t s s₀ → Swept G t Table.userRole
        (fun _ ur => ur.userId = userId && ur.roleId = roleId)
        (matching s₀.db .userRole fun _ ur => ur.userId = userId && ur.roleId = roleId)
        [] s₀ s₁ done →
      Q.ret (decide (0 < done.length)) s₁
        ([] ++ sweepWrites (Γ := store) (T := Table.userRole) .delete done)) :
    wp G t (removeRoleFromUser userId roleId) Q s [] :=
  wp_bind.mpr (wp_sweep fun s₀ s₁ done hs₀ hd => h s₀ s₁ done hs₀ hd)

end AdminMutationStore

namespace PasswordResetStore

open AdminMutationStore

/-- What a reset knows once it has marked a token used: the row it read first, and the row
it marked. -/
structure Consumed (t : ℕ) (sr s₁ : Shared store) (tokenHash : String) (now : Timestamp)
    (stored : PasswordResetToken) (tokenId : String) (token : PasswordResetToken) : Prop where
  read : sr.db.get .passwordResetToken tokenId = some stored
  hash : stored.tokenHash = tokenHash
  held : s₁.Holds t .passwordResetToken tokenId (some token)
  unused : token.usedAt = none
  unexpired : now < token.expiresAt

/-- The token is marked used and the credential is replaced. -/
def resetWrites (tokenId : String) (token : PasswordResetToken) (κ : String)
    (c : PasswordCredential) (passwordHash : String) (now : Timestamp) : List (Write store) :=
  [.put .passwordResetToken tokenId { token with usedAt := some now },
    .put .passwordCredential κ { c with
      passwordHash := passwordHash, failedLoginCount := 0, lockedUntil := none }]

/-- A reset finds no token to mark, or marks one whose user is missing, or marks one, replaces
the credential of its user and sweeps the live tokens under the user's lock. -/
theorem wp_confirm {tokenHash passwordHash : String} {now : Timestamp}
    {Q : Post store (Option String)} (hraise : ∀ e s' ws', Q.raise e s' ws')
    (hnone : ∀ s₁, Follows G t s s₁ → Q.ret none s₁ [])
    (hmissing : ∀ sr s₀ sv s₁ stored tokenId token, Follows G t s sr → Follows G t sr s₀ →
      Consumed t sr s₀ tokenHash now stored tokenId token → Follows G t s₀ sv →
      Follows G t sv s₁ → sv.db.get .user stored.userId = none →
      Q.ret none s₁ [.put .passwordResetToken tokenId { token with usedAt := some now }])
    (hsome : ∀ sr s₀ sl s₂ s₁ stored tokenId token κ (c : PasswordCredential) done,
      Follows G t s sr → Follows G t sr s₀ →
      Consumed t sr s₀ tokenHash now stored tokenId token → Follows G t s₀ sl →
      sl.owner (.row .user stored.userId) = some t → Follows G t sl s₂ →
      s₂.Holds t .passwordCredential κ (some c) → c.userId = stored.userId →
      Swept G t Table.refreshToken (revocable stored.userId)
        (matching (view (resetWrites tokenId token κ c passwordHash now) s₂.db) .refreshToken
          (revocable stored.userId)) (resetWrites tokenId token κ c passwordHash now) s₂ s₁ done →
      Q.ret (some stored.userId) s₁ (resetWrites tokenId token κ c passwordHash now ++
        sweepWrites (Γ := store) (T := Table.refreshToken)
          (.set fun r : RefreshToken => { r with revokedAt := some now }) done)) :
    wp G t (confirm tokenHash passwordHash now) Q s [] := by
  refine wp_bind.mpr (wp_query fun sr hsr => ?_)
  have hread := hsr.selected (.passwordResetToken tokenHash)
  rcases hfirst : firstRow (view [] sr.db) Table.passwordResetToken
    (fun _ (r : PasswordResetToken) => r.tokenHash = tokenHash && r.usedAt = none &&
      now < r.expiresAt) with _ | ⟨tokenId, stored⟩
  · exact hnone _ hread
  obtain ⟨hstored, hmatch⟩ := firstRow_some hfirst
  simp only [Bool.and_eq_true, decide_eq_true_eq] at hmatch
  refine wp_bind.mpr (wp_sweep fun s₁ s₂ consumed hs₁ hd => ?_)
  have hkey : ∀ (κ : String) (r : PasswordResetToken),
      (decide (κ = tokenId) && decide (r.usedAt = none) && decide (now < r.expiresAt)) = true →
        κ = tokenId := by
    intro κ r hp
    simp only [Bool.and_eq_true, decide_eq_true_eq] at hp
    exact hp.1.1
  rcases hd.keyed hkey with rfl | ⟨token, rfl⟩
  · exact hnone _ ((hread.trans hs₁).trans hd.follows)
  obtain ⟨hopen, hown, htoken⟩ := hd.found tokenId token (by simp)
  simp only [Bool.and_eq_true, decide_eq_true_eq] at hopen
  have hfollows := hs₁.trans hd.follows
  have hconsumed : Consumed t (sr.record (.selected t (.passwordResetToken tokenHash))) s₂
      tokenHash now stored tokenId token :=
    ⟨hstored, hmatch.1.1, ⟨hown, htoken⟩, hopen.1.2, hopen.2⟩
  dsimp only
  rw [if_neg (by simp)]
  refine wp_lockOne stored.userId (fun κ r hp => by simpa using hp) ?_ ?_
  · intro sv s₃ hsv hsv' hn
    refine hmissing _ s₂ sv s₃ stored tokenId token hread hfollows hconsumed hsv hsv' ?_
    rcases hget : sv.db.get .user stored.userId with _ | u
    · rfl
    · have hview : (view (Γ := store) ([] ++ [.put .passwordResetToken tokenId
          { token with usedAt := some now }]) sv.db).get .user stored.userId = some u := hget
      exact absurd (hn u hview) (by simp)
  intro sl u hsl _ ho _
  refine wp_bind.mpr (wp_sweep fun s₃ s₄ updated hs₃ hu => ?_)
  refine wp_bind.mpr ?_
  match updated, hu with
  | [], hu => exact hraise _ _ _
  | _ :: _ :: _, hu => exact hraise _ _ _
  | [(κ, c)], hu =>
    obtain ⟨hp, hown, hc⟩ := hu.found κ c (by simp)
    have huser : c.userId = stored.userId := by simpa using hp
    refine wp_bind.mpr (wp_sweep fun s₅ s₆ done hs₅ hsw => ?_)
    have hlast := (hs₃.trans hu.follows).trans hs₅
    exact hsome _ s₂ sl s₅ s₆ stored tokenId token κ c done hread hfollows hconsumed hsl ho hlast
      (hs₅.holds ⟨hown, hc⟩) huser hsw

open Prog.Silent in
lemma silent_confirm {tokenHash passwordHash : String} {now : Timestamp} :
    (confirm tokenHash passwordHash now).Silent := by
  refine query.bind fun token => ?_
  split
  · trivial
  refine updateRows.bind fun consumed => ?_
  dsimp only
  split
  · trivial
  refine lockRows.bind fun locked => silent_oneOrNone.bind fun row => ?_
  split
  · trivial
  · exact updateRows.bind fun _ => silent_requireOne.bind fun _ =>
      updateRows.bind fun _ => trivial

end PasswordResetStore

end WiseacctSso
