import WiseacctSso.SessionSteps

/-!
# What the commit of a password reset does

A reset marks one open token used. If the user of the token is there, it also replaces the
credential of that user and revokes the user's live refresh tokens.
-/
namespace WiseacctSso
open ReadCommitted PasswordResetStore AdminMutationStore

/-- One open reset token is marked used before it expires. -/
structure ResetTokenUsed (tokenId : String) (token : PasswordResetToken) (now : Timestamp)
    (before after : Db store) : Prop where
  found : before.get .passwordResetToken tokenId = some token
  unused : token.usedAt = none
  unexpired : now < token.expiresAt
  lookup : ∀ κ, after.get .passwordResetToken κ =
    if κ = tokenId then some { token with usedAt := some now }
    else before.get .passwordResetToken κ

/-- The credential of the user gets the hash and loses its failures and its lock; no refresh
token of the user stays live. -/
structure PasswordReplaced (userId passwordHash : String) (before after : Db store) : Prop where
  credential : ∃ κ c, before.get .passwordCredential κ = some c ∧ c.userId = userId ∧
    ∀ κ', after.get .passwordCredential κ' = if κ' = κ then some { c with
        passwordHash := passwordHash, failedLoginCount := 0, lockedUntil := none }
      else before.get .passwordCredential κ'
  tokens : SessionsRevoked userId before after
  only : OnlyTables [.passwordResetToken, .passwordCredential, .refreshToken] before after

namespace PasswordReplaced

variable {userId passwordHash : String} {before after : Db store}

lemma changed (h : PasswordReplaced userId passwordHash before after) :
    CredentialsChanged userId (passwordStored passwordHash) before after := by
  obtain ⟨κ, c, hc, huser, hafter⟩ := h.credential
  intro κ'
  rw [hafter]
  split
  · next hκ => exact .inr ⟨c, _, hκ ▸ hc, huser, rfl, rfl⟩
  · exact .inl rfl

lemma stored (h : PasswordReplaced userId passwordHash before after)
    (hunique : UniqueEntries before) {κ : String} {c : PasswordCredential}
    (hc : after.get .passwordCredential κ = some c) (huser : c.userId = userId) :
    c.passwordHash = passwordHash := by
  obtain ⟨κ₀, c₀, hc₀, huser₀, hafter⟩ := h.credential
  rw [hafter] at hc
  split at hc
  · obtain rfl := Option.some.inj hc
    rfl
  · next hκ =>
    -- A second credential of the user would break the unique index on `userId`.
    exact absurd (hunique .passwordCredential κ κ₀ c c₀ hc hc₀ (.userId userId)
      (by simp [huser]) (by simp [huser₀])) hκ

end PasswordReplaced

section writes
variable {G : Guarantee store} {t : ℕ} {tokenHash : String} {now : Timestamp}
  {sr s₀ s : Shared store} {stored token : PasswordResetToken} {tokenId : String}

lemma ResetTokenUsed.of_consumed (h : Consumed t sr s₀ tokenHash now stored tokenId token)
    (hs : Follows G t s₀ s) :
    ResetTokenUsed tokenId token now s.db
      (view [.put .passwordResetToken tokenId { token with usedAt := some now }] s.db) := by
  refine ⟨(hs.holds h.held).lookup, h.unused, h.unexpired, fun κ => ?_⟩
  rw [view_cons, view_nil, apply_put_get]

variable {passwordHash κ : String} {c : PasswordCredential} {sl s₁ s₂ : Shared store}
  {done : List (String × RefreshToken)}

lemma resetWrites_table {w : Write store}
    (hw : w ∈ resetWrites tokenId token κ c passwordHash now) :
    w.place.1 = .passwordResetToken ∨ w.place.1 = .passwordCredential := by
  simp only [resetWrites, List.mem_cons, List.not_mem_nil, or_false] at hw
  rcases hw with rfl | rfl
  · exact .inl rfl
  · exact .inr rfl

lemma view_reset_get {T : Table} (hT : T ≠ .refreshToken) (κ' : String) :
    (view (resetWrites tokenId token κ c passwordHash now ++
        sweepWrites (Γ := store) (T := Table.refreshToken)
          (.set fun r : RefreshToken => { r with revokedAt := some now }) done) s.db).get T κ' =
      (view (resetWrites tokenId token κ c passwordHash now) s.db).get T κ' := by
  rw [view_append]
  refine view_get_of_table_ne (fun w hw he => ?_) _ _
  rw [sweepWrites_table hw] at he
  exact hT he.symm

lemma ResetTokenUsed.of_reset (h : Consumed t sr s₀ tokenHash now stored tokenId token)
    (hs : Follows G t s₀ s) :
    ResetTokenUsed tokenId token now s.db
      (view (resetWrites tokenId token κ c passwordHash now ++
        sweepWrites (Γ := store) (T := Table.refreshToken)
          (.set fun r : RefreshToken => { r with revokedAt := some now }) done) s.db) := by
  refine ⟨(hs.holds h.held).lookup, h.unused, h.unexpired, fun κ' => ?_⟩
  rw [view_reset_get (by decide), resetWrites, view_cons, view_cons, view_nil,
    apply_get_of_place_ne (by simp [Write.place]), apply_put_get]

lemma PasswordReplaced.of_reset (hsteps : TakesSessionSteps G) {userId : String}
    (ho : sl.owner (.row .user userId) = some t) (hs₂ : Follows G t sl s₂)
    (hc : s₂.Holds t .passwordCredential κ (some c)) (huser : c.userId = userId)
    (hd : Swept G t Table.refreshToken (revocable userId)
      (matching (view (resetWrites tokenId token κ c passwordHash now) s₂.db) .refreshToken
        (revocable userId)) (resetWrites tokenId token κ c passwordHash now) s₂ s₁ done)
    (hs : Follows G t s₁ s) :
    PasswordReplaced userId passwordHash s.db
      (view (resetWrites tokenId token κ c passwordHash now ++
        sweepWrites (Γ := store) (T := Table.refreshToken)
          (.set fun r : RefreshToken => { r with revokedAt := some now }) done) s.db) := by
  have hheld := (hd.follows.trans hs).holds hc
  refine ⟨⟨κ, c, hheld.lookup, huser, fun κ' => ?_⟩,
    sessionsRevoked_of_swept hsteps ho hs₂ hd hs fun w hw he => ?_, onlyTables_view ?_ _⟩
  · rw [view_reset_get (by decide), resetWrites, view_cons, view_cons, view_nil, apply_put_get,
      apply_get_of_place_ne (by simp [Write.place])]
  · rcases resetWrites_table hw with htable | htable <;> simp [htable] at he
  · intro w hw
    rcases List.mem_append.mp hw with hw | hw
    · rcases resetWrites_table hw with htable | htable <;> simp [htable]
    · simp [sweepWrites_table hw]

end writes

end WiseacctSso
