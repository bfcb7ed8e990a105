import WiseacctSso.SessionServices

/-!
# What a session commit does to the tables

Relations between the committed tables before and after one transaction.
-/
namespace WiseacctSso
open ReadCommitted

/-- The commit leaves every other table as it was. -/
def OnlyTables (Ts : List Table) (before after : Db store) : Prop :=
  ∀ T, T ∉ Ts → after T = before T

/-- Each refresh token stays as it was, or goes from live to revoked and satisfies `p`. -/
def TokensRevoked (p : RefreshToken → Prop) (before after : Db store) : Prop :=
  ∀ κ, after.get .refreshToken κ = before.get .refreshToken κ ∨
    ∃ r time, before.get .refreshToken κ = some r ∧ p r ∧ r.revokedAt = none ∧
      after.get .refreshToken κ = some { r with revokedAt := some time }

/-- No refresh token of the user is live. -/
def NoLiveToken (userId : String) (db : Db store) : Prop :=
  ∀ κ r, db.get .refreshToken κ = some r → r.userId = userId → r.revokedAt ≠ none

/-- All live tokens of the user are revoked. -/
structure SessionsRevoked (userId : String) (before after : Db store) : Prop where
  revoked : TokensRevoked (fun r => r.userId = userId) before after
  none_live : NoLiveToken userId after

/-- The commit holds the lock of a user who is ACTIVE. -/
def ActiveLocked (held : Lock store → Bool) (before : Db store) (userId : String) : Prop :=
  held (.row .user userId) = true ∧
    ∃ u : User, before.get .user userId = some u ∧ u.status = .active

/-- One new live token. -/
structure TokenInserted (userId audience : String) (issued : IssuedRefreshToken)
    (held : Lock store → Bool) (before after : Db store) : Prop where
  active : ActiveLocked held before userId
  fresh : before.get .refreshToken issued.id = none
  lookup : ∀ κ, after.get .refreshToken κ =
    if κ = issued.id then
      some ⟨issued.tokenHash, userId, issued.expiresAt, none, audience⟩
    else before.get .refreshToken κ
  only : OnlyTables [.refreshToken] before after

/-- One live token is revoked and one new token of the given user and audience goes in. -/
structure TokenRotated (tokenHash userId audience : String) (now : Timestamp)
    (issued : IssuedRefreshToken) (held : Lock store → Bool) (before after : Db store)
    (sourceId : String) (source : RefreshToken) : Prop where
  active : ActiveLocked held before userId
  found : before.get .refreshToken sourceId = some source
  hash : source.tokenHash = tokenHash
  live : source.revokedAt = none
  unexpired : now < source.expiresAt
  fresh : before.get .refreshToken issued.id = none
  lookup : ∀ κ, after.get .refreshToken κ =
    if κ = issued.id then
      some ⟨issued.tokenHash, userId, issued.expiresAt, none, audience⟩
    else if κ = sourceId then some { source with revokedAt := some now }
    else before.get .refreshToken κ
  only : OnlyTables [.refreshToken] before after

/-- The status of one user is set, if that user exists. -/
def UserStatusSet (userId : String) (status : UserStatus) (before after : Db store) : Prop :=
  ∀ id, after.get .user id =
    if id = userId then (before.get .user id).map fun u => { u with status := status }
    else before.get .user id

/-- Each credential stays as it was, or belongs to the user and is changed as `change` says. -/
def CredentialsChanged (userId : String)
    (change : PasswordCredential → PasswordCredential → Prop) (before after : Db store) : Prop :=
  ∀ κ, after.get .passwordCredential κ = before.get .passwordCredential κ ∨
    ∃ c c', before.get .passwordCredential κ = some c ∧ c.userId = userId ∧ change c c' ∧
      after.get .passwordCredential κ = some c'

def failuresCleared (c c' : PasswordCredential) : Prop :=
  c' = { c with failedLoginCount := 0, lockedUntil := none }

/-- One more failure is counted, and the credential is locked if a time is given. -/
def failureCounted (lockedUntil : Option Timestamp) (c c' : PasswordCredential) : Prop :=
  c' = { c with failedLoginCount := c.failedLoginCount + 1,
                lockedUntil := lockedUntil <|> c.lockedUntil }

def passwordStored (passwordHash : String) (c c' : PasswordCredential) : Prop :=
  c' = { c with passwordHash := passwordHash, failedLoginCount := 0, lockedUntil := none }

/-- Roles keep their rows; the user may gain one assignment. -/
structure RoleAssigned (userId roleId : String) (before after : Db store) : Prop where
  roles : ∀ id (r : Role), before.get .role id = some r → after.get .role id = some r
  kept : ∀ id (ur : UserRole), before.get .userRole id = some ur →
    after.get .userRole id = some ur
  added : ∀ id (ur : UserRole), after.get .userRole id = some ur →
    before.get .userRole id = some ur ∨ ur = ⟨userId, roleId⟩

/-- Assignments of the one role to the user may go; no other does, and none is added. -/
structure RoleRemoved (userId roleId : String) (before after : Db store) : Prop where
  kept : ∀ id (ur : UserRole), before.get .userRole id = some ur →
    after.get .userRole id = some ur ∨ ur = ⟨userId, roleId⟩
  added : ∀ id (ur : UserRole), after.get .userRole id = some ur →
    before.get .userRole id = some ur

lemma onlyTables_view {Ts : List Table} {ws : List (Write store)}
    (h : ∀ w ∈ ws, w.place.1 ∈ Ts) (db : Db store) : OnlyTables Ts db (view ws db) := by
  intro T hT
  refine view_of_table_ne (fun w hw he => hT ?_) db
  rw [← he]
  exact h w hw

lemma tokensRevoked_refl {p : RefreshToken → Prop} {before after : Db store}
    (h : after .refreshToken = before .refreshToken) : TokensRevoked p before after :=
  fun κ => .inl (by rw [Db.get, h, Db.get])

variable {G : Guarantee store} {t : ℕ} {s₀ s₁ s : Shared store} {ws : List (Write store)}

/-- An UPDATE that revokes live tokens, seen at the commit. -/
lemma tokensRevoked_of_swept {p : String → RefreshToken → Bool} {q : RefreshToken → Prop}
    (hp : ∀ κ r, p κ r = true → q r ∧ r.revokedAt = none)
    (hws : ∀ w ∈ ws, w.place.1 ≠ .refreshToken) {keys : List String}
    {done : List (String × RefreshToken)}
    (hd : Swept G t Table.refreshToken p keys ws s₀ s₁ done) (hs : Follows G t s₁ s)
    (now : Timestamp) :
    TokensRevoked q s.db (view (ws ++ sweepWrites (T := Table.refreshToken)
      (.set (fun r : RefreshToken => { r with revokedAt := some now })) done)
      s.db) := by
  intro κ
  by_cases hm : ∃ r, (κ, r) ∈ done
  · obtain ⟨r, hr⟩ := hm
    obtain ⟨hpr, ho, hl⟩ := hd.found κ r hr
    rw [← hs.view_get ho, view_get_of_table_ne hws] at hl
    obtain ⟨hq, hlive⟩ := hp κ r hpr
    exact .inr ⟨r, now, hl, hq, hlive, view_set_of_mem hd.nodup hr ws s.db⟩
  · refine .inl ?_
    rw [view_sweep_of_notMem (fun r hr => hm ⟨r, hr⟩), view_get_of_table_ne hws]

end WiseacctSso
