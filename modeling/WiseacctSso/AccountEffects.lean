import WiseacctSso.AccountServices
import WiseacctSso.ReadCommittedEffects
import WiseacctSso.SessionEffects

/-!
# What an account transaction does to the tables

Relations between the tables before and after one part of a transaction. A transaction is
a chain of them, from the committed tables to those it commits.
-/
namespace WiseacctSso
open ReadCommitted

/-- The role as `Role` keeps it. -/
def DefaultRole.toRole (defaultRole : DefaultRole) : Role :=
  ⟨defaultRole.serviceKey, defaultRole.name⟩

/-- The user of a confirmation once it is activated. -/
def User.activated (u : User) : User := { u with status := .active, emailVerified := true }

/-- One live verification token of the user is marked used. -/
structure TokenUsed (tokenId userId : String) (usedAt : Timestamp)
    (token : EmailVerificationToken) (before after : Db store) : Prop where
  found : before.get .emailVerificationToken tokenId = some token
  owner : token.userId = userId
  unused : token.usedAt = none
  unexpired : usedAt < token.expiresAt
  lookup : ∀ κ, after.get .emailVerificationToken κ =
    if κ = tokenId then some { token with usedAt := some usedAt }
    else before.get .emailVerificationToken κ
  other : ∀ T, T ≠ .emailVerificationToken → after T = before T

/-- A pending user becomes active, under its old id or under a free one. -/
structure UserActivated (userId activatedId : String) (u : User) (before after : Db store) :
    Prop where
  found : before.get .user userId = some u
  pending : u.status = .pendingEmailVerification
  fresh : activatedId ≠ userId → before.get .user activatedId = none
  lookup : ∀ id, after.get .user id =
    if id = activatedId then some u.activated
    else if id = userId then none else before.get .user id
  other : ∀ T, T ≠ .user → after T = before T

/-- Rows of the user in the child tables become what `f` makes of them; all of them do in
the tables `whole`. -/
structure Cascaded (f : (T : Table) → T.Row → Option T.Row) (userId : String)
    (Ts whole : List Table) (before after : Db store) : Prop where
  child : ∀ T ∈ Ts, ∀ κ, after.get T κ = before.get T κ ∨
    ∃ r, before.get T κ = some r ∧ T.owner r = some userId ∧ after.get T κ = f T r
  complete : ∀ T ∈ Ts, T ∈ whole → ∀ κ r, before.get T κ = some r → T.owner r = some userId →
    after.get T κ = f T r
  other : ∀ T, T ∉ Ts → after T = before T

def moveTo (newId : String) (T : Table) (r : T.Row) : Option T.Row := some (T.setOwner newId r)

def dropRow (T : Table) (_ : T.Row) : Option T.Row := none

/-- The role goes to the user, unless the user holds it already. Missing roles are made. -/
structure RoleGranted (userId : String) (role : Role) (before after : Db store) : Prop where
  roles : ∀ κ (r : Role), before.get .role κ = some r → after.get .role κ = some r
  granted : ∃ roleId κ, after.get .role roleId = some role ∧
    after.get .userRole κ = some ⟨userId, roleId⟩
  assigned : ∀ κ, after.get .userRole κ = before.get .userRole κ ∨
    before.get .userRole κ = none ∧ ∃ roleId, after.get .role roleId = some role ∧
      after.get .userRole κ = some ⟨userId, roleId⟩
  other : ∀ T, T ≠ .role → T ≠ .userRole → after T = before T

/-- The user is gone, together with its rows in the child tables. -/
structure UserRemoved (userId : String) (u : User) (whole : List Table) (before after : Db store) :
    Prop where
  found : before.get .user userId = some u
  lookup : ∀ id, after.get .user id = if id = userId then none else before.get .user id
  child : ∀ T ∈ childTables, ∀ κ, after.get T κ = before.get T κ ∨
    after.get T κ = none ∧ ∃ r, before.get T κ = some r ∧ T.owner r = some userId
  complete : ∀ T ∈ childTables, T ∈ whole → ∀ κ r, before.get T κ = some r →
    T.owner r = some userId → after.get T κ = none
  other : ∀ T, T ≠ .user → T ∉ childTables → after T = before T

/-- The pending credential is stored under its user, over the one that was there. -/
structure PendingUpserted (row : PendingPasswordCredential) (before after : Db store) : Prop where
  stored : ∃ κ, after.get .pendingPasswordCredential κ = some row
  kept : ∀ κ p, after.get .pendingPasswordCredential κ = some p →
    before.get .pendingPasswordCredential κ = some p ∨ p = row
  other : ∀ T, T ≠ .pendingPasswordCredential → after T = before T

/-- Pending credentials of the user go. -/
structure PendingRemoved (userId : String) (before after : Db store) : Prop where
  row : ∀ κ, after.get .pendingPasswordCredential κ = before.get .pendingPasswordCredential κ ∨
    after.get .pendingPasswordCredential κ = none ∧
      ∃ p, before.get .pendingPasswordCredential κ = some p ∧ p.userId = userId
  other : ∀ T, T ≠ .pendingPasswordCredential → after T = before T

/-- A commit that activates a user: its token is used, its row changes, its children
follow, and it is given the role. -/
structure Activation (tokenId userId activatedId : String) (usedAt : Timestamp) (role : Role)
    (token : EmailVerificationToken) (u : User) (whole : List Table) (before used activated
    moved after : Db store) : Prop where
  token : TokenUsed tokenId userId usedAt token before used
  user : UserActivated userId activatedId u used activated
  children : Cascaded (moveTo activatedId) userId childTables whole activated moved
  role : RoleGranted activatedId role moved after

/-- A commit that gives a user its pending password: its token is used, the credential
goes in and the pending one goes out. -/
structure Attachment (tokenId userId credentialId : String) (usedAt : Timestamp)
    (token : EmailVerificationToken) (pending : PendingPasswordCredential)
    (before used attached after : Db store) : Prop where
  token : TokenUsed tokenId userId usedAt token before used
  credential : Inserted (Γ := store) .passwordCredential credentialId
    ⟨pending.userId, pending.email, pending.passwordHash, 0, none⟩ used attached
  pending : PendingRemoved userId attached after

/-- A commit that brings in the user of a provider's profile with its first role. -/
structure Creation (userId socialId : String) (user : User) (social : SocialAccount) (role : Role)
    (before created linked after : Db store) : Prop where
  user : Inserted (Γ := store) .user userId user before created
  social : Inserted (Γ := store) .socialAccount socialId social created linked
  role : RoleGranted userId role linked after

/-! ## What is kept -/

lemma TokenUsed.get_other {tokenId userId : String} {usedAt : Timestamp}
    {token : EmailVerificationToken} {before after : Db store}
    (h : TokenUsed tokenId userId usedAt token before after) {T : Table}
    (hT : T ≠ .emailVerificationToken) (κ : String) : after.get T κ = before.get T κ := by
  rw [Db.get, h.other T hT, Db.get]

lemma PendingRemoved.get_other {userId : String} {before after : Db store}
    (h : PendingRemoved userId before after) {T : Table} (hT : T ≠ .pendingPasswordCredential)
    (κ : String) : after.get T κ = before.get T κ := by
  rw [Db.get, h.other T hT, Db.get]

/-- A grant takes no row away. -/
lemma RoleGranted.keeps {userId : String} {role : Role} {before after : Db store}
    (h : RoleGranted userId role before after) {T : Table} {κ : String} {r : T.Row}
    (hr : before.get T κ = some r) : after.get T κ = some r := by
  by_cases hrole : T = .role
  · subst hrole
    exact h.roles κ r hr
  by_cases huserRole : T = .userRole
  · subst huserRole
    rcases h.assigned κ with hsame | ⟨hnone, -⟩
    · exact hsame.trans hr
    · exact absurd (hnone.symm.trans hr) (by simp)
  · rwa [Db.get, h.other T hrole huserRole]

lemma Creation.keeps {userId socialId : String} {user : User} {social : SocialAccount}
    {role : Role} {before created linked after : Db store}
    (h : Creation userId socialId user social role before created linked after) {T : Table}
    {κ : String} {r : T.Row} (hr : before.get T κ = some r) : after.get T κ = some r :=
  h.role.keeps (h.social.keepsAll (h.user.keepsAll hr))

lemma Creation.other {userId socialId : String} {user : User} {social : SocialAccount}
    {role : Role} {before created linked after : Db store}
    (h : Creation userId socialId user social role before created linked after) {T : Table}
    (hT : T ∉ [Table.user, .socialAccount, .role, .userRole]) : after T = before T := by
  simp only [List.mem_cons, List.not_mem_nil, or_false, not_or] at hT
  rw [h.role.other T hT.2.2.1 hT.2.2.2, h.social.other T hT.2.1, h.user.other T hT.1]

/-- A row of a child table stays, or it is one of the activated user and follows it. -/
lemma Activation.child {tokenId userId activatedId : String} {usedAt : Timestamp} {role : Role}
    {token : EmailVerificationToken} {u : User} {whole : List Table} {before used activated
    moved after : Db store} (h : Activation tokenId userId activatedId usedAt role token u whole
      before used activated moved after) {T : Table} (hT : T ∈ childTables)
    (htoken : T ≠ .emailVerificationToken) (hrole : T ≠ .userRole) (κ : String) :
    after.get T κ = before.get T κ ∨ ∃ r, before.get T κ = some r ∧ T.owner r = some userId ∧
      after.get T κ = some (T.setOwner activatedId r) := by
  have hne : T ≠ .role ∧ T ≠ .user := by
    constructor <;> rintro rfl <;> simp [childTables] at hT
  have hafter : after.get T κ = moved.get T κ := by
    rw [Db.get, h.role.other T hne.1 hrole, Db.get]
  have hbefore : activated.get T κ = before.get T κ := by
    rw [Db.get, h.user.other T hne.2, h.token.other T htoken, Db.get]
  rw [hafter, ← hbefore]
  exact h.children.child T hT κ

/-- The rows of the other users stay. -/
lemma UserRemoved.keeps {userId : String} {u : User} {whole : List Table} {before after : Db store}
    (h : UserRemoved userId u whole before after) {T : Table} {κ : String} {r : T.Row}
    (hT : T ∈ childTables) (hr : before.get T κ = some r) (howner : T.owner r ≠ some userId) :
    after.get T κ = some r := by
  rcases h.child T hT κ with hsame | ⟨-, r', hr', ho⟩
  · exact hsame.trans hr
  · obtain rfl := Option.some.inj (hr'.symm.trans hr)
    exact absurd ho howner

end WiseacctSso
