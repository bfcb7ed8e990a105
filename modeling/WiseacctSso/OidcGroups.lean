import WiseacctSso.OidcServices
import Mathlib.Data.List.Sort
import Mathlib.Data.String.Basic

/-!
# OIDC role requirements and the groups claim

The policy of a client names the roles that admit a user and the services whose roles are
released. A group is a service key and a role name joined by a colon, which neither may
contain.
-/
namespace WiseacctSso.OidcState

/-! ## Client policies -/

structure OidcClientRoles where
  requiredRoles : List Role
  groupsServiceKeys : List String

/-- A client policy with the roles it requires and releases. -/
structure OidcClient extends OidcClientPolicy, OidcClientRoles

namespace OidcClient

/-- `OidcRoleRequirement`. -/
def validRequirement (role : Role) : Bool :=
  role.serviceKey ≠ "" && role.serviceKey.length ≤ 64 && role.name ≠ "" &&
    role.name.length ≤ 64 && ':' ∉ role.serviceKey.toList && ':' ∉ role.name.toList

/-- `^[A-Za-z0-9][A-Za-z0-9._~-]{0,127}$`. -/
def validClientId (clientId : String) : Bool :=
  match clientId.toList with
  | [] => false
  | c :: cs => c.isAlphanum && cs.length ≤ 127 &&
      cs.all fun c => c.isAlphanum || c = '.' || c = '_' || c = '~' || c = '-'

/-- `validate_group_service_keys`. -/
def validGroupServiceKeys (keys : List String) : Bool :=
  keys ≠ [] && keys.length ≤ 32 && keys.all (· ≠ "") && decide keys.Nodup &&
    keys.all fun key => ':' ∉ key.toList && key.length ≤ 64

/-- `validate_allowed_scopes`. -/
def validAllowedScopes (scopes : List String) : Bool :=
  scopes.length ≤ 16 && decide scopes.Nodup && "openid" ∈ scopes &&
    scopes.all fun scope => scope ∈ ["openid", "email", "profile"]

/-- `validate_role_projection`. -/
def validRoleProjection (client : OidcClientRoles) : Bool :=
  client.requiredRoles.all (fun role => role.serviceKey ∈ client.groupsServiceKeys) &&
    decide client.requiredRoles.Nodup

/-- The validation of a client policy. Which texts `_validate_redirect_uri` and
`validate_secret_hash` accept is left open. -/
def accepted (isRedirectUri isArgon2idHash : String → Bool) (client : OidcClient) : Bool :=
  validClientId client.clientId &&
    (client.redirectUris ≠ [] && client.redirectUris.length ≤ 16 &&
      decide client.redirectUris.Nodup &&
      client.redirectUris.all fun uri => uri ≠ "" && isRedirectUri uri) &&
    isArgon2idHash client.clientSecretHash &&
    (client.requiredRoles ≠ [] && client.requiredRoles.length ≤ 32 &&
      client.requiredRoles.all validRequirement) &&
    validGroupServiceKeys client.groupsServiceKeys && validAllowedScopes client.allowedScopes &&
    validRoleProjection client.toOidcClientRoles

lemma required_released {isRedirectUri isArgon2idHash : String → Bool} {client : OidcClient}
    (h : client.accepted isRedirectUri isArgon2idHash = true) {role : Role}
    (hrole : role ∈ client.requiredRoles) : role.serviceKey ∈ client.groupsServiceKeys := by
  simp only [accepted, validRoleProjection, Bool.and_eq_true, List.all_eq_true,
    decide_eq_true_eq] at h
  exact h.2.1 role hrole

lemma clientId_ne_empty {isRedirectUri isArgon2idHash : String → Bool} {client : OidcClient}
    (h : client.accepted isRedirectUri isArgon2idHash = true) : client.clientId ≠ "" := by
  intro hempty
  simp [accepted, validClientId, hempty] at h

end OidcClient

/-! ## Identities and groups -/

structure OidcIdentity where
  userId : String
  email : String
  name : Option String
  emailVerified : Bool
  roles : List Role

def maxGroups : ℕ := 64

def maxGroupValueLength : ℕ := 129

def maxGroupsPayloadLength : ℕ := 4096

def hasRequiredRole (identity : OidcIdentity) (client : OidcClientRoles) : Bool :=
  client.requiredRoles.any fun required => required ∈ identity.roles

def groupValue (role : Role) : String := role.serviceKey ++ ":" ++ role.name

/-- The set of the groups, as they are added one after another. -/
def collectGroups (allowed : List String) : List String → List Role → Except Error (List String)
  | projected, [] => .ok projected
  | projected, role :: roles =>
      if role.serviceKey ∉ allowed then collectGroups allowed projected roles
      else if ':' ∈ role.serviceKey.toList ∨ ':' ∈ role.name.toList then
        .error (.value "OIDC group role identifiers must not contain ':'")
      else if maxGroupValueLength < (groupValue role).length then
        .error (.value "OIDC group value exceeds the release limit")
      else collectGroups allowed (projected.insert (groupValue role)) roles

/-- How many bytes a character takes in ASCII JSON. -/
def escapedLength (c : Char) : ℕ :=
  if c = '"' ∨ c = '\\' then 2
  else if ' ' ≤ c ∧ c ≤ '~' then 1
  else if c.toNat ∈ [8, 9, 10, 12, 13] then 2
  else if c.toNat < 0x10000 then 6 else 12

/-- The length of the compact JSON array of the strings. -/
def encodedSize (values : List String) : ℕ :=
  2 + (values.length - 1) + (values.map fun value =>
    2 + (value.toList.map escapedLength).sum).sum

def projectGroups (identity : OidcIdentity) (client : OidcClientRoles) :
    Except Error (List String) := do
  let projected ← collectGroups client.groupsServiceKeys [] identity.roles
  let groups := projected.insertionSort (· ≤ ·)
  if maxGroups < groups.length ∨ maxGroupsPayloadLength < encodedSize groups then
    .error (.value "OIDC groups claim exceeds the release limit")
  else .ok groups

/-- The identity of a user the client may be told about, or the reason it may not. -/
def eligibleIdentity (user : Option CurrentUserRecord) (client : OidcClientRoles) :
    Except String OidcIdentity :=
  match user with
  | none => .error "OIDC_USER_INACTIVE"
  | some user =>
      if user.status ≠ .active then .error "OIDC_USER_INACTIVE"
      else match user.email.filter (· ≠ "") with
      | none => .error "OIDC_EMAIL_UNVERIFIED"
      | some email =>
          if !user.emailVerified then .error "OIDC_EMAIL_UNVERIFIED"
          else
            let identity : OidcIdentity := ⟨user.id, email, user.name, true, user.roles⟩
            if !hasRequiredRole identity client then .error "OIDC_REQUIRED_ROLE_MISSING"
            else match projectGroups identity client with
            | .error _ => .error "OIDC_GROUPS_INVALID"
            | .ok _ => .ok identity

/-! ## Groups and roles -/

/-- What is before the first colon and what follows it are the parts. -/
lemma eq_of_join_eq {k n k' n' : List Char} (hk : ':' ∉ k) (hn : ':' ∉ n)
    (h : k ++ ':' :: n = k' ++ ':' :: n') : k = k' ∧ n = n' := by
  induction k generalizing k' with
  | nil =>
    cases k' with
    | nil => exact ⟨rfl, (List.cons.inj h).2⟩
    | cons c k' =>
      -- A colon further on would be in the name.
      obtain ⟨rfl, htail⟩ := List.cons.inj h
      exact absurd (htail ▸ by simp) hn
  | cons c k ih =>
    cases k' with
    | nil =>
      obtain ⟨rfl, -⟩ := List.cons.inj h
      exact absurd List.mem_cons_self hk
    | cons c' k' =>
      obtain ⟨rfl, htail⟩ := List.cons.inj h
      obtain ⟨rfl, hname⟩ := ih (fun hmem => hk (List.mem_cons_of_mem _ hmem)) htail
      exact ⟨rfl, hname⟩

lemma toList_groupValue (role : Role) :
    (groupValue role).toList = role.serviceKey.toList ++ ':' :: role.name.toList := by
  simp [groupValue]

/-- A role without colons is the only one with its group. -/
lemma eq_of_groupValue_eq {role role' : Role} (hk : ':' ∉ role.serviceKey.toList)
    (hn : ':' ∉ role.name.toList) (h : groupValue role = groupValue role') : role = role' := by
  have hlist := congrArg String.toList h
  rw [toList_groupValue, toList_groupValue] at hlist
  obtain ⟨hkey, hname⟩ := eq_of_join_eq hk hn hlist
  obtain ⟨key, name⟩ := role
  obtain ⟨key', name'⟩ := role'
  obtain rfl := String.toList_injective hkey
  obtain rfl := String.toList_injective hname
  rfl

/-- The groups collected are those of the allowed roles, and none of these has a colon. -/
lemma mem_of_collectGroups {allowed projected groups : List String} {roles : List Role}
    (h : collectGroups allowed projected roles = .ok groups) :
    (∀ role ∈ roles, role.serviceKey ∈ allowed →
      ':' ∉ role.serviceKey.toList ∧ ':' ∉ role.name.toList) ∧
    ∀ group, group ∈ groups ↔ group ∈ projected ∨
      ∃ role ∈ roles, role.serviceKey ∈ allowed ∧ groupValue role = group := by
  induction roles generalizing projected with
  | nil =>
    obtain rfl := Except.ok.inj h
    simp
  | cons role roles ih =>
    rw [collectGroups] at h
    split at h
    · next hnot =>
      obtain ⟨hplain, hmem⟩ := ih h
      refine ⟨fun role' hrole hkey => ?_, fun group => ?_⟩
      · rcases List.mem_cons.mp hrole with rfl | hrole
        · exact absurd hkey hnot
        · exact hplain role' hrole hkey
      · simp [hmem group, hnot]
    next hallowed =>
    split at h
    · simp at h
    next hcolon =>
    split at h
    · simp at h
    obtain ⟨hplain, hmem⟩ := ih h
    refine ⟨fun role' hrole hkey => ?_, fun group => ?_⟩
    · rcases List.mem_cons.mp hrole with rfl | hrole
      · simpa using hcolon
      · exact hplain role' hrole hkey
    · rw [hmem group, List.mem_insert_iff]
      simp only [not_not] at hallowed
      simp [hallowed, or_assoc, or_left_comm, eq_comm]

lemma nodup_of_collectGroups {allowed projected groups : List String} {roles : List Role}
    (hnodup : projected.Nodup) (h : collectGroups allowed projected roles = .ok groups) :
    groups.Nodup := by
  induction roles generalizing projected with
  | nil =>
    obtain rfl := Except.ok.inj h
    exact hnodup
  | cons role roles ih =>
    rw [collectGroups] at h
    split at h
    · exact ih hnodup h
    split at h
    · simp at h
    split at h
    · simp at h
    · exact ih hnodup.insert h

/-- What the groups of an identity say to the client that is told them. -/
structure GroupsFaithful (client : OidcClientRoles) (identity : OidcIdentity)
    (groups : List String) : Prop where
  sorted : groups.Pairwise (· < ·)
  nodup : groups.Nodup
  mem_iff : ∀ k n, k ++ ":" ++ n ∈ groups ↔
    (⟨k, n⟩ : Role) ∈ identity.roles ∧ k ∈ client.groupsServiceKeys
  unique : ∀ group ∈ groups, ∃! role : Role, groupValue role = group
  /-- The role that admits the identity is among them. -/
  admitted : hasRequiredRole identity client = true → ∃ required ∈ client.requiredRoles,
    required ∈ identity.roles ∧ groupValue required ∈ groups

lemma exists_collected {client : OidcClientRoles} {identity : OidcIdentity} {groups : List String}
    (h : projectGroups identity client = .ok groups) : ∃ projected,
      collectGroups client.groupsServiceKeys [] identity.roles = .ok projected ∧
        projected.insertionSort (· ≤ ·) = groups := by
  unfold projectGroups at h
  rcases hcollect : collectGroups client.groupsServiceKeys [] identity.roles with _ | projected
  · rw [hcollect] at h
    simp [bind, Except.bind] at h
  rw [hcollect] at h
  change (if _ then _ else Except.ok (projected.insertionSort (· ≤ ·))) = _ at h
  split at h
  · simp at h
  · exact ⟨projected, rfl, Except.ok.inj h⟩

lemma groupsFaithful {client : OidcClientRoles} {identity : OidcIdentity} {groups : List String}
    (hreleased : ∀ role ∈ client.requiredRoles, role.serviceKey ∈ client.groupsServiceKeys)
    (h : projectGroups identity client = .ok groups) : GroupsFaithful client identity groups := by
  obtain ⟨projected, hcollect, rfl⟩ := exists_collected h
  obtain ⟨hplain, hmem⟩ := mem_of_collectGroups hcollect
  have hgroup : ∀ group, group ∈ projected.insertionSort (· ≤ ·) ↔ ∃ role ∈ identity.roles,
      role.serviceKey ∈ client.groupsServiceKeys ∧ groupValue role = group := by
    intro group
    rw [List.mem_insertionSort, hmem]
    simp
  have hnodup : (projected.insertionSort (· ≤ ·)).Nodup :=
    (List.perm_insertionSort _ _).nodup_iff.mpr (nodup_of_collectGroups List.nodup_nil hcollect)
  refine ⟨?_, hnodup, fun k n => ?_, fun group hin => ?_, fun hrole => ?_⟩
  · exact ((List.pairwise_insertionSort (· ≤ ·) projected).and hnodup).imp
      fun hle => lt_of_le_of_ne hle.1 hle.2
  · rw [hgroup]
    constructor
    · rintro ⟨role, hrole, hkey, heq⟩
      obtain ⟨hk, hn⟩ := hplain role hrole hkey
      obtain rfl : role = ⟨k, n⟩ := eq_of_groupValue_eq hk hn heq
      exact ⟨hrole, hkey⟩
    · rintro ⟨hrole, hkey⟩
      exact ⟨⟨k, n⟩, hrole, hkey, rfl⟩
  · obtain ⟨role, hrole, hkey, heq⟩ := (hgroup group).mp hin
    obtain ⟨hk, hn⟩ := hplain role hrole hkey
    exact ⟨role, heq, fun role' heq' => (eq_of_groupValue_eq hk hn (heq.trans heq'.symm)).symm⟩
  · obtain ⟨required, hrequired, hheld⟩ := List.any_eq_true.mp hrole
    have hheld : required ∈ identity.roles := by simpa using hheld
    exact ⟨required, hrequired, hheld,
      (hgroup _).mpr ⟨required, hheld, hreleased required hrequired, rfl⟩⟩

lemma mem_groups {client : OidcClientRoles} {identity : OidcIdentity} {groups : List String}
    (h : projectGroups identity client = .ok groups) {group : String} (hmem : group ∈ groups) :
    ∃ role, groupValue role = group := by
  obtain ⟨projected, hcollect, rfl⟩ := exists_collected h
  rw [List.mem_insertionSort, (mem_of_collectGroups hcollect).2 group] at hmem
  obtain ⟨role, -, -, hgroup⟩ := hmem.resolve_left List.not_mem_nil
  exact ⟨role, hgroup⟩

/-- An eligible identity holds a required role, and its groups can be projected. -/
lemma eligible_spec {user : Option CurrentUserRecord} {client : OidcClientRoles}
    {identity : OidcIdentity} (h : eligibleIdentity user client = .ok identity) :
    ∃ u, user = some u ∧ u.status = .active ∧ u.email = some identity.email ∧
      identity.email ≠ "" ∧ u.emailVerified = true ∧ identity.userId = u.id ∧
      identity.name = u.name ∧ identity.emailVerified = true ∧ identity.roles = u.roles ∧
      hasRequiredRole identity client = true ∧
      ∃ groups, projectGroups identity client = .ok groups := by
  unfold eligibleIdentity at h
  split at h
  · simp at h
  next u =>
  split at h
  · simp at h
  next hactive =>
  split at h
  · simp at h
  next email hemail =>
  split at h
  · simp at h
  next hverified =>
  dsimp only at h
  split at h
  · simp at h
  next hrole =>
  split at h
  · simp at h
  next groups hgroups =>
  obtain rfl := Except.ok.inj h
  obtain ⟨hu, hne⟩ := Option.filter_eq_some_iff.mp hemail
  exact ⟨u, rfl, by simpa using hactive, hu, by simpa using hne, by simpa using hverified, rfl,
    rfl, rfl, rfl, by simpa using hrole, groups, hgroups⟩

end WiseacctSso.OidcState
