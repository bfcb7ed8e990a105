import WiseacctSso.Schema
import WiseacctSso.AuditDetails
import WiseacctSso.PagedRows

/-!
# Pages of the administrators' lists

The directory of users and the audit log are read a page at a time, newest rows first. A statement
may return rows of one creation time in any order, and in another order the next time.
-/
open PythonText
namespace WiseacctSso.AdminDirectory
open UrlPath PagedRows AuditDetails

/-- Microseconds of a timezone-naive UTC timestamp. -/
abbrev Instant : Type := ℤ

/-! ## Users -/

structure UserRow where
  id : String
  email : Option String
  name : Option String
  status : UserStatus
  createdAt : Instant
  deriving DecidableEq

structure RoleRow where
  id : String
  serviceKey : String
  name : String
  deriving DecidableEq

/-- The tables of the directory; the ids are a primary key. -/
structure Directory where
  users : List UserRow
  roles : List RoleRow
  userRoles : List UserRole
  ids : (users.map UserRow.id).Nodup

/-- The filters of `AdminUserListInput`. -/
structure UserFilter where
  status : Option UserStatus
  email : Option String
  role : Option String

def invalidRequest : DomainError := ⟨400, "INVALID_REQUEST", "Invalid request"⟩

/-- The service key, if one is given, and the name. -/
def parseRoleFilter (value : String) : Except DomainError (Option String × String) :=
  match value.toList.splitOn ':' with
  | [name] =>
    if strip name = [] then .error invalidRequest else .ok (none, .ofList name)
  | [serviceKey, name] =>
    if strip serviceKey = [] ∨ strip name = [] then .error invalidRequest
    else .ok (some (.ofList serviceKey), .ofList name)
  | _ => .error invalidRequest

/-- `ILIKE`, of a pattern and a text. -/
abbrev Ilike : Type := String → String → Bool

variable (ilike : Ilike)

def Directory.hasRole (db : Directory) (serviceKey : Option String) (name : String)
    (user : UserRow) : Bool :=
  db.userRoles.any fun assignment => assignment.userId = user.id &&
    db.roles.any fun role => role.id = assignment.roleId && role.name = name &&
      serviceKey.all (role.serviceKey = ·)

def Directory.satisfies (db : Directory) (filter : UserFilter)
    (role : Option (Option String × String)) (user : UserRow) : Bool :=
  filter.status.all (user.status = ·) &&
    filter.email.all (fun email =>
      user.email.any fun text => ilike ("%" ++ String.ofList (strip email.toList) ++ "%") text) &&
    role.all fun role => db.hasRole role.1 role.2 user

/-- The rows that satisfy the conditions. -/
def Directory.matching (db : Directory) (filter : UserFilter) :
    Except DomainError (List UserRow) :=
  match filter.role with
  | none => .ok (db.users.filter (db.satisfies ilike filter none))
  | some value =>
    match parseRoleFilter value with
    | .error e => .error e
    | .ok role => .ok (db.users.filter (db.satisfies ilike filter (some role)))

structure AdminUserProfile where
  id : String
  email : Option String
  name : Option String
  status : UserStatus
  createdAt : Instant
  roles : List RoleRow

structure ListPage (Item : Type) where
  items : List Item
  total : ℕ
  page : ℕ
  pageSize : ℕ

def Directory.profile (db : Directory) (user : UserRow) : AdminUserProfile where
  id := user.id
  email := user.email
  name := user.name
  status := user.status
  createdAt := user.createdAt
  roles := (db.userRoles.filter (·.userId = user.id)).flatMap fun assignment =>
    db.roles.filter (·.id = assignment.roleId)

/-- `AdminDirectoryStore.list_users`, where the statement returns the matching rows in the given
order. -/
def Directory.listUsers (db : Directory) (filter : UserFilter) (pageSize number : ℕ)
    (order : List UserRow) : Except DomainError (ListPage AdminUserProfile) :=
  match db.matching ilike filter with
  | .error e => .error e
  | .ok rows => .ok ⟨(page pageSize number order).map db.profile, rows.length, number, pageSize⟩

/-! ## The audit log -/

/-- A row; the details are any JSON value. -/
structure AuditRow where
  id : String
  eventType : String
  outcome : String
  userId : Option String
  actorUserId : Option String
  targetUserId : Option String
  reasonCode : Option String
  detailsJson : Stored CodePoints Unit
  createdAt : Instant

structure AuditTable where
  rows : List AuditRow
  ids : (rows.map AuditRow.id).Nodup

/-- The filters of `AuditLogListInput`. -/
structure AuditFilter where
  createdAtFrom : Option Instant
  createdAtTo : Option Instant
  eventType : Option String
  outcome : Option String
  userId : Option String
  actorUserId : Option String
  targetUserId : Option String
  reasonCode : Option String

/-- `column = value`; a null satisfies no equation. -/
def columnIs (column value : Option String) : Bool := value.all fun v => column = some v

def AuditFilter.satisfied (filter : AuditFilter) (row : AuditRow) : Bool :=
  filter.createdAtFrom.all (· ≤ row.createdAt) && filter.createdAtTo.all (row.createdAt ≤ ·) &&
    columnIs (some row.eventType) filter.eventType && columnIs (some row.outcome) filter.outcome &&
    columnIs row.userId filter.userId && columnIs row.actorUserId filter.actorUserId &&
    columnIs row.targetUserId filter.targetUserId && columnIs row.reasonCode filter.reasonCode

structure AdminAuditLogListItem where
  id : String
  eventType : String
  outcome : String
  userId : Option String
  actorUserId : Option String
  targetUserId : Option String
  reasonCode : Option String
  createdAt : Instant
  detailsJson : Option (Details Unit)

def auditLogItem (lib : Library) (row : AuditRow) : AdminAuditLogListItem where
  id := row.id
  eventType := row.eventType
  outcome := row.outcome
  userId := row.userId
  actorUserId := row.actorUserId
  targetUserId := row.targetUserId
  reasonCode := row.reasonCode
  createdAt := row.createdAt
  detailsJson := sanitizeAuditDetailsForRead lib id row.detailsJson

def AuditTable.matching (table : AuditTable) (filter : AuditFilter) : List AuditRow :=
  table.rows.filter filter.satisfied

/-- `AdminAuditQueryStore.query`, where the statement returns the matching rows in the given
order. -/
def AuditTable.query (table : AuditTable) (lib : Library) (filter : AuditFilter)
    (pageSize number : ℕ) (order : List AuditRow) : ListPage AdminAuditLogListItem :=
  ⟨(page pageSize number order).map (auditLogItem lib), (table.matching filter).length, number,
    pageSize⟩

/-! ## All pages of a list -/

/-- The items of the pages 1, 2, .., as many as there are for the total. -/
def allItems {Item : Type} (pageSize total : ℕ) (answer : ℕ → ListPage Item) : List Item :=
  (List.range (pageCount pageSize total)).flatMap fun i => (answer (i + 1)).items

/-- The statements return the rows newest first. -/
def NewestFirst {Row : Type} (createdAt : Row → Instant) (rows : List Row)
    (orders : ℕ → List Row) : Prop := ∀ number, Ordered createdAt rows (orders number)

/-- The pages have the creation times of the rows, newest first. They have every row once, under
every choice of the orders, if and only if no rows of one creation time stand on both sides of a
page's end. -/
structure PagesOf {Row Item : Type} (createdAt : Row → Instant) (rowId : Row → String)
    (itemTime : Item → Instant) (itemId : Item → String) (rows : List Row) (pageSize : ℕ)
    (answer : ℕ → List Row → ListPage Item) : Prop where
  total : ∀ number order, (answer number order).total = rows.length
  times : ∀ orders order, NewestFirst createdAt rows orders → Ordered createdAt rows order →
    (allItems pageSize rows.length fun n => answer n (orders n)).map itemTime =
      order.map createdAt
  once : (∀ orders, NewestFirst createdAt rows orders →
      ((allItems pageSize rows.length fun n => answer n (orders n)).map itemId).Perm
        (rows.map rowId)) ↔
    ∀ number, ¬ Straddles createdAt rows (number * pageSize)

section pages

variable {Row Item : Type} {createdAt : Row → Instant} {rowId : Row → String} {rows : List Row}
  {pageSize : ℕ} {orders : ℕ → List Row}

lemma mem_pages (horders : NewestFirst createdAt rows orders) {row : Row}
    (h : row ∈ pages pageSize rows.length orders) : row ∈ rows := by
  obtain ⟨i, -, hrow⟩ := List.mem_flatMap.mp h
  exact (horders (i + 1)).1.subset (List.mem_of_mem_drop (List.mem_of_mem_take hrow))

/-- The ids tell whether every row is there once. -/
lemma pages_perm_of_ids (hids : (rows.map rowId).Nodup)
    (horders : NewestFirst createdAt rows orders)
    (h : ((pages pageSize rows.length orders).map rowId).Perm (rows.map rowId)) :
    (pages pageSize rows.length orders).Perm rows := by
  have hnodup : (pages pageSize rows.length orders).Nodup := (h.nodup_iff.mpr hids).of_map
  have hlength : rows.length ≤ (pages pageSize rows.length orders).length := by
    have := h.length_eq
    rw [List.length_map, List.length_map] at this
    exact this.ge
  have hsub := List.subperm_of_subset hnodup fun _ => mem_pages horders
  exact hsub.perm_of_length_le hlength

/-- A list whose pages are cut out of an ordered statement. -/
lemma pagesOf_page (hsize : 0 < pageSize) (hids : (rows.map rowId).Nodup) {item : Row → Item}
    {itemTime : Item → Instant} {itemId : Item → String}
    (htime : ∀ row, itemTime (item row) = createdAt row)
    (hid : ∀ row, itemId (item row) = rowId row) :
    PagesOf createdAt rowId itemTime itemId rows pageSize fun number order =>
      ⟨(page pageSize number order).map item, rows.length, number, pageSize⟩ := by
  have hall : ∀ orders : ℕ → List Row, (allItems pageSize rows.length fun n =>
      ⟨(page pageSize n (orders n)).map item, rows.length, n, pageSize⟩) =
        (pages pageSize rows.length orders).map item := by
    intro orders
    rw [allItems, pages, List.map_flatMap]
  have htimes : itemTime ∘ item = createdAt := funext htime
  have hitemIds : itemId ∘ item = rowId := funext hid
  refine ⟨fun _ _ => rfl, ?_, ?_⟩
  · intro orders order horders horder
    rw [hall, List.map_map, htimes]
    exact pages_keys hsize horder horders
  · rw [← pages_perm_iff hsize hids.of_map]
    simp only [hall, List.map_map, hitemIds]
    constructor
    · exact fun h orders horders => pages_perm_of_ids hids horders (h orders horders)
    · exact fun h orders horders => (h orders horders).map rowId

end pages

/-- The rows of the directory come from its table. -/
lemma matching_sublist {db : Directory} {filter : UserFilter} {rows : List UserRow}
    (h : db.matching ilike filter = .ok rows) : rows.Sublist db.users := by
  unfold Directory.matching at h
  split at h
  · obtain rfl := Except.ok.inj h
    exact List.filter_sublist
  · split at h
    · cases h
    · obtain rfl := Except.ok.inj h
      exact List.filter_sublist

/-- Both lists are read page by page so. -/
theorem lists_pages (lib : Library) :
    (∀ (db : Directory) (filter : UserFilter) (rows : List UserRow) (pageSize : ℕ),
      db.matching ilike filter = .ok rows → 1 ≤ pageSize → pageSize ≤ 100 →
        ∃ answer, (∀ number order,
            db.listUsers ilike filter pageSize number order = .ok (answer number order)) ∧
          PagesOf UserRow.createdAt UserRow.id AdminUserProfile.createdAt AdminUserProfile.id rows
            pageSize answer) ∧
    ∀ (table : AuditTable) (filter : AuditFilter) (pageSize : ℕ), 1 ≤ pageSize → pageSize ≤ 100 →
      PagesOf AuditRow.createdAt AuditRow.id AdminAuditLogListItem.createdAt
        AdminAuditLogListItem.id (table.matching filter) pageSize
        (table.query lib filter pageSize) := by
  constructor
  · intro db filter rows pageSize hrows hsize _
    have hids : (rows.map UserRow.id).Nodup := ((matching_sublist ilike hrows).map _).nodup db.ids
    refine ⟨fun number order => ⟨(page pageSize number order).map db.profile, rows.length, number,
      pageSize⟩, ?_, pagesOf_page hsize hids (fun _ => rfl) fun _ => rfl⟩
    intro number order
    rw [Directory.listUsers, hrows]
  · intro table filter pageSize hsize _
    have hids : ((table.matching filter).map AuditRow.id).Nodup :=
      (List.filter_sublist.map _).nodup table.ids
    exact pagesOf_page hsize hids (fun _ => rfl) fun _ => rfl

/-! ## Two users of one creation time -/

def alice : UserRow := ⟨"alice", none, none, .active, 0⟩

def bob : UserRow := ⟨"bob", none, none, .active, 0⟩

def twoUsers : Directory where
  users := [alice, bob]
  roles := []
  userRoles := []
  ids := by decide +kernel

def everyUser : UserFilter := ⟨none, none, none⟩

theorem lists_pages_example : ∃ answer,
    (∀ number order, twoUsers.listUsers (fun _ _ => true) everyUser 1 number order =
      .ok (answer number order)) ∧
    PagesOf UserRow.createdAt UserRow.id AdminUserProfile.createdAt AdminUserProfile.id
      [alice, bob] 1 answer :=
  (lists_pages (fun _ _ => true) asciiLibrary).1 twoUsers everyUser [alice, bob] 1 rfl (by decide)
    (by decide)

/-- With one user a page, the second page may bring the first page's user again. -/
theorem alice_twice : ∃ (orders : ℕ → List UserRow) (items : ℕ → List AdminUserProfile),
    NewestFirst UserRow.createdAt [alice, bob] orders ∧
    (∀ number, ∃ total, twoUsers.listUsers (fun _ _ => true) everyUser 1 number (orders number) =
      .ok ⟨items number, total, number, 1⟩) ∧
    ((List.range (pageCount 1 2)).flatMap fun i => (items (i + 1)).map AdminUserProfile.id) =
      ["alice", "alice"] := by
  have hperm : [bob, alice].Perm [alice, bob] := List.Perm.swap _ _ _
  refine ⟨fun number => if number = 2 then [bob, alice] else [alice, bob], fun number =>
    (page 1 number (if number = 2 then [bob, alice] else [alice, bob])).map twoUsers.profile,
    ?_, ?_, ?_⟩
  · intro number
    dsimp only
    split_ifs
    · exact ⟨hperm, by decide⟩
    · exact ⟨List.Perm.refl _, by decide⟩
  · exact fun number => ⟨2, rfl⟩
  · rfl

end WiseacctSso.AdminDirectory
