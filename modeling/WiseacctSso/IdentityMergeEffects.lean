import WiseacctSso.IdentityMerges

/-!
# What a merge does

A candidate is merged exactly if its accounts are still split, and the merge succeeds
exactly if no third user has the email.
-/
namespace WiseacctSso.MergeSplitIdentities
open ReadCommitted

variable {lower : String → String} {db : Db store}

/-- The password of an email is with one user and the Google account of that email with
another, who has no password. -/
structure Split (lower : String → String) (db : Db store) (c : SplitAccountCandidate) : Prop where
  credential : ∃ κ pc, db.get .passwordCredential κ = some pc ∧ pc.userId = c.passwordUserId ∧
    lower pc.email = c.email
  social : ∃ κ sa e, db.get .socialAccount κ = some sa ∧ sa.provider = c.provider ∧
    sa.providerUserId = c.providerUserId ∧ sa.userId = c.canonicalUserId ∧
    sa.providerEmail = some e ∧ lower e = c.email
  google : c.provider = "google"
  distinct : c.canonicalUserId ≠ c.passwordUserId
  canonical : ∃ u, db.get .user c.canonicalUserId = some u ∧ u.status = .active ∧
    u.emailVerified = true
  password : ∃ u, db.get .user c.passwordUserId = some u ∧ u.emailVerified = true
  bare : ∀ κ pc, db.get .passwordCredential κ = some pc → pc.userId ≠ c.canonicalUserId

lemma isSplit_iff {email : Option String} {pc : PasswordCredential} {sa : SocialAccount} :
    isSplit lower db email pc sa = true ↔
      (∃ e, sa.providerEmail = some e ∧ lower e = lower pc.email) ∧ sa.provider = "google" ∧
      sa.userId ≠ pc.userId ∧
      (∃ u, db.get .user sa.userId = some u ∧ u.status = .active ∧ u.emailVerified = true) ∧
      (∃ u, db.get .user pc.userId = some u ∧ u.emailVerified = true) ∧
      (∀ κ c, db.get .passwordCredential κ = some c → c.userId ≠ sa.userId) ∧
      ∀ e ∈ email, lower pc.email = lower e := by
  have hbare : (firstRow db Table.passwordCredential fun _ (c : PasswordCredential) =>
      c.userId = sa.userId).isNone = true ↔
      ∀ κ (c : PasswordCredential), db.get .passwordCredential κ = some c →
        c.userId ≠ sa.userId := by
    rw [Option.isNone_iff_eq_none]
    refine ⟨fun h κ c hc => ?_, fun h => ?_⟩
    · simpa using firstRow_none h hc
    · by_contra hne
      obtain ⟨⟨κ, c⟩, hfirst⟩ := Option.ne_none_iff_exists'.mp hne
      obtain ⟨hc, hp⟩ := firstRow_some hfirst
      exact h κ c hc (by simpa using hp)
  simp only [isSplit, Bool.and_eq_true, hbare, Option.any_eq_true, Option.all_eq_true,
    decide_eq_true_eq, and_assoc, Option.mem_def, ne_eq]

lemma mem_candidateSelect {email : Option String} {c : SplitAccountCandidate} :
    c ∈ candidateSelect lower db email ↔ Split lower db c ∧ ∀ e ∈ email, c.email = lower e := by
  simp only [candidateSelect, List.mem_flatMap, List.mem_map, Prod.exists]
  constructor
  · rintro ⟨κ, pc, hpc, κ', sa, hsa, rfl⟩
    obtain ⟨hsocial, hsplit⟩ := (mem_selectRows (Γ := store)).mp hsa
    obtain ⟨⟨e, he, hemail⟩, hgoogle, hne, hcanonical, hpassword, hbare, hfilter⟩ :=
      isSplit_iff.mp hsplit
    refine ⟨⟨⟨κ, pc, ((mem_selectRows (Γ := store)).mp hpc).1, rfl, rfl⟩, ?_, hgoogle, hne,
      hcanonical, hpassword, hbare⟩, hfilter⟩
    exact ⟨κ', sa, e, hsocial, rfl, rfl, rfl, he, hemail⟩
  · rintro ⟨⟨⟨κ, pc, hpc, howner, hlower⟩, ⟨κ', sa, e, hsa, hprovider, hid, hcanonical, he, hemail⟩,
      hgoogle, hne, hactive, hverified, hbare⟩, hfilter⟩
    refine ⟨κ, pc, (mem_selectRows (Γ := store)).mpr ⟨hpc, rfl⟩, κ', sa, ?_, ?_⟩
    · refine (mem_selectRows (Γ := store)).mpr ⟨hsa, isSplit_iff.mpr ?_⟩
      rw [hcanonical, howner, hprovider, hlower]
      exact ⟨⟨e, he, hemail⟩, hgoogle, hne, hactive, hverified, hbare, hfilter⟩
    · rw [hcanonical, howner, hprovider, hid, hlower]

/-- A user has one credential and a provider's account one owner, so no candidate comes twice. -/
lemma candidateSelect_nodup (hunique : UniqueEntries db) (email : Option String) :
    (candidateSelect lower db email).Nodup := by
  have hrows : ∀ (T : Table) p, (selectRows (Γ := store) db T p).Nodup :=
    fun T p => (selectRows_nodup (Γ := store) db T p).of_map
  refine List.nodup_flatMap.mpr ⟨fun pc _ => ?_, ?_⟩
  · refine List.Nodup.map_on ?_ (hrows .socialAccount _)
    rintro ⟨κ, sa⟩ hsa ⟨κ', sa'⟩ hsa' heq
    have hget := ((mem_selectRows (Γ := store)).mp hsa).1
    have hget' := ((mem_selectRows (Γ := store)).mp hsa').1
    obtain ⟨-, -, -, hprovider, hid⟩ := SplitAccountCandidate.mk.inj heq
    change sa.provider = sa'.provider at hprovider
    change sa.providerUserId = sa'.providerUserId at hid
    obtain rfl : κ = κ' := hunique Table.socialAccount κ κ' sa sa' hget hget'
      (.providerUserId sa.provider sa.providerUserId) (by simp) (by simp [hprovider, hid])
    rw [Option.some.inj (hget.symm.trans hget')]
  · refine (hrows .passwordCredential _).pairwise_of_forall_ne ?_
    rintro ⟨κ, pc⟩ hpc ⟨κ', pc'⟩ hpc' hne c hc hc'
    have hget := ((mem_selectRows (Γ := store)).mp hpc).1
    have hget' := ((mem_selectRows (Γ := store)).mp hpc').1
    obtain ⟨x, -, rfl⟩ := List.mem_map.mp hc
    obtain ⟨x', -, heq⟩ := List.mem_map.mp hc'
    obtain ⟨-, -, howner, -, -⟩ := SplitAccountCandidate.mk.inj heq
    change pc'.userId = pc.userId at howner
    obtain rfl : κ = κ' := hunique Table.passwordCredential κ κ' pc pc' hget hget'
      (.userId pc.userId) (by simp) (by simp [howner])
    exact hne (by rw [Option.some.inj (hget.symm.trans hget')])

lemma mem_lockedCandidates {c row : SplitAccountCandidate} :
    row ∈ lockedCandidates lower db c ↔
      row = c ∧ Split lower db c ∧ c.email = lower c.email := by
  rw [lockedCandidates, List.mem_filter, mem_candidateSelect]
  obtain ⟨email, canonicalUserId, passwordUserId, provider, providerUserId⟩ := row
  simp only [Bool.and_eq_true, decide_eq_true_eq, Option.mem_def, Option.some.injEq, forall_eq',
    and_assoc]
  constructor
  · rintro ⟨hsplit, hemail, rfl, rfl, rfl, rfl, rfl⟩
    exact ⟨rfl, hsplit, hemail⟩
  · rintro ⟨rfl, hsplit, hemail⟩
    exact ⟨hsplit, hemail, rfl, rfl, rfl, rfl, rfl⟩

lemma Split.lower_email {c : SplitAccountCandidate} (h : Split lower db c)
    (hlower : ∀ s, lower (lower s) = lower s) : c.email = lower c.email := by
  obtain ⟨κ, pc, -, -, hemail⟩ := h.credential
  rw [← hemail, hlower]

lemma lockedCandidates_of_split (hunique : UniqueEntries db)
    (hlower : ∀ s, lower (lower s) = lower s) {c : SplitAccountCandidate}
    (h : Split lower db c) : lockedCandidates lower db c = [c] := by
  have hmem : c ∈ lockedCandidates lower db c :=
    mem_lockedCandidates.mpr ⟨rfl, h, h.lower_email hlower⟩
  have hnodup : (lockedCandidates lower db c).Nodup :=
    (candidateSelect_nodup hunique _).filter _
  have hall : ∀ row ∈ lockedCandidates lower db c, row = c :=
    fun row hrow => (mem_lockedCandidates.mp hrow).1
  revert hmem hnodup hall
  generalize lockedCandidates lower db c = rows
  intro hmem hnodup hall
  match rows, hmem, hnodup, hall with
  | [row], _, _, hall => rw [hall row (by simp)]
  | row :: row' :: rest, _, hnodup, hall =>
    have heq : row = row' := (hall row (by simp)).trans (hall row' (by simp)).symm
    simp [heq] at hnodup

lemma lockedCandidates_of_not_split {c : SplitAccountCandidate} (h : ¬ Split lower db c) :
    lockedCandidates lower db c = [] := by
  refine List.eq_nil_iff_forall_not_mem.mpr fun row hrow => ?_
  exact h (mem_lockedCandidates.mp hrow).2.1

/-! ## The transaction of a merge -/

/-- No third user has the email. -/
def Unclaimed (db : Db store) (c : SplitAccountCandidate) : Prop :=
  ∀ id (u : User), db.get .user id = some u → u.email = some c.email →
    id = c.passwordUserId ∨ id = c.canonicalUserId

def Fresh (auditId : String) (auditLog : List (String × AuditLogRow)) : Prop :=
  ∀ row ∈ auditLog, row.1 ≠ auditId

/-- The user of the candidate's email is gone, its password and its email are the other
user's. -/
structure Merged (c : SplitAccountCandidate) (before after : Db store) : Prop where
  user : ∀ id, after.get .user id = if id = c.passwordUserId then none
    else if id = c.canonicalUserId then
      (before.get .user id).map fun u => { u with email := some c.email, emailVerified := true }
    else before.get .user id
  credential : ∀ κ, after.get .passwordCredential κ =
    (before.get .passwordCredential κ).map fun pc =>
      if pc.userId = c.passwordUserId then { pc with userId := c.canonicalUserId } else pc
  child : ∀ T ∈ childTables, T ≠ .passwordCredential → ∀ κ, after.get T κ =
    (before.get T κ).filter fun r => !(T.owner r = some c.passwordUserId)
  other : ∀ T, T ≠ .user → T ∉ childTables → after T = before T
  unique : UniqueEntries after

/-- The audit log with the row of the merge, once the user is gone. -/
def recorded (auditId : String) (c : SplitAccountCandidate)
    (auditLog : List (String × AuditLogRow)) : List (String × AuditLogRow) :=
  (auditLog ++ [(auditId, auditRow c)]).map fun row => (row.1, row.2.setNull c.passwordUserId)

lemma cascade_get (userId : String) {Ts : List Table} (hTs : Ts.Nodup) (db : Db store) (T : Table)
    (κ : String) : (Ts.foldl (fun db T => deleteFrom (Γ := store) db T fun _ r =>
      T.owner r = some userId) db).get T κ =
      if T ∈ Ts then (db.get T κ).filter fun r => !(T.owner r = some userId)
      else db.get T κ := by
  induction Ts generalizing db with
  | nil => rfl
  | cons T' Ts ih =>
    obtain ⟨hT', hrest⟩ := List.nodup_cons.mp hTs
    rw [List.foldl_cons, ih hrest]
    by_cases hT : T = T'
    · subst hT
      rw [if_neg hT', if_pos List.mem_cons_self]
      exact deleteFrom_get (Γ := store) ..
    · have hsame : (deleteFrom (Γ := store) db T' fun _ r =>
          T'.owner r = some userId).get T κ = db.get T κ :=
        rewriteRows_get_other (Γ := store) db _ _ hT κ
      rw [hsame]
      simp [hT]

lemma deleteUserRows_user (userId : String) (db : Db store) (id : String) :
    (deleteUserRows userId db).get .user id = if id = userId then none else db.get .user id := by
  rw [deleteUserRows, cascade_get userId (by decide), if_neg (by decide)]
  rw [deleteFrom_get (Γ := store)]
  split
  · next hid => cases db.get Table.user id <;> simp [hid, Option.filter]
  · next hid => cases db.get Table.user id <;> simp [hid, Option.filter]

lemma deleteUserRows_child (userId : String) (db : Db store) {T : Table} (hT : T ∈ childTables)
    (κ : String) : (deleteUserRows userId db).get T κ =
      (db.get T κ).filter fun r => !(T.owner r = some userId) := by
  have hne : T ≠ .user := by
    rintro rfl
    simp [childTables] at hT
  rw [deleteUserRows, cascade_get userId (by decide), if_pos hT]
  rw [deleteFrom, rewriteRows_get_other (Γ := store) db _ _ hne]

lemma deleteUserRows_unique (userId : String) {db : Db store} (hunique : UniqueEntries db) :
    UniqueEntries (deleteUserRows userId db) := by
  have hfold : ∀ (Ts : List Table) (db : Db store), UniqueEntries db →
      UniqueEntries (Ts.foldl (fun db T => deleteFrom (Γ := store) db T fun _ r =>
        T.owner r = some userId) db) := by
    intro Ts
    induction Ts with
    | nil => exact fun db h => h
    | cons T Ts ih => exact fun db h => ih _ (deleteFrom_unique h)
  exact hfold childTables _ (deleteFrom_unique hunique)

lemma deleteUserRows_other (userId : String) (db : Db store) {T : Table} (huser : T ≠ .user)
    (hchild : T ∉ childTables) : deleteUserRows userId db T = db T := by
  have hfold : ∀ (Ts : List Table) (db : Db store), T ∉ Ts →
      Ts.foldl (fun db T => deleteFrom (Γ := store) db T fun _ r =>
        T.owner r = some userId) db T = db T := by
    intro Ts
    induction Ts with
    | nil => exact fun db _ => rfl
    | cons T' Ts ih =>
      intro db hT
      rw [List.foldl_cons, ih _ fun hm => hT (List.mem_cons_of_mem T' hm)]
      exact rewriteRows_other (Γ := store) db _ _ fun heq => hT (heq ▸ List.mem_cons_self)
  rw [deleteUserRows, hfold childTables _ hchild]
  exact rewriteRows_other (Γ := store) db _ _ huser

/-- The rows of one table are updated, and every unique index still holds. -/
structure Updated (T : Table) (p : String → T.Row → Bool) (assign : T.Row → T.Row)
    (before after : Db store) : Prop where
  lookup : ∀ κ, after.get T κ = (before.get T κ).map fun r => if p κ r then assign r else r
  other : ∀ T', T' ≠ T → after T' = before T'
  unique : UniqueEntries after

section update

variable {T : Table} {p : String → T.Row → Bool} {assign : T.Row → T.Row} {operation : String}
  {κ : String} {r : T.Row}

/-- The row may be given its new entries. -/
def Assignable (db : Db store) (T : Table) (κ : String) (r : T.Row) : Prop :=
  ∀ κ' r', db.get T κ' = some r' → κ' ≠ κ → ∀ e ∈ T.uniques r', e ∉ T.uniques r

lemma updateOne_ok (hunique : UniqueEntries db) (hr : db.get T κ = some r) (hp : p κ r = true)
    (honly : ∀ κ' r', db.get T κ' = some r' → p κ' r' = true → κ' = κ)
    (hfree : Assignable db T κ (assign r)) :
    ∃ after, updateOne db T p assign operation = .ok after ∧ Updated T p assign db after := by
  obtain ⟨after, hafter⟩ := (updateTable_single (Γ := store) (hunique T) hr hp honly).mpr hfree
  have hcount : rowcount (Γ := store) db T p = 1 := rowcount_keyed hr hp honly
  refine ⟨after, ?_, updateTable_get hafter, fun T' hT => updateTable_other hafter hT,
    updateTable_unique hafter hunique⟩
  simp [updateOne, hafter, requireOne, hcount, bind, Except.bind, pure, Except.pure]

lemma updateOne_error (hunique : UniqueEntries db) (hr : db.get T κ = some r) (hp : p κ r = true)
    (honly : ∀ κ' r', db.get T κ' = some r' → p κ' r' = true → κ' = κ)
    (htaken : ¬ Assignable db T κ (assign r)) :
    updateOne db T p assign operation = .error .uniqueViolation := by
  unfold updateOne
  split
  · rfl
  · next after hafter =>
    exact absurd ((updateTable_single (Γ := store) (hunique T) hr hp honly).mp ⟨after, hafter⟩)
      htaken

end update

lemma Updated.get_other {T : Table} {p : String → T.Row → Bool} {assign : T.Row → T.Row}
    {before after : Db store} (h : Updated T p assign before after) {T' : Table} (hT : T' ≠ T)
    (κ : String) : after.get T' κ = before.get T' κ := by
  rw [Db.get, h.other T' hT, Db.get]

section candidate

variable {c : SplitAccountCandidate} {cleared given moved : Db store}

lemma exists_cleared (hunique : UniqueEntries db) (hsplit : Split lower db c) :
    ∃ cleared, updateOne db .user (fun id _ => id = c.passwordUserId)
        (fun u => { u with email := none }) "password user update" = .ok cleared ∧
      Updated .user (fun id _ => id = c.passwordUserId) (fun u => { u with email := none }) db
        cleared := by
  obtain ⟨u, hu, -⟩ := hsplit.password
  exact updateOne_ok hunique hu (by simp) (fun _ _ _ h => by simpa using h)
    fun _ _ _ _ _ _ => by simp

lemma canonical_of_cleared (hsplit : Split lower db c)
    (hcleared : Updated .user (fun id _ => id = c.passwordUserId)
      (fun u => { u with email := none }) db cleared) :
    ∃ u : User, cleared.get .user c.canonicalUserId = some u := by
  obtain ⟨u, hu, -⟩ := hsplit.canonical
  refine ⟨u, ?_⟩
  rw [hcleared.lookup, hu]
  simp [hsplit.distinct]

/-- Once the password user has lost its email, only a third user can have it. -/
lemma assignable_iff (hcleared : Updated .user (fun id _ => id = c.passwordUserId)
      (fun u => { u with email := none }) db cleared) (u : User) :
    Assignable cleared .user c.canonicalUserId
      { u with email := some c.email, emailVerified := true } ↔ Unclaimed db c := by
  constructor
  · intro hfree id u' hu' hemail
    by_contra hthird
    push Not at hthird
    have hget : cleared.get .user id = some u' := by
      rw [hcleared.lookup, hu']
      simp [hthird.1]
    exact hfree id u' hget hthird.2 (.email c.email) (by simp [hemail]) (by simp)
  · intro hfree id u' hu' hne e he he'
    obtain rfl : Entry.email c.email = e := by simpa using he'
    have hemail : u'.email = some c.email := by simpa using he
    rw [hcleared.lookup] at hu'
    obtain ⟨u₀, hu₀, rfl⟩ := Option.map_eq_some_iff.mp hu'
    by_cases hid : id = c.passwordUserId
    · simp [hid] at hemail
    · simp only [hid, decide_false, Bool.false_eq_true, if_false] at hemail
      rcases hfree id u₀ hu₀ hemail with h | h
      · exact hid h
      · exact hne h

lemma exists_given (hsplit : Split lower db c) (hfree : Unclaimed db c)
    (hcleared : Updated .user (fun id _ => id = c.passwordUserId)
      (fun u => { u with email := none }) db cleared) :
    ∃ given, updateOne cleared .user (fun id _ => id = c.canonicalUserId)
        (fun u => { u with email := some c.email, emailVerified := true })
        "canonical user update" = .ok given ∧
      Updated .user (fun id _ => id = c.canonicalUserId)
        (fun u => { u with email := some c.email, emailVerified := true }) cleared given := by
  obtain ⟨u, hu⟩ := canonical_of_cleared hsplit hcleared
  exact updateOne_ok hcleared.unique hu (by simp) (fun _ _ _ h => by simpa using h)
    ((assignable_iff hcleared u).mpr hfree)

lemma given_error (hsplit : Split lower db c) (htaken : ¬ Unclaimed db c)
    (hcleared : Updated .user (fun id _ => id = c.passwordUserId)
      (fun u => { u with email := none }) db cleared) :
    updateOne cleared .user (fun id _ => id = c.canonicalUserId)
      (fun u => { u with email := some c.email, emailVerified := true })
      "canonical user update" = .error .uniqueViolation := by
  obtain ⟨u, hu⟩ := canonical_of_cleared hsplit hcleared
  exact updateOne_error hcleared.unique hu (by simp) (fun _ _ _ h => by simpa using h)
    (mt (assignable_iff hcleared u).mp htaken)

lemma exists_moved (hunique : UniqueEntries given) (hsplit : Split lower db c)
    (hsame : given .passwordCredential = db .passwordCredential) :
    ∃ moved, updateOne given .passwordCredential (fun _ pc => pc.userId = c.passwordUserId)
        (fun pc => { pc with userId := c.canonicalUserId }) "password credential update" =
        .ok moved ∧
      Updated .passwordCredential (fun _ pc => pc.userId = c.passwordUserId)
        (fun pc => { pc with userId := c.canonicalUserId }) given moved := by
  have hget : ∀ κ, given.get .passwordCredential κ = db.get .passwordCredential κ :=
    fun κ => by rw [Db.get, hsame, Db.get]
  obtain ⟨κ, pc, hpc, howner, -⟩ := hsplit.credential
  refine updateOne_ok hunique ((hget κ).trans hpc) (by simpa using howner) ?_ ?_
  · intro κ' pc' hpc' howner'
    have hsame : pc'.userId = pc.userId := (of_decide_eq_true howner').trans howner.symm
    exact hunique Table.passwordCredential κ' κ pc' pc hpc' ((hget κ).trans hpc)
      (.userId pc'.userId) (by simp) (by simp [hsame])
  · intro κ' pc' hpc' hne e he he'
    simp only [List.mem_cons, List.not_mem_nil, or_false] at he he'
    rcases he with rfl | rfl
    · rcases he' with hid | hid
      · exact hsplit.bare κ' pc' ((hget κ').symm.trans hpc') (Entry.userId.inj hid)
      · simp at hid
    · rcases he' with hid | hid
      · simp at hid
      · exact hne (hunique Table.passwordCredential κ' κ pc' pc hpc' ((hget κ).trans hpc)
          (.email pc'.email) (by simp) (by simp [Entry.email.inj hid]))

/-- What the statements of a merge make of the tables. -/
lemma merged_of_updates (hsplit : Split lower db c)
    (hcleared : Updated .user (fun id _ => id = c.passwordUserId)
      (fun u => { u with email := none }) db cleared)
    (hgiven : Updated .user (fun id _ => id = c.canonicalUserId)
      (fun u => { u with email := some c.email, emailVerified := true }) cleared given)
    (hmoved : Updated .passwordCredential (fun _ pc => pc.userId = c.passwordUserId)
      (fun pc => { pc with userId := c.canonicalUserId }) given moved) :
    Merged c db (deleteUserRows c.passwordUserId moved) := by
  have huser : ∀ id, moved.get .user id = if id = c.canonicalUserId then
      (cleared.get .user id).map fun u => { u with email := some c.email, emailVerified := true }
      else cleared.get .user id := by
    intro id
    rw [hmoved.get_other (by simp), hgiven.lookup]
    by_cases hid : id = c.canonicalUserId
    · simp [hid]
    · cases cleared.get .user id <;> simp [hid]
  have hother : ∀ T, T ≠ .user → T ≠ .passwordCredential → moved T = db T := fun T hT hT' => by
    rw [hmoved.other T hT', hgiven.other T hT, hcleared.other T hT]
  refine ⟨fun id => ?_, fun κ => ?_, fun T hT hne κ => ?_, fun T hT hchild => ?_,
    deleteUserRows_unique _ hmoved.unique⟩
  · rw [deleteUserRows_user, huser]
    split
    · rfl
    · next hid =>
      have hkept : cleared.get .user id = db.get .user id := by
        rw [hcleared.lookup]
        cases db.get .user id <;> simp [hid]
      rw [hkept]
  · rw [deleteUserRows_child _ _ (by simp [childTables]), hmoved.lookup, hgiven.get_other (by simp),
      hcleared.get_other (by simp)]
    cases db.get .passwordCredential κ with
    | none => rfl
    | some pc =>
      -- The credential that was the deleted user's is no longer its child.
      by_cases howner : pc.userId = c.passwordUserId
      · simp [howner, Table.owner, Option.filter, hsplit.distinct]
      · simp [howner, Table.owner, Option.filter]
  · have huser : T ≠ .user := by
      rintro rfl
      simp [childTables] at hT
    rw [deleteUserRows_child _ _ hT, Db.get, hother T huser hne, Db.get]
  · have hne : T ≠ .passwordCredential := by
      rintro rfl
      simp [childTables] at hchild
    rw [deleteUserRows_other _ _ hT hchild, hother T hT hne]

end candidate

variable {m : Maintained} {c : SplitAccountCandidate} {auditId : String}

lemma insertAudit_eq (auditLog : List (String × AuditLogRow)) (id : String) (row : AuditLogRow) :
    (Fresh id auditLog → insertAudit auditLog id row = .ok (auditLog ++ [(id, row)])) ∧
      (¬ Fresh id auditLog → insertAudit auditLog id row = .error .uniqueViolation) := by
  have hiff : auditLog.any (·.1 = id) = true ↔ ¬ Fresh id auditLog := by
    simp [Fresh, List.any_eq_true]
  unfold insertAudit
  split
  · next h => exact ⟨fun hfresh => absurd hfresh (hiff.mp h), fun _ => rfl⟩
  · next h => exact ⟨fun _ => rfl, fun hold => absurd (hiff.mpr hold) h⟩

/-- A candidate whose accounts are no longer split is left alone. -/
theorem mergeCandidate_stale (h : ¬ Split lower m.db c) :
    mergeCandidate lower auditId c m = .ok (false, m) := by
  simp [mergeCandidate, lockedCandidates_of_not_split h]

theorem mergeCandidate_merged (hlower : ∀ s, lower (lower s) = lower s)
    (hunique : UniqueEntries m.db) (hsplit : Split lower m.db c) (hfree : Unclaimed m.db c)
    (hfresh : Fresh auditId m.auditLog) :
    ∃ after, mergeCandidate lower auditId c m =
      .ok (true, ⟨after, recorded auditId c m.auditLog⟩) ∧ Merged c m.db after := by
  obtain ⟨cleared, hclear, hcleared⟩ := exists_cleared hunique hsplit
  obtain ⟨given, hgive, hgiven⟩ := exists_given hsplit hfree hcleared
  obtain ⟨moved, hmove, hmoved⟩ := exists_moved hgiven.unique hsplit
    ((hgiven.other _ (by simp)).trans (hcleared.other _ (by simp)))
  have hcount : rowcount (Γ := store) moved .user (fun id _ => id = c.passwordUserId) = 1 := by
    obtain ⟨u, hu, -⟩ := hsplit.password
    refine rowcount_keyed (κ := c.passwordUserId) (r := { u with email := none }) ?_ (by simp)
      fun _ _ _ h => by simpa using h
    rw [hmoved.get_other (by simp), hgiven.lookup, hcleared.lookup, hu]
    simp [Ne.symm hsplit.distinct]
  refine ⟨_, ?_, merged_of_updates hsplit hcleared hgiven hmoved⟩
  simp only [recorded, mergeCandidate, lockedCandidates_of_split hunique hlower hsplit, hclear,
    hgive, hmove, (insertAudit_eq m.auditLog auditId (auditRow c)).1 hfresh, requireOne, hcount,
    bind, Except.bind, if_pos]

/-- A merge whose email a third user has fails, as does one whose audit id is taken. -/
theorem mergeCandidate_failed (hlower : ∀ s, lower (lower s) = lower s)
    (hunique : UniqueEntries m.db) (hsplit : Split lower m.db c)
    (h : ¬ (Unclaimed m.db c ∧ Fresh auditId m.auditLog)) :
    mergeCandidate lower auditId c m = .error .uniqueViolation := by
  obtain ⟨cleared, hclear, hcleared⟩ := exists_cleared hunique hsplit
  by_cases hfree : Unclaimed m.db c
  · obtain ⟨given, hgive, hgiven⟩ := exists_given hsplit hfree hcleared
    obtain ⟨moved, hmove, -⟩ := exists_moved hgiven.unique hsplit
      ((hgiven.other _ (by simp)).trans (hcleared.other _ (by simp)))
    have htaken : ¬ Fresh auditId m.auditLog := fun hfresh => h ⟨hfree, hfresh⟩
    simp only [mergeCandidate, lockedCandidates_of_split hunique hlower hsplit, hclear, hgive,
      hmove, (insertAudit_eq m.auditLog auditId (auditRow c)).2 htaken, bind, Except.bind]
  · simp only [mergeCandidate, lockedCandidates_of_split hunique hlower hsplit, hclear,
      given_error hsplit hfree hcleared, bind, Except.bind]

/-- What becomes of a candidate: it is left alone exactly if its accounts are no longer
split, and of the others exactly those are merged whose email no third user has. -/
theorem mergeCandidate_outcome (hlower : ∀ s, lower (lower s) = lower s)
    (hunique : UniqueEntries m.db) (hfresh : Fresh auditId m.auditLog) :
    (mergeCandidate lower auditId c m = .ok (false, m) ↔ ¬ Split lower m.db c) ∧
      (mergeCandidate lower auditId c m = .error .uniqueViolation ↔
        Split lower m.db c ∧ ¬ Unclaimed m.db c) ∧
      ((∃ after, mergeCandidate lower auditId c m =
          .ok (true, ⟨after, recorded auditId c m.auditLog⟩) ∧ Merged c m.db after) ↔
        Split lower m.db c ∧ Unclaimed m.db c) := by
  by_cases hsplit : Split lower m.db c
  · by_cases hfree : Unclaimed m.db c
    · obtain ⟨after, hmerge, heffect⟩ := mergeCandidate_merged hlower hunique hsplit hfree hfresh
      simp [hmerge, hsplit, hfree, heffect]
    · have hfail : mergeCandidate lower auditId c m = .error .uniqueViolation :=
        mergeCandidate_failed hlower hunique hsplit fun h => hfree h.1
      simp [hfail, hsplit, hfree]
  · simp [mergeCandidate_stale hsplit, hsplit]

/-- Carol's password is for the email of two Google users, Alice and Bob. -/
def rivalAccounts : Maintained where
  db := view
    [.put .user "carol" ⟨some "c@example.com", none, none, .suspended, true⟩,
      .put .user "alice" ⟨none, none, none, .active, true⟩,
      .put .user "bob" ⟨none, none, none, .active, true⟩,
      .put .passwordCredential "p0" ⟨"carol", "c@example.com", "hash", 0, none⟩,
      .put .socialAccount "s0" ⟨"google", "g0", some "c@example.com", "alice"⟩,
      .put .socialAccount "s1" ⟨"google", "g1", some "c@example.com", "bob"⟩]
    fun _ => ∅
  auditLog := []

def aliceCandidate : SplitAccountCandidate := ⟨"c@example.com", "alice", "carol", "google", "g0"⟩

def bobCandidate : SplitAccountCandidate := ⟨"c@example.com", "bob", "carol", "google", "g1"⟩

/-- Bob's account is merged with Carol's password. -/
theorem bobCandidate_merged : ∃ after, mergeCandidate id "a0" bobCandidate rivalAccounts =
    .ok (true, ⟨after, recorded "a0" bobCandidate []⟩) ∧
      Merged bobCandidate rivalAccounts.db after := by
  have hmem : bobCandidate ∈ candidateSelect id rivalAccounts.db none := by decide +kernel
  have hfree : ∀ x ∈ (rivalAccounts.db .user).entries, x.2.email = some bobCandidate.email →
      x.1 = bobCandidate.passwordUserId ∨ x.1 = bobCandidate.canonicalUserId := by decide +kernel
  have hfresh : Fresh "a0" rivalAccounts.auditLog := by simp [Fresh, rivalAccounts]
  refine (mergeCandidate_outcome (fun _ => rfl) (by decide +kernel) hfresh).2.2.mpr
    ⟨(mem_candidateSelect.mp hmem).1, ?_⟩
  exact (forall_get_iff (Γ := store) (T := .user) (P := fun id (u : User) =>
    u.email = some bobCandidate.email → id = bobCandidate.passwordUserId ∨
      id = bobCandidate.canonicalUserId)).mpr hfree

end WiseacctSso.MergeSplitIdentities
