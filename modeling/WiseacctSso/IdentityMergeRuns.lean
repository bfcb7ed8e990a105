import WiseacctSso.IdentityMergeEffects

/-!
# Runs of the merge command

Which candidates a completed run leaves behind, and how often it can be repeated.
-/
namespace WiseacctSso.MergeSplitIdentities
open ReadCommitted

variable {lower : String → String} {auditId : ℕ → String} {email : Option String}

def HasPassword (db : Db store) (userId : String) : Prop :=
  ∃ κ pc, db.get .passwordCredential κ = some pc ∧ pc.userId = userId

/-- How a completed run goes through its candidates. -/
inductive Applied (lower : String → String) :
    List SplitAccountCandidate → Db store → List SplitAccountCandidate → Db store → Prop
  | nil {db : Db store} : Applied lower [] db [] db
  | stale {c : SplitAccountCandidate} {cs merged : List SplitAccountCandidate}
      {db final : Db store} (stale : ¬ Split lower db c) (rest : Applied lower cs db merged final) :
      Applied lower (c :: cs) db merged final
  | merged {c : SplitAccountCandidate} {cs merged : List SplitAccountCandidate}
      {db mid final : Db store} (split : Split lower db c) (effect : Merged c db mid)
      (rest : Applied lower cs mid merged final) : Applied lower (c :: cs) db (c :: merged) final

lemma mergeCandidate_cases (hlower : ∀ s, lower (lower s) = lower s) {m m' : Maintained}
    (hunique : UniqueEntries m.db) {c : SplitAccountCandidate} {id : String} {merged : Bool}
    (h : mergeCandidate lower id c m = .ok (merged, m')) :
    (¬ Split lower m.db c ∧ merged = false ∧ m' = m) ∨
      Split lower m.db c ∧ merged = true ∧ Merged c m.db m'.db ∧
        m'.auditLog = recorded id c m.auditLog := by
  by_cases hsplit : Split lower m.db c
  · by_cases hcan : Unclaimed m.db c ∧ Fresh id m.auditLog
    · obtain ⟨after, hmerge, heffect⟩ := mergeCandidate_merged hlower hunique hsplit hcan.1 hcan.2
      obtain ⟨rfl, rfl⟩ := Prod.mk.inj (Except.ok.inj (hmerge.symm.trans h))
      exact .inr ⟨hsplit, rfl, heffect, rfl⟩
    · rw [mergeCandidate_failed hlower hunique hsplit hcan] at h
      simp at h
  · rw [mergeCandidate_stale hsplit] at h
    obtain ⟨rfl, rfl⟩ := Prod.mk.inj (Except.ok.inj h)
    exact .inl ⟨hsplit, rfl, rfl⟩

/-- The audit log after the merges, one after another. -/
def recordAll (entries : List (String × SplitAccountCandidate))
    (auditLog : List (String × AuditLogRow)) : List (String × AuditLogRow) :=
  entries.foldl (fun auditLog x => recorded x.1 x.2 auditLog) auditLog

lemma applied_of_mergeAll (hlower : ∀ s, lower (lower s) = lower s) {n count : ℕ}
    {cs : List SplitAccountCandidate} {m m' : Maintained} (hunique : UniqueEntries m.db)
    (h : mergeAll lower auditId n cs m = (.ok count, m')) :
    ∃ merged, Applied lower cs m.db merged m'.db ∧ merged.length = count ∧
      ∃ ids : List String, ids.length = merged.length ∧
        m'.auditLog = recordAll (ids.zip merged) m.auditLog := by
  induction cs generalizing n count m with
  | nil =>
    obtain ⟨hcount, rfl⟩ := Prod.mk.inj h
    exact ⟨[], .nil, by simpa using hcount, [], rfl, rfl⟩
  | cons c cs ih =>
    simp only [mergeAll] at h
    split at h
    · simp at h
    next b mid hmid =>
    rcases hall : mergeAll lower auditId (n + 1) cs mid with ⟨result, final⟩
    rw [hall] at h
    obtain ⟨hresult, rfl⟩ := Prod.mk.inj h
    cases result with
    | error e => simp [Except.map] at hresult
    | ok rest =>
      obtain rfl : b.toNat + rest = count := by simpa [Except.map] using hresult
      rcases mergeCandidate_cases hlower hunique hmid with
        ⟨hstale, rfl, rfl⟩ | ⟨hsplit, rfl, heffect, hrecord⟩
      · obtain ⟨merged, happlied, rfl, haudit⟩ := ih hunique hall
        exact ⟨merged, .stale hstale happlied, by simp, haudit⟩
      · obtain ⟨merged, happlied, rfl, ids, hids, haudit⟩ := ih heffect.unique hall
        refine ⟨c :: merged, .merged hsplit heffect happlied, by simp [Nat.add_comm],
          auditId n :: ids, by simp [hids], ?_⟩
        rw [haudit, hrecord]
        rfl

/-! ## One merge -/

section step

variable {before after : Db store} {c c' : SplitAccountCandidate}

lemma Merged.hasPassword (hsplit : Split lower before c) (h : Merged c before after) :
    HasPassword after c.canonicalUserId := by
  obtain ⟨κ, pc, hpc, howner, -⟩ := hsplit.credential
  refine ⟨κ, { pc with userId := c.canonicalUserId }, ?_, rfl⟩
  rw [h.credential, hpc, Option.map_some, if_pos howner]

/-- A credential after a merge was there before, with the same email. -/
lemma Merged.credential_before (h : Merged c before after) {κ : String} {pc : PasswordCredential}
    (hpc : after.get .passwordCredential κ = some pc) :
    ∃ pc₀, before.get .passwordCredential κ = some pc₀ ∧ pc₀.email = pc.email ∧
      (pc₀.userId = c.passwordUserId ∧ pc.userId = c.canonicalUserId ∨
        pc₀.userId ≠ c.passwordUserId ∧ pc.userId = pc₀.userId) := by
  rw [h.credential] at hpc
  obtain ⟨pc₀, hpc₀, rfl⟩ := Option.map_eq_some_iff.mp hpc
  refine ⟨pc₀, hpc₀, ?_⟩
  split
  · next howner => exact ⟨rfl, .inl ⟨howner, rfl⟩⟩
  · next howner => exact ⟨rfl, .inr ⟨howner, rfl⟩⟩

lemma Merged.hasPassword_kept (h : Merged c before after) {userId : String}
    (hne : userId ≠ c.passwordUserId) (hpassword : HasPassword before userId) :
    HasPassword after userId := by
  obtain ⟨κ, pc, hpc, rfl⟩ := hpassword
  exact ⟨κ, pc, by rw [h.credential, hpc, Option.map_some, if_neg hne], rfl⟩

lemma Merged.social_iff (h : Merged c before after) {κ : String} {sa : SocialAccount} :
    after.get .socialAccount κ = some sa ↔
      before.get .socialAccount κ = some sa ∧ sa.userId ≠ c.passwordUserId := by
  rw [h.child .socialAccount (by simp [childTables]) (by simp), Option.filter_eq_some_iff]
  simp [Table.owner]

/-- The users that a merge does not name stay as they are. -/
lemma Merged.user_other (h : Merged c before after) {id : String}
    (hpassword : id ≠ c.passwordUserId) (hcanonical : id ≠ c.canonicalUserId) :
    after.get .user id = before.get .user id := by
  rw [h.user, if_neg hpassword, if_neg hcanonical]

/-- Split accounts of a user that another merge does not give a password are still split,
maybe from the user that the password has moved to. -/
lemma Split.after_merge (hsplit' : Split lower before c') (hsplit : Split lower before c)
    (h : Merged c before after) (hne : c'.canonicalUserId ≠ c.canonicalUserId) :
    Split lower after { c' with
      passwordUserId := if c'.passwordUserId = c.passwordUserId then c.canonicalUserId
        else c'.passwordUserId } := by
  have hpassword : c'.canonicalUserId ≠ c.passwordUserId := by
    obtain ⟨κ, pc, hpc, howner, -⟩ := hsplit.credential
    intro heq
    exact hsplit'.bare κ pc hpc (howner.trans heq.symm)
  have hcanonical : after.get .user c'.canonicalUserId = before.get .user c'.canonicalUserId :=
    h.user_other hpassword hne
  obtain ⟨κ, pc, hpc, howner, hemail⟩ := hsplit'.credential
  refine ⟨⟨κ, _, (h.credential κ).trans (by rw [hpc, Option.map_some]), ?_, ?_⟩, ?_,
    hsplit'.google, ?_, by rw [hcanonical]; exact hsplit'.canonical, ?_,
    fun κ' pc' hpc' howner' => ?_⟩
  · dsimp only
    rw [howner]
    split <;> simp [howner]
  · split <;> exact hemail
  · obtain ⟨κ', sa, e, hsa, hprovider, hid, howner', he, hlower⟩ := hsplit'.social
    exact ⟨κ', sa, e, h.social_iff.mpr ⟨hsa, howner' ▸ hpassword⟩, hprovider, hid, howner', he,
      hlower⟩
  · dsimp only
    split
    · exact hne
    · exact hsplit'.distinct
  · dsimp only
    split
    · obtain ⟨u, hu, -⟩ := hsplit.canonical
      refine ⟨{ u with email := some c.email, emailVerified := true }, ?_, rfl⟩
      rw [h.user, if_neg hsplit.distinct, if_pos rfl, hu, Option.map_some]
    · next hother =>
      by_cases hcan : c'.passwordUserId = c.canonicalUserId
      · exact absurd (howner.trans hcan) (hsplit.bare κ pc hpc)
      · rw [h.user_other hother hcan]
        exact hsplit'.password
  · obtain ⟨pc₀, hpc₀, -, ⟨-, hmoved⟩ | ⟨-, hkept⟩⟩ := h.credential_before hpc'
    · exact hne (howner'.symm.trans hmoved)
    · exact hsplit'.bare κ' pc₀ hpc₀ (hkept.symm.trans howner')

/-- Accounts that are split after a merge were split before it. -/
lemma Split.before_merge (hsplit' : Split lower after c') (hsplit : Split lower before c)
    (h : Merged c before after) :
    ∃ passwordUserId, Split lower before { c' with passwordUserId := passwordUserId } := by
  have hne : c'.canonicalUserId ≠ c.canonicalUserId := by
    intro heq
    obtain ⟨κ, pc, hpc, howner⟩ := h.hasPassword hsplit
    exact hsplit'.bare κ pc hpc (howner.trans heq.symm)
  have hpassword : c'.canonicalUserId ≠ c.passwordUserId := by
    intro heq
    obtain ⟨u, hu, -⟩ := hsplit'.canonical
    rw [h.user, if_pos heq] at hu
    simp at hu
  have hcanonical : after.get .user c'.canonicalUserId = before.get .user c'.canonicalUserId :=
    h.user_other hpassword hne
  have hbare : ∀ κ pc, before.get .passwordCredential κ = some pc →
      pc.userId ≠ c'.canonicalUserId := by
    intro κ pc hpc howner
    obtain ⟨κ', pc', hpc', howner'⟩ := h.hasPassword_kept hpassword ⟨κ, pc, hpc, howner⟩
    exact hsplit'.bare κ' pc' hpc' howner'
  have hsocial : ∃ κ sa e, before.get .socialAccount κ = some sa ∧ sa.provider = c'.provider ∧
      sa.providerUserId = c'.providerUserId ∧ sa.userId = c'.canonicalUserId ∧
      sa.providerEmail = some e ∧ lower e = c'.email := by
    obtain ⟨κ, sa, e, hsa, hrest⟩ := hsplit'.social
    exact ⟨κ, sa, e, (h.social_iff.mp hsa).1, hrest⟩
  obtain ⟨κ, pc, hpc, howner, hemail⟩ := hsplit'.credential
  obtain ⟨pc₀, hpc₀, hsame, ⟨hmoved, hnow⟩ | ⟨hkept, hnow⟩⟩ := h.credential_before hpc
  · exact ⟨c.passwordUserId, ⟨κ, pc₀, hpc₀, hmoved, hsame ▸ hemail⟩, hsocial, hsplit'.google,
      hpassword, hcanonical ▸ hsplit'.canonical, hsplit.password, hbare⟩
  · have howner₀ : pc₀.userId = c'.passwordUserId := hnow.symm.trans howner
    refine ⟨c'.passwordUserId, ⟨κ, pc₀, hpc₀, howner₀, hsame ▸ hemail⟩, hsocial, hsplit'.google,
      hsplit'.distinct, hcanonical ▸ hsplit'.canonical, ?_, hbare⟩
    rw [← h.user_other (howner₀ ▸ hkept) fun heq => hsplit.bare κ pc₀ hpc₀ (howner₀.trans heq)]
    exact hsplit'.password

end step

/-! ## Whole runs -/

section runs

variable {cs merged : List SplitAccountCandidate} {db final : Db store}

/-- What is split after a run was split before it. -/
lemma Applied.split_before (h : Applied lower cs db merged final) {c' : SplitAccountCandidate}
    (hsplit' : Split lower final c') :
    ∃ passwordUserId, Split lower db { c' with passwordUserId := passwordUserId } := by
  induction h with
  | nil => exact ⟨c'.passwordUserId, hsplit'⟩
  | stale _ _ ih => exact ih hsplit'
  | merged hsplit heffect _ ih =>
    obtain ⟨p, hmid⟩ := ih hsplit'
    exact hmid.before_merge hsplit heffect

lemma Applied.hasPassword_kept (h : Applied lower cs db merged final) {userId : String}
    (hcs : ∀ c ∈ cs, c.passwordUserId ≠ userId) (hpassword : HasPassword db userId) :
    HasPassword final userId := by
  induction h with
  | nil => exact hpassword
  | stale _ _ ih => exact ih (fun c hc => hcs c (List.mem_cons_of_mem _ hc)) hpassword
  | merged _ heffect _ ih =>
    exact ih (fun c hc => hcs c (List.mem_cons_of_mem _ hc))
      (heffect.hasPassword_kept (Ne.symm (hcs _ List.mem_cons_self)) hpassword)

/-- Split accounts end with a password for the user of the Google account, or stay split. -/
lemma Applied.split_after (h : Applied lower cs db merged final) {c : SplitAccountCandidate}
    (hcs : ∀ x ∈ cs, x.passwordUserId ≠ c.canonicalUserId) (hsplit : Split lower db c) :
    HasPassword final c.canonicalUserId ∨
      ∃ passwordUserId, Split lower final { c with passwordUserId := passwordUserId } := by
  induction h generalizing c with
  | nil => exact .inr ⟨c.passwordUserId, hsplit⟩
  | stale _ _ ih => exact ih (fun x hx => hcs x (List.mem_cons_of_mem _ hx)) hsplit
  | @merged x cs merged db mid final hsplit' heffect hrest ih =>
    have htail : ∀ y ∈ cs, y.passwordUserId ≠ c.canonicalUserId :=
      fun y hy => hcs y (List.mem_cons_of_mem _ hy)
    by_cases heq : c.canonicalUserId = x.canonicalUserId
    · exact .inl (heq ▸ hrest.hasPassword_kept (heq ▸ htail) (heffect.hasPassword hsplit'))
    · have hmid := hsplit.after_merge hsplit' heffect heq
      generalize (if c.passwordUserId = x.passwordUserId then x.canonicalUserId
        else c.passwordUserId) = passwordUserId at hmid
      exact ih (c := { c with passwordUserId := passwordUserId }) htail hmid

/-- A candidate whose password no other user competes for ends with the password. -/
lemma Applied.hasPassword_of_unrivalled (h : Applied lower cs db merged final)
    {c : SplitAccountCandidate} (hcs : ∀ x ∈ cs, x.passwordUserId ≠ c.canonicalUserId)
    (hrival : ∀ x ∈ cs, x.passwordUserId = c.passwordUserId →
      x.canonicalUserId = c.canonicalUserId)
    (hsplit : HasPassword db c.canonicalUserId ∨ Split lower db c)
    (hmem : c ∈ cs ∨ HasPassword db c.canonicalUserId) : HasPassword final c.canonicalUserId := by
  induction h with
  | nil => exact hmem.resolve_left (by simp)
  | @stale x cs merged db final hstale hrest ih =>
    have htail := fun y hy => hcs y (List.mem_cons_of_mem x hy)
    refine ih htail (fun y hy => hrival y (List.mem_cons_of_mem x hy)) hsplit ?_
    rcases hmem with hmem | hpassword
    · rcases List.mem_cons.mp hmem with rfl | hmem
      · exact .inr (hsplit.resolve_right hstale)
      · exact .inl hmem
    · exact .inr hpassword
  | @merged x cs merged db mid final hsplit' heffect hrest ih =>
    have htail := fun y hy => hcs y (List.mem_cons_of_mem x hy)
    have hhead := hcs x List.mem_cons_self
    have hrivals := fun y hy => hrival y (List.mem_cons_of_mem x hy)
    by_cases heq : x.canonicalUserId = c.canonicalUserId
    · exact hrest.hasPassword_kept htail (heq ▸ heffect.hasPassword hsplit')
    have hother : c.passwordUserId ≠ x.passwordUserId := fun hp =>
      heq (hrival x List.mem_cons_self hp.symm)
    have hmid : HasPassword mid c.canonicalUserId ∨ Split lower mid c := by
      rcases hsplit with hpassword | hsplit
      · exact .inl (heffect.hasPassword_kept (Ne.symm hhead) hpassword)
      · have hafter := hsplit.after_merge hsplit' heffect (Ne.symm heq)
        rw [if_neg hother] at hafter
        exact .inr hafter
    refine ih htail hrivals hmid ?_
    rcases hmem with hmem | hpassword
    · rcases List.mem_cons.mp hmem with rfl | hmem
      · exact absurd rfl heq
      · exact .inl hmem
    · exact .inr (heffect.hasPassword_kept (Ne.symm hhead) hpassword)

lemma Applied.sublist (h : Applied lower cs db merged final) : merged.Sublist cs := by
  induction h with
  | nil => exact .slnil
  | stale _ _ ih => exact .cons _ ih
  | merged _ _ _ ih => exact .cons_cons _ ih

/-- No merge brings in a user. -/
lemma Applied.user_gone (h : Applied lower cs db merged final) {id : String}
    (hid : db.get .user id = none) : final.get .user id = none := by
  induction h with
  | nil => exact hid
  | stale _ _ ih => exact ih hid
  | merged _ heffect _ ih =>
    refine ih ?_
    rw [heffect.user]
    split
    · rfl
    · split <;> simp [hid]

lemma Applied.of_mem_merged (h : Applied lower cs db merged final)
    (hroles : ∀ c ∈ cs, ∀ x ∈ cs, x.passwordUserId ≠ c.canonicalUserId)
    {c : SplitAccountCandidate} (hc : c ∈ merged) :
    final.get .user c.passwordUserId = none ∧ HasPassword final c.canonicalUserId := by
  induction h with
  | nil => simp at hc
  | @stale x cs merged db final _ _ ih =>
    have hrest := fun c hc y hy =>
      hroles c (List.mem_cons_of_mem x hc) y (List.mem_cons_of_mem x hy)
    exact ih hrest hc
  | @merged x cs merged db mid final hsplit heffect hrest ih =>
    rcases List.mem_cons.mp hc with rfl | hc
    · refine ⟨hrest.user_gone ?_, hrest.hasPassword_kept (fun y hy => ?_)
        (heffect.hasPassword hsplit)⟩
      · rw [heffect.user, if_pos rfl]
      · exact hroles c List.mem_cons_self y (List.mem_cons_of_mem c hy)
    · exact ih (fun c hc y hy => hroles c (List.mem_cons_of_mem x hc) y
        (List.mem_cons_of_mem x hy)) hc

end runs

section command

variable {order order' : List SplitAccountCandidate → List SplitAccountCandidate}
  {auditId' : ℕ → String} {m m' : Maintained} {result : MergeSplitIdentityResult}

lemma mergeAll_of_run
    (hrun : mergeSplitIdentities lower order auditId ⟨true, email⟩ m = (.ok result, m')) :
    result.candidates = order (candidateSelect lower m.db email) ∧
      mergeAll lower auditId 0 result.candidates m = (.ok result.mergedCount, m') := by
  simp only [mergeSplitIdentities, if_true] at hrun
  rcases hall : mergeAll lower auditId 0 (order (candidateSelect lower m.db email)) m with
    ⟨count, final⟩
  rw [hall] at hrun
  obtain ⟨hresult, rfl⟩ := Prod.mk.inj hrun
  cases count with
  | error e => simp [Except.map] at hresult
  | ok count =>
    obtain rfl := Except.ok.inj hresult
    exact ⟨rfl, hall⟩

lemma mem_candidates (horder : ∀ cs, (order cs).Perm cs) {c : SplitAccountCandidate} :
    c ∈ order (candidateSelect lower m.db email) ↔
      Split lower m.db c ∧ ∀ e ∈ email, c.email = lower e :=
  ((horder _).mem_iff).trans mem_candidateSelect

/-- The candidates of a run have no user in both roles. -/
lemma password_ne_canonical (horder : ∀ cs, (order cs).Perm cs) {c x : SplitAccountCandidate}
    (hc : c ∈ order (candidateSelect lower m.db email))
    (hx : x ∈ order (candidateSelect lower m.db email)) :
    x.passwordUserId ≠ c.canonicalUserId := by
  obtain ⟨κ, pc, hpc, howner, -⟩ := ((mem_candidates horder).mp hx).1.credential
  intro heq
  exact ((mem_candidates horder).mp hc).1.bare κ pc hpc (howner.trans heq)

/-- After a completed run, a second one has nothing left to merge and changes nothing,
exactly if the first has left a password with every user it was to give one to. -/
theorem rerun_idle_iff (hlower : ∀ s, lower (lower s) = lower s)
    (horder : ∀ cs, (order cs).Perm cs) (horder' : ∀ cs, (order' cs).Perm cs)
    (hunique : UniqueEntries m.db)
    (hrun : mergeSplitIdentities lower order auditId ⟨true, email⟩ m = (.ok result, m')) :
    mergeSplitIdentities lower order' auditId' ⟨true, email⟩ m' =
        (.ok ⟨"apply", [], 0, 0⟩, m') ↔
      ∀ c ∈ result.candidates, HasPassword m'.db c.canonicalUserId := by
  obtain ⟨hcandidates, hall⟩ := mergeAll_of_run hrun
  obtain ⟨merged, happlied, -, -⟩ := applied_of_mergeAll hlower hunique hall
  rw [hcandidates] at happlied ⊢
  constructor
  · intro hidle c hc
    have hnone : [] = order' (candidateSelect lower m'.db email) := (mergeAll_of_run hidle).1
    obtain ⟨hsplit, hemail⟩ := (mem_candidates horder).mp hc
    rcases happlied.split_after (fun x hx => password_ne_canonical horder hc hx) hsplit with
      hpassword | ⟨p, hsplit'⟩
    · exact hpassword
    · have hmem := (mem_candidates horder').mpr ⟨hsplit', hemail⟩
      rw [← hnone] at hmem
      simp at hmem
  · intro hpassword
    have hnone : order' (candidateSelect lower m'.db email) = [] := by
      refine List.eq_nil_iff_forall_not_mem.mpr fun c' hc' => ?_
      obtain ⟨hsplit', hemail⟩ := (mem_candidates horder').mp hc'
      obtain ⟨p, hsplit⟩ := happlied.split_before hsplit'
      obtain ⟨κ, pc, hpc, howner⟩ := hpassword _ ((mem_candidates horder).mpr ⟨hsplit, hemail⟩)
      exact hsplit'.bare κ pc hpc howner
    simp [mergeSplitIdentities, hnone, mergeAll, Except.map]

/-- The first run over those accounts, with Alice's before Bob's. -/
def rivalRun : Except Error MergeSplitIdentityResult × Maintained :=
  mergeSplitIdentities id List.reverse (fun _ => "a0") ⟨true, none⟩ rivalAccounts

lemma rivalRun_eq : rivalRun =
    (.ok ⟨"apply", [aliceCandidate, bobCandidate], 1, 1⟩, rivalRun.2) := by
  refine Prod.ext ?_ rfl
  decide +kernel

/-- Bob is left without a password, so the second run finds him and Alice. -/
theorem rivalRun_not_idle : mergeSplitIdentities id id (fun _ => "a1") ⟨true, none⟩ rivalRun.2 ≠
    (.ok ⟨"apply", [], 0, 0⟩, rivalRun.2) := by
  intro hidle
  have hpassword := (rerun_idle_iff (fun _ => rfl) (fun cs => cs.reverse_perm) (fun _ => .refl _)
    (by decide +kernel) rivalRun_eq).mp hidle bobCandidate (by simp)
  obtain ⟨κ, pc, hpc, howner⟩ := hpassword
  have hnone : (firstRow (Γ := store) rivalRun.2.db .passwordCredential fun _ pc =>
      pc.userId = "bob") = none := by decide +kernel
  simpa [howner, bobCandidate] using firstRow_none hnone hpc

/-- Where no two Google users compete for a password, a second run changes nothing. -/
theorem rerun_idle_of_unrivalled (hlower : ∀ s, lower (lower s) = lower s)
    (horder : ∀ cs, (order cs).Perm cs) (horder' : ∀ cs, (order' cs).Perm cs)
    (hunique : UniqueEntries m.db)
    (hrun : mergeSplitIdentities lower order auditId ⟨true, email⟩ m = (.ok result, m'))
    (hrival : ∀ c ∈ result.candidates, ∀ c' ∈ result.candidates,
      c.passwordUserId = c'.passwordUserId → c.canonicalUserId = c'.canonicalUserId) :
    mergeSplitIdentities lower order' auditId' ⟨true, email⟩ m' =
      (.ok ⟨"apply", [], 0, 0⟩, m') := by
  refine (rerun_idle_iff hlower horder horder' hunique hrun).mpr fun c hc => ?_
  obtain ⟨hcandidates, hall⟩ := mergeAll_of_run hrun
  obtain ⟨merged, happlied, -, -⟩ := applied_of_mergeAll hlower hunique hall
  rw [hcandidates] at happlied hc hrival
  exact happlied.hasPassword_of_unrivalled (fun x hx => password_ne_canonical horder hc hx)
    (fun x hx => hrival x hx c hc) (.inr ((mem_candidates horder).mp hc).1) (.inl hc)

end command

/-! ## Counting and recording -/

def userCount (db : Db store) : ℕ := (db .user).keys.length

/-- A merge deletes one user. -/
lemma Merged.userCount {before after : Db store} {c : SplitAccountCandidate}
    (hsplit : Split lower before c) (h : Merged c before after) :
    userCount after + 1 = userCount before := by
  have hcard : ∀ db : Db store, MergeSplitIdentities.userCount db =
      (db .user).keys.toFinset.card :=
    fun db => (List.toFinset_card_of_nodup (AList.keys_nodup _)).symm
  have hmem : ∀ (db : Db store) (id : String), id ∈ (db .user).keys.toFinset ↔
      (db.get .user id).isSome = true := by
    intro db id
    rw [List.mem_toFinset, ← AList.mem_keys, ← AList.lookup_isSome, Db.get]
  have herase : (after .user).keys.toFinset =
      (before .user).keys.toFinset.erase c.passwordUserId := by
    ext id
    rw [Finset.mem_erase, hmem, hmem, h.user]
    split
    · next hid => simp [hid]
    · next hid => split <;> simp [hid]
  obtain ⟨u, hu, -⟩ := hsplit.password
  have hpassword : c.passwordUserId ∈ (before .user).keys.toFinset := by simp [hmem, hu]
  rw [hcard, hcard, herase, Finset.card_erase_add_one hpassword]

lemma Applied.userCount {cs merged : List SplitAccountCandidate} {db final : Db store}
    (h : Applied lower cs db merged final) : userCount final + merged.length = userCount db := by
  induction h with
  | nil => rfl
  | stale _ _ ih => exact ih
  | merged hsplit heffect _ ih =>
    rw [List.length_cons, ← heffect.userCount hsplit, ← ih, Nat.add_assoc]

/-- Several completed runs in a row, each of which has found candidates. -/
inductive Repeated (lower : String → String) (email : Option String) :
    ℕ → Maintained → Maintained → Prop
  | start {m : Maintained} : Repeated lower email 0 m m
  | again {n : ℕ} {m m' m'' : Maintained} {auditId : ℕ → String}
      {order : List SplitAccountCandidate → List SplitAccountCandidate}
      {result : MergeSplitIdentityResult} (before : Repeated lower email n m m')
      (horder : ∀ cs, (order cs).Perm cs)
      (run : mergeSplitIdentities lower order auditId ⟨true, email⟩ m' = (.ok result, m''))
      (found : result.candidates ≠ []) : Repeated lower email (n + 1) m m''

lemma Applied.unique {cs merged : List SplitAccountCandidate} {db final : Db store}
    (h : Applied lower cs db merged final) (hunique : UniqueEntries db) : UniqueEntries final := by
  induction h with
  | nil => exact hunique
  | stale _ _ ih => exact ih hunique
  | merged _ heffect _ ih => exact ih heffect.unique

/-- The first candidate of a run is not stale. -/
lemma merged_ne_nil {c : SplitAccountCandidate} {cs merged : List SplitAccountCandidate}
    {db final : Db store} (hsplit : Split lower db c)
    (h : Applied lower (c :: cs) db merged final) : merged ≠ [] := by
  cases h with
  | stale hstale _ => exact absurd hsplit hstale
  | merged _ _ _ => simp

/-- A completed run deletes as many users as it reports, and one at least if it has found
candidates. -/
theorem mergedCount_eq {order : List SplitAccountCandidate → List SplitAccountCandidate}
    {m m' : Maintained} {result : MergeSplitIdentityResult}
    (hlower : ∀ s, lower (lower s) = lower s) (horder : ∀ cs, (order cs).Perm cs)
    (hunique : UniqueEntries m.db)
    (hrun : mergeSplitIdentities lower order auditId ⟨true, email⟩ m = (.ok result, m')) :
    userCount m'.db + result.mergedCount = userCount m.db ∧
      (result.candidates ≠ [] → 0 < result.mergedCount) := by
  obtain ⟨hcandidates, hall⟩ := mergeAll_of_run hrun
  obtain ⟨merged, happlied, hcount, -⟩ := applied_of_mergeAll hlower hunique hall
  rw [← hcount]
  refine ⟨happlied.userCount, fun hfound => ?_⟩
  obtain ⟨c, cs, hcs⟩ := List.exists_cons_of_ne_nil hfound
  have hsplit : Split lower m.db c := by
    refine ((mem_candidates horder).mp (?_ : c ∈ order (candidateSelect lower m.db email))).1
    rw [← hcandidates, hcs]
    exact List.mem_cons_self
  rw [hcs] at happlied
  exact List.length_pos_iff.mpr (merged_ne_nil hsplit happlied)

/-- Repeating completed runs comes to one that finds nothing after no more runs than there
are users. -/
theorem repeated_le_userCount (hlower : ∀ s, lower (lower s) = lower s) {n : ℕ} {m m' : Maintained}
    (hunique : UniqueEntries m.db) (h : Repeated lower email n m m') :
    n + userCount m'.db ≤ userCount m.db := by
  have hboth : UniqueEntries m'.db ∧ n + userCount m'.db ≤ userCount m.db := by
    induction h with
    | start => exact ⟨hunique, by simp⟩
    | @again n m m' m'' auditId order result _ horder hrun hfound ih =>
      obtain ⟨hmid, hle⟩ := ih hunique
      obtain ⟨-, hall⟩ := mergeAll_of_run hrun
      obtain ⟨merged, happlied, -, -⟩ := applied_of_mergeAll hlower hmid hall
      obtain ⟨hcount, hpos⟩ := mergedCount_eq hlower horder hmid hrun
      have hmerged := hpos hfound
      exact ⟨happlied.unique hmid, by omega⟩
  exact hboth.2

theorem rivalRun_repeated : 1 + userCount rivalRun.2.db ≤ userCount rivalAccounts.db :=
  repeated_le_userCount (fun _ => rfl) (by decide +kernel)
    (.again .start (fun cs => cs.reverse_perm) rivalRun_eq (by simp))

/-- The row of a merge in the end, when the deleted user is no longer there to refer to. -/
def retiredRow (c : SplitAccountCandidate) : AuditLogRow := { auditRow c with targetUserId := none }

/-- A row after the users of some candidates have been deleted. -/
def withdrawn (cs : List SplitAccountCandidate) (row : AuditLogRow) : AuditLogRow :=
  cs.foldl (fun row c => row.setNull c.passwordUserId) row

lemma setNull_auditRow {c : SplitAccountCandidate} (h : c.canonicalUserId ≠ c.passwordUserId) :
    (auditRow c).setNull c.passwordUserId = retiredRow c := by
  simp [auditRow, AuditLogRow.setNull, retiredRow, Option.filter, h]

lemma withdrawn_retiredRow {c : SplitAccountCandidate} {cs : List SplitAccountCandidate}
    (h : ∀ x ∈ cs, c.canonicalUserId ≠ x.passwordUserId) :
    withdrawn cs (retiredRow c) = retiredRow c := by
  induction cs with
  | nil => rfl
  | cons x cs ih =>
    have hx : (retiredRow c).setNull x.passwordUserId = retiredRow c := by
      simp [auditRow, AuditLogRow.setNull, retiredRow, Option.filter, h x List.mem_cons_self]
    change withdrawn cs ((retiredRow c).setNull x.passwordUserId) = retiredRow c
    rw [hx]
    exact ih fun y hy => h y (List.mem_cons_of_mem x hy)

lemma recordAll_eq {entries : List (String × SplitAccountCandidate)}
    (hroles : ∀ x ∈ entries, ∀ y ∈ entries, x.2.canonicalUserId ≠ y.2.passwordUserId)
    (auditLog : List (String × AuditLogRow)) :
    recordAll entries auditLog =
      (auditLog.map fun row => (row.1, withdrawn (entries.map Prod.snd) row.2)) ++
        entries.map fun x => (x.1, retiredRow x.2) := by
  induction entries generalizing auditLog with
  | nil => simp [recordAll, withdrawn]
  | cons x entries ih =>
    have htail : ∀ y ∈ entries, ∀ z ∈ entries, y.2.canonicalUserId ≠ z.2.passwordUserId :=
      fun y hy z hz => hroles y (List.mem_cons_of_mem x hy) z (List.mem_cons_of_mem x hz)
    have hself : (auditRow x.2).setNull x.2.passwordUserId = retiredRow x.2 :=
      setNull_auditRow (hroles x List.mem_cons_self x List.mem_cons_self)
    have hlater : withdrawn (entries.map Prod.snd) (retiredRow x.2) = retiredRow x.2 := by
      refine withdrawn_retiredRow fun c hc => ?_
      obtain ⟨y, hy, rfl⟩ := List.mem_map.mp hc
      exact hroles x List.mem_cons_self y (List.mem_cons_of_mem x hy)
    change recordAll entries (recorded x.1 x.2 auditLog) = _
    rw [ih htail]
    simp only [recorded, List.map_append, List.map_map, List.map_cons, List.map_nil,
      List.append_assoc, List.cons_append, List.nil_append, hself, hlater]
    rfl

/-- A completed run adds one row for each of the merges it has made, which names the user that
is kept and holds the id of the user that is gone. -/
theorem audited_run {order : List SplitAccountCandidate → List SplitAccountCandidate}
    {m m' : Maintained} {result : MergeSplitIdentityResult}
    (hlower : ∀ s, lower (lower s) = lower s) (horder : ∀ cs, (order cs).Perm cs)
    (hunique : UniqueEntries m.db)
    (hrun : mergeSplitIdentities lower order auditId ⟨true, email⟩ m = (.ok result, m')) :
    ∃ merged added, Applied lower result.candidates m.db merged m'.db ∧
      merged.length = result.mergedCount ∧
      (∀ c ∈ merged, m'.db.get .user c.passwordUserId = none ∧
        HasPassword m'.db c.canonicalUserId) ∧
      m'.auditLog = (m.auditLog.map fun row => (row.1, withdrawn merged row.2)) ++ added ∧
      added.map Prod.snd = merged.map retiredRow := by
  obtain ⟨hcandidates, hall⟩ := mergeAll_of_run hrun
  obtain ⟨merged, happlied, hcount, ids, hids, haudit⟩ := applied_of_mergeAll hlower hunique hall
  have hroles : ∀ c ∈ result.candidates, ∀ x ∈ result.candidates,
      x.passwordUserId ≠ c.canonicalUserId := by
    rw [hcandidates]
    exact fun c hc x hx => password_ne_canonical horder hc hx
  have hmerged : ∀ c ∈ merged, c ∈ result.candidates := fun c hc => happlied.sublist.subset hc
  have hsnd : (ids.zip merged).map Prod.snd = merged := List.map_snd_zip (by omega)
  rw [recordAll_eq fun x hx y hy => ?_, hsnd] at haudit
  · refine ⟨merged, _, happlied, hcount, fun c hc => happlied.of_mem_merged hroles hc,
      haudit, ?_⟩
    conv_rhs => rw [← hsnd]
    rw [List.map_map, List.map_map]
    rfl
  · have hx' : x.2 ∈ merged := hsnd ▸ List.mem_map_of_mem hx
    have hy' : y.2 ∈ merged := hsnd ▸ List.mem_map_of_mem hy
    exact Ne.symm (hroles _ (hmerged _ hx') _ (hmerged _ hy'))

/-- The one merge of the run over Alice's and Bob's accounts is recorded. -/
theorem rivalRun_audited : ∃ merged added,
    Applied id [aliceCandidate, bobCandidate] rivalAccounts.db merged rivalRun.2.db ∧
    merged.length = 1 ∧
    (∀ c ∈ merged, rivalRun.2.db.get .user c.passwordUserId = none ∧
      HasPassword rivalRun.2.db c.canonicalUserId) ∧
    rivalRun.2.auditLog = (rivalAccounts.auditLog.map fun row => (row.1, withdrawn merged row.2)) ++
      added ∧
    added.map Prod.snd = merged.map retiredRow :=
  audited_run (fun _ => rfl) (fun cs => cs.reverse_perm) (by decide +kernel) rivalRun_eq

end WiseacctSso.MergeSplitIdentities
