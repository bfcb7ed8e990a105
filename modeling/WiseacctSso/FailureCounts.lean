import WiseacctSso.SessionStoreSpecs

/-!
# Counting failed logins

Each failure counts itself and locks the credential in one transaction. Whatever the order
of the steps of many failures, the counts they return are consecutive, as long as the column
has room for them.
-/
namespace WiseacctSso
open ReadCommitted FailedLoginStore

structure FailureCall where
  userId : String
  lockedUntil : Timestamp

def FailureCall.prog (threshold : ℕ) (call : FailureCall) : StoreProg Unit := do
  let _ ← transaction
    (fun r => .failureCounted call.userId r.found r.failedLoginCount r.lockedUntil)
    (recordFailure call.userId call.lockedUntil threshold)

/-- Process `t` records the failure `calls t`, if the run ever starts it. -/
def failureRun (threshold : ℕ) (calls : ℕ → FailureCall) (db : Db store)
    (acts : List (Act store)) : Option (System store) :=
  (System.initial db ⟨∅⟩).run (fun t => (calls t).prog threshold) acts

/-- The processes that a run starts. -/
def startedBy (acts : List (Act store)) : Finset ℕ :=
  (acts.filterMap fun
    | .call t => some t
    | _ => none).toFinset

lemma mem_startedBy {acts : List (Act store)} {t : ℕ} : t ∈ startedBy acts ↔ .call t ∈ acts := by
  rw [startedBy, List.mem_toFinset, List.mem_filterMap]
  constructor
  · rintro ⟨a, ha, hcall⟩
    cases a with
    | call t' => exact Option.some.inj hcall ▸ ha
    | _ => simp at hcall
  · exact fun ha => ⟨.call t, ha, rfl⟩

/-- A run depends on the programs of the processes it starts only. -/
lemma run_congr {code code' : ℕ → StoreProg Unit} {acts : List (Act store)} {sys : System store}
    (h : ∀ t, .call t ∈ acts → code t = code' t) : sys.run code acts = sys.run code' acts := by
  induction acts generalizing sys with
  | nil => rfl
  | cons a acts ih =>
    have hact : sys.act code a = sys.act code' a := by
      cases a with
      | call t => simp only [System.act, h t List.mem_cons_self]
      | _ => rfl
    simp only [System.run, hact]
    exact congrArg _ (funext fun next => ih fun t ht => h t (List.mem_cons_of_mem _ ht))

/-- Those of the processes that record failures of the user. -/
def failuresOf (calls : ℕ → FailureCall) (started : Finset ℕ) (userId : String) : Finset ℕ :=
  started.filter fun t => (calls t).userId = userId

/-- The counts have room for the failures of all the processes. -/
def InRange (calls : ℕ → FailureCall) (started : Finset ℕ) (db : Db store) : Prop :=
  ∀ κ (c : PasswordCredential), db.get .passwordCredential κ = some c →
    c.failedLoginCount + (failuresOf calls started c.userId).card ≤ maxFailedLoginCount

section guarantee

variable (threshold : ℕ) (calls : ℕ → FailureCall)

/-- What a committed failure has done, by what it returned. -/
inductive FailureCommit (t : ℕ) (before after : Db store) : Report → Prop
  | missing (absent : ∀ κ (c : PasswordCredential), before.get .passwordCredential κ = some c →
      c.userId ≠ (calls t).userId) (effect : after = before) :
      FailureCommit t before after (.failureCounted (calls t).userId false none none)
  | counted {κ : String} {c : PasswordCredential}
      (found : before.get .passwordCredential κ = some c) (user : c.userId = (calls t).userId)
      (effect : ∀ κ', after.get .passwordCredential κ' = if κ' = κ then some { c with
          failedLoginCount := c.failedLoginCount + 1,
          lockedUntil := failureLock c (calls t).lockedUntil threshold <|> c.lockedUntil }
        else before.get .passwordCredential κ')
      (only : OnlyTables [.passwordCredential] before after) :
      FailureCommit t before after (.failureCounted (calls t).userId true
        (some (c.failedLoginCount + 1)) (failureLock c (calls t).lockedUntil threshold))

/-- Runs of failures by these processes from the tables `db₀`; a call reports once and raises
no error. -/
def failureGuarantee (started : Finset ℕ) (db₀ : Db store) : Guarantee store where
  initial db _ := db = db₀
  commit log t report _ after :=
    log.reports t = [] ∧ t ∈ started ∧ FailureCommit threshold calls t log.db after report
  call _ _ _ _ := False
  raised _ _ := False

end guarantee

variable {threshold : ℕ} {calls : ℕ → FailureCall} {started : Finset ℕ} {db₀ : Db store} {t : ℕ}

/-! ## Credentials -/

/-- No credential comes in, and each keeps its user. -/
lemma FailureCommit.credential_before {before after : Db store} {report : Report}
    (h : FailureCommit threshold calls t before after report) {κ : String}
    {c : PasswordCredential} (hc : after.get .passwordCredential κ = some c) :
    ∃ c₀, before.get .passwordCredential κ = some c₀ ∧ c₀.userId = c.userId := by
  cases h with
  | missing absent effect => exact ⟨c, effect ▸ hc, rfl⟩
  | @counted κ₁ c₁ found user effect only =>
    rw [effect] at hc
    split at hc
    · next hκ =>
      obtain rfl := Option.some.inj hc
      exact ⟨c₁, hκ ▸ found, rfl⟩
    · exact ⟨c, hc, rfl⟩

lemma credential_before {permitted : Event store → Prop} {log log' : Log store}
    (h : log.Extends permitted log')
    (hv : log'.Valid (failureGuarantee threshold calls started db₀))
    {κ : String} {c : PasswordCredential}
    (hc : log'.db.get .passwordCredential κ = some c) :
    ∃ c₀, log.db.get .passwordCredential κ = some c₀ ∧ c₀.userId = c.userId := by
  induction h generalizing c with
  | refl => exact ⟨c, hc, rfl⟩
  | @add log' event _ _ ih =>
    cases event with
    | selected t q => exact ih hv.of_add hc
    | called t report ext => exact ih hv.of_add hc
    | committed t report held db =>
      obtain ⟨c₁, hc₁, huser⟩ := hv.2.1.2.2.credential_before hc
      obtain ⟨c₀, hc₀, huser₀⟩ := ih hv.of_add hc₁
      exact ⟨c₀, hc₀, huser₀.trans huser⟩

/-! ## Counts -/

/-- A failure of the user was recorded. -/
def recordedFor (userId : String) : ℕ → Report → Bool
  | _, .failureCounted userId' _ _ _ => userId' = userId
  | _, _ => false

/-- The failure was counted for the user, and this count was returned. -/
def countReturned (userId : String) (count : ℕ) : ℕ → Report → Bool
  | _, .failureCounted userId' found count' _ =>
      userId' = userId && found && count' = some count
  | _, _ => false

/-- The lock of the credential after the failures of a log: that of the call which returned
the last count, if this count reaches the threshold. -/
def LockAfter (threshold : ℕ) (calls : ℕ → FailureCall) (log : Log store)
    (c : PasswordCredential) (n : ℕ) (lockedUntil : Option Timestamp) : Prop :=
  if 0 < n ∧ threshold ≤ c.failedLoginCount + n then
    ∃ t, lockedUntil = some (calls t).lockedUntil ∧
      .failureCounted c.userId true (some (c.failedLoginCount + n)) lockedUntil ∈ log.reports t
  else lockedUntil = c.lockedUntil

/-- What `n` counted failures have made of a credential, and the counts they have returned. -/
structure FailuresCounted (threshold : ℕ) (calls : ℕ → FailureCall) (log : Log store)
    (κ : String) (c : PasswordCredential) (n : ℕ) : Prop where
  row : ∃ lockedUntil, LockAfter threshold calls log c n lockedUntil ∧
    log.db.get .passwordCredential κ =
      some { c with failedLoginCount := c.failedLoginCount + n, lockedUntil := lockedUntil }
  returned : ∀ count, log.tally (countReturned c.userId count) =
    if c.failedLoginCount < count ∧ count ≤ c.failedLoginCount + n then 1 else 0

lemma LockAfter.add {log : Log store} {c : PasswordCredential} {n : ℕ}
    {lockedUntil : Option Timestamp} (h : LockAfter threshold calls log c n lockedUntil)
    (event : Event store) : LockAfter threshold calls (log.add event) c n lockedUntil := by
  unfold LockAfter at h ⊢
  split
  · next hn =>
    rw [if_pos hn] at h
    obtain ⟨t, hlock, hmem⟩ := h
    exact ⟨t, hlock, mem_reports_of_precedes (.single trivial) hmem⟩
  · next hn => rwa [if_neg hn] at h

/-- One more failure of the user. -/
lemma FailuresCounted.counted {log : Log store} {held : Lock store → Bool} {after : Db store}
    {κ : String} {c c' : PasswordCredential} {n : ℕ}
    (h : FailuresCounted threshold calls log κ c n)
    (found : log.db.get .passwordCredential κ = some c')
    (effect : after.get .passwordCredential κ = some { c' with
      failedLoginCount := c'.failedLoginCount + 1,
      lockedUntil := failureLock c' (calls t).lockedUntil threshold <|> c'.lockedUntil }) :
    FailuresCounted threshold calls (log.add (.committed t (.failureCounted c.userId true
      (some (c'.failedLoginCount + 1)) (failureLock c' (calls t).lockedUntil threshold))
      held after)) κ c (n + 1) := by
  obtain ⟨⟨lockedUntil, hlock, hrow⟩, hreturned⟩ := h
  obtain rfl := Option.some.inj (found.symm.trans hrow)
  refine ⟨⟨_, ?_, effect⟩, fun count => ?_⟩
  · unfold LockAfter
    dsimp only [failureLock]
    by_cases hthreshold : threshold ≤ c.failedLoginCount + n + 1
    · rw [if_pos ⟨n.succ_pos, hthreshold⟩, if_pos hthreshold]
      refine ⟨t, rfl, mem_reports_committed.mpr (.inr ⟨rfl, rfl⟩)⟩
    · rw [if_neg fun hn => hthreshold hn.2, if_neg hthreshold]
      unfold LockAfter at hlock
      rwa [if_neg fun hn => hthreshold (by omega)] at hlock
  · have htally := hreturned count
    simp only [Log.tally, htally, countReturned]
    by_cases hcount : count = c.failedLoginCount + n + 1
    · subst hcount
      simp
    · have hne : c.failedLoginCount + n + 1 ≠ count := fun he => hcount he.symm
      have hrange : c.failedLoginCount < count ∧ count ≤ c.failedLoginCount + (n + 1) ↔
          c.failedLoginCount < count ∧ count ≤ c.failedLoginCount + n := by omega
      simp only [hrange]
      simp [hne]

/-- A failure of another user. -/
lemma FailuresCounted.other {log : Log store} {held : Lock store → Bool} {after : Db store}
    {κ : String} {c : PasswordCredential} {n : ℕ} {userId : String} {found : Bool}
    {count : Option ℕ} {lock : Option Timestamp}
    (h : FailuresCounted threshold calls log κ c n) (huser : userId ≠ c.userId)
    (hsame : after.get .passwordCredential κ = log.db.get .passwordCredential κ) :
    FailuresCounted threshold calls
      (log.add (.committed t (.failureCounted userId found count lock) held after)) κ c n := by
  obtain ⟨⟨lockedUntil, hlock, hrow⟩, hreturned⟩ := h
  refine ⟨⟨lockedUntil, hlock.add _, hsame.trans hrow⟩, fun count' => ?_⟩
  simp only [Log.tally, hreturned, countReturned, huser]
  simp

/-- In a valid log every credential has counted the failures of its user. -/
theorem failuresCounted_of_valid {log : Log store}
    (hv : log.Valid (failureGuarantee threshold calls started db₀)) {κ : String}
    {c : PasswordCredential} (hc : db₀.get .passwordCredential κ = some c) :
    FailuresCounted threshold calls log κ c (log.tally (recordedFor c.userId)) := by
  induction log with
  | initial db ext =>
    obtain rfl : db = db₀ := hv.1
    refine ⟨⟨c.lockedUntil, ?_, hc⟩, fun count => ?_⟩
    · unfold LockAfter
      rw [if_neg (by simp [Log.tally])]
    · exact (if_neg fun hcount => absurd hcount.2 (not_le.mpr hcount.1)).symm
  | add log event ih =>
    have hlog := ih hv.of_add
    cases event with
    | selected t q =>
      obtain ⟨⟨lockedUntil, hlock, hrow⟩, hreturned⟩ := hlog
      exact ⟨⟨lockedUntil, hlock.add _, hrow⟩, hreturned⟩
    | called t report ext => exact absurd hv.2 (by simp [failureGuarantee])
    | committed t report held after =>
      obtain ⟨lockedUntil, -, hrow⟩ := hlog.row
      rcases hv.2.1.2.2 with ⟨absent, effect⟩ | @⟨κ', c', found, user, effect, only⟩
      · have huser : (calls t).userId ≠ c.userId := fun he => absent κ _ hrow he.symm
        have hnot : recordedFor c.userId t
            (.failureCounted (calls t).userId false none none) = false := by
          simp [recordedFor, huser]
        rw [Log.tally, hnot]
        exact hlog.other huser (by rw [effect])
      · by_cases huser : (calls t).userId = c.userId
        · -- The user has no other credential.
          obtain rfl : κ' = κ := hv.of_add.unique .passwordCredential κ' κ c' _ found hrow
            (.userId c.userId) (by simp [user, huser]) (by simp)
          have hcounted : recordedFor c.userId t (.failureCounted (calls t).userId true
              (some (c'.failedLoginCount + 1))
              (failureLock c' (calls t).lockedUntil threshold)) = true := by
            simp [recordedFor, huser]
          rw [Log.tally, hcounted, huser]
          exact hlog.counted found ((effect κ').trans (if_pos rfl))
        · have hnot : recordedFor c.userId t (.failureCounted (calls t).userId true
              (some (c'.failedLoginCount + 1))
              (failureLock c' (calls t).lockedUntil threshold)) = false := by
            simp [recordedFor, huser]
          rw [Log.tally, hnot]
          refine hlog.other huser ((effect κ).trans (if_neg fun hκ => huser ?_))
          subst hκ
          obtain rfl := Option.some.inj (found.symm.trans hrow)
          exact user.symm

lemma reports_length_le {log : Log store}
    (hv : log.Valid (failureGuarantee threshold calls started db₀)) (t : ℕ) :
    (log.reports t).length ≤ 1 := by
  induction log with
  | initial db ext => simp [Log.reports]
  | add log event ih =>
    cases event with
    | selected t' q => exact ih hv.of_add
    | called t' report ext => exact absurd hv.2 (by simp [failureGuarantee])
    | committed t' report held after =>
      by_cases ht : t' = t
      · subst ht
        simp [Log.reports, hv.2.1.1]
      · simpa [Log.reports, ht] using ih hv.of_add

/-- A lock goes with a count that reaches the threshold. -/
lemma threshold_le_of_lock {log : Log store}
    (hv : log.Valid (failureGuarantee threshold calls started db₀)) {userId : String} {count : ℕ}
    {lock : Timestamp}
    (hmem : .failureCounted userId true (some count) (some lock) ∈ log.reports t) :
    threshold ≤ count := by
  induction log with
  | initial db ext => simp [Log.reports] at hmem
  | add log event ih =>
    cases event with
    | selected t' q => exact ih hv.of_add hmem
    | called t' report ext => exact absurd hv.2 (by simp [failureGuarantee])
    | committed t' report held after =>
      rcases mem_reports_committed.mp hmem with hold | ⟨-, rfl⟩
      · exact ih hv.of_add hold
      · have hcommit := hv.2.1.2.2
        generalize hreport : Report.failureCounted userId true (some count) (some lock) = report
          at hcommit
        cases hcommit with
        | missing absent effect => simp at hreport
        | @counted κ c found user effect only =>
          simp only [Report.failureCounted.injEq, Option.some.injEq] at hreport
          obtain ⟨-, -, rfl, hlock⟩ := hreport
          by_contra hlt
          simp [failureLock, hlt] at hlock

/-! ## The calls keep the guarantee -/

/-- Every failure recorded for the user is that of another process. -/
lemma recorded_le {log : Log store}
    (hv : log.Valid (failureGuarantee threshold calls started db₀)) (userId : String) :
    log.tally (recordedFor userId) ≤
      ((failuresOf calls started userId).filter fun t => log.reports t ≠ []).card := by
  induction log with
  | initial db ext => exact Nat.zero_le _
  | add log event ih =>
    have hlog := ih hv.of_add
    cases event with
    | selected t q => exact hlog
    | called t report ext => exact absurd hv.2 (by simp [failureGuarantee])
    | committed t report held after =>
      obtain ⟨hreports, hstarted, hcommit⟩ := hv.2.1
      have hkept : ∀ t', log.reports t' ≠ [] →
          (log.add (.committed t report held after)).reports t' ≠ [] := by
        intro t' ht' hnil
        obtain ⟨r, hr⟩ := List.exists_mem_of_ne_nil _ ht'
        have hmem : r ∈ (log.add (.committed t report held after)).reports t' :=
          mem_reports_of_precedes (.single trivial) hr
        rw [hnil] at hmem
        exact absurd hmem List.not_mem_nil
      rw [Log.tally]
      by_cases huser : recordedFor userId t report = true
      · have howner : (calls t).userId = userId := by
          cases hcommit <;> simpa [recordedFor] using huser
        rw [huser, Bool.toNat_true]
        refine (Nat.succ_le_succ hlog).trans ?_
        have hnot : t ∉ (failuresOf calls started userId).filter fun t => log.reports t ≠ [] := by
          simp [hreports]
        rw [Nat.succ_eq_add_one, ← Finset.card_insert_of_notMem hnot]
        refine Finset.card_le_card fun t' ht' => ?_
        rcases Finset.mem_insert.mp ht' with rfl | ht'
        · simp [failuresOf, hstarted, howner, Log.reports]
        · obtain ⟨hof, hreported⟩ := Finset.mem_filter.mp ht'
          exact Finset.mem_filter.mpr ⟨hof, hkept t' hreported⟩
      · rw [Bool.eq_false_iff.mpr huser, Bool.toNat_false, Nat.add_zero]
        refine hlog.trans (Finset.card_le_card fun t' ht' => ?_)
        obtain ⟨hof, hreported⟩ := Finset.mem_filter.mp ht'
        exact Finset.mem_filter.mpr ⟨hof, hkept t' hreported⟩

lemma initial_credential {log : Log store}
    (hv : log.Valid (failureGuarantee threshold calls started db₀)) {κ : String}
    {c : PasswordCredential} (hc : log.db.get .passwordCredential κ = some c) :
    ∃ c₀, db₀.get .passwordCredential κ = some c₀ ∧ c₀.userId = c.userId := by
  induction log generalizing c with
  | initial db ext => exact ⟨c, hv.1 ▸ hc, rfl⟩
  | add log event ih =>
    cases event with
    | selected t q => exact ih hv.of_add hc
    | called t report ext => exact ih hv.of_add hc
    | committed t report held after =>
      obtain ⟨c₁, hc₁, huser⟩ := hv.2.1.2.2.credential_before hc
      obtain ⟨c₀, hc₀, huser₀⟩ := ih hv.of_add hc₁
      exact ⟨c₀, hc₀, huser₀.trans huser⟩

/-- A process that has not reported yet finds room for its failure. -/
lemma count_lt_max (hrange : InRange calls started db₀) (hstarted : t ∈ started) {log : Log store}
    (hv : log.Valid (failureGuarantee threshold calls started db₀)) (hreports : log.reports t = [])
    {κ : String} {c : PasswordCredential} (hc : log.db.get .passwordCredential κ = some c)
    (huser : c.userId = (calls t).userId) : c.failedLoginCount < maxFailedLoginCount := by
  obtain ⟨c₀, hc₀, huser₀⟩ := initial_credential hv hc
  obtain ⟨⟨_, -, hrow⟩, -⟩ := failuresCounted_of_valid hv hc₀
  obtain rfl := Option.some.inj (hc.symm.trans hrow)
  have hmem : t ∈ failuresOf calls started c₀.userId :=
    Finset.mem_filter.mpr ⟨hstarted, huser.symm⟩
  have hrest : (failuresOf calls started c₀.userId).filter (fun t => log.reports t ≠ []) ⊂
      failuresOf calls started c₀.userId :=
    Finset.filter_ssubset.mpr ⟨t, hmem, by simp [hreports]⟩
  calc c₀.failedLoginCount + log.tally (recordedFor c₀.userId)
      ≤ c₀.failedLoginCount +
          ((failuresOf calls started c₀.userId).filter fun t => log.reports t ≠ []).card :=
        Nat.add_le_add_left (recorded_le hv _) _
    _ < c₀.failedLoginCount + (failuresOf calls started c₀.userId).card :=
        Nat.add_lt_add_left (Finset.card_lt_card hrest) _
    _ ≤ maxFailedLoginCount := hrange κ c₀ hc₀

theorem failure_keeps (hthreshold : 1 ≤ threshold) (hrange : InRange calls started db₀) :
    Keeps (failureGuarantee threshold calls started db₀) fun t =>
      if t ∈ started then (calls t).prog threshold else pure () := by
  intro t s hv hreports _
  dsimp only
  split
  swap
  · trivial
  next hstarted =>
  refine wp_bind.mpr (wp_transaction fun s₀ hs₀ => wp_recordFailure ?_ ?_ ?_ ?_)
  · intro hlt
    omega
  · intro s₁ κ c hs₁ hc huser hmax
    have hnone : s₁.log.reports t = [] := by rw [hs₁.reports, hs₀.reports, hreports]
    have hlt := count_lt_max hrange hstarted hs₁.valid hnone hc.lookup huser
    omega
  · intro s₁ hs₁ habsent s' hs'
    refine ⟨⟨?_, hstarted, .missing (fun κ c hc huser => ?_) rfl⟩, trivial⟩
    · rw [hs'.reports, hs₁.reports, hs₀.reports, hreports]
    · obtain ⟨sv, -, hsv, hn⟩ := habsent κ
      obtain ⟨c₀, hc₀, huser₀⟩ := credential_before (hsv.trans hs').log hs'.valid hc
      exact hn c₀ hc₀ (huser₀.trans huser)
  · intro s₁ κ c hs₁ hc huser s' hs'
    refine ⟨⟨?_, hstarted, .counted (hs'.holds hc).lookup huser
      (fun κ' => failureWrites_get κ κ' c _ _ _)
      (onlyTables_view (fun w hw => by simp [failureWrites_table hw]) _)⟩, trivial⟩
    rw [hs'.reports, hs₁.reports, hs₀.reports, hreports]

/-- For every interleaving of failures that the counts have room for: no call raises and each
returns once; a call that does not find a credential changes nothing, and one that does locks
it exactly when its count reaches the threshold; a credential has counted every failure of its
user, the counts returned are those after its first count, and it has a lock of the run exactly
when the last count reaches the threshold. -/
theorem failures_counted (hthreshold : 1 ≤ threshold) (hunique : UniqueEntries db₀)
    {acts : List (Act store)} {sys : System store}
    (hrange : InRange calls (startedBy acts) db₀)
    (hrun : failureRun threshold calls db₀ acts = some sys) :
    (∀ t, sys.error t = none ∧ (sys.shared.log.reports t).length ≤ 1) ∧
    (sys.shared.log.Commits fun prior t report after =>
      FailureCommit threshold calls t prior.db after report) ∧
    ∀ κ (c : PasswordCredential), db₀.get .passwordCredential κ = some c →
      ∃ c', sys.shared.db.get .passwordCredential κ = some c' ∧
        let n := sys.shared.log.tally (recordedFor c.userId)
        c'.failedLoginCount = c.failedLoginCount + n ∧
        (∀ count, sys.shared.log.tally (countReturned c.userId count) =
          if c.failedLoginCount < count ∧ count ≤ c.failedLoginCount + n then 1 else 0) ∧
        ((∃ t count lock, .failureCounted c.userId true (some count) (some lock) ∈
            sys.shared.log.reports t ∧ c'.lockedUntil = some lock) ↔
          0 < n ∧ threshold ≤ c.failedLoginCount + n) := by
  have hkeeps : Keeps (failureGuarantee threshold calls (startedBy acts) db₀) fun t =>
      if t ∈ startedBy acts then (calls t).prog threshold else pure () :=
    failure_keeps hthreshold hrange
  rw [failureRun, run_congr fun t ht => (if_pos (mem_startedBy.mpr ht)).symm] at hrun
  have hv : sys.shared.log.Valid (failureGuarantee threshold calls (startedBy acts) db₀) :=
    run_valid hkeeps rfl hunique hrun
  refine ⟨fun t => ⟨?_, reports_length_le hv t⟩, ?_, fun κ c hc => ?_⟩
  · rcases herror : sys.error t with _ | e
    · rfl
    · obtain ⟨process, hprocess, hraise⟩ := System.process_of_error herror
      exact (run_raised hkeeps rfl hunique hrun hprocess hraise).elim
  · refine hv.commits ?_
    intro prior t report held after _ hcommit
    exact hcommit.2.2
  obtain ⟨⟨lockedUntil, hlock, hrow⟩, hreturned⟩ := failuresCounted_of_valid hv hc
  refine ⟨_, hrow, rfl, hreturned, fun ⟨t, count, lock, hmem, _⟩ => ?_, fun hn => ?_⟩
  · have hthreshold' : threshold ≤ count := threshold_le_of_lock hv hmem
    have hpos : 0 < sys.shared.log.tally (countReturned c.userId count) :=
      tally_pos hmem (by simp [countReturned])
    have hcount : c.failedLoginCount < count ∧
        count ≤ c.failedLoginCount + sys.shared.log.tally (recordedFor c.userId) := by
      by_contra hnot
      rw [hreturned, if_neg hnot] at hpos
      exact Nat.lt_irrefl 0 hpos
    omega
  · unfold LockAfter at hlock
    rw [if_pos hn] at hlock
    obtain ⟨t, rfl, hmem⟩ := hlock
    exact ⟨t, _, _, hmem, rfl⟩

/-- A user whose credential has four failures. -/
def bobFailedFourTimes : Db store := view
  [.put .passwordCredential "c1" ⟨"bob", "bob@example.com", "old", 4, none⟩] fun _ => ∅

def threeFailures : ℕ → FailureCall
  | 0 => ⟨"bob", 900⟩
  | 1 => ⟨"bob", 901⟩
  | _ => ⟨"carol", 902⟩

def interleavedActs : List (Act store) :=
  [.call 0, .call 1, .call 2, .step 1 [], .step 1 ["c1"], .step 0 [], .step 0 ["c1"], .step 0 [],
    .step 0 ["c1"], .step 0 [], .step 0 [], .step 1 [], .step 1 ["c1"], .step 1 [], .step 1 [],
    .step 2 [], .step 2 [], .step 2 []]

lemma interleaved_inRange :
    InRange threeFailures (startedBy interleavedActs) bobFailedFourTimes := by
  rw [InRange, forall_get_iff (Γ := store) (T := .passwordCredential) (P := fun _ c =>
    c.failedLoginCount + (failuresOf threeFailures (startedBy interleavedActs) c.userId).card ≤
      maxFailedLoginCount)]
  decide

/-- The second failure looks for the row before the first has locked it, and counts after it;
the third user has no credential. -/
theorem interleavedFailures_counted :
    ∃ sys, failureRun 5 threeFailures bobFailedFourTimes interleavedActs = some sys ∧
      sys.shared.log.reports 1 = [.failureCounted "bob" true (some 6) (some 901)] ∧
      sys.shared.log.reports 2 = [.failureCounted "carol" false none none] ∧
      ∃ c', sys.shared.db.get .passwordCredential "c1" = some c' ∧ c'.failedLoginCount = 6 ∧
        c'.lockedUntil.isSome = true := by
  have hsome : (failureRun 5 threeFailures bobFailedFourTimes interleavedActs).any (fun sys =>
      sys.shared.log.reports 1 = [.failureCounted "bob" true (some 6) (some 901)] ∧
      sys.shared.log.reports 2 = [.failureCounted "carol" false none none] ∧
      sys.shared.log.tally (recordedFor "bob") = 2) = true := by decide
  obtain ⟨sys, hrun, hsys⟩ := (Option.any_eq_true _ _).mp hsome
  obtain ⟨hfirst, hthird, htally⟩ := of_decide_eq_true hsys
  obtain ⟨-, -, hcounts⟩ := failures_counted (by decide) (by decide) interleaved_inRange hrun
  obtain ⟨c', hc', hcount, -, hlock⟩ :=
    hcounts "c1" ⟨"bob", "bob@example.com", "old", 4, none⟩ (by decide)
  dsimp only at hcount hlock
  rw [htally] at hcount hlock
  obtain ⟨_, _, lock, -, hlocked⟩ := hlock.mpr ⟨by decide, by decide⟩
  exact ⟨sys, hrun, hfirst, hthird, c', hc', hcount, by rw [hlocked]; rfl⟩

/-- A credential whose count has reached the largest value of its column. -/
def bobFailedMaxTimes : Db store := view
  [.put .passwordCredential "c1" ⟨"bob", "bob@example.com", "old", maxFailedLoginCount, none⟩]
    fun _ => ∅

/-- One more failure fails itself and counts nothing. -/
theorem fullCount_raises :
    ∃ sys, failureRun 5 threeFailures bobFailedMaxTimes
        [.call 0, .step 0 [], .step 0 ["c1"], .step 0 [], .step 0 []] = some sys ∧
      sys.error 0 = some .numericOutOfRange ∧ sys.shared.log.reports 0 = [] ∧
      (sys.shared.db.get .passwordCredential "c1").map (·.failedLoginCount) =
        some maxFailedLoginCount := by
  have hsome : (failureRun 5 threeFailures bobFailedMaxTimes
      [.call 0, .step 0 [], .step 0 ["c1"], .step 0 [], .step 0 []]).any (fun sys =>
        sys.error 0 = some .numericOutOfRange ∧ sys.shared.log.reports 0 = [] ∧
        (sys.shared.db.get .passwordCredential "c1").map (·.failedLoginCount) =
          some maxFailedLoginCount) = true := by decide
  obtain ⟨sys, hrun, hsys⟩ := (Option.any_eq_true _ _).mp hsome
  exact ⟨sys, hrun, of_decide_eq_true hsys⟩

end WiseacctSso
