import WiseacctSso.ReadCommittedRuns

/-!
# Histories of commits and what a process may rely on

A guarantee says what each commit and each external call may do. While a process keeps
its transaction open, the other processes leave alone the rows it has locked and the
index entries it has claimed.
-/
namespace WiseacctSso.ReadCommitted

variable {Γ : Signature}

/-- What the commits and the external calls of all processes promise, and what the reports
of a process that has raised an error promise. -/
structure Guarantee (Γ : Signature) where
  initial : Db Γ → Γ.External → Prop
  commit : Log Γ → ℕ → Γ.Report → (Lock Γ → Bool) → Db Γ → Prop
  call : Log Γ → ℕ → Γ.Report → Γ.External → Prop
  raised : ℕ → List Γ.Report → Prop

/-- A commit changes locked rows and claimed entries only, and keeps every unique index. -/
structure Framed (before : Db Γ) (held : Lock Γ → Bool) (after : Db Γ) : Prop where
  row : ∀ T κ, held (.row T κ) = false → after.get T κ = before.get T κ
  entry : ∀ T κ r e, after.get T κ = some r → e ∈ Γ.uniques T r →
    held (.entry T e) = true ∨ ∃ r₀, before.get T κ = some r₀ ∧ e ∈ Γ.uniques T r₀
  unique : UniqueEntries after

variable (G : Guarantee Γ)

def Log.Valid : Log Γ → Prop
  | .initial db ext => G.initial db ext ∧ UniqueEntries db
  | .add log (.selected _ _) => log.Valid
  | .add log (.called t report ext) => log.Valid ∧ G.call log t report ext
  | .add log (.committed t report held db) =>
      log.Valid ∧ G.commit log t report held db ∧ Framed log.db held db

variable {G}

lemma Log.Valid.of_add {log : Log Γ} {event : Event Γ} (h : (log.add event).Valid G) :
    log.Valid G := by
  cases event with
  | selected t q => exact h
  | called t report ext => exact h.1
  | committed t report held db => exact h.1

lemma Log.Valid.of_extends {permitted : Event Γ → Prop} {log log' : Log Γ}
    (h : log.Extends permitted log') (hv : log'.Valid G) : log.Valid G := by
  induction h with
  | refl => exact hv
  | add _ _ ih => exact ih hv.of_add

lemma Log.Valid.unique {log : Log Γ} (h : log.Valid G) : UniqueEntries log.db := by
  induction log with
  | initial db ext => exact h.2
  | add log event ih =>
    cases event with
    | selected t q => exact ih h.of_add
    | called t report ext => exact ih h.of_add
    | committed t report held db => exact h.2.2.unique

namespace Log.Extends

variable {P Q : Event Γ → Prop} {log log' log'' : Log Γ}

lemma mono (hPQ : ∀ event, P event → Q event) (h : log.Extends P log') :
    log.Extends Q log' := by
  induction h with
  | refl => exact .refl
  | add _ he ih => exact .add ih (hPQ _ he)

lemma trans (h : log.Extends P log') (h' : log'.Extends P log'') : log.Extends P log'' := by
  induction h' with
  | refl => exact h
  | add _ he ih => exact .add ih he

lemma single {event : Event Γ} (he : P event) : log.Extends P (log.add event) := .add .refl he

/-- Reports of a process are only made by its own calls and commits. -/
lemma reports_eq {t : ℕ} (h : log.Extends P log')
    (hP : ∀ event, P event → (∃ t' q, event = .selected t' q) ∨ event.process ≠ t) :
    log'.reports t = log.reports t := by
  induction h with
  | refl => rfl
  | @add log' event _ he ih =>
    rcases hP event he with ⟨t', q, rfl⟩ | hne
    · exact ih
    · cases event with
      | selected t' q => exact ih
      | called t' report ext => exact (if_neg hne).trans ih
      | committed t' report held db => exact (if_neg hne).trans ih

end Log.Extends

/-- The later log continues the earlier one. -/
abbrev Log.Precedes (log log' : Log Γ) : Prop := log.Extends (fun _ => True) log'

/-- Every commit of the log is as described; each is given with the log before it. -/
def Log.Commits (P : Log Γ → ℕ → Γ.Report → Db Γ → Prop) : Log Γ → Prop
  | .initial _ _ => True
  | .add log (.selected _ _) => log.Commits P
  | .add log (.called _ _ _) => log.Commits P
  | .add log (.committed t report _ after) => log.Commits P ∧ P log t report after

instance Log.decidableCommits (P : Log Γ → ℕ → Γ.Report → Db Γ → Prop)
    [hP : ∀ log t report after, Decidable (P log t report after)] :
    (log : Log Γ) → Decidable (log.Commits P)
  | .initial _ _ => .isTrue trivial
  | .add log (.selected _ _) => decidableCommits P log
  | .add log (.called _ _ _) => decidableCommits P log
  | .add log (.committed t report _ after) =>
      have := decidableCommits P log
      inferInstanceAs (Decidable (log.Commits P ∧ P log t report after))

/-- What the guarantee of each commit gives by itself. -/
lemma Log.Valid.commits {P : Log Γ → ℕ → Γ.Report → Db Γ → Prop} {log : Log Γ}
    (hP : ∀ log t report held after, Log.Valid G log → G.commit log t report held after →
      P log t report after) (hv : log.Valid G) : log.Commits P := by
  induction log with
  | initial db ext => trivial
  | add log event ih =>
    cases event with
    | selected t q => exact ih hv.of_add
    | called t report ext => exact ih hv.of_add
    | committed t report held after => exact ⟨ih hv.1, hP log t report held after hv.1 hv.2.1⟩

/-- What the guarantee gives of each commit of a log that the process goes on from. -/
lemma Log.Valid.commits_within {P : Log Γ → ℕ → Γ.Report → Db Γ → Prop} {log final : Log Γ}
    (hP : ∀ prior t report held after,
      (prior.add (.committed t report held after)).Precedes final → prior.Valid G →
        G.commit prior t report held after → P prior t report after)
    (hle : log.Precedes final) (hv : log.Valid G) : log.Commits P := by
  induction log with
  | initial db ext => trivial
  | add log event ih =>
    have hlog : log.Precedes final := (Log.Extends.single trivial).trans hle
    cases event with
    | selected t q => exact ih hlog hv.of_add
    | called t report ext => exact ih hlog hv.of_add
    | committed t report held after =>
      exact ⟨ih hlog hv.1, hP log t report held after hle hv.1 hv.2.1⟩

/-- What each commit of a valid log gives together with a condition on it. -/
lemma Log.Commits.imp {P Q : Log Γ → ℕ → Γ.Report → Db Γ → Prop}
    (hPQ : ∀ log t report held after, Log.Valid G log → G.commit log t report held after →
      P log t report after → Q log t report after) {log : Log Γ} (hv : log.Valid G)
    (h : log.Commits P) : log.Commits Q := by
  induction log with
  | initial db ext => trivial
  | add log event ih =>
    cases event with
    | selected t q => exact ih hv.of_add h
    | called t report ext => exact ih hv.of_add h
    | committed t report held after =>
      exact ⟨ih hv.of_add h.1, hPQ log t report held after hv.1 hv.2.1 h.2⟩

lemma Log.Commits.of_precedes {P : Log Γ → ℕ → Γ.Report → Db Γ → Prop} {earlier later : Log Γ}
    (hle : earlier.Precedes later) (h : later.Commits P) : earlier.Commits P := by
  induction hle with
  | refl => exact h
  | @add log event _ _ ih =>
    cases event with
    | selected t q => exact ih h
    | called t report ext => exact ih h
    | committed t report held after => exact ih h.1

/-- How many reports of the log are as described. -/
def Log.tally (p : ℕ → Γ.Report → Bool) : Log Γ → ℕ
  | .initial _ _ => 0
  | .add log (.selected _ _) => log.tally p
  | .add log (.called t report _) => log.tally p + (p t report).toNat
  | .add log (.committed t report _ _) => log.tally p + (p t report).toNat

/-- Every external call of the log is as described; each is given with the log before it. -/
def Log.Calls (P : Log Γ → ℕ → Γ.Report → Γ.External → Prop) : Log Γ → Prop
  | .initial _ _ => True
  | .add log (.selected _ _) => log.Calls P
  | .add log (.called t report ext) => log.Calls P ∧ P log t report ext
  | .add log (.committed _ _ _ _) => log.Calls P

lemma Log.Valid.calls {G : Guarantee Γ} {P : Log Γ → ℕ → Γ.Report → Γ.External → Prop}
    {log : Log Γ} (hP : ∀ prior t report ext, prior.Valid G → G.call prior t report ext →
      P prior t report ext) (hv : log.Valid G) : log.Calls P := by
  induction log with
  | initial db ext => trivial
  | add log event ih =>
    cases event with
    | selected t q => exact ih hv.of_add
    | called t report ext => exact ⟨ih hv.1, hP log t report ext hv.1 hv.2⟩
    | committed t report held after => exact ih hv.of_add

lemma mem_reports_called {log : Log Γ} {t t' : ℕ} {r report : Γ.Report} {ext : Γ.External} :
    r ∈ (log.add (.called t' report ext)).reports t ↔ r ∈ log.reports t ∨ t' = t ∧ r = report := by
  by_cases ht : t' = t
  · simp [Log.reports, ht]
  · simp [Log.reports, ht]

lemma mem_reports_committed {log : Log Γ} {t t' : ℕ} {r report : Γ.Report}
    {held : Lock Γ → Bool} {db : Db Γ} :
    r ∈ (log.add (.committed t' report held db)).reports t ↔
      r ∈ log.reports t ∨ t' = t ∧ r = report := by
  by_cases ht : t' = t
  · simp [Log.reports, ht]
  · simp [Log.reports, ht]

lemma tally_pos {p : ℕ → Γ.Report → Bool} {log : Log Γ} {t : ℕ} {r : Γ.Report}
    (hmem : r ∈ log.reports t) (hp : p t r = true) : 0 < log.tally p := by
  induction log with
  | initial db ext => simp [Log.reports] at hmem
  | add log event ih =>
    cases event with
    | selected t' q => exact ih hmem
    | called t' report ext =>
      rcases mem_reports_called.mp hmem with hold | ⟨rfl, rfl⟩
      · exact Nat.add_pos_left (ih hold) _
      · simp [Log.tally, hp]
    | committed t' report held db =>
      rcases mem_reports_committed.mp hmem with hold | ⟨rfl, rfl⟩
      · exact Nat.add_pos_left (ih hold) _
      · simp [Log.tally, hp]

lemma tally_eq_zero {p : ℕ → Γ.Report → Bool} {log : Log Γ}
    (h : ∀ t, ∀ r ∈ log.reports t, p t r = false) : log.tally p = 0 := by
  induction log with
  | initial db ext => rfl
  | add log event ih =>
    cases event with
    | selected t' q => exact ih h
    | called t' report ext =>
      have hold := ih fun t r hr => h t r (mem_reports_called.mpr (.inl hr))
      have hnew := h t' report (mem_reports_called.mpr (.inr ⟨rfl, rfl⟩))
      simp [Log.tally, hold, hnew]
    | committed t' report held db =>
      have hold := ih fun t r hr => h t r (mem_reports_committed.mpr (.inl hr))
      have hnew := h t' report (mem_reports_committed.mpr (.inr ⟨rfl, rfl⟩))
      simp [Log.tally, hold, hnew]

/-- Reports of two processes are counted twice. -/
lemma two_le_tally {p : ℕ → Γ.Report → Bool} {log : Log Γ} {t t' : ℕ} {r r' : Γ.Report}
    (hmem : r ∈ log.reports t) (hp : p t r = true) (hmem' : r' ∈ log.reports t')
    (hp' : p t' r' = true) (hne : t ≠ t') : 2 ≤ log.tally p := by
  induction log with
  | initial db ext => simp [Log.reports] at hmem
  | add log event ih =>
    cases event with
    | selected t'' q => exact ih hmem hmem'
    | called t'' report ext =>
      rcases mem_reports_called.mp hmem with hold | ⟨rfl, rfl⟩ <;>
        rcases mem_reports_called.mp hmem' with hold' | ⟨rfl, rfl⟩
      · exact (ih hold hold').trans (Nat.le_add_right _ _)
      · have := tally_pos hold hp
        simp only [Log.tally, hp', Bool.toNat_true]
        omega
      · have := tally_pos hold' hp'
        simp only [Log.tally, hp, Bool.toNat_true]
        omega
      · exact absurd rfl hne
    | committed t'' report held db =>
      rcases mem_reports_committed.mp hmem with hold | ⟨rfl, rfl⟩ <;>
        rcases mem_reports_committed.mp hmem' with hold' | ⟨rfl, rfl⟩
      · exact (ih hold hold').trans (Nat.le_add_right _ _)
      · have := tally_pos hold hp
        simp only [Log.tally, hp', Bool.toNat_true]
        omega
      · have := tally_pos hold' hp'
        simp only [Log.tally, hp, Bool.toNat_true]
        omega
      · exact absurd rfl hne

lemma eq_of_tally_le_one {p : ℕ → Γ.Report → Bool} {log : Log Γ} (h : log.tally p ≤ 1)
    {t t' : ℕ} {r r' : Γ.Report} (hmem : r ∈ log.reports t) (hp : p t r = true)
    (hmem' : r' ∈ log.reports t') (hp' : p t' r' = true) : t = t' := by
  by_contra hne
  have := two_le_tally hmem hp hmem' hp' hne
  omega

lemma mem_reports_of_precedes {log log' : Log Γ} (h : log.Precedes log') {t : ℕ}
    {r : Γ.Report} (hr : r ∈ log.reports t) : r ∈ log'.reports t := by
  induction h with
  | refl => exact hr
  | @add log' event _ _ ih =>
    cases event with
    | selected t' q => exact ih
    | called t' report ext => exact mem_reports_called.mpr (.inl ih)
    | committed t' report held db => exact mem_reports_committed.mpr (.inl ih)

/-- An event that respects the locks process `t` holds in `s`. -/
def Event.Spares (s : Shared Γ) (t : ℕ) : Event Γ → Prop
  | .selected _ _ => True
  | .called t' _ _ => t' ≠ t
  | .committed t' _ held _ => t' ≠ t ∧ ∀ l, held l = true → s.owner l ≠ some t

/-- An event that is not a report of process `t`. -/
def Event.Foreign (t : ℕ) : Event Γ → Prop
  | .selected _ _ => True
  | .called t' _ _ => t' ≠ t
  | .committed t' _ _ _ => t' ≠ t

lemma Event.Spares.foreign {s : Shared Γ} {t : ℕ} {event : Event Γ} (h : event.Spares s t) :
    event.Foreign t := by
  cases event with
  | selected t' q => exact trivial
  | called t' report ext => exact h
  | committed t' report held db => exact h.1

lemma Event.Foreign.selected_or_ne {t : ℕ} {event : Event Γ} (h : event.Foreign t) :
    (∃ t' q, event = .selected t' q) ∨ event.process ≠ t := by
  cases event with
  | selected t' q => exact .inl ⟨t', q, rfl⟩
  | called t' report ext => exact .inr h
  | committed t' report held db => exact .inr h

/-- Process `t` has locked the row, and this is its committed version; an absent row is
held by the insert that is to bring it in. -/
structure Shared.Holds (s : Shared Γ) (t : ℕ) (T : Γ.Table) (κ : Γ.Key)
    (r : Option (Γ.Row T)) : Prop where
  owner : s.owner (.row T κ) = some t
  lookup : s.db.get T κ = r

variable (G)

/-- How the shared state may move on while process `t` keeps its transaction open. -/
structure Follows (t : ℕ) (s s' : Shared Γ) : Prop where
  valid : s'.log.Valid G
  log : s.log.Extends (Event.Spares s t) s'.log
  owner : ∀ l, s.owner l = some t → s'.owner l = some t

/-- How the shared state may move on until process `t` makes its next report; in the later
state it holds no lock. -/
structure Later (t : ℕ) (s s' : Shared Γ) : Prop where
  valid : s'.log.Valid G
  log : s.log.Extends (Event.Foreign t) s'.log
  idle : ∀ l, s'.owner l ≠ some t

variable {G} {t : ℕ} {s s' s'' : Shared Γ}

namespace Follows

lemma refl (h : s.log.Valid G) : Follows G t s s := ⟨h, .refl, fun _ ho => ho⟩

lemma spares_mono (h : Follows G t s s') {event : Event Γ} (he : event.Spares s' t) :
    event.Spares s t := by
  cases event with
  | selected t' q => exact trivial
  | called t' report ext => exact he
  | committed t' report held db => exact ⟨he.1, fun l hl ho => he.2 l hl (h.owner l ho)⟩

lemma trans (h : Follows G t s s') (h' : Follows G t s' s'') : Follows G t s s'' :=
  ⟨h'.valid, h.log.trans (h'.log.mono fun _ he => h.spares_mono he),
    fun l ho => h'.owner l (h.owner l ho)⟩

lemma precedes (h : Follows G t s s') : s.log.Precedes s'.log := h.log.mono fun _ _ => trivial

lemma reports (h : Follows G t s s') : s'.log.reports t = s.log.reports t :=
  h.log.reports_eq fun _ he => he.foreign.selected_or_ne

lemma get_of_extends {log : Log Γ} (hv : log.Valid G)
    (h : s.log.Extends (Event.Spares s t) log) {T : Γ.Table} {κ : Γ.Key}
    (ho : s.owner (.row T κ) = some t) : log.db.get T κ = s.db.get T κ := by
  induction h with
  | refl => rfl
  | @add log event _ he ih =>
    cases event with
    | selected t' q => exact ih hv.of_add
    | called t' report ext => exact ih hv.of_add
    | committed t' report held db =>
      have hheld : held (.row T κ) = false := by
        by_contra hne
        exact he.2 _ (by simpa using hne) ho
      exact (hv.2.2.row T κ hheld).trans (ih hv.of_add)

/-- A row that process `t` has locked keeps its committed version. -/
lemma lookup (h : Follows G t s s') {T : Γ.Table} {κ : Γ.Key}
    (ho : s.owner (.row T κ) = some t) : s'.db.get T κ = s.db.get T κ :=
  get_of_extends h.valid h.log ho

/-- The view of a locked row does not change. -/
lemma view_get (h : Follows G t s s') {T : Γ.Table} {κ : Γ.Key}
    (ho : s.owner (.row T κ) = some t) (ws : List (Write Γ)) :
    (view ws s'.db).get T κ = (view ws s.db).get T κ :=
  view_get_congr (h.lookup ho) ws

lemma holds (h : Follows G t s s') {T : Γ.Table} {κ : Γ.Key} {r : Option (Γ.Row T)}
    (hr : s.Holds t T κ r) : s'.Holds t T κ r :=
  ⟨h.owner _ hr.owner, (h.lookup hr.owner).trans hr.lookup⟩

lemma entry_of_extends {log : Log Γ} (hv : log.Valid G)
    (h : s.log.Extends (Event.Spares s t) log) {T : Γ.Table} {e : Γ.Entry}
    (ho : s.owner (.entry T e) = some t) {κ : Γ.Key} {r : Γ.Row T}
    (hr : log.db.get T κ = some r) (he : e ∈ Γ.uniques T r) :
    ∃ r₀, s.db.get T κ = some r₀ ∧ e ∈ Γ.uniques T r₀ := by
  induction h generalizing r with
  | refl => exact ⟨r, hr, he⟩
  | @add log event _ hev ih =>
    cases event with
    | selected t' q => exact ih hv.of_add hr he
    | called t' report ext => exact ih hv.of_add hr he
    | committed t' report held db =>
      rcases hv.2.2.entry T κ r e hr he with hheld | ⟨r₀, hr₀, he₀⟩
      · exact absurd ho (hev.2 _ hheld)
      · exact ih hv.of_add hr₀ he₀

/-- No other process brings in an index entry that process `t` has claimed. -/
lemma entry (h : Follows G t s s') {T : Γ.Table} {e : Γ.Entry}
    (ho : s.owner (.entry T e) = some t) {κ : Γ.Key} {r : Γ.Row T}
    (hr : s'.db.get T κ = some r) (he : e ∈ Γ.uniques T r) :
    ∃ r₀, s.db.get T κ = some r₀ ∧ e ∈ Γ.uniques T r₀ :=
  entry_of_extends h.valid h.log ho hr he

lemma acquire (hv : s.log.Valid G) (locks : List (Lock Γ)) :
    Follows G t s (s.acquire t locks) := by
  refine ⟨hv, .refl, fun l ho => ?_⟩
  simp only [Shared.acquire]
  split
  · rfl
  · exact ho

lemma selected (h : Follows G t s s') (q : Γ.Query) :
    Follows G t s (s'.record (.selected t q)) :=
  h.trans ⟨h.valid, .single trivial, fun _ ho => ho⟩

lemma record_selected (hv : s.log.Valid G) (q : Γ.Query) :
    Follows G t s (s.record (.selected t q)) :=
  ⟨hv, .single trivial, fun _ ho => ho⟩

end Follows

lemma Later.reports (h : Later G t s s') : s'.log.reports t = s.log.reports t :=
  h.log.reports_eq fun _ he => he.selected_or_ne

lemma Later.precedes (h : Later G t s s') : s.log.Precedes s'.log :=
  h.log.mono fun _ _ => trivial

lemma Later.of_follows (h : Follows G t s s') (h' : Later G t s' s'') : Later G t s s'' :=
  ⟨h'.valid, (h.log.mono fun _ he => he.foreign).trans h'.log, h'.idle⟩

@[simp] lemma acquire_log (s : Shared Γ) (t : ℕ) (locks : List (Lock Γ)) :
    (s.acquire t locks).log = s.log := rfl

@[simp] lemma release_log (s : Shared Γ) (t : ℕ) : (s.release t).log = s.log := rfl

@[simp] lemma record_log (s : Shared Γ) (event : Event Γ) :
    (s.record event).log = s.log.add event := rfl

lemma acquire_owner_self {locks : List (Lock Γ)} {l : Lock Γ} (h : l ∈ locks) :
    (s.acquire t locks).owner l = some t := if_pos h

lemma release_owner_ne (s : Shared Γ) (t : ℕ) (l : Lock Γ) :
    (s.release t).owner l ≠ some t := by
  simp only [Shared.release]
  split
  · simp
  · assumption

lemma release_owner_other {t' : ℕ} (h : t' ≠ t) {l : Lock Γ} (ho : s.owner l = some t') :
    (s.release t).owner l = some t' := by
  have hne : s.owner l ≠ some t := by
    rw [ho]
    exact fun he => h (Option.some.inj he)
  exact (if_neg hne).trans ho

/-! ## Logs of runs -/

/-- Two logs that a third one continues are comparable. -/
lemma precedes_total {log₁ log₂ log : Log Γ} (h₁ : log₁.Precedes log) (h₂ : log₂.Precedes log) :
    log₁.Precedes log₂ ∨ log₂.Precedes log₁ := by
  induction h₁ with
  | refl => exact .inr h₂
  | @add log event h₁ _ ih =>
    cases h₂ with
    | refl => exact .inl (.add h₁ trivial)
    | add h₂ _ => exact ih h₂

lemma initial_precedes_unique {log : Log Γ} {db db' : Db Γ} {ext ext' : Γ.External}
    (h : (Log.initial db ext).Precedes log) (h' : (Log.initial db' ext').Precedes log) :
    db = db' ∧ ext = ext' := by
  rcases precedes_total h h' with hle | hle <;> cases hle <;> exact ⟨rfl, rfl⟩

/-- What a step adds to the log: nothing, a SELECT, an external call or a commit. -/
inductive StepLog (t : ℕ) (s s' : Shared Γ) : Prop
  | same (log : s'.log = s.log)
  | selected (q : Γ.Query) (record : s' = s.record (.selected t q))
  | called (report : Γ.Report) (ext : Γ.External) (record : s' = s.record (.called t report ext))
  | committed (report : Γ.Report) (db : Db Γ) (commit : s' = s.commit t report db)

lemma step_log {order : List Γ.Key} {c c' : Process Γ}
    (hstep : c.step t order s = some (s', c')) : StepLog t s s' := by
  obtain ⟨prog, ws, retry⟩ := c
  cases prog with
  | ret a => simp [Process.step] at hstep
  | raise e => simp [Process.step] at hstep
  | select q next =>
    obtain ⟨rfl, -⟩ := Prod.mk.inj (Option.some.inj hstep)
    exact .selected q rfl
  | candidates T p next =>
    simp only [Process.step] at hstep
    split at hstep
    · obtain ⟨rfl, -⟩ := Prod.mk.inj (Option.some.inj hstep)
      exact .same rfl
    · simp at hstep
  | visit T p effect κ next =>
    simp only [Process.step] at hstep
    repeat' split at hstep
    · obtain ⟨rfl, -⟩ := Prod.mk.inj (Option.some.inj hstep)
      exact .same rfl
    · obtain ⟨rfl, -⟩ := Prod.mk.inj (Option.some.inj hstep)
      exact .same rfl
    · obtain ⟨rfl, -⟩ := Prod.mk.inj (Option.some.inj hstep)
      exact .same rfl
    · simp at hstep
  | insert T κ row next =>
    simp only [Process.step] at hstep
    repeat' split at hstep
    · obtain ⟨rfl, -⟩ := Prod.mk.inj (Option.some.inj hstep)
      exact .same rfl
    · obtain ⟨rfl, -⟩ := Prod.mk.inj (Option.some.inj hstep)
      exact .same rfl
    · obtain ⟨rfl, -⟩ := Prod.mk.inj (Option.some.inj hstep)
      exact .same rfl
    · simp at hstep
  | commit report next =>
    obtain ⟨rfl, -⟩ := Prod.mk.inj (Option.some.inj hstep)
    exact .committed report _ rfl
  | rollback next =>
    obtain ⟨rfl, -⟩ := Prod.mk.inj (Option.some.inj hstep)
    exact .same rfl
  | call action report next =>
    obtain ⟨rfl, -⟩ := Prod.mk.inj (Option.some.inj hstep)
    exact .called _ _ rfl

lemma StepLog.precedes (h : StepLog t s s') : s.log.Precedes s'.log := by
  cases h with
  | same log => exact log ▸ .refl
  | selected q record => exact record ▸ .single trivial
  | called report ext record => exact record ▸ .single trivial
  | committed report db commit => exact commit ▸ .single trivial

/-- The event is no commit under the lock. -/
def Event.Without (l : Lock Γ) : Event Γ → Prop
  | .committed _ _ held _ => held l = false
  | _ => True

lemma Event.Spares.without {event : Event Γ} (h : event.Spares s t) {l : Lock Γ}
    (ho : s.owner l = some t) : event.Without l := by
  cases event with
  | selected t' q => exact trivial
  | called t' report ext => exact trivial
  | committed t' report held after => exact Bool.eq_false_iff.mpr fun hheld => h.2 l hheld ho

/-- A row keeps its committed version until something commits under its lock. -/
lemma get_of_without {log log' : Log Γ} (hv : log'.Valid G) {T : Γ.Table} {κ : Γ.Key}
    (h : log.Extends (Event.Without (.row T κ)) log') : log'.db.get T κ = log.db.get T κ := by
  induction h with
  | refl => rfl
  | @add log' event _ hwithout ih =>
    cases event with
    | selected t q => exact ih hv.of_add
    | called t report ext => exact ih hv.of_add
    | committed t report held after => exact (hv.2.2.row T κ hwithout).trans (ih hv.of_add)

/-- As long as one process holds a lock, nothing commits under it. -/
lemma StepLog.without {t' : ℕ} {l : Lock Γ} (h : StepLog t' s s') (ho : s.owner l = some t)
    (ho' : s'.owner l = some t) : s.log.Extends (Event.Without l) s'.log := by
  cases h with
  | same log => exact log ▸ .refl
  | selected q record => exact record ▸ .single trivial
  | called report ext record => exact record ▸ .single trivial
  | committed report db commit =>
    subst commit
    have hne : t ≠ t' := by
      rintro rfl
      exact release_owner_ne _ _ _ ho'
    refine .single (decide_eq_false ?_)
    rw [ho]
    exact fun he => hne (Option.some.inj he)

def Act.process : Act Γ → ℕ
  | .call t => t
  | .step t _ => t
  | .abort t => t
  | .stop t => t

namespace System

variable {code : ℕ → Prog Γ Unit} {sys sys' : System Γ}

lemma act_stepLog {a : Act Γ} (ha : sys.act code a = some sys') :
    StepLog a.process sys.shared sys'.shared := by
  cases a with
  | call t =>
    simp only [act] at ha
    split at ha
    · obtain rfl := Option.some.inj ha
      exact .same rfl
    · simp at ha
  | step t order =>
    simp only [act, Option.bind_eq_bind, Option.bind_eq_some_iff] at ha
    obtain ⟨c, -, ⟨s', c'⟩, hstep, hset⟩ := ha
    obtain rfl := Option.some.inj hset
    exact step_log hstep
  | abort t =>
    simp only [act, Option.bind_eq_bind, Option.bind_eq_some_iff] at ha
    obtain ⟨c, -, hset⟩ := ha
    obtain rfl := Option.some.inj hset
    exact .same rfl
  | stop t =>
    simp only [act, Option.bind_eq_bind, Option.bind_eq_some_iff] at ha
    obtain ⟨c, -, hset⟩ := ha
    obtain rfl := Option.some.inj hset
    exact .same rfl

lemma run_precedes {acts : List (Act Γ)} (hrun : sys.run code acts = some sys') :
    sys.shared.log.Precedes sys'.shared.log := by
  induction acts generalizing sys with
  | nil => exact Option.some.inj hrun ▸ .refl
  | cons a acts ih =>
    obtain ⟨next, ha, hrest⟩ := Option.bind_eq_some_iff.mp hrun
    exact (act_stepLog ha).precedes.trans (ih hrest)

lemma run_call {t : ℕ} {acts : List (Act Γ)} (h : sys.process t = none) :
    sys.run code (.call t :: acts) = (sys.set t sys.shared (.start (code t))).run code acts := by
  simp [run, act, h]

lemma run_step {t : ℕ} {s s' : Shared Γ} {c c' : Process Γ} {order : List Γ.Key}
    {acts : List (Act Γ)} (h : c.step t order s = some (s', c')) :
    (sys.set t s c).run code (.step t order :: acts) = (sys.set t s' c').run code acts := by
  simp [run, act, set, h]

lemma run_append {acts acts' : List (Act Γ)} :
    sys.run code (acts ++ acts') = (sys.run code acts).bind fun next => next.run code acts' := by
  induction acts generalizing sys with
  | nil => rfl
  | cons a acts ih =>
    simp only [List.cons_append, run]
    cases sys.act code a with
    | none => rfl
    | some next => exact ih

/-- Process `t` holds the lock in every state of the run. -/
def holding (code : ℕ → Prog Γ Unit) (t : ℕ) (l : Lock Γ) : System Γ → List (Act Γ) → Bool
  | sys, [] => sys.shared.owner l = some t
  | sys, a :: acts =>
      sys.shared.owner l = some t && (sys.act code a).all fun next => holding code t l next acts

lemma owner_of_holding {t : ℕ} {l : Lock Γ} {acts : List (Act Γ)}
    (h : holding code t l sys acts = true) : sys.shared.owner l = some t := by
  cases acts with
  | nil => exact of_decide_eq_true h
  | cons a acts => exact of_decide_eq_true (Bool.and_eq_true_iff.mp h).1

lemma without_of_holding {t : ℕ} {l : Lock Γ} {acts : List (Act Γ)}
    (h : holding code t l sys acts = true) (hrun : sys.run code acts = some sys') :
    sys.shared.log.Extends (Event.Without l) sys'.shared.log := by
  induction acts generalizing sys with
  | nil => exact Option.some.inj hrun ▸ .refl
  | cons a acts ih =>
    obtain ⟨next, ha, hrest⟩ := Option.bind_eq_some_iff.mp hrun
    obtain ⟨ho, hall⟩ := Bool.and_eq_true_iff.mp h
    have hnext : holding code t l next acts = true := by rwa [ha] at hall
    exact ((act_stepLog ha).without (of_decide_eq_true ho) (owner_of_holding hnext)).trans
      (ih hnext hrest)

end System

end WiseacctSso.ReadCommitted
