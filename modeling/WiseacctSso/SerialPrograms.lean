import WiseacctSso.ReadCommittedSoundness

/-!
# A program that runs by itself

A process with nobody beside it reads, between two of its commits, one and the same
version of the tables. What its run does to them is a chain of its commits.
-/
namespace WiseacctSso.ReadCommitted

variable {Γ : Signature}

/-- Process 0 runs the program; no other process does anything. -/
def solo (prog : Prog Γ Unit) : ℕ → Prog Γ Unit
  | 0 => prog
  | _ + 1 => .ret ()

/-- Only process 0 commits, and each of its commits takes the tables one step on. -/
def soloGuarantee (step : Db Γ → Db Γ → Prop) (db₀ : Db Γ) : Guarantee Γ where
  initial db _ := db = db₀
  commit log t _ _ after := t = 0 ∧ step log.db after
  call _ t _ _ := t = 0
  raised _ _ := True

variable {step : Db Γ → Db Γ → Prop} {db₀ : Db Γ} {s s' : Shared Γ}

/-- Nothing that is foreign to process 0 touches the tables. -/
lemma solo_db_eq {log log' : Log Γ} (hv : log'.Valid (soloGuarantee step db₀))
    (h : log.Extends (Event.Foreign 0) log') : log'.db = log.db := by
  induction h with
  | refl => rfl
  | @add log' event _ hforeign ih =>
    cases event with
    | selected t q => exact ih hv.of_add
    | called t report ext => exact ih hv.of_add
    | committed t report held db => exact absurd hv.2.1.1 hforeign

lemma Follows.solo_db (h : Follows (soloGuarantee step db₀) 0 s s') : s'.db = s.db :=
  solo_db_eq h.valid (h.log.mono fun _ he => he.foreign)

/-- The tables have been taken on step by step, each time with unique entries. -/
lemma Log.Valid.solo_steps {log : Log Γ} (hv : log.Valid (soloGuarantee step db₀)) :
    Relation.ReflTransGen (fun before after => step before after ∧ UniqueEntries after)
      db₀ log.db := by
  induction log with
  | initial db ext => exact hv.1 ▸ .refl
  | add log event ih =>
    cases event with
    | selected t q => exact ih hv.of_add
    | called t report ext => exact ih hv.of_add
    | committed t report held db => exact (ih hv.of_add).tail ⟨hv.2.1.2, hv.2.2.unique⟩

lemma keeps_solo {prog : Prog Γ Unit} (h : ∀ s : Shared Γ,
      s.log.Valid (soloGuarantee step db₀) → (∀ l, s.owner l ≠ some 0) →
      wp (soloGuarantee step db₀) 0 prog .top s []) :
    Keeps (soloGuarantee step db₀) (solo prog) := by
  intro t s hv _ hidle
  cases t with
  | zero => exact wp_mono (fun _ _ _ _ => trivial) (fun _ _ _ _ => trivial) (h s hv hidle)
  | succ t => trivial

/-- What a run of one program does to the tables. -/
theorem solo_run {prog : Prog Γ Unit} (hprog : ∀ s : Shared Γ,
      s.log.Valid (soloGuarantee step db₀) → (∀ l, s.owner l ≠ some 0) →
      wp (soloGuarantee step db₀) 0 prog .top s [])
    (hunique : UniqueEntries db₀) {ext : Γ.External} {acts : List (Act Γ)} {sys : System Γ}
    (hrun : (System.initial db₀ ext).run (solo prog) acts = some sys) :
    Relation.ReflTransGen (fun before after => step before after ∧ UniqueEntries after)
      db₀ sys.shared.db :=
  (run_valid (keeps_solo hprog) rfl hunique hrun).solo_steps

end WiseacctSso.ReadCommitted
