import WiseacctSso.ReadCommittedSilence
import WiseacctSso.ReadCommittedSoundness

/-!
# Faults, and runs of one process

A fault raises an error in place of one step of the work of a transaction, the commit
among them. A process that runs alone finds the tables as it has left them.
-/
namespace WiseacctSso.ReadCommitted

variable {Γ : Signature} {T : Γ.Table} {α : Type}

/-- Raise the error in place of step `n` of the program, counted from 0; what ends the
program with an error of its own comes first. -/
def Prog.failing (e : Γ.Error) : ℕ → Prog Γ α → Prog Γ α
  | _, raise e' => raise e'
  | 0, _ => raise e
  | _ + 1, ret a => ret a
  | n + 1, select q next => select q fun db ext => failing e n (next db ext)
  | n + 1, candidates T p next => candidates T p fun keys => failing e n (next keys)
  | n + 1, visit T p effect κ next => visit T p effect κ fun found => failing e n (next found)
  | n + 1, insert T κ row next => insert T κ row fun ended => failing e n (next ended)
  | n + 1, commit report next => commit report (failing e n next)
  | n + 1, rollback next => rollback (failing e n next)
  | n + 1, call action report next => call action report fun ext => failing e n (next ext)

/-- The program with the fault, if there is one. -/
def Prog.faulty (fault : Option (ℕ × Γ.Error)) (p : Prog Γ α) : Prog Γ α :=
  match fault with
  | none => p
  | some (n, e) => p.failing e n

lemma Prog.bind_ret (p : Prog Γ α) : p.bind .ret = p := by
  induction p with
  | ret a => rfl
  | raise e => rfl
  | select q next ih => exact congrArg _ (funext₂ ih)
  | candidates T p next ih => exact congrArg _ (funext ih)
  | visit T p effect κ next ih => exact congrArg _ (funext ih)
  | insert T κ row next ih => exact congrArg _ (funext ih)
  | commit report next ih => exact congrArg _ ih
  | rollback next ih => exact congrArg _ ih
  | call action report next ih => exact congrArg _ (funext ih)

lemma Prog.handle_raise (p : Prog Γ α) : p.handle .raise = p := by
  induction p with
  | ret a => rfl
  | raise e => rfl
  | select q next ih => exact congrArg _ (funext₂ ih)
  | candidates T p next ih => exact congrArg _ (funext ih)
  | visit T p effect κ next ih => exact congrArg _ (funext ih)
  | insert T κ row next ih => exact congrArg _ (funext ih)
  | commit report next ih => exact congrArg _ ih
  | rollback next ih => exact congrArg _ ih
  | call action report next ih => exact congrArg _ (funext ih)

lemma Prog.Silent.failing {e : Γ.Error} {n : ℕ} {p : Prog Γ α} (hp : p.Silent) :
    (p.failing e n).Silent := by
  induction p generalizing n with
  | ret a => cases n <;> trivial
  | raise e' => cases n <;> trivial
  | select q next ih =>
    cases n with
    | zero => trivial
    | succ n => exact fun db ext => ih db ext (hp db ext)
  | candidates T p next ih =>
    cases n with
    | zero => trivial
    | succ n => exact fun keys => ih keys (hp keys)
  | visit T p effect κ next ih =>
    cases n with
    | zero => trivial
    | succ n => exact fun found => ih found (hp found)
  | insert T κ row next ih =>
    cases n with
    | zero => trivial
    | succ n => exact fun ended => ih ended (hp ended)
  | commit report next ih => exact hp.elim
  | rollback next ih =>
    cases n with
    | zero => trivial
    | succ n => exact ih hp
  | call action report next ih => exact hp.elim

lemma Prog.Silent.faulty {fault : Option (ℕ × Γ.Error)} {p : Prog Γ α} (hp : p.Silent) :
    (p.faulty fault).Silent := by
  rcases fault with _ | ⟨n, e⟩
  · exact hp
  · exact hp.failing

section rules
variable {G : Guarantee Γ} {t : ℕ} {s : Shared Γ} {ws : List (Write Γ)} {Q : Post Γ α}

/-- A fault adds an end with an error, and nothing else. -/
theorem wp_failing {e : Γ.Error} {n : ℕ} {p : Prog Γ α}
    (hraise : ∀ e s' ws', Q.raise e s' ws') (h : wp G t p Q s ws) :
    wp G t (p.failing e n) Q s ws := by
  induction p generalizing n s ws with
  | ret a =>
    cases n with
    | zero => exact hraise _ _ _
    | succ n => exact h
  | raise e' => cases n <;> exact h
  | select q next ih =>
    cases n with
    | zero => exact hraise _ _ _
    | succ n => exact fun s' hs => ih _ _ (h s' hs)
  | candidates T p next ih =>
    cases n with
    | zero => exact hraise _ _ _
    | succ n => exact fun s' hs keys hk => ih _ (h s' hs keys hk)
  | visit T p effect κ next ih =>
    cases n with
    | zero => exact hraise _ _ _
    | succ n =>
      exact fun s' hs => ⟨fun hn => ih _ ((h s' hs).1 hn),
        fun r hr hp => ih _ ((h s' hs).2 r hr hp)⟩
  | insert T κ row next ih =>
    cases n with
    | zero => exact hraise _ _ _
    | succ n =>
      exact fun s' hs => ⟨ih _ (h s' hs).1, fun he => ih _ ((h s' hs).2.1 he),
        fun hn he => ih _ ((h s' hs).2.2 hn he)⟩
  | commit report next ih =>
    cases n with
    | zero => exact hraise _ _ _
    | succ n => exact fun s' hs => ⟨(h s' hs).1, ih (h s' hs).2⟩
  | rollback next ih =>
    cases n with
    | zero => exact hraise _ _ _
    | succ n => exact fun s' hl => ih (h s' hl)
  | call action report next ih =>
    cases n with
    | zero => exact hraise _ _ _
    | succ n => exact fun s' hs => ⟨(h s' hs).1, ih _ (h s' hs).2⟩

theorem wp_faulty {fault : Option (ℕ × Γ.Error)} {p : Prog Γ α}
    (hraise : ∀ e s' ws', Q.raise e s' ws') (h : wp G t p Q s ws) :
    wp G t (p.faulty fault) Q s ws := by
  rcases fault with _ | ⟨n, e⟩
  · exact h
  · exact wp_failing hraise h

end rules

/-! ## One process -/

lemma System.act_log {code : ℕ → Prog Γ Unit} {sys sys' : System Γ} {a : Act Γ}
    (h : sys.act code a = some sys') :
    sys.shared.log.Extends (fun event => event.process = a.process) sys'.shared.log := by
  cases act_stepLog h with
  | same log => exact log ▸ .refl
  | selected q record => exact record ▸ .single rfl
  | called report ext record => exact record ▸ .single rfl
  | committed report db commit => exact commit ▸ .single rfl

/-- What happens in a run of one process is of that process. -/
theorem run_alone {code : ℕ → Prog Γ Unit} {sys sys' : System Γ} {acts : List (Act Γ)} {t : ℕ}
    (halone : ∀ a ∈ acts, a.process = t) (hrun : sys.run code acts = some sys') :
    sys.shared.log.Extends (fun event => event.process = t) sys'.shared.log := by
  induction acts generalizing sys with
  | nil => exact Option.some.inj hrun ▸ .refl
  | cons a acts ih =>
    obtain ⟨next, ha, hrest⟩ := Option.bind_eq_some_iff.mp hrun
    have hstep := System.act_log ha
    rw [halone a List.mem_cons_self] at hstep
    exact hstep.trans (ih (fun a' ha' => halone a' (List.mem_cons_of_mem _ ha')) hrest)

lemma reports_length_le_of_alone {log log' : Log Γ} {t : ℕ}
    (h : log.Extends (fun event => event.process = t) log') :
    (log.reports t).length ≤ (log'.reports t).length := by
  induction h with
  | refl => exact le_rfl
  | @add log' event _ he ih =>
    cases event with
    | selected t' q => exact ih
    | called t' report ext =>
      obtain rfl : t' = t := he
      simp only [Log.reports, if_true, List.length_append]
      exact ih.trans (Nat.le_add_right _ _)
    | committed t' report held db =>
      obtain rfl : t' = t := he
      simp only [Log.reports, if_true, List.length_append]
      exact ih.trans (Nat.le_add_right _ _)

/-- A process that runs alone and reports nothing more leaves the tables as they are. -/
lemma db_eq_of_alone {log log' : Log Γ} {t : ℕ}
    (h : log.Extends (fun event => event.process = t) log')
    (hreports : log'.reports t = log.reports t) : log'.db = log.db := by
  induction h with
  | refl => rfl
  | @add log' event hext he ih =>
    have hle := reports_length_le_of_alone hext
    cases event with
    | selected t' q => exact ih hreports
    | called t' report ext =>
      obtain rfl : t' = t := he
      have hlength := congrArg List.length hreports
      simp only [Log.reports, if_true, List.length_append, List.length_singleton] at hlength
      omega
    | committed t' report held db =>
      obtain rfl : t' = t := he
      have hlength := congrArg List.length hreports
      simp only [Log.reports, if_true, List.length_append, List.length_singleton] at hlength
      omega

/-- A process that runs alone and makes one commit leaves the tables as the commit does. -/
lemma db_of_commits_alone {log log' : Log Γ} {t : ℕ}
    (h : log.Extends (fun event => event.process = t) log') {report : Γ.Report}
    (hreports : log'.reports t = log.reports t ++ [report])
    {P : Log Γ → ℕ → Γ.Report → Db Γ → Prop} (hP : log'.Commits P) :
    log'.db = log.db ∨ ∃ prior, prior.db = log.db ∧ P prior t report log'.db := by
  induction h with
  | refl => exact .inl rfl
  | @add log' event hext he ih =>
    have hle := reports_length_le_of_alone hext
    cases event with
    | selected t' q => exact ih hreports hP
    | called t' report' ext =>
      obtain rfl : t' = t := he
      simp only [Log.reports, if_true] at hreports
      obtain ⟨hsame, -⟩ := List.append_inj' hreports rfl
      exact .inl (show log'.db = log.db from db_eq_of_alone hext hsame)
    | committed t' report' held db =>
      obtain rfl : t' = t := he
      simp only [Log.reports, if_true] at hreports
      obtain ⟨hsame, hreport⟩ := List.append_inj' hreports rfl
      obtain rfl := List.singleton_inj.mp hreport
      exact .inr ⟨log', db_eq_of_alone hext hsame, hP.2⟩

end WiseacctSso.ReadCommitted
