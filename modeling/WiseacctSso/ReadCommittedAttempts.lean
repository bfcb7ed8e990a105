import WiseacctSso.ReadCommittedRules

/-!
# One attempt against any database

An attempt of a program is played against the answers that its statements get, whatever the
other transactions do meanwhile. Any step may raise an error of its own.
-/
namespace WiseacctSso.ReadCommitted

variable {Γ : Signature} {T : Γ.Table} {α β E : Type}

/-- What the steps of an attempt, counted from 0, get as their answers. -/
structure Answers (Γ : Signature) (E : Type) where
  fault : ℕ → Option E
  snapshot : ℕ → Db Γ
  external : ℕ → Γ.External
  candidates : ℕ → List Γ.Key
  /-- The current version of a row, which is locked if it still satisfies the WHERE clause. -/
  version : ℕ → (T : Γ.Table) → Γ.Key → Option (Γ.Row T)
  insertion : ℕ → Insertion

/-- An INSERT that meets a taken key or entry writes nothing. -/
def Insertion.writes (ended : Insertion) (κ : Γ.Key) (row : Γ.Row T) : List (Write Γ) :=
  match ended with
  | .inserted => [.put T κ row]
  | _ => []

/-- A step that raises the fault, if there is one. -/
def orFault (fault : Option E) (step : Except E β) : Except E β :=
  match fault with
  | some e => .error e
  | none => step

/-- The writes of an attempt and its value, or the error that ends it. -/
def Prog.play (answers : Answers Γ E) (raised : Γ.Error → E) :
    ℕ → Prog Γ α → Except E (List (Write Γ) × α)
  | _, ret a => .ok ([], a)
  | _, raise e => .error (raised e)
  | n, select _ next => orFault (answers.fault n)
      ((next (answers.snapshot n) (answers.external n)).play answers raised (n + 1))
  | n, candidates _ _ next => orFault (answers.fault n)
      ((next (answers.candidates n)).play answers raised (n + 1))
  | n, visit T p effect κ next => orFault (answers.fault n)
      (let found := (answers.version n T κ).filter (p κ)
      ((next found).play answers raised (n + 1)).map fun r =>
        (found.elim [] (effect.writes κ) ++ r.1, r.2))
  | n, insert _ κ row next => orFault (answers.fault n)
      (let ended := answers.insertion n
      ((next ended).play answers raised (n + 1)).map fun r =>
        (ended.writes κ row ++ r.1, r.2))
  | n, commit _ next => next.play answers raised (n + 1)
  | n, rollback next => next.play answers raised (n + 1)
  | n, call _ _ next => (next (answers.external n)).play answers raised (n + 1)

/-- With some answers the program writes `ws` and returns. -/
inductive Prog.Returns : Prog Γ α → List (Write Γ) → α → Prop
  | ret (a : α) : Returns (ret a) [] a
  | select {q next db ext ws a} : Returns (next db ext) ws a → Returns (select q next) ws a
  | candidates {T p next keys ws a} : Returns (next keys) ws a →
      Returns (candidates T p next) ws a
  | visit {T p} {effect : Effect Γ T} {κ next} (found : Option (Γ.Row T)) {ws a}
      (fits : ∀ r, found = some r → p κ r = true) :
      Returns (next found) ws a →
      Returns (visit T p effect κ next) (found.elim [] (effect.writes κ) ++ ws) a
  | insert {T κ row next} (ended : Insertion) {ws a} : Returns (next ended) ws a →
      Returns (insert T κ row next) (ended.writes κ row ++ ws) a
  | commit {report next ws a} : Returns next ws a → Returns (commit report next) ws a
  | rollback {next ws a} : Returns next ws a → Returns (rollback next) ws a
  | call {action report next ext ws a} : Returns (next ext) ws a →
      Returns (call action report next) ws a

lemma of_orFault {fault : Option E} {step : Except E β} {b : β}
    (h : orFault fault step = .ok b) : step = .ok b := by
  cases fault with
  | none => exact h
  | some e => cases h

lemma of_map {step : Except E α} {f : α → β} {b : β} (h : step.map f = .ok b) :
    ∃ a, step = .ok a ∧ f a = b := by
  cases step with
  | error e => cases h
  | ok a => exact ⟨a, rfl, Except.ok.inj h⟩

namespace Prog

lemma bind_assoc {δ : Type} (p : Prog Γ α) (f : α → Prog Γ β) (g : β → Prog Γ δ) :
    (p.bind f).bind g = p.bind fun a => (f a).bind g := by
  induction p with
  | ret a => rfl
  | raise e => rfl
  | select q next ih => exact congrArg _ (funext₂ ih)
  | candidates T p next ih => exact congrArg _ (funext ih)
  | visit T p effect κ next ih => exact congrArg _ (funext ih)
  | insert T κ row next ih => exact congrArg _ (funext ih)
  | commit report next ih => exact congrArg _ ih
  | rollback next ih => exact congrArg _ ih
  | call action report next ih => exact congrArg _ (funext ih)

theorem returns_of_play {answers : Answers Γ E} {raised : Γ.Error → E} {p : Prog Γ α} {n : ℕ}
    {ws : List (Write Γ)} {a : α} (h : p.play answers raised n = .ok (ws, a)) :
    p.Returns ws a := by
  induction p generalizing n ws a with
  | ret b =>
    obtain ⟨rfl, rfl⟩ := Prod.mk.inj (Except.ok.inj h)
    exact .ret _
  | raise e => cases h
  | select q next ih => exact .select (ih _ _ (of_orFault h))
  | candidates T p next ih => exact .candidates (ih _ (of_orFault h))
  | visit T p effect κ next ih =>
    obtain ⟨⟨ws', b⟩, hplay, hr⟩ := of_map (of_orFault h)
    obtain ⟨rfl, rfl⟩ := Prod.mk.inj hr
    exact .visit _ (fun r hfound => (Option.filter_eq_some_iff.mp hfound).2) (ih _ hplay)
  | insert T κ row next ih =>
    obtain ⟨⟨ws', b⟩, hplay, hr⟩ := of_map (of_orFault h)
    obtain ⟨rfl, rfl⟩ := Prod.mk.inj hr
    exact .insert _ (ih _ hplay)
  | commit report next ih => exact .commit (ih h)
  | rollback next ih => exact .rollback (ih h)
  | call action report next ih => exact .call (ih _ h)

lemma Returns.bind {p : Prog Γ α} {f : α → Prog Γ β} {ws : List (Write Γ)} {b : β}
    (h : (p.bind f).Returns ws b) :
    ∃ ws₁ a ws₂, p.Returns ws₁ a ∧ (f a).Returns ws₂ b ∧ ws = ws₁ ++ ws₂ := by
  induction p generalizing ws with
  | ret a => exact ⟨[], a, ws, .ret a, h, rfl⟩
  | raise e => cases h
  | select q next ih =>
    cases h with
    | select h =>
      obtain ⟨ws₁, a, ws₂, hp, hf, rfl⟩ := ih _ _ h
      exact ⟨ws₁, a, ws₂, .select hp, hf, rfl⟩
  | candidates T p next ih =>
    cases h with
    | candidates h =>
      obtain ⟨ws₁, a, ws₂, hp, hf, rfl⟩ := ih _ h
      exact ⟨ws₁, a, ws₂, .candidates hp, hf, rfl⟩
  | visit T p effect κ next ih =>
    cases h with
    | visit found fits h =>
      obtain ⟨ws₁, a, ws₂, hp, hf, rfl⟩ := ih _ h
      exact ⟨_, a, ws₂, .visit found fits hp, hf, (List.append_assoc _ _ _).symm⟩
  | insert T κ row next ih =>
    cases h with
    | insert ended h =>
      obtain ⟨ws₁, a, ws₂, hp, hf, rfl⟩ := ih _ h
      exact ⟨_, a, ws₂, .insert ended hp, hf, (List.append_assoc _ _ _).symm⟩
  | commit report next ih =>
    cases h with
    | commit h =>
      obtain ⟨ws₁, a, ws₂, hp, hf, rfl⟩ := ih h
      exact ⟨ws₁, a, ws₂, .commit hp, hf, rfl⟩
  | rollback next ih =>
    cases h with
    | rollback h =>
      obtain ⟨ws₁, a, ws₂, hp, hf, rfl⟩ := ih h
      exact ⟨ws₁, a, ws₂, .rollback hp, hf, rfl⟩
  | call action report next ih =>
    cases h with
    | call h =>
      obtain ⟨ws₁, a, ws₂, hp, hf, rfl⟩ := ih _ h
      exact ⟨ws₁, a, ws₂, .call hp, hf, rfl⟩

lemma Returns.of_ret {a b : α} {ws : List (Write Γ)} (h : (Prog.ret a : Prog Γ α).Returns ws b) :
    ws = [] ∧ b = a := by
  cases h
  exact ⟨rfl, rfl⟩

end Prog

section statements
variable {ws : List (Write Γ)}

lemma Prog.Returns.of_query {q : Γ.Query} {result : Db Γ → β} {b : β}
    (h : (query q result).Returns ws b) : ws = [] ∧ ∃ db, b = result db := by
  cases h with
  | select h =>
    obtain ⟨rfl, rfl⟩ := h.of_ret
    exact ⟨rfl, _, rfl⟩

lemma Prog.Returns.of_visits {p : Γ.Key → Γ.Row T → Bool} {effect : Effect Γ T}
    {keys : List Γ.Key} {done : List (Γ.Key × Γ.Row T)}
    (h : (visits T p effect keys).Returns ws done) :
    ws = sweepWrites effect done ∧ ∀ x ∈ done, p x.1 x.2 = true := by
  induction keys generalizing ws done with
  | nil =>
    obtain ⟨rfl, rfl⟩ := h.of_ret
    exact ⟨rfl, by simp⟩
  | cons κ keys ih =>
    cases h with
    | visit found fits h =>
      obtain ⟨ws₁, done₁, ws₂, hvisits, hret, rfl⟩ := h.bind
      obtain ⟨rfl, rfl⟩ := hret.of_ret
      obtain ⟨rfl, hdone⟩ := ih hvisits
      cases found with
      | none => exact ⟨by simp, hdone⟩
      | some r =>
        refine ⟨by simp [sweepWrites], fun x hx => ?_⟩
        rcases List.mem_cons.mp hx with rfl | hx
        · exact fits r rfl
        · exact hdone x hx

lemma Prog.Returns.of_sweep {p : Γ.Key → Γ.Row T → Bool} {effect : Effect Γ T}
    {done : List (Γ.Key × Γ.Row T)} (h : (sweep T p effect).Returns ws done) :
    ws = sweepWrites effect done ∧ ∀ x ∈ done, p x.1 x.2 = true := by
  cases h with
  | candidates h => exact h.of_visits

lemma Prog.Returns.of_insertRow {duplicate : Γ.Error} {κ : Γ.Key} {row : Γ.Row T} {u : Unit}
    (h : (insertRow duplicate T κ row).Returns ws u) : ws = [.put T κ row] := by
  cases h with
  | insert ended h =>
    cases ended with
    | inserted =>
      obtain ⟨rfl, -⟩ := h.of_ret
      rfl
    | duplicateKey => cases h
    | duplicateEntry => cases h

end statements

end WiseacctSso.ReadCommitted
