import WiseacctSso.OneTimeRecords

/-!
# Calls whose steps may fail

A call works on the tables of a database and on what is outside it. Its statements may
raise the errors of any plan of faults. A transaction that raises restores the tables;
what has been done outside stays done unless the call takes it back.
-/
namespace WiseacctSso.FaultyCalls
open ReadCommitted OneTimeRecords

structure World (Db Ext Err : Type) where
  db : Db
  ext : Ext
  /-- What the coming statements raise; those after the end of the list raise nothing. -/
  faults : List (Option Err)

def Call (Db Ext Err α : Type) : Type := World Db Ext Err → Except Err α × World Db Ext Err

variable {Db Ext Err α β : Type}

namespace Call

protected def bind (c : Call Db Ext Err α) (f : α → Call Db Ext Err β) : Call Db Ext Err β :=
  fun w => match c w with
    | (.ok a, w') => f a w'
    | (.error e, w') => (.error e, w')

instance : Monad (Call Db Ext Err) where
  pure a := fun w => (.ok a, w)
  bind := Call.bind

def raise (e : Err) : Call Db Ext Err α := fun w => (.error e, w)

/-- A place where the next fault is raised, if there is one. -/
def fallible : Call Db Ext Err Unit := fun w =>
  match w.faults with
  | some e :: faults => (.error e, { w with faults := faults })
  | _ => (.ok (), { w with faults := w.faults.tail })

/-- What succeeds without the database. -/
def external (f : Ext → Except Err α × Ext) : Call Db Ext Err α := fun w =>
  ((f w.ext).1, { w with ext := (f w.ext).2 })

/-- A statement that did not fail. -/
def execute (f : Db → α × Db) : Call Db Ext Err α := fun w =>
  (.ok (f w.db).1, { w with db := (f w.db).2 })

def statement (f : Db → α × Db) : Call Db Ext Err α := do
  fallible
  execute f

def query (f : Db → α) : Call Db Ext Err α := statement fun db => (f db, db)

/-- The commit may fail like a statement. -/
def transaction (work : Call Db Ext Err α) : Call Db Ext Err α := fun w =>
  match (do let a ← work; fallible; pure a : Call Db Ext Err α) w with
  | (.ok a, w') => (.ok a, w')
  | (.error e, w') => (.error e, { w' with db := w.db })

def handle (c : Call Db Ext Err α) (handler : Err → Call Db Ext Err α) : Call Db Ext Err α :=
  fun w => match c w with
    | (.ok a, w') => (.ok a, w')
    | (.error e, w') => handler e w'

end Call

/-! ## Rules -/

/-- From `w` the call returns with `Q` or raises with `R`. -/
def wp (c : Call Db Ext Err α) (Q : α → World Db Ext Err → Prop) (R : Err → World Db Ext Err → Prop)
    (w : World Db Ext Err) : Prop :=
  match c w with
  | (.ok a, w') => Q a w'
  | (.error e, w') => R e w'

section rules
variable {Q : α → World Db Ext Err → Prop} {R : Err → World Db Ext Err → Prop}
  {w : World Db Ext Err}

lemma wp_pure {a : α} : wp (pure a : Call Db Ext Err α) Q R w ↔ Q a w := Iff.rfl

lemma wp_bind {c : Call Db Ext Err β} {f : β → Call Db Ext Err α} :
    wp (c >>= f) Q R w ↔ wp c (fun b w' => wp (f b) Q R w') R w := by
  change (match Call.bind c f w with
    | (.ok a, w') => Q a w'
    | (.error e, w') => R e w') ↔ _
  unfold wp Call.bind
  rcases c w with ⟨_ | b, w'⟩
  · exact Iff.rfl
  · exact Iff.rfl

lemma wp_mono {Q' : α → World Db Ext Err → Prop} {R' : Err → World Db Ext Err → Prop}
    {c : Call Db Ext Err α} (hQ : ∀ a w', Q a w' → Q' a w') (hR : ∀ e w', R e w' → R' e w')
    (h : wp c Q R w) : wp c Q' R' w := by
  unfold wp at h ⊢
  rcases hrun : c w with ⟨e | a, w'⟩
  · rw [hrun] at h
    exact hR e w' h
  · rw [hrun] at h
    exact hQ a w' h

lemma wp_fallible {Q : Unit → World Db Ext Err → Prop}
    (hok : ∀ faults, Q () { w with faults := faults })
    (herror : ∀ e faults, R e { w with faults := faults }) : wp Call.fallible Q R w := by
  unfold wp Call.fallible
  rcases w.faults with _ | ⟨_ | e, faults⟩
  · exact hok _
  · exact hok _
  · exact herror e faults

lemma wp_external {f : Ext → Except Err α × Ext}
    (hok : ∀ a, (f w.ext).1 = .ok a → Q a { w with ext := (f w.ext).2 })
    (herror : ∀ e, (f w.ext).1 = .error e → R e { w with ext := (f w.ext).2 }) :
    wp (Call.external f) Q R w := by
  unfold wp Call.external
  rcases hf : (f w.ext).1 with e | a
  · exact herror e hf
  · exact hok a hf

lemma wp_statement {f : Db → α × Db}
    (hok : ∀ faults, Q (f w.db).1 { w with db := (f w.db).2, faults := faults })
    (herror : ∀ e faults, R e { w with faults := faults }) : wp (Call.statement f) Q R w :=
  wp_bind.mpr (wp_fallible (fun faults => hok faults) herror)

lemma wp_query {f : Db → α} (hok : ∀ faults, Q (f w.db) { w with faults := faults })
    (herror : ∀ e faults, R e { w with faults := faults }) : wp (Call.query f) Q R w :=
  wp_statement hok herror

/-- Whatever raises an error, the work or the commit, the tables are as before. -/
lemma wp_transaction {work : Call Db Ext Err α}
    (h : wp work (fun a w' => (∀ faults, Q a { w' with faults := faults }) ∧
        ∀ e faults, R e { w' with db := w.db, faults := faults })
      (fun e w' => R e { w' with db := w.db }) w) : wp (Call.transaction work) Q R w := by
  have hwork : wp (do let a ← work; Call.fallible; pure a : Call Db Ext Err α) Q
      (fun e w' => R e { w' with db := w.db }) w := by
    refine wp_bind.mpr (wp_mono (fun a w' hw' => ?_) (fun _ _ hR => hR) h)
    exact wp_bind.mpr (wp_fallible hw'.1 hw'.2)
  unfold wp at hwork
  unfold wp Call.transaction
  rcases hrun : (do let a ← work; Call.fallible; pure a : Call Db Ext Err α) w with ⟨e | a, w'⟩
  · rw [hrun] at hwork
    exact hwork
  · rw [hrun] at hwork
    exact hwork

lemma wp_handle {c : Call Db Ext Err α} {handler : Err → Call Db Ext Err α}
    (h : wp c Q (fun e w' => wp (handler e) Q R w') w) : wp (c.handle handler) Q R w := by
  unfold wp at h
  unfold wp Call.handle
  rcases hrun : c w with ⟨e | a, w'⟩
  · rw [hrun] at h
    exact h
  · rw [hrun] at h
    exact h

end rules

/-! ## Calls without faults -/

namespace Call

variable {db db' : Db} {ext ext' : Ext} {w w' : World Db Ext Err}

lemma bind_ok {c : Call Db Ext Err α} {f : α → Call Db Ext Err β} {a : α}
    (h : c w = (.ok a, w')) : (c >>= f) w = f a w' := by
  change Call.bind c f w = _
  rw [Call.bind, h]

lemma bind_error {c : Call Db Ext Err α} {f : α → Call Db Ext Err β} {e : Err}
    (h : c w = (.error e, w')) : (c >>= f) w = (.error e, w') := by
  change Call.bind c f w = _
  rw [Call.bind, h]

lemma transaction_ok {work : Call Db Ext Err α} {a : α} (h : work w = (.ok a, ⟨db', ext', []⟩)) :
    transaction work w = (.ok a, ⟨db', ext', []⟩) := by
  unfold transaction
  rw [bind_ok h]
  rfl

lemma handle_ok {c : Call Db Ext Err α} {handler : Err → Call Db Ext Err α} {a : α}
    (h : c w = (.ok a, w')) : c.handle handler w = (.ok a, w') := by
  rw [handle, h]

end Call

/-! ## One-time records alone -/

variable {K V N C : Type} [DecidableEq K]

/-- The commands of a program over one-time records, with nothing in between. -/
def alone : RecordProg K V N Err α → (AList fun _ : K => V) →
    Except Err α × AList fun _ : K => V
  | .ret a, ext => (.ok a, ext)
  | .raise e, ext => (.error e, ext)
  | .select _ next, ext => alone (next (fun T => nomatch T) ext) ext
  | .candidates T _ _, _ => nomatch T
  | .visit T _ _ _ _, _ => nomatch T
  | .insert T _ _ _, _ => nomatch T
  | .commit _ next, ext => alone next ext
  | .rollback next, ext => alone next ext
  | .call action _ next, ext => alone (next ext) (action ext)

lemma alone_bind {p : RecordProg K V N Err β} {f : β → RecordProg K V N Err α}
    {ext : AList fun _ : K => V} : alone (p.bind f) ext =
      match alone p ext with
      | (.ok b, ext') => alone (f b) ext'
      | (.error e, ext') => (.error e, ext') := by
  induction p generalizing ext with
  | ret b => rfl
  | raise e => rfl
  | select q next ih => exact ih _ _
  | candidates T _ _ => exact nomatch T
  | visit T _ _ _ _ => exact nomatch T
  | insert T _ _ _ => exact nomatch T
  | commit report next ih => exact ih
  | rollback next ih => exact ih
  | call action report next ih => exact ih _

/-- A fresh record has been written under an absent key, or no key was absent. -/
lemma alone_storeFresh (key : C → K) (value : V) (failure : Err) (draws : List C)
    (ext : AList fun _ : K => V) :
    ((∀ draw ∈ draws, (ext.lookup (key draw)).isSome = true) ∧
      alone (storeFresh (N := N) key value failure draws) ext = (.error failure, ext)) ∨
    ∃ draw ∈ draws, ext.lookup (key draw) = none ∧
      alone (storeFresh (N := N) key value failure draws) ext =
        (.ok draw, ext.insert (key draw) value) := by
  induction draws with
  | nil => exact .inl ⟨by simp, rfl⟩
  | cons draw draws ih =>
    have hset : alone (storeFresh (N := N) key value failure (draw :: draws)) ext =
        if (ext.lookup (key draw)).isSome then
          alone (storeFresh (N := N) key value failure draws) ext
        else (.ok draw, ext.insert (key draw) value) := by
      rw [storeFresh, alone_bind]
      rcases hlookup : ext.lookup (key draw) with _ | old
      · simp [setIfAbsent, alone, hlookup]
      · simp [setIfAbsent, alone, hlookup]
    rcases hlookup : ext.lookup (key draw) with _ | old
    · exact .inr ⟨draw, List.mem_cons_self, hlookup, by rw [hset, hlookup]; rfl⟩
    · rw [hset, hlookup]
      rcases ih with ⟨htaken, herror⟩ | ⟨d, hd, habsent, hok⟩
      · refine .inl ⟨fun d hd => ?_, herror⟩
        rcases List.mem_cons.mp hd with rfl | hd
        · rw [hlookup]
          rfl
        · exact htaken d hd
      · exact .inr ⟨d, List.mem_cons_of_mem _ hd, habsent, hok⟩

end WiseacctSso.FaultyCalls
