import WiseacctSso.ReadCommittedTables

/-!
# Programs that run transactions

A program is a tree of the atomic steps a connection takes. An UPDATE, DELETE or
SELECT FOR UPDATE is one `candidates` step, which fixes the rows its snapshot shows,
followed by one `visit` step for each of them, which re-evaluates the WHERE clause.
-/
namespace WiseacctSso.ReadCommitted

variable {Γ : Signature} {T : Γ.Table} {α β δ : Type}

/-- What a statement does to a row it has locked. An assignment leaves the unique
columns as they are; a statement that moves them deletes and inserts. -/
inductive Effect (Γ : Signature) (T : Γ.Table)
  | lock
  | set (assign : Γ.Row T → Γ.Row T)
      (uniques_eq : ∀ r, Γ.uniques T (assign r) = Γ.uniques T r := by intro r; rfl)
  | delete

def Effect.writes (effect : Effect Γ T) (κ : Γ.Key) (r : Γ.Row T) : List (Write Γ) :=
  match effect with
  | .lock => []
  | .set assign _ => [.put T κ (assign r)]
  | .delete => [.erase T κ]

/-- How an INSERT ends: a row may meet a taken primary key or a taken unique-index entry. -/
inductive Insertion
  | inserted
  | duplicateKey
  | duplicateEntry

inductive Prog (Γ : Signature) (α : Type)
  | ret (a : α)
  | raise (error : Γ.Error)
  | select (query : Γ.Query) (next : Db Γ → Γ.External → Prog Γ α)
  | candidates (T : Γ.Table) (p : Γ.Key → Γ.Row T → Bool) (next : List Γ.Key → Prog Γ α)
  | visit (T : Γ.Table) (p : Γ.Key → Γ.Row T → Bool) (effect : Effect Γ T) (key : Γ.Key)
      (next : Option (Γ.Row T) → Prog Γ α)
  | insert (T : Γ.Table) (key : Γ.Key) (row : Γ.Row T) (next : Insertion → Prog Γ α)
  | commit (report : Γ.Report) (next : Prog Γ α)
  | rollback (next : Prog Γ α)
  | call (action : Γ.External → Γ.External) (report : Γ.External → Γ.Report)
      (next : Γ.External → Prog Γ α)

namespace Prog

def bind (f : α → Prog Γ β) : Prog Γ α → Prog Γ β
  | ret a => f a
  | raise e => raise e
  | select q next => select q fun db ext => (next db ext).bind f
  | candidates T p next => candidates T p fun keys => (next keys).bind f
  | visit T p effect κ next => visit T p effect κ fun found => (next found).bind f
  | insert T κ row next => insert T κ row fun ended => (next ended).bind f
  | commit n next => commit n (next.bind f)
  | rollback next => rollback (next.bind f)
  | call action report next => call action report fun ext => (next ext).bind f

instance : Monad (Prog Γ) where
  pure := ret
  bind p f := p.bind f

/-- Run a handler in place of a raised error. -/
def handle (handler : Γ.Error → Prog Γ α) : Prog Γ α → Prog Γ α
  | ret a => ret a
  | raise e => handler e
  | select q next => select q fun db ext => (next db ext).handle handler
  | candidates T p next => candidates T p fun keys => (next keys).handle handler
  | visit T p effect κ next => visit T p effect κ fun found => (next found).handle handler
  | insert T κ row next => insert T κ row fun ended => (next ended).handle handler
  | commit n next => commit n (next.handle handler)
  | rollback next => rollback (next.handle handler)
  | call action report next => call action report fun ext => (next ext).handle handler

end Prog

/-- A SELECT statement computes its result from one snapshot. -/
def query (q : Γ.Query) (result : Db Γ → β) : Prog Γ β :=
  .select q fun db _ => .ret (result db)

/-- A read of the state that lies outside the tables. -/
def inspect (q : Γ.Query) (result : Γ.External → β) : Prog Γ β :=
  .select q fun _ ext => .ret (result ext)

/-- Visit the candidate rows one after another and keep those still matched. -/
def visits (T : Γ.Table) (p : Γ.Key → Γ.Row T → Bool) (effect : Effect Γ T) :
    List Γ.Key → Prog Γ (List (Γ.Key × Γ.Row T))
  | [] => .ret []
  | κ :: keys => .visit T p effect κ fun found =>
      (visits T p effect keys).bind fun done =>
        .ret (match found with
          | none => done
          | some r => (κ, r) :: done)

/-- One statement over the rows of a WHERE clause; the result lists the versions it locked. -/
def sweep (T : Γ.Table) (p : Γ.Key → Γ.Row T → Bool) (effect : Effect Γ T) :
    Prog Γ (List (Γ.Key × Γ.Row T)) :=
  .candidates T p fun keys => visits T p effect keys

def lockRows (T : Γ.Table) (p : Γ.Key → Γ.Row T → Bool) : Prog Γ (List (Γ.Key × Γ.Row T)) :=
  sweep T p .lock

def updateRows (T : Γ.Table) (p : Γ.Key → Γ.Row T → Bool) (assign : Γ.Row T → Γ.Row T)
    (uniques_eq : ∀ r, Γ.uniques T (assign r) = Γ.uniques T r := by intro r; rfl) :
    Prog Γ (List (Γ.Key × Γ.Row T)) :=
  sweep T p (.set assign uniques_eq)

def deleteRows (T : Γ.Table) (p : Γ.Key → Γ.Row T → Bool) : Prog Γ (List (Γ.Key × Γ.Row T)) :=
  sweep T p .delete

/-- An INSERT under ON CONFLICT DO NOTHING on a unique index; the result says whether the
row went in. -/
def insertOrSkip (duplicate : Γ.Error) (T : Γ.Table) (κ : Γ.Key) (row : Γ.Row T) : Prog Γ Bool :=
  .insert T κ row fun
    | .inserted => .ret true
    | .duplicateKey => .raise duplicate
    | .duplicateEntry => .ret false

/-- A plain INSERT fails on any duplicate. -/
def insertRow (duplicate : Γ.Error) (T : Γ.Table) (κ : Γ.Key) (row : Γ.Row T) : Prog Γ Unit :=
  .insert T κ row fun
    | .inserted => .ret ()
    | .duplicateKey => .raise duplicate
    | .duplicateEntry => .raise duplicate

/-- Put rows that a statement has taken out back under their keys. -/
def reinsert (duplicate : Γ.Error) (T : Γ.Table) (assign : Γ.Row T → Γ.Row T) :
    List (Γ.Key × Γ.Row T) → Prog Γ Unit
  | [] => .ret ()
  | (κ, r) :: rows => (insertRow duplicate T κ (assign r)).bind fun _ =>
      reinsert duplicate T assign rows

/-- An UPDATE that assigns unique columns: its rows are taken out and put back. -/
def moveRows (duplicate : Γ.Error) (T : Γ.Table) (p : Γ.Key → Γ.Row T → Bool)
    (assign : Γ.Row T → Γ.Row T) : Prog Γ (List (Γ.Key × Γ.Row T)) :=
  (deleteRows T p).bind fun rows =>
    (reinsert duplicate T assign rows).bind fun _ => .ret rows

/-- Commit the work when it returns and roll it back when it raises. A failed attempt
starts again from the first `rollback`, where nothing is open. -/
def transaction (report : α → Γ.Report) (work : Prog Γ α) : Prog Γ α :=
  .rollback ((work.bind fun a => .commit (report a) (.ret a)).handle fun e =>
    .rollback (.raise e))

/-- Statements on a connection that is closed without a commit. -/
def connection (work : Prog Γ α) : Prog Γ α :=
  (work.bind fun a => .rollback (.ret a)).handle fun e => .rollback (.raise e)

end WiseacctSso.ReadCommitted
