import WiseacctSso.ReadCommittedPrograms

/-!
# Runs of many programs over one store

Every atomic step of a run is taken by one process. A statement sees the rows that are
committed when it starts; a row another process has locked is waited for; nothing a
process writes is visible to another before it commits.
-/
namespace WiseacctSso.ReadCommitted

variable {Γ : Signature}

/-- A lock is on a row, by primary key, or on an entry of a unique index. -/
inductive Lock (Γ : Signature)
  | row (T : Γ.Table) (key : Γ.Key)
  | entry (T : Γ.Table) (entry : Γ.Entry)
  deriving DecidableEq

def rowLocks (T : Γ.Table) (κ : Γ.Key) (row : Γ.Row T) : List (Lock Γ) :=
  .row T κ :: (Γ.uniques T row).map (.entry T)

/-- What other processes may take notice of. A commit records the locks held up to it and
the tables after it. -/
inductive Event (Γ : Signature)
  | selected (t : ℕ) (query : Γ.Query)
  | called (t : ℕ) (report : Γ.Report) (ext : Γ.External)
  | committed (t : ℕ) (report : Γ.Report) (held : Lock Γ → Bool) (db : Db Γ)

inductive Log (Γ : Signature)
  | initial (db : Db Γ) (ext : Γ.External)
  | add (log : Log Γ) (event : Event Γ)

def Event.process : Event Γ → ℕ
  | .selected t _ => t
  | .called t _ _ => t
  | .committed t _ _ _ => t

namespace Log

/-- The committed tables. -/
def db : Log Γ → Db Γ
  | initial db _ => db
  | add _ (.committed _ _ _ db) => db
  | add log _ => log.db

def ext : Log Γ → Γ.External
  | initial _ ext => ext
  | add _ (.called _ _ ext) => ext
  | add log _ => log.ext

/-- The reports a process has made so far, in order. -/
def reports (t : ℕ) : Log Γ → List Γ.Report
  | initial _ _ => []
  | add log (.committed t' report _ _) =>
      if t' = t then log.reports t ++ [report] else log.reports t
  | add log (.called t' report _) => if t' = t then log.reports t ++ [report] else log.reports t
  | add log (.selected _ _) => log.reports t

/-- The later log has the earlier one's events and then only permitted ones. -/
inductive Extends (permitted : Event Γ → Prop) (log : Log Γ) : Log Γ → Prop
  | refl : Extends permitted log log
  | add {log' : Log Γ} {event : Event Γ} (h : Extends permitted log log')
      (hevent : permitted event) : Extends permitted log (log'.add event)

end Log

structure Shared (Γ : Signature) where
  log : Log Γ
  owner : Lock Γ → Option ℕ

namespace Shared

abbrev db (s : Shared Γ) : Db Γ := s.log.db

abbrev ext (s : Shared Γ) : Γ.External := s.log.ext

def record (s : Shared Γ) (event : Event Γ) : Shared Γ := { s with log := s.log.add event }

/-- No other process holds the lock. -/
def free (s : Shared Γ) (t : ℕ) (l : Lock Γ) : Bool :=
  match s.owner l with
  | none => true
  | some t' => t' = t

def acquire (s : Shared Γ) (t : ℕ) (locks : List (Lock Γ)) : Shared Γ :=
  { s with owner := fun l => if l ∈ locks then some t else s.owner l }

def release (s : Shared Γ) (t : ℕ) : Shared Γ :=
  { s with owner := fun l => if s.owner l = some t then none else s.owner l }

/-- The locks a process holds. -/
def held (s : Shared Γ) (t : ℕ) (l : Lock Γ) : Bool := s.owner l = some t

def commit (s : Shared Γ) (t : ℕ) (report : Γ.Report) (db : Db Γ) : Shared Γ :=
  (s.record (.committed t report (s.held t) db)).release t

end Shared

/-- A running program, its pending writes and where a failed transaction starts again. -/
structure Process (Γ : Signature) where
  prog : Prog Γ Unit
  writes : List (Write Γ)
  retry : Prog Γ Unit

namespace Process

/-- Nothing is open; what fails from here on is not tried again. -/
def start (prog : Prog Γ Unit) : Process Γ := ⟨prog, [], .ret ()⟩

/-- One atomic step; `none` when the process has ended or must wait. The scan order of a
statement is any order of its candidate rows. Only what follows a `rollback` is tried
again, and only up to its next commit or external call. -/
def step (t : ℕ) (order : List Γ.Key) (s : Shared Γ) (c : Process Γ) :
    Option (Shared Γ × Process Γ) :=
  match c.prog with
  | .ret _ => none
  | .raise _ => none
  | .select q next =>
      some (s.record (.selected t q), { c with prog := next (view c.writes s.db) s.ext })
  | .candidates T p next =>
      if order.Perm (matching (view c.writes s.db) T p) then
        some (s, { c with prog := next order })
      else none
  | .visit T p effect κ next =>
      if s.free t (.row T κ) then
        match (view c.writes s.db).get T κ with
        | none => some (s, { c with prog := next none })
        | some r =>
            if p κ r then
              some (s.acquire t [.row T κ],
                { c with prog := next (some r), writes := c.writes ++ effect.writes κ r })
            else some (s, { c with prog := next none })
      else none
  | .insert T κ row next =>
      if ((view c.writes s.db).get T κ).isSome then
        some (s, { c with prog := next .duplicateKey })
      else if (Γ.uniques T row).any (holdsEntry (view c.writes s.db) T) then
        some (s, { c with prog := next .duplicateEntry })
      else if (rowLocks T κ row).all (s.free t) then
        some (s.acquire t (rowLocks T κ row),
          { c with prog := next .inserted, writes := c.writes ++ [.put T κ row] })
      else none
  | .commit report next =>
      some (s.commit t report (view c.writes s.db), start next)
  | .rollback next => some (s.release t, ⟨next, [], next⟩)
  | .call action report next =>
      some (s.record (.called t (report s.ext) (action s.ext)),
        { c with prog := next s.ext, retry := .ret () })

end Process

/-- The processes are numbered; the calls they make are fixed by the program text. -/
structure System (Γ : Signature) where
  shared : Shared Γ
  process : ℕ → Option (Process Γ)

inductive Act (Γ : Signature)
  | call (t : ℕ)
  | step (t : ℕ) (order : List Γ.Key)
  /-- The server aborts an open transaction; a retryable one starts again. -/
  | abort (t : ℕ)
  /-- The process is lost together with its open transaction. -/
  | stop (t : ℕ)

namespace System

def initial (db : Db Γ) (ext : Γ.External) : System Γ :=
  ⟨⟨.initial db ext, fun _ => none⟩, fun _ => none⟩

def set (sys : System Γ) (t : ℕ) (s : Shared Γ) (c : Process Γ) : System Γ :=
  ⟨s, Function.update sys.process t (some c)⟩

def act (code : ℕ → Prog Γ Unit) (sys : System Γ) : Act Γ → Option (System Γ)
  | .call t =>
      match sys.process t with
      | none => some (sys.set t sys.shared (.start (code t)))
      | some _ => none
  | .step t order => do
      let c ← sys.process t
      let (s, c') ← c.step t order sys.shared
      some (sys.set t s c')
  | .abort t => do
      let c ← sys.process t
      some (sys.set t (sys.shared.release t) ⟨c.retry, [], c.retry⟩)
  | .stop t => do
      let _ ← sys.process t
      some (sys.set t (sys.shared.release t) (.start (.ret ())))

/-- Take the acts one after another from a committed state. -/
def run (code : ℕ → Prog Γ Unit) (sys : System Γ) : List (Act Γ) → Option (System Γ)
  | [] => some sys
  | a :: acts => (sys.act code a).bind fun sys' => run code sys' acts

/-- The error that process `t` has ended with. -/
def error (sys : System Γ) (t : ℕ) : Option Γ.Error :=
  match (sys.process t).map Process.prog with
  | some (.raise e) => some e
  | _ => none

lemma process_of_error {sys : System Γ} {t : ℕ} {e : Γ.Error} (h : sys.error t = some e) :
    ∃ c, sys.process t = some c ∧ c.prog = .raise e := by
  unfold error at h
  split at h
  · next e' hprog =>
    obtain rfl := Option.some.inj h
    exact Option.map_eq_some_iff.mp hprog
  · simp at h

end System

end WiseacctSso.ReadCommitted
