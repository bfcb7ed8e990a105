import Mathlib.Data.List.Infix
import Mathlib.Data.List.Range

/-!
# Retries of a transaction

The runner opens a transaction, runs a callback in it and commits; an attempt that the
database has aborted for another transaction's sake runs again. An attempt is known by what it
leaves: effects that are committed and a value, or an error and nothing else.
-/
namespace WiseacctSso.TransactionRetries

variable {Effects Value E : Type}

/-- The attributes of a driver's error that are strings. -/
structure DriverError where
  sqlstate : Option String
  pgcode : Option String
  deriving DecidableEq

/-- What a connection, a callback, a commit or a backoff may raise. -/
inductive AttemptError (E : Type)
  /-- A `DBAPIError` with its original. -/
  | dbapi (orig : DriverError)
  | other (error : E)
  deriving DecidableEq

def retryableSqlstates : List String := ["40001", "40P01"]

def sqlstate (error : DriverError) : Option String :=
  match error.sqlstate with
  | some value => some value
  | none => error.pgcode

def retryable (error : DriverError) : Bool :=
  (sqlstate error).any (· ∈ retryableSqlstates)

inductive Attempt (Effects Value E : Type)
  | committed (effects : Effects) (value : Value)
  | failed (error : AttemptError E)

/-- The transaction block around a callback. Whatever raises, what the callback has done is
rolled back. -/
def attempt (begun : Except (AttemptError E) Unit)
    (callback : Except (AttemptError E) (Effects × Value))
    (commit : Except (AttemptError E) Unit) : Attempt Effects Value E :=
  match begun with
  | .error e => .failed e
  | .ok () =>
      match callback with
      | .error e => .failed e
      | .ok (effects, value) =>
          match commit with
          | .error e => .failed e
          | .ok () => .committed effects value

lemma attempt_committed {begun commit : Except (AttemptError E) Unit}
    {callback : Except (AttemptError E) (Effects × Value)} {effects : Effects} {value : Value}
    (h : attempt begun callback commit = .committed effects value) :
    callback = .ok (effects, value) := by
  unfold attempt at h
  split at h
  · cases h
  split at h
  · cases h
  split at h
  · cases h
  · obtain ⟨rfl, rfl⟩ := Attempt.committed.inj h
    rfl

/-- How the loop over the attempts ends; past its last attempt stands an assertion. -/
inductive Ending (Value E : Type)
  | returned (value : Value)
  | raised (error : AttemptError E)
  | exhausted

structure Run (Effects Value E : Type) where
  attempts : List (Attempt Effects Value E)
  ending : Ending Value E

/-- What a run has committed, in order. -/
def Run.committed (run : Run Effects Value E) : List (Effects × Value) :=
  run.attempts.filterMap fun
    | .committed effects value => some (effects, value)
    | .failed _ => none

/-- What is committed was committed by one of the attempts. -/
lemma Run.attempt_of_committed (run : Run Effects Value E) {allowed : List ℕ}
    {attempts : ℕ → Attempt Effects Value E} (h : run.attempts <+: allowed.map attempts)
    {effects : Effects} {value : Value} (hmem : (effects, value) ∈ run.committed) :
    ∃ n, attempts n = .committed effects value := by
  obtain ⟨a, ha, hcommitted⟩ := List.mem_filterMap.mp hmem
  obtain ⟨n, -, rfl⟩ := List.mem_map.mp (h.subset ha)
  refine ⟨n, ?_⟩
  split at hcommitted
  · rename_i heq
    obtain ⟨rfl, rfl⟩ := Prod.mk.inj (Option.some.inj hcommitted)
    exact heq
  · cases hcommitted

structure Database (E : Type) where
  closed : Bool
  /-- The wait before a retry may be cut short by an error. -/
  backoff : ℕ → Except (AttemptError E) Unit

/-- A callback with its mark; attempt `n` goes as `attempts n` says. -/
structure Work (Effects Value E : Type) where
  databaseOnly : Bool
  attempts : ℕ → Attempt Effects Value E

inductive CallError
  | type (message : String)
  | runtime (message : String)
  | value (message : String)
  deriving DecidableEq

namespace Database

variable (db : Database E) (attempts : ℕ → Attempt Effects Value E)

/-- The loop from the attempts that are still allowed. -/
def attemptAll (maxAttempts : ℕ) : List ℕ → Run Effects Value E
  | [] => ⟨[], .exhausted⟩
  | n :: later =>
      match attempts n with
      | .committed effects value => ⟨[.committed effects value], .returned value⟩
      | .failed (.other e) => ⟨[.failed (.other e)], .raised (.other e)⟩
      | .failed (.dbapi orig) =>
          if !retryable orig || n = maxAttempts then
            ⟨[.failed (.dbapi orig)], .raised (.dbapi orig)⟩
          else
            match db.backoff n with
            | .error e => ⟨[.failed (.dbapi orig)], .raised e⟩
            | .ok () =>
                let run := attemptAll maxAttempts later
                ⟨.failed (.dbapi orig) :: run.attempts, run.ending⟩

def transaction (work : Work Effects Value E) (maxAttempts : ℤ) :
    Except CallError (Run Effects Value E) :=
  if !work.databaseOnly then
    .error (.type "transaction work must be marked database-only and retry-safe")
  else if db.closed then .error (.runtime "database is closed")
  else if ¬(1 ≤ maxAttempts ∧ maxAttempts ≤ 3) then
    .error (.value "max_attempts must be between 1 and 3")
  else .ok (db.attemptAll work.attempts maxAttempts.toNat (List.range' 1 maxAttempts.toNat))

end Database

/-! ## The runs of the loop -/

/-- What a run may be: attempts that the database has aborted, then one that ends it. -/
inductive Ended : Run Effects Value E → Prop
  | committed (effects : Effects) (value : Value) :
      Ended ⟨[.committed effects value], .returned value⟩
  | failed (error : AttemptError E) : Ended ⟨[.failed error], .raised error⟩
  | interrupted {orig : DriverError} (error : AttemptError E) (retry : retryable orig = true) :
      Ended ⟨[.failed (.dbapi orig)], .raised error⟩
  | retried {orig : DriverError} {run : Run Effects Value E} (retry : retryable orig = true)
      (later : Ended run) : Ended ⟨.failed (.dbapi orig) :: run.attempts, run.ending⟩

section loop
variable {db : Database E} {attempts : ℕ → Attempt Effects Value E} {maxAttempts : ℕ}

/-- The last attempt allowed does not come to the end of the loop. -/
lemma ended_attemptAll {allowed : List ℕ} (hlast : allowed.getLast? = some maxAttempts) :
    Ended (db.attemptAll attempts maxAttempts allowed) := by
  induction allowed with
  | nil => cases hlast
  | cons n later ih =>
    unfold Database.attemptAll
    split
    · exact .committed _ _
    · exact .failed _
    rename_i orig _
    by_cases hstop : (!retryable orig || decide (n = maxAttempts)) = true
    · rw [if_pos hstop]
      exact .failed _
    rw [if_neg hstop]
    simp only [Bool.or_eq_true, Bool.not_eq_true', decide_eq_true_eq, not_or,
      Bool.not_eq_false] at hstop
    obtain ⟨hretry, hne⟩ := hstop
    split
    · exact .interrupted _ hretry
    · refine .retried hretry (ih ?_)
      cases later with
      | nil => exact absurd (Option.some.inj hlast) hne
      | cons m later => simpa using hlast

lemma attemptAll_attempts (allowed : List ℕ) :
    (db.attemptAll attempts maxAttempts allowed).attempts <+: allowed.map attempts := by
  induction allowed with
  | nil => exact List.prefix_rfl
  | cons n later ih =>
    have hone : [attempts n] <+: (n :: later).map attempts := by simp
    unfold Database.attemptAll
    split
    · rename_i heq
      rwa [heq] at hone
    · rename_i heq
      rwa [heq] at hone
    rename_i heq
    rw [heq] at hone
    split
    · exact hone
    split
    · exact hone
    · rw [List.map_cons, heq]
      exact List.prefix_cons_inj _ |>.mpr ih

end loop

namespace Ended

variable {run : Run Effects Value E}

/-- Whatever comes before the last attempt was aborted by the database. -/
lemma retries (h : Ended run) : ∀ a ∈ run.attempts.dropLast,
    ∃ orig, a = .failed (.dbapi orig) ∧ retryable orig = true := by
  induction h with
  | committed effects value => simp
  | failed error => simp
  | interrupted error retry => simp
  | @retried orig run retry later ih =>
    have hne : run.attempts ≠ [] := by cases later <;> simp
    intro a ha
    rw [List.dropLast_cons_of_ne_nil hne] at ha
    rcases List.mem_cons.mp ha with rfl | ha
    · exact ⟨orig, rfl, retry⟩
    · exact ih a ha

lemma committed_of_returned (h : Ended run) {value : Value}
    (hret : run.ending = .returned value) : ∃ effects, run.committed = [(effects, value)] := by
  induction h with
  | committed effects value' =>
    obtain rfl := Ending.returned.inj hret
    exact ⟨effects, rfl⟩
  | failed error => cases hret
  | interrupted error retry => cases hret
  | retried retry later ih => exact ih hret

lemma committed_of_raised (h : Ended run) {error : AttemptError E}
    (hraised : run.ending = .raised error) : run.committed = [] := by
  induction h with
  | committed effects value => cases hraised
  | failed error => rfl
  | interrupted error retry => rfl
  | retried retry later ih => exact ih hraised

lemma ending_ne_exhausted (h : Ended run) : run.ending ≠ .exhausted := by
  induction h with
  | retried retry later ih => exact ih
  | _ => exact nofun

end Ended

/-- A transaction that is not refused runs its attempts in order. -/
lemma transaction_ran {db : Database E} {work : Work Effects Value E} {maxAttempts : ℤ}
    {run : Run Effects Value E} (h : db.transaction work maxAttempts = .ok run) :
    Ended run ∧ run.attempts <+: (List.range' 1 maxAttempts.toNat).map work.attempts := by
  unfold Database.transaction at h
  split at h
  · cases h
  split at h
  · cases h
  split at h
  · cases h
  rename_i hbound
  obtain rfl := Except.ok.inj h
  have hlast : (List.range' 1 maxAttempts.toNat).getLast? = some maxAttempts.toNat := by
    rw [List.getLast?_range', if_neg (by omega)]
    exact congrArg some (by omega)
  exact ⟨ended_attemptAll hlast, attemptAll_attempts _⟩

end WiseacctSso.TransactionRetries
