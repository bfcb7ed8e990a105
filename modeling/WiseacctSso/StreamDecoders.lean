import Mathlib.Data.List.Basic

/-!
# Streaming decoders

A decoder takes a stream byte by byte and gives out what each byte completes. Its stream ends
at some byte; what follows belongs to the next stream, or to nobody.
-/
namespace WiseacctSso.StreamDecoders

structure Decoder (σ Byte : Type) where
  start : σ
  /-- None for a byte that the format does not allow. -/
  next : σ → Byte → Option (σ × List Byte)
  ended : σ → Bool

/-- What becomes of a stretch of a stream: all is taken in, or the stream ends before `rest`, or a
byte is refused after `output`. -/
inductive Reading (σ Byte : Type)
  | more (state : σ) (output : List Byte)
  | ended (output rest : List Byte)
  | refused (output : List Byte)

variable {σ Byte : Type}

namespace Reading

def output : Reading σ Byte → List Byte
  | more _ out => out
  | ended out _ => out
  | refused out => out

/-- The reading after `before` has been given out. -/
def after (before : List Byte) : Reading σ Byte → Reading σ Byte
  | more s out => more s (before ++ out)
  | ended out rest => ended (before ++ out) rest
  | refused out => refused (before ++ out)

end Reading

namespace Decoder

variable (d : Decoder σ Byte)

def read : σ → List Byte → Reading σ Byte
  | s, [] => .more s []
  | s, b :: bs =>
      match d.next s b with
      | none => .refused []
      | some (s', out) => if d.ended s' then .ended out bs else (read s' bs).after out

/-- A stream that ends takes at least one byte. -/
lemma length_rest_lt {s : σ} {bs out rest : List Byte} (h : d.read s bs = .ended out rest) :
    rest.length < bs.length := by
  induction bs generalizing s out with
  | nil => cases h
  | cons b bs ih =>
    unfold read at h
    split at h
    · cases h
    rename_i s' now hnext
    split at h
    · obtain ⟨-, rfl⟩ := Reading.ended.inj h
      simp
    · cases hread : d.read s' bs with
      | more t o => simp [hread, Reading.after] at h
      | refused o => simp [hread, Reading.after] at h
      | ended o r =>
        rw [hread] at h
        obtain ⟨-, rfl⟩ := Reading.ended.inj h
        have hlt := ih hread
        simp only [List.length_cons]
        omega

/-! ## One stream after another -/

/-- Inside a stream, or past the end of the last one. -/
inductive Stage (σ : Type)
  | inside (state : σ)
  | finished

/-- A byte after the end starts the next stream, if there may be several, or is dropped. -/
def advance (several : Bool) : Stage σ → Byte → Option (Stage σ × List Byte)
  | .inside s, b => (d.next s b).map fun r =>
      (if d.ended r.1 then .finished else .inside r.1, r.2)
  | .finished, b =>
      if several then
        (d.next d.start b).map fun r => (if d.ended r.1 then .finished else .inside r.1, r.2)
      else some (.finished, [])

def run (several : Bool) : Stage σ → List Byte → Option (Stage σ × List Byte)
  | st, [] => some (st, [])
  | st, b :: bs =>
      (d.advance several st b).bind fun r =>
        (run several r.1 bs).map fun r' => (r'.1, r.2 ++ r'.2)

variable {several : Bool}

/-- The output after `before` has been given out. -/
def afterOutput (before : List Byte) (r : Option (Stage σ × List Byte)) :
    Option (Stage σ × List Byte) :=
  r.map fun r' => (r'.1, before ++ r'.2)

lemma run_append (st : Stage σ) (xs ys : List Byte) :
    d.run several st (xs ++ ys) =
      (d.run several st xs).bind fun r => afterOutput r.2 (d.run several r.1 ys) := by
  induction xs generalizing st with
  | nil =>
    cases h : d.run several st ys <;> simp [run, afterOutput, h]
  | cons b bs ih =>
    simp only [List.cons_append, run]
    cases d.advance several st b with
    | none => rfl
    | some r =>
      simp only [Option.bind_some, ih]
      cases d.run several r.1 bs with
      | none => rfl
      | some r' =>
        simp only [Option.bind_some, Option.map_some, afterOutput]
        cases d.run several r'.1 ys with
        | none => rfl
        | some r'' => simp

/-- The bytes after the end, if there are any, start the next stream. -/
lemma run_finished_several {bs : List Byte} (hne : bs ≠ []) :
    d.run true .finished bs = d.run true (.inside d.start) bs := by
  cases bs with
  | nil => exact absurd rfl hne
  | cons b bs => rfl

lemma run_finished_single (bs : List Byte) : d.run false .finished bs = some (.finished, []) := by
  induction bs with
  | nil => rfl
  | cons b bs ih => simp [run, advance, ih]

/-- Running through a stretch is reading it and going on after the end. -/
theorem run_inside (s : σ) (bs : List Byte) :
    d.run several (.inside s) bs =
      match d.read s bs with
      | .refused _ => none
      | .more s' out => some (.inside s', out)
      | .ended out rest => afterOutput out (d.run several .finished rest) := by
  induction bs generalizing s with
  | nil => rfl
  | cons b bs ih =>
    cases hnext : d.next s b with
    | none => simp [run, read, advance, hnext]
    | some r =>
      obtain ⟨s', out⟩ := r
      by_cases hended : d.ended s' = true
      · simp [run, read, advance, hnext, hended, afterOutput]
      · simp only [run, read, advance, hnext, hended, Option.map_some, Option.bind_some,
          Bool.false_eq_true, if_false, ih s']
        cases d.read s' bs with
        | refused o => rfl
        | more t o => rfl
        | ended o rest =>
          simp only [Reading.after, afterOutput]
          cases d.run several .finished rest with
          | none => rfl
          | some r' => simp

/-- What the first stream gives out is given out first. -/
lemma output_read_le {s : σ} {bs more : List Byte} {st : Stage σ}
    (h : d.run several (.inside s) bs = some (st, more)) :
    (d.read s bs).output.length ≤ more.length := by
  rw [run_inside] at h
  cases hread : d.read s bs with
  | refused out => simp [hread] at h
  | more t out =>
    simp only [hread, Option.some.injEq, Prod.mk.injEq] at h
    rw [← h.2]
    exact Nat.le_refl _
  | ended out rest =>
    simp only [hread] at h
    obtain ⟨r, -, heq⟩ := Option.map_eq_some_iff.mp h
    rw [← (Prod.mk.inj heq).2]
    simp [Reading.output]

/-! ## What a whole body decodes to -/

/-- The body is one stream after another, and decodes to their outputs in order. -/
inductive Streams : List Byte → List Byte → Prop
  | last {bs out : List Byte} (stream : d.read d.start bs = .ended out []) : Streams bs out
  | cons {bs out rest later : List Byte} (stream : d.read d.start bs = .ended out rest)
      (more : rest ≠ []) (streams : Streams rest later) : Streams bs (out ++ later)

theorem streams_iff_run {bs out : List Byte} :
    d.Streams bs out ↔ d.run true (.inside d.start) bs = some (.finished, out) := by
  constructor
  · intro h
    induction h with
    | last stream => rw [run_inside, stream]; simp [run, afterOutput]
    | cons stream more streams ih =>
      rw [run_inside, stream]
      dsimp only
      rw [d.run_finished_several more, ih]
      rfl
  · intro h
    induction hn : bs.length using Nat.strongRecOn generalizing bs out with
    | ind n ih =>
      rw [run_inside] at h
      cases hread : d.read d.start bs with
      | refused o => simp [hread] at h
      | more t o => simp [hread] at h
      | ended o rest =>
        simp only [hread] at h
        by_cases hrest : rest = []
        · subst hrest
          simp only [run, afterOutput, Option.map_some, List.append_nil, Option.some.injEq,
            Prod.mk.injEq, true_and] at h
          subst h
          exact .last hread
        · rw [d.run_finished_several hrest] at h
          obtain ⟨⟨st, later⟩, hrun, heq⟩ := Option.map_eq_some_iff.mp h
          obtain ⟨rfl, rfl⟩ := Prod.mk.inj heq
          have hlt := d.length_rest_lt hread
          exact .cons hread hrest (ih rest.length (hn ▸ hlt) hrun rfl)

theorem stream_iff_run {bs out : List Byte} :
    (∃ rest, d.read d.start bs = .ended out rest) ↔
      d.run false (.inside d.start) bs = some (.finished, out) := by
  rw [run_inside]
  cases hread : d.read d.start bs with
  | refused o => simp
  | more t o => simp
  | ended o rest => simp [d.run_finished_single, afterOutput]

end Decoder

end WiseacctSso.StreamDecoders
