import Mathlib.Data.List.TakeWhile
import Mathlib.Tactic.Common

/-!
# Texts

A text is its list of characters. It is cut at separators, as `partition` and `rpartition` cut
it, and stripped of white space.
-/
namespace PythonText

abbrev Text := List Char

instance : LawfulBEq Text := inferInstance

section cut

variable {α : Type*} [DecidableEq α]

/-- What stands before the first separator, or everything. -/
def before (sep : α) (text : List α) : List α := text.takeWhile (· ≠ sep)

/-- What stands after the first separator, or nothing. -/
def after (sep : α) (text : List α) : List α := (text.dropWhile (· ≠ sep)).drop 1

variable {sep : α} {front : List α} (h : sep ∉ front) (rest text : List α)

include h in
lemma all_ne : ∀ c ∈ front, decide (c ≠ sep) = true := by
  intro c hc
  have hne : c ≠ sep := fun heq => h (heq ▸ hc)
  simpa using hne

include h in
lemma before_append : before sep (front ++ sep :: rest) = front := by
  rw [before, List.takeWhile_append_of_pos (all_ne h), List.takeWhile_cons_of_neg (by simp),
    List.append_nil]

include h in
lemma after_append : after sep (front ++ sep :: rest) = rest := by
  rw [after, List.dropWhile_append_of_pos (all_ne h), List.dropWhile_cons_of_neg (by simp),
    List.drop_succ_cons, List.drop_zero]

include h in
lemma before_of_not_mem : before sep front = front := by
  rw [before, List.takeWhile_eq_self_iff]
  exact all_ne h

include h in
lemma after_of_not_mem : after sep front = [] := by
  rw [after, List.dropWhile_eq_nil_iff.mpr (all_ne h), List.drop_nil]

lemma not_mem_before : sep ∉ before sep text := by
  intro h
  have := List.mem_takeWhile_imp h
  simp at this

lemma mem_of_mem_after {c : α} {text : List α} (h : c ∈ after sep text) : c ∈ text :=
  (List.dropWhile_sublist _).subset (List.mem_of_mem_drop h)

lemma after_cons_self : after sep (sep :: rest) = rest := by
  rw [after, List.dropWhile_cons_of_neg (by simp), List.drop_succ_cons, List.drop_zero]

lemma eq_before_append {text : List α} (h : sep ∈ text) :
    text = before sep text ++ sep :: after sep text := by
  unfold before after
  induction text with
  | nil => simp at h
  | cons c text ih =>
    by_cases hc : c = sep
    · simp [hc]
    · have hmem : sep ∈ text := by
        obtain rfl | hmem := List.mem_cons.mp h
        · exact absurd rfl hc
        · exact hmem
      rw [List.takeWhile_cons_of_pos (by simpa using hc),
        List.dropWhile_cons_of_pos (by simpa using hc), List.cons_append, ← ih hmem]

include h in
lemma after_append_left : after sep (front ++ text) = after sep text := by
  rw [after, List.dropWhile_append_of_pos (all_ne h), after]

lemma after_append_right {text : List α} (hmem : sep ∈ text) (more : List α) :
    after sep (text ++ more) = after sep text ++ more := by
  have hsplit : text ++ more = before sep text ++ sep :: (after sep text ++ more) := by
    conv_lhs => rw [eq_before_append hmem]
    rw [List.append_assoc, List.cons_append]
  rw [hsplit, after_append (not_mem_before text)]

end cut

/-- What stands before the last separator, or nothing. -/
def beforeLast (sep : Char) (text : Text) : Text := (after sep text.reverse).reverse

/-- What stands after the last separator, or everything. -/
def afterLast (sep : Char) (text : Text) : Text := (before sep text.reverse).reverse

/-- `str.isspace` of a code point. -/
def isSpaceCode (c : ℕ) : Bool :=
  (9 ≤ c && c ≤ 13) || (28 ≤ c && c ≤ 32) || (0x2000 ≤ c && c ≤ 0x200A) ||
    c ∈ [0x85, 0xA0, 0x1680, 0x2028, 0x2029, 0x202F, 0x205F, 0x3000]

def isSpace (c : Char) : Bool := isSpaceCode c.toNat

def strip (value : Text) : Text := ((value.dropWhile isSpace).reverse.dropWhile isSpace).reverse

end PythonText
