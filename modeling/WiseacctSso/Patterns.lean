import Mathlib.Data.List.Basic
import Mathlib.Tactic.Common

/-!
# Patterns

Regular expressions as `re.search` reads them. A position in a text is the letter before it, if
any, and what follows; a pattern gives the positions at which a match may end.
-/
namespace Patterns

variable {α : Type*}

inductive Pattern (α : Type*)
  | one (p : α → Bool)
  /-- `p+`. -/
  | many1 (p : α → Bool)
  /-- `\b`. -/
  | boundary (isWord : α → Bool)
  | seq (first rest : Pattern α)
  | alt (left right : Pattern α)

abbrev Position (α : Type*) : Type _ := Option α × List α

/-- After any number of letters of the class. -/
def manyEnds (p : α → Bool) : Option α → List α → List (Position α)
  | before, [] => [(before, [])]
  | before, c :: rest => (before, c :: rest) :: if p c then manyEnds p (some c) rest else []

def Pattern.ends : Pattern α → Position α → List (Position α)
  | .one p, (_, text) =>
    match text with
    | [] => []
    | c :: rest => if p c then [(some c, rest)] else []
  | .many1 p, (_, text) =>
    match text with
    | [] => []
    | c :: rest => if p c then manyEnds p (some c) rest else []
  | .boundary isWord, (before, text) =>
    if before.any isWord != text.head?.any isWord then [(before, text)] else []
  | .seq first rest, position => (first.ends position).flatMap rest.ends
  | .alt left right, position => left.ends position ++ right.ends position

/-- There is a match at the position or later. -/
def Pattern.searchFrom (pattern : Pattern α) (before : Option α) : List α → Bool
  | [] => !(pattern.ends (before, [])).isEmpty
  | c :: rest => !(pattern.ends (before, c :: rest)).isEmpty || pattern.searchFrom (some c) rest

/-- `re.search`. -/
def Pattern.search (pattern : Pattern α) (text : List α) : Bool := pattern.searchFrom none text

/-- The letters one after the other; there is at least one. -/
def literal : List (α → Bool) → Pattern α
  | [] => .one fun _ => false
  | [p] => .one p
  | p :: q :: letters => .seq (.one p) (literal (q :: letters))

end Patterns
