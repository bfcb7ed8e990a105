import Mathlib

/-!
# JSON values

The values that a JSON document denotes in Python, over any type of strings. A document's
object is the list of its entries, one a key.
-/
namespace Json

/-- A double; the sign of an infinity or of a zero is not kept apart. -/
inductive PyFloat
  | nan
  | infinity (negative : Bool)
  | finite (value : ℚ)
  deriving DecidableEq

inductive Value (Str : Type)
  | null
  | bool (b : Bool)
  | int (z : ℤ)
  | float (f : PyFloat)
  | str (s : Str)
  | list (items : List (Value Str))
  | dict (entries : List (Str × Value Str))

abbrev Dict (Str : Type) : Type := List (Str × Value Str)

variable {Str : Type} [DecidableEq Str]

def Value.isStr (s : Str) : Value Str → Bool
  | .str t => t = s
  | _ => false

@[simp] lemma Value.isStr_str {s t : Str} : (Value.str t).isStr s = decide (t = s) := rfl

/-- A value that comes back as it was from the JSON text it is written to: no float, no
integer of more than 64 bits, one entry a key. -/
inductive Value.Plain : Value Str → Prop
  | null : Plain .null
  | bool (b : Bool) : Plain (.bool b)
  | int (z : ℤ) (h : -2 ^ 63 ≤ z ∧ z < 2 ^ 63) : Plain (.int z)
  | str (s : Str) : Plain (.str s)
  | list (items : List (Value Str)) (h : ∀ v ∈ items, Plain v) : Plain (.list items)
  | dict (entries : List (Str × Value Str)) (keys : (entries.map Prod.fst).Nodup)
      (h : ∀ entry ∈ entries, Plain entry.2) : Plain (.dict entries)

/-- `set(d) == keys`. -/
def keysAre (keys : List Str) (d : Dict Str) : Bool :=
  d.all (fun entry => entry.1 ∈ keys) && keys.all fun key => key ∈ d.map Prod.fst

lemma mem_keys_iff {keys : List Str} {d : Dict Str} (h : keysAre keys d) (key : Str) :
    key ∈ d.map Prod.fst ↔ key ∈ keys := by
  simp only [keysAre, Bool.and_eq_true, List.all_eq_true, decide_eq_true_eq] at h
  constructor
  · intro hkey
    obtain ⟨entry, hentry, rfl⟩ := List.mem_map.mp hkey
    exact h.1 entry hentry
  · exact h.2 key

end Json
