import Mathlib.Data.Nat.Digits.Lemmas
import Mathlib.Tactic.Common

/-!
# DER elements

An element is a tag, the octets of a length and that many bytes. The encoding is the one that
is distinguished: a length and an integer take as few bytes as they can.
-/
namespace Der

/-! ## Big-endian numbers -/

/-- `int.from_bytes(.., "big")`. -/
def fromBytes (bytes : List UInt8) : ℕ := bytes.foldl (fun n b => 256 * n + b.toNat) 0

/-- As few bytes as the number needs, none for zero. -/
def toBytes (n : ℕ) : List UInt8 := (Nat.digits 256 n).reverse.map UInt8.ofNat

lemma fromBytes_toBytes (n : ℕ) : fromBytes (toBytes n) = n := by
  have hdigits : ∀ d ∈ Nat.digits 256 n, (UInt8.ofNat d).toNat = d := by
    intro d hd
    have hlt : d < 256 := Nat.digits_lt_base (by omega) hd
    rw [UInt8.toNat_ofNat']
    exact Nat.mod_eq_of_lt hlt
  have hfold : ∀ digits : List ℕ, (∀ d ∈ digits, (UInt8.ofNat d).toNat = d) →
      fromBytes (digits.reverse.map UInt8.ofNat) = Nat.ofDigits 256 digits := by
    intro digits
    induction digits with
    | nil => intro _; rfl
    | cons d digits ih =>
      intro h
      have htail := ih fun x hx => h x (List.mem_cons_of_mem _ hx)
      rw [List.reverse_cons, List.map_append, fromBytes, List.foldl_append, ← fromBytes, htail,
        Nat.ofDigits_cons]
      simp only [List.map_cons, List.map_nil, List.foldl_cons, List.foldl_nil,
        h d List.mem_cons_self]
      omega
  rw [toBytes, hfold _ hdigits, Nat.ofDigits_digits]

lemma length_toBytes_le {n k : ℕ} : (toBytes n).length ≤ k ↔ n < 256 ^ k := by
  rw [toBytes, List.length_map, List.length_reverse, Nat.digits_length_le_iff (by omega)]

lemma toBytes_ne_nil {n : ℕ} (h : n ≠ 0) : toBytes n ≠ [] := by
  intro hempty
  have hvalue := fromBytes_toBytes n
  rw [hempty] at hvalue
  exact h hvalue.symm

/-! ## Lengths, elements, integers -/

/-- One octet below 128, else the number of the octets that follow. -/
def lengthOctets (n : ℕ) : List UInt8 :=
  if n < 128 then [.ofNat n] else .ofNat (128 + (toBytes n).length) :: toBytes n

def element (tag : UInt8) (content : List UInt8) : List UInt8 :=
  tag :: (lengthOctets content.length ++ content)

/-- The bytes of an integer that is not negative: a zero in front where the top bit is set. -/
def integerContent (n : ℕ) : List UInt8 :=
  match toBytes n with
  | [] => [0]
  | b :: rest => if 128 ≤ b.toNat then 0 :: b :: rest else b :: rest

def integer (n : ℕ) : List UInt8 := element 2 (integerContent n)

lemma integerContent_spec (n : ℕ) : ∃ b rest, integerContent n = b :: rest ∧ b.toNat < 128 ∧
    fromBytes (b :: rest) = n := by
  have hvalue := fromBytes_toBytes n
  unfold integerContent
  cases htoBytes : toBytes n with
  | nil =>
    rw [htoBytes] at hvalue
    exact ⟨0, [], rfl, by decide, hvalue⟩
  | cons b rest =>
    rw [htoBytes] at hvalue
    by_cases hb : 128 ≤ b.toNat
    · exact ⟨0, b :: rest, if_pos hb, by decide, hvalue⟩
    · exact ⟨b, rest, if_neg hb, not_le.mp hb, hvalue⟩

end Der
