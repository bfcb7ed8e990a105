import WiseacctSso.Numerals
import WiseacctSso.UrlPath

/-!
# IPv4 hosts

A host whose last part is a number is read as a browser reads it: up to four parts in
decimal, octal or hexadecimal, the last one filling the bytes that are left.
-/
namespace WiseacctSso.HostNumbers
open UrlPath Numerals

/-! ## The parser -/

/-- The radix and the digits of a part. Of all characters only `X` and `x` become an `x`. -/
def radixAndDigits (value : CodePoints) : ℕ × CodePoints :=
  if text "0x" <+: asciiLower value then (16, value.drop 2)
  else if 2 ≤ value.length ∧ value.head? = some 48 then (8, value.drop 1)
  else (10, value)

/-- For a decimal part of more than 4300 digits `int` itself raises a `ValueError`. Here it is a
number, and the address is refused as too large: the error is the same up to its text. -/
def whatwgIpv4Number (part : CodePoints) : Option ℕ :=
  if part = [] then none
  else
    match radixAndDigits part with
    | (radix, digits) =>
        if digits = [] then some 0
        else if digits.all (isDigit asciiDigit radix) then some (value asciiDigit radix digits)
        else none

/-- `re.fullmatch(r"[0-9]+", part)`. -/
def isDecimal (part : CodePoints) : Bool := part ≠ [] && part.all (isDigit asciiDigit 10)

/-- One empty part at the end is taken off. -/
def hostParts (hostname : CodePoints) : List CodePoints :=
  let parts := hostname.splitOn 46
  if parts.getLast? = some [] then parts.dropLast else parts

/-- All numbers but the last stand for the bytes from the first on. -/
def address (numbers : List ℕ) : ℕ :=
  numbers.dropLast.zipIdx.foldl (fun sum number => sum + number.1 * 256 ^ (3 - number.2))
    (numbers.getLastD 0)

def invalidAddress : String := "invalid IPv4 address"

def whatwgIpv4 (hostname : CodePoints) : Except String (Option ℕ) :=
  match (hostParts hostname).getLast? with
  | none => .ok none
  | some last =>
      if whatwgIpv4Number last = none ∧ isDecimal last = false then .ok none
      else
        match (hostParts hostname).mapM whatwgIpv4Number with
        | none => .error invalidAddress
        | some numbers =>
            if 4 < numbers.length then .error invalidAddress
            else if numbers.dropLast.any (255 < ·) then .error invalidAddress
            else if 256 ^ (5 - numbers.length) ≤ numbers.getLastD 0 then .error invalidAddress
            else .ok (some (address numbers))

/-! ## The grammar -/

/-- The numerals of a number: decimal without a leading zero, octal, or hexadecimal, of which
the prefix alone stands for zero. -/
inductive Numeral : CodePoints → ℕ → Prop
  | decimal {digits} (nonempty : digits ≠ []) (all : ∀ c ∈ digits, isDigit asciiDigit 10 c = true)
      (leading : digits.head? = some 48 → digits = [48]) :
      Numeral digits (value asciiDigit 10 digits)
  | octal {digits} (nonempty : digits ≠ []) (all : ∀ c ∈ digits, isDigit asciiDigit 8 c = true) :
      Numeral (48 :: digits) (value asciiDigit 8 digits)
  | hexadecimal {x digits} (marker : x = 120 ∨ x = 88)
      (all : ∀ c ∈ digits, isDigit asciiDigit 16 c = true) :
      Numeral (48 :: x :: digits) (value asciiDigit 16 digits)

/-- An address in parts: the first bytes one by one, then what is left. -/
def split (n parts : ℕ) : List ℕ :=
  (List.range (parts - 1)).map (fun i => n / 256 ^ (3 - i) % 256) ++ [n % 256 ^ (5 - parts)]

/-- A host that spells an address, perhaps with a dot at the end. -/
def Spells (hostname : CodePoints) (n : ℕ) : Prop :=
  ∃ count numerals, 1 ≤ count ∧ count ≤ 4 ∧ List.Forall₂ Numeral numerals (split n count) ∧
    (hostname = [46].intercalate numerals ∨ hostname = [46].intercalate numerals ++ [46])

def withoutTrailingDot (hostname : CodePoints) : CodePoints :=
  if hostname.getLast? = some 46 then hostname.dropLast else hostname

/-- The part that decides whether the host is to be read as an address. -/
def lastPart (hostname : CodePoints) : CodePoints :=
  ((withoutTrailingDot hostname).splitOn 46).getLastD []

/-- There is no part, or the last one is neither all digits nor a numeral. -/
def NoAddress (hostname : CodePoints) : Prop :=
  hostname = [] ∨ isDecimal (lastPart hostname) = false ∧ ∀ n, ¬ Numeral (lastPart hostname) n

/-! ## Parts -/

lemma hexPrefix_iff {part : CodePoints} : text "0x" <+: asciiLower part ↔
    ∃ x digits, (x = 120 ∨ x = 88) ∧ part = 48 :: x :: digits := by
  have htext : text "0x" = [48, 120] := by decide
  have hzero : ∀ c, asciiLowerChar c = 48 ↔ c = 48 := by
    intro c
    unfold asciiLowerChar
    split_ifs <;> omega
  have hx : ∀ c, asciiLowerChar c = 120 ↔ c = 120 ∨ c = 88 := by
    intro c
    unfold asciiLowerChar
    split_ifs <;> omega
  rw [htext]
  match part with
  | [] => simp
  | [c] => simp [List.cons_prefix_cons]
  | c :: d :: rest =>
    simp only [asciiLower_cons, List.cons_prefix_cons, List.nil_prefix, and_true, eq_comm (a := 48),
      eq_comm (a := 120), hzero, hx, List.cons.injEq]
    constructor
    · rintro ⟨rfl, hd⟩
      exact ⟨d, rest, hd, rfl, rfl, rfl⟩
    · rintro ⟨x, digits, hx, rfl, rfl, rfl⟩
      exact ⟨rfl, hx⟩

lemma radixAndDigits_hex {x : ℕ} (hx : x = 120 ∨ x = 88) (digits : CodePoints) :
    radixAndDigits (48 :: x :: digits) = (16, digits) :=
  if_pos (hexPrefix_iff.mpr ⟨x, digits, hx, rfl⟩)

lemma radixAndDigits_octal {d : ℕ} {rest : CodePoints} (hd : ¬ (d = 120 ∨ d = 88)) :
    radixAndDigits (48 :: d :: rest) = (8, d :: rest) := by
  rw [radixAndDigits, if_neg, if_pos (by simp)]
  · rfl
  · rintro hprefix
    obtain ⟨x, digits, hx, hpart⟩ := hexPrefix_iff.mp hprefix
    simp only [List.cons.injEq] at hpart
    exact hd (hpart.2.1 ▸ hx)

lemma radixAndDigits_decimal {part : CodePoints} (h : part.head? = some 48 → part = [48]) :
    radixAndDigits part = (10, part) := by
  rw [radixAndDigits, if_neg, if_neg]
  · rintro ⟨hlength, hhead⟩
    rw [h hhead] at hlength
    simp at hlength
  · intro hprefix
    obtain ⟨x, digits, -, rfl⟩ := hexPrefix_iff.mp hprefix
    cases h rfl

lemma numeral_of_number {part : CodePoints} {n : ℕ} (h : whatwgIpv4Number part = some n) :
    Numeral part n := by
  unfold whatwgIpv4Number at h
  split_ifs at h with hne
  by_cases hhead : part.head? = some 48 → part = [48]
  · rw [radixAndDigits_decimal hhead] at h
    dsimp only at h
    rw [if_neg hne] at h
    split_ifs at h with hall
    obtain rfl := Option.some.inj h
    exact .decimal hne (List.all_eq_true.mp hall) hhead
  · obtain ⟨hzero, hlong⟩ := Classical.not_imp.mp hhead
    match part with
    | [c] => exact absurd (by rw [Option.some.inj hzero]) hlong
    | c :: d :: rest =>
      obtain rfl : c = 48 := Option.some.inj hzero
      by_cases hd : d = 120 ∨ d = 88
      · rw [radixAndDigits_hex hd] at h
        dsimp only at h
        split_ifs at h with hempty hall
        · obtain rfl := Option.some.inj h
          subst hempty
          exact .hexadecimal hd (by simp)
        · obtain rfl := Option.some.inj h
          exact .hexadecimal hd (List.all_eq_true.mp hall)
      · rw [radixAndDigits_octal hd] at h
        dsimp only at h
        rw [if_neg (by simp)] at h
        split_ifs at h with hall
        obtain rfl := Option.some.inj h
        exact .octal (by simp) (List.all_eq_true.mp hall)

lemma number_of_numeral {part : CodePoints} {n : ℕ} (h : Numeral part n) :
    whatwgIpv4Number part = some n := by
  cases h with
  | decimal nonempty all leading =>
    rw [whatwgIpv4Number, if_neg nonempty, radixAndDigits_decimal leading]
    dsimp only
    rw [if_neg nonempty, if_pos (List.all_eq_true.mpr all)]
  | @octal digits nonempty all =>
    obtain ⟨d, rest, rfl⟩ := List.exists_cons_of_ne_nil nonempty
    have hd : ¬ (d = 120 ∨ d = 88) := by
      have hdigit := isDigit_ascii_eight.mp (all d List.mem_cons_self)
      omega
    rw [whatwgIpv4Number, if_neg (by simp), radixAndDigits_octal hd]
    dsimp only
    rw [if_neg nonempty, if_pos (List.all_eq_true.mpr all)]
  | @hexadecimal x digits marker all =>
    rw [whatwgIpv4Number, if_neg (by simp), radixAndDigits_hex marker]
    dsimp only
    split_ifs with hempty hall
    · rw [hempty]
      rfl
    · rfl
    · exact absurd (List.all_eq_true.mpr all) hall

lemma number_iff {part : CodePoints} {n : ℕ} :
    whatwgIpv4Number part = some n ↔ Numeral part n :=
  ⟨numeral_of_number, number_of_numeral⟩

lemma number_none_iff {part : CodePoints} :
    whatwgIpv4Number part = none ↔ ∀ n, ¬ Numeral part n := by
  simp only [← number_iff, Option.eq_none_iff_forall_ne_some]

/-! ## The last part -/

/-- Taking off an empty part at the end is taking off a dot at the end. -/
lemma hostParts_eq {hostname : CodePoints} (h : hostname ≠ []) :
    hostParts hostname = (withoutTrailingDot hostname).splitOn 46 := by
  unfold hostParts withoutTrailingDot
  by_cases hdot : hostname.getLast? = some 46
  · obtain ⟨front, rfl⟩ := List.getLast?_eq_some_iff.mp hdot
    have hsplit : (front ++ [46]).splitOn 46 = front.splitOn 46 ++ [[]] := by
      rw [List.splitOn_append_cons_self, List.splitOn_nil]
    simp [hsplit]
  · have hlast : ¬ (hostname.splitOn 46).getLast? = some [] :=
      fun hempty => hdot (getLast_of_splitOn h hempty)
    rw [if_neg hlast, if_neg hdot]

lemma hostParts_nil : hostParts [] = [] := rfl

lemma getLast_hostParts {hostname : CodePoints} (h : hostname ≠ []) :
    (hostParts hostname).getLast? = some (lastPart hostname) := by
  rw [hostParts_eq h, lastPart]
  obtain ⟨front, last, hparts⟩ := (List.eq_nil_or_concat'
    ((withoutTrailingDot hostname).splitOn 46)).resolve_left (List.splitOn_ne_nil _ _)
  rw [hparts]
  simp

lemma whatwgIpv4_none_iff {hostname : CodePoints} :
    whatwgIpv4 hostname = .ok none ↔ NoAddress hostname := by
  unfold NoAddress whatwgIpv4
  by_cases hnil : hostname = []
  · subst hnil
    simp [hostParts_nil]
  · rw [getLast_hostParts hnil]
    dsimp only
    constructor
    · intro h
      split_ifs at h with hnone
      · exact .inr ⟨hnone.2, number_none_iff.mp hnone.1⟩
      · split at h
        · cases h
        · split_ifs at h
          cases h
    · rintro (hempty | ⟨hdecimal, hnumeral⟩)
      · exact absurd hempty hnil
      · rw [if_pos ⟨number_none_iff.mpr hnumeral, hdecimal⟩]

/-! ## Hosts that spell an address -/

lemma numeral_chars {part : CodePoints} {n : ℕ} (h : Numeral part n) : part ≠ [] ∧ 46 ∉ part := by
  have hdot : ∀ radix, isDigit asciiDigit radix 46 = false := fun _ => rfl
  cases h with
  | decimal nonempty all leading =>
    exact ⟨nonempty, fun hmem => absurd (all _ hmem) (by simp [hdot])⟩
  | octal nonempty all =>
    refine ⟨by simp, fun hmem => ?_⟩
    rcases List.mem_cons.mp hmem with hzero | hmem
    · cases hzero
    · exact absurd (all _ hmem) (by simp [hdot])
  | hexadecimal marker all =>
    refine ⟨by simp, fun hmem => ?_⟩
    rcases List.mem_cons.mp hmem with hzero | hmem
    · cases hzero
    rcases List.mem_cons.mp hmem with rfl | hmem
    · omega
    · exact absurd (all _ hmem) (by simp [hdot])

/-- Parts that are not empty and have no dot are those of their join and of no other host but
the one with a dot more. -/
lemma hostParts_eq_iff {hostname : CodePoints} {parts : List CodePoints} (hne : parts ≠ [])
    (hparts : ∀ part ∈ parts, part ≠ [] ∧ 46 ∉ part) : hostParts hostname = parts ↔
      hostname = [46].intercalate parts ∨ hostname = [46].intercalate parts ++ [46] := by
  have hsplit : ([46].intercalate parts).splitOn 46 = parts :=
    List.splitOn_intercalate 46 (fun part hpart => (hparts part hpart).2) hne
  have hjoin : [46].intercalate parts ≠ [] := by
    intro hempty
    rw [hempty, List.splitOn_nil] at hsplit
    exact (hparts [] (hsplit ▸ List.mem_singleton_self _)).1 rfl
  constructor
  · intro h
    have hhost : hostname ≠ [] := by
      rintro rfl
      exact hne (h.symm.trans hostParts_nil)
    rw [hostParts_eq hhost] at h
    have hwithout : [46].intercalate parts = withoutTrailingDot hostname := by
      rw [← h, List.intercalate_splitOn]
    unfold withoutTrailingDot at hwithout
    split_ifs at hwithout with hdot
    · obtain ⟨front, rfl⟩ := List.getLast?_eq_some_iff.mp hdot
      rw [List.dropLast_concat] at hwithout
      exact .inr (by rw [hwithout])
    · exact .inl hwithout.symm
  · rintro (rfl | rfl)
    · rw [hostParts_eq hjoin, withoutTrailingDot, if_neg, hsplit]
      intro hdot
      obtain ⟨front, hfront⟩ := List.getLast?_eq_some_iff.mp hdot
      rw [hfront, List.splitOn_append_cons_self, List.splitOn_nil] at hsplit
      exact (hparts [] (hsplit ▸ by simp)).1 rfl
    · rw [hostParts_eq (by simp), withoutTrailingDot, if_pos (by simp), List.dropLast_concat,
        hsplit]

lemma split_length {n count : ℕ} (h : 1 ≤ count) : (split n count).length = count := by
  simp [split]
  omega

section address
variable (a b c d n : ℕ)

lemma split_one : split n 1 = [n % 4294967296] := by
  simp [split]

lemma split_two : split n 2 = [n / 16777216 % 256, n % 16777216] := by
  simp [split]

lemma split_three : split n 3 = [n / 16777216 % 256, n / 65536 % 256, n % 65536] := by
  simp [split, List.range_succ]

lemma split_four :
    split n 4 = [n / 16777216 % 256, n / 65536 % 256, n / 256 % 256, n % 256] := by
  simp [split, List.range_succ]

/-- The loop of `address` over the numbers from an index on. -/
lemma foldl_address (number index sum : ℕ) (numbers : List ℕ) :
    ((number :: numbers).zipIdx index).foldl
        (fun sum number => sum + number.1 * 256 ^ (3 - number.2)) sum =
      (numbers.zipIdx (index + 1)).foldl (fun sum number => sum + number.1 * 256 ^ (3 - number.2))
        (sum + number * 256 ^ (3 - index)) := by
  rw [List.zipIdx_cons, List.foldl_cons]

-- each equation is rewritten: a reduction of the product with a power would not come to an end
lemma address_one : address [a] = a := by
  rw [address, List.dropLast_singleton, List.zipIdx_nil, List.foldl_nil, List.getLastD_cons,
    List.getLastD_nil]

lemma address_two : address [a, b] = b + a * 256 ^ 3 := by
  rw [address, List.dropLast_cons_cons, List.dropLast_singleton, foldl_address, List.zipIdx_nil,
    List.foldl_nil, List.getLastD_cons, List.getLastD_cons, List.getLastD_nil, Nat.sub_zero]

lemma address_three : address [a, b, c] = c + a * 256 ^ 3 + b * 256 ^ 2 := by
  rw [address, List.dropLast_cons_cons, List.dropLast_cons_cons, List.dropLast_singleton,
    foldl_address, foldl_address, List.zipIdx_nil, List.foldl_nil, List.getLastD_cons,
    List.getLastD_cons, List.getLastD_cons, List.getLastD_nil, Nat.sub_zero]

lemma address_four : address [a, b, c, d] = d + a * 256 ^ 3 + b * 256 ^ 2 + c * 256 ^ 1 := by
  rw [address, List.dropLast_cons_cons, List.dropLast_cons_cons, List.dropLast_cons_cons,
    List.dropLast_singleton, foldl_address, foldl_address, foldl_address, List.zipIdx_nil,
    List.foldl_nil, List.getLastD_cons, List.getLastD_cons, List.getLastD_cons,
    List.getLastD_cons, List.getLastD_nil, Nat.sub_zero]

end address

/-- The numbers stand for an address, each in its place. -/
def Fits (numbers : List ℕ) : Prop :=
  (∀ number ∈ numbers.dropLast, number ≤ 255) ∧
    numbers.getLastD 0 < 256 ^ (5 - numbers.length)

/-- The checks of the numbers leave just the addresses cut in parts. -/
lemma fits_iff {numbers : List ℕ} {n : ℕ} (hne : numbers ≠ []) (hlength : numbers.length ≤ 4) :
    Fits numbers ∧ address numbers = n ↔ n < 2 ^ 32 ∧ numbers = split n numbers.length := by
  match numbers with
  | [a] =>
    have hcount : [a].length = 1 := rfl
    rw [Fits, address_one, hcount, split_one]
    simp only [List.dropLast_singleton, List.getLastD_cons, List.getLastD_nil, List.cons.injEq,
      List.not_mem_nil, false_implies, implies_true, true_and, and_true]
    omega
  | [a, b] =>
    have hcount : [a, b].length = 2 := rfl
    rw [Fits, address_two, hcount, split_two]
    simp only [List.dropLast_cons_cons, List.dropLast_singleton, List.getLastD_cons,
      List.getLastD_nil, List.cons.injEq, List.mem_singleton, forall_eq, and_true]
    omega
  | [a, b, c] =>
    have hcount : [a, b, c].length = 3 := rfl
    rw [Fits, address_three, hcount, split_three]
    simp only [List.dropLast_cons_cons, List.dropLast_singleton, List.getLastD_cons,
      List.getLastD_nil, List.cons.injEq, List.mem_cons, List.not_mem_nil, or_false,
      forall_eq_or_imp, forall_eq, and_true]
    omega
  | [a, b, c, d] =>
    have hcount : [a, b, c, d].length = 4 := rfl
    rw [Fits, address_four, hcount, split_four]
    simp only [List.dropLast_cons_cons, List.dropLast_singleton, List.getLastD_cons,
      List.getLastD_nil, List.cons.injEq, List.mem_cons, List.not_mem_nil, or_false,
      forall_eq_or_imp, forall_eq, and_true]
    omega

lemma mapM_number_iff {parts : List CodePoints} {numbers : List ℕ} :
    parts.mapM whatwgIpv4Number = some numbers ↔ List.Forall₂ Numeral parts numbers := by
  induction parts generalizing numbers with
  | nil => cases numbers <;> simp
  | cons part parts ih =>
    rw [List.mapM_cons]
    cases numbers with
    | nil => cases whatwgIpv4Number part <;> cases parts.mapM whatwgIpv4Number <;> simp
    | cons number numbers =>
      rw [List.forall₂_cons, ← ih, ← number_iff]
      cases whatwgIpv4Number part <;> cases parts.mapM whatwgIpv4Number <;> simp

lemma numeral_of_mem {parts : List CodePoints} {numbers : List ℕ}
    (h : List.Forall₂ Numeral parts numbers) {part : CodePoints} (hpart : part ∈ parts) :
    ∃ n, Numeral part n := by
  induction h with
  | nil => cases hpart
  | cons hhead _ ih =>
    rcases List.mem_cons.mp hpart with rfl | hpart
    · exact ⟨_, hhead⟩
    · exact ih hpart

/-- Where all parts are numerals, the checks of their numbers decide. -/
lemma whatwgIpv4_numbers {hostname : CodePoints} (h : hostname ≠ []) {numbers : List ℕ}
    (hnumbers : List.Forall₂ Numeral (hostParts hostname) numbers) (n : ℕ) :
    whatwgIpv4 hostname = .ok (some n) ↔
      numbers.length ≤ 4 ∧ Fits numbers ∧ address numbers = n := by
  have hlast : ¬ (whatwgIpv4Number (lastPart hostname) = none ∧
      isDecimal (lastPart hostname) = false) := by
    rintro ⟨hnone, -⟩
    obtain ⟨number, hnumber⟩ := numeral_of_mem hnumbers (List.mem_of_getLast? (getLast_hostParts h))
    rw [number_of_numeral hnumber] at hnone
    cases hnone
  have hbytes : numbers.dropLast.any (255 < ·) = true ↔
      ¬ ∀ number ∈ numbers.dropLast, number ≤ 255 := by
    simp only [List.any_eq_true, decide_eq_true_eq, not_forall, not_le, exists_prop]
  rw [whatwgIpv4, getLast_hostParts h]
  dsimp only
  rw [if_neg hlast, mapM_number_iff.mpr hnumbers]
  dsimp only
  unfold Fits
  split_ifs with hcount hany hlimit
  · simp [hcount]
  · simp [hbytes.mp hany]
  · have hlast : ¬ numbers.getLastD 0 < 256 ^ (5 - numbers.length) := not_lt.mpr hlimit
    simp only [hlast, and_false, false_and]
  · have hfits := not_not.mp (mt hbytes.mpr hany)
    simp only [Except.ok.injEq, Option.some.injEq]
    exact ⟨fun haddress => ⟨not_lt.mp hcount, ⟨hfits, not_le.mp hlimit⟩, haddress⟩,
      fun haddress => haddress.2.2⟩

lemma whatwgIpv4_some_iff {hostname : CodePoints} {n : ℕ} :
    whatwgIpv4 hostname = .ok (some n) ↔ n < 2 ^ 32 ∧ Spells hostname n := by
  constructor
  · intro h
    have hne : hostname ≠ [] := by
      rintro rfl
      cases h
    have hnumbers : ∃ numbers, List.Forall₂ Numeral (hostParts hostname) numbers := by
      rw [whatwgIpv4, getLast_hostParts hne] at h
      dsimp only at h
      split_ifs at h
      · cases h
      · cases hparts : (hostParts hostname).mapM whatwgIpv4Number with
        | none =>
          rw [hparts] at h
          cases h
        | some numbers => exact ⟨numbers, mapM_number_iff.mp hparts⟩
    obtain ⟨numbers, hnumbers⟩ := hnumbers
    obtain ⟨hlength, hfits⟩ := (whatwgIpv4_numbers hne hnumbers n).mp h
    have hpartsNe : hostParts hostname ≠ [] := by
      intro hempty
      have hlast := getLast_hostParts hne
      rw [hempty] at hlast
      cases hlast
    have hnumbersNe : numbers ≠ [] := by
      rintro rfl
      exact hpartsNe (List.forall₂_nil_right_iff.mp hnumbers)
    obtain ⟨hn, hsplit⟩ := (fits_iff hnumbersNe hlength).mp hfits
    refine ⟨hn, numbers.length, hostParts hostname, List.length_pos_of_ne_nil hnumbersNe, hlength,
      hsplit ▸ hnumbers, (hostParts_eq_iff hpartsNe fun part hpart => ?_).mp rfl⟩
    obtain ⟨number, hnumber⟩ := numeral_of_mem hnumbers hpart
    exact numeral_chars hnumber
  · rintro ⟨hn, count, numerals, hpos, hcount, hnumerals, hjoin⟩
    have hlength : (split n count).length = count := split_length hpos
    have hsplitNe : split n count ≠ [] := by
      intro hempty
      rw [hempty] at hlength
      exact absurd hpos (by rw [← hlength]; simp)
    have hnumeralsNe : numerals ≠ [] := by
      rintro rfl
      exact hsplitNe (List.forall₂_nil_left_iff.mp hnumerals)
    have hparts : hostParts hostname = numerals :=
      (hostParts_eq_iff hnumeralsNe fun part hpart =>
        (numeral_of_mem hnumerals hpart).elim fun _ hnumber => numeral_chars hnumber).mpr hjoin
    have hne : hostname ≠ [] := by
      rintro rfl
      exact hnumeralsNe (hparts.symm.trans hostParts_nil)
    have hfits := (fits_iff hsplitNe (hlength.le.trans hcount)).mpr ⟨hn, by rw [hlength]⟩
    exact (whatwgIpv4_numbers hne (hparts ▸ hnumerals) n).mpr ⟨hlength.le.trans hcount, hfits⟩

/-- A host is read as the address that it spells; without a number at its end it is no address,
and everything else is rejected. -/
theorem whatwgIpv4_exact (hostname : CodePoints) :
    (∀ n, whatwgIpv4 hostname = .ok (some n) ↔ n < 2 ^ 32 ∧ Spells hostname n) ∧
      (whatwgIpv4 hostname = .ok none ↔ NoAddress hostname) ∧
      (whatwgIpv4 hostname = .error invalidAddress ↔
        ¬ NoAddress hostname ∧ ∀ n, ¬ (n < 2 ^ 32 ∧ Spells hostname n)) := by
  refine ⟨fun n => whatwgIpv4_some_iff, whatwgIpv4_none_iff, ?_⟩
  rw [← whatwgIpv4_none_iff]
  simp only [← whatwgIpv4_some_iff]
  constructor
  · intro h
    rw [h]
    exact ⟨nofun, fun _ => nofun⟩
  · rintro ⟨hnone, hsome⟩
    cases hresult : whatwgIpv4 hostname with
    | error message =>
      unfold whatwgIpv4 at hresult
      split at hresult
      · cases hresult
      · split_ifs at hresult
        split at hresult
        · rw [← Except.error.inj hresult]
        · split_ifs at hresult <;> rw [← Except.error.inj hresult]
    | ok result =>
      cases result with
      | none => exact absurd hresult hnone
      | some n => exact absurd hresult (hsome n)

end WiseacctSso.HostNumbers
