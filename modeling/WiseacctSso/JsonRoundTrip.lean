import WiseacctSso.JsonText

/-!
# Flat objects are read back

What `json.dumps` writes for a flat object `json.loads` reads as that object.
-/
namespace Json

/-! ## Integers -/

/-- A value ends where a comma or a closing bracket stands. -/
def Closes (rest : List Char) : Prop :=
  ∃ c tail, rest = c :: tail ∧ (c = ',' ∨ c = ']' ∨ c = '}')

lemma takeWhile_digits {digits rest : List Char} (h : ∀ c ∈ digits, c.isDigit)
    (hrest : Closes rest) : (digits ++ rest).takeWhile Char.isDigit = digits := by
  obtain ⟨c, tail, rfl, hc⟩ := hrest
  have hdigit : c.isDigit = false := by
    obtain rfl | rfl | rfl := hc <;> decide
  rw [List.takeWhile_append_of_pos h, List.takeWhile_cons_of_neg (by simp [hdigit]),
    List.append_nil]

lemma dropWhile_digits {digits rest : List Char} (h : ∀ c ∈ digits, c.isDigit)
    (hrest : Closes rest) : (digits ++ rest).dropWhile Char.isDigit = rest := by
  obtain ⟨c, tail, rfl, hc⟩ := hrest
  have hdigit : c.isDigit = false := by
    obtain rfl | rfl | rfl := hc <;> decide
  rw [List.dropWhile_append_of_pos h, List.dropWhile_cons_of_neg (by simp [hdigit])]

/-- Only the digits of zero start with a zero. -/
lemma eq_zero_of_head?_toDigits (n : ℕ) (h : (Nat.toDigits 10 n).head? = some '0') : n = 0 := by
  induction n using Nat.strong_induction_on with
  | _ n ih =>
    by_cases hn : n < 10
    · rw [Nat.toDigits_of_lt_base hn] at h
      interval_cases n <;> simp_all [Nat.digitChar]
    · have hdigits := Nat.toDigits_of_base_le (by decide) (Nat.le_of_not_lt hn)
      have hne : Nat.toDigits 10 (n / 10) ≠ [] := Nat.toDigits_ne_nil
      rw [hdigits, List.head?_append_of_ne_nil _ hne] at h
      have := ih (n / 10) (by omega) h
      omega

lemma isDigit_toDigits (n : ℕ) : ∀ c ∈ Nat.toDigits 10 n, c.isDigit :=
  fun _ hc => Nat.isDigit_of_mem_toDigits (by decide) (by decide) hc

lemma scanWhole_toDigits (n : ℕ) {rest : List Char} (hrest : Closes rest) :
    scanWhole (Nat.toDigits 10 n ++ rest) = some (Nat.toDigits 10 n, rest) := by
  have hne : Nat.toDigits 10 n ≠ [] := Nat.toDigits_ne_nil
  by_cases hn : n = 0
  · subst hn
    rw [Nat.toDigits_zero]
    rfl
  · rw [scanWhole]
    · rw [takeWhile_digits (isDigit_toDigits n) hrest, dropWhile_digits (isDigit_toDigits n) hrest]
      exact if_pos hne
    · intro tail h
      refine hn (eq_zero_of_head?_toDigits n ?_)
      rw [← List.head?_append_of_ne_nil _ hne, h, List.head?_cons]

lemma scanFraction_of_closes {rest : List Char} (h : Closes rest) : scanFraction rest = none := by
  obtain ⟨c, tail, rfl, rfl | rfl | rfl⟩ := h <;> rfl

lemma scanExponent_of_closes {rest : List Char} (h : Closes rest) : scanExponent rest = none := by
  obtain ⟨c, tail, rfl, rfl | rfl | rfl⟩ := h <;> simp [scanExponent]

lemma scanNumber_dumpsInt (z : ℤ) {rest : List Char} (hrest : Closes rest) :
    scanNumber (dumpsInt z ++ rest) = some (.int z, rest) := by
  have hvalue : natOfDigits (Nat.toDigits 10 z.natAbs) = z.natAbs :=
    Nat.ofDigitChars_toDigits (by decide) (by decide)
  have hne : Nat.toDigits 10 z.natAbs ≠ [] := Nat.toDigits_ne_nil
  unfold dumpsInt
  split
  · rename_i hz
    simp [scanNumber, scanWhole_toDigits _ hrest, scanFraction_of_closes hrest,
      scanExponent_of_closes hrest, hvalue, abs_of_neg hz]
  · rename_i hz
    have hhead : ¬ (Nat.toDigits 10 z.natAbs ++ rest).head? = some '-' := by
      rw [List.head?_append_of_ne_nil _ hne]
      intro h
      have := isDigit_toDigits z.natAbs '-' (List.mem_of_head? h)
      simp at this
    simp only [scanNumber, if_neg hhead, scanWhole_toDigits _ hrest, bind, Option.bind,
      scanFraction_of_closes hrest, scanExponent_of_closes hrest, hvalue, Option.getD_none,
      Int.natAbs_of_nonneg (not_lt.mp hz)]
    rfl

/-! ## Values -/

/-- The strings of the value have no split pair. -/
def Field.Unpaired : Field → Prop
  | .str s => Json.Unpaired s
  | .strs items => ∀ s ∈ items, Json.Unpaired s
  | _ => True

lemma scanValue_dumpsStr {s : PyStr} (h : Unpaired s) (fuel : ℕ) (rest : List Char) :
    scanValue (fuel + 1) (dumpsStr s ++ rest) = some (.str s, rest) := by
  have htext : dumpsStr s ++ rest = '"' :: (s.flatMap escapeChar ++ '"' :: rest) := by
    simp [dumpsStr]
  rw [htext, scanValue, scanString_dumps h]
  rfl

/-- Parts that start with a quote leave no white space to skip. -/
lemma skipSpace_dumpsItems (close : Char) (part : List Char) (parts : List (List Char))
    (rest : List Char) :
    skipSpace (dumpsItems close (('"' :: part) :: parts) ++ rest) =
      dumpsItems close (('"' :: part) :: parts) ++ rest := by
  cases parts <;> rfl

lemma dumpsItems_singleton (close : Char) (part rest : List Char) :
    dumpsItems close [part] ++ rest = part ++ close :: rest := by
  simp [dumpsItems]

lemma dumpsItems_cons (close : Char) (part next : List Char) (parts : List (List Char))
    (rest : List Char) :
    dumpsItems close (part :: next :: parts) ++ rest =
      part ++ ',' :: (dumpsItems close (next :: parts) ++ rest) := by
  simp [dumpsItems]

lemma scanItems_dumps {items : List PyStr} (h : ∀ s ∈ items, Unpaired s) (hne : items ≠ [])
    {fuel : ℕ} (hfuel : items.length < fuel) (rest : List Char) :
    scanItems fuel (dumpsItems ']' (items.map dumpsStr) ++ rest) =
      some (items.map .str, rest) := by
  induction items generalizing fuel with
  | nil => exact absurd rfl hne
  | cons s items ih =>
    obtain ⟨n, rfl⟩ : ∃ n, fuel = n + 2 := ⟨fuel - 2, by simp at hfuel; omega⟩
    rw [List.forall_mem_cons] at h
    cases items with
    | nil =>
      rw [List.map_singleton, dumpsItems_singleton, scanItems, scanValue_dumpsStr h.1]
      rfl
    | cons t items =>
      have hlater : scanItems (n + 1) (dumpsItems ']' ((t :: items).map dumpsStr) ++ rest) =
          some ((t :: items).map .str, rest) :=
        ih h.2 (by simp) (by simpa using hfuel)
      have hskip : skipSpace (dumpsItems ']' ((t :: items).map dumpsStr) ++ rest) =
          dumpsItems ']' ((t :: items).map dumpsStr) ++ rest :=
        skipSpace_dumpsItems ']' (t.flatMap escapeChar ++ ['"']) (items.map dumpsStr) rest
      rw [List.map_cons, List.map_cons, dumpsItems_cons, ← List.map_cons, scanItems,
        scanValue_dumpsStr h.1]
      change (scanItems (n + 1) (skipSpace _)).bind _ = _
      rw [hskip, hlater]
      rfl

/-- How deep the scanner goes into the value. -/
def Field.depth : Field → ℕ
  | .strs items => items.length + 2
  | _ => 1

lemma length_dumpsStr_pos (s : PyStr) : 0 < (dumpsStr s).length := by simp [dumpsStr]

lemma length_dumpsItems (close : Char) (parts : List (List Char))
    (h : ∀ part ∈ parts, part ≠ []) :
    parts.length < (dumpsItems close parts).length := by
  induction parts with
  | nil => simp [dumpsItems]
  | cons part parts ih =>
    rw [List.forall_mem_cons] at h
    have hpart := List.length_pos_of_ne_nil h.1
    have hparts := ih h.2
    cases parts with
    | nil =>
      simp only [dumpsItems, List.length_append, List.length_singleton]
      omega
    | cons next parts =>
      simp only [dumpsItems, List.length_append, List.length_cons] at hparts ⊢
      omega

lemma Field.depth_le (f : Field) : f.depth ≤ f.dumps.length := by
  cases f with
  | str s => exact length_dumpsStr_pos s
  | null => decide
  | int z =>
    have hpos := List.length_pos_of_ne_nil (Nat.toDigits_ne_nil (n := z.natAbs) (b := 10))
    simp only [Field.depth, Field.dumps, dumpsInt]
    split
    · simp
    · exact hpos
  | strs items =>
    have hlength := length_dumpsItems ']' (items.map dumpsStr) fun part hpart => by
      obtain ⟨s, -, rfl⟩ := List.mem_map.mp hpart
      exact List.ne_nil_of_length_pos (length_dumpsStr_pos s)
    simp only [Field.depth, Field.dumps, List.length_cons, List.length_map] at hlength ⊢
    omega

/-- The text of an integer has the head of no other value. -/
lemma dumpsInt_eq (z : ℤ) : ∃ d digits, d.isDigit ∧
    (dumpsInt z = d :: digits ∨ dumpsInt z = '-' :: d :: digits) := by
  obtain ⟨d, digits, hdigits⟩ := List.exists_cons_of_ne_nil
    (Nat.toDigits_ne_nil (n := z.natAbs) (b := 10))
  have hd : d.isDigit := isDigit_toDigits z.natAbs d (by simp [hdigits])
  refine ⟨d, digits, hd, ?_⟩
  simp only [dumpsInt, hdigits]
  split
  · exact .inr rfl
  · exact .inl rfl

lemma scanLiteral_digit {d : Char} (h : d.isDigit) (rest : List Char) :
    scanLiteral (d :: rest) = none ∧ scanLiteral ('-' :: d :: rest) = none := by
  have hne : ∀ c : Char, c.isDigit = false → c ≠ d := by
    rintro c hc rfl
    simp [hc] at h
  simp [scanLiteral, literals, List.isPrefixOf, hne]

lemma scanValue_dumpsInt (z : ℤ) (fuel : ℕ) {rest : List Char} (hrest : Closes rest) :
    scanValue (fuel + 1) (dumpsInt z ++ rest) = some (.int z, rest) := by
  have hnumber := scanNumber_dumpsInt z hrest
  obtain ⟨d, digits, hd, h⟩ := dumpsInt_eq z
  have hne : ∀ c : Char, c.isDigit = false → d ≠ c := by
    rintro c hc rfl
    simp [hc] at hd
  have hliteral : scanLiteral (dumpsInt z ++ rest) = none := by
    obtain h | h := h
    · rw [h]
      exact (scanLiteral_digit hd _).1
    · rw [h]
      exact (scanLiteral_digit hd _).2
  rw [scanValue, hliteral, hnumber, Option.none_or]
  all_goals
    intro tail htail
    obtain h | h := h
    · rw [h] at htail
      exact hne _ (by decide) (List.cons.inj htail).1
    · rw [h] at htail
      exact absurd (List.cons.inj htail).1 (by decide)

lemma scanValue_dumps {f : Field} (h : f.Unpaired) {fuel : ℕ} (hfuel : f.depth ≤ fuel)
    {rest : List Char} (hrest : Closes rest) :
    scanValue fuel (f.dumps ++ rest) = some (f.value, rest) := by
  obtain ⟨n, rfl⟩ : ∃ n, fuel = n + 1 := by
    refine ⟨fuel - 1, ?_⟩
    cases f <;> simp only [Field.depth] at hfuel <;> omega
  cases f with
  | str s => exact scanValue_dumpsStr h n rest
  | null =>
    have hnull : Field.null.dumps ++ rest = 'n' :: 'u' :: 'l' :: 'l' :: rest := rfl
    rw [hnull, scanValue]
    · rfl
    all_goals exact fun _ htext => absurd (List.cons.inj htext).1 (by decide)
  | int z => exact scanValue_dumpsInt z n hrest
  | strs items =>
    have hitems : (Field.strs items).dumps ++ rest =
        '[' :: (dumpsItems ']' (items.map dumpsStr) ++ rest) := rfl
    cases items with
    | nil => rfl
    | cons s items =>
      have hskip : skipSpace (dumpsItems ']' ((s :: items).map dumpsStr) ++ rest) =
          dumpsItems ']' ((s :: items).map dumpsStr) ++ rest :=
        skipSpace_dumpsItems ']' (s.flatMap escapeChar ++ ['"']) (items.map dumpsStr) rest
      have hlength : (s :: items).length < n := by
        simp only [Field.depth] at hfuel
        omega
      have hscan := scanItems_dumps h (by simp) hlength rest
      have hhead : ∀ tail, dumpsItems ']' ((s :: items).map dumpsStr) ++ rest ≠ ']' :: tail := by
        intro tail htail
        cases items <;> exact absurd (List.cons.inj htail).1 (by decide)
      rw [hitems, scanValue, hskip]
      split
      · rename_i tail htail
        exact absurd htail (hhead tail)
      · rw [hscan]
        simp [Field.value]

/-! ## Objects -/

lemma dictOf_of_nodup {d : Dict PyStr} (h : (d.map Prod.fst).Nodup) : dictOf d = d := by
  induction d with
  | nil => rfl
  | cons entry d ih =>
    rw [List.map_cons, List.nodup_cons] at h
    rw [dictOf, if_neg h.1, ih h.2]

def fieldEntry (member : PyStr × Field) : PyStr × Value PyStr := (member.1, member.2.value)

lemma dumpsMember_append (key : PyStr) (f : Field) (rest : List Char) :
    dumpsMember (key, f) ++ rest =
      '"' :: (key.flatMap escapeChar ++ '"' :: ':' :: (f.dumps ++ rest)) := by
  simp [dumpsMember, dumpsStr]

/-- No text of a value starts with white space. -/
lemma skipSpace_dumps (f : Field) (rest : List Char) :
    skipSpace (f.dumps ++ rest) = f.dumps ++ rest := by
  cases f with
  | str s => rfl
  | null => rfl
  | strs items => rfl
  | int z =>
    obtain ⟨d, digits, hd, h⟩ := dumpsInt_eq z
    have hne : ∀ c : Char, c.isDigit = false → d ≠ c := by
      rintro c hc rfl
      simp [hc] at hd
    change skipSpace (dumpsInt z ++ rest) = dumpsInt z ++ rest
    obtain h | h := h
    · rw [h]
      simp [skipSpace, hne]
    · rw [h]
      simp [skipSpace]

lemma scanMembers_dumps {members : List (PyStr × Field)}
    (h : ∀ member ∈ members, Unpaired member.1 ∧ member.2.Unpaired) (hne : members ≠ [])
    {fuel : ℕ} (hfuel : (dumpsItems '}' (members.map dumpsMember)).length ≤ fuel)
    (rest : List Char) :
    scanMembers fuel (dumpsItems '}' (members.map dumpsMember) ++ rest) =
      some (members.map fieldEntry, rest) := by
  induction members generalizing fuel with
  | nil => exact absurd rfl hne
  | cons member members ih =>
    obtain ⟨key, f⟩ := member
    rw [List.forall_mem_cons] at h
    have hdepth := f.depth_le
    cases members with
    | nil =>
      obtain ⟨n, rfl⟩ : ∃ n, fuel = n + 1 := ⟨fuel - 1, by
        simp [dumpsItems] at hfuel
        omega⟩
      have hfield : f.depth ≤ n := by
        simp [dumpsItems, dumpsMember] at hfuel
        omega
      rw [List.map_singleton, dumpsItems_singleton, dumpsMember_append, scanMembers,
        scanString_dumps h.1.1]
      change (scanValue n (skipSpace _)).bind _ = _
      rw [skipSpace_dumps, scanValue_dumps h.1.2 hfield ⟨'}', rest, rfl, by simp⟩]
      rfl
    | cons next members =>
      obtain ⟨n, rfl⟩ : ∃ n, fuel = n + 1 := ⟨fuel - 1, by
        simp [dumpsItems] at hfuel
        omega⟩
      have hfield : f.depth ≤ n := by
        simp [dumpsItems, dumpsMember] at hfuel
        omega
      have hlength : (dumpsItems '}' ((next :: members).map dumpsMember)).length ≤ n := by
        simp [dumpsItems, dumpsMember] at hfuel ⊢
        omega
      have hlater := ih h.2 (by simp) hlength
      have hskip : skipSpace (dumpsItems '}' ((next :: members).map dumpsMember) ++ rest) =
          dumpsItems '}' ((next :: members).map dumpsMember) ++ rest :=
        skipSpace_dumpsItems '}' (next.1.flatMap escapeChar ++ ['"'] ++ ':' :: next.2.dumps)
          (members.map dumpsMember) rest
      rw [List.map_cons, List.map_cons, dumpsItems_cons, ← List.map_cons, dumpsMember_append,
        scanMembers, scanString_dumps h.1.1]
      change (scanValue n (skipSpace _)).bind _ = _
      rw [skipSpace_dumps, scanValue_dumps h.1.2 hfield ⟨',', _, rfl, by simp⟩]
      change (scanMembers n (skipSpace _)).bind _ = _
      rw [hskip, hlater]
      rfl

/-- An object that has each key once is read back. -/
theorem loads_dumps {members : List (PyStr × Field)}
    (h : ∀ member ∈ members, Unpaired member.1 ∧ member.2.Unpaired)
    (hkeys : (members.map Prod.fst).Nodup) :
    loads (dumps members) = some (.dict (members.map fieldEntry)) := by
  have hentries : ((members.map fieldEntry).map Prod.fst).Nodup := by
    rwa [List.map_map]
  rw [loads]
  change (scanValue _ (dumps members)).bind _ = _
  cases members with
  | nil => rfl
  | cons member members =>
    have htext : dumps (member :: members) =
        '{' :: (dumpsItems '}' ((member :: members).map dumpsMember) ++ []) := by
      simp [dumps]
    have hskip : skipSpace (dumpsItems '}' ((member :: members).map dumpsMember) ++ []) =
        dumpsItems '}' ((member :: members).map dumpsMember) ++ [] :=
      skipSpace_dumpsItems '}' (member.1.flatMap escapeChar ++ ['"'] ++ ':' :: member.2.dumps)
        (members.map dumpsMember) []
    have hhead : ∀ tail, dumpsItems '}' ((member :: members).map dumpsMember) ++ [] ≠
        '}' :: tail := by
      intro tail htail
      cases members <;> exact absurd (List.cons.inj htail).1 (by decide)
    have hscan := scanMembers_dumps h (by simp)
      (show (dumpsItems '}' ((member :: members).map dumpsMember)).length ≤
        (dumps (member :: members)).length by simp [dumps]) []
    rw [htext] at hscan ⊢
    rw [scanValue, hskip]
    split
    · rename_i tail htail
      exact absurd htail (hhead tail)
    · rw [hscan, Option.map_some, dictOf_of_nodup hentries]
      rfl

end Json
