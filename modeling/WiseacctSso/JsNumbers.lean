import WiseacctSso.AdminPaging

/-!
# Numbers in the queries of the admin lists

Express reads the page and the page size with ECMAScript's `Number()`, FastAPI with
`_coerce_js_integer`. The two readings are compared through dialects of one grammar: a dialect
says what is white space, what is a digit, and whether underscores may stand between digits.
-/
open PythonText
namespace WiseacctSso.JsNumbers
open Json AdminPaging

def trim (isSpace : Char → Bool) (text : Text) : Text :=
  ((text.dropWhile isSpace).reverse.dropWhile isSpace).reverse

/-! ## `Number()` -/

/-- `WhiteSpace` and `LineTerminator`. -/
def isStrWhiteSpace (c : Char) : Bool :=
  (9 ≤ c.toNat && c.toNat ≤ 13) || (0x2000 ≤ c.toNat && c.toNat ≤ 0x200A) ||
    c.toNat ∈ [0x20, 0xA0, 0x1680, 0x2028, 0x2029, 0x202F, 0x205F, 0x3000, 0xFEFF]

/-- The value of a `NonDecimalIntegerLiteral` without its prefix, in lower case. -/
def nonDecimalInteger (radix : ℕ) (digits : Text) : Option ℕ :=
  if digits ≠ [] ∧ digits.all fun c => (asciiDigits.digitIn radix c).isSome then
    some (ofDigits radix (digits.filterMap (asciiDigits.digitIn radix)))
  else none

/-- `StringToNumber`. Both zeros are the same number here. -/
def number (text : Text) : PyFloat :=
  let literal := trim isStrWhiteSpace text
  if literal = [] then .finite 0
  else
    match radixOf (literal.map Char.toLower) with
    | some (radix, digits) =>
      match nonDecimalInteger radix digits with
      | some n => .ofDecimal false n
      | none => .nan
    | none =>
      match decimalNumber asciiDigits literal with
      | some (negative, q) => .ofDecimal negative q
      | none =>
        if unsigned literal = "Infinity".toList then .infinity (literal.head? = some '-') else .nan

/-- Both servers read the same integer, or none. -/
def ReadAlike (table : DigitTable) (text : Text) : Prop :=
  ∀ n : ℤ, coerceJsInteger table text = some n ↔ number text = .finite n

/-! ## Dialects -/

structure Dialect where
  isSpace : Char → Bool
  table : DigitTable
  underscores : Bool

namespace Dialect

variable (d : Dialect)

def prefixed (radix : ℕ) (digits : Text) : Option ℕ :=
  if '_' ∈ digits ∧ ¬ d.underscores then none else prefixedInt d.table radix digits

def read (text : Text) : Option ℤ :=
  let literal := trim d.isSpace text
  if literal = [] then some 0
  else
    match radixOf (literal.map Char.toLower) with
    | some (radix, digits) =>
      ((d.prefixed radix digits).bind fun n => PyFloat.ofInt n).map PyFloat.truncate
    | none =>
      match decimalNumber d.table literal with
      | none => none
      | some (negative, q) =>
        (finite (.ofDecimal negative q)).bind fun numeric =>
          if numeric.isInteger then some numeric.truncate else none

end Dialect

variable (table : DigitTable)

def python : Dialect := ⟨isSpace, table, true⟩

def ecmaScript : Dialect := ⟨isStrWhiteSpace, asciiDigits, false⟩

/-- Everything that either language allows. -/
def permissive : Dialect := ⟨fun c => isSpace c || isStrWhiteSpace c, table, true⟩

lemma prefixed_python : (python table).prefixed = prefixedInt table := by
  funext radix digits
  simp [Dialect.prefixed, python]

lemma coerceJsInteger_eq : coerceJsInteger table = (python table).read := by
  funext text
  unfold Dialect.read
  rw [prefixed_python]
  rfl

/-! ## Locality -/

section congr

variable {d e : Dialect}

/-- The two dialects take every character of the text for the same. -/
structure AgreeOn (d e : Dialect) (text : Text) : Prop where
  space : ∀ c ∈ text, d.isSpace c = e.isSpace c
  digit : ∀ c ∈ text, d.table.digit c = e.table.digit c
  underscores : '_' ∈ text → d.underscores = e.underscores

lemma AgreeOn.mono {text part : Text} (h : AgreeOn d e text) (hsub : part ⊆ text) :
    AgreeOn d e part where
  space c hc := h.space c (hsub hc)
  digit c hc := h.digit c (hsub hc)
  underscores hc := h.underscores (hsub hc)

lemma dropWhile_congr {α : Type*} {p q : α → Bool} {xs : List α} (h : ∀ x ∈ xs, p x = q x) :
    xs.dropWhile p = xs.dropWhile q := by
  induction xs with
  | nil => rfl
  | cons x xs ih =>
    rw [List.dropWhile_cons, List.dropWhile_cons, h x (by simp),
      ih fun y hy => h y (List.mem_cons_of_mem _ hy)]

lemma takeWhile_congr {α : Type*} {p q : α → Bool} {xs : List α} (h : ∀ x ∈ xs, p x = q x) :
    xs.takeWhile p = xs.takeWhile q := by
  induction xs with
  | nil => rfl
  | cons x xs ih =>
    rw [List.takeWhile_cons, List.takeWhile_cons, h x (by simp),
      ih fun y hy => h y (List.mem_cons_of_mem _ hy)]

lemma trim_subset (isSpace : Char → Bool) (text : Text) : trim isSpace text ⊆ text := by
  intro c hc
  have hc := (List.dropWhile_sublist _).subset (List.mem_reverse.mp hc)
  exact (List.dropWhile_sublist _).subset (List.mem_reverse.mp hc)

lemma trim_congr {text : Text} (h : ∀ c ∈ text, d.isSpace c = e.isSpace c) :
    trim d.isSpace text = trim e.isSpace text := by
  unfold trim
  rw [dropWhile_congr h, dropWhile_congr fun c hc => h c ?_]
  exact (List.dropWhile_sublist _).subset (List.mem_reverse.mp hc)

lemma toLower_cases (c : Char) :
    c.toLower = c ∨
      (65 ≤ c.toNat ∧ c.toNat ≤ 90) ∧ 97 ≤ c.toLower.toNat ∧ c.toLower.toNat ≤ 122 := by
  by_cases h : 65 ≤ c.toNat ∧ c.toNat ≤ 90
  · have hall : ∀ n < 128, 65 ≤ n ∧ n ≤ 90 →
        97 ≤ (Char.ofNat n).toLower.toNat ∧ (Char.ofNat n).toLower.toNat ≤ 122 := by decide
    have hc := hall c.toNat (by omega) h
    rw [Char.ofNat_toNat] at hc
    exact Or.inr ⟨h, hc⟩
  · left
    unfold Char.toLower
    split_ifs with hupper
    · exact absurd hupper h
    · rfl

lemma digit_of_lt_128 {c : Char} (h : c.toNat < 128) (s t : DigitTable) :
    s.digit c = t.digit c := by
  rw [DigitTable.digit, DigitTable.digit, if_pos h, if_pos h]

lemma digitIn_toLower_congr {radix : ℕ} {c : Char} (h : d.table.digit c = e.table.digit c) :
    d.table.digitIn radix c.toLower = e.table.digitIn radix c.toLower := by
  have hlower : d.table.digit c.toLower = e.table.digit c.toLower := by
    rcases toLower_cases c with hsame | ⟨-, -, hlt⟩
    · rw [hsame, h]
    · exact digit_of_lt_128 (by omega) _ _
  unfold DigitTable.digitIn
  rw [hlower]

lemma underscored_congr {radix : ℕ} {digits : Text} {afterUnderscore : Bool}
    (h : ∀ c ∈ digits, d.table.digitIn radix c = e.table.digitIn radix c) :
    underscored d.table radix afterUnderscore digits =
      underscored e.table radix afterUnderscore digits := by
  induction digits generalizing afterUnderscore with
  | nil => rfl
  | cons c rest ih =>
    have hrest : ∀ b, underscored d.table radix b rest = underscored e.table radix b rest :=
      fun b => ih fun x hx => h x (List.mem_cons_of_mem _ hx)
    simp only [underscored, h c (by simp), hrest]

lemma spanDigits_congr {text : Text} (h : ∀ c ∈ text, d.table.digit c = e.table.digit c) :
    spanDigits d.table text = spanDigits e.table text := by
  have hsome : ∀ c ∈ text, (d.table.digit c).isSome = (e.table.digit c).isSome :=
    fun c hc => by rw [h c hc]
  unfold spanDigits
  rw [takeWhile_congr hsome, dropWhile_congr hsome]
  congr 1
  apply List.filterMap_congr
  intro c hc
  exact h c ((List.takeWhile_sublist _).subset hc)

lemma unsigned_subset (text : Text) : unsigned text ⊆ text := by
  unfold unsigned
  split_ifs
  · exact List.tail_subset text
  · exact List.Subset.refl text

lemma spanDigits_subset (table : DigitTable) (text : Text) : (spanDigits table text).2 ⊆ text :=
  (List.dropWhile_sublist _).subset

lemma exponentOf_congr {text : Text} (h : ∀ c ∈ text, d.table.digit c = e.table.digit c) :
    exponentOf d.table text = exponentOf e.table text := by
  cases text with
  | nil => rfl
  | cons c rest =>
    have hspan : spanDigits d.table (unsigned rest) = spanDigits e.table (unsigned rest) :=
      spanDigits_congr fun x hx => h x (List.mem_cons_of_mem _ (unsigned_subset rest hx))
    simp only [exponentOf, hspan]

lemma decimalNumber_congr {text : Text} (h : ∀ c ∈ text, d.table.digit c = e.table.digit c) :
    decimalNumber d.table text = decimalNumber e.table text := by
  have hwhole : spanDigits d.table (unsigned text) = spanDigits e.table (unsigned text) :=
    spanDigits_congr fun x hx => h x (unsigned_subset text hx)
  have hsub : (spanDigits e.table (unsigned text)).2 ⊆ text :=
    List.Subset.trans (spanDigits_subset _ _) (unsigned_subset text)
  have htail : (spanDigits e.table (unsigned text)).2.tail ⊆ text :=
    List.Subset.trans (List.tail_subset _) hsub
  have hfraction := spanDigits_congr (d := d) (e := e) fun x hx => h x (htail hx)
  have hexponent := exponentOf_congr (d := d) (e := e) fun x hx => h x (hsub hx)
  have hexponent' := exponentOf_congr (d := d) (e := e) fun x hx =>
    h x (htail (spanDigits_subset e.table _ hx))
  unfold decimalNumber
  simp only [hwhole, hfraction]
  split_ifs <;> simp_all

lemma radixOf_subset {text digits : Text} {radix : ℕ} (h : radixOf text = some (radix, digits)) :
    digits ⊆ text := by
  unfold radixOf at h
  split at h <;> simp_all

lemma read_congr {text : Text} (h : AgreeOn d e text) : d.read text = e.read text := by
  have hliteral := h.mono (trim_subset e.isSpace text)
  have hprefixed : ∀ radix digits,
      radixOf ((trim e.isSpace text).map Char.toLower) = some (radix, digits) →
        d.prefixed radix digits = e.prefixed radix digits := by
    intro radix digits hradix
    have hdigits : ∀ c ∈ digits, ∃ c' ∈ trim e.isSpace text, c'.toLower = c :=
      fun c hc => List.mem_map.mp (radixOf_subset hradix hc)
    have hvalue : prefixedInt d.table radix digits = prefixedInt e.table radix digits := by
      unfold prefixedInt
      rw [underscored_congr]
      intro c hc
      obtain ⟨c', hc', rfl⟩ := hdigits c hc
      exact digitIn_toLower_congr (hliteral.digit c' hc')
    unfold Dialect.prefixed
    rw [hvalue]
    by_cases hmem : '_' ∈ digits
    · obtain ⟨c', hc', hlower⟩ := hdigits '_' hmem
      have hunderscore : c' = '_' := by
        rcases toLower_cases c' with hsame | hrange
        · rw [← hsame, hlower]
        · rw [hlower] at hrange
          exact absurd hrange.2 (by decide)
      rw [hliteral.underscores (hunderscore ▸ hc')]
    · simp [hmem]
  unfold Dialect.read
  rw [trim_congr h.space]
  dsimp only
  rw [decimalNumber_congr hliteral.digit]
  split
  · rfl
  · split
    · next radix digits hradix => rw [hprefixed radix digits hradix]
    · rfl

end congr

/-! ## What a number is spelled with -/

section alphabet

variable {d : Dialect}

def IsGraphic (c : Char) : Prop := 32 < c.toNat ∧ c.toNat < 127

/-- What a dialect has in a number. -/
def Dialect.Allows (d : Dialect) (c : Char) : Prop :=
  d.isSpace c = true ∨ (d.table.digit c).isSome ∨ (IsGraphic c ∧ (c = '_' → d.underscores = true))

lemma mem_spanDigits (table : DigitTable) {text : Text} {c : Char} (h : c ∈ text) :
    (table.digit c).isSome ∨ c ∈ (spanDigits table text).2 := by
  rw [← List.takeWhile_append_dropWhile (p := fun c => (table.digit c).isSome) (l := text)] at h
  rcases List.mem_append.mp h with h | h
  · exact Or.inl (List.mem_takeWhile_imp (p := fun c => (table.digit c).isSome) h)
  · exact Or.inr h

lemma mem_unsigned {text : Text} {c : Char} (h : c ∈ text) :
    IsGraphic c ∧ c ≠ '_' ∨ c ∈ unsigned text := by
  unfold unsigned
  split_ifs with hsign
  · cases text with
    | nil => simp at h
    | cons x rest =>
      rcases List.mem_cons.mp h with rfl | h
      · have hc : c = '-' ∨ c = '+' := by simpa using hsign
        rcases hc with rfl | rfl <;> exact Or.inl (by unfold IsGraphic; decide)
      · exact Or.inr h
  · exact Or.inr h

lemma mem_exponentOf {table : DigitTable} {text : Text} {e : ℤ} (h : exponentOf table text = some e)
    {c : Char} (hc : c ∈ text) : (table.digit c).isSome ∨ IsGraphic c ∧ c ≠ '_' := by
  cases text with
  | nil => simp at hc
  | cons x rest =>
    obtain ⟨hx, -, hrest⟩ := (Option.ite_none_right_eq_some.mp h).1
    have hafter : (spanDigits table (unsigned rest)).2 = [] := hrest
    rcases List.mem_cons.mp hc with rfl | hc
    · rcases hx with rfl | rfl <;> exact Or.inr (by unfold IsGraphic; decide)
    · rcases mem_unsigned hc with hgraphic | hc
      · exact Or.inr hgraphic
      · rcases mem_spanDigits table hc with hdigit | hc
        · exact Or.inl hdigit
        · simp [hafter] at hc

lemma mem_decimalNumber {table : DigitTable} {text : Text} {r : Bool × ℚ}
    (h : decimalNumber table text = some r) {c : Char} (hc : c ∈ text) :
    (table.digit c).isSome ∨ IsGraphic c ∧ c ≠ '_' := by
  rcases mem_unsigned hc with hgraphic | hc
  · exact Or.inr hgraphic
  rcases mem_spanDigits table hc with hdigit | hc
  · exact Or.inl hdigit
  unfold decimalNumber at h
  dsimp only at h
  split_ifs at h with hdot hnone hnone
  · obtain ⟨e, he, -⟩ := Option.map_eq_some_iff.mp h
    obtain ⟨tail, htail⟩ : ∃ tail, (spanDigits table (unsigned text)).2 = '.' :: tail := by
      cases hrest : (spanDigits table (unsigned text)).2 with
      | nil => simp [hrest] at hdot
      | cons x tail =>
        have hx : x = '.' := by simpa [hrest] using hdot
        exact ⟨tail, by rw [hx]⟩
    rw [htail] at hc he
    rcases List.mem_cons.mp hc with rfl | hc
    · exact Or.inr (by unfold IsGraphic; decide)
    · rcases mem_spanDigits table hc with hdigit | hc
      · exact Or.inl hdigit
      · exact mem_exponentOf he hc
  · obtain ⟨e, he, -⟩ := Option.map_eq_some_iff.mp h
    exact mem_exponentOf he hc

lemma mem_underscored {table : DigitTable} {radix : ℕ} {b : Bool} {digits : Text} {ds : List ℕ}
    (h : underscored table radix b digits = some ds) {c : Char} (hc : c ∈ digits) :
    (table.digitIn radix c).isSome ∨ c = '_' := by
  induction digits generalizing b ds with
  | nil => simp at hc
  | cons x rest ih =>
    unfold underscored at h
    split_ifs at h with hx hb
    · rcases List.mem_cons.mp hc with rfl | hc
      · exact Or.inr hx
      · exact ih h hc
    · obtain ⟨v, hv, hrest⟩ := Option.bind_eq_some_iff.mp h
      obtain ⟨vs, hvs, -⟩ := Option.map_eq_some_iff.mp hrest
      rcases List.mem_cons.mp hc with rfl | hc
      · exact Or.inl (by rw [hv]; rfl)
      · exact ih hvs hc

lemma digitIn_allowed {table : DigitTable} {radix : ℕ} {c : Char}
    (h : (table.digitIn radix c).isSome) : (table.digit c).isSome ∨ IsGraphic c ∧ c ≠ '_' := by
  unfold DigitTable.digitIn at h
  dsimp only at h
  split_ifs at h with hletter
  · have hge : 97 ≤ c.toNat := hletter.1
    have hle : c.toNat ≤ 102 := hletter.2
    have hne : c ≠ '_' := by
      rintro rfl
      exact absurd hge (by decide)
    exact Or.inr ⟨⟨by omega, by omega⟩, hne⟩
  · obtain ⟨v, hv⟩ := Option.isSome_iff_exists.mp h
    exact Or.inl (by rw [(Option.filter_eq_some_iff.mp hv).1]; rfl)

lemma allowed_of_toLower {table : DigitTable} {c : Char}
    (h : (table.digit c.toLower).isSome ∨ IsGraphic c.toLower ∧ c.toLower ≠ '_') :
    (table.digit c).isSome ∨ IsGraphic c ∧ c ≠ '_' := by
  rcases toLower_cases c with hsame | ⟨⟨hge, hle⟩, -⟩
  · rwa [hsame] at h
  · have hne : c ≠ '_' := by
      rintro rfl
      exact absurd hle (by decide)
    exact Or.inr ⟨⟨by omega, by omega⟩, hne⟩

lemma mem_radixOf {text digits : Text} {radix : ℕ} (h : radixOf text = some (radix, digits))
    {c : Char} (hc : c ∈ text) : c ∈ ['0', 'x', 'b', 'o'] ∨ c ∈ digits := by
  unfold radixOf at h
  split at h <;> simp_all <;> tauto

lemma mem_trim (isSpace : Char → Bool) {text : Text} {c : Char} (hc : c ∈ text) :
    isSpace c = true ∨ c ∈ trim isSpace text := by
  rw [← List.takeWhile_append_dropWhile (p := isSpace) (l := text)] at hc
  rcases List.mem_append.mp hc with hc | hc
  · exact Or.inl (List.mem_takeWhile_imp hc)
  rw [← List.mem_reverse, ← List.takeWhile_append_dropWhile (p := isSpace)
    (l := (text.dropWhile isSpace).reverse)] at hc
  rcases List.mem_append.mp hc with hc | hc
  · exact Or.inl (List.mem_takeWhile_imp hc)
  · exact Or.inr (List.mem_reverse.mpr hc)

lemma mem_prefixed {radix : ℕ} {digits : Text} {n : ℕ} (h : d.prefixed radix digits = some n)
    {c : Char} (hc : c ∈ digits) :
    (d.table.digitIn radix c).isSome ∨ c = '_' ∧ d.underscores = true := by
  unfold Dialect.prefixed prefixedInt at h
  split_ifs at h with hunderscore hempty
  obtain ⟨ds, hds, -⟩ := Option.map_eq_some_iff.mp h
  rcases mem_underscored hds hc with hdigit | rfl
  · exact Or.inl hdigit
  · have hallowed : d.underscores = true := by
      by_contra hnot
      exact hunderscore ⟨hc, hnot⟩
    exact Or.inr ⟨rfl, hallowed⟩

lemma allows_of {c : Char} (h : (d.table.digit c).isSome ∨ IsGraphic c ∧ c ≠ '_') :
    d.Allows c := by
  rcases h with h | ⟨h, hne⟩
  · exact Or.inr (Or.inl h)
  · exact Or.inr (Or.inr ⟨h, fun heq => absurd heq hne⟩)

/-- An integer is spelled with what its dialect allows. -/
theorem allows_of_read {text : Text} {n : ℤ} (h : d.read text = some n) {c : Char}
    (hc : c ∈ text) : d.Allows c := by
  rcases mem_trim d.isSpace hc with hspace | hc
  · exact Or.inl hspace
  unfold Dialect.read at h
  dsimp only at h
  split_ifs at h with hempty
  · simp [hempty] at hc
  split at h
  · next radix digits hradix =>
    obtain ⟨x, hx, -⟩ := Option.map_eq_some_iff.mp h
    obtain ⟨m, hm, -⟩ := Option.bind_eq_some_iff.mp hx
    rcases mem_radixOf hradix (List.mem_map_of_mem hc) with hradixMark | hdigit
    · apply allows_of
      apply allowed_of_toLower
      simp only [List.mem_cons, List.not_mem_nil, or_false] at hradixMark
      rcases hradixMark with hx | hx | hx | hx <;> rw [hx] <;>
        exact Or.inr (by unfold IsGraphic; decide)
    · rcases mem_prefixed hm hdigit with hdigit | ⟨hlower, hallowed⟩
      · exact allows_of (allowed_of_toLower (digitIn_allowed hdigit))
      · have hunderscore : c = '_' := by
          rcases toLower_cases c with hsame | hrange
          · rw [← hsame, hlower]
          · rw [hlower] at hrange
            exact absurd hrange.2 (by decide)
        subst hunderscore
        exact Or.inr (Or.inr ⟨by unfold IsGraphic; decide, fun _ => hallowed⟩)
  · split at h
    · simp at h
    · next hdecimal => exact allows_of (mem_decimalNumber hdecimal hc)

end alphabet

/-! ## The reference is a dialect -/

lemma roundHalfEven_intCast (z : ℤ) : roundHalfEven z = z := by
  simp [roundHalfEven]

/-- Rounding keeps an integer an integer. -/
lemma isInt_of_nearestDouble {n : ℕ} {v : ℚ} (h : nearestDouble n = some v) :
    ∃ z : ℤ, v = z := by
  unfold nearestDouble at h
  dsimp only at h
  split_ifs at h with hzero hlt hlt
  · exact ⟨0, by simpa using (Option.some.inj h).symm⟩
  · obtain rfl := Option.some.inj h
    unfold ulp
    rw [Int.log_natCast]
    rcases le_total 52 (Nat.log 2 n) with hlarge | hsmall
    · refine ⟨roundHalfEven (n / 2 ^ max ((Nat.log 2 n : ℤ) - 52) (-1074)) *
        2 ^ (Nat.log 2 n - 52), ?_⟩
      have hexp : max ((Nat.log 2 n : ℤ) - 52) (-1074) = ((Nat.log 2 n - 52 : ℕ) : ℤ) := by omega
      rw [hexp]
      push_cast
      rw [zpow_natCast]
    · refine ⟨n, ?_⟩
      have hexp : max ((Nat.log 2 n : ℤ) - 52) (-1074) = -((52 - Nat.log 2 n : ℕ) : ℤ) := by omega
      rw [hexp, zpow_neg, zpow_natCast, div_inv_eq_mul]
      have hcast : (n : ℚ) * 2 ^ (52 - Nat.log 2 n) =
          ((n * 2 ^ (52 - Nat.log 2 n) : ℤ) : ℚ) := by push_cast; rfl
      rw [hcast, roundHalfEven_intCast]
      push_cast
      rw [mul_assoc, mul_inv_cancel₀ (by positivity), mul_one]

lemma truncate_intCast (z : ℤ) : (PyFloat.finite z).truncate = z := by
  simp [PyFloat.truncate]

/-- `int` of a float that `is_integer`. -/
lemma integer_iff (x : PyFloat) (z : ℤ) :
    ((finite x).bind fun y => if y.isInteger then some y.truncate else none) = some z ↔
      x = .finite z := by
  cases x with
  | finite v =>
    simp only [finite, Option.bind_some, PyFloat.isInteger, decide_eq_true_eq,
      Option.ite_none_right_eq_some, Option.some.injEq, PyFloat.finite.injEq]
    constructor
    · rintro ⟨hden, hz⟩
      have hv : v = v.num := (Rat.coe_int_num_of_den_eq_one hden).symm
      rw [hv, truncate_intCast] at hz
      rw [hv, hz]
    · rintro rfl
      exact ⟨Rat.den_intCast z, truncate_intCast z⟩
  | infinity negative => simp [finite]
  | nan => simp [finite]

lemma truncate_ofInt_iff (n : ℕ) (z : ℤ) :
    (PyFloat.ofInt n).map PyFloat.truncate = some z ↔ PyFloat.ofDecimal false n = .finite z := by
  have habs : |((n : ℤ) : ℚ)| = n := by simp
  unfold PyFloat.ofInt PyFloat.ofDecimal
  rw [habs]
  cases hv : nearestDouble (n : ℚ) with
  | none => simp
  | some v =>
    obtain ⟨z', rfl⟩ := isInt_of_nearestDouble hv
    have hneg : ¬ (n : ℤ) < 0 := by omega
    simp [hneg, truncate_intCast]

lemma underscored_of_not_mem {digits : Text} {radix : ℕ} (h : '_' ∉ digits) :
    underscored table radix false digits =
      if digits.all fun c => (table.digitIn radix c).isSome then
        some (digits.filterMap (table.digitIn radix))
      else none := by
  induction digits with
  | nil => rfl
  | cons c rest ih =>
    have hc : c ≠ '_' := fun heq => h (heq ▸ List.mem_cons_self)
    have hrest := ih fun hmem => h (List.mem_cons_of_mem _ hmem)
    rw [underscored, if_neg hc, hrest, List.all_cons]
    cases hdigit : table.digitIn radix c with
    | none => simp
    | some v =>
      rw [List.filterMap_cons_some hdigit]
      by_cases hall : rest.all (fun c => (table.digitIn radix c).isSome) = true <;> simp [hall]

lemma prefixed_ecmaScript : ecmaScript.prefixed = nonDecimalInteger := by
  funext radix digits
  unfold Dialect.prefixed nonDecimalInteger prefixedInt
  by_cases hmem : '_' ∈ digits
  · have hnone : asciiDigits.digitIn radix '_' = none := rfl
    have hall : ¬ digits.all (fun c => (asciiDigits.digitIn radix c).isSome) = true := by
      intro hall
      have := List.all_eq_true.mp hall '_' hmem
      simp [hnone] at this
    rw [if_pos ⟨hmem, by simp [ecmaScript]⟩, if_neg fun h => hall h.2]
  · have htable : ecmaScript.table = asciiDigits := rfl
    rw [if_neg fun h => hmem h.1, htable, underscored_of_not_mem _ hmem]
    split_ifs <;> simp_all

/-- `Number()` is an integer where the dialect of ECMAScript reads it. -/
lemma number_eq_iff (text : Text) (z : ℤ) :
    number text = .finite z ↔ ecmaScript.read text = some z := by
  unfold number Dialect.read
  dsimp only
  rw [prefixed_ecmaScript]
  have hspace : ecmaScript.isSpace = isStrWhiteSpace := rfl
  have htable : ecmaScript.table = asciiDigits := rfl
  rw [hspace, htable]
  by_cases hempty : trim isStrWhiteSpace text = []
  · rw [if_pos hempty, if_pos hempty]
    simp [eq_comm]
  · rw [if_neg hempty, if_neg hempty]
    cases radixOf ((trim isStrWhiteSpace text).map Char.toLower) with
    | some literal =>
      obtain ⟨radix, digits⟩ := literal
      dsimp only
      cases nonDecimalInteger radix digits with
      | none => simp
      | some n => exact (truncate_ofInt_iff n z).symm
    | none =>
      dsimp only
      cases decimalNumber asciiDigits (trim isStrWhiteSpace text) with
      | none =>
        dsimp only
        split_ifs <;> simp
      | some r => exact (integer_iff _ z).symm

/-! ## Where the two servers agree -/

/-- `U+FEFF`, white space in ECMAScript alone. -/
def byteOrderMark : Char := Char.ofNat 0xFEFF

/-- Both languages take the character for the same. -/
def SameMeaning (c : Char) : Prop :=
  isSpace c = isStrWhiteSpace c ∧ table.digit c = asciiDigits.digit c ∧ c ≠ '_'

instance : DecidablePred (SameMeaning table) := fun _ => inferInstanceAs (Decidable (_ ∧ _ ∧ _))

/-- A number, were everything allowed, with what only one of the two languages allows. -/
def Misread (text : Text) : Prop :=
  (permissive table).read text ≠ none ∧
    ((byteOrderMark ∈ text ∧ ∀ c ∈ text, c = byteOrderMark ∨ SameMeaning table c) ∨
      (byteOrderMark ∉ text ∧ ∃ c ∈ text, ¬ SameMeaning table c))

section agree

variable {table} (hspace : ∀ c, isStrWhiteSpace c = true → table.decimal c = none)

lemma isSpace_or {c : Char} (h : isStrWhiteSpace c = true) :
    isSpace c = true ∨ c = byteOrderMark := by
  have hcode : isSpaceCode c.toNat = true ∨ c.toNat = 0xFEFF := by
    simp only [isStrWhiteSpace, isSpaceCode, Bool.or_eq_true, Bool.and_eq_true, decide_eq_true_eq,
      List.mem_cons, List.not_mem_nil, or_false] at h ⊢
    omega
  rcases hcode with hcode | hcode
  · exact Or.inl hcode
  · right
    rw [← Char.ofNat_toNat c, hcode, byteOrderMark]

lemma isDigit_range {c : Char} (h : c.isDigit = true) : 48 ≤ c.toNat ∧ c.toNat ≤ 57 := by
  rw [Char.isDigit, Bool.and_eq_true, decide_eq_true_eq, decide_eq_true_eq] at h
  exact h

lemma not_digit_of_space {c : Char} (h : isStrWhiteSpace c = true) :
    asciiDigits.digit c = none := by
  unfold DigitTable.digit
  split_ifs with hlt hdigit
  · exfalso
    have hge : 48 ≤ c.toNat ∧ c.toNat ≤ 57 := isDigit_range hdigit
    simp only [isStrWhiteSpace, Bool.or_eq_true, Bool.and_eq_true, decide_eq_true_eq,
      List.mem_cons, List.not_mem_nil, or_false] at h
    omega
  · rfl
  · rfl

include hspace in
lemma digit_of_space {c : Char} (h : isStrWhiteSpace c = true) :
    table.digit c = asciiDigits.digit c := by
  by_cases hlt : c.toNat < 128
  · exact digit_of_lt_128 hlt _ _
  · rw [not_digit_of_space h, DigitTable.digit, if_neg hlt, hspace c h]

lemma sameMeaning_of_graphic {c : Char} (h : IsGraphic c) (hne : c ≠ '_') :
    SameMeaning table c := by
  obtain ⟨hlow, hhigh⟩ := h
  have hspace : isSpace c = isStrWhiteSpace c := by
    rw [Bool.eq_iff_iff]
    simp only [isSpace, isStrWhiteSpace, isSpaceCode, Bool.or_eq_true, Bool.and_eq_true,
      decide_eq_true_eq, List.mem_cons, List.not_mem_nil, or_false]
    omega
  exact ⟨hspace, digit_of_lt_128 (by omega) _ _, hne⟩

include hspace in
/-- ECMAScript has nothing in numbers that Python takes for something else, except the byte order
mark. -/
lemma sameMeaning_of_allows {c : Char} (h : ecmaScript.Allows c) (hc : c ≠ byteOrderMark) :
    SameMeaning table c := by
  rcases h with h | h | ⟨hgraphic, h⟩
  · have hpython : isSpace c = true := (isSpace_or h).resolve_right hc
    have hwhite : isStrWhiteSpace c = true := h
    refine ⟨by rw [hpython, hwhite], digit_of_space hspace h, ?_⟩
    rintro rfl
    exact absurd hwhite (by decide)
  · have hdigit : c.isDigit = true := by
      have hsome : (asciiDigits.digit c).isSome := h
      unfold DigitTable.digit at hsome
      split_ifs at hsome with hlt hdigit
      · exact hdigit
      · simp at hsome
      · simp [asciiDigits] at hsome
    have hrange := isDigit_range hdigit
    apply sameMeaning_of_graphic ⟨by omega, by omega⟩
    rintro rfl
    exact absurd hdigit (by decide)
  · exact sameMeaning_of_graphic hgraphic fun heq => absurd (h heq) (by decide)

include hspace in
/-- Python has no byte order mark in numbers. -/
lemma not_allows_byteOrderMark : ¬ (python table).Allows byteOrderMark := by
  have hdigit : table.digit byteOrderMark = none := by
    rw [digit_of_space hspace (by decide)]
    rfl
  rintro (h | h | ⟨⟨-, h⟩, -⟩)
  · have hspace : isSpace byteOrderMark = true := h
    exact absurd hspace (by decide)
  · have hsome : (table.digit byteOrderMark).isSome := h
    simp [hdigit] at hsome
  · exact absurd h (by decide)

lemma not_sameMeaning_byteOrderMark : ¬ SameMeaning table byteOrderMark := by
  rintro ⟨h, -⟩
  exact absurd h (by decide)

lemma agreeOn_of_sameMeaning {text : Text} (h : ∀ c ∈ text, SameMeaning table c) :
    AgreeOn (python table) ecmaScript text where
  space c hc := (h c hc).1
  digit c hc := (h c hc).2.1
  underscores hc := absurd rfl (h _ hc).2.2

lemma agreeOn_python {text : Text} (h : byteOrderMark ∉ text) :
    AgreeOn (permissive table) (python table) text where
  space c hc := by
    have himp : isStrWhiteSpace c = true → isSpace c = true := fun hwhite =>
      (isSpace_or hwhite).resolve_right fun heq => h (heq ▸ hc)
    cases hwhite : isStrWhiteSpace c with
    | false => simp [permissive, python, hwhite]
    | true => simp [permissive, python, himp hwhite]
  digit c hc := rfl
  underscores hc := rfl

include hspace in
lemma agreeOn_ecmaScript {text : Text}
    (h : ∀ c ∈ text, c = byteOrderMark ∨ SameMeaning table c) :
    AgreeOn (permissive table) ecmaScript text where
  space c hc := by
    rcases h c hc with rfl | hsame
    · exact of_decide_eq_true rfl
    · simp [permissive, ecmaScript, hsame.1]
  digit c hc := by
    rcases h c hc with rfl | hsame
    · exact digit_of_space hspace (by decide)
    · exact hsame.2.1
  underscores hc := by
    rcases h _ hc with heq | hsame
    · exact absurd heq (by decide)
    · exact absurd rfl hsame.2.2

end agree

/-- The two servers read the same integer, if any, from every text that is not misread. -/
theorem readAlike_iff (hspace : ∀ c, isStrWhiteSpace c = true → table.decimal c = none)
    (text : Text) : ReadAlike table text ↔ ¬ Misread table text := by
  have hreads : ReadAlike table text ↔ (python table).read text = ecmaScript.read text := by
    unfold ReadAlike
    rw [coerceJsInteger_eq]
    simp only [number_eq_iff]
    exact Option.ext_iff.symm
  rw [hreads]
  by_cases hall : ∀ c ∈ text, SameMeaning table c
  · have hmark : byteOrderMark ∉ text := fun h => not_sameMeaning_byteOrderMark (hall _ h)
    have hmisread : ¬ Misread table text := by
      rintro ⟨-, ⟨h, -⟩ | ⟨-, c, hc, h⟩⟩
      · exact hmark h
      · exact h (hall c hc)
    exact iff_of_true (read_congr (agreeOn_of_sameMeaning hall)) hmisread
  obtain ⟨odd, hodd, hmeaning⟩ : ∃ c ∈ text, ¬ SameMeaning table c := by simpa using hall
  have hpython : byteOrderMark ∈ text → (python table).read text = none := by
    intro hmark
    rw [Option.eq_none_iff_forall_ne_some]
    exact fun n h => not_allows_byteOrderMark hspace (allows_of_read h hmark)
  have hecma : (∃ c ∈ text, c ≠ byteOrderMark ∧ ¬ SameMeaning table c) →
      ecmaScript.read text = none := by
    rintro ⟨c, hc, hne, hnot⟩
    rw [Option.eq_none_iff_forall_ne_some]
    exact fun n h => hnot (sameMeaning_of_allows hspace (allows_of_read h hc) hne)
  by_cases hmark : byteOrderMark ∈ text
  · by_cases honly : ∀ c ∈ text, c = byteOrderMark ∨ SameMeaning table c
    · have hmisread : Misread table text ↔ (permissive table).read text ≠ none :=
        and_iff_left (Or.inl ⟨hmark, honly⟩)
      rw [hpython hmark, ← read_congr (agreeOn_ecmaScript hspace honly), hmisread, not_not, eq_comm]
    · have hother : ∃ c ∈ text, c ≠ byteOrderMark ∧ ¬ SameMeaning table c := by
        simpa [not_or] using honly
      have hmisread : ¬ Misread table text := by
        rintro ⟨-, ⟨-, h⟩ | ⟨h, -⟩⟩
        · exact honly h
        · exact h hmark
      exact iff_of_true (by rw [hpython hmark, hecma hother]) hmisread
  · have hne : odd ≠ byteOrderMark := fun heq => hmark (heq ▸ hodd)
    have hmisread : Misread table text ↔ (permissive table).read text ≠ none :=
      and_iff_left (Or.inr ⟨hmark, odd, hodd, hmeaning⟩)
    rw [hecma ⟨odd, hodd, hne, hmeaning⟩, ← read_congr (agreeOn_python hmark), hmisread, not_not]

theorem exponentPage_readAlike : ReadAlike asciiDigits [' ', '2', 'e', '1', '\n'] := by
  apply (readAlike_iff asciiDigits (fun _ _ => rfl) _).mpr
  have hall : ∀ c ∈ [' ', '2', 'e', '1', '\n'], SameMeaning asciiDigits c :=
    List.forall_iff_forall_mem.mp (by decide)
  rintro ⟨-, ⟨hmark, -⟩ | ⟨-, c, hc, hodd⟩⟩
  · exact not_sameMeaning_byteOrderMark (hall _ hmark)
  · exact hodd (hall c hc)

/-- FastAPI reads sixteen, Express nothing. -/
theorem underscoredPage_misread : ¬ ∀ text, ReadAlike asciiDigits text := by
  intro h
  have hpython : coerceJsInteger asciiDigits "0x1_0".toList = some 16 := by decide +kernel
  have hnumber := (h "0x1_0".toList 16).mp hpython
  have hread := (number_eq_iff "0x1_0".toList 16).mp hnumber
  exact absurd hread (by decide)

/-! ## The list routes -/

/-- `z.coerce.number().int()`. -/
def expressInteger (text : Text) : Option ℤ :=
  match number text with
  | .finite v => if v.den = 1 then some v.num else none
  | _ => none

/-- The two fields of `listUsersQuerySchema`. -/
def expressPaging (page pageSize : Option Text) : Option Paging := do
  let page ← match page with
    | none => some 1
    | some text => (expressInteger text).filter (1 ≤ ·)
  let pageSize ← match pageSize with
    | none => some 25
    | some text => (expressInteger text).filter fun n => 1 ≤ n ∧ n ≤ 100
  pure ⟨page, pageSize⟩

lemma expressInteger_eq_some_iff (text : Text) (n : ℤ) :
    expressInteger text = some n ↔ number text = .finite n := by
  unfold expressInteger
  cases number text with
  | finite v =>
    simp only [Option.ite_none_right_eq_some, Option.some.injEq, PyFloat.finite.injEq]
    constructor
    · rintro ⟨hden, rfl⟩
      exact (Rat.coe_int_num_of_den_eq_one hden).symm
    · rintro rfl
      exact ⟨Rat.den_intCast n, Rat.num_intCast n⟩
  | infinity negative => simp
  | nan => simp

/-- The list routes of both servers accept the same pages of the texts that are not misread. -/
theorem readPaging_eq (hspace : ∀ c, isStrWhiteSpace c = true → table.decimal c = none)
    {page pageSize : Option Text} (hpage : ∀ text ∈ page, ¬ Misread table text)
    (hsize : ∀ text ∈ pageSize, ¬ Misread table text) :
    readPaging table page pageSize = expressPaging page pageSize := by
  have hread : ∀ text, ¬ Misread table text →
      coerceJsInteger table text = expressInteger text := by
    intro text h
    ext n
    rw [expressInteger_eq_some_iff]
    exact (readAlike_iff table hspace text).mpr h n
  unfold readPaging expressPaging
  cases page with
  | none =>
    cases pageSize with
    | none => rfl
    | some size => simp only [hread size (hsize size rfl)]
  | some text =>
    cases pageSize with
    | none => simp only [hread text (hpage text rfl)]
    | some size => simp only [hread text (hpage text rfl), hread size (hsize size rfl)]

end WiseacctSso.JsNumbers
