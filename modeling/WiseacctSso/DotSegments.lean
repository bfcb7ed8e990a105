import WiseacctSso.UrlPath

/-!
# Dot segments of a redirect path

A configured redirect has its dot segments removed, also those that are percent-encoded. The
result is the path that the left-to-right rule gives, and removing again changes nothing.
-/
namespace WiseacctSso.DotSegments
open UrlPath

/-! ## Removal -/

/-- What is known of `str.lower`: a text of these ASCII characters comes out of just the texts
that spell it in either case. -/
def LowersAscii (lower : CodePoints → CodePoints) : Prop :=
  ∀ segment word, (∀ c ∈ word, c ∈ text ".%2e") →
    (lower segment = word ↔ asciiLower segment = word)

section removal
variable (lower : CodePoints → CodePoints)

def singleDots : List CodePoints := [text ".", text "%2e"]

def doubleDots : List CodePoints := [text "..", text ".%2e", text "%2e.", text "%2e%2e"]

/-- The body of the loop; a dot segment at the end leaves an empty segment. -/
def removeStep (result : List CodePoints) (segment : CodePoints) (isFinal : Bool) :
    List CodePoints :=
  let normalized := lower segment
  if normalized ∈ singleDots then
    if isFinal then result ++ [[]] else result
  else if normalized ∈ doubleDots then
    let popped := if 1 < result.length then result.dropLast else result
    if isFinal then popped ++ [[]] else popped
  else result ++ [segment]

def removeLoop (result : List CodePoints) : List CodePoints → List CodePoints
  | [] => result
  | segment :: rest => removeLoop (removeStep lower result segment rest.isEmpty) rest

/-- `_remove_url_dot_segments`. -/
def removeUrlDotSegments (path : CodePoints) : CodePoints :=
  let joined := [47].intercalate (removeLoop lower [] (path.splitOn 47))
  if joined = [] then [47] else joined

end removal

/-! ## The rule -/

/-- How many dots a segment spells, each one plain or percent-encoded in either case. -/
def countDots : CodePoints → Option ℕ
  | [] => some 0
  | 46 :: rest => (countDots rest).map (· + 1)
  | 37 :: 50 :: e :: rest => if e = 101 ∨ e = 69 then (countDots rest).map (· + 1) else none
  | _ => none

/-- One segment of the rule: a single dot is skipped, a double dot takes back the segment
before, of which the root has none. -/
def keepSegment (kept : List CodePoints) (segment : CodePoints) : List CodePoints :=
  if countDots segment = some 1 then kept
  else if countDots segment = some 2 then kept.dropLast
  else kept ++ [segment]

def isDotSegment (segment : CodePoints) : Bool :=
  countDots segment = some 1 || countDots segment = some 2

/-- What the rule keeps of the segments below the root. -/
def keptSegments (segments : List CodePoints) : List CodePoints :=
  segments.foldl keepSegment [] ++ if segments.getLast?.any isDotSegment then [[]] else []

/-! ## Spellings of dots -/

lemma countDots_zero {segment : CodePoints} : countDots segment = some 0 ↔ segment = [] := by
  constructor
  · intro h
    unfold countDots at h
    split at h
    · rfl
    · obtain ⟨n, -, hn⟩ := Option.map_eq_some_iff.mp h
      omega
    · split_ifs at h
      obtain ⟨n, -, hn⟩ := Option.map_eq_some_iff.mp h
      omega
    · cases h
  · rintro rfl
    rfl

lemma countDots_succ {segment : CodePoints} {n : ℕ} : countDots segment = some (n + 1) ↔
    (∃ rest, segment = 46 :: rest ∧ countDots rest = some n) ∨
      ∃ e rest, (e = 101 ∨ e = 69) ∧ segment = 37 :: 50 :: e :: rest ∧ countDots rest = some n := by
  constructor
  · intro h
    unfold countDots at h
    split at h
    · cases h
    · next rest =>
      obtain ⟨m, hm, hn⟩ := Option.map_eq_some_iff.mp h
      obtain rfl := Nat.succ.inj hn
      exact .inl ⟨rest, rfl, hm⟩
    · next e rest =>
      split_ifs at h with he
      obtain ⟨m, hm, hn⟩ := Option.map_eq_some_iff.mp h
      obtain rfl := Nat.succ.inj hn
      exact .inr ⟨e, rest, he, rfl, hm⟩
    · cases h
  · rintro (⟨rest, rfl, h⟩ | ⟨e, rest, he, rfl, h⟩)
    · simp [countDots, h]
    · simp [countDots, he, h]

lemma asciiLower_eq_nil {segment : CodePoints} : asciiLower segment = [] ↔ segment = [] := by
  cases segment <;> simp

lemma asciiLower_eq_cons {segment word : CodePoints} {c : ℕ} : asciiLower segment = c :: word ↔
    ∃ d rest, segment = d :: rest ∧ asciiLowerChar d = c ∧ asciiLower rest = word := by
  cases segment with
  | nil => simp
  | cons d rest => simp

/-- A character that is no letter has one spelling. -/
lemma asciiLowerChar_eq {c d : ℕ} (h : ¬ (97 ≤ c ∧ c ≤ 122) ∧ ¬ (65 ≤ c ∧ c ≤ 90)) :
    asciiLowerChar d = c ↔ d = c := by
  unfold asciiLowerChar
  split_ifs <;> omega

lemma asciiLowerChar_eq_e {d : ℕ} : asciiLowerChar d = 101 ↔ d = 101 ∨ d = 69 := by
  unfold asciiLowerChar
  split_ifs <;> omega

lemma asciiLower_mem_singleDots {segment : CodePoints} :
    asciiLower segment ∈ singleDots ↔ countDots segment = some 1 := by
  have hwords : singleDots = [[46], [37, 50, 101]] := by decide
  rw [hwords, countDots_succ]
  simp only [List.mem_cons, List.not_mem_nil, or_false, asciiLower_eq_cons, asciiLower_eq_nil,
    countDots_zero, asciiLowerChar_eq_e,
    asciiLowerChar_eq (show ¬ (97 ≤ 46 ∧ 46 ≤ 122) ∧ ¬ (65 ≤ 46 ∧ 46 ≤ 90) by omega),
    asciiLowerChar_eq (show ¬ (97 ≤ 37 ∧ 37 ≤ 122) ∧ ¬ (65 ≤ 37 ∧ 37 ≤ 90) by omega),
    asciiLowerChar_eq (show ¬ (97 ≤ 50 ∧ 50 ≤ 122) ∧ ¬ (65 ≤ 50 ∧ 50 ≤ 90) by omega)]
  grind

lemma mem_doubleDots {word : CodePoints} : word ∈ doubleDots ↔
    ∃ first second, first ∈ singleDots ∧ second ∈ singleDots ∧ word = first ++ second := by
  have hwords : doubleDots = singleDots.flatMap fun first => singleDots.map (first ++ ·) := by
    decide
  rw [hwords]
  simp only [List.mem_flatMap, List.mem_map]
  constructor
  · rintro ⟨first, hfirst, second, hsecond, rfl⟩
    exact ⟨first, second, hfirst, hsecond, rfl⟩
  · rintro ⟨first, second, hfirst, hsecond, rfl⟩
    exact ⟨first, hfirst, second, hsecond, rfl⟩

lemma countDots_append {first second : CodePoints} (h : countDots first = some 1) :
    countDots (first ++ second) = (countDots second).map (· + 1) := by
  rcases countDots_succ.mp h with ⟨rest, rfl, hrest⟩ | ⟨e, rest, he, rfl, hrest⟩
  · obtain rfl := countDots_zero.mp hrest
    rfl
  · obtain rfl := countDots_zero.mp hrest
    simp [countDots, he]

lemma asciiLower_mem_doubleDots {segment : CodePoints} :
    asciiLower segment ∈ doubleDots ↔ countDots segment = some 2 := by
  rw [mem_doubleDots]
  constructor
  · rintro ⟨first, second, hfirst, hsecond, hword⟩
    obtain ⟨a, b, rfl, rfl, rfl⟩ := List.map_eq_append_iff.mp hword
    rw [countDots_append (asciiLower_mem_singleDots.mp hfirst),
      asciiLower_mem_singleDots.mp hsecond]
    rfl
  · intro h
    rcases countDots_succ.mp h with ⟨rest, rfl, hrest⟩ | ⟨e, rest, he, rfl, hrest⟩
    · have hdot : asciiLower [46] ∈ singleDots := by decide
      exact ⟨_, _, hdot, asciiLower_mem_singleDots.mpr hrest, rfl⟩
    · have hdot : asciiLower [37, 50, e] ∈ singleDots := by
        rcases he with rfl | rfl <;> decide
      exact ⟨_, _, hdot, asciiLower_mem_singleDots.mpr hrest, rfl⟩

/-! ## The loop and the rule -/

section loop
variable {lower : CodePoints → CodePoints} (hlower : LowersAscii lower)

include hlower in
lemma lower_mem {segment : CodePoints} {words : List CodePoints}
    (hwords : ∀ word ∈ words, ∀ c ∈ word, c ∈ text ".%2e") :
    lower segment ∈ words ↔ asciiLower segment ∈ words := by
  constructor
  · intro h
    rwa [(hlower segment _ (hwords _ h)).mp rfl]
  · intro h
    rwa [(hlower segment _ (hwords _ h)).mpr rfl]

include hlower in
lemma lower_mem_singleDots {segment : CodePoints} :
    lower segment ∈ singleDots ↔ countDots segment = some 1 :=
  (lower_mem hlower (by decide)).trans asciiLower_mem_singleDots

include hlower in
lemma lower_mem_doubleDots {segment : CodePoints} :
    lower segment ∈ doubleDots ↔ countDots segment = some 2 :=
  (lower_mem hlower (by decide)).trans asciiLower_mem_doubleDots

include hlower in
/-- Below the leading empty segment, which is never taken back, the loop follows the rule. -/
lemma removeStep_root (kept : List CodePoints) (segment : CodePoints) (isFinal : Bool) :
    removeStep lower ([] :: kept) segment isFinal =
      [] :: (keepSegment kept segment ++ if isFinal && isDotSegment segment then [[]] else []) := by
  unfold removeStep keepSegment isDotSegment
  simp only [lower_mem_singleDots hlower, lower_mem_doubleDots hlower]
  by_cases hsingle : countDots segment = some 1
  · cases isFinal <;> simp [hsingle]
  · by_cases hdouble : countDots segment = some 2
    · cases kept with
      | nil => cases isFinal <;> simp [hdouble]
      | cons first kept => cases isFinal <;> simp [hdouble]
    · simp [hsingle, hdouble]

include hlower in
lemma removeLoop_root (kept segments : List CodePoints) :
    removeLoop lower ([] :: kept) segments =
      [] :: (segments.foldl keepSegment kept ++
        if segments.getLast?.any isDotSegment then [[]] else []) := by
  induction segments generalizing kept with
  | nil => simp [removeLoop]
  | cons segment rest ih =>
    rw [removeLoop, removeStep_root hlower]
    cases rest with
    | nil =>
      cases hdot : isDotSegment segment <;> simp [removeLoop, hdot]
    | cons next rest => simp [ih]

include hlower in
lemma removeStep_root_foldl (kept segments : List CodePoints) :
    segments.foldl (fun result segment => removeStep lower result segment false) ([] :: kept) =
      [] :: segments.foldl keepSegment kept := by
  induction segments generalizing kept with
  | nil => rfl
  | cons segment rest ih => simp [removeStep_root hlower, ih]

end loop

/-! ## What is kept -/

lemma mem_keepSegment {kept : List CodePoints} {segment s : CodePoints}
    (h : s ∈ keepSegment kept segment) : s ∈ kept ∨ s = segment ∧ isDotSegment s = false := by
  unfold keepSegment at h
  split_ifs at h with hsingle hdouble
  · exact .inl h
  · exact .inl (List.mem_of_mem_dropLast h)
  · rcases List.mem_append.mp h with h | h
    · exact .inl h
    · obtain rfl := List.mem_singleton.mp h
      exact .inr ⟨rfl, by simp [isDotSegment, hsingle, hdouble]⟩

lemma mem_foldl_keepSegment {kept segments : List CodePoints} {s : CodePoints}
    (h : s ∈ segments.foldl keepSegment kept) :
    s ∈ kept ∨ s ∈ segments ∧ isDotSegment s = false := by
  induction segments generalizing kept with
  | nil => exact .inl h
  | cons segment rest ih =>
    rcases ih h with hkept | ⟨hrest, hdot⟩
    · rcases mem_keepSegment hkept with hkept | ⟨rfl, hdot⟩
      · exact .inl hkept
      · exact .inr ⟨List.mem_cons_self, hdot⟩
    · exact .inr ⟨List.mem_cons_of_mem _ hrest, hdot⟩

lemma mem_keptSegments {segments : List CodePoints} {s : CodePoints}
    (h : s ∈ keptSegments segments) : (s ∈ segments ∨ s = []) ∧ isDotSegment s = false := by
  rcases List.mem_append.mp h with h | h
  · rcases mem_foldl_keepSegment h with h | ⟨hmem, hdot⟩
    · cases h
    · exact ⟨.inl hmem, hdot⟩
  · split_ifs at h
    · obtain rfl := List.mem_singleton.mp h
      exact ⟨.inr rfl, rfl⟩
    · cases h

lemma keptSegments_ne_nil {segments : List CodePoints} (h : segments ≠ []) :
    keptSegments segments ≠ [] := by
  obtain ⟨front, last, rfl⟩ := (List.eq_nil_or_concat' segments).resolve_left h
  by_cases hdot : isDotSegment last = true
  · simp [keptSegments, hdot]
  · simp only [isDotSegment, Bool.or_eq_true, decide_eq_true_eq, not_or] at hdot
    simp [keptSegments, List.foldl_append, keepSegment, hdot.1, hdot.2]

/-- Where no segment is a dot segment, all are kept. -/
lemma keptSegments_of_plain {segments : List CodePoints}
    (h : ∀ s ∈ segments, isDotSegment s = false) : keptSegments segments = segments := by
  have hfold : ∀ kept, segments.foldl keepSegment kept = kept ++ segments := by
    induction segments with
    | nil => simp
    | cons segment rest ih =>
      intro kept
      have hplain := h segment List.mem_cons_self
      simp only [isDotSegment, Bool.or_eq_false_iff, decide_eq_false_iff_not] at hplain
      rw [List.foldl_cons, ih fun s hs => h s (List.mem_cons_of_mem _ hs), keepSegment,
        if_neg hplain.1, if_neg hplain.2, List.append_assoc]
      rfl
  have hlast : segments.getLast?.any isDotSegment = false := by
    cases hlast : segments.getLast? with
    | none => rfl
    | some last => exact h last (List.mem_of_getLast? hlast)
  simp [keptSegments, hfold, hlast]

/-! ## The normal form -/

lemma splitOn_root (rest : CodePoints) : (47 :: rest).splitOn 47 = [] :: rest.splitOn 47 := by
  rw [List.splitOn_cons_eq_if_modifyHead]
  simp

lemma intercalate_root {segments : List CodePoints} (h : segments ≠ []) :
    [47].intercalate ([] :: segments) = 47 :: [47].intercalate segments := by
  cases segments with
  | nil => exact absurd rfl h
  | cons segment rest => simp [List.intercalate, List.intersperse]

section normal
variable {lower : CodePoints → CodePoints} (hlower : LowersAscii lower)

include hlower in
lemma removeUrlDotSegments_eq (rest : CodePoints) : removeUrlDotSegments lower (47 :: rest) =
    47 :: [47].intercalate (keptSegments (rest.splitOn 47)) := by
  have hne : rest.splitOn 47 ≠ [] := List.splitOn_ne_nil _ _
  have hempty : (rest.splitOn 47).isEmpty = false := by simp
  have hfirst : removeStep lower [] [] false = [[]] := by
    have hzero : countDots [] = some 0 := rfl
    simp [removeStep, lower_mem_singleDots hlower, lower_mem_doubleDots hlower, hzero]
  have hloop : removeLoop lower [] ((47 :: rest).splitOn 47) =
      [] :: keptSegments (rest.splitOn 47) := by
    rw [splitOn_root, removeLoop, hempty, hfirst, removeLoop_root hlower, keptSegments]
  rw [removeUrlDotSegments, hloop, intercalate_root (keptSegments_ne_nil hne)]
  exact if_neg (by simp)

lemma splitOn_kept (rest : CodePoints) :
    ([47].intercalate (keptSegments (rest.splitOn 47))).splitOn 47 =
      keptSegments (rest.splitOn 47) := by
  refine List.splitOn_intercalate 47 ?_ (keptSegments_ne_nil (List.splitOn_ne_nil _ _))
  intro s hs
  rcases (mem_keptSegments hs).1 with hmem | rfl
  · exact notMem_of_mem_splitOn hmem
  · simp

include hlower in
/-- A path from the root comes out as the rule says, without dot segments, and stays so; the
root is never taken back. -/
theorem removeUrlDotSegments_normal (rest : CodePoints) :
    removeUrlDotSegments lower (47 :: rest) =
        47 :: [47].intercalate (keptSegments (rest.splitOn 47)) ∧
      (∀ segment ∈ (removeUrlDotSegments lower (47 :: rest)).splitOn 47,
        isDotSegment segment = false) ∧
      removeUrlDotSegments lower (removeUrlDotSegments lower (47 :: rest)) =
        removeUrlDotSegments lower (47 :: rest) ∧
      ∀ front, front <+: (47 :: rest).splitOn 47 → front ≠ [] →
        (front.foldl (fun result segment => removeStep lower result segment false) []).head? =
          some [] := by
  have hkept : ∀ s ∈ keptSegments (rest.splitOn 47), isDotSegment s = false :=
    fun s hs => (mem_keptSegments hs).2
  refine ⟨removeUrlDotSegments_eq hlower rest, ?_, ?_, ?_⟩
  · rw [removeUrlDotSegments_eq hlower, splitOn_root, splitOn_kept]
    intro segment hsegment
    rcases List.mem_cons.mp hsegment with rfl | hsegment
    · rfl
    · exact hkept segment hsegment
  · rw [removeUrlDotSegments_eq hlower, removeUrlDotSegments_eq hlower, splitOn_kept,
      keptSegments_of_plain hkept]
  · intro front hfront hne
    rw [splitOn_root] at hfront
    obtain ⟨segment, front, rfl⟩ := List.exists_cons_of_ne_nil hne
    obtain ⟨rfl, -⟩ := List.cons_prefix_cons.mp hfront
    have hfirst : removeStep lower [] [] false = [[]] := by
      have hzero : countDots [] = some 0 := rfl
      simp [removeStep, lower_mem_singleDots hlower, lower_mem_doubleDots hlower, hzero]
    rw [List.foldl_cons, hfirst, removeStep_root_foldl hlower]
    rfl

end normal

lemma lowersAscii_asciiLower : LowersAscii asciiLower := fun _ _ _ => Iff.rfl

/-- Two dot segments in a row that would leave the root. -/
theorem removeUrlDotSegments_climbing :
    removeUrlDotSegments asciiLower (47 :: text "a/%2E./../b/.") = text "/b/" ∧
      ∀ segment ∈ (text "/b/").splitOn 47, isDotSegment segment = false := by
  obtain ⟨hrule, hplain, -, -⟩ :=
    removeUrlDotSegments_normal lowersAscii_asciiLower (text "a/%2E./../b/.")
  have hkept : 47 :: [47].intercalate (keptSegments ((text "a/%2E./../b/.").splitOn 47)) =
      text "/b/" := by decide +kernel
  have hresult := hrule.trans hkept
  exact ⟨hresult, hresult ▸ hplain⟩

end WiseacctSso.DotSegments
