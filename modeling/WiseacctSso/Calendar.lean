import Mathlib.Data.Nat.Find
import Mathlib.Tactic.Common
import Mathlib.Tactic.IntervalCases

/-!
# The Gregorian calendar

Days are numbered from the first day of year one on, with the present rules for all years. A
day has one date, and the date gives the number of the day back.
-/
namespace Calendar

/-! ## Years and months -/

def isLeap (year : ℕ) : Bool := year % 4 = 0 && (year % 100 ≠ 0 || year % 400 = 0)

def daysBeforeYear (year : ℕ) : ℕ :=
  365 * (year - 1) + (year - 1) / 4 - (year - 1) / 100 + (year - 1) / 400

def daysInMonth (year month : ℕ) : ℕ :=
  if month = 2 then if isLeap year then 29 else 28
  else if month ∈ [4, 6, 9, 11] then 30
  else 31

def daysBeforeMonth (year month : ℕ) : ℕ :=
  [0, 31, 59, 90, 120, 151, 181, 212, 243, 273, 304, 334].getD (month - 1) 365 +
    if 2 < month ∧ isLeap year then 1 else 0

/-- A date that is on the calendar. -/
structure IsDate (year month day : ℕ) : Prop where
  year_pos : 1 ≤ year
  month_pos : 1 ≤ month
  month_le : month ≤ 12
  day_pos : 1 ≤ day
  day_le : day ≤ daysInMonth year month

instance (year month day : ℕ) : Decidable (IsDate year month day) :=
  decidable_of_iff (1 ≤ year ∧ 1 ≤ month ∧ month ≤ 12 ∧ 1 ≤ day ∧ day ≤ daysInMonth year month)
    ⟨fun ⟨hyear, hmonth, hmonthLe, hday, hdayLe⟩ => ⟨hyear, hmonth, hmonthLe, hday, hdayLe⟩,
      fun h => ⟨h.year_pos, h.month_pos, h.month_le, h.day_pos, h.day_le⟩⟩

def ordinal (year month day : ℕ) : ℕ := daysBeforeYear year + daysBeforeMonth year month + day

/-- The number of the last day that `datetime` knows. -/
def maxOrdinal : ℕ := 3652059

/-! ## The date of a day -/

def yearOf (n : ℕ) : ℕ :=
  Nat.findGreatest (fun year => 1 ≤ year ∧ daysBeforeYear year < n) 9999

def monthOf (n : ℕ) : ℕ :=
  Nat.findGreatest (fun month => 1 ≤ month ∧
    daysBeforeYear (yearOf n) + daysBeforeMonth (yearOf n) month < n) 12

def dayOf (n : ℕ) : ℕ :=
  n - (daysBeforeYear (yearOf n) + daysBeforeMonth (yearOf n) (monthOf n))

lemma daysBeforeYear_succ {year : ℕ} (h : 1 ≤ year) :
    daysBeforeYear (year + 1) = daysBeforeYear year + if isLeap year then 366 else 365 := by
  unfold daysBeforeYear isLeap
  by_cases hfour : year % 4 = 0 <;> by_cases hhundred : year % 100 = 0 <;>
    by_cases hall : year % 400 = 0 <;> simp [hfour, hhundred, hall] <;> omega

lemma daysBeforeMonth_succ {year month : ℕ} (hpos : 1 ≤ month) (hle : month ≤ 12) :
    daysBeforeMonth year (month + 1) = daysBeforeMonth year month + daysInMonth year month := by
  unfold daysBeforeMonth daysInMonth
  cases isLeap year <;> interval_cases month <;> rfl

lemma daysBeforeMonth_end (year : ℕ) :
    daysBeforeMonth year 13 = if isLeap year then 366 else 365 := by
  unfold daysBeforeMonth
  cases isLeap year <;> rfl

/-- The greatest place up to a bound that stands before a day, and the next one does not. -/
lemma findGreatest_before (before : ℕ → ℕ) {first bound n : ℕ} (hfirst : first ≤ bound)
    (hbefore : before first < n) (hbound : n ≤ before (bound + 1)) :
    let place := Nat.findGreatest (fun k => first ≤ k ∧ before k < n) bound
    first ≤ place ∧ place ≤ bound ∧ before place < n ∧ n ≤ before (place + 1) := by
  intro place
  have hspec : first ≤ place ∧ before place < n :=
    Nat.findGreatest_spec (P := fun k => first ≤ k ∧ before k < n) hfirst ⟨le_rfl, hbefore⟩
  have hle : place ≤ bound := Nat.findGreatest_le _
  refine ⟨hspec.1, hle, hspec.2, ?_⟩
  by_cases hlast : place = bound
  · rw [hlast]
    exact hbound
  · by_contra hnext
    exact Nat.findGreatest_is_greatest (P := fun k => first ≤ k ∧ before k < n)
      (Nat.lt_succ_self place) (by omega) ⟨hspec.1.trans (Nat.le_succ _), not_le.mp hnext⟩

lemma yearOf_spec {n : ℕ} (hpos : 1 ≤ n) (hle : n ≤ maxOrdinal) :
    1 ≤ yearOf n ∧ yearOf n ≤ 9999 ∧ daysBeforeYear (yearOf n) < n ∧
      n ≤ daysBeforeYear (yearOf n + 1) :=
  findGreatest_before daysBeforeYear (by omega) hpos hle

lemma monthOf_spec {n : ℕ} (hpos : 1 ≤ n) (hle : n ≤ maxOrdinal) :
    1 ≤ monthOf n ∧ monthOf n ≤ 12 ∧
      daysBeforeYear (yearOf n) + daysBeforeMonth (yearOf n) (monthOf n) < n ∧
      n ≤ daysBeforeYear (yearOf n) + daysBeforeMonth (yearOf n) (monthOf n + 1) := by
  obtain ⟨hyear, -, hbefore, hafter⟩ := yearOf_spec hpos hle
  rw [daysBeforeYear_succ hyear, ← daysBeforeMonth_end] at hafter
  exact findGreatest_before (fun month => daysBeforeYear (yearOf n) +
    daysBeforeMonth (yearOf n) month) (by omega) hbefore hafter

theorem isDate_of_ordinal {n : ℕ} (hpos : 1 ≤ n) (hle : n ≤ maxOrdinal) :
    IsDate (yearOf n) (monthOf n) (dayOf n) := by
  obtain ⟨hyear, -, -, -⟩ := yearOf_spec hpos hle
  obtain ⟨hmonth, hmonthLe, hbefore, hafter⟩ := monthOf_spec hpos hle
  rw [daysBeforeMonth_succ hmonth hmonthLe] at hafter
  refine ⟨hyear, hmonth, hmonthLe, ?_, ?_⟩
  · unfold dayOf
    omega
  · unfold dayOf
    omega

/-- The date of a day gives the number of the day back. -/
theorem ordinal_dateOf {n : ℕ} (hpos : 1 ≤ n) (hle : n ≤ maxOrdinal) :
    ordinal (yearOf n) (monthOf n) (dayOf n) = n := by
  obtain ⟨-, -, hbefore, -⟩ := monthOf_spec hpos hle
  unfold ordinal dayOf
  omega

lemma daysBeforeYear_le {year : ℕ} (hyear : year ≤ 9999) :
    daysBeforeYear (year + 1) ≤ maxOrdinal := by
  unfold daysBeforeYear maxOrdinal
  omega

lemma days_le_year (year : ℕ) {month : ℕ} (hpos : 1 ≤ month) (hle : month ≤ 12) :
    daysBeforeMonth year month + daysInMonth year month ≤ if isLeap year then 366 else 365 := by
  unfold daysBeforeMonth daysInMonth
  cases isLeap year <;> interval_cases month <;> decide

/-- A date up to year 9999 has a number that `datetime` knows. -/
lemma ordinal_mem {year month day : ℕ} (h : IsDate year month day) (hyear : year ≤ 9999) :
    1 ≤ ordinal year month day ∧ ordinal year month day ≤ maxOrdinal := by
  have hday := h.day_le
  have hpos := h.day_pos
  have hmonths := days_le_year year h.month_pos h.month_le
  have hyears := daysBeforeYear_le hyear
  rw [daysBeforeYear_succ h.year_pos] at hyears
  unfold ordinal
  omega

end Calendar
