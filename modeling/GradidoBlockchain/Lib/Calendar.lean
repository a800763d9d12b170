import Mathlib.Data.Int.Basic
import Mathlib.Order.Lattice

/-!
# The civil calendar

The proleptic Gregorian calendar as a function from day numbers (day zero is
1970-01-01) to year, month and day of the month.  Years are counted from the
first of March, so that the leap day is the last day of its year, and a day is
split into eras of 400 years, centuries, groups of four years and years.

* `civilFromDays` is the date of a day;
* `civilFromDays_strictMono`: later days have later dates.
-/

/-- A calendar date; `⟨0, 0, 0⟩` is used as a date that was never set. -/
structure YearMonthDay where
  year : ℤ
  month : ℕ
  day : ℕ
deriving DecidableEq, Repr

namespace YearMonthDay

/-- Dates are compared by year, then month, then day. -/
def Before (a b : YearMonthDay) : Prop :=
  a.year < b.year ∨ a.year = b.year ∧ (a.month < b.month ∨ a.month = b.month ∧ a.day < b.day)

instance : LT YearMonthDay := ⟨Before⟩

theorem lt_def {a b : YearMonthDay} : a < b ↔
    a.year < b.year ∨ a.year = b.year ∧ (a.month < b.month ∨ a.month = b.month ∧ a.day < b.day) :=
  Iff.rfl

instance (a b : YearMonthDay) : Decidable (a < b) :=
  inferInstanceAs (Decidable (_ ∨ _ ∧ (_ ∨ _ ∧ _)))

theorem eq_iff {a b : YearMonthDay} :
    a = b ↔ a.year = b.year ∧ a.month = b.month ∧ a.day = b.day := by
  cases a
  cases b
  simp

end YearMonthDay

namespace Calendar

/-- The year, counted from the first of March of year zero, and the day of that year of a day
counted from the same origin: eras of 400 years, centuries, groups of four years, years. -/
def yearAndDay (z : ℤ) : ℤ × ℤ :=
  let era := z / 146097
  let doe := z % 146097
  let century := min (doe / 36524) 3
  let doc := doe - 36524 * century
  let quad := doc / 1461
  let doq := doc % 1461
  let yoq := min (doq / 365) 3
  (400 * era + 100 * century + 4 * quad + yoq, doq - 365 * yoq)

theorem yearAndDay_bounds (z : ℤ) : 0 ≤ (yearAndDay z).2 ∧ (yearAndDay z).2 ≤ 365 := by
  simp only [yearAndDay]
  omega

theorem yearAndDay_lex {a b : ℤ} (h : a < b) : (yearAndDay a).1 < (yearAndDay b).1 ∨
    (yearAndDay a).1 = (yearAndDay b).1 ∧ (yearAndDay a).2 < (yearAndDay b).2 := by
  simp only [yearAndDay]
  have hera : a / 146097 < b / 146097 ∨
      a / 146097 = b / 146097 ∧ a % 146097 < b % 146097 := by omega
  have ha := Int.emod_nonneg a (b := 146097) (by omega)
  have hb := Int.emod_nonneg b (b := 146097) (by omega)
  have ha' := Int.emod_lt_of_pos a (b := 146097) (by omega)
  have hb' := Int.emod_lt_of_pos b (b := 146097) (by omega)
  generalize a % 146097 = x at *
  generalize b % 146097 = y at *
  generalize a / 146097 = e at *
  generalize b / 146097 = f at *
  omega

/-- The date of a day, counted from 1970-01-01. -/
def civilFromDays (z : ℤ) : YearMonthDay :=
  let doy := (yearAndDay (z + 719468)).2
  let mp := (5 * doy + 2) / 153
  { year := (yearAndDay (z + 719468)).1 + (if mp < 10 then 0 else 1)
    month := (if mp < 10 then mp + 3 else mp - 9).toNat
    day := (doy - (153 * mp + 2) / 5 + 1).toNat }

/-- The day of a date, counted from 1970-01-01. -/
def daysFromCivil (date : YearMonthDay) : ℤ :=
  let y := if date.month ≤ 2 then date.year - 1 else date.year
  let mp : ℤ := if date.month ≤ 2 then date.month + 9 else date.month - 3
  let yoe := y % 400
  y / 400 * 146097 + (yoe * 365 + yoe / 4 - yoe / 100 + ((153 * mp + 2) / 5 + date.day - 1)) -
    719468

/-- A date has a month from 1 to 12 and a day from 1 to 31. -/
theorem civilFromDays_bounds (z : ℤ) :
    1 ≤ (civilFromDays z).month ∧ (civilFromDays z).month ≤ 12 ∧
      1 ≤ (civilFromDays z).day ∧ (civilFromDays z).day ≤ 31 := by
  have h := yearAndDay_bounds (z + 719468)
  simp only [civilFromDays]
  split_ifs <;> omega

/-- **Later days have later dates.** -/
theorem civilFromDays_strictMono {a b : ℤ} (h : a < b) : civilFromDays a < civilFromDays b := by
  have ha := yearAndDay_bounds (a + 719468)
  have hb := yearAndDay_bounds (b + 719468)
  have hlex := yearAndDay_lex (show a + 719468 < b + 719468 by omega)
  rw [YearMonthDay.lt_def]
  simp only [civilFromDays]
  generalize yearAndDay (a + 719468) = x at *
  generalize yearAndDay (b + 719468) = y at *
  split_ifs <;> omega

end Calendar
