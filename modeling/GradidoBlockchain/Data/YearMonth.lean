import GradidoBlockchain.Data.Timestamp
import GradidoBlockchain.Lib.Months

/-!
# Months and points in time

The conversions between a `Timepoint` and the `year_month` it lies in.  The
repository converts in two ways: `timepointAsYearMonth` treats the epoch as a
date that was never set, the iterators of an interval do not.
-/

namespace Gradido

/-- `timepointAsYearMonth`. -/
def timepointAsYearMonth (p : ℤ) : ℤ × ℕ :=
  let ymd := timepointAsYearMonthDay p
  (ymd.year, ymd.month)

/-- `DataTypeConverter::monthYearToTimepoint`: the first day of the month. -/
def monthYearToTimepoint (ym : ℤ × ℕ) : ℤ :=
  if ym.2 ≠ 0 ∧ ym.1 ≠ 0 then
    Calendar.daysFromCivil ⟨ym.1, ym.2, 1⟩ * (86400 * microsecondsPerSecond)
  else 0

/-- Year and month of `date::floor<date::days>`, the epoch included. -/
def yearMonthOf (p : ℤ) : ℤ × ℕ :=
  let ymd := Calendar.civilFromDays (floorDays p)
  (ymd.year, ymd.month)

/-- The number of the month of a time point. -/
def monthOf (p : ℤ) : ℤ := Calendar.monthNumber (yearMonthOf p)

theorem isMonth_yearMonthOf (p : ℤ) : Calendar.IsMonth (yearMonthOf p) :=
  Calendar.isMonth_civilFromDays _

theorem timepointAsYearMonth_of_ne_zero {p : ℤ} (hp : p ≠ 0) :
    timepointAsYearMonth p = yearMonthOf p := by
  simp only [timepointAsYearMonth, timepointAsYearMonthDay, if_neg hp, yearMonthOf]

theorem monthOf_mono {p q : ℤ} (h : p ≤ q) : monthOf p ≤ monthOf q :=
  Calendar.monthOfDay_mono (floorDays_mono h)

/-- The first day of a month, as a time point. -/
theorem monthYearToTimepoint_eq {ym : ℤ × ℕ} (hmonth : Calendar.IsMonth ym) (hyear : ym.1 ≠ 0) :
    monthYearToTimepoint ym =
      Calendar.firstDay (Calendar.monthNumber ym) * (86400 * microsecondsPerSecond) := by
  have hne : ym.2 ≠ 0 ∧ ym.1 ≠ 0 := ⟨Nat.pos_iff_ne_zero.1 hmonth.1, hyear⟩
  rw [monthYearToTimepoint, if_pos hne, Calendar.firstDay, Calendar.yearMonth_monthNumber hmonth]

/-- **A time point is not before the first day of a month** exactly when its month is not. -/
theorem monthYearToTimepoint_le_iff {ym : ℤ × ℕ} (hmonth : Calendar.IsMonth ym)
    (hyear : ym.1 ≠ 0) {p : ℤ} :
    monthYearToTimepoint ym ≤ p ↔ Calendar.monthNumber ym ≤ monthOf p := by
  rw [monthYearToTimepoint_eq hmonth hyear, monthOf]
  change _ ↔ _ ≤ Calendar.monthOfDay (floorDays p)
  rw [← Calendar.firstDay_le_iff, floorDays, Int.le_ediv_iff_mul_le (by decide)]

@[simp] theorem monthOf_monthYearToTimepoint {ym : ℤ × ℕ} (hmonth : Calendar.IsMonth ym)
    (hyear : ym.1 ≠ 0) : monthOf (monthYearToTimepoint ym) = Calendar.monthNumber ym := by
  rw [monthYearToTimepoint_eq hmonth hyear, monthOf]
  change Calendar.monthOfDay (floorDays _) = _
  rw [floorDays, Int.mul_ediv_cancel _ (by decide), Calendar.monthOfDay_firstDay]

end Gradido
