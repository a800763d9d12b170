import GradidoBlockchain.Lib.Calendar

/-!
# Months of the civil calendar

Months are counted through, from the January of year zero.  `monthOfDay` is the
month of a day and `firstDay` the first day of a month; `firstDay_le_iff` turns
comparisons of days with first days into comparisons of months.
-/

namespace Calendar

/-- The number of a month that is given by its year and its month from 1 to 12. -/
def monthNumber (ym : ℤ × ℕ) : ℤ := ym.1 * 12 + ((ym.2 : ℤ) - 1)

/-- Year and month of the number of a month. -/
def yearMonth (m : ℤ) : ℤ × ℕ := (m / 12, (m % 12 + 1).toNat)

/-- A month is one from 1 to 12. -/
def IsMonth (ym : ℤ × ℕ) : Prop := 1 ≤ ym.2 ∧ ym.2 ≤ 12

/-- The number of the month of a day. -/
def monthOfDay (z : ℤ) : ℤ := monthNumber ((civilFromDays z).year, (civilFromDays z).month)

/-- The first day of a month. -/
def firstDay (m : ℤ) : ℤ := daysFromCivil ⟨(yearMonth m).1, (yearMonth m).2, 1⟩

theorem isMonth_yearMonth (m : ℤ) : IsMonth (yearMonth m) := by
  unfold IsMonth yearMonth
  dsimp only
  omega

@[simp] theorem monthNumber_yearMonth (m : ℤ) : monthNumber (yearMonth m) = m := by
  unfold monthNumber yearMonth
  dsimp only
  omega

theorem yearMonth_monthNumber {ym : ℤ × ℕ} (h : IsMonth ym) : yearMonth (monthNumber ym) = ym := by
  obtain ⟨y, n⟩ := ym
  unfold IsMonth at h
  dsimp only at h
  simp only [monthNumber, yearMonth, Prod.mk.injEq]
  omega

theorem monthNumber_injective {a b : ℤ × ℕ} (ha : IsMonth a) (hb : IsMonth b)
    (h : monthNumber a = monthNumber b) : a = b := by
  rw [← yearMonth_monthNumber ha, h, yearMonth_monthNumber hb]

/-- Months are compared by year, then by month. -/
theorem monthNumber_lt_iff {a b : ℤ × ℕ} (ha : IsMonth a) (hb : IsMonth b) :
    monthNumber a < monthNumber b ↔ a.1 < b.1 ∨ a.1 = b.1 ∧ a.2 < b.2 := by
  unfold IsMonth at ha hb
  unfold monthNumber
  omega

theorem isMonth_civilFromDays (z : ℤ) :
    IsMonth ((civilFromDays z).year, (civilFromDays z).month) :=
  ⟨(civilFromDays_bounds z).1, (civilFromDays_bounds z).2.1⟩

/-- A day of a year that is not its leap day is split into its year and its day. -/
theorem yearAndDay_eq (era century quad year day : ℤ) (hcentury : 0 ≤ century ∧ century ≤ 3)
    (hquad : 0 ≤ quad ∧ quad ≤ 24) (hyear : 0 ≤ year ∧ year ≤ 3) (hday : 0 ≤ day ∧ day ≤ 364) :
    yearAndDay (era * 146097 + (century * 36524 + (quad * 1461 + (year * 365 + day)))) =
      (400 * era + 100 * century + 4 * quad + year, day) := by
  have hdoe : (era * 146097 + (century * 36524 + (quad * 1461 + (year * 365 + day)))) % 146097 =
      century * 36524 + (quad * 1461 + (year * 365 + day)) := by omega
  have hera : (era * 146097 + (century * 36524 + (quad * 1461 + (year * 365 + day)))) / 146097 =
      era := by omega
  unfold yearAndDay
  rw [hdoe, hera]
  dsimp only
  have hc : (century * 36524 + (quad * 1461 + (year * 365 + day))) / 36524 = century := by omega
  rw [hc, min_eq_left hcentury.2]
  have hq : (century * 36524 + (quad * 1461 + (year * 365 + day)) - 36524 * century) / 1461 =
      quad := by omega
  have hdoq : (century * 36524 + (quad * 1461 + (year * 365 + day)) - 36524 * century) % 1461 =
      year * 365 + day := by omega
  rw [hq, hdoq]
  have hy : (year * 365 + day) / 365 = year := by omega
  rw [hy, min_eq_left hyear.2, Prod.mk.injEq]
  omega

/-- **The first day of a month** has the date it should have. -/
theorem civilFromDays_firstDay (m : ℤ) :
    civilFromDays (firstDay m) = ⟨(yearMonth m).1, (yearMonth m).2, 1⟩ := by
  have hmonth := isMonth_yearMonth m
  unfold firstDay
  generalize yearMonth m = ym at *
  obtain ⟨y, n⟩ := ym
  unfold IsMonth at hmonth
  dsimp only at hmonth ⊢
  obtain ⟨y', hy'⟩ : ∃ y', y' = if n ≤ 2 then y - 1 else y := ⟨_, rfl⟩
  obtain ⟨mp, hmp⟩ : ∃ mp : ℤ, mp = if n ≤ 2 then (n : ℤ) + 9 else n - 3 := ⟨_, rfl⟩
  have hmp0 : 0 ≤ mp ∧ mp ≤ 11 := by
    split_ifs at hmp <;> omega
  -- the year of an era is split into centuries, groups of four years and years
  have hdays : daysFromCivil ⟨y, n, 1⟩ + 719468 =
      y' / 400 * 146097 + (y' % 400 / 100 * 36524 + (y' % 400 % 100 / 4 * 1461 +
        (y' % 400 % 100 % 4 * 365 + (153 * mp + 2) / 5))) := by
    unfold daysFromCivil
    dsimp only
    rw [← hy', ← hmp]
    omega
  unfold civilFromDays
  rw [hdays, yearAndDay_eq _ _ _ _ _ (by omega) (by omega) (by omega) (by omega)]
  have hback : (5 * ((153 * mp + 2) / 5) + 2) / 153 = mp := by omega
  dsimp only
  rw [hback, YearMonthDay.eq_iff]
  dsimp only
  split_ifs at hy' hmp <;> split_ifs <;> omega

@[simp] theorem monthOfDay_firstDay (m : ℤ) : monthOfDay (firstDay m) = m := by
  unfold monthOfDay
  rw [civilFromDays_firstDay]
  exact monthNumber_yearMonth m

/-- Later days are in later months, or the same. -/
theorem monthOfDay_mono {a b : ℤ} (h : a ≤ b) : monthOfDay a ≤ monthOfDay b := by
  rcases h.lt_or_eq with hlt | rfl
  · have hlex := civilFromDays_strictMono hlt
    have ha := isMonth_civilFromDays a
    have hb := isMonth_civilFromDays b
    rw [YearMonthDay.lt_def] at hlex
    by_contra hlt
    have hback := (monthNumber_lt_iff hb ha).1 (Int.not_le.1 hlt)
    dsimp only at hback
    omega
  · exact Int.le_refl _

/-- **A day is not before the first day of a month** exactly when its month is not before it. -/
theorem firstDay_le_iff {m z : ℤ} : firstDay m ≤ z ↔ m ≤ monthOfDay z := by
  constructor
  · intro h
    have hmono := monthOfDay_mono h
    rwa [monthOfDay_firstDay] at hmono
  · intro h
    by_contra hlt
    have hlex := civilFromDays_strictMono (Int.not_le.1 hlt)
    have hbounds := civilFromDays_bounds z
    rw [civilFromDays_firstDay, YearMonthDay.lt_def] at hlex
    dsimp only at hlex
    have hmonth : monthOfDay z ≤ m := by
      have hmono := monthOfDay_mono (Int.not_le.1 hlt).le
      rwa [monthOfDay_firstDay] at hmono
    obtain rfl : m = monthOfDay z := by omega
    unfold monthOfDay at hlex
    rw [yearMonth_monthNumber (isMonth_civilFromDays z)] at hlex
    dsimp only at hlex
    omega

end Calendar
