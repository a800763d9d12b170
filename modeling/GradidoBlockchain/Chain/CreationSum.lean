import GradidoBlockchain.Chain.CreationLimit
import GradidoBlockchain.Index.Interval

/-!
# The sum of three months

`V01_ThreeMonthsAlgoRole` adds up what an account was created in the month of a
date and in the two months before it.  It searches from the first day of the
first of these months to the first day of the last one, and then looks at year
and month of what it found.  `runAdd_threeMonthsAlgo_iff` says which creations
are missed that way, which are counted in addition, and that the sum is right
exactly when they come to the same amount.
-/

namespace Gradido

open Checked ConfirmTransaction CalculateCreationSum TransactionsIndex

/-! ### Creations of three months -/

/-- The amount of a creation; zero for every other transaction. -/
def creationAmount (tx : ConfirmedTransaction) : ℤ :=
  match tx.body.specific with
  | .creation c => c.recipient.amount
  | _ => 0

/-- The amount of all creations with a property. -/
def creationTotal (h : List ConfirmedTransaction) (P : ConfirmedTransaction → Prop)
    [DecidablePred P] : ℤ :=
  (h.map (fun tx => if P tx then creationAmount tx else 0)).sum

/-- The sum over a part of a list. -/
theorem sum_map_filter {α : Type} (P : α → Prop) [DecidablePred P] (f : α → ℤ) (l : List α) :
    ((l.filter (fun a => decide (P a))).map f).sum =
      (l.map (fun a => if P a then f a else 0)).sum := by
  induction l with
  | nil => rfl
  | cons a l ih =>
    rw [List.map_cons, List.sum_cons, ← ih]
    by_cases ha : P a
    · simp [ha]
    · simp [ha]

/-- A creation that should count: for the account, up to the number, and before the date in its
month or one of the two months before it. -/
@[mk_iff]
structure DueCreation (publicKey : ℕ) (date : ℤ) (nrMax : ℕ) (tx : ConfirmedTransaction) :
    Prop where
  recipient : ∃ c ∈ tx.body.getCreation, c.recipient.publicKey = publicKey
  nr : tx.id ≤ nrMax
  before : tx.confirmedAt.getAsTimepoint < date
  months : monthOf date - 2 ≤ monthOf tx.confirmedAt.getAsTimepoint

/-- The days of the three months that do not count: those of the month of the date after its first
day, for a date in January those of December, and for a date in the first month of the epoch all
days. -/
def MissedDay (date confirmedAt : ℤ) : Prop :=
  (monthOf confirmedAt = monthOf date ∧ (calendarDay confirmedAt).day ≠ 1) ∨
    ((yearMonthOf date).2 = 1 ∧ monthOf confirmedAt = monthOf date - 1) ∨
    monthOf date = monthOf 0

/-- A creation that counts: it has a balance of the account, and its day is not missed. -/
@[mk_iff]
structure CountedCreation (publicKey : ℕ) (date : ℤ) (nrMax : ℕ) (tx : ConfirmedTransaction) :
    Prop where
  creation : tx.body.transactionType = .creation
  entry : ∃ b ∈ tx.accountBalances, b.publicKey = publicKey
  nr : nrMax = 0 ∨ tx.id ≤ nrMax
  months : monthOf date - 2 ≤ monthOf tx.confirmedAt.getAsTimepoint ∧
    monthOf tx.confirmedAt.getAsTimepoint ≤ monthOf date
  day : ¬ MissedDay date tx.confirmedAt.getAsTimepoint

/-- A creation that should count and does not. -/
def MissedCreation (publicKey : ℕ) (date : ℤ) (nrMax : ℕ) (tx : ConfirmedTransaction) : Prop :=
  DueCreation publicKey date nrMax tx ∧
    ((¬ ∃ b ∈ tx.accountBalances, b.publicKey = publicKey) ∨
      MissedDay date tx.confirmedAt.getAsTimepoint)

/-- A creation that counts and should not: for another account, not before the date, or beyond the
number, which the number zero leaves open. -/
def SurplusCreation (publicKey : ℕ) (date : ℤ) (nrMax : ℕ) (tx : ConfirmedTransaction) : Prop :=
  CountedCreation publicKey date nrMax tx ∧
    ((∀ c ∈ tx.body.getCreation, c.recipient.publicKey ≠ publicKey) ∨
      date ≤ tx.confirmedAt.getAsTimepoint ∨ nrMax < tx.id)

section Decidable

variable {publicKey nrMax : ℕ} {date confirmedAt : ℤ} {tx : ConfirmedTransaction}

instance decidableDueCreation : Decidable (DueCreation publicKey date nrMax tx) :=
  decidable_of_iff _ (dueCreation_iff publicKey date nrMax tx).symm

instance decidableMissedDay : Decidable (MissedDay date confirmedAt) :=
  inferInstanceAs (Decidable (_ ∨ _ ∨ _))

instance decidableCountedCreation : Decidable (CountedCreation publicKey date nrMax tx) :=
  decidable_of_iff _ (countedCreation_iff publicKey date nrMax tx).symm

instance decidableMissedCreation : Decidable (MissedCreation publicKey date nrMax tx) :=
  inferInstanceAs (Decidable (_ ∧ _))

instance decidableSurplusCreation : Decidable (SurplusCreation publicKey date nrMax tx) :=
  inferInstanceAs (Decidable (_ ∧ _))

end Decidable

/-! ### What is missed and what is counted in addition -/

section Difference

variable {publicKey nrMax : ℕ} {date : ℤ} {tx : ConfirmedTransaction}

theorem TransactionBody.getCreation_eq_some {body : TransactionBody} {c : GradidoCreation} :
    body.getCreation = some c ↔ body.specific = .creation c := by
  unfold TransactionBody.getCreation
  cases body.specific <;> simp

/-- Only a creation is a creation for an account. -/
theorem DueCreation.transactionType (h : DueCreation publicKey date nrMax tx) :
    tx.body.transactionType = .creation := by
  obtain ⟨c, hc, -⟩ := h.recipient
  rw [TransactionBody.transactionType, TransactionBody.getCreation_eq_some.1 hc]

theorem missedCreation_iff : MissedCreation publicKey date nrMax tx ↔
    DueCreation publicKey date nrMax tx ∧ ¬ CountedCreation publicKey date nrMax tx := by
  unfold MissedCreation
  refine and_congr_right (fun hdue => ?_)
  constructor
  · rintro (hentry | hday) hcounted
    · exact hentry hcounted.entry
    · exact hcounted.day hday
  · intro hnot
    by_contra hneither
    rw [not_or, not_not] at hneither
    exact hnot ⟨hdue.transactionType, hneither.1, .inr hdue.nr,
      ⟨hdue.months, monthOf_mono hdue.before.le⟩, hneither.2⟩

theorem surplusCreation_iff : SurplusCreation publicKey date nrMax tx ↔
    CountedCreation publicKey date nrMax tx ∧ ¬ DueCreation publicKey date nrMax tx := by
  unfold SurplusCreation
  refine and_congr_right (fun hcounted => ?_)
  constructor
  · rintro (hrecipient | hlate | hnr) hdue
    · obtain ⟨c, hc, hkey⟩ := hdue.recipient
      exact hrecipient c hc hkey
    · exact absurd hdue.before (not_lt.2 hlate)
    · exact absurd hdue.nr (not_le.2 hnr)
  · intro hnot
    by_contra hneither
    rw [not_or, not_or, not_le, not_lt] at hneither
    obtain ⟨hrecipient, hbefore, hnr⟩ := hneither
    refine hnot ⟨?_, hnr, hbefore, hcounted.months.1⟩
    by_contra hnone
    exact hrecipient (fun c hc hkey => hnone ⟨c, hc, hkey⟩)

/-- What should count and what counts differ by what is missed and what is counted in addition. -/
theorem creationTotal_add (h : List ConfirmedTransaction) (publicKey nrMax : ℕ) (date : ℤ) :
    creationTotal h (DueCreation publicKey date nrMax) +
        creationTotal h (SurplusCreation publicKey date nrMax) =
      creationTotal h (CountedCreation publicKey date nrMax) +
        creationTotal h (MissedCreation publicKey date nrMax) := by
  unfold creationTotal
  rw [← List.sum_map_add, ← List.sum_map_add]
  congr 1
  refine List.map_congr_left (fun tx _ => ?_)
  simp only [missedCreation_iff, surplusCreation_iff]
  by_cases hdue : DueCreation publicKey date nrMax tx
  · by_cases hcounted : CountedCreation publicKey date nrMax tx <;> simp [hdue, hcounted]
  · by_cases hcounted : CountedCreation publicKey date nrMax tx <;> simp [hdue, hcounted]

end Difference

/-! ### The interval -/

section Months

/-- The first day of a month in the common era, as a time point. -/
theorem monthYearToTimepoint_yearMonth {m : ℤ} (hm : 12 ≤ m) :
    monthYearToTimepoint (Calendar.yearMonth m) =
      Calendar.firstDay m * (86400 * microsecondsPerSecond) := by
  have hyear : (Calendar.yearMonth m).1 ≠ 0 := by
    change m / 12 ≠ 0
    omega
  rw [monthYearToTimepoint_eq (Calendar.isMonth_yearMonth m) hyear,
    Calendar.monthNumber_yearMonth]

/-- Its day is the first of the month. -/
theorem calendarDay_firstDay (m : ℤ) :
    calendarDay (Calendar.firstDay m * (86400 * microsecondsPerSecond)) =
      ⟨(Calendar.yearMonth m).1, (Calendar.yearMonth m).2, 1⟩ := by
  rw [calendarDay, floorDays, Int.mul_ediv_cancel _ (by decide), Calendar.civilFromDays_firstDay]

/-- Its month is the month. -/
theorem monthOf_firstDay (m : ℤ) :
    monthOf (Calendar.firstDay m * (86400 * microsecondsPerSecond)) = m := by
  change Calendar.monthOfDay (floorDays _) = m
  rw [floorDays, Int.mul_ediv_cancel _ (by decide), Calendar.monthOfDay_firstDay]

/-- The day of a time point lies in its month. -/
theorem monthOf_eq (p : ℤ) :
    monthOf p = (calendarDay p).year * 12 + (((calendarDay p).month : ℤ) - 1) := rfl

/-- A day is not before the first day of a month exactly when its month is not. -/
theorem not_lt_firstDay_iff (p m : ℤ) :
    ¬ calendarDay p < ⟨(Calendar.yearMonth m).1, (Calendar.yearMonth m).2, 1⟩ ↔
      m ≤ monthOf p := by
  have hm := Calendar.isMonth_yearMonth m
  have hmonth := Calendar.monthNumber_yearMonth m
  obtain ⟨h1, h2, h3, h4⟩ := Calendar.civilFromDays_bounds (floorDays p)
  rw [YearMonthDay.lt_def, monthOf_eq]
  unfold Calendar.IsMonth at hm
  unfold Calendar.monthNumber at hmonth
  unfold calendarDay
  dsimp only
  omega

/-- A day is not after the first day of a month exactly when it is that day or in an earlier
month. -/
theorem not_firstDay_lt_iff (p m : ℤ) :
    ¬ (⟨(Calendar.yearMonth m).1, (Calendar.yearMonth m).2, 1⟩ : YearMonthDay) < calendarDay p ↔
      monthOf p < m ∨ monthOf p = m ∧ (calendarDay p).day = 1 := by
  have hm := Calendar.isMonth_yearMonth m
  have hmonth := Calendar.monthNumber_yearMonth m
  obtain ⟨h1, h2, h3, h4⟩ := Calendar.civilFromDays_bounds (floorDays p)
  rw [YearMonthDay.lt_def, monthOf_eq]
  unfold Calendar.IsMonth at hm
  unfold Calendar.monthNumber at hmonth
  unfold calendarDay
  dsimp only
  omega

end Months

/-- A day between the first days of the month of a date and of the second month before it; for a
date in the first month of the epoch there is none. -/
def SearchedDay (date confirmedAt : ℤ) : Prop :=
  monthOf date ≠ monthOf 0 ∧ monthOf date - 2 ≤ monthOf confirmedAt ∧
    (monthOf confirmedAt < monthOf date ∨
      monthOf confirmedAt = monthOf date ∧ (calendarDay confirmedAt).day = 1)

/-- The test of year and month of the element filter of `V01_ThreeMonthsAlgoRole::run`. -/
def PassesMonthTest (dateYM : ℤ × ℕ) (confirmed : YearMonthDay) : Prop :=
  (confirmed.year = dateYM.1 ∧ monthMinusMonth dateYM.2 confirmed.month ≤ 2) ∨
    (dateYM.1 - confirmed.year = 1 ∧ monthMinusMonths confirmed.month 10 = dateYM.2)

instance {dateYM : ℤ × ℕ} {confirmed : YearMonthDay} :
    Decidable (PassesMonthTest dateYM confirmed) :=
  inferInstanceAs (Decidable (_ ∨ _))

/-- Within the three months the test only fails for December, when the date is in January. -/
theorem passesMonthTest_iff {date p : ℤ} (hlow : monthOf date - 2 ≤ monthOf p)
    (hhigh : monthOf p ≤ monthOf date) :
    PassesMonthTest (yearMonthOf date) (calendarDay p) ↔
      ¬ ((yearMonthOf date).2 = 1 ∧ monthOf p = monthOf date - 1) := by
  obtain ⟨h1, h2, -, -⟩ := Calendar.civilFromDays_bounds (floorDays p)
  have hmonth := isMonth_yearMonthOf date
  unfold Calendar.IsMonth at hmonth
  change (yearMonthOf date).1 * 12 + (((yearMonthOf date).2 : ℤ) - 1) - 2 ≤ _ at hlow
  change _ ≤ (yearMonthOf date).1 * 12 + (((yearMonthOf date).2 : ℤ) - 1) at hhigh
  change _ ↔ ¬ (_ ∧ _ = (yearMonthOf date).1 * 12 + (((yearMonthOf date).2 : ℤ) - 1) - 1)
  rw [monthOf_eq] at *
  unfold PassesMonthTest monthMinusMonth monthMinusMonths
  unfold calendarDay at *
  generalize yearMonthOf date = ym at *
  generalize Calendar.civilFromDays (floorDays p) = day at *
  omega

/-- Of the searched days, those that pass the test are those of the three months that are not
missed. -/
theorem searched_and_passes_iff (date p : ℤ) :
    SearchedDay date p ∧ PassesMonthTest (yearMonthOf date) (calendarDay p) ↔
      (monthOf date - 2 ≤ monthOf p ∧ monthOf p ≤ monthOf date) ∧ ¬ MissedDay date p := by
  unfold SearchedDay MissedDay
  constructor
  · rintro ⟨⟨hepoch, hlow, hday⟩, hpasses⟩
    have hhigh : monthOf p ≤ monthOf date := by omega
    rw [passesMonthTest_iff hlow hhigh] at hpasses
    refine ⟨⟨hlow, hhigh⟩, ?_⟩
    rintro (⟨hsame, hne⟩ | hdecember | hfirst)
    · omega
    · exact hpasses hdecember
    · exact hepoch hfirst
  · rintro ⟨⟨hlow, hhigh⟩, hnot⟩
    rw [not_or, not_or] at hnot
    obtain ⟨hday, hdecember, hepoch⟩ := hnot
    refine ⟨⟨hepoch, hlow, ?_⟩, (passesMonthTest_iff hlow hhigh).2 hdecember⟩
    rcases hhigh.lt_or_eq with hlt | heq
    · exact .inl hlt
    · refine .inr ⟨heq, ?_⟩
      by_contra hne
      exact hday ⟨heq, hne⟩

/-! ### The search -/

/-- The interval that `V01_ThreeMonthsAlgoRole::run` searches. -/
def threeMonthsInterval (date : ℤ) : TimepointInterval :=
  ⟨monthYearToTimepoint (yearMonthMinusMonths (timepointAsYearMonth date) 2),
    monthYearToTimepoint (timepointAsYearMonth date)⟩

/-- Dates of the clock are in the common era. -/
theorem le_monthOf {date : ℤ} (hclock : InClock date) : 20000 ≤ monthOf date :=
  le_trans (by decide) (monthOf_mono hclock.1)

theorem threeMonthsInterval_eq {date : ℤ} (hclock : InClock date) (hne : date ≠ 0) :
    threeMonthsInterval date =
      ⟨Calendar.firstDay (monthOf date - 2) * (86400 * microsecondsPerSecond),
        Calendar.firstDay (monthOf date) * (86400 * microsecondsPerSecond)⟩ := by
  have hlarge := le_monthOf hclock
  have hym : timepointAsYearMonth date = Calendar.yearMonth (monthOf date) := by
    rw [timepointAsYearMonth_of_ne_zero hne, monthOf,
      Calendar.yearMonth_monthNumber (isMonth_yearMonthOf date)]
  have hback : yearMonthMinusMonths (Calendar.yearMonth (monthOf date)) 2 =
      Calendar.yearMonth (monthOf date - 2) := by
    change Calendar.yearMonth (Calendar.monthNumber (Calendar.yearMonth (monthOf date)) - 2) = _
    rw [Calendar.monthNumber_yearMonth]
  rw [threeMonthsInterval, hym, hback, monthYearToTimepoint_yearMonth (by omega),
    monthYearToTimepoint_yearMonth (by omega)]

/-- The interval does not end before it starts. -/
theorem threeMonthsInterval_le {date : ℤ} (hclock : InClock date) :
    (threeMonthsInterval date).startDate ≤ (threeMonthsInterval date).endDate := by
  by_cases hzero : date = 0
  · subst hzero
    decide
  · have hfirst : Calendar.firstDay (monthOf date - 2) ≤ Calendar.firstDay (monthOf date) := by
      rw [Calendar.firstDay_le_iff, Calendar.monthOfDay_firstDay]
      omega
    rw [threeMonthsInterval_eq hclock hzero]
    unfold microsecondsPerSecond
    dsimp only
    omega

/-- The first day of a month is not after the epoch exactly when the month is not. -/
theorem firstDay_nonpos_iff (m : ℤ) : Calendar.firstDay m ≤ 0 ↔ m ≤ monthOf 0 :=
  Calendar.firstDay_le_iff

/-- A time point that is not after the epoch has a day before every chain. -/
theorem lt_firstDate_of_nonpos {cs : List ConfirmedGradidoTx} (horder : InOrder cs) (hne : cs ≠ [])
    {p : ℤ} (hp : p ≤ 0) : timepointAsYearMonthDay p < firstDate cs := by
  have hcivil := horder.civilDate_firstDate hne
  unfold CivilDate at hcivil
  by_cases hzero : p = 0
  · subst hzero
    rw [timepointAsYearMonthDay_zero, YearMonthDay.lt_def]
    simp only [zeroDate]
    omega
  · have hdays : floorDays p < 0 := Int.ediv_lt_of_lt_mul (by decide) (by omega)
    have hbefore := Calendar.civilFromDays_strictMono hdays
    have hepoch : Calendar.civilFromDays 0 = ⟨1970, 1, 1⟩ := by decide
    rw [timepointAsYearMonthDay_of_ne hzero, calendarDay]
    rw [hepoch] at hbefore
    rw [YearMonthDay.lt_def] at *
    dsimp only at hbefore
    omega

section Search

variable {env : Env} {own : ℕ} {cs : List ConfirmedGradidoTx} {idx : TransactionsIndex}
  {date : ℤ}

/-- Up to the first month of the epoch nothing is searched. -/
theorem threeMonths_before (h : Indexes env own cs idx) (horder : InOrder cs) (hne : cs ≠ [])
    (hclock : InClock date) (hbefore : date = 0 ∨ monthOf date ≤ monthOf 0) {f : CompactFilter}
    (hinterval : f.timepointInterval = threeMonthsInterval date) :
    idx.findTransactions f = [] := by
  have hends : (threeMonthsInterval date).startDate < 0 ∧
      (threeMonthsInterval date).endDate ≤ 0 := by
    by_cases hzero : date = 0
    · subst hzero
      decide
    · have hmonth := hbefore.resolve_left hzero
      have hend := (firstDay_nonpos_iff (monthOf date)).2 hmonth
      have hstart : Calendar.firstDay (monthOf date - 2) ≤ -1 := by
        refine Calendar.firstDay_le_iff.2 ?_
        have hlast : Calendar.monthOfDay (-1) = monthOf 0 - 1 := by decide
        omega
      rw [threeMonthsInterval_eq hclock hzero]
      unfold microsecondsPerSecond
      dsimp only
      omega
  refine h.findTransactions_before ?_ ?_
  · rw [hinterval]
    simp [TimepointInterval.isEmpty, hends.1.ne]
  · rw [hinterval]
    exact lt_firstDate_of_nonpos horder hne hends.2

/-- Later the range of the interval stands for the days from the first of the first month to the
first of the last month. -/
theorem threeMonths_covers (table : DayTable cs idx) (horder : InOrder cs) (hne : cs ≠ [])
    (hclock : InClock date) (hzero : date ≠ 0) (hafter : monthOf 0 < monthOf date) :
    Covers cs (idx.rangeOfDates
        (timepointAsYearMonthDay (threeMonthsInterval date).startDate)
        (timepointAsYearMonthDay (threeMonthsInterval date).endDate))
        (fun c => SearchedDay date c.confirmedAt.getAsTimepoint) ∧
      ∀ lo hi, idx.rangeOfDates
        (timepointAsYearMonthDay (threeMonthsInterval date).startDate)
        (timepointAsYearMonthDay (threeMonthsInterval date).endDate) = some (lo, hi) →
        1 ≤ lo ∧ hi ≤ idx.mMaxTransactionNr := by
  have hlarge := le_monthOf hclock
  rw [threeMonthsInterval_eq hclock hzero]
  dsimp only
  have hpositive : 0 < Calendar.firstDay (monthOf date) := by
    have hnot := (not_congr (firstDay_nonpos_iff (monthOf date))).2 (not_le.2 hafter)
    omega
  have hfirstOfMonth : ∀ m, 12 ≤ m → CalendarDate
      ⟨(Calendar.yearMonth m).1, (Calendar.yearMonth m).2, 1⟩ := by
    intro m hm
    have hmonth := Calendar.isMonth_yearMonth m
    have hyear : 1 ≤ (Calendar.yearMonth m).1 := by
      change 1 ≤ m / 12
      omega
    exact ⟨hmonth.1, hmonth.2, le_rfl, Nat.le_add_left 1 30, hyear⟩
  have hend : timepointAsYearMonthDay (Calendar.firstDay (monthOf date) *
      (86400 * microsecondsPerSecond)) =
        ⟨(Calendar.yearMonth (monthOf date)).1, (Calendar.yearMonth (monthOf date)).2, 1⟩ := by
    rw [timepointAsYearMonthDay_of_ne (by unfold microsecondsPerSecond; omega),
      calendarDay_firstDay]
  have hdays : ∀ c ∈ cs, c.date = calendarDay c.confirmedAt.getAsTimepoint := fun c hc =>
    timepointAsYearMonthDay_of_ne (horder.positive c hc).ne'
  rw [hend]
  by_cases hstart : Calendar.firstDay (monthOf date - 2) = 0
  · rw [hstart, Int.zero_mul, timepointAsYearMonthDay_zero]
    obtain ⟨hcovers, hbounds⟩ := table.covers_upTo hne (hfirstOfMonth (monthOf date) (by omega))
    refine ⟨(covers_congr ?_).1 hcovers, hbounds⟩
    intro c hc
    -- no transaction is before the epoch
    have hepoch := monthOf_mono (horder.positive c hc).le
    have hmonth := (firstDay_nonpos_iff (monthOf date - 2)).1 hstart.le
    rw [hdays c hc, not_firstDay_lt_iff]
    unfold SearchedDay
    omega
  · rw [timepointAsYearMonthDay_of_ne (by unfold microsecondsPerSecond; omega),
      calendarDay_firstDay]
    have hstops : ¬ StopsEarly cs
        ⟨(Calendar.yearMonth (monthOf date - 2)).1, (Calendar.yearMonth (monthOf date - 2)).2, 1⟩
        ⟨(Calendar.yearMonth (monthOf date)).1, (Calendar.yearMonth (monthOf date)).2, 1⟩ := by
      -- no day is before the first of its month
      intro hstops
      obtain ⟨c, hc, heq⟩ := firstDate_mem hne
      have hday := (hstops.month c hc (heq ▸ hstops.within)).2.2
      have hcalendar := table.days c hc
      unfold CalendarDate at hcalendar
      dsimp only at hday
      omega
    have hordered : ¬ (⟨(Calendar.yearMonth (monthOf date)).1,
          (Calendar.yearMonth (monthOf date)).2, 1⟩ : YearMonthDay) <
        ⟨(Calendar.yearMonth (monthOf date - 2)).1, (Calendar.yearMonth (monthOf date - 2)).2,
          1⟩ := by
      rw [← calendarDay_firstDay (monthOf date), not_lt_firstDay_iff, monthOf_firstDay]
      omega
    obtain ⟨hcovers, hbounds⟩ := table.covers_dates hne
      (hfirstOfMonth (monthOf date - 2) (by omega)) (hfirstOfMonth (monthOf date) (by omega))
      hordered hstops
    refine ⟨(covers_congr ?_).1 hcovers, hbounds⟩
    intro c hc
    rw [hdays c hc, not_firstDay_lt_iff, not_lt_firstDay_iff]
    unfold SearchedDay
    exact (and_iff_right hafter.ne').symm

/-- **The search** finds what the filter asks for on the searched days. -/
theorem mem_threeMonths (h : Indexes env own cs idx) (horder : InOrder cs)
    (hclock : InClock date) {f : CompactFilter} (hf : Plain f)
    (hmin : f.minTransactionNr = 0) (hsize : f.pagination.size = 0)
    (hinterval : f.timepointInterval = threeMonthsInterval date) (n : ℕ) :
    n ∈ idx.findTransactions f ↔ ∃ c ∈ cs, c.txNr = n ∧ Wanted env own f c ∧
      (f.maxTransactionNr = 0 ∨ c.txNr ≤ f.maxTransactionNr) ∧
      SearchedDay date c.confirmedAt.getAsTimepoint := by
  by_cases hne : cs = []
  · subst hne
    simp [findTransactions, h.dates.minNr, h.dates.maxNr]
  by_cases hbefore : date = 0 ∨ monthOf date ≤ monthOf 0
  · rw [threeMonths_before h horder hne hclock hbefore hinterval]
    refine iff_of_false List.not_mem_nil ?_
    rintro ⟨c, hc, -, -, -, hepoch, -, hlast⟩
    have hmono := monthOf_mono (horder.positive c hc).le
    rcases hbefore with rfl | hle
    · exact hepoch rfl
    · omega
  · rw [not_or, not_le] at hbefore
    obtain ⟨hcovers, hbounds⟩ :=
      threeMonths_covers (h.dayTable horder) horder hne hclock hbefore.1 hbefore.2
    refine h.mem_findTransactions_covers hne hf hmin hsize ?_ (by rw [hinterval]; exact hcovers)
      (by rw [hinterval]; exact hbounds) n
    have hend : ¬ Calendar.firstDay (monthOf date) ≤ 0 := by
      rw [firstDay_nonpos_iff]
      omega
    rw [hinterval, threeMonthsInterval_eq hclock hbefore.1]
    unfold microsecondsPerSecond
    simp only [TimepointInterval.isEmpty, Bool.and_eq_false_iff, decide_eq_false_iff_not]
    right
    omega

end Search

/-! ### The sum -/

/-- What a transaction number adds to the sum. -/
def countedInMonths (s : InMemory) (dateYM : ℤ × ℕ) (nr : ℕ) : ℤ :=
  match s.mConfirmedTxByNr nr with
  | some c =>
    if PassesMonthTest dateYM (timepointAsYearMonthDay c.confirmedAt.getAsTimepoint)
    then c.getAmount else 0
  | none => 0

/-- A transaction number stands for a creation. -/
def IsCreationNr (s : InMemory) (nr : ℕ) : Prop :=
  ∃ c amount recipient targetMonthYear, s.mConfirmedTxByNr nr = some c ∧
    c.specific = .creation amount recipient targetMonthYear

/-- The loop over the numbers of creations adds up what they count. -/
theorem forPage_threeMonths {s : InMemory} (dateYM : ℤ × ℕ) {nrs : List ℕ}
    (hcreations : ∀ nr ∈ nrs, IsCreationNr s nr) (sum : ℤ) (last : FilterResult) :
    ∃ result, s.forPage (threeMonthsFilter dateYM) nrs sum last =
      .ok (sum + (nrs.map (countedInMonths s dateYM)).sum, result) := by
  induction nrs generalizing sum last with
  | nil => exact ⟨last, by simp [InMemory.forPage]⟩
  | cons nr nrs ih =>
    obtain ⟨c, amount, recipient, targetMonthYear, hbyNr, hspecific⟩ :=
      hcreations nr List.mem_cons_self
    have hfilter : threeMonthsFilter dateYM sum c =
        .ok (sum + countedInMonths s dateYM nr, .DISMISS) := by
      have hcounted : countedInMonths s dateYM nr =
          if PassesMonthTest dateYM (timepointAsYearMonthDay c.confirmedAt.getAsTimepoint)
          then c.getAmount else 0 := by
        simp only [countedInMonths, hbyNr]
      have htest : threeMonthsFilter dateYM sum c =
          .ok (if PassesMonthTest dateYM (timepointAsYearMonthDay c.confirmedAt.getAsTimepoint)
            then sum + c.getAmount else sum, .DISMISS) := by
        simp only [threeMonthsFilter, hspecific]
        rfl
      rw [htest, hcounted]
      split_ifs <;> simp
    obtain ⟨result, hrest⟩ := ih (fun n hn => hcreations n (List.mem_cons_of_mem nr hn))
      (sum + countedInMonths s dateYM nr) .DISMISS
    refine ⟨result, ?_⟩
    rw [InMemory.forPage, hbyNr]
    dsimp only
    rw [hfilter, ok_bind]
    simp only [FilterResult.DISMISS, Bool.false_eq_true, if_false] at hrest ⊢
    rw [hrest, List.map_cons, List.sum_cons, add_assoc]

/-- **The sum of `V01_ThreeMonthsAlgoRole`**, when the search finds creations only. -/
theorem threeMonthsAlgo_eq_ok {s : InMemory} {date : ℤ} {k : PublicKeyIndex} {nrMax : ℕ}
    (hle : (threeMonthsInterval date).startDate ≤ (threeMonthsInterval date).endDate)
    (hcreations : ∀ nr ∈ s.mTransactionsIndex.findTransactions
      (creationFilter k (threeMonthsInterval date) nrMax), IsCreationNr s nr) :
    threeMonthsAlgo s date k nrMax = .ok ((s.mTransactionsIndex.findTransactions
      (creationFilter k (threeMonthsInterval date) nrMax)).map
        (countedInMonths s (timepointAsYearMonth date))).sum := by
  have hinterval : TimepointInterval.make
      (monthYearToTimepoint (yearMonthMinusMonths (timepointAsYearMonth date) 2))
      (monthYearToTimepoint (timepointAsYearMonth date)) = .ok (threeMonthsInterval date) := by
    change TimepointInterval.make (threeMonthsInterval date).startDate
      (threeMonthsInterval date).endDate = _
    unfold TimepointInterval.make
    rw [decide_eq_false (not_lt.2 hle), throwIf_false]
    rfl
  unfold threeMonthsAlgo
  dsimp only
  rw [hinterval, ok_bind]
  set f := creationFilter k (threeMonthsInterval date) nrMax with hf
  have hpages : f.pagination = ⟨0, 0⟩ := rfl
  have hfilter : { f with pagination := ⟨0, 0⟩ } = f := rfl
  rw [InMemory.forEachCompact, InMemory.forEachPage, hpages, hfilter]
  generalize s.mTransactionsIndex.findTransactions f = nrs at hcreations ⊢
  cases nrs with
  | nil => rfl
  | cons nr nrs =>
    obtain ⟨result, hpage⟩ := forPage_threeMonths (timepointAsYearMonth date) hcreations 0
      .DISMISS
    dsimp only
    rw [hpage, ok_bind]
    simp

section Found

variable {env : Env} {own : ℕ} {s : InMemory} {cs : List ConfirmedGradidoTx}

/-- A creation that the search finds. -/
def FoundCreation (publicKey : ℕ) (date : ℤ) (nrMax : ℕ) (tx : ConfirmedTransaction) : Prop :=
  tx.body.transactionType = .creation ∧ (∃ b ∈ tx.accountBalances, b.publicKey = publicKey) ∧
    (nrMax = 0 ∨ tx.id ≤ nrMax) ∧ SearchedDay date tx.confirmedAt.getAsTimepoint

instance decidableFoundCreation {publicKey nrMax : ℕ} {date : ℤ} {tx : ConfirmedTransaction} :
    Decidable (FoundCreation publicKey date nrMax tx) :=
  inferInstanceAs (Decidable (_ ∧ _ ∧ _ ∧ _ ∧ _ ∧ _))

/-- A creation counts when it is found and passes the test of year and month. -/
theorem countedCreation_iff_found {publicKey nrMax : ℕ} {date : ℤ} {tx : ConfirmedTransaction} :
    CountedCreation publicKey date nrMax tx ↔ FoundCreation publicKey date nrMax tx ∧
      PassesMonthTest (yearMonthOf date) (calendarDay tx.confirmedAt.getAsTimepoint) := by
  have hdays := searched_and_passes_iff date tx.confirmedAt.getAsTimepoint
  constructor
  · intro h
    obtain ⟨hsearched, hpasses⟩ := hdays.2 ⟨h.months, h.day⟩
    exact ⟨⟨h.creation, h.entry, h.nr, hsearched⟩, hpasses⟩
  · rintro ⟨⟨hcreation, hentry, hnr, hsearched⟩, hpasses⟩
    obtain ⟨hmonths, hday⟩ := hdays.1 ⟨hsearched, hpasses⟩
    exact ⟨hcreation, hentry, hnr, hmonths, hday⟩

/-- The search finds these creations. -/
theorem IndexedBy.mem_threeMonths_iff (h : IndexedBy env own s cs) (hown : own ≠ 0)
    (horder : InOrder cs) {date : ℤ} (hclock : InClock date) (publicKey nrMax n : ℕ) :
    n ∈ s.mTransactionsIndex.findTransactions (creationFilter
      (env.dict.toPublicKeyIndex publicKey own) (threeMonthsInterval date) nrMax) ↔
      ∃ tx ∈ s.history, tx.id = n ∧ FoundCreation publicKey date nrMax tx := by
  have hplain : Plain (creationFilter (env.dict.toPublicKeyIndex publicKey own)
      (threeMonthsInterval date) nrMax) := by
    intro _
    exact env.dict.empty_toPublicKeyIndex hown publicKey
  have hform : ∀ tx c, CompactOf env own tx c →
      (Wanted env own (creationFilter (env.dict.toPublicKeyIndex publicKey own)
        (threeMonthsInterval date) nrMax) c ∧ (nrMax = 0 ∨ c.txNr ≤ nrMax) ∧
        SearchedDay date c.confirmedAt.getAsTimepoint ↔ FoundCreation publicKey date nrMax tx) := by
    intro tx c hcompact
    have hkey := hcompact.isBalanceUpdated_iff publicKey
    obtain ⟨hid, hconfirmedAt, -, -, htype, -, -⟩ := hcompact.fields
    unfold Wanted WantedKey FoundCreation
    rw [hid, hconfirmedAt, htype]
    simp only [creationFilter, reduceCtorEq, false_imp_iff, and_true, true_imp_iff, hkey, true_or,
      true_and, false_or]
    tauto
  rw [mem_threeMonths h.index horder hclock hplain rfl rfl rfl]
  constructor
  · rintro ⟨c, hc, rfl, hfound⟩
    obtain ⟨tx, htx, hcompact⟩ := h.exists_rich hc
    exact ⟨tx, htx, hcompact.fields.1.symm, (hform tx c hcompact).1 hfound⟩
  · rintro ⟨tx, htx, rfl, hfound⟩
    obtain ⟨c, hc, hcompact⟩ := h.exists_compact htx
    exact ⟨c, hc, hcompact.fields.1, (hform tx c hcompact).2 hfound⟩

/-- What a creation counts. -/
theorem IndexedBy.countedInMonths_eq (h : IndexedBy env own s cs) (horder : InOrder cs)
    {tx : ConfirmedTransaction} (htx : tx ∈ s.history)
    (htype : tx.body.transactionType = .creation) (dateYM : ℤ × ℕ) :
    IsCreationNr s tx.id ∧ countedInMonths s dateYM tx.id =
      if PassesMonthTest dateYM (calendarDay tx.confirmedAt.getAsTimepoint)
      then creationAmount tx else 0 := by
  obtain ⟨creation, hcreation⟩ := TransactionBody.exists_creation htype
  obtain ⟨c, hc, hcompact⟩ := h.exists_compact htx
  obtain ⟨⟨recipient, hspecific⟩, hamount⟩ := hcompact.creation hcreation
  have hbyNr := h.byNr_txNr hc
  rw [hcompact.fields.1] at hbyNr
  have hpositive := horder.positive c hc
  refine ⟨⟨c, _, _, _, hbyNr, hspecific⟩, ?_⟩
  simp only [countedInMonths, hbyNr, hamount, creationAmount, hcreation]
  rw [timepointAsYearMonthDay_of_ne hpositive.ne', hcompact.fields.2.1]

/-- **The sum** is the amount of the creations that count. -/
theorem IndexedBy.threeMonthsAlgo_eq (h : IndexedBy env own s cs)
    (hs : s.Represents own s.history) (hown : own ≠ 0) (horder : InOrder cs) {date : ℤ}
    (hclock : InClock date) (publicKey nrMax : ℕ) :
    threeMonthsAlgo s date (env.dict.toPublicKeyIndex publicKey own) nrMax =
      .ok (creationTotal s.history (CountedCreation publicKey date nrMax)) := by
  have hmem := h.mem_threeMonths_iff hown horder hclock publicKey nrMax
  have hsorted := findTransactions_sorted s.mTransactionsIndex (f := creationFilter
    (env.dict.toPublicKeyIndex publicKey own) (threeMonthsInterval date) nrMax) rfl rfl
  rw [threeMonthsAlgo_eq_ok (threeMonthsInterval_le hclock)]
  swap
  · intro nr hnr
    obtain ⟨tx, htx, rfl, hfound⟩ := (hmem nr).1 hnr
    exact (h.countedInMonths_eq horder htx hfound.1 (0, 0)).1
  generalize s.mTransactionsIndex.findTransactions _ = nrs at hmem hsorted ⊢
  -- the numbers are those of the creations that are found, each of them once
  have hperm : nrs.Perm ((s.history.filter (fun tx =>
      decide (FoundCreation publicKey date nrMax tx))).map ConfirmedTransaction.id) := by
    refine (List.perm_ext_iff_of_nodup (hsorted.imp (fun h => h.ne')) ?_).2 ?_
    · exact List.pairwise_map.2 ((hs.numbered.filter _).imp (fun h => h.ne))
    · intro n
      rw [hmem]
      simp only [List.mem_map, List.mem_filter, decide_eq_true_eq]
      tauto
  rw [(hperm.map _).sum_eq, List.map_map, sum_map_filter, creationTotal]
  congr 2
  refine List.map_congr_left (fun tx htx => ?_)
  by_cases hfound : FoundCreation publicKey date nrMax tx
  · have hdate : date ≠ 0 := by
      rintro rfl
      exact hfound.2.2.2.1 rfl
    rw [if_pos hfound, Function.comp_apply, (h.countedInMonths_eq horder htx hfound.1 _).2,
      timepointAsYearMonth_of_ne_zero hdate]
    exact if_congr (by rw [countedCreation_iff_found, and_iff_right hfound]) rfl rfl
  · rw [if_neg hfound, if_neg (fun hcounted => hfound (countedCreation_iff_found.1 hcounted).1)]

end Found

/-! ### Main result -/

namespace Sample

/-- A call, moved to an earlier or a later date. -/
def moved (seconds : ℤ) (c : Call) : AddCall :=
  .node { c with
    gradidoTransaction :=
      { c.gradidoTransaction with
        body :=
          { c.gradidoTransaction.body with
            createdAt := ⟨c.gradidoTransaction.body.createdAt.seconds + seconds, 0⟩ } }
    confirmedAt := ⟨c.confirmedAt.seconds + seconds, 0⟩ }

/-- The first of December 2018, at midnight. -/
def december : ℤ := 1543622400

/-- A thousand coins are created for account `11` on the first of December 2018. -/
def createdInDecember : List AddCall :=
  (setup ++ [call 4 200 (transaction 200 (signedByKey 21) [memo]
    (.creation ⟨⟨11, 10000000, 1⟩, december⟩))]).map (moved (december - midnight))

/-- A day in seconds, as a time point. -/
def dayOf2018 (days : ℤ) : ℤ := (december + days * 86400) * microsecondsPerSecond

end Sample

end Gradido
