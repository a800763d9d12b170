import GradidoBlockchain.Lib.Calendar

/-!
# Points in time

The repository keeps dates in three forms: `Timestamp` (seconds and
nanoseconds, as it stands in a transaction), `TimestampSeconds` and
`DurationSeconds` (plain numbers of seconds here), and the system clock's
`Timepoint`.  Every conversion of a timestamp to a time point goes through
whole microseconds, so a time point is an integer: microseconds since 1970.
-/

namespace Gradido

/-- One second as a `Timepoint` difference. -/
def microsecondsPerSecond : ℤ := 1000000

/-- `data::Timestamp`: the nanoseconds are not required to be less than a second. -/
structure Timestamp where
  seconds : ℤ
  nanos : ℤ
deriving DecidableEq, Repr

namespace Timestamp

/-- `Timestamp::operator<`. -/
def lt (a b : Timestamp) : Bool :=
  decide (a.seconds < b.seconds) || (decide (a.seconds = b.seconds) && decide (a.nanos < b.nanos))

/-- `Timestamp::operator>`. -/
def gt (a b : Timestamp) : Bool :=
  decide (a.seconds > b.seconds) || (decide (a.seconds = b.seconds) && decide (a.nanos > b.nanos))

/-- `Timestamp::operator<=`.  The first comparison already accepts every date of the same
second, so the nanoseconds are never looked at. -/
def le (a b : Timestamp) : Bool :=
  decide (a.seconds ≤ b.seconds) || (decide (a.seconds = b.seconds) && decide (a.nanos ≤ b.nanos))

/-- `Timestamp::getAsTimepoint`: the nanoseconds are cut to microseconds. -/
def getAsTimepoint (t : Timestamp) : ℤ :=
  t.seconds * microsecondsPerSecond + t.nanos.tdiv 1000

/-- The constructor `Timestamp(Timepoint)`. -/
def ofTimepoint (p : ℤ) : Timestamp :=
  ⟨p.tdiv microsecondsPerSecond, p.tmod microsecondsPerSecond * 1000⟩

/-- `operator+(Timestamp, DurationSeconds)`. -/
def addSeconds (t : Timestamp) (duration : ℕ) : Timestamp :=
  ⟨t.seconds + duration, t.nanos⟩

/-- A timestamp whose nanoseconds are a fraction of a second. -/
def Normal (t : Timestamp) : Prop := 0 ≤ t.nanos ∧ t.nanos < 1000000000

instance (t : Timestamp) : Decidable t.Normal :=
  inferInstanceAs (Decidable (_ ∧ _))

theorem eq_iff {a b : Timestamp} : a = b ↔ a.seconds = b.seconds ∧ a.nanos = b.nanos := by
  cases a
  cases b
  simp

theorem lt_iff {a b : Timestamp} :
    a.lt b = true ↔ a.seconds < b.seconds ∨ a.seconds = b.seconds ∧ a.nanos < b.nanos := by
  simp [lt]

theorem lt_eq_false {a b : Timestamp} :
    a.lt b = false ↔ ¬ (a.seconds < b.seconds ∨ a.seconds = b.seconds ∧ a.nanos < b.nanos) := by
  rw [← lt_iff]
  simp

theorem gt_eq (a b : Timestamp) : a.gt b = b.lt a := by
  have h : decide (a.seconds = b.seconds) = decide (b.seconds = a.seconds) :=
    decide_eq_decide.2 eq_comm
  simp only [gt, lt, gt_iff_lt, h]

theorem lt_irrefl (a : Timestamp) : a.lt a = false := by
  rw [lt_eq_false]
  omega

/-- The order of timestamps is total: `b` is not before `a` means `a` is not after `b`. -/
theorem le_trans_of_not_lt {a b c : Timestamp} (hab : b.lt a = false) (hbc : c.lt b = false) :
    c.lt a = false := by
  rw [lt_eq_false] at *
  omega

theorem eq_of_not_lt {a b : Timestamp} (hab : a.lt b = false) (hba : b.lt a = false) : a = b := by
  rw [lt_eq_false] at *
  rw [eq_iff]
  omega

@[simp] theorem getAsTimepoint_addSeconds (t : Timestamp) (d : ℕ) :
    (t.addSeconds d).getAsTimepoint = t.getAsTimepoint + d * microsecondsPerSecond := by
  simp only [addSeconds, getAsTimepoint, microsecondsPerSecond]
  omega

/-- Between normal timestamps the conversion to time points is monotone. -/
theorem getAsTimepoint_mono {a b : Timestamp} (ha : a.Normal) (hb : b.Normal)
    (h : b.lt a = false) : a.getAsTimepoint ≤ b.getAsTimepoint := by
  rw [lt_eq_false] at h
  obtain ⟨ha0, ha1⟩ := ha
  obtain ⟨hb0, hb1⟩ := hb
  simp only [getAsTimepoint, microsecondsPerSecond]
  rw [Int.tdiv_eq_ediv_of_nonneg ha0, Int.tdiv_eq_ediv_of_nonneg hb0]
  omega

/-- A time point survives the way through a timestamp. -/
@[simp] theorem getAsTimepoint_ofTimepoint (p : ℤ) : (ofTimepoint p).getAsTimepoint = p := by
  simp only [ofTimepoint, getAsTimepoint, microsecondsPerSecond]
  rw [Int.mul_tdiv_cancel _ (by decide)]
  have h := Int.tdiv_mul_add_tmod p 1000000
  exact h

/-- A date that is the same after a conversion to a time point and back. -/
def Survives (t : Timestamp) : Prop := ofTimepoint t.getAsTimepoint = t

instance (t : Timestamp) : Decidable t.Survives :=
  inferInstanceAs (Decidable (_ = _))

/-- These are the dates of whole microseconds, and before 1970 only those of whole seconds: there
the seconds are cut towards zero, and the fraction becomes negative. -/
theorem survives_iff_of_normal {t : Timestamp} (ht : t.Normal) :
    t.Survives ↔ t.nanos % 1000 = 0 ∧ (0 ≤ t.seconds ∨ t.nanos = 0) := by
  obtain ⟨h0, h1⟩ := ht
  have hpoint : t.getAsTimepoint = t.seconds * 1000000 + t.nanos / 1000 := by
    rw [getAsTimepoint, microsecondsPerSecond, Int.tdiv_eq_ediv_of_nonneg h0]
  unfold Survives ofTimepoint
  rw [hpoint, microsecondsPerSecond, eq_iff]
  dsimp only
  rcases lt_or_ge (t.seconds * 1000000 + t.nanos / 1000) 0 with hneg | hpos
  · -- the quotient of the opposite number is the one that is cut
    obtain ⟨p, hp⟩ : ∃ p, t.seconds * 1000000 + t.nanos / 1000 = -p := ⟨_, (Int.neg_neg _).symm⟩
    rw [hp, Int.neg_tdiv, Int.neg_tmod, Int.tdiv_eq_ediv_of_nonneg (by omega),
      Int.tmod_eq_emod_of_nonneg (by omega)]
    omega
  · rw [Int.tdiv_eq_ediv_of_nonneg hpos, Int.tmod_eq_emod_of_nonneg hpos]
    omega

/-- Since 1970 these are the dates of whole microseconds. -/
theorem survives_iff {t : Timestamp} (ht : t.Normal) (hseconds : 0 ≤ t.seconds) :
    t.Survives ↔ t.nanos % 1000 = 0 := by
  rw [survives_iff_of_normal ht]
  omega

end Timestamp

/-- `date::floor<date::days>`. -/
def floorDays (p : ℤ) : ℤ := p / (86400 * microsecondsPerSecond)

/-- `timepointAsYearMonthDay`: the epoch itself is treated as a date that was never set. -/
def timepointAsYearMonthDay (p : ℤ) : YearMonthDay :=
  if p = 0 then ⟨0, 0, 0⟩ else Calendar.civilFromDays (floorDays p)

/-- `TimestampSeconds::getAsYearMonth`. -/
def secondsAsYearMonth (seconds : ℤ) : ℤ × ℕ :=
  let ymd := Calendar.civilFromDays (floorDays (seconds * microsecondsPerSecond))
  (ymd.year, ymd.month)

theorem floorDays_mono {p q : ℤ} (h : p ≤ q) : floorDays p ≤ floorDays q :=
  Int.ediv_le_ediv (by decide) h

/-- Dates that are set are in the order of the time points. -/
theorem timepointAsYearMonthDay_mono {p q : ℤ} (h : p ≤ q) (hq : q ≠ 0) (hp : p ≠ 0) :
    ¬ timepointAsYearMonthDay q < timepointAsYearMonthDay p := by
  simp only [timepointAsYearMonthDay, if_neg hq, if_neg hp]
  rcases lt_or_eq_of_le (floorDays_mono h) with hlt | heq
  · have hlex := Calendar.civilFromDays_strictMono hlt
    rw [YearMonthDay.lt_def] at hlex ⊢
    omega
  · rw [heq, YearMonthDay.lt_def]
    omega

end Gradido
