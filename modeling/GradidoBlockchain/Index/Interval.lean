import GradidoBlockchain.Index.Matches

/-!
# Intervals of days

`recordCalls` is any sequence of calls of `addTransactionIndices`, calls that
throw included; the transactions that it records are those that got into the
day table.  `resolvesDays_iff` says exactly for which intervals the range that
`calculateTxRange` returns then holds the transactions of the days of the
interval: `Resolvable` excludes an interval whose first search is stopped too
early and intervals with one end at the epoch that are taken for unset.
-/

namespace Gradido

namespace TransactionsIndex

/-! ### Days -/

/-- The time points of the clock: nanoseconds in 64 bits. -/
def InClock (p : ℤ) : Prop := -9223372036854775 ≤ p ∧ p ≤ 9223372036854775

/-- The calendar day of a time point. -/
def calendarDay (p : ℤ) : YearMonthDay := Calendar.civilFromDays (floorDays p)

/-- The day of the epoch. -/
def epochDay : YearMonthDay := ⟨1970, 1, 1⟩

theorem calendarDay_mono {p q : ℤ} (h : p ≤ q) : ¬ calendarDay q < calendarDay p := by
  unfold calendarDay
  rcases lt_or_eq_of_le (floorDays_mono h) with hlt | heq
  · have hlex := Calendar.civilFromDays_strictMono hlt
    rw [YearMonthDay.lt_def] at hlex ⊢
    omega
  · rw [heq, YearMonthDay.lt_def]
    omega

theorem calendarDay_zero : calendarDay 0 = epochDay := by decide

/-- The clock starts in 1677. -/
theorem calendarDate_calendarDay {p : ℤ} (hp : InClock p) : CalendarDate (calendarDay p) := by
  obtain ⟨h1, h2, h3, h4⟩ := Calendar.civilFromDays_bounds (floorDays p)
  refine ⟨h1, h2, h3, h4, ?_⟩
  have hmono := calendarDay_mono hp.1
  have hstart : calendarDay (-9223372036854775) = ⟨1677, 9, 21⟩ := by decide
  rw [hstart, YearMonthDay.lt_def] at hmono
  unfold calendarDay at hmono ⊢
  dsimp only at hmono
  omega

theorem timepointAsYearMonthDay_of_ne {p : ℤ} (hp : p ≠ 0) :
    timepointAsYearMonthDay p = calendarDay p := by
  rw [timepointAsYearMonthDay, if_neg hp]
  rfl

theorem timepointAsYearMonthDay_zero : timepointAsYearMonthDay 0 = zeroDate := rfl

theorem zeroDate_lt {d : YearMonthDay} (hd : CalendarDate d) : zeroDate < d := by
  unfold CalendarDate at hd
  rw [YearMonthDay.lt_def]
  simp only [zeroDate]
  omega

/-- A transaction was confirmed on a calendar day of an interval; an interval that is not set has
all days. -/
def InDays (i : TimepointInterval) (c : ConfirmedGradidoTx) : Prop :=
  i.isEmpty = true ∨ ¬ calendarDay c.confirmedAt.getAsTimepoint < calendarDay i.startDate ∧
    ¬ calendarDay i.endDate < calendarDay c.confirmedAt.getAsTimepoint

/-! ### Sequences of calls -/

/-- Transactions with increasing numbers, in the order of their confirmation. -/
structure Chronological (cs : List ConfirmedGradidoTx) : Prop where
  positive : ∀ c ∈ cs, 0 < c.txNr
  numbered : cs.Pairwise (fun a b => a.txNr < b.txNr)
  dated : cs.Pairwise (fun a b => a.confirmedAt.getAsTimepoint ≤ b.confirmedAt.getAsTimepoint)
  clock : ∀ c ∈ cs, InClock c.confirmedAt.getAsTimepoint

/-- One call: the index, and the transactions that got into the day table. -/
def recordCall (env : Env) (r : TransactionsIndex × List ConfirmedGradidoTx)
    (c : ConfirmedGradidoTx) : TransactionsIndex × List ConfirmedGradidoTx :=
  ((r.1.addTransactionIndices env c).1,
    if (r.1.updateYearMonthDayTxRange c.date c.txNr).2.isOk then r.2 ++ [c] else r.2)

/-- The calls for a list of transactions, starting with the index of a new blockchain. -/
def recordCalls (env : Env) (own : ℕ) (cs : List ConfirmedGradidoTx) :
    TransactionsIndex × List ConfirmedGradidoTx :=
  cs.foldl (recordCall env) (empty own, [])

section Steps

variable {env : Env} {own : ℕ} {cs : List ConfirmedGradidoTx} {c : ConfirmedGradidoTx}

/-- What `updateYearMonthDayTxRange` does: it throws and changes the range of numbers and the room
for months only, or it records the transaction. -/
theorem updateYearMonthDayTxRange_cases (idx : TransactionsIndex)
    (hle : idx.mMinTransactionNr ≤ c.txNr) :
    ∃ rows, idx.monthCount ≤ rows ∧
      ((idx.updateYearMonthDayTxRange c.date c.txNr).2.isOk = false ∧
          (idx.updateYearMonthDayTxRange c.date c.txNr).1 =
            { idx with
              mMinTransactionNr :=
                if idx.mMinTransactionNr = 0 then c.txNr else idx.mMinTransactionNr
              mMaxTransactionNr := max idx.mMaxTransactionNr c.txNr
              monthCount := rows } ∨
        (idx.updateYearMonthDayTxRange c.date c.txNr).2.isOk = true ∧ c.date.day ≠ 0 ∧
          0 ≤ monthDistance (idx.minDateFor c.date) c.date ∧
          monthDistance (idx.minDateFor c.date) c.date < rows ∧
          (idx.updateYearMonthDayTxRange c.date c.txNr).1 =
            { idx with
              mMinTransactionNr :=
                if idx.mMinTransactionNr = 0 then c.txNr else idx.mMinTransactionNr
              mMaxTransactionNr := max idx.mMaxTransactionNr c.txNr
              monthCount := rows
              mMinDate := idx.minDateFor c.date
              mMaxDate := if idx.mMaxDate < c.date then c.date else idx.mMaxDate
              mDayMonthYearTxRanges := Function.update idx.mDayMonthYearTxRanges
                ((monthDistance (idx.minDateFor c.date) c.date).toNat * 31 + (c.date.day - 1))
                (max (idx.mDayMonthYearTxRanges ((monthDistance (idx.minDateFor c.date)
                  c.date).toNat * 31 + (c.date.day - 1))) c.txNr) }) := by
  have hmin : ¬ c.txNr <
      (if idx.mMinTransactionNr = 0 then c.txNr else idx.mMinTransactionNr) := by
    split_ifs <;> omega
  unfold updateYearMonthDayTxRange
  simp only [if_neg hmin]
  have hrows : idx.monthCount ≤ (if decide (0 ≤ monthDistance (idx.minDateFor c.date) c.date ∧
      monthDistance (idx.minDateFor c.date) c.date < idx.monthCount) = true
      then idx.monthCount else idx.monthCount + resizeStepSize) := by
    split_ifs <;> omega
  refine ⟨_, hrows, ?_⟩
  generalize (if decide (0 ≤ monthDistance (idx.minDateFor c.date) c.date ∧
    monthDistance (idx.minDateFor c.date) c.date < idx.monthCount) = true
    then idx.monthCount else idx.monthCount + resizeStepSize) = rows
  by_cases hfits : 0 ≤ monthDistance (idx.minDateFor c.date) c.date ∧
      monthDistance (idx.minDateFor c.date) c.date < rows
  · rw [if_neg (not_not.2 hfits)]
    by_cases hday : c.date.day = 0
    · -- the epoch has no day, and is no month to count from
      rw [if_pos hday]
      have hsame : idx.minDateFor c.date = idx.mMinDate := by
        unfold minDateFor
        split_ifs with hzero
        · rw [date_eq_zeroDate hday, hzero]
        · rfl
      rw [hsame]
      exact .inl ⟨rfl, rfl⟩
    · rw [if_neg hday]
      exact .inr ⟨rfl, hday, hfits.1, hfits.2, rfl⟩
  · rw [if_pos hfits]
    exact .inl ⟨rfl, rfl⟩

/-- The bitmaps are a part of the index of their own. -/
theorem addBitmaps_frame (addresses : List PublicKeyIndex) (idx : TransactionsIndex) :
    ∃ involved types coins, idx.addBitmaps env c addresses =
      { idx with
        mInvolvedPublicKeys := involved
        mTxPerType := types
        mOtherCoinCommunityTx := coins } := by
  obtain ⟨-, -, involved, hinvolved⟩ := @foldl_addInvolvedAddress env c addresses idx
  unfold addBitmaps
  obtain ⟨-, -, coins, hcoins⟩ := @foldl_addCoinCommunity c c.accountBalances
    { addresses.foldl (addInvolvedAddress env c) idx with
      mTxPerType := Function.update (addresses.foldl (addInvolvedAddress env c) idx).mTxPerType
        c.transactionType (((addresses.foldl (addInvolvedAddress env c) idx).mTxPerType
          c.transactionType).add c.txNr) }
  rw [hcoins, hinvolved]
  exact ⟨_, _, _, rfl⟩

/-- The bitmaps of a call leave its day table alone. -/
theorem addTransactionIndices_days (idx : TransactionsIndex) :
    ∃ involved types coins addressIndex, (idx.addTransactionIndices env c).1 =
      { (idx.updateYearMonthDayTxRange c.date c.txNr).1 with
        mInvolvedPublicKeys := involved
        mTxPerType := types
        mOtherCoinCommunityTx := coins
        mAddressIndex := addressIndex } := by
  obtain ⟨idx₁, rfl, ⟨-, heq, -⟩ | ⟨-, addresses, addressIndex, -, heq⟩⟩ :=
    @addTransactionIndices_frame env c idx
  · exact ⟨_, _, _, _, heq⟩
  · obtain ⟨involved, types, coins, hbitmaps⟩ := @addBitmaps_frame env c addresses
      (idx.updateYearMonthDayTxRange c.date c.txNr).1
    rw [heq, hbitmaps]
    exact ⟨_, _, _, _, rfl⟩

theorem Chronological.of_concat (h : Chronological (cs ++ [c])) : Chronological cs where
  positive := fun c' hc' => h.positive c' (List.mem_append_left _ hc')
  numbered := (List.pairwise_append.1 h.numbered).1
  dated := (List.pairwise_append.1 h.dated).1
  clock := fun c' hc' => h.clock c' (List.mem_append_left _ hc')

/-- What holds after a sequence of calls. -/
structure Records (cs : List ConfirmedGradidoTx)
    (r : TransactionsIndex × List ConfirmedGradidoTx) : Prop where
  sublist : List.Sublist r.2 cs
  days : ∀ c ∈ r.2, c.date.day ≠ 0
  minNr : r.1.mMinTransactionNr = firstNr cs
  bounds : ∀ c ∈ cs, r.1.mMinTransactionNr ≤ c.txNr ∧ c.txNr ≤ r.1.mMaxTransactionNr
  minDate : r.1.mMinDate = firstDate r.2
  maxDate : r.1.mMaxDate = latestDate r.2
  cells : r.1.mDayMonthYearTxRanges = lastInCell (firstDate r.2) r.2
  rows : ∀ c ∈ r.2, 0 ≤ monthDistance (firstDate r.2) c.date ∧
    monthDistance (firstDate r.2) c.date < r.1.monthCount
  monthCount : 0 < r.1.monthCount

/-- The range of numbers with a further transaction. -/
theorem Records.bounds_append {r : TransactionsIndex × List ConfirmedGradidoTx} (h : Records cs r)
    (hcs : Chronological (cs ++ [c])) : ∀ c' ∈ cs ++ [c],
      (if r.1.mMinTransactionNr = 0 then c.txNr else r.1.mMinTransactionNr) ≤ c'.txNr ∧
        c'.txNr ≤ max r.1.mMaxTransactionNr c.txNr := by
  intro c' hc'
  rcases List.mem_append.1 hc' with hc' | hc'
  · have hbounds := h.bounds c' hc'
    have hne : r.1.mMinTransactionNr ≠ 0 := by
      rw [h.minNr]
      cases cs with
      | nil => simp at hc'
      | cons a cs => exact (hcs.positive a (by simp)).ne'
    rw [if_neg hne]
    omega
  · have hle : r.1.mMinTransactionNr ≤ c.txNr := by
      rw [h.minNr]
      cases cs with
      | nil => exact Nat.zero_le _
      | cons a cs =>
        exact ((List.pairwise_append.1 hcs.numbered).2.2 a List.mem_cons_self c (by simp)).le
    rw [List.mem_singleton.1 hc']
    split_ifs <;> omega

/-- **One more call** keeps it. -/
theorem Records.recordCall {r : TransactionsIndex × List ConfirmedGradidoTx} (h : Records cs r)
    (hcs : Chronological (cs ++ [c])) : Records (cs ++ [c]) (recordCall env r c) := by
  have hpos := hcs.positive c (by simp)
  have hmin : (if r.1.mMinTransactionNr = 0 then c.txNr else r.1.mMinTransactionNr) =
      firstNr (cs ++ [c]) := by
    rw [h.minNr]
    cases cs with
    | nil => rfl
    | cons a cs => exact if_neg (hcs.positive a (by simp)).ne'
  have hbounds := h.bounds_append hcs
  have hle : r.1.mMinTransactionNr ≤ c.txNr := by
    have hfirst := (hbounds c (by simp)).1
    split_ifs at hfirst <;> omega
  have hminDate := minDateFor_eq h.minDate h.days c
  obtain ⟨rows, hrows, hcases⟩ := updateYearMonthDayTxRange_cases r.1 hle
  obtain ⟨involved, types, coins, addressIndex, hindex⟩ := @addTransactionIndices_days env c r.1
  have hcount := h.monthCount
  unfold TransactionsIndex.recordCall
  rw [hindex]
  rcases hcases with ⟨hok, heq⟩ | ⟨hok, hday, hmonth0, hmonth1, heq⟩
  · simp only [hok, heq, Bool.false_eq_true, if_false]
    exact {
      sublist := h.sublist.trans (List.sublist_append_left cs [c])
      days := h.days
      minNr := hmin
      bounds := hbounds
      minDate := h.minDate
      maxDate := h.maxDate
      cells := h.cells
      rows := by
        intro c' hc'
        have hfits := h.rows c' hc'
        exact ⟨hfits.1, hfits.2.trans_le (by exact_mod_cast hrows)⟩
      monthCount := hcount.trans_le hrows }
  · rw [hminDate] at hmonth0 hmonth1
    simp only [hok, heq, hminDate, if_true]
    exact {
      sublist := h.sublist.append (List.Sublist.refl [c])
      days := by
        intro c' hc'
        rcases List.mem_append.1 hc' with hc' | hc'
        · exact h.days c' hc'
        · rw [List.mem_singleton.1 hc']
          exact hday
      minNr := hmin
      bounds := hbounds
      minDate := rfl
      maxDate := by rw [latestDate_append, ← h.maxDate]
      cells := by
        rw [lastInCell_append, ← lastInCell_firstDate, ← h.cells]
        rfl
      rows := by
        intro c' hc'
        rcases List.mem_append.1 hc' with hc' | hc'
        · have hfits := h.rows c' hc'
          rw [firstDate_append_of_ne_nil (List.ne_nil_of_mem hc')]
          exact ⟨hfits.1, hfits.2.trans_le (by exact_mod_cast hrows)⟩
        · rw [List.mem_singleton.1 hc']
          exact ⟨hmonth0, hmonth1⟩
      monthCount := hcount.trans_le hrows }

/-- **A sequence of calls**. -/
theorem records_recordCalls (hcs : Chronological cs) :
    Records cs (recordCalls env own cs) := by
  induction cs using List.reverseRecOn with
  | nil =>
    exact {
      sublist := List.Sublist.refl []
      days := by simp [recordCalls]
      minNr := rfl
      bounds := by simp
      minDate := rfl
      maxDate := rfl
      cells := rfl
      rows := by simp [recordCalls]
      monthCount := by
        change 0 < resizeStepSize
        decide }
  | append_singleton cs c ih =>
    rw [recordCalls, List.foldl_concat]
    exact (ih hcs.of_concat).recordCall hcs

/-- The day table of the recorded transactions. -/
theorem Records.dayTable {r : TransactionsIndex × List ConfirmedGradidoTx} (h : Records cs r)
    (hcs : Chronological cs) : DayTable r.2 r.1 where
  minDate := h.minDate
  maxDate := h.maxDate
  cells := h.cells
  minNr := by
    intro hne
    obtain ⟨c, hc⟩ := List.exists_mem_of_ne_nil r.2 hne
    rw [h.minNr]
    have hmem := h.sublist.subset hc
    cases cs with
    | nil => simp at hmem
    | cons a cs => exact hcs.positive a List.mem_cons_self
  bounds := fun c hc => h.bounds c (h.sublist.subset hc)
  numbered := hcs.numbered.sublist h.sublist
  dated := by
    refine ((hcs.dated.sublist h.sublist).imp_of_mem ?_)
    intro a b ha hb hle
    refine timepointAsYearMonthDay_mono hle ?_ ?_
    · intro hzero
      exact h.days b hb (by rw [ConfirmedGradidoTx.date, hzero]; rfl)
    · intro hzero
      exact h.days a ha (by rw [ConfirmedGradidoTx.date, hzero]; rfl)
  days := by
    intro c hc
    have hne : c.confirmedAt.getAsTimepoint ≠ 0 := by
      intro hzero
      exact h.days c hc (by rw [ConfirmedGradidoTx.date, hzero]; rfl)
    rw [ConfirmedGradidoTx.date, timepointAsYearMonthDay_of_ne hne]
    exact calendarDate_calendarDay (hcs.clock c (h.sublist.subset hc))

/-- The date of a recorded transaction is its calendar day. -/
theorem Records.date_eq {r : TransactionsIndex × List ConfirmedGradidoTx} (h : Records cs r)
    (hc : c ∈ r.2) : c.date = calendarDay c.confirmedAt.getAsTimepoint := by
  refine timepointAsYearMonthDay_of_ne ?_
  intro hzero
  exact h.days c hc (by rw [ConfirmedGradidoTx.date, hzero]; rfl)

end Steps

/-! ### Resolving an interval -/

/-- The cursors of the two searches start inside of the day table, and move towards its first
cell. -/
def ScansInside (idx : TransactionsIndex) (s e : YearMonthDay) : Prop :=
  ¬ idx.mMaxDate < s → ¬ e < idx.mMinDate → ¬ (s = idx.mMinDate ∧ e = idx.mMaxDate) →
    (idx.yearMonthToIndex e < idx.monthCount ∧ (idx.mMaxDate < e ∨ 1 ≤ e.day ∧ e.day ≤ 31)) ∧
      (idx.mMinDate < s → idx.yearMonthToIndex s < idx.monthCount ∧ 1 ≤ s.day ∧ s.day ≤ 31)

/-- The searches stay inside of the table, and the range stands for the recorded transactions of
the days of the interval. -/
def ResolvesDays (r : TransactionsIndex × List ConfirmedGradidoTx) (f : CompactFilter) : Prop :=
  ScansInside r.1 (timepointAsYearMonthDay f.timepointInterval.startDate)
      (timepointAsYearMonthDay f.timepointInterval.endDate) ∧
    Covers r.2 (r.1.calculateTxRange f) (InDays f.timepointInterval)

/-- The intervals that are resolved.

* Without an interval there is a transaction.
* An end of the interval at the epoch is no different from an end that was never set.
* The first search is not stopped too early. -/
structure Resolvable (ds : List ConfirmedGradidoTx) (i : TimepointInterval) : Prop where
  unset : i.isEmpty = true → ds ≠ []
  fromEpoch : i.startDate = 0 → i.endDate ≠ 0 → ∀ c ∈ ds, ¬ c.date < epochDay
  toEpoch : i.startDate ≠ 0 → i.endDate = 0 → ∀ c ∈ ds,
    c.date < calendarDay i.startDate ∨ epochDay < c.date
  stops : i.startDate ≠ 0 → i.endDate ≠ 0 →
    ¬ StopsEarly ds (calendarDay i.startDate) (calendarDay i.endDate)

section Resolve

variable {cs : List ConfirmedGradidoTx} {r : TransactionsIndex × List ConfirmedGradidoTx}
  {f : CompactFilter}

/-- Before the first recorded transaction nothing is found. -/
theorem Records.rangeOfDates_nil (h : Records cs r) (hnil : r.2 = []) {s e : YearMonthDay}
    (hs : s = zeroDate ∨ zeroDate < s) (he : zeroDate < e) : r.1.rangeOfDates s e = none := by
  have hmin : r.1.mMinDate = zeroDate := by
    rw [h.minDate, hnil]
    rfl
  have hmax : r.1.mMaxDate = zeroDate := by
    rw [h.maxDate, hnil]
    rfl
  have hcells : r.1.mDayMonthYearTxRanges = fun _ => 0 := by
    rw [h.cells, hnil]
    rfl
  have hscan : ∀ stop n, scanEnd (fun _ => 0) stop n = 0 := by
    intro stop n
    induction n with
    | zero => rfl
    | succ n ih =>
      unfold scanEnd
      rw [if_neg (by simp)]
      split_ifs
      · rfl
      · exact ih
  have hrange : r.1.getTxRangeOfInterval s e = (0, 0) := by
    unfold getTxRangeOfInterval
    simp only [hcells, hscan, if_true]
  unfold rangeOfDates
  rw [hmin, hmax, hrange, if_pos (show ((0 : ℕ), (0 : ℕ)) = (0, 0) from rfl)]
  rcases hs with rfl | hs
  · have hne : ¬ (zeroDate = zeroDate ∧ e = zeroDate) := by
      rintro ⟨-, rfl⟩
      rw [YearMonthDay.lt_def] at he
      omega
    rw [if_neg hne]
    split_ifs <;> rfl
  · rw [if_pos (.inl hs)]

/-- Without an interval. -/
theorem Records.covers_unset (h : Records cs r) (hcs : Chronological cs)
    (hmin : f.minTransactionNr = 0) (hmax : f.maxTransactionNr = 0)
    (hunset : f.timepointInterval.isEmpty = true) :
    Covers r.2 (r.1.calculateTxRange f) (InDays f.timepointInterval) ↔ r.2 ≠ [] := by
  have htable := h.dayTable hcs
  have hdates : ¬ r.1.mMaxDate < r.1.mMinDate := by
    rw [h.maxDate, h.minDate]
    by_cases hne : r.2 = []
    · rw [hne]
      decide
    · obtain ⟨m, hm, heq⟩ := htable.latestDate_eq hne
      rw [heq]
      exact htable.firstDate_le hm
  rw [calculateTxRange_of_isEmpty hdates hunset, hmin, hmax, if_neg (by simp)]
  constructor
  · rintro ⟨hnone, -⟩ hnil
    rw [hnil] at hnone
    exact absurd (hnone.2 (by simp)) (by simp)
  · intro hne
    obtain ⟨c, hc⟩ := List.exists_mem_of_ne_nil _ hne
    refine covers_some ⟨c, hc, .inl hunset⟩ ?_
    intro c hc
    have hbounds := htable.bounds c hc
    refine iff_of_true ⟨by omega, ?_⟩ (.inl hunset)
    simpa [cappedNr, hmax] using hbounds.2

/-- An interval that starts at the epoch. -/
theorem Records.covers_fromEpoch (h : Records cs r) (hcs : Chronological cs) {e : ℤ} (he : 0 < e)
    (hclock : InClock e) :
    Covers r.2 (r.1.rangeOfDates zeroDate (calendarDay e)) (InDays ⟨0, e⟩) ↔
      ∀ c ∈ r.2, ¬ c.date < epochDay := by
  have htable := h.dayTable hcs
  have hcalendar := calendarDate_calendarDay hclock
  have hepoch := calendarDay_mono he.le
  have hdays : ∀ c ∈ r.2, (InDays ⟨0, e⟩ c ↔
      ¬ c.date < epochDay ∧ ¬ calendarDay e < c.date) := by
    intro c hc
    unfold InDays
    rw [← h.date_eq hc]
    simp only [TimepointInterval.isEmpty, calendarDay_zero, he.ne', decide_false, Bool.and_false,
      Bool.false_eq_true, false_or]
  rw [calendarDay_zero] at hepoch
  rw [covers_congr hdays]
  by_cases hnil : r.2 = []
  · rw [h.rangeOfDates_nil hnil (.inl rfl) (zeroDate_lt hcalendar), hnil]
    exact iff_of_true (covers_none (by simp)) (by simp)
  have hcovers := (htable.covers_upTo hnil hcalendar).1
  constructor
  · intro hdates c hc hlt
    -- it is before the end, and so in the range
    have hend : ¬ calendarDay e < c.date := by
      rw [YearMonthDay.lt_def] at *
      omega
    cases hrange : r.1.rangeOfDates zeroDate (calendarDay e) with
    | none => exact hcovers.1.1 hrange c hc hend
    | some range =>
      have hin := (hcovers.2 range.1 range.2 hrange c hc).2 hend
      exact ((hdates.2 range.1 range.2 hrange c hc).1 hin).1 hlt
  · intro hlater
    refine (covers_congr ?_).1 hcovers
    intro c hc
    exact (and_iff_right (hlater c hc)).symm

/-- An interval that ends at the epoch. -/
theorem Records.covers_toEpoch (h : Records cs r) (hcs : Chronological cs) {s : ℤ} (hs : s < 0)
    (hclock : InClock s) :
    Covers r.2 (r.1.rangeOfDates (calendarDay s) zeroDate) (InDays ⟨s, 0⟩) ↔
      ∀ c ∈ r.2, c.date < calendarDay s ∨ epochDay < c.date := by
  have htable := h.dayTable hcs
  have hnone : r.1.rangeOfDates (calendarDay s) zeroDate = none := by
    unfold rangeOfDates
    rw [h.maxDate, h.minDate]
    by_cases hnil : r.2 = []
    · rw [hnil]
      exact if_pos (.inl (zeroDate_lt (calendarDate_calendarDay hclock)))
    · exact if_pos (.inr (zeroDate_lt (htable.calendarDate_firstDate hnil)))
  rw [hnone]
  have hdays : ∀ c ∈ r.2, (¬ InDays ⟨s, 0⟩ c ↔
      (c.date < calendarDay s ∨ epochDay < c.date)) := by
    intro c hc
    unfold InDays
    rw [← h.date_eq hc]
    simp only [TimepointInterval.isEmpty, calendarDay_zero, hs.ne, decide_false, Bool.false_and,
      Bool.false_eq_true, false_or, not_and_or, not_not]
  constructor
  · rintro ⟨hnone, -⟩ c hc
    exact (hdays c hc).1 (hnone.1 rfl c hc)
  · intro hout
    exact covers_none (fun c hc => (hdays c hc).2 (hout c hc))

/-- An interval with both ends. -/
theorem Records.covers_dates (h : Records cs r) (hcs : Chronological cs) {s e : ℤ} (hs : s ≠ 0)
    (hle : s ≤ e) (hclocks : InClock s) (hclocke : InClock e) :
    Covers r.2 (r.1.rangeOfDates (calendarDay s) (calendarDay e)) (InDays ⟨s, e⟩) ↔
      ¬ StopsEarly r.2 (calendarDay s) (calendarDay e) := by
  have htable := h.dayTable hcs
  have hcalendars := calendarDate_calendarDay hclocks
  have hcalendare := calendarDate_calendarDay hclocke
  have hmono := calendarDay_mono hle
  have hdays : ∀ c ∈ r.2, (InDays ⟨s, e⟩ c ↔
      ¬ c.date < calendarDay s ∧ ¬ calendarDay e < c.date) := by
    intro c hc
    unfold InDays
    rw [← h.date_eq hc]
    simp only [TimepointInterval.isEmpty, hs, decide_false, Bool.false_and, Bool.false_eq_true,
      false_or]
  rw [covers_congr hdays]
  by_cases hnil : r.2 = []
  · rw [h.rangeOfDates_nil hnil (.inr (zeroDate_lt hcalendars)) (zeroDate_lt hcalendare), hnil]
    refine iff_of_true (covers_none (by simp)) ?_
    intro hstops
    have hlt := zeroDate_lt hcalendars
    have hbefore := hstops.before
    change calendarDay s < zeroDate at hbefore
    rw [YearMonthDay.lt_def] at *
    omega
  by_cases hstops : StopsEarly r.2 (calendarDay s) (calendarDay e)
  · rw [htable.early hcalendars hcalendare hnil hstops]
    refine iff_of_false ?_ (not_not.2 hstops)
    rintro ⟨hnone, -⟩
    -- the first transaction is of the days of the interval
    obtain ⟨c, hc, heq⟩ := firstDate_mem hnil
    have hbefore := hstops.before
    refine hnone.1 rfl c hc ⟨?_, heq ▸ hstops.within⟩
    rw [heq] at hbefore
    rw [YearMonthDay.lt_def] at *
    omega
  · exact iff_of_true (htable.covers_dates hnil hcalendars hcalendare hmono hstops).1 hstops

/-- The month of a date that is not before the first one has a row. -/
theorem Records.yearMonthToIndex_lt (h : Records cs r) (hcs : Chronological cs) (hne : r.2 ≠ [])
    {d : YearMonthDay} (hd : CalendarDate d) (hfirst : ¬ d < firstDate r.2) :
    r.1.yearMonthToIndex d < r.1.monthCount := by
  have htable := h.dayTable hcs
  obtain ⟨m, hm, heq⟩ := htable.latestDate_eq hne
  have hrow := h.rows m hm
  have hlast := htable.days m hm
  have hstart := htable.calendarDate_firstDate hne
  unfold yearMonthToIndex
  rw [h.minDate, h.maxDate, if_neg (htable.firstDate_ne_zeroDate hne), if_neg hfirst, heq]
  by_cases hmax : m.date < d
  · rw [if_pos hmax]
    omega
  · rw [if_neg hmax]
    unfold monthDistance at hrow ⊢
    unfold CalendarDate at hd hlast hstart
    rw [YearMonthDay.lt_def] at *
    omega

/-- **The searches stay inside of the table**. -/
theorem Records.scansInside (h : Records cs r) (hcs : Chronological cs) {s e : YearMonthDay}
    (hs : s = zeroDate ∨ CalendarDate s) (he : e = zeroDate ∨ CalendarDate e) :
    ScansInside r.1 s e := by
  have htable := h.dayTable hcs
  intro hmax hmin hwhole
  by_cases hnil : r.2 = []
  · have hminDate : r.1.mMinDate = zeroDate := by
      rw [h.minDate, hnil]
      rfl
    have hmaxDate : r.1.mMaxDate = zeroDate := by
      rw [h.maxDate, hnil]
      rfl
    rw [hminDate, hmaxDate] at hwhole
    rw [hmaxDate] at hmax
    have hszero : s = zeroDate := hs.resolve_right (fun hs => hmax (zeroDate_lt hs))
    have hecalendar : CalendarDate e := he.resolve_left (fun he => hwhole ⟨hszero, he⟩)
    rw [hminDate, hmaxDate]
    refine ⟨⟨?_, .inl (zeroDate_lt hecalendar)⟩, fun hlt => absurd hlt hmax⟩
    unfold yearMonthToIndex
    rw [if_pos hminDate]
    exact h.monthCount
  · rw [h.minDate] at hmin
    have hstart := htable.calendarDate_firstDate hnil
    have hecalendar : CalendarDate e := by
      refine he.resolve_left ?_
      rintro rfl
      exact hmin (zeroDate_lt hstart)
    refine ⟨⟨h.yearMonthToIndex_lt hcs hnil hecalendar hmin, .inr ?_⟩, ?_⟩
    · exact ⟨hecalendar.2.2.1, hecalendar.2.2.2.1⟩
    · rw [h.minDate]
      intro hlt
      have hscalendar : CalendarDate s := by
        refine hs.resolve_left ?_
        rintro rfl
        have hzero := zeroDate_lt hstart
        rw [YearMonthDay.lt_def] at hlt hzero
        omega
      refine ⟨h.yearMonthToIndex_lt hcs hnil hscalendar ?_, hscalendar.2.2.1,
        hscalendar.2.2.2.1⟩
      rw [YearMonthDay.lt_def] at hlt ⊢
      omega

end Resolve

/-- **Intervals are resolved** exactly under the conditions of `Resolvable`. -/
theorem resolvesDays_iff (env : Env) (own : ℕ) {cs : List ConfirmedGradidoTx}
    (hcs : Chronological cs) {f : CompactFilter} (hmin : f.minTransactionNr = 0)
    (hmax : f.maxTransactionNr = 0)
    (hle : f.timepointInterval.startDate ≤ f.timepointInterval.endDate)
    (hstart : InClock f.timepointInterval.startDate) (hend : InClock f.timepointInterval.endDate) :
    ResolvesDays (recordCalls env own cs) f ↔
      Resolvable (recordCalls env own cs).2 f.timepointInterval := by
  have h := @records_recordCalls env own cs hcs
  generalize recordCalls env own cs = r at *
  have hdate : ∀ p, InClock p →
      timepointAsYearMonthDay p = zeroDate ∨ CalendarDate (timepointAsYearMonthDay p) := by
    intro p hp
    by_cases hzero : p = 0
    · exact .inl (by rw [hzero]; rfl)
    · exact .inr (timepointAsYearMonthDay_of_ne hzero ▸ calendarDate_calendarDay hp)
  unfold ResolvesDays
  rw [and_iff_right (h.scansInside hcs (hdate _ hstart) (hdate _ hend))]
  by_cases hunset : f.timepointInterval.isEmpty = true
  · rw [h.covers_unset hcs hmin hmax hunset]
    simp only [TimepointInterval.isEmpty, Bool.and_eq_true, decide_eq_true_eq] at hunset
    constructor
    · intro hne
      exact ⟨fun _ => hne, fun _ hset => absurd hunset.2 hset, fun hset => absurd hunset.1 hset,
        fun hset => absurd hunset.1 hset⟩
    · intro hresolvable
      exact hresolvable.unset (by simp [TimepointInterval.isEmpty, hunset])
  have hset : f.timepointInterval.isEmpty = false := by simpa using hunset
  rw [calculateTxRange_eq_rangeOfDates hmin hmax hset]
  generalize f.timepointInterval = i at *
  obtain ⟨s, e⟩ := i
  dsimp only at *
  by_cases hs : s = 0
  · subst hs
    have he : 0 < e := by
      simp only [TimepointInterval.isEmpty, decide_true, Bool.true_and, decide_eq_false_iff_not]
        at hset
      omega
    rw [timepointAsYearMonthDay_zero, timepointAsYearMonthDay_of_ne he.ne',
      h.covers_fromEpoch hcs he hend]
    constructor
    · intro hlater
      exact ⟨fun hempty => by simp [hset] at hempty, fun _ _ => hlater,
        fun hne => absurd rfl hne, fun hne => absurd rfl hne⟩
    · intro hresolvable
      exact hresolvable.fromEpoch rfl he.ne'
  by_cases he : e = 0
  · subst he
    rw [timepointAsYearMonthDay_zero, timepointAsYearMonthDay_of_ne hs,
      h.covers_toEpoch hcs (by omega) hstart]
    constructor
    · intro hout
      exact ⟨fun hempty => by simp [hset] at hempty, fun hzero => absurd hzero hs,
        fun _ _ => hout, fun _ hne => absurd rfl hne⟩
    · intro hresolvable
      exact hresolvable.toEpoch hs rfl
  · rw [timepointAsYearMonthDay_of_ne hs, timepointAsYearMonthDay_of_ne he,
      h.covers_dates hcs hs hle hstart hend]
    constructor
    · intro hstops
      exact ⟨fun hempty => by simp [hset] at hempty, fun hzero => absurd hzero hs,
        fun _ hzero => absurd hzero he, fun _ _ => hstops⟩
    · intro hresolvable
      exact hresolvable.stops hs he

/-- The community root, confirmed on the fifth of January 2024. -/
def january5 : ConfirmedGradidoTx :=
  { rootTx with confirmedAt := ⟨Sample.midnight + 4 * 86400, 0⟩ }

/-- A registration on the tenth of January. -/
def january10 : ConfirmedGradidoTx where
  txNr := 2
  confirmedAt := ⟨Sample.midnight + 9 * 86400, 0⟩
  txCommunityIdIndex := 1
  coinCommunityIdIndex := 1
  crossGroupType := .localGroup
  transactionType := .registerAddress
  accountBalances := [⟨0, 1, 11⟩]
  specific := .registerAddress .communityHuman 10 11
  pairingTxCommunityIdIndex := 0
  signaturePublicKeys := [1, 10, 11]

/-- A filter for days, counted from the first of January 2024. -/
def dayFilter (first last : ℤ) : CompactFilter where
  timepointInterval :=
    ⟨(Sample.midnight + first * 86400) * microsecondsPerSecond,
      (Sample.midnight + last * 86400) * microsecondsPerSecond⟩

theorem chronological_january : Chronological [january5, january10] where
  positive := by decide
  numbered := by decide
  dated := by decide
  clock := by
    unfold InClock
    decide

theorem recorded_january :
    (recordCalls Sample.env 1 [january5, january10]).2 = [january5, january10] := rfl

/-- From the twentieth of November to the twenty-fifth of January nothing is found: the search from
the end of January is stopped at the cell of the twentieth of January. -/
theorem january_not_resolvesDays :
    Chronological [january5, january10] ∧
      (dayFilter (-42) 24).timepointInterval.startDate ≤
        (dayFilter (-42) 24).timepointInterval.endDate ∧
      InClock (dayFilter (-42) 24).timepointInterval.startDate ∧
      InClock (dayFilter (-42) 24).timepointInterval.endDate ∧
      ¬ ResolvesDays (recordCalls Sample.env 1 [january5, january10]) (dayFilter (-42) 24) := by
  refine ⟨chronological_january, by decide, ⟨by decide, by decide⟩, ⟨by decide, by decide⟩, ?_⟩
  rintro ⟨-, hnone, -⟩
  have hrange : (recordCalls Sample.env 1 [january5, january10]).1.calculateTxRange
      (dayFilter (-42) 24) = none := by
    decide +kernel
  refine hnone.1 hrange january5 (by rw [recorded_january]; simp) (.inr ?_)
  decide +kernel

/-- From the fifth of November on both are found. -/
theorem january_resolvesDays :
    ResolvesDays (recordCalls Sample.env 1 [january5, january10]) (dayFilter (-57) 24) := by
  refine (resolvesDays_iff Sample.env 1 chronological_january rfl rfl (by decide)
    ⟨by decide, by decide⟩ ⟨by decide, by decide⟩).2 ⟨?_, ?_, ?_, ?_⟩
  · rw [recorded_january]
    simp
  · exact fun hzero => absurd hzero (by decide)
  · exact fun _ hzero => absurd hzero (by decide)
  · rw [recorded_january]
    exact fun _ _ => by decide +kernel

end TransactionsIndex

end Gradido
