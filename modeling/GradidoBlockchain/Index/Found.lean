import GradidoBlockchain.Index.Pages

/-!
# What a search finds

The result of a search with bounds on the number and an interval of dates.  The
index looks at days, so an interval finds all transactions of its first and last
day; and an interval that starts before the first day of the index, but not at
the epoch, may end the downward search too early.  `Reaches` excludes this, and
`Indexes.mem_findTransactions_iff` describes the result of all other searches.
-/

namespace Gradido

namespace TransactionsIndex

section Found

variable {env : Env} {own : ℕ} {cs : List ConfirmedGradidoTx} {idx : TransactionsIndex}

/-- A transaction was confirmed on a day of an interval. -/
def OnDays (i : TimepointInterval) (date : YearMonthDay) : Prop :=
  i.isEmpty = true ∨ ¬ date < timepointAsYearMonthDay i.startDate ∧
    ¬ timepointAsYearMonthDay i.endDate < date

instance {i : TimepointInterval} {date : YearMonthDay} : Decidable (OnDays i date) :=
  inferInstanceAs (Decidable (_ ∨ _))

/-- An interval is not set, starts at the epoch, or starts on the first day of the index or after
it. -/
def Reaches (first : YearMonthDay) (i : TimepointInterval) : Prop :=
  i.isEmpty = true ∨ i.startDate = 0 ∧ 0 < i.endDate ∨
    0 < i.startDate ∧ i.startDate ≤ i.endDate ∧ ¬ timepointAsYearMonthDay i.startDate < first

instance {first : YearMonthDay} {i : TimepointInterval} : Decidable (Reaches first i) :=
  inferInstanceAs (Decidable (_ ∨ _))

/-- The range of a filter without bounds holds the transactions with a property. -/
def RangeOf (cs : List ConfirmedGradidoTx) (range : Option (ℕ × ℕ))
    (P : ConfirmedGradidoTx → Prop) : Prop :=
  (range = none ∧ ∀ c ∈ cs, ¬ P c) ∨ ∃ lo hi, range = some (lo, hi) ∧ 1 ≤ lo ∧ hi ≤ cs.length ∧
    ∀ c ∈ cs, lo ≤ c.txNr ∧ c.txNr ≤ hi ↔ P c

/-- **The range of an interval** holds the transactions of its days. -/
theorem Indexes.rangeOf_onDays (h : Indexes env own cs idx) (hne : cs ≠ []) (horder : InOrder cs)
    {f : CompactFilter} (hmin : f.minTransactionNr = 0) (hmax : f.maxTransactionNr = 0)
    (hreaches : Reaches (firstDate cs) f.timepointInterval) :
    RangeOf cs (idx.calculateTxRange f) (fun c => OnDays f.timepointInterval c.date) := by
  have hminNr : idx.mMinTransactionNr = 1 := by rw [h.dates.minNr, if_neg hne]
  have hcapped : ∀ hi, cappedNr f hi = hi := fun hi => by simp [cappedNr, hmax]
  unfold RangeOf
  beta_reduce
  rcases hreaches with hempty | ⟨hstart, hend⟩ | ⟨hstart, hle, hfirst⟩
  · -- without an interval everything is found
    rw [calculateTxRange_of_isEmpty (h.not_maxDate_lt_minDate hne) hempty, hmin, hmax, hminNr,
      h.dates.maxNr, hcapped, if_neg (by omega), max_eq_right (Nat.zero_le 1)]
    refine .inr ⟨1, cs.length, rfl, le_rfl, le_rfl, ?_⟩
    intro c hc
    exact iff_of_true (h.txNr_bounds hc) (.inl hempty)
  · have hinterval : f.timepointInterval = ⟨0, f.timepointInterval.endDate⟩ := by
      rw [← hstart]
    have hempty : f.timepointInterval.isEmpty = false := by
      simp [TimepointInterval.isEmpty, hend.ne']
    -- no date is before the one that was never set
    have hdays : ∀ c ∈ cs, OnDays f.timepointInterval c.date ↔
        ¬ timepointAsYearMonthDay f.timepointInterval.endDate < c.date := by
      intro c hc
      have hcivil := horder.civilDate hc
      have hzero : timepointAsYearMonthDay f.timepointInterval.startDate = zeroDate := by
        rw [hstart]
        rfl
      have hnot : ¬ c.date < zeroDate := by
        rw [YearMonthDay.lt_def]
        unfold CivilDate at hcivil
        simp only [zeroDate]
        omega
      simp [OnDays, hempty, hzero, hnot]
    by_cases hbefore : timepointAsYearMonthDay f.timepointInterval.endDate < firstDate cs
    · refine .inl ⟨h.calculateTxRange_before hempty hbefore, ?_⟩
      intro c hc
      rw [hdays c hc, not_not]
      have hfirst := horder.firstDate_le hc
      rw [YearMonthDay.lt_def] at *
      omega
    · obtain ⟨hi, hrange, hlast⟩ :=
        h.calculateTxRange_upTo hne horder hmin hend hinterval hbefore
      rw [hcapped] at hrange
      rcases hlast with ⟨rfl, hnone⟩ | ⟨hi0, c₀, hc₀, hP₀, rfl, hle⟩
      · refine .inr ⟨1, 0, hrange, le_rfl, Nat.zero_le _, ?_⟩
        intro c hc
        rw [hdays c hc]
        exact iff_of_false (by omega) (hnone c hc)
      · refine .inr ⟨1, c₀.txNr, hrange, le_rfl, (h.txNr_bounds hc₀).2, ?_⟩
        intro c hc
        rw [hdays c hc]
        refine ⟨?_, fun hP => ⟨(h.txNr_bounds hc).1, hle c hc hP⟩⟩
        rintro ⟨-, hnr⟩
        have hdate := horder.date_le_of_txNr_le h.txNr hc hc₀ hnr
        rw [YearMonthDay.lt_def] at *
        omega
  · have hempty : f.timepointInterval.isEmpty = false := by
      simp [TimepointInterval.isEmpty, hstart.ne']
    have hdays : ∀ c : ConfirmedGradidoTx, OnDays f.timepointInterval c.date ↔
        ¬ c.date < timepointAsYearMonthDay f.timepointInterval.startDate ∧
          ¬ timepointAsYearMonthDay f.timepointInterval.endDate < c.date := by
      intro c
      simp [OnDays, hempty]
    simp only [hdays]
    rcases h.calculateTxRange_between hne horder hmin hstart hle rfl hfirst with
      hnone | ⟨lo, hi, hrange, hlo, hhi, hmem⟩
    · exact .inl hnone
    · rw [hcapped] at hrange
      exact .inr ⟨lo, hi, hrange, hlo, hhi, hmem⟩

/-- **What a search without pages finds**: the transactions within the bounds, of the days of the
interval, that the filter asks for. -/
theorem Indexes.mem_findTransactions_iff (h : Indexes env own cs idx) (horder : InOrder cs)
    {f : CompactFilter} (hf : Plain f) (hsize : f.pagination.size = 0)
    (hreaches : Reaches (firstDate cs) f.timepointInterval) (n : ℕ) :
    n ∈ idx.findTransactions f ↔ ∃ c ∈ cs, c.txNr = n ∧ Admits f c.txNr ∧
      OnDays f.timepointInterval c.date ∧ Wanted env own f c := by
  by_cases hne : cs = []
  · subst hne
    simp [findTransactions, h.dates.minNr, h.dates.maxNr]
  have hminNr : idx.mMinTransactionNr = 1 := by rw [h.dates.minNr, if_neg hne]
  have hmaxNr : idx.mMaxTransactionNr ≠ 0 := by
    rw [h.dates.maxNr]
    exact fun hzero => hne (List.length_eq_zero_iff.1 hzero)
  rw [findTransactions_eq_pageOf idx f hmaxNr, mem_pageOf_of_size_zero hsize]
  have hwhole := h.rangeOf_onDays hne horder
    (f := { f with minTransactionNr := 0, maxTransactionNr := 0 }) rfl rfl hreaches
  have hrange := calculateTxRange_eq_bounded idx f
  rw [hminNr, h.dates.maxNr] at hrange
  unfold Admits
  split_ifs at hrange with hout
  · refine iff_of_false (by simp [aggregateTransactions, hrange]) ?_
    rintro ⟨c, hc, -, hadmits, -⟩
    have hbounds := h.txNr_bounds hc
    omega
  rcases hwhole with ⟨hnone, hdays⟩ | ⟨lo, hi, hsome, hlo, hhi, hmem⟩
  · rw [hnone, Option.map_none] at hrange
    refine iff_of_false (by simp [aggregateTransactions, hrange]) ?_
    rintro ⟨c, hc, -, -, hday, -⟩
    exact hdays c hc hday
  · rw [hsome, Option.map_some] at hrange
    have hcapped : cappedNr f hi ≤ cs.length := ((le_cappedNr.1 le_rfl).1).trans hhi
    rw [h.mem_aggregate hne hf hrange (by omega) hcapped]
    constructor
    · rintro ⟨h1, h2, c, hc, rfl, hw⟩
      obtain ⟨h2, h3⟩ := le_cappedNr.1 h2
      exact ⟨c, hc, rfl, ⟨.inr (by omega), h3⟩, (hmem c hc).1 ⟨by omega, h2⟩, hw⟩
    · rintro ⟨c, hc, rfl, ⟨h1, h3⟩, hday, hw⟩
      obtain ⟨h1', h2⟩ := (hmem c hc).2 hday
      exact ⟨by omega, le_cappedNr.2 ⟨h2, h3⟩, c, hc, rfl, hw⟩

/-- An interval that starts before the first day and does not end before the last one is searched
completely: it ends on the last day, or the downward search meets the last day before it meets the
cell of the first month with the day of the start. -/
structure Spans (first last : YearMonthDay) (i : TimepointInterval) : Prop where
  startDate : 0 < i.startDate
  endDate : 0 < i.endDate
  before : timepointAsYearMonthDay i.startDate < first
  after : ¬ timepointAsYearMonthDay i.endDate < last
  met : timepointAsYearMonthDay i.endDate = last ∨ first.year ≠ last.year ∨
    first.month ≠ last.month ∨ (timepointAsYearMonthDay i.startDate).day ≤ last.day

/-- The last transaction has the largest number. -/
theorem IsLast.eq_length (h : Indexes env own cs idx) {P : ConfirmedGradidoTx → Prop} {v : ℕ}
    (hv : IsLast cs P v) {c : ConfirmedGradidoTx} (hc : c ∈ cs) (hnr : c.txNr = cs.length)
    (hP : P c) : v = cs.length := by
  rcases hv with ⟨-, hnone⟩ | ⟨-, c', hc', -, hnr', hmax⟩
  · exact absurd hP (hnone c hc)
  · have hle := hmax c hc hP
    have hbound := (h.txNr_bounds hc').2
    omega

/-- The last transaction is of the latest day. -/
theorem Indexes.date_last (h : Indexes env own cs idx) (horder : InOrder cs)
    {last : ConfirmedGradidoTx} (hlast : last ∈ cs) (hnr : last.txNr = cs.length) :
    last.date = latestDate cs := by
  obtain ⟨m, hm, hlatest⟩ := (h.dayTable horder).latestDate_eq (List.ne_nil_of_mem hlast)
  have hge := horder.date_le_of_txNr_le h.txNr hm hlast (by
    rw [hnr]
    exact (h.txNr_bounds hm).2)
  have hle := latestDate_ge hlast
  rw [hlatest] at hle ⊢
  rw [YearMonthDay.lt_def] at hge hle
  rw [YearMonthDay.eq_iff]
  omega

/-- **The range of an interval that spans the chain** is the whole chain. -/
theorem Indexes.calculateTxRange_spans (h : Indexes env own cs idx) (hne : cs ≠ [])
    (horder : InOrder cs) {f : CompactFilter} (hmin : f.minTransactionNr = 0)
    (hspans : Spans (firstDate cs) (latestDate cs) f.timepointInterval) :
    idx.calculateTxRange f = some (1, cappedNr f cs.length) := by
  have hminNr : idx.mMinTransactionNr = 1 := by rw [h.dates.minNr, if_neg hne]
  have hset : f.timepointInterval.isEmpty = false := by
    simp [TimepointInterval.isEmpty, hspans.startDate.ne']
  -- the last transaction, on the latest day
  obtain ⟨last, hlast, hlastNr⟩ := h.exists_txNr (List.length_pos_iff.2 hne) le_rfl
  have hlastDate := h.date_last horder hlast hlastNr
  have hlastFirst := horder.firstDate_le hlast
  have hcivil := civilDate_timepoint hspans.startDate
  have hafter := hspans.after
  have hfirst : ¬ timepointAsYearMonthDay f.timepointInterval.endDate < firstDate cs := by
    rw [hlastDate] at hlastFirst
    rw [YearMonthDay.lt_def] at *
    omega
  have hnot : ¬ StopsEarly cs (timepointAsYearMonthDay f.timepointInterval.startDate)
      (timepointAsYearMonthDay f.timepointInterval.endDate) := by
    rintro ⟨-, -, hmonth, hpast⟩
    obtain ⟨hyear, hmonth, hday⟩ := hmonth last hlast (by rwa [hlastDate])
    rw [hlastDate] at hyear hmonth hday
    rcases hspans.met with heq | hne' | hne' | hle
    · rw [heq, YearMonthDay.lt_def] at hpast
      omega
    all_goals omega
  obtain ⟨v, -, hv, hrange⟩ := (h.dayTable horder).late hcivil.calendarDate
    (civilDate_timepoint hspans.endDate).calendarDate hne hspans.before hfirst hnot
  rw [h.calculateTxRange_eq hne hmin hset, hrange, hminNr,
    IsLast.eq_length h hv hlast hlastNr (by rwa [hlastDate]), Option.map_some]

/-- **A search over an interval that spans the chain** finds every transaction that a filter asks
for. -/
theorem Indexes.mem_findTransactions_spans (h : Indexes env own cs idx) (hne : cs ≠ [])
    (horder : InOrder cs) {f : CompactFilter} (hf : Plain f) (hmin : f.minTransactionNr = 0)
    (hsize : f.pagination.size = 0)
    (hspans : Spans (firstDate cs) (latestDate cs) f.timepointInterval) (n : ℕ) :
    n ∈ idx.findTransactions f ↔ ∃ c ∈ cs, c.txNr = n ∧ Admits f c.txNr ∧ Wanted env own f c := by
  have hmaxNr : idx.mMaxTransactionNr ≠ 0 := by
    rw [h.dates.maxNr]
    exact fun hzero => hne (List.length_eq_zero_iff.1 hzero)
  have hcapped : cappedNr f cs.length ≤ cs.length := (le_cappedNr.1 le_rfl).1
  rw [findTransactions_eq_pageOf idx f hmaxNr, mem_pageOf_of_size_zero hsize,
    h.mem_aggregate hne hf (h.calculateTxRange_spans hne horder hmin hspans) le_rfl hcapped]
  unfold Admits
  constructor
  · rintro ⟨-, hle, c, hc, rfl, hw⟩
    exact ⟨c, hc, rfl, ⟨.inl hmin, (le_cappedNr.1 hle).2⟩, hw⟩
  · rintro ⟨c, hc, rfl, ⟨-, hle⟩, hw⟩
    obtain ⟨hlow, hhigh⟩ := h.txNr_bounds hc
    exact ⟨hlow, le_cappedNr.2 ⟨hhigh, hle⟩, c, hc, rfl, hw⟩

end Found

end TransactionsIndex

end Gradido
