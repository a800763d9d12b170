import GradidoBlockchain.Index.Invariant
import Mathlib.Data.List.Induction

/-!
# The numbers of an interval of days

`calculateTxRange` answers an interval of dates with a range of transaction
numbers, found by two downward searches over the day table.  `DayTable` says
what the table knows of a list of transactions; the numbers of the list may
have gaps.

* `isLast_scanEnd` and its variants: what the two searches find;
* `DayTable.covers_between`, `DayTable.upTo`: the range of an interval, by where
  it starts;
* `DayTable.early`, `DayTable.late`: an interval that starts before the first
  day.
-/

namespace Gradido

namespace TransactionsIndex

/-! ### Dates and cells -/

/-- The largest number of the transactions with a property, or zero when there are none. -/
def IsLast (cs : List ConfirmedGradidoTx) (P : ConfirmedGradidoTx → Prop) (v : ℕ) : Prop :=
  (v = 0 ∧ ∀ c ∈ cs, ¬ P c) ∨
    v ≠ 0 ∧ ∃ c ∈ cs, P c ∧ c.txNr = v ∧ ∀ c' ∈ cs, P c' → c'.txNr ≤ v

theorem isLast_congr {cs : List ConfirmedGradidoTx} {P Q : ConfirmedGradidoTx → Prop} {v : ℕ}
    (h : ∀ c ∈ cs, (P c ↔ Q c)) (hP : IsLast cs P v) : IsLast cs Q v := by
  rcases hP with ⟨hv, hnone⟩ | ⟨hv, c, hc, hPc, hnr, hmax⟩
  · exact .inl ⟨hv, fun c hc hQ => hnone c hc ((h c hc).2 hQ)⟩
  · refine .inr ⟨hv, c, hc, (h c hc).1 hPc, hnr, ?_⟩
    intro c' hc' hQ
    exact hmax c' hc' ((h c' hc').2 hQ)

/-- A transaction without the property does not count. -/
theorem IsLast.append_singleton {cs : List ConfirmedGradidoTx} {P : ConfirmedGradidoTx → Prop}
    {v : ℕ} {c : ConfirmedGradidoTx} (h : IsLast cs P v) (hc : ¬ P c) : IsLast (cs ++ [c]) P v := by
  rcases h with ⟨hv, hnone⟩ | ⟨hv, c', hc', hP, hnr, hmax⟩
  · refine .inl ⟨hv, ?_⟩
    intro c' hc'
    rcases List.mem_append.1 hc' with hc' | hc'
    · exact hnone c' hc'
    · rwa [List.mem_singleton.1 hc']
  · refine .inr ⟨hv, c', by simp [hc'], hP, hnr, ?_⟩
    intro c'' hc'' hP''
    rcases List.mem_append.1 hc'' with hc'' | hc''
    · exact hmax c'' hc'' hP''
    · rw [List.mem_singleton.1 hc''] at hP''
      exact absurd hP'' hc

/-- A cell holds the last transaction of its day. -/
theorem isLast_lastInCell {cs : List ConfirmedGradidoTx} (hpos : ∀ c ∈ cs, 1 ≤ c.txNr)
    (first : YearMonthDay) (cell : ℕ) :
    IsLast cs (fun c => cellOf first c = cell) (lastInCell first cs cell) := by
  induction cs using List.reverseRecOn with
  | nil => exact .inl ⟨rfl, by simp⟩
  | append_singleton cs c ih =>
    have ih' := ih (fun c' hc' => hpos c' (List.mem_append_left _ hc'))
    have hc1 := hpos c (List.mem_append_right _ (List.mem_singleton.2 rfl))
    rw [lastInCell, List.foldl_append, ← lastInCell]
    simp only [List.foldl_cons, List.foldl_nil]
    split_ifs with hcell
    · refine .inr ⟨by omega, ?_⟩
      rcases ih' with ⟨hv, hnone⟩ | ⟨hv, c', hc', hcell', hnr, hmax⟩
      · rw [hv, Nat.zero_max]
        refine ⟨c, by simp, hcell, rfl, ?_⟩
        intro c'' hc'' hcell''
        rcases List.mem_append.1 hc'' with hc'' | hc''
        · exact absurd hcell'' (hnone c'' hc'')
        · rw [List.mem_singleton.1 hc'']
      · have hle : ∀ c'' ∈ cs ++ [c], cellOf first c'' = cell →
            c''.txNr ≤ max (lastInCell first cs cell) c.txNr := by
          intro c'' hc'' hcell''
          rcases List.mem_append.1 hc'' with hc'' | hc''
          · have := hmax c'' hc'' hcell''
            omega
          · rw [List.mem_singleton.1 hc'']
            omega
        rcases Nat.le_total (lastInCell first cs cell) c.txNr with hle' | hle'
        · exact ⟨c, by simp, hcell, by omega, hle⟩
        · exact ⟨c', by simp [hc'], hcell', by omega, hle⟩
    · exact ih'.append_singleton hcell

section Scan

variable {cs : List ConfirmedGradidoTx} {first : YearMonthDay}

/-- Later cells have larger numbers. -/
def CellsOrdered (first : YearMonthDay) (cs : List ConfirmedGradidoTx) : Prop :=
  ∀ c ∈ cs, ∀ c' ∈ cs, cellOf first c < cellOf first c' → c.txNr < c'.txNr

/-- The last transaction of a cell is the last one up to that cell. -/
theorem isLast_of_cell (horder : CellsOrdered first cs) {cell v : ℕ} {P : ConfirmedGradidoTx → Prop}
    (hcell : IsLast cs (fun c => cellOf first c = cell) v) (hv : v ≠ 0)
    (hP : ∀ c ∈ cs, cellOf first c = cell → P c)
    (hle : ∀ c ∈ cs, P c → cellOf first c ≤ cell) : IsLast cs P v := by
  rcases hcell with ⟨hzero, -⟩ | ⟨-, c, hc, hcell, hnr, hmax⟩
  · exact absurd hzero hv
  · refine .inr ⟨hv, c, hc, hP c hc hcell, hnr, ?_⟩
    intro c' hc' hP'
    rcases Nat.lt_or_eq_of_le (hle c' hc' hP') with hlt | heq
    · have := horder c' hc' c hc (by rwa [hcell])
      omega
    · exact hmax c' hc' heq

/-- The downward search without a stop finds the last transaction up to a cell. -/
theorem isLast_scanEnd (hpos : ∀ c ∈ cs, 1 ≤ c.txNr) (horder : CellsOrdered first cs) (e : ℕ) :
    IsLast cs (fun c => cellOf first c ≤ e) (scanEnd (lastInCell first cs) none e) := by
  induction e with
  | zero =>
    unfold scanEnd
    refine isLast_congr ?_ (isLast_lastInCell hpos first 0)
    intro c _
    omega
  | succ e ih =>
    unfold scanEnd
    have hcell := isLast_lastInCell hpos first (e + 1)
    rw [if_neg (show ¬ (none : Option ℕ) = some (e + 1) by simp)]
    split_ifs with hne
    · exact isLast_of_cell horder hcell hne (fun c _ h => by omega) (fun c _ h => h)
    · rw [ne_eq, not_not] at hne
      rw [hne] at hcell
      have hnone : ∀ c ∈ cs, ¬ cellOf first c = e + 1 := by
        rcases hcell with ⟨-, hnone⟩ | ⟨hzero, -⟩
        · exact hnone
        · exact absurd rfl hzero
      refine isLast_congr ?_ ih
      intro c hc
      have := hnone c hc
      omega

/-- The downward search with a stop finds the last transaction between two cells. -/
theorem isLast_scanEnd_stop (hpos : ∀ c ∈ cs, 1 ≤ c.txNr) (horder : CellsOrdered first cs)
    {s e : ℕ} (hse : s ≤ e) :
    IsLast cs (fun c => s ≤ cellOf first c ∧ cellOf first c ≤ e)
      (scanEnd (lastInCell first cs) (some s) e) := by
  induction e with
  | zero =>
    unfold scanEnd
    refine isLast_congr ?_ (isLast_lastInCell hpos first 0)
    intro c _
    omega
  | succ e ih =>
    unfold scanEnd
    have hcell := isLast_lastInCell hpos first (e + 1)
    split_ifs with hne hstop
    · exact isLast_of_cell horder hcell hne (fun c _ h => by omega) (fun c _ h => h.2)
    all_goals
      rw [ne_eq, not_not] at hne
      rw [hne] at hcell
      have hnone : ∀ c ∈ cs, ¬ cellOf first c = e + 1 := by
        rcases hcell with ⟨-, hnone⟩ | ⟨hzero, -⟩
        · exact hnone
        · exact absurd rfl hzero
    · rw [Option.some.injEq] at hstop
      refine .inl ⟨rfl, ?_⟩
      intro c hc
      have := hnone c hc
      omega
    · rw [Option.some.injEq] at hstop
      refine isLast_congr ?_ (ih (by omega))
      intro c hc
      have := hnone c hc
      omega

/-- The second search finds the last transaction before a cell that is not the first one. -/
theorem isLast_scanStart (hpos : ∀ c ∈ cs, 1 ≤ c.txNr) (horder : CellsOrdered first cs) {s : ℕ}
    (hs : 1 ≤ s) :
    IsLast cs (fun c => cellOf first c < s) (scanStart (lastInCell first cs) s) := by
  induction s with
  | zero => omega
  | succ s ih =>
    unfold scanStart
    have hcell := isLast_lastInCell hpos first s
    split_ifs with hne
    · exact isLast_of_cell horder hcell hne (fun c _ h => by omega) (fun c _ h => by omega)
    · rw [ne_eq, not_not] at hne
      rw [hne] at hcell
      have hnone : ∀ c ∈ cs, ¬ cellOf first c = s := by
        rcases hcell with ⟨-, hnone⟩ | ⟨hzero, -⟩
        · exact hnone
        · exact absurd rfl hzero
      rcases Nat.eq_zero_or_pos s with rfl | hs'
      · unfold scanStart
        rw [hne]
        refine .inl ⟨rfl, ?_⟩
        intro c hc
        have := hnone c hc
        omega
      · refine isLast_congr ?_ (ih hs')
        intro c hc
        have := hnone c hc
        omega

end Scan

/-! ### Ranges of dates -/

/-- A date of the calendar in the common era; the date that was never set is before it. -/
def CalendarDate (d : YearMonthDay) : Prop :=
  1 ≤ d.month ∧ d.month ≤ 12 ∧ 1 ≤ d.day ∧ d.day ≤ 31 ∧ 1 ≤ d.year

/-- A date of the calendar, not before the epoch. -/
def CivilDate (d : YearMonthDay) : Prop :=
  1 ≤ d.month ∧ d.month ≤ 12 ∧ 1 ≤ d.day ∧ d.day ≤ 31 ∧ 1970 ≤ d.year

theorem CivilDate.calendarDate {d : YearMonthDay} (h : CivilDate d) : CalendarDate d := by
  unfold CivilDate at h
  unfold CalendarDate
  omega

/-- Time points after the epoch have such a date. -/
theorem civilDate_timepoint {p : ℤ} (hp : 0 < p) : CivilDate (timepointAsYearMonthDay p) := by
  unfold timepointAsYearMonthDay
  rw [if_neg (by omega)]
  obtain ⟨h1, h2, h3, h4⟩ := Calendar.civilFromDays_bounds (floorDays p)
  refine ⟨h1, h2, h3, h4, ?_⟩
  have hdays : 0 ≤ floorDays p := Int.ediv_nonneg (by omega) (by decide)
  have hepoch : Calendar.civilFromDays 0 = ⟨1970, 1, 1⟩ := by decide
  rcases lt_or_eq_of_le hdays with hlt | heq
  · have hmono := Calendar.civilFromDays_strictMono hlt
    rw [hepoch, YearMonthDay.lt_def] at hmono
    dsimp only at hmono
    omega
  · rw [← heq, hepoch]

/-- The cell of a date. -/
def cellOfDate (first d : YearMonthDay) : ℕ :=
  (monthDistance first d).toNat * 31 + (d.day - 1)

/-- From the first month on, cells are in the order of the dates. -/
theorem cellOfDate_le_iff {first d e : YearMonthDay} (hf : CalendarDate first)
    (hd : CalendarDate d) (he : CalendarDate e) (hfd : ¬ d < first) (hfe : ¬ e < first) :
    cellOfDate first d ≤ cellOfDate first e ↔ ¬ e < d := by
  unfold CalendarDate at hf hd he
  rw [YearMonthDay.lt_def] at *
  unfold cellOfDate monthDistance
  omega

/-- The transactions are dated after the epoch and in the order of their numbers. -/
structure InOrder (cs : List ConfirmedGradidoTx) : Prop where
  positive : ∀ c ∈ cs, 0 < c.confirmedAt.getAsTimepoint
  ordered : cs.Pairwise (fun a b => a.confirmedAt.getAsTimepoint ≤ b.confirmedAt.getAsTimepoint)

namespace InOrder

variable {cs : List ConfirmedGradidoTx} (h : InOrder cs)

include h

theorem civilDate {c : ConfirmedGradidoTx} (hc : c ∈ cs) : CivilDate c.date :=
  civilDate_timepoint (h.positive c hc)

/-- Later numbers have later dates. -/
theorem date_le {k l : ℕ} {c c' : ConfirmedGradidoTx} (hc : cs[k]? = some c)
    (hc' : cs[l]? = some c') (hkl : k ≤ l) : ¬ c'.date < c.date := by
  have hpos := h.positive c (List.mem_of_getElem? hc)
  have hpos' := h.positive c' (List.mem_of_getElem? hc')
  refine timepointAsYearMonthDay_mono ?_ (by omega) (by omega)
  rcases Nat.lt_or_eq_of_le hkl with hlt | rfl
  · obtain ⟨hk, rfl⟩ := List.getElem?_eq_some_iff.1 hc
    obtain ⟨hl, rfl⟩ := List.getElem?_eq_some_iff.1 hc'
    exact List.pairwise_iff_getElem.1 h.ordered k l hk hl hlt
  · rw [hc, Option.some.injEq] at hc'
    rw [hc']

theorem date_le_of_txNr_le (hnr : ∀ k c, cs[k]? = some c → c.txNr = k + 1)
    {c c' : ConfirmedGradidoTx} (hc : c ∈ cs) (hc' : c' ∈ cs) (hle : c.txNr ≤ c'.txNr) :
    ¬ c'.date < c.date := by
  obtain ⟨k, hk⟩ := List.getElem?_of_mem hc
  obtain ⟨l, hl⟩ := List.getElem?_of_mem hc'
  rw [hnr k c hk, hnr l c' hl] at hle
  exact h.date_le hk hl (by omega)

theorem firstDate_le {c : ConfirmedGradidoTx} (hc : c ∈ cs) : ¬ c.date < firstDate cs := by
  obtain ⟨k, hk⟩ := List.getElem?_of_mem hc
  cases cs with
  | nil => simp at hc
  | cons c₀ cs => exact h.date_le (k := 0) rfl hk (Nat.zero_le k)

theorem civilDate_firstDate (hne : cs ≠ []) : CivilDate (firstDate cs) := by
  cases cs with
  | nil => exact absurd rfl hne
  | cons c₀ cs => exact h.civilDate List.mem_cons_self

end InOrder

/-- No date of a list is after its latest date. -/
theorem latestDate_ge {cs : List ConfirmedGradidoTx} {c : ConfirmedGradidoTx} (hc : c ∈ cs) :
    ¬ latestDate cs < c.date := by
  induction cs using List.reverseRecOn with
  | nil => simp at hc
  | append_singleton cs a ih =>
    rw [latestDate_append]
    rcases List.mem_append.1 hc with hc | hc
    · have hle := ih hc
      split_ifs with hlt
      · rw [YearMonthDay.lt_def] at hle hlt ⊢
        omega
      · exact hle
    · rw [List.mem_singleton.1 hc]
      split_ifs with hlt
      · rw [YearMonthDay.lt_def]
        omega
      · exact hlt

/-- The latest date is one of the list, unless all are before the unset date. -/
theorem latestDate_mem (cs : List ConfirmedGradidoTx) :
    latestDate cs = zeroDate ∨ ∃ c ∈ cs, latestDate cs = c.date := by
  induction cs using List.reverseRecOn with
  | nil => exact .inl rfl
  | append_singleton cs a ih =>
    rw [latestDate_append]
    split_ifs
    · exact .inr ⟨a, by simp, rfl⟩
    · rcases ih with hzero | ⟨c, hc, heq⟩
      · exact .inl hzero
      · exact .inr ⟨c, by simp [hc], heq⟩

/-- The first date is the date of a transaction. -/
theorem firstDate_mem {cs : List ConfirmedGradidoTx} (hne : cs ≠ []) :
    ∃ c ∈ cs, firstDate cs = c.date := by
  cases cs with
  | nil => exact absurd rfl hne
  | cons c cs => exact ⟨c, List.mem_cons_self, rfl⟩

section Table

variable {ds : List ConfirmedGradidoTx} {idx : TransactionsIndex} {s e : YearMonthDay}

/-- What the day table knows of a list of transactions. -/
structure DayTable (ds : List ConfirmedGradidoTx) (idx : TransactionsIndex) : Prop where
  minDate : idx.mMinDate = firstDate ds
  maxDate : idx.mMaxDate = latestDate ds
  cells : idx.mDayMonthYearTxRanges = lastInCell (firstDate ds) ds
  minNr : ds ≠ [] → 1 ≤ idx.mMinTransactionNr
  bounds : ∀ c ∈ ds, idx.mMinTransactionNr ≤ c.txNr ∧ c.txNr ≤ idx.mMaxTransactionNr
  numbered : ds.Pairwise (fun a b => a.txNr < b.txNr)
  dated : ds.Pairwise (fun a b => ¬ b.date < a.date)
  days : ∀ c ∈ ds, CalendarDate c.date

namespace DayTable

theorem positive (h : DayTable ds idx) : ∀ c ∈ ds, 1 ≤ c.txNr := by
  intro c hc
  exact (h.minNr (List.ne_nil_of_mem hc)).trans (h.bounds c hc).1

/-- Later numbers have later dates. -/
theorem date_le (h : DayTable ds idx) {c c' : ConfirmedGradidoTx} (hc : c ∈ ds) (hc' : c' ∈ ds)
    (hle : c.txNr ≤ c'.txNr) : ¬ c'.date < c.date := by
  obtain ⟨k, hk, rfl⟩ := List.getElem_of_mem hc
  obtain ⟨l, hl, rfl⟩ := List.getElem_of_mem hc'
  rcases Nat.lt_trichotomy k l with hlt | rfl | hgt
  · exact List.pairwise_iff_getElem.1 h.dated k l hk hl hlt
  · rw [YearMonthDay.lt_def]
    omega
  · have := List.pairwise_iff_getElem.1 h.numbered l k hl hk hgt
    omega

theorem firstDate_le (h : DayTable ds idx) {c : ConfirmedGradidoTx} (hc : c ∈ ds) :
    ¬ c.date < firstDate ds := by
  have hdated := h.dated
  cases ds with
  | nil => simp at hc
  | cons c₀ ds =>
    rcases List.mem_cons.1 hc with rfl | hc
    · rw [firstDate, List.map_cons, List.headD_cons, YearMonthDay.lt_def]
      omega
    · exact (List.pairwise_cons.1 hdated).1 c hc

theorem calendarDate_firstDate (h : DayTable ds idx) (hne : ds ≠ []) :
    CalendarDate (firstDate ds) := by
  have hdays := h.days
  cases ds with
  | nil => exact absurd rfl hne
  | cons c₀ ds => exact hdays c₀ List.mem_cons_self

/-- The date that was never set is before the first one. -/
theorem firstDate_ne_zeroDate (h : DayTable ds idx) (hne : ds ≠ []) :
    firstDate ds ≠ zeroDate := by
  intro hzero
  have hcalendar := h.calendarDate_firstDate hne
  rw [hzero] at hcalendar
  exact absurd hcalendar.1 (by decide)

/-- The latest date is the date of a transaction. -/
theorem latestDate_eq (h : DayTable ds idx) (hne : ds ≠ []) :
    ∃ c ∈ ds, latestDate ds = c.date := by
  rcases latestDate_mem ds with hzero | hmem
  · obtain ⟨c, hc⟩ := List.exists_mem_of_ne_nil ds hne
    have hlt := latestDate_ge hc
    have hcalendar := h.days c hc
    rw [hzero, YearMonthDay.lt_def] at hlt
    unfold CalendarDate at hcalendar
    simp only [zeroDate] at hlt
    omega
  · exact hmem

/-- The cells are in the order of the numbers. -/
theorem cellsOrdered (h : DayTable ds idx) : CellsOrdered (firstDate ds) ds := by
  intro c hc c' hc' hlt
  by_contra hle
  have hdate := h.date_le hc' hc (by omega)
  have hcells := (cellOfDate_le_iff (h.calendarDate_firstDate (List.ne_nil_of_mem hc))
    (h.days c' hc') (h.days c hc) (h.firstDate_le hc') (h.firstDate_le hc)).2 hdate
  unfold cellOf at hlt
  unfold cellOfDate at hcells
  omega

/-- The cell that the first search starts from. -/
def endCell (idx : TransactionsIndex) (e : YearMonthDay) : ℕ :=
  idx.yearMonthToIndex e * 31 + (if idx.mMaxDate < e then 30 else e.day - 1)

/-- It stands for the end of the interval. -/
theorem endCell_spec (h : DayTable ds idx) (hne : ds ≠ []) {d : YearMonthDay}
    (hd : CalendarDate d) (he : CalendarDate e) (hfirst : ¬ e < firstDate ds)
    (hfirstd : ¬ d < firstDate ds) (hle : ¬ latestDate ds < d) :
    cellOfDate (firstDate ds) d ≤ endCell idx e ↔ ¬ e < d := by
  have hcalendar₀ := h.calendarDate_firstDate hne
  unfold endCell yearMonthToIndex
  rw [h.minDate, h.maxDate, if_neg (h.firstDate_ne_zeroDate hne), if_neg hfirst]
  by_cases hmax : latestDate ds < e
  · -- the interval ends after the last day, so the whole last month counts
    obtain ⟨m, hm, heq⟩ := h.latestDate_eq hne
    have hcalendarm := h.days m hm
    rw [if_pos hmax, if_pos hmax, heq]
    rw [heq] at hmax hle
    unfold cellOfDate monthDistance
    unfold CalendarDate at hd hcalendar₀ hcalendarm he
    rw [YearMonthDay.lt_def] at *
    omega
  · rw [if_neg hmax, if_neg hmax]
    exact cellOfDate_le_iff hcalendar₀ hd he hfirstd hfirst

theorem cellOf_le_endCell (h : DayTable ds idx) {c : ConfirmedGradidoTx} (hc : c ∈ ds)
    (he : CalendarDate e) (hfirst : ¬ e < firstDate ds) :
    cellOf (firstDate ds) c ≤ endCell idx e ↔ ¬ e < c.date :=
  h.endCell_spec (List.ne_nil_of_mem hc) (h.days c hc) he hfirst (h.firstDate_le hc)
    (latestDate_ge hc)

/-- The cell of a transaction is not empty. -/
theorem cell_ne_zero (h : DayTable ds idx) {c : ConfirmedGradidoTx} (hc : c ∈ ds) :
    idx.mDayMonthYearTxRanges (cellOf (firstDate ds) c) ≠ 0 := by
  rw [h.cells]
  rcases isLast_lastInCell h.positive (firstDate ds) (cellOf (firstDate ds) c) with
    ⟨-, hnone⟩ | ⟨hne, -⟩
  · exact absurd rfl (hnone c hc)
  · exact hne

/-- The first search finds the last transaction of the interval when nothing stops it. -/
theorem isLast_endCell (h : DayTable ds idx) (hne : ds ≠ []) (he : CalendarDate e)
    (hfirst : ¬ e < firstDate ds) :
    scanEnd idx.mDayMonthYearTxRanges none (endCell idx e) ≠ 0 ∧
      IsLast ds (fun c => ¬ e < c.date)
        (scanEnd idx.mDayMonthYearTxRanges none (endCell idx e)) := by
  have hlast := isLast_congr (fun c hc => h.cellOf_le_endCell hc he hfirst)
    (isLast_scanEnd h.positive h.cellsOrdered (endCell idx e))
  rw [← h.cells] at hlast
  refine ⟨?_, hlast⟩
  rcases hlast with ⟨-, hnone⟩ | ⟨hv, -⟩
  · cases ds with
    | nil => exact absurd rfl hne
    | cons c ds => exact absurd hfirst (hnone c List.mem_cons_self)
  · exact hv

end DayTable

/-! ### The range of two dates -/

/-- `calculateTxRange` without bounds, for the dates of an interval. -/
def rangeOfDates (idx : TransactionsIndex) (s e : YearMonthDay) : Option (ℕ × ℕ) :=
  if idx.mMaxDate < s ∨ e < idx.mMinDate then none
  else if s = idx.mMinDate ∧ e = idx.mMaxDate then
    some (idx.mMinTransactionNr, idx.mMaxTransactionNr)
  else if idx.getTxRangeOfInterval s e = (0, 0) then none
  else some (idx.getTxRangeOfInterval s e)

theorem calculateTxRange_eq_rangeOfDates {f : CompactFilter} (hmin : f.minTransactionNr = 0)
    (hmax : f.maxTransactionNr = 0) (hset : f.timepointInterval.isEmpty = false) :
    idx.calculateTxRange f = idx.rangeOfDates
      (timepointAsYearMonthDay f.timepointInterval.startDate)
      (timepointAsYearMonthDay f.timepointInterval.endDate) := by
  unfold calculateTxRange rangeOfDates
  simp only [hmin, hmax, hset, Bool.false_eq_true, if_false, ne_eq, not_true_eq_false, false_and,
    or_self]
  generalize timepointAsYearMonthDay f.timepointInterval.startDate = s
  generalize timepointAsYearMonthDay f.timepointInterval.endDate = e
  by_cases hwhole : s = idx.mMinDate ∧ e = idx.mMaxDate
  · have hnor : ¬ (¬ s = idx.mMinDate ∨ ¬ e = idx.mMaxDate) := by
      rw [not_or, not_not, not_not]
      exact hwhole
    simp only [if_pos hwhole, hnor, false_and, if_false]
  · have hor : ¬ s = idx.mMinDate ∨ ¬ e = idx.mMaxDate := not_and_or.1 hwhole
    simp only [if_neg hwhole, hor, true_and, if_true]

/-- A range stands for the transactions with a property: there is none without such a transaction,
and otherwise it holds the numbers of these and of no other transaction. -/
def Covers (ds : List ConfirmedGradidoTx) (range : Option (ℕ × ℕ))
    (P : ConfirmedGradidoTx → Prop) : Prop :=
  (range = none ↔ ∀ c ∈ ds, ¬ P c) ∧
    ∀ lo hi, range = some (lo, hi) → ∀ c ∈ ds, (lo ≤ c.txNr ∧ c.txNr ≤ hi ↔ P c)

theorem covers_none {P : ConfirmedGradidoTx → Prop} (h : ∀ c ∈ ds, ¬ P c) : Covers ds none P :=
  ⟨iff_of_true rfl h, fun lo hi heq => by simp at heq⟩

theorem covers_some {P : ConfirmedGradidoTx → Prop} {lo hi : ℕ} (hex : ∃ c ∈ ds, P c)
    (h : ∀ c ∈ ds, (lo ≤ c.txNr ∧ c.txNr ≤ hi ↔ P c)) : Covers ds (some (lo, hi)) P := by
  refine ⟨iff_of_false (by simp) ?_, ?_⟩
  · intro hnone
    obtain ⟨c, hc, hP⟩ := hex
    exact hnone c hc hP
  · intro lo' hi' heq
    rw [Option.some.injEq, Prod.mk.injEq] at heq
    obtain ⟨rfl, rfl⟩ := heq
    exact h

theorem covers_congr {P Q : ConfirmedGradidoTx → Prop} {range : Option (ℕ × ℕ)}
    (hPQ : ∀ c ∈ ds, (P c ↔ Q c)) : Covers ds range P ↔ Covers ds range Q := by
  unfold Covers
  have hnone : (∀ c ∈ ds, ¬ P c) ↔ ∀ c ∈ ds, ¬ Q c :=
    forall₂_congr (fun c hc => not_congr (hPQ c hc))
  have hsome : ∀ lo hi, (∀ c ∈ ds, (lo ≤ c.txNr ∧ c.txNr ≤ hi ↔ P c)) ↔
      ∀ c ∈ ds, (lo ≤ c.txNr ∧ c.txNr ≤ hi ↔ Q c) := fun lo hi =>
    forall₂_congr (fun c hc => by rw [hPQ c hc])
  simp only [hnone, hsome]

namespace DayTable

/-- The range of the numbers up to the last transaction of the interval. -/
theorem covers_isLast (h : DayTable ds idx) {v : ℕ} (hv : v ≠ 0)
    (hlast : IsLast ds (fun c => ¬ e < c.date) v) :
    Covers ds (some (idx.mMinTransactionNr, v)) (fun c => ¬ e < c.date) := by
  rcases hlast with ⟨hzero, -⟩ | ⟨-, c₀, hc₀, hday, hnr, hmax⟩
  · exact absurd hzero hv
  · refine covers_some ⟨c₀, hc₀, hday⟩ ?_
    intro c hc
    refine ⟨?_, fun hdate => ⟨(h.bounds c hc).1, hmax c hc hdate⟩⟩
    rintro ⟨-, hle⟩
    have hdate := h.date_le hc hc₀ (hnr ▸ hle)
    rw [YearMonthDay.lt_def] at *
    omega

/-- An interval that starts before the first day has the numbers up to its last transaction, when
its start does not stop the first search. -/
theorem upTo (h : DayTable ds idx) (hne : ds ≠ []) (he : CalendarDate e)
    (hfirst : ¬ e < firstDate ds) (hs : s < firstDate ds)
    (hstop : scanEnd idx.mDayMonthYearTxRanges (if s.day = 0 then none else some (s.day - 1))
      (endCell idx e) = scanEnd idx.mDayMonthYearTxRanges none (endCell idx e)) :
    ∃ v, v ≠ 0 ∧ IsLast ds (fun c => ¬ e < c.date) v ∧
      idx.rangeOfDates s e = some (idx.mMinTransactionNr, v) := by
  obtain ⟨hv, hlast⟩ := h.isLast_endCell hne he hfirst
  refine ⟨_, hv, hlast, ?_⟩
  obtain ⟨m, hm, heq⟩ := h.latestDate_eq hne
  have hlatest := h.firstDate_le hm
  have hnotmax : ¬ idx.mMaxDate < s := by
    rw [h.maxDate, heq]
    rw [YearMonthDay.lt_def] at *
    omega
  have hnot : ¬ idx.mMinDate < s := by
    rw [h.minDate]
    rw [YearMonthDay.lt_def] at *
    omega
  have hsne : s ≠ firstDate ds := by
    rintro rfl
    rw [YearMonthDay.lt_def] at hs
    omega
  have hindex : idx.yearMonthToIndex s = 0 := by
    unfold yearMonthToIndex
    rw [h.minDate, if_neg (h.firstDate_ne_zeroDate hne), if_pos hs]
  have hrange : idx.getTxRangeOfInterval s e = (idx.mMinTransactionNr,
      scanEnd idx.mDayMonthYearTxRanges none (endCell idx e)) := by
    unfold getTxRangeOfInterval
    simp only [hindex, Nat.zero_mul, Nat.zero_add]
    unfold endCell at hstop hv ⊢
    rw [hstop, if_neg hv, if_neg hnot]
  unfold rangeOfDates
  rw [h.minDate] at hnot ⊢
  rw [if_neg (by simpa using ⟨hnotmax, hfirst⟩), if_neg (fun hwhole => hsne hwhole.1), hrange,
    if_neg (by simp [hv])]

/-- The date that was never set does not stop the search. -/
theorem upTo_unset (h : DayTable ds idx) (hne : ds ≠ []) (he : CalendarDate e)
    (hfirst : ¬ e < firstDate ds) :
    ∃ v, v ≠ 0 ∧ IsLast ds (fun c => ¬ e < c.date) v ∧
      idx.rangeOfDates zeroDate e = some (idx.mMinTransactionNr, v) := by
  refine h.upTo hne he hfirst ?_ rfl
  have hcalendar := h.calendarDate_firstDate hne
  unfold CalendarDate at hcalendar
  rw [YearMonthDay.lt_def]
  simp only [zeroDate]
  omega

end DayTable

/-- The first search is stopped too early: the interval starts before the first day, all its
transactions are of the first month and of days before the day of the month that it starts with,
and the search comes past that day. -/
structure StopsEarly (ds : List ConfirmedGradidoTx) (s e : YearMonthDay) : Prop where
  before : s < firstDate ds
  within : ¬ e < firstDate ds
  month : ∀ c ∈ ds, ¬ e < c.date → c.date.year = (firstDate ds).year ∧
    c.date.month = (firstDate ds).month ∧ c.date.day < s.day
  past : latestDate ds < e ∨ e.year ≠ (firstDate ds).year ∨ e.month ≠ (firstDate ds).month ∨
    s.day ≤ e.day

instance decidableStopsEarly {ds : List ConfirmedGradidoTx} {s e : YearMonthDay} :
    Decidable (StopsEarly ds s e) :=
  decidable_of_iff (s < firstDate ds ∧ ¬ e < firstDate ds ∧
    (∀ c ∈ ds, ¬ e < c.date → c.date.year = (firstDate ds).year ∧
      c.date.month = (firstDate ds).month ∧ c.date.day < s.day) ∧
    (latestDate ds < e ∨ e.year ≠ (firstDate ds).year ∨ e.month ≠ (firstDate ds).month ∨
      s.day ≤ e.day))
    ⟨fun h => ⟨h.1, h.2.1, h.2.2.1, h.2.2.2⟩, fun h => ⟨h.1, h.2, h.3, h.4⟩⟩

/-- A stop cell is not met when it lies above the search, or a cell that is not empty above it. -/
theorem scanEnd_stop_eq {cells : ℕ → ℕ} {stop e : ℕ}
    (h : e < stop ∨ ∃ m, stop ≤ m ∧ m ≤ e ∧ cells m ≠ 0) :
    scanEnd cells (some stop) e = scanEnd cells none e := by
  induction e with
  | zero => rfl
  | succ e ih =>
    unfold scanEnd
    by_cases hcell : cells (e + 1) ≠ 0
    · rw [if_pos hcell, if_pos hcell]
    · rw [if_neg hcell, if_neg hcell]
      rw [not_not] at hcell
      have hne : ¬ some stop = some (e + 1) := by
        rw [Option.some.injEq]
        rintro rfl
        rcases h with hlt | ⟨m, hstop, hle, hm⟩
        · omega
        · obtain rfl : m = e + 1 := by omega
          exact hm hcell
      rw [if_neg hne, if_neg (by simp)]
      refine ih ?_
      rcases h with hlt | ⟨m, hstop, hle, hm⟩
      · exact .inl (by omega)
      · refine .inr ⟨m, hstop, ?_, hm⟩
        rcases Nat.lt_or_eq_of_le hle with hlt | rfl
        · omega
        · exact absurd hcell hm

namespace DayTable

/-- A search that is not stopped too early finds the last transaction of the interval. -/
theorem late (h : DayTable ds idx) (hs : CalendarDate s) (he : CalendarDate e) (hne : ds ≠ [])
    (hbefore : s < firstDate ds) (hfirst : ¬ e < firstDate ds) (hnot : ¬ StopsEarly ds s e) :
    ∃ v, v ≠ 0 ∧ IsLast ds (fun c => ¬ e < c.date) v ∧
      idx.rangeOfDates s e = some (idx.mMinTransactionNr, v) := by
  have hcalendar₀ := h.calendarDate_firstDate hne
  refine h.upTo hne he hfirst hbefore ?_
  have hday : s.day ≠ 0 := by
    unfold CalendarDate at hs
    omega
  rw [if_neg hday]
  refine scanEnd_stop_eq ?_
  by_cases hpast : latestDate ds < e ∨ e.year ≠ (firstDate ds).year ∨
      e.month ≠ (firstDate ds).month ∨ s.day ≤ e.day
  · -- some transaction of the interval is not below the start cell
    right
    by_contra hnone
    refine hnot ⟨hbefore, hfirst, ?_, hpast⟩
    intro c hc hdate
    have hcell : cellOf (firstDate ds) c < s.day - 1 := by
      by_contra hle
      exact hnone ⟨_, by omega, (h.cellOf_le_endCell hc he hfirst).2 hdate, h.cell_ne_zero hc⟩
    have hcalendar := h.days c hc
    have hcfirst := h.firstDate_le hc
    unfold cellOf monthDistance at hcell
    unfold CalendarDate at hcalendar hcalendar₀ hs
    rw [YearMonthDay.lt_def] at hcfirst
    omega
  · -- the interval ends before the start cell
    left
    rw [not_or, not_or, not_or, not_not, not_not] at hpast
    obtain ⟨hmax, hyear, hmonth, hlt⟩ := hpast
    unfold endCell yearMonthToIndex
    rw [h.minDate, h.maxDate, if_neg (h.firstDate_ne_zeroDate hne), if_neg hfirst, if_neg hmax,
      if_neg hmax]
    unfold monthDistance
    rw [hyear, hmonth]
    unfold CalendarDate at he
    omega

/-- **A search that is stopped too early** finds nothing. -/
theorem early (h : DayTable ds idx) (hs : CalendarDate s) (he : CalendarDate e) (hne : ds ≠ [])
    (hearly : StopsEarly ds s e) : idx.rangeOfDates s e = none := by
  obtain ⟨hbefore, hfirst, hmonth, hpast⟩ := hearly
  have hcalendar₀ := h.calendarDate_firstDate hne
  have hday : s.day ≠ 0 := by
    unfold CalendarDate at hs
    omega
  have hindex : idx.yearMonthToIndex s = 0 := by
    unfold yearMonthToIndex
    rw [h.minDate, if_neg (h.firstDate_ne_zeroDate hne), if_pos hbefore]
  have hstop : s.day - 1 ≤ endCell idx e := by
    unfold endCell yearMonthToIndex
    rw [h.minDate, h.maxDate, if_neg (h.firstDate_ne_zeroDate hne), if_neg hfirst]
    unfold CalendarDate at hs he hcalendar₀
    unfold monthDistance
    rw [YearMonthDay.lt_def] at hfirst
    rcases hpast with hmax | hyear | hmonth | hle
    · rw [if_pos hmax, if_pos hmax]
      omega
    all_goals split_ifs <;> omega
  have hscan : scanEnd idx.mDayMonthYearTxRanges (some (s.day - 1)) (endCell idx e) = 0 := by
    have hlast := isLast_scanEnd_stop h.positive h.cellsOrdered hstop
    rw [← h.cells] at hlast
    rcases hlast with ⟨hzero, -⟩ | ⟨-, c, hc, ⟨hge, hle⟩, -⟩
    · exact hzero
    · have hdate := (h.cellOf_le_endCell hc he hfirst).1 hle
      obtain ⟨hyear, hmonth, hlt⟩ := hmonth c hc hdate
      unfold cellOf monthDistance at hge
      rw [hyear, hmonth] at hge
      have hcalendar := h.days c hc
      unfold CalendarDate at hcalendar
      omega
  have hrange : idx.getTxRangeOfInterval s e = (0, 0) := by
    unfold getTxRangeOfInterval
    simp only [hindex, Nat.zero_mul, Nat.zero_add, if_neg hday]
    change (if scanEnd idx.mDayMonthYearTxRanges _ (endCell idx e) = 0 then _ else _) = _
    rw [hscan, if_pos rfl]
  have hsne : s ≠ firstDate ds := by
    rintro rfl
    rw [YearMonthDay.lt_def] at hbefore
    omega
  unfold rangeOfDates
  rw [h.minDate, hrange, if_pos (show ((0 : ℕ), (0 : ℕ)) = (0, 0) from rfl)]
  split_ifs with hout hwhole
  · rfl
  · exact absurd hwhole.1 hsne
  · rfl

/-- The first search finds the number from which on no transaction is before a day. -/
theorem scanStart_le_iff (h : DayTable ds idx) (hne : ds ≠ []) (hs : CalendarDate s)
    (hsfirst : ¬ s < firstDate ds) {c : ConfirmedGradidoTx} (hc : c ∈ ds) :
    (if firstDate ds < s then
      scanStart idx.mDayMonthYearTxRanges (cellOfDate (firstDate ds) s) + 1
      else idx.mMinTransactionNr) ≤ c.txNr ↔ ¬ c.date < s := by
  have hcalendar₀ := h.calendarDate_firstDate hne
  have hstart : cellOfDate (firstDate ds) s ≤ cellOf (firstDate ds) c ↔ ¬ c.date < s :=
    cellOfDate_le_iff hcalendar₀ hs (h.days c hc) hsfirst (h.firstDate_le hc)
  split_ifs with hlt
  · rw [← hstart]
    have hpositive : 1 ≤ cellOfDate (firstDate ds) s := by
      have hcell := (not_congr (cellOfDate_le_iff hcalendar₀ hs hcalendar₀ hsfirst (by
        rw [YearMonthDay.lt_def]
        omega))).2 (not_not.2 hlt)
      omega
    have hscan := isLast_scanStart h.positive h.cellsOrdered hpositive
    rw [← h.cells] at hscan
    rcases hscan with ⟨hw, hnone⟩ | ⟨-, c₂, hc₂, hcell₂, hnr₂, hmax₂⟩
    · have hnot := hnone c hc
      have hc1 := h.positive c hc
      omega
    · constructor
      · intro hle
        by_contra hgt
        have hle₂ := hmax₂ c hc (by omega)
        omega
      · intro hle
        have hlt₂ := h.cellsOrdered c₂ hc₂ c hc (by omega)
        omega
  · refine iff_of_true (h.bounds c hc).1 ?_
    have hcfirst := h.firstDate_le hc
    rw [YearMonthDay.lt_def] at *
    omega

/-- The two searches find the transactions between two days, neither of which is before the first
day and the first of which is not after the last day. -/
theorem getTxRangeOfInterval_spec (h : DayTable ds idx) (hne : ds ≠ []) (hs : CalendarDate s)
    (he : CalendarDate e) (hdates : ¬ e < s) (hsfirst : ¬ s < firstDate ds)
    (hmax : ¬ latestDate ds < s) :
    (idx.getTxRangeOfInterval s e = (0, 0) ∧ ∀ c ∈ ds, ¬ (¬ c.date < s ∧ ¬ e < c.date)) ∨
    ∃ lo hi, idx.getTxRangeOfInterval s e = (lo, hi) ∧ 1 ≤ lo ∧ hi ≤ idx.mMaxTransactionNr ∧
      (∃ c ∈ ds, ¬ c.date < s ∧ ¬ e < c.date) ∧
      ∀ c ∈ ds, lo ≤ c.txNr ∧ c.txNr ≤ hi ↔ ¬ c.date < s ∧ ¬ e < c.date := by
  have hcalendar₀ := h.calendarDate_firstDate hne
  have hefirst : ¬ e < firstDate ds := by
    rw [YearMonthDay.lt_def] at *
    omega
  -- the cells of both ends
  have hstartCell : idx.yearMonthToIndex s * 31 + (s.day - 1) = cellOfDate (firstDate ds) s := by
    unfold yearMonthToIndex cellOfDate
    rw [h.minDate, h.maxDate, if_neg (h.firstDate_ne_zeroDate hne), if_neg hsfirst, if_neg hmax]
  have hstop : cellOfDate (firstDate ds) s ≤ endCell idx e :=
    (h.endCell_spec hne hs he hefirst hsfirst hmax).2 hdates
  have hstartc : ∀ c ∈ ds, cellOfDate (firstDate ds) s ≤ cellOf (firstDate ds) c ↔
      ¬ c.date < s := fun c hc =>
    cellOfDate_le_iff hcalendar₀ hs (h.days c hc) hsfirst (h.firstDate_le hc)
  have hday : s.day ≠ 0 := by
    unfold CalendarDate at hs
    omega
  have hlo := fun c hc => h.scanStart_le_iff hne hs hsfirst (c := c) hc
  have hhi := isLast_scanEnd_stop h.positive h.cellsOrdered hstop
  have hmin := h.minNr hne
  rw [← h.cells] at hhi
  have hendCell : idx.yearMonthToIndex e * 31 + (if idx.mMaxDate < e then 30 else e.day - 1) =
      endCell idx e := rfl
  unfold getTxRangeOfInterval
  simp only [hendCell, hstartCell, if_neg hday, h.minDate]
  generalize scanEnd idx.mDayMonthYearTxRanges _ _ = v at hhi ⊢
  generalize scanStart idx.mDayMonthYearTxRanges _ = w at hlo ⊢
  rcases hhi with ⟨rfl, hnone⟩ | ⟨hv, c₁, hc₁, ⟨hge₁, hle₁⟩, hnr₁, hmax₁⟩
  · refine .inl ⟨by simp, ?_⟩
    rintro c hc ⟨h1, h2⟩
    exact hnone c hc ⟨(hstartc c hc).2 h1, (h.cellOf_le_endCell hc he hefirst).2 h2⟩
  · refine .inr ⟨if firstDate ds < s then w + 1 else idx.mMinTransactionNr, v, ?_, ?_, ?_, ?_, ?_⟩
    · rw [if_neg hv]
      split_ifs <;> rfl
    · split_ifs <;> omega
    · rw [← hnr₁]
      exact (h.bounds c₁ hc₁).2
    · exact ⟨c₁, hc₁, (hstartc c₁ hc₁).1 hge₁, (h.cellOf_le_endCell hc₁ he hefirst).1 hle₁⟩
    · intro c hc
      rw [← h.cellOf_le_endCell hc he hefirst, hlo c hc]
      refine and_congr_right ?_
      intro hstart
      constructor
      · intro hle
        by_contra hgt
        have hlt := h.cellsOrdered c₁ hc₁ c hc (by omega)
        omega
      · intro hle
        exact hmax₁ c hc ⟨(hstartc c hc).2 hstart, hle⟩

/-- **An interval that does not start before the first day** stands for the transactions of its
days. -/
theorem covers_between (h : DayTable ds idx) (hne : ds ≠ []) (hs : CalendarDate s)
    (he : CalendarDate e) (hdates : ¬ e < s) (hsfirst : ¬ s < firstDate ds) :
    Covers ds (idx.rangeOfDates s e) (fun c => ¬ c.date < s ∧ ¬ e < c.date) ∧
      ∀ lo hi, idx.rangeOfDates s e = some (lo, hi) → 1 ≤ lo ∧ hi ≤ idx.mMaxTransactionNr := by
  have hefirst : ¬ e < firstDate ds := by
    rw [YearMonthDay.lt_def] at *
    omega
  unfold rangeOfDates
  rw [h.minDate, h.maxDate]
  by_cases hmax : latestDate ds < s
  · rw [if_pos (.inl hmax)]
    refine ⟨covers_none ?_, by simp⟩
    rintro c hc ⟨hcs, -⟩
    have hle := latestDate_ge hc
    rw [YearMonthDay.lt_def] at *
    omega
  rw [if_neg (not_or.2 ⟨hmax, hefirst⟩)]
  by_cases hwhole : s = firstDate ds ∧ e = latestDate ds
  · rw [if_pos hwhole]
    have hall : ∀ c ∈ ds, ¬ c.date < s ∧ ¬ e < c.date := by
      intro c hc
      rw [hwhole.1, hwhole.2]
      exact ⟨h.firstDate_le hc, latestDate_ge hc⟩
    obtain ⟨c, hc⟩ := List.exists_mem_of_ne_nil ds hne
    refine ⟨covers_some ⟨c, hc, hall c hc⟩ ?_, ?_⟩
    · exact fun c hc => iff_of_true (h.bounds c hc) (hall c hc)
    · intro lo hi heq
      rw [Option.some.injEq, Prod.mk.injEq] at heq
      obtain ⟨rfl, rfl⟩ := heq
      exact ⟨h.minNr hne, le_rfl⟩
  rw [if_neg hwhole]
  rcases h.getTxRangeOfInterval_spec hne hs he hdates hsfirst hmax with
    ⟨hzero, hnone⟩ | ⟨lo, hi, hrange, hlo, hhi, hex, hmem⟩
  · rw [if_pos hzero]
    exact ⟨covers_none hnone, by simp⟩
  · have hnonzero : (lo, hi) ≠ (0, 0) := by
      intro hzero
      rw [Prod.mk.injEq] at hzero
      omega
    rw [hrange, if_neg hnonzero]
    refine ⟨covers_some hex hmem, ?_⟩
    intro lo' hi' heq
    rw [Option.some.injEq, Prod.mk.injEq] at heq
    obtain ⟨rfl, rfl⟩ := heq
    exact ⟨hlo, hhi⟩

/-- An interval that ends before the first day has no range. -/
theorem rangeOfDates_before (h : DayTable ds idx) (hfirst : e < firstDate ds) :
    idx.rangeOfDates s e = none := by
  unfold rangeOfDates
  rw [h.minDate, if_pos (.inr hfirst)]

/-- The numbers of a range up to the last transaction of an interval. -/
theorem bounds_isLast (h : DayTable ds idx) (hne : ds ≠ []) {v : ℕ} (hv : v ≠ 0)
    (hlast : IsLast ds (fun c => ¬ e < c.date) v) (lo hi : ℕ)
    (heq : some (idx.mMinTransactionNr, v) = some (lo, hi)) :
    1 ≤ lo ∧ hi ≤ idx.mMaxTransactionNr := by
  rw [Option.some.injEq, Prod.mk.injEq] at heq
  obtain ⟨rfl, rfl⟩ := heq
  refine ⟨h.minNr hne, ?_⟩
  rcases hlast with ⟨hzero, -⟩ | ⟨-, c, hc, -, rfl, -⟩
  · exact absurd hzero hv
  · exact (h.bounds c hc).2

/-- **An interval whose search is not stopped too early** stands for the transactions of its
days. -/
theorem covers_dates (h : DayTable ds idx) (hne : ds ≠ []) (hs : CalendarDate s)
    (he : CalendarDate e) (hdates : ¬ e < s) (hnot : ¬ StopsEarly ds s e) :
    Covers ds (idx.rangeOfDates s e) (fun c => ¬ c.date < s ∧ ¬ e < c.date) ∧
      ∀ lo hi, idx.rangeOfDates s e = some (lo, hi) → 1 ≤ lo ∧ hi ≤ idx.mMaxTransactionNr := by
  by_cases hsfirst : s < firstDate ds
  swap
  · exact h.covers_between hne hs he hdates hsfirst
  by_cases hefirst : e < firstDate ds
  · rw [h.rangeOfDates_before hefirst]
    refine ⟨covers_none ?_, by simp⟩
    rintro c hc ⟨-, hend⟩
    have hfirst := h.firstDate_le hc
    rw [YearMonthDay.lt_def] at *
    omega
  · obtain ⟨v, hv, hlast, hrange⟩ := h.late hs he hne hsfirst hefirst hnot
    rw [hrange]
    refine ⟨(covers_congr ?_).1 (h.covers_isLast hv hlast), h.bounds_isLast hne hv hlast⟩
    -- every transaction is after the start
    intro c hc
    refine (and_iff_right ?_).symm
    have hfirst := h.firstDate_le hc
    rw [YearMonthDay.lt_def] at *
    omega

/-- **An interval whose start was never set** stands for the transactions up to its last day. -/
theorem covers_upTo (h : DayTable ds idx) (hne : ds ≠ []) (he : CalendarDate e) :
    Covers ds (idx.rangeOfDates zeroDate e) (fun c => ¬ e < c.date) ∧
      ∀ lo hi, idx.rangeOfDates zeroDate e = some (lo, hi) →
        1 ≤ lo ∧ hi ≤ idx.mMaxTransactionNr := by
  by_cases hefirst : e < firstDate ds
  · rw [h.rangeOfDates_before hefirst]
    refine ⟨covers_none ?_, by simp⟩
    intro c hc hend
    have hfirst := h.firstDate_le hc
    rw [YearMonthDay.lt_def] at *
    omega
  · obtain ⟨v, hv, hlast, hrange⟩ := h.upTo_unset hne he hefirst
    rw [hrange]
    exact ⟨h.covers_isLast hv hlast, h.bounds_isLast hne hv hlast⟩

end DayTable

end Table

end TransactionsIndex

end Gradido
