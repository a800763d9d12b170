import GradidoBlockchain.Index.MonthSearch

/-!
# Counting in the index by months

`countTransactions` goes through the months like the search, but subtracts the
bounds where nothing else is asked for, and `countBalanceChangingTxs` and
`findTransactionsBalanceChangingForPublicKey` go through the list of a key, each
with months of its own.  `countsRight_iff` says for which filters all of them
agree with the search.
-/

namespace Gradido

open Checked Buckets Paging

namespace ByMonth

open Gradido.TransactionsIndex (InClock Admits)

/-- Every number is followed by the next one. -/
def Consecutive (cs : List ConfirmedGradidoTx) : Prop :=
  cs.IsChain (fun a b => b.txNr = a.txNr + 1)

section Months

variable {env : Env} {own : ℕ} {cs : List ConfirmedGradidoTx} {f : CompactFilter}
  {idx : TransactionsIndex}

theorem Consecutive.txNr_eq (h : Consecutive cs) (i : ℕ) (hi : i < cs.length) :
    cs[i].txNr = cs[0].txNr + i := by
  induction i with
  | zero => rfl
  | succ i ih =>
    have hnext := List.isChain_iff_getElem.1 h i hi
    have hbefore := ih (by omega)
    omega

theorem Consecutive.exists_txNr (h : Consecutive cs) {c c' : ConfirmedGradidoTx} (hc : c ∈ cs)
    (hc' : c' ∈ cs) {n : ℕ} (hlo : c.txNr ≤ n) (hhi : n ≤ c'.txNr) : ∃ d ∈ cs, d.txNr = n := by
  obtain ⟨i, hi, rfl⟩ := List.getElem_of_mem hc
  obtain ⟨j, hj, rfl⟩ := List.getElem_of_mem hc'
  have hfirst := h.txNr_eq i hi
  have hlast := h.txNr_eq j hj
  have hk : n - cs[0].txNr < cs.length := by omega
  have hnr := h.txNr_eq _ hk
  exact ⟨cs[n - cs[0].txNr], List.getElem_mem hk, by omega⟩

/-- Later numbers are not in earlier months. -/
theorem Monthly.month_le (h : Monthly cs) {c c' : ConfirmedGradidoTx} (hc : c ∈ cs) (hc' : c' ∈ cs)
    (hle : c.txNr ≤ c'.txNr) : monthNr c ≤ monthNr c' := by
  obtain ⟨i, hi, rfl⟩ := List.getElem_of_mem hc
  obtain ⟨j, hj, rfl⟩ := List.getElem_of_mem hc'
  rcases Nat.lt_trichotomy i j with hij | rfl | hij
  · exact List.pairwise_iff_getElem.1 h.months i j hi hj hij
  · exact Int.le_refl _
  · have hlt := List.pairwise_iff_getElem.1 h.numbered j i hj hi hij
    omega

/-- Between its first and its last number a month has all of them. -/
theorem perm_bucket (hcs : Monthly cs) (hconsecutive : Consecutive cs) {k : ℤ}
    {first last : ConfirmedGradidoTx} (hfirst : (bucket monthNr cs k).head? = some first)
    (hlast : (bucket monthNr cs k).getLast? = some last) :
    ((bucket monthNr cs k).map ConfirmedGradidoTx.txNr).Perm
      (List.range' first.txNr (last.txNr + 1 - first.txNr)) := by
  have hsorted : (bucket monthNr cs k).Pairwise (fun a b => a.txNr < b.txNr) :=
    hcs.numbered.filter _
  have hnodup : ((bucket monthNr cs k).map ConfirmedGradidoTx.txNr).Nodup :=
    List.pairwise_map.2 (hsorted.imp (fun hlt => Nat.ne_of_lt hlt))
  rw [List.perm_ext_iff_of_nodup hnodup List.nodup_range']
  intro n
  rw [List.mem_range'_1]
  obtain ⟨hfirstmem, hfirstkey⟩ := mem_bucket.1 (List.mem_of_mem_head? hfirst)
  obtain ⟨hlastmem, hlastkey⟩ := mem_bucket.1 (List.mem_of_getLast? hlast)
  constructor
  · intro hn
    obtain ⟨c, hc, rfl⟩ := List.mem_map.1 hn
    have hge := head_le hsorted hfirst hc
    have hle := le_last hsorted hlast hc
    omega
  · rintro ⟨hge, hlt⟩
    obtain ⟨d, hd, rfl⟩ := hconsecutive.exists_txNr hfirstmem hlastmem hge (by omega)
    have hmin := hcs.month_le hfirstmem hd hge
    have hmax := hcs.month_le hd hlastmem (by omega)
    exact List.mem_map.2 ⟨d, mem_bucket.2 ⟨hd, by omega⟩, rfl⟩

/-- **The subtraction of the bounds** counts what they admit. -/
theorem countBetween_eq (hcs : Monthly cs) (hconsecutive : Consecutive cs) {k : ℤ}
    {first last : ConfirmedGradidoTx} (hfirst : (bucket monthNr cs k).head? = some first)
    (hlast : (bucket monthNr cs k).getLast? = some last) :
    TransactionsIndex.countBetween f first.txNr last.txNr =
      ((bucket monthNr cs k).filter (fun c => decide (Admits f c.txNr))).length := by
  have hsorted : (bucket monthNr cs k).Pairwise (fun a b => a.txNr < b.txNr) :=
    hcs.numbered.filter _
  have hle := head_le hsorted hfirst (List.mem_of_getLast? hlast)
  obtain ⟨hi, hhi⟩ : ∃ hi, hi = if f.maxTransactionNr = 0 then last.txNr
      else f.maxTransactionNr := ⟨_, rfl⟩
  have hperm := (perm_bucket hcs hconsecutive hfirst hlast).filter
    (fun n => decide (f.minTransactionNr ≤ n ∧ n ≤ hi))
  have hlength := hperm.length_eq
  rw [List.filter_map, List.length_map, length_filter_range'] at hlength
  have hsame : (bucket monthNr cs k).filter (fun c => decide (Admits f c.txNr)) =
      (bucket monthNr cs k).filter ((fun n => decide (f.minTransactionNr ≤ n ∧ n ≤ hi)) ∘
        ConfirmedGradidoTx.txNr) := by
    refine List.filter_congr (fun c hc => ?_)
    have hupper := le_last hsorted hlast hc
    rw [Function.comp_apply, decide_eq_decide, Admits, hhi]
    split_ifs <;> omega
  rw [hsame, hlength]
  unfold TransactionsIndex.countBetween
  dsimp only
  split_ifs at hhi ⊢ <;> omega

/-- A filter that asks for nothing but numbers. -/
theorem uses_of_plain (hfew : ∀ c ∈ cs, (involved env c).length ≤ 4)
    (hplain : ¬ (f.transactionType ≠ .none ∨ f.publicKeySearchType ≠ .none ∨
      f.coinCommunityIdIndex ≠ 0)) {c : ConfirmedGradidoTx} (hc : c ∈ cs) :
    uses env f c = decide (Admits f c.txNr) := by
  simp only [ne_eq, not_or, not_not] at hplain
  obtain ⟨htype, hsearch, hcoin⟩ := hplain
  rw [Bool.eq_iff_iff, uses, isMatchingFilter_use_iff (hfew c hc), decide_eq_true_iff]
  constructor
  · exact fun hmatches => hmatches.number
  · intro hadmits
    refine ⟨.inl htype, .inl hcoin, hadmits, fun hbalance => ?_, fun hkey => ?_⟩
    · simp [hsearch] at hbalance
    · simp [hsearch] at hkey

/-- **The loop of the count** over the months. -/
theorem TransactionsIndex.Holds.countMonths_eq (h : idx.Holds env own cs) (hcs : Monthly cs)
    (hconsecutive : Consecutive cs) {yms : List (ℤ × ℕ)}
    (hyms : ∀ ym ∈ yms, Calendar.IsMonth ym ∧ Covered cs (Calendar.monthNumber ym))
    (hsorted : ((yms.map (fun ym => bucket monthNr cs (Calendar.monthNumber ym))).flatten).Pairwise
      (fun a b => a.txNr < b.txNr)) (acc : ℕ) :
    idx.countMonths f yms acc = .ok (acc + (((yms.map (fun ym =>
      bucket monthNr cs (Calendar.monthNumber ym))).flatten).filter (uses env f)).length) := by
  induction yms generalizing acc with
  | nil => simp [TransactionsIndex.countMonths]
  | cons ym yms ih =>
    obtain ⟨hmonth, hcovered⟩ := hyms ym List.mem_cons_self
    obtain ⟨i, hi, hentries⟩ := h.entries_of_month hcs hmonth hcovered
    rw [List.map_cons, List.flatten_cons] at hsorted ⊢
    obtain ⟨hinside, hrest, hacross⟩ := List.pairwise_append.1 hsorted
    have hnext := ih (fun ym' hym' => hyms ym' (List.mem_cons_of_mem _ hym')) hrest
    have hmem : ∀ c ∈ bucket monthNr cs (Calendar.monthNumber ym), c ∈ cs := fun c hc =>
      (mem_bucket.1 hc).1
    have hmem' : ∀ c ∈ (yms.map (fun ym => bucket monthNr cs
        (Calendar.monthNumber ym))).flatten, c ∈ cs := by
      intro c hc
      obtain ⟨b, hb, hcb⟩ := List.mem_flatten.1 hc
      obtain ⟨ym', -, rfl⟩ := List.mem_map.1 hb
      exact (mem_bucket.1 hcb).1
    have hbetween := @countBetween_eq cs f hcs hconsecutive (Calendar.monthNumber ym)
    rw [TransactionsIndex.countMonths, hi, ok_bind, hentries, List.filter_append,
      List.length_append]
    generalize bucket monthNr cs (Calendar.monthNumber ym) = b at *
    cases hhead : b.head? with
    | none =>
      obtain rfl := List.head?_eq_none_iff.1 hhead
      simp [hnext]
    | some first =>
      obtain ⟨last, hlast⟩ : ∃ last, b.getLast? = some last := by
        cases hlast : b.getLast? with
        | none =>
          rw [List.getLast?_eq_none_iff.1 hlast] at hhead
          simp at hhead
        | some last => exact ⟨last, rfl⟩
      have hfirstmem := List.mem_of_mem_head? hhead
      simp only [List.head?_map, List.getLast?_map, hhead, hlast, Option.map_some,
        transactionNr_entryOf]
      cases hbelow : endsBelow f (b.map (entryOf env)) with
      | true =>
        have hnone : b.filter (uses env f) = [] := List.filter_eq_nil_iff.2 (fun c hc => by
          simp [uses_of_endsBelow hinside hbelow hc (h.few c (hmem c hc))])
        simp [hnone, hnext]
      | false =>
        cases habove : startsAbove f (b.map (entryOf env)) with
        | true =>
          -- neither this month nor a later one is counted
          obtain ⟨a, ha, hmax, hlt⟩ := startsAbove_iff.1 habove
          have hnone : b.filter (uses env f) = [] := List.filter_eq_nil_iff.2 (fun c hc => by
            simp [uses_of_startsAbove hinside habove hc (h.few c (hmem c hc))])
          have hnone' : ((yms.map (fun ym => bucket monthNr cs
              (Calendar.monthNumber ym))).flatten).filter (uses env f) = [] :=
            List.filter_eq_nil_iff.2 (fun c hc => by
              have hle := hacross a (List.mem_of_mem_head? ha) c hc
              simp [uses_eq_false (h.few c (hmem' c hc)) (.inr ⟨hmax, Nat.lt_trans hlt hle⟩)])
          simp [hnone, hnone']
        | false =>
          simp only [Bool.false_eq_true, if_false]
          split_ifs with hrestricted
          · rw [hnext, List.filter_map, List.length_map, Nat.add_assoc]
            rfl
          · have hsame : b.filter (uses env f) = b.filter (fun c => decide (Admits f c.txNr)) :=
              List.filter_congr (fun c hc => uses_of_plain h.few hrestricted (hmem c hc))
            rw [hnext, hbetween hhead hlast, hsame, Nat.add_assoc]

/-- **The count through the months of an interval.** -/
theorem TransactionsIndex.Holds.countMonths_interval (h : idx.Holds env own cs) (hcs : Monthly cs)
    (hconsecutive : Consecutive cs) {i : TimepointInterval} (hinside : Inside cs i) :
    idx.countMonths f i.months 0 = .ok (cs.filter (fun c =>
      decide (monthOf i.startDate ≤ monthNr c ∧ monthNr c ≤ monthOf i.endDate) &&
        uses env f c)).length := by
  have hflatten : (i.months.map (fun ym => bucket monthNr cs (Calendar.monthNumber ym))).flatten =
      cs.filter (fun c => decide (monthOf i.startDate ≤ monthNr c ∧
        monthNr c ≤ monthOf i.endDate)) := by
    have hmap : i.months.map (fun ym => bucket monthNr cs (Calendar.monthNumber ym)) =
        (i.months.map Calendar.monthNumber).map (bucket monthNr cs) := by
      rw [List.map_map]
      rfl
    rw [hmap, map_months, flatten_buckets hcs.months]
    refine List.filter_congr (fun c _ => ?_)
    rw [decide_eq_decide]
    omega
  rw [h.countMonths_eq hcs hconsecutive (months_covered hinside)
    (by rw [hflatten]; exact hcs.numbered.filter _), hflatten, List.filter_filter, Nat.zero_add]
  congr 2
  refine List.filter_congr (fun c _ => Bool.and_comm _ _)

/-- **The count**, unless it is about balances. -/
theorem TransactionsIndex.Holds.countTransactions_eq (h : idx.Holds env own cs) (hcs : Monthly cs)
    (hconsecutive : Consecutive cs) (hmissing : f.publicKeySearchType ≠ .missingIndex)
    (hbalance : f.publicKeySearchType ≠ .balanceChangingPublicKey) :
    idx.countTransactions f =
      if idx.outOfBounds f = false ∧ f.timepointInterval.isOverlap (spanned cs) = true ∧
          ¬ InOrder f then
        .error (.endDateBeforeStartDate "end date for timepoint interval is before start date")
      else .ok (cs.filter (fun c => decide (Overlaps cs f → InMonths f c) &&
        uses env f c)).length := by
  have hcount := h.countMonths_interval hcs hconsecutive (f := f) (inside_searched hcs (f := f))
  have hfilter : cs.filter (fun c => decide (monthOf (searched cs f).startDate ≤ monthNr c ∧
        monthNr c ≤ monthOf (searched cs f).endDate) && uses env f c) =
      cs.filter (fun c => decide (Overlaps cs f → InMonths f c) && uses env f c) := by
    refine List.filter_congr (fun c hc => ?_)
    congr 1
    rw [decide_eq_decide]
    exact searched_iff hcs hc
  rw [hfilter] at hcount
  unfold TransactionsIndex.countTransactions
  split
  next hsearch => exact absurd hsearch hmissing
  next hsearch => exact absurd hsearch hbalance
  rw [h.filteredTimepointInterval_searched hcs]
  cases hout : idx.outOfBounds f with
  | true =>
    have hnone : cs.filter (fun c => decide (Overlaps cs f → InMonths f c) && uses env f c) = [] :=
      List.filter_eq_nil_iff.2 (fun c hc => by simp [h.uses_of_outOfBounds hout hc])
    rw [hnone]
    simp
  | false =>
    by_cases hreversed : f.timepointInterval.isOverlap (spanned cs) = true ∧ ¬ InOrder f
    · rw [if_neg Bool.false_ne_true, if_pos hreversed, if_pos ⟨rfl, hreversed⟩]
      rfl
    · simp only [Bool.false_eq_true, if_false, hreversed, true_and, ok_bind]
      exact hcount

end Months

/-! ### The lists of the keys -/

section Lists

variable {env : Env} {own : ℕ} {cs : List ConfirmedGradidoTx} {f : CompactFilter}
  {idx : TransactionsIndex} {c : ConfirmedGradidoTx} {s e : ℤ}

/-- A time point has a year and a month for `timepointAsYearMonth`. -/
def Dated (p : ℤ) : Prop := p ≠ 0 ∧ (yearMonthOf p).1 ≠ 0

instance (p : ℤ) : Decidable (Dated p) :=
  inferInstanceAs (Decidable (_ ∧ _))

/-- What the matcher of a list asks for besides the month. -/
def MeetsBounds (f : CompactFilter) (c : ConfirmedGradidoTx) : Prop :=
  (f.transactionType = .none ∨ f.transactionType = c.transactionType) ∧
    (f.coinCommunityIdIndex = 0 ∨ coinOf c = f.coinCommunityIdIndex) ∧ Admits f c.txNr

instance (f : CompactFilter) (c : ConfirmedGradidoTx) : Decidable (MeetsBounds f c) :=
  inferInstanceAs (Decidable (_ ∧ _))

/-- The month lies between two dates; a date that was never set leaves both of them out. -/
def Between (s e : ℤ) (c : ConfirmedGradidoTx) : Prop :=
  Dated s → Dated e → monthOf s ≤ monthNr c ∧ monthNr c ≤ monthOf e

instance (s e : ℤ) (c : ConfirmedGradidoTx) : Decidable (Between s e c) :=
  inferInstanceAs (Decidable (_ → _ → _))

/-- The matcher of a list, for the months of two dates. -/
def listMatch (f : CompactFilter) (s e : ℤ) (c : ConfirmedGradidoTx) : FilterResult :=
  (balanceEntryOf c).isMatchingFilter f (timepointAsYearMonth s) (timepointAsYearMonth e)

theorem dated_iff (p : ℤ) :
    Dated p ↔ (timepointAsYearMonth p).1 ≠ 0 ∧ (timepointAsYearMonth p).2 ≠ 0 := by
  unfold Dated
  by_cases hp : p = 0
  · subst hp
    simp [timepointAsYearMonth, timepointAsYearMonthDay]
  · have hmonth := (isMonth_yearMonthOf p).1
    rw [timepointAsYearMonth_of_ne_zero hp]
    constructor
    · exact fun hdated => ⟨hdated.2, by omega⟩
    · exact fun hdated => ⟨hp, hdated.1⟩

/-- The tests of the matcher on the months. -/
theorem before_start_iff (hs : Dated s) :
    before (balanceEntryOf c).confirmed (timepointAsYearMonth s) = true ↔
      monthNr c < monthOf s := by
  rw [timepointAsYearMonth_of_ne_zero hs.1]
  exact TransactionsIndex.before_iff (isMonth_yearMonthOf _) (isMonth_yearMonthOf _)

theorem before_end_iff (he : Dated e) :
    before (timepointAsYearMonth e) (balanceEntryOf c).confirmed = true ↔
      monthOf e < monthNr c := by
  rw [timepointAsYearMonth_of_ne_zero he.1]
  exact TransactionsIndex.before_iff (isMonth_yearMonthOf _) (isMonth_yearMonthOf _)

theorem listMatch_use_iff :
    (listMatch f s e c).use = true ↔ MeetsBounds f c ∧ Between s e c := by
  have hstop : ∀ d,
      (if f.searchDirection = d then FilterResult.STOP else .DISMISS).use = false := by
    intro d
    split_ifs <;> rfl
  have hdates : ((timepointAsYearMonth s).1 ≠ 0 ∧ (timepointAsYearMonth s).2 ≠ 0 ∧
      (timepointAsYearMonth e).1 ≠ 0 ∧ (timepointAsYearMonth e).2 ≠ 0) ↔ Dated s ∧ Dated e := by
    rw [dated_iff, dated_iff, and_assoc]
  have htype : (balanceEntryOf c).transactionType = c.transactionType := rfl
  have hcoin : (balanceEntryOf c).coinCommunityIdIndex = coinOf c := rfl
  have hnr : (balanceEntryOf c).transactionNr = c.txNr := rfl
  unfold listMatch BalanceTransactionIndexEntry.isMatchingFilter
  dsimp only
  rw [use_unless rfl, use_unless (hstop _), use_unless (hstop _), use_unless rfl,
    use_unless (hstop _), use_unless (hstop _), hdates, htype, hcoin, hnr]
  have hmonths : ¬ ((Dated s ∧ Dated e) ∧
        before (balanceEntryOf c).confirmed (timepointAsYearMonth s) = true) ∧
      ¬ ((Dated s ∧ Dated e) ∧
        before (timepointAsYearMonth e) (balanceEntryOf c).confirmed = true) ↔ Between s e c := by
    unfold Between
    by_cases hdated : Dated s ∧ Dated e
    · rw [before_start_iff hdated.1, before_end_iff hdated.2]
      simp only [hdated.1, hdated.2, true_and, and_self, Int.not_lt, true_imp_iff]
    · simp only [hdated, false_and, not_false_eq_true, and_self, true_iff]
      exact fun hs he => absurd ⟨hs, he⟩ hdated
  rw [← hmonths]
  simp only [MeetsBounds, Admits, ne_eq, not_and_or, not_not, gt_iff_lt, Nat.not_lt]
  constructor
  · rintro ⟨htype, hstart, hend, hcoin, hmax, hmin, -⟩
    exact ⟨⟨htype, hcoin, hmin, hmax⟩, hstart, hend⟩
  · rintro ⟨⟨htype, hcoin, hmin, hmax⟩, hstart, hend⟩
    exact ⟨htype, hstart, hend, hcoin, hmax, hmin, rfl⟩

/-- An entry that stops a search is out of bounds in the direction of the search. -/
theorem listMatch_stop (h : (listMatch f s e c).stop = true) :
    f.searchDirection = .desc ∧ (Dated s ∧ Dated e ∧ monthNr c < monthOf s ∨
        c.txNr < f.minTransactionNr) ∨
      f.searchDirection = .asc ∧ (Dated s ∧ Dated e ∧ monthOf e < monthNr c ∨
        f.maxTransactionNr ≠ 0 ∧ f.maxTransactionNr < c.txNr) := by
  have hdates : ((timepointAsYearMonth s).1 ≠ 0 ∧ (timepointAsYearMonth s).2 ≠ 0 ∧
      (timepointAsYearMonth e).1 ≠ 0 ∧ (timepointAsYearMonth e).2 ≠ 0) → Dated s ∧ Dated e := by
    rw [dated_iff, dated_iff, and_assoc]
    exact id
  have hnr : (balanceEntryOf c).transactionNr = c.txNr := rfl
  unfold listMatch BalanceTransactionIndexEntry.isMatchingFilter at h
  dsimp only at h
  rw [hnr] at h
  split_ifs at h with h1 h2 h3 h4 h5 h6 h7 h8 h9 h10
  all_goals first
    | exact absurd h (by decide)
    | skip
  · obtain ⟨hs, he⟩ := hdates h2.1
    exact .inl ⟨h3, .inl ⟨hs, he, (before_start_iff hs).1 h2.2⟩⟩
  · obtain ⟨hs, he⟩ := hdates h4.1
    exact .inr ⟨h5, .inl ⟨hs, he, (before_end_iff he).1 h4.2⟩⟩
  · exact .inr ⟨h8, .inr h7⟩
  · exact .inl ⟨h10, .inr h9.2⟩

/-- Behind an entry that stops the search, nothing is used. -/
theorem unused_behind_stop {c' : ConfirmedGradidoTx}
    (hbehind : f.searchDirection = .asc ∧ c.txNr < c'.txNr ∧ monthNr c ≤ monthNr c' ∨
      f.searchDirection = .desc ∧ c'.txNr < c.txNr ∧ monthNr c' ≤ monthNr c)
    (hstop : (listMatch f s e c).stop = true) : (listMatch f s e c').use = false := by
  rw [Bool.eq_false_iff]
  intro huse
  obtain ⟨⟨-, -, hmin, hmax⟩, hbetween⟩ := listMatch_use_iff.1 huse
  rcases listMatch_stop hstop with ⟨hd, hout⟩ | ⟨hd, hout⟩
  · rcases hbehind with ⟨hasc, -⟩ | ⟨-, hlt, hmonth⟩
    · rw [hd] at hasc
      simp at hasc
    · rcases hout with ⟨hs, he, hbelow⟩ | hbelow
      · have hin := hbetween hs he
        omega
      · omega
  · rcases hbehind with ⟨-, hlt, hmonth⟩ | ⟨hdesc, -⟩
    · rcases hout with ⟨hs, he, habove⟩ | ⟨hne, habove⟩
      · have hin := hbetween hs he
        omega
      · omega
    · rw [hd] at hdesc
      simp at hdesc

/-- The matcher of a list, as a test. -/
def listUses (f : CompactFilter) (s e : ℤ) (c : ConfirmedGradidoTx) : Bool :=
  (listMatch f s e c).use

/-- The end of a search in a list, as a test. -/
def listStops (f : CompactFilter) (s e : ℤ) (c : ConfirmedGradidoTx) : Bool :=
  (listMatch f s e c).stop

theorem collectFiltered_eq (hsize : f.pagination.size = 0) (l : List ConfirmedGradidoTx)
    (acc : List ℕ) (n : ℕ) :
    TransactionsIndex.collectFiltered f (fun b => (b.transactionNr,
        b.isMatchingFilter f (timepointAsYearMonth s) (timepointAsYearMonth e)))
        (l.map balanceEntryOf) (acc, n) =
      acc ++ (taken (listUses f s e) (listStops f s e) l).map ConfirmedGradidoTx.txNr := by
  have hcapacity : ∀ k, f.pagination.hasCapacityLeft k = true := by
    intro k
    simp [Pagination.hasCapacityLeft, hsize]
  have hskip : f.pagination.skipEntriesCount = 0 := by
    unfold Pagination.skipEntriesCount
    rw [hsize]
    split_ifs <;> simp
  induction l generalizing acc n with
  | nil => simp [TransactionsIndex.collectFiltered]
  | cons c l ih =>
    have hmatch : (balanceEntryOf c).isMatchingFilter f (timepointAsYearMonth s)
        (timepointAsYearMonth e) = listMatch f s e c := rfl
    have hnr : (balanceEntryOf c).transactionNr = c.txNr := rfl
    rw [List.map_cons, TransactionsIndex.collectFiltered, taken_cons]
    dsimp only
    rw [hmatch, hnr, hcapacity, hskip]
    unfold listUses listStops
    cases huse : (listMatch f s e c).use with
    | true =>
      cases hstop : (listMatch f s e c).stop with
      | true => simp
      | false =>
        have hrest := ih (acc ++ [c.txNr]) (n + 1)
        unfold listUses listStops at hrest
        simp [hrest]
    | false =>
      cases hstop : (listMatch f s e c).stop with
      | true => simp
      | false =>
        have hrest := ih acc n
        unfold listUses listStops at hrest
        simp [hrest]

theorem countEntries_eq (l : List ConfirmedGradidoTx) (n : ℕ) :
    TransactionsIndex.countEntries f (timepointAsYearMonth s) (timepointAsYearMonth e)
        (l.map balanceEntryOf) n =
      n + (taken (listUses f s e) (listStops f s e) l).length := by
  induction l generalizing n with
  | nil => simp [TransactionsIndex.countEntries]
  | cons c l ih =>
    have hmatch : (balanceEntryOf c).isMatchingFilter f (timepointAsYearMonth s)
        (timepointAsYearMonth e) = listMatch f s e c := rfl
    rw [List.map_cons, TransactionsIndex.countEntries, taken_cons, hmatch]
    unfold listUses listStops at ih ⊢
    cases huse : (listMatch f s e c).use with
    | true =>
      cases hstop : (listMatch f s e c).stop with
      | true => simp
      | false => simp [ih]; omega
    | false =>
      cases hstop : (listMatch f s e c).stop with
      | true => simp
      | false => simp [ih]

/-- In the order of the search, stopping does not matter. -/
theorem taken_listUses (hcs : Monthly cs) {l : List ConfirmedGradidoTx} (hl : l.Sublist cs) :
    taken (listUses f s e) (listStops f s e) (inDirection f l) =
      (inDirection f l).filter (listUses f s e) := by
  refine taken_eq_filter ?_
  have hsorted := (hcs.numbered.and hcs.months).sublist hl
  unfold inDirection
  cases hd : f.searchDirection with
  | asc =>
    exact hsorted.imp (fun hlt => unused_behind_stop (.inl ⟨hd, hlt⟩))
  | desc =>
    exact List.pairwise_reverse.2 (hsorted.imp (fun hlt => unused_behind_stop (.inr ⟨hd, hlt⟩)))

/-- The transactions in the list of a key. -/
def listOf (env : Env) (cs : List ConfirmedGradidoTx) (k : ℕ) : List ConfirmedGradidoTx :=
  cs.filter (fun c => decide (Changes env c k))

/-- **The list of a key**, searched without pages. -/
theorem TransactionsIndex.Holds.findBalanceChanging_eq (h : idx.Holds env own cs)
    (hcs : Monthly cs) (hsize : f.pagination.size = 0)
    (hsearch : f.publicKeySearchType = .balanceChangingPublicKey)
    (hkey : f.publicKeyIndex.empty = false) :
    idx.findTransactionsBalanceChangingForPublicKey f =
      if listOf env cs f.publicKeyIndex.publicKeyIndex ≠ [] ∧
          f.timepointInterval.isOverlap (spanned cs) = true ∧ ¬ InOrder f then
        .error (.endDateBeforeStartDate "end date for timepoint interval is before start date")
      else .ok ((inDirection f ((listOf env cs f.publicKeyIndex.publicKeyIndex).filter
        (listUses f (searched cs f).startDate (searched cs f).endDate))).map
          ConfirmedGradidoTx.txNr) := by
  have hlist : idx.mBalanceChangingTxPerAccountPublicKey f.publicKeyIndex.publicKeyIndex =
      (listOf env cs f.publicKeyIndex.publicKeyIndex).map balanceEntryOf := h.lists _
  have hsublist : (listOf env cs f.publicKeyIndex.publicKeyIndex).Sublist cs := List.filter_sublist
  unfold TransactionsIndex.findTransactionsBalanceChangingForPublicKey
  rw [hlist, h.filteredTimepointInterval_searched hcs]
  simp only [hsearch, hkey, ne_eq, not_true, decide_false, Bool.or_self, throwIf_false, ok_bind,
    List.map_eq_nil_iff]
  generalize listOf env cs f.publicKeyIndex.publicKeyIndex = l at hsublist ⊢
  by_cases hnil : l = []
  · subst hnil
    unfold inDirection
    cases f.searchDirection <;> simp
  have hdirected : inDirection f (l.map balanceEntryOf) = (inDirection f l).map balanceEntryOf := by
    unfold inDirection
    cases f.searchDirection with
    | asc => rfl
    | desc => exact List.map_reverse.symm
  have hfilter : (inDirection f l).filter
        (listUses f (searched cs f).startDate (searched cs f).endDate) =
      inDirection f (l.filter
        (listUses f (searched cs f).startDate (searched cs f).endDate)) := by
    unfold inDirection
    cases f.searchDirection with
    | asc => rfl
    | desc => exact List.filter_reverse
  by_cases hreversed : f.timepointInterval.isOverlap (spanned cs) = true ∧ ¬ InOrder f
  · rw [if_neg hnil, if_pos hreversed, if_pos ⟨hnil, hreversed⟩]
    rfl
  · rw [if_neg hnil, if_neg hreversed, if_neg (fun hand => hreversed hand.2), ok_bind, hdirected,
      collectFiltered_eq hsize, taken_listUses hcs hsublist, hfilter]
    rfl

/-- **The count of the list of a key.** -/
theorem TransactionsIndex.Holds.countBalanceChangingTxs_eq (h : idx.Holds env own cs)
    (hcs : Monthly cs) (hsearch : f.publicKeySearchType = .balanceChangingPublicKey) :
    idx.countBalanceChangingTxs f =
      if listOf env cs f.publicKeyIndex.publicKeyIndex ≠ [] ∧
          f.timepointInterval.isOverlap (spanned cs) = true ∧ ¬ InOrder f then
        .error (.endDateBeforeStartDate "end date for timepoint interval is before start date")
      else .ok ((listOf env cs f.publicKeyIndex.publicKeyIndex).filter
        (listUses f f.timepointInterval.startDate f.timepointInterval.endDate)).length := by
  have hlist : idx.mBalanceChangingTxPerAccountPublicKey f.publicKeyIndex.publicKeyIndex =
      (listOf env cs f.publicKeyIndex.publicKeyIndex).map balanceEntryOf := h.lists _
  have hsublist : (listOf env cs f.publicKeyIndex.publicKeyIndex).Sublist cs := List.filter_sublist
  have hthrow : decide (f.publicKeySearchType ≠ .balanceChangingPublicKey) = false := by
    simp [hsearch]
  unfold TransactionsIndex.countBalanceChangingTxs
  rw [hlist, h.filteredTimepointInterval_searched hcs, hthrow, throwIf_false, ok_bind]
  simp only [List.map_eq_nil_iff]
  generalize listOf env cs f.publicKeyIndex.publicKeyIndex = l at hsublist ⊢
  by_cases hnil : l = []
  · subst hnil
    simp
  rw [if_neg hnil]
  by_cases hplain : f.minTransactionNr = 0 ∧ f.maxTransactionNr = 0 ∧ f.transactionType = .none ∧
      f.timepointInterval.isEmpty = true ∧ f.coinCommunityIdIndex = 0
  · -- nothing is asked for
    obtain ⟨hmin, hmax, htype, hempty, hcoin⟩ := hplain
    have hoverlap : f.timepointInterval.isOverlap (spanned cs) = false := by
      simp [TimepointInterval.isOverlap, hempty]
    have hall : l.filter
        (listUses f f.timepointInterval.startDate f.timepointInterval.endDate) = l := by
      refine List.filter_eq_self.2 (fun c _ => listMatch_use_iff.2 ⟨⟨.inl htype, .inl hcoin,
        .inl hmin, .inl hmax⟩, fun hstart => absurd ?_ hstart.1⟩)
      simp only [TimepointInterval.isEmpty, Bool.and_eq_true, decide_eq_true_eq] at hempty
      exact hempty.1
    rw [if_pos ⟨hmin, hmax, htype, hempty, hcoin⟩, hall, hoverlap, List.length_map]
    simp
  rw [if_neg hplain]
  by_cases hreversed : f.timepointInterval.isOverlap (spanned cs) = true ∧ ¬ InOrder f
  · rw [if_pos hreversed, if_pos ⟨hnil, hreversed⟩]
    rfl
  · have htaken := @taken_listUses cs { f with
      timepointInterval := searched cs f, searchDirection := .asc }
      f.timepointInterval.startDate f.timepointInterval.endDate hcs l hsublist
    have hsame : ∀ c, listUses { f with
        timepointInterval := searched cs f, searchDirection := .asc }
        f.timepointInterval.startDate f.timepointInterval.endDate c =
          listUses f f.timepointInterval.startDate f.timepointInterval.endDate c := by
      intro c
      rw [Bool.eq_iff_iff]
      unfold listUses
      rw [listMatch_use_iff, listMatch_use_iff]
      rfl
    rw [if_neg hreversed, if_neg (fun hand => hreversed hand.2), ok_bind, countEntries_eq,
      Nat.zero_add]
    change Except.ok (taken _ _ (inDirection { f with
      timepointInterval := searched cs f, searchDirection := .asc } l)).length = _
    rw [htaken]
    change Except.ok (l.filter _).length = _
    rw [List.filter_congr (fun c _ => hsame c)]

end Lists

/-! ### Counting and finding -/

section Agreement

variable {env : Env} {own : ℕ} {cs : List ConfirmedGradidoTx} {f : CompactFilter}
  {idx : TransactionsIndex} {c : ConfirmedGradidoTx}

/-- The count is the length of what the search finds, and for the balance of a key so are the count
of its list and the length of what is found there. -/
def CountsRight (idx : TransactionsIndex) (f : CompactFilter) : Prop :=
  (∃ l, idx.findTransactions f = .ok l ∧ idx.countTransactions f = .ok l.length) ∧
    (f.publicKeySearchType = .balanceChangingPublicKey →
      ∃ l l', idx.findTransactions f = .ok l ∧ idx.countBalanceChangingTxs f = .ok l.length ∧
        idx.findTransactionsBalanceChangingForPublicKey f = .ok l' ∧ l'.length = l.length)

/-- The search gets to a transaction: the interval overlaps the months of the index and has its
month, and backwards the month does not start with a number below the lower bound. -/
def Reached (cs : List ConfirmedGradidoTx) (f : CompactFilter) (c : ConfirmedGradidoTx) : Prop :=
  Overlaps cs f ∧ InMonths f c ∧ (f.searchDirection = .desc → ¬ StartsEarlier cs f c)

instance (cs : List ConfirmedGradidoTx) (f : CompactFilter) (c : ConfirmedGradidoTx) :
    Decidable (Reached cs f c) :=
  inferInstanceAs (Decidable (_ ∧ _))

/-- What a filter has to respect.

* The balance of a foreign or an empty key must not be asked for, and the interval must not be
  reversed: one of the functions throws.
* The search has to get to every matching transaction that is counted: to those in the months of
  the interval, and without an overlap to all of them; for the balance of a key to those between
  the dates of the interval and to those between the dates that are searched, where a date at the
  epoch is no date. -/
structure Countable (env : Env) (own : ℕ) (cs : List ConfirmedGradidoTx) (idx : TransactionsIndex)
    (f : CompactFilter) : Prop where
  key : f.publicKeySearchType = .balanceChangingPublicKey →
    f.publicKeyIndex.communityIdIndex = own ∧ f.publicKeyIndex.empty = false
  ordered : f.publicKeySearchType ≠ .missingIndex →
    f.timepointInterval.isOverlap (spanned cs) = true →
      idx.outOfBounds f = false ∨ f.publicKeySearchType = .balanceChangingPublicKey ∧
        listOf env cs f.publicKeyIndex.publicKeyIndex ≠ [] → InOrder f
  months : f.publicKeySearchType ≠ .missingIndex →
    f.publicKeySearchType ≠ .balanceChangingPublicKey → ∀ c ∈ cs, Matches env f c →
      (Overlaps cs f → InMonths f c) → Reached cs f c
  list : f.publicKeySearchType = .balanceChangingPublicKey → ∀ c ∈ cs, Matches env f c →
    Between f.timepointInterval.startDate f.timepointInterval.endDate c ∨
      Between (searched cs f).startDate (searched cs f).endDate c → Reached cs f c

theorem length_inDirection {α : Type} (l : List α) : (inDirection f l).length = l.length := by
  unfold inDirection
  cases f.searchDirection <;> simp

/-- How much the search finds. -/
theorem TransactionsIndex.Holds.findTransactions_length (h : idx.Holds env own cs)
    (hcs : Monthly cs) (hsize : f.pagination.size = 0)
    (hmissing : f.publicKeySearchType ≠ .missingIndex)
    (hown : f.publicKeySearchType = .balanceChangingPublicKey →
      f.publicKeyIndex.communityIdIndex = own)
    (hordered : idx.outOfBounds f = false → f.timepointInterval.isOverlap (spanned cs) = true →
      InOrder f) :
    ∃ l, idx.findTransactions f = .ok l ∧
      l.length = (cs.filter (fun c => decide (Matches env f c ∧ Reached cs f c))).length := by
  have hfind := h.findTransactions_of_ordered hcs hsize hmissing hown hordered f.searchDirection
  refine ⟨_, hfind, ?_⟩
  rw [List.length_map, length_inDirection]
  congr 1
  refine List.filter_congr (fun c hc => ?_)
  rw [Bool.eq_iff_iff, Bool.and_eq_true, found_iff (h.few c hc), decide_eq_true_iff,
    decide_eq_true_iff]
  exact ⟨fun ⟨⟨hoverlaps, hmonth⟩, hmatches, hearlier⟩ => ⟨hmatches, hoverlaps, hmonth, hearlier⟩,
    fun ⟨hmatches, hoverlaps, hmonth, hearlier⟩ => ⟨⟨hoverlaps, hmonth⟩, hmatches, hearlier⟩⟩

/-- The list of a key has what matches the search for its balance, in months of its own. -/
theorem length_list (hsearch : f.publicKeySearchType = .balanceChangingPublicKey) (s e : ℤ) :
    ((listOf env cs f.publicKeyIndex.publicKeyIndex).filter (listUses f s e)).length =
      (cs.filter (fun c => decide (Matches env f c ∧ Between s e c))).length := by
  rw [listOf, List.filter_filter]
  congr 1
  refine List.filter_congr (fun c _ => ?_)
  rw [Bool.eq_iff_iff, Bool.and_eq_true, listUses, listMatch_use_iff, decide_eq_true_iff,
    decide_eq_true_iff]
  constructor
  · rintro ⟨⟨⟨htype, hcoin, hadmits⟩, hbetween⟩, hchanges⟩
    refine ⟨⟨htype, hcoin, hadmits, fun _ => hchanges, fun hkey => ?_⟩, hbetween⟩
    simp [hsearch] at hkey
  · rintro ⟨⟨htype, hcoin, hadmits, hchanges, -⟩, hbetween⟩
    exact ⟨⟨⟨htype, hcoin, hadmits⟩, hbetween⟩, hchanges hsearch⟩

/-- What the search gets to lies between the dates of both lists. -/
theorem Reached.between (hcs : Monthly cs) (hc : c ∈ cs) (h : Reached cs f c) :
    Between f.timepointInterval.startDate f.timepointInterval.endDate c ∧
      Between (searched cs f).startDate (searched cs f).endDate c := by
  obtain ⟨hoverlaps, hmonth, -⟩ := h
  refine ⟨fun hstart _ => ?_, fun _ _ => (searched_iff hcs hc).2 (fun _ => hmonth)⟩
  rcases hmonth with hempty | hmonth
  · simp only [TimepointInterval.isEmpty, Bool.and_eq_true, decide_eq_true_eq] at hempty
    exact absurd hempty.1 hstart.1
  · exact hmonth

theorem TransactionsIndex.countTransactions_of_balance
    (hsearch : f.publicKeySearchType = .balanceChangingPublicKey) :
    idx.countTransactions f = idx.countBalanceChangingTxs f := by
  unfold TransactionsIndex.countTransactions
  split
  next hmissing => simp [hsearch] at hmissing
  next => rfl
  next hbalance => exact absurd hsearch hbalance

/-- A key without a number does not get as far as its list. -/
theorem TransactionsIndex.empty_of_returns {l : List ℕ}
    (hfind : idx.findTransactionsBalanceChangingForPublicKey f = .ok l) :
    f.publicKeyIndex.empty = false := by
  unfold TransactionsIndex.findTransactionsBalanceChangingForPublicKey at hfind
  cases hempty : f.publicKeyIndex.empty with
  | false => rfl
  | true =>
    rw [hempty, Bool.or_true] at hfind
    cases hfind

/-- The count of the months agrees with the search when the search gets to all that is counted. -/
theorem TransactionsIndex.Holds.counts_months (h : idx.Holds env own cs) (hcs : Monthly cs)
    (hconsecutive : Consecutive cs) (hsize : f.pagination.size = 0)
    (hmissing : f.publicKeySearchType ≠ .missingIndex)
    (hbalance : f.publicKeySearchType ≠ .balanceChangingPublicKey)
    (hordered : idx.outOfBounds f = false → f.timepointInterval.isOverlap (spanned cs) = true →
      InOrder f) :
    (∃ l, idx.findTransactions f = .ok l ∧ idx.countTransactions f = .ok l.length) ↔
      ∀ c ∈ cs, Matches env f c → (Overlaps cs f → InMonths f c) → Reached cs f c := by
  obtain ⟨l, hfind, hlength⟩ := h.findTransactions_length hcs hsize hmissing
    (fun hsearch => absurd hsearch hbalance) hordered
  have hcount := h.countTransactions_eq hcs hconsecutive hmissing hbalance
  rw [if_neg (fun ⟨hin, hoverlap, hnot⟩ => hnot (hordered hin hoverlap))] at hcount
  have hiff := @length_filter_eq_iff ConfirmedGradidoTx
    (fun c => decide (Matches env f c ∧ Reached cs f c))
    (fun c => decide (Overlaps cs f → InMonths f c) && uses env f c) cs
  simp only [Bool.and_eq_true, decide_eq_true_eq] at hiff
  have huse : ∀ c ∈ cs, uses env f c = true ↔ Matches env f c := fun c hc =>
    isMatchingFilter_use_iff (h.few c hc)
  have hlengths := hiff (fun c hc hboth => ⟨fun _ => hboth.2.2.1, (huse c hc).2 hboth.1⟩)
  constructor
  · rintro ⟨l', hfind', hcount'⟩
    rw [hfind, Except.ok.injEq] at hfind'
    rw [hcount, Except.ok.injEq, ← hfind', hlength] at hcount'
    intro c hc hmatches hmonth
    exact (hlengths.1 hcount'.symm c hc ⟨hmonth, (huse c hc).2 hmatches⟩).2
  · intro hreached
    refine ⟨l, hfind, ?_⟩
    rw [hcount, hlength, hlengths.2]
    rintro c hc ⟨hmonth, hmatches⟩
    have hmatches := (huse c hc).1 hmatches
    exact ⟨hmatches, hreached c hc hmatches hmonth⟩

variable (env) in
/-- A list in the months of two dates has what the search finds. -/
theorem length_list_eq_iff
    (hsearch : f.publicKeySearchType = .balanceChangingPublicKey) {s e : ℤ}
    (hbetween : ∀ c ∈ cs, Reached cs f c → Between s e c) :
    (cs.filter (fun c => decide (Matches env f c ∧ Reached cs f c))).length =
        ((listOf env cs f.publicKeyIndex.publicKeyIndex).filter (listUses f s e)).length ↔
      ∀ c ∈ cs, Matches env f c → Between s e c → Reached cs f c := by
  rw [length_list hsearch, length_filter_eq_iff]
  · simp only [decide_eq_true_eq]
    exact ⟨fun hback c hc hmatches hin => (hback c hc ⟨hmatches, hin⟩).2,
      fun hback c hc hboth => ⟨hboth.1, hback c hc hboth.1 hboth.2⟩⟩
  · simp only [decide_eq_true_eq]
    exact fun c hc hboth => ⟨hboth.1, hbetween c hc hboth.2⟩

/-- What the search, the count of the list and the search in the list take to return. -/
theorem TransactionsIndex.Holds.counts_list (h : idx.Holds env own cs) (hcs : Monthly cs)
    (hsize : f.pagination.size = 0)
    (hsearch : f.publicKeySearchType = .balanceChangingPublicKey)
    (hown : f.publicKeyIndex.communityIdIndex = own) (hkey : f.publicKeyIndex.empty = false)
    (hordered : f.timepointInterval.isOverlap (spanned cs) = true →
      idx.outOfBounds f = false ∨ listOf env cs f.publicKeyIndex.publicKeyIndex ≠ [] → InOrder f) :
    (∃ l l', idx.findTransactions f = .ok l ∧ idx.countBalanceChangingTxs f = .ok l.length ∧
        idx.findTransactionsBalanceChangingForPublicKey f = .ok l' ∧ l'.length = l.length) ↔
      ∀ c ∈ cs, Matches env f c →
        Between f.timepointInterval.startDate f.timepointInterval.endDate c ∨
          Between (searched cs f).startDate (searched cs f).endDate c → Reached cs f c := by
  obtain ⟨l, hfind, hlength⟩ := h.findTransactions_length hcs hsize (by simp [hsearch])
    (fun _ => hown) (fun hin hoverlap => hordered hoverlap (.inl hin))
  have hcount := h.countBalanceChangingTxs_eq hcs hsearch
  have hlist := h.findBalanceChanging_eq hcs hsize hsearch hkey
  rw [if_neg (fun ⟨hne, hoverlap, hnot⟩ => hnot (hordered hoverlap (.inr hne)))] at hcount hlist
  have hcounted := length_list_eq_iff env hsearch
    (fun c hc hreached => (Reached.between hcs hc hreached).1)
  have hlisted := length_list_eq_iff env hsearch
    (fun c hc hreached => (Reached.between hcs hc hreached).2)
  constructor
  · rintro ⟨l₁, l', hfind', hcount', hlist', hsame⟩
    rw [hfind, Except.ok.injEq] at hfind'
    subst hfind'
    rw [hcount, Except.ok.injEq, hlength] at hcount'
    rw [hlist, Except.ok.injEq] at hlist'
    rw [← hlist', List.length_map, length_inDirection, hlength] at hsame
    intro c hc hmatches hmonth
    rcases hmonth with hmonth | hmonth
    · exact hcounted.1 hcount'.symm c hc hmatches hmonth
    · exact hlisted.1 hsame.symm c hc hmatches hmonth
  · intro hreached
    refine ⟨l, _, hfind, ?_, hlist, ?_⟩
    · rw [hcount, hlength,
        hcounted.2 (fun c hc hmatches hmonth => hreached c hc hmatches (.inl hmonth))]
    · rw [List.length_map, length_inDirection, hlength,
        hlisted.2 (fun c hc hmatches hmonth => hreached c hc hmatches (.inr hmonth))]

/-- **Counting agrees with finding** exactly for the filters that respect `Countable`. -/
theorem countsRight_iff (hcs : Monthly cs) (hconsecutive : Consecutive cs)
    (hrun : Steps.run (TransactionsIndex.add env) (.empty own) cs = some idx)
    (hsize : f.pagination.size = 0) :
    CountsRight idx f ↔ Countable env own cs idx f := by
  have h := TransactionsIndex.holds_of_added hcs hrun
  by_cases hmissing : f.publicKeySearchType = .missingIndex
  · -- neither counts nor finds anything
    have hfind := h.findTransactions_eq hcs (f := f) hsize
    rw [if_pos hmissing] at hfind
    have hcount : idx.countTransactions f = .ok 0 := by
      unfold TransactionsIndex.countTransactions
      rw [hmissing]
    refine iff_of_true ⟨⟨[], hfind, hcount⟩, fun hsearch => ?_⟩ ⟨fun hsearch => ?_,
      fun hnot => absurd hmissing hnot, fun hnot => absurd hmissing hnot, fun hsearch => ?_⟩
    all_goals simp [hmissing] at hsearch
  by_cases hsearch : f.publicKeySearchType = .balanceChangingPublicKey
  · constructor
    · rintro ⟨-, hlists⟩
      obtain ⟨l, l', hfind, hcount, hlist, hlength⟩ := hlists hsearch
      obtain ⟨hown, hordered⟩ := h.ordered_of_returns hcs hsize (d := f.searchDirection) hfind
        hmissing
      have hkey := TransactionsIndex.empty_of_returns hlist
      have hordered : f.timepointInterval.isOverlap (spanned cs) = true →
          idx.outOfBounds f = false ∨ listOf env cs f.publicKeyIndex.publicKeyIndex ≠ [] →
            InOrder f := by
        rintro hoverlap (hin | hne)
        · exact hordered hin hoverlap
        · by_contra hnot
          rw [h.countBalanceChangingTxs_eq hcs hsearch, if_pos ⟨hne, hoverlap, hnot⟩] at hcount
          simp at hcount
      exact {
        key := fun _ => ⟨hown hsearch, hkey⟩
        ordered := fun _ hoverlap hor => hordered hoverlap (hor.imp_right And.right)
        months := fun _ hnot => absurd hsearch hnot
        list := fun _ => (h.counts_list hcs hsize hsearch (hown hsearch) hkey hordered).1
          ⟨l, l', hfind, hcount, hlist, hlength⟩ }
    · intro hf
      obtain ⟨hown, hkey⟩ := hf.key hsearch
      have hlists := (h.counts_list hcs hsize hsearch hown hkey (fun hoverlap hor =>
        hf.ordered hmissing hoverlap (hor.imp_right (fun hne => ⟨hsearch, hne⟩)))).2
          (hf.list hsearch)
      refine ⟨?_, fun _ => hlists⟩
      obtain ⟨l, -, hfind, hcount, -⟩ := hlists
      exact ⟨l, hfind, by rw [TransactionsIndex.countTransactions_of_balance hsearch, hcount]⟩
  · constructor
    · rintro ⟨⟨l, hfind, hcount⟩, -⟩
      obtain ⟨-, hordered⟩ := h.ordered_of_returns hcs hsize (d := f.searchDirection) hfind
        hmissing
      exact {
        key := fun hbalance => absurd hbalance hsearch
        ordered := fun _ hoverlap hor => hordered
          (hor.resolve_right (fun hand => hsearch hand.1)) hoverlap
        months := fun _ _ => (h.counts_months hcs hconsecutive hsize hmissing hsearch hordered).1
          ⟨l, hfind, hcount⟩
        list := fun hbalance => absurd hbalance hsearch }
    · intro hf
      have hcounts := h.counts_months hcs hconsecutive hsize hmissing hsearch
        (fun hin hoverlap => hf.ordered hmissing hoverlap (.inl hin))
      exact ⟨hcounts.2 (hf.months hmissing hsearch), fun hbalance => absurd hbalance hsearch⟩

end Agreement

/-! ### Two transactions of one month, counted -/

open Gradido.TransactionsIndex (january5 january10)

theorem consecutive_january : Consecutive [january5, january10] :=
  List.isChain_pair.2 rfl

/-- From the second one on, one is counted, and backwards none is found. -/
theorem january_not_countsRight : ∃ idx,
    Steps.run (TransactionsIndex.add Sample.env) (.empty 1) [january5, january10] = some idx ∧
      Monthly [january5, january10] ∧ Consecutive [january5, january10] ∧
      ¬ CountsRight idx { minTransactionNr := 2, searchDirection := .desc } := by
  obtain ⟨idx, hrun⟩ := added_january
  refine ⟨idx, hrun, monthly_january, consecutive_january, ?_⟩
  rintro ⟨⟨l, hfind, hcount⟩, -⟩
  have hboth : ((Steps.run (TransactionsIndex.add Sample.env) (.empty 1)
      [january5, january10]).map (fun idx =>
        ((idx.findTransactions { minTransactionNr := 2, searchDirection := .desc }).toOption,
          (idx.countTransactions { minTransactionNr := 2, searchDirection := .desc }).toOption))) =
      some (some [], some 1) := by
    decide +kernel
  rw [hrun, Option.map_some, Option.some.injEq, Prod.mk.injEq, hfind, hcount] at hboth
  obtain ⟨hnil, hone⟩ := hboth
  rw [Option.some.inj (hnil : some l = some [])] at hone
  exact absurd (Option.some.inj (hone : some 0 = some 1)) Nat.zero_ne_one

/-- From the first one on, as many are counted as are found. -/
theorem january_countsRight : ∃ idx,
    Steps.run (TransactionsIndex.add Sample.env) (.empty 1) [january5, january10] = some idx ∧
      CountsRight idx { minTransactionNr := 1, searchDirection := .desc } := by
  obtain ⟨idx, hrun⟩ := added_january
  refine ⟨idx, hrun, (countsRight_iff monthly_january consecutive_january hrun rfl).2
    ⟨?_, ?_, ?_, ?_⟩⟩
  · simp
  · intro _ hoverlap
    simp [TimepointInterval.isOverlap, TimepointInterval.isEmpty, TimepointInterval.unset]
      at hoverlap
  · intro _ _ c hc _ _
    revert c
    decide +kernel
  · simp

end ByMonth

end Gradido
