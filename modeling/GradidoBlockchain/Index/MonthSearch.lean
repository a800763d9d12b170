import GradidoBlockchain.Index.ByMonth

/-!
# Searching the index by months

`findTransactions` goes through the buckets of the months of an interval, in
either direction.  `findTransactions_eq` says what it finds without pages:
`Finds` are the transactions that match, in the months of the interval, unless
the interval does not overlap the months of the index or the search backwards
gives up a month whose first number is below the lower bound.
`searchesBothWays_iff` compares the two directions with what they should find.
-/

namespace Gradido

open Checked Buckets Paging

namespace ByMonth

open Gradido.TransactionsIndex (InClock Admits)

section Matching

variable {env : Env} {cs : List ConfirmedGradidoTx} {f : CompactFilter} {c : ConfirmedGradidoTx}

/-- What `isMatchingFilter` asks for. -/
structure Matches (env : Env) (f : CompactFilter) (c : ConfirmedGradidoTx) : Prop where
  type : f.transactionType = .none ∨ f.transactionType = c.transactionType
  coin : f.coinCommunityIdIndex = 0 ∨ coinOf c = f.coinCommunityIdIndex
  number : Admits f c.txNr
  balance : f.publicKeySearchType = .balanceChangingPublicKey →
    Changes env c f.publicKeyIndex.publicKeyIndex
  key : f.publicKeySearchType = .involvedPublicKey → Involves env c f.publicKeyIndex.publicKeyIndex

instance : Decidable (Matches env f c) :=
  decidable_of_iff ((f.transactionType = .none ∨ f.transactionType = c.transactionType) ∧
      (f.coinCommunityIdIndex = 0 ∨ coinOf c = f.coinCommunityIdIndex) ∧ Admits f c.txNr ∧
      (f.publicKeySearchType = .balanceChangingPublicKey →
        Changes env c f.publicKeyIndex.publicKeyIndex) ∧
      (f.publicKeySearchType = .involvedPublicKey →
        Involves env c f.publicKeyIndex.publicKeyIndex))
    ⟨fun ⟨h1, h2, h3, h4, h5⟩ => ⟨h1, h2, h3, h4, h5⟩,
      fun h => ⟨h.type, h.coin, h.number, h.balance, h.key⟩⟩

theorem mem_addressIndices_entryOf (k : ℕ) :
    k ∈ (entryOf env c).addressIndices ↔ Involves env c k := by
  simp [entryOf, Involves]

/-- A check that does not let an entry be used. -/
theorem use_unless {p : Prop} [Decidable p] {r s : FilterResult} (hr : r.use = false) :
    (if p then r else s).use = true ↔ ¬ p ∧ s.use = true := by
  split_ifs with hp
  · simp [hr, hp]
  · simp [hp]

/-- **The filter of an entry** is the filter of its transaction. -/
theorem isMatchingFilter_use_iff (hfew : (involved env c).length ≤ 4) :
    ((entryOf env c).isMatchingFilter f).use = true ↔ Matches env f c := by
  have hzip := mem_zip_entryOf hfew f.publicKeyIndex.publicKeyIndex
  have hmem := @mem_addressIndices_entryOf env c f.publicKeyIndex.publicKeyIndex
  have hstop : ∀ d,
      (if f.searchDirection = d then FilterResult.STOP else .DISMISS).use = false := by
    intro d
    split_ifs <;> rfl
  unfold TransactionsIndexEntry.isMatchingFilter
  rw [use_unless rfl, use_unless rfl, use_unless (hstop _), use_unless (hstop _)]
  have hkeys : (if f.publicKeySearchType = .balanceChangingPublicKey then
        if (f.publicKeyIndex.publicKeyIndex, true) ∈
            (entryOf env c).addressIndices.zip (entryOf env c).isBalanceChanging then
          FilterResult.USE else .DISMISS
      else if f.publicKeySearchType = .involvedPublicKey then
        if f.publicKeyIndex.publicKeyIndex ∈ (entryOf env c).addressIndices then .USE else .DISMISS
      else .USE).use = true ↔
      (f.publicKeySearchType = .balanceChangingPublicKey →
        Changes env c f.publicKeyIndex.publicKeyIndex) ∧
      (f.publicKeySearchType = .involvedPublicKey →
        Involves env c f.publicKeyIndex.publicKeyIndex) := by
    rw [← hzip, ← hmem]
    cases f.publicKeySearchType <;> simp [FilterResult.USE, FilterResult.DISMISS] <;>
      split_ifs <;> simp_all
  rw [hkeys]
  have htype : (entryOf env c).transactionType = c.transactionType := rfl
  have hcoin : (entryOf env c).coinCommunityIdIndex = coinOf c := rfl
  have hnr : (entryOf env c).transactionNr = c.txNr := rfl
  rw [htype, hcoin, hnr]
  simp only [ne_eq, not_and_or, not_not, gt_iff_lt, Nat.not_lt]
  constructor
  · rintro ⟨htype, hcoin, hmin, hmax, hbalance, hkey⟩
    exact ⟨htype, hcoin, ⟨hmin, hmax⟩, hbalance, hkey⟩
  · rintro ⟨htype, hcoin, ⟨hmin, hmax⟩, hbalance, hkey⟩
    exact ⟨htype, hcoin, hmin, hmax, hbalance, hkey⟩

/-- An entry that stops a search is out of bounds in the direction of the search. -/
theorem isMatchingFilter_stop
    (h : ((entryOf env c).isMatchingFilter f).stop = true) :
    f.searchDirection = .desc ∧ c.txNr < f.minTransactionNr ∨
      f.searchDirection = .asc ∧ f.maxTransactionNr ≠ 0 ∧ f.maxTransactionNr < c.txNr := by
  have hnr : (entryOf env c).transactionNr = c.txNr := rfl
  unfold TransactionsIndexEntry.isMatchingFilter at h
  rw [hnr] at h
  split_ifs at h with h1 h2 h3 h4 h5 h6
  all_goals first
    | exact absurd h (by decide)
    | exact .inl ⟨h4, h3.2⟩
    | exact .inr ⟨h6, h5⟩

end Matching

/-! ### The loops -/

section Loops

variable {env : Env} {own : ℕ} {cs : List ConfirmedGradidoTx} {f : CompactFilter}
  {idx : TransactionsIndex}

/-- The filter of an entry uses the transaction. -/
def uses (env : Env) (f : CompactFilter) (c : ConfirmedGradidoTx) : Bool :=
  ((entryOf env c).isMatchingFilter f).use

/-- The filter of an entry stops the search. -/
def stops (env : Env) (f : CompactFilter) (c : ConfirmedGradidoTx) : Bool :=
  ((entryOf env c).isMatchingFilter f).stop

/-- A month, in the direction of the search, is skipped. -/
def skipsMonth (env : Env) (f : CompactFilter) (b : List ConfirmedGradidoTx) : Bool :=
  match f.searchDirection with
  | .asc => TransactionsIndex.endsBelow f (b.map (entryOf env))
  | .desc => TransactionsIndex.startsAbove f (b.reverse.map (entryOf env))

/-- A month, in the direction of the search, ends it. -/
def endsAtMonth (env : Env) (f : CompactFilter) (b : List ConfirmedGradidoTx) : Bool :=
  match f.searchDirection with
  | .asc => TransactionsIndex.startsAbove f (b.map (entryOf env))
  | .desc => TransactionsIndex.startsBelow f (b.reverse.map (entryOf env))

/-- The loop over the entries of a month, without pages. -/
theorem scanEntries_eq (hsize : f.pagination.size = 0) (l : List ConfirmedGradidoTx)
    (acc : List ℕ) (n : ℕ) :
    ∃ m, TransactionsIndex.scanEntries f (l.map (entryOf env)) (acc, n) =
      ((acc ++ (taken (uses env f) (stops env f) l).map ConfirmedGradidoTx.txNr, m),
        l.any (stops env f)) := by
  have hcapacity : ∀ k, f.pagination.hasCapacityLeft k = true := by
    intro k
    simp [Pagination.hasCapacityLeft, hsize]
  have hskip : f.pagination.skipEntriesCount = 0 := by
    unfold Pagination.skipEntriesCount
    rw [hsize]
    split_ifs <;> simp
  induction l generalizing acc n with
  | nil => exact ⟨n, by simp [TransactionsIndex.scanEntries]⟩
  | cons c l ih =>
    rw [List.map_cons, TransactionsIndex.scanEntries, hcapacity, hskip, taken_cons, List.any_cons]
    dsimp only [Bool.not_true, Bool.false_eq_true, if_false]
    change ∃ m, (if stops env f c then _ else _) = _
    cases hstop : stops env f c with
    | true =>
      cases huse : uses env f c <;> unfold uses at huse
      · exact ⟨n, by simp [huse]⟩
      · exact ⟨n + 1, by simp [huse]⟩
    | false =>
      cases huse : uses env f c <;> unfold uses at huse
      · obtain ⟨m, hm⟩ := ih acc n
        exact ⟨m, by simp [huse, hm]⟩
      · obtain ⟨m, hm⟩ := ih (acc ++ [c.txNr]) (n + 1)
        refine ⟨m, ?_⟩
        simp only [huse, if_true, Nat.zero_le, Bool.false_eq_true, if_false, Bool.false_or]
        change TransactionsIndex.scanEntries f (l.map (entryOf env)) (acc ++ [c.txNr], n + 1) = _
        rw [hm]
        simp

/-- The months that the index can be asked for. -/
def Covered (cs : List ConfirmedGradidoTx) (m : ℤ) : Prop :=
  cs ≠ [] → Calendar.monthNumber (firstMonth cs) ≤ m ∧ m ≤ Calendar.monthNumber (lastMonth cs)

theorem isMonth_firstMonth (hne : cs ≠ []) : Calendar.IsMonth (firstMonth cs) := by
  cases cs with
  | nil => exact absurd rfl hne
  | cons a cs => exact isMonth_yearMonthOf _

theorem isMonth_lastMonth (hne : cs ≠ []) : Calendar.IsMonth (lastMonth cs) := by
  rw [lastMonth, List.getLast?_eq_some_getLast hne]
  exact isMonth_yearMonthOf _

/-- The bucket of a month. -/
theorem TransactionsIndex.Holds.entries_of_month (h : idx.Holds env own cs) (hcs : Monthly cs)
    {ym : ℤ × ℕ} (hmonth : Calendar.IsMonth ym)
    (hcovered : Covered cs (Calendar.monthNumber ym)) :
    ∃ i, idx.yearMonthToIndex ym = .ok i ∧ idx.mYearMonthAddressIndexEntries i =
      (bucket monthNr cs (Calendar.monthNumber ym)).map (entryOf env) := by
  have hbuckets : ∀ i, idx.mYearMonthAddressIndexEntries i =
      (bucket monthNr cs (Calendar.monthNumber (firstMonth cs) + i)).map (entryOf env) := h.buckets
  unfold TransactionsIndex.yearMonthToIndex
  rw [h.minMonth, h.maxMonth]
  by_cases hne : cs = []
  · subst hne
    exact ⟨0, rfl, hbuckets 0⟩
  obtain ⟨hfirst, hlast⟩ := hcovered hne
  have hbelow := mt (TransactionsIndex.before_iff hmonth (isMonth_firstMonth hne)).1 (by omega)
  have habove := mt (TransactionsIndex.before_iff (isMonth_lastMonth hne) hmonth).1 (by omega)
  rw [if_neg (TransactionsIndex.firstMonth_ne_zero hcs hne)]
  rw [Bool.not_eq_true] at hbelow habove
  refine ⟨_, by rw [hbelow, habove]; rfl, ?_⟩
  rw [hbuckets]
  congr 2
  unfold Calendar.monthNumber at *
  omega

/-- What the loop over the months does with one of them. -/
theorem scanMonths_cons {ym : ℤ × ℕ} {yms : List (ℤ × ℕ)} {i : ℕ} {b : List ConfirmedGradidoTx}
    (hi : idx.yearMonthToIndex ym = .ok i)
    (hb : idx.mYearMonthAddressIndexEntries i = b.map (entryOf env)) (r : List ℕ × ℕ) :
    idx.scanMonths f (ym :: yms) r =
      if inDirection f b = [] ∨ skipsMonth env f (inDirection f b) = true then
        idx.scanMonths f yms r
      else if endsAtMonth env f (inDirection f b) then .ok r.1
      else
        let s := TransactionsIndex.scanEntries f ((inDirection f b).map (entryOf env)) r
        if s.2 then .ok s.1.1 else idx.scanMonths f yms s.1 := by
  rw [TransactionsIndex.scanMonths, hi, ok_bind, hb]
  unfold inDirection skipsMonth endsAtMonth
  cases hd : f.searchDirection with
  | asc =>
    simp only [List.map_eq_nil_iff]
    by_cases hnil : b = []
    · simp [hnil]
    · simp [hnil]
  | desc =>
    simp only [List.map_eq_nil_iff, List.reverse_eq_nil_iff, List.reverse_reverse]
    rw [List.map_reverse]
    by_cases hnil : b = []
    · simp [hnil]
    · simp [hnil]

/-- **The loop over the months**, without pages, is a search in buckets. -/
theorem TransactionsIndex.Holds.scanMonths_eq (h : idx.Holds env own cs) (hcs : Monthly cs)
    (hsize : f.pagination.size = 0) {yms : List (ℤ × ℕ)}
    (hyms : ∀ ym ∈ yms, Calendar.IsMonth ym ∧ Covered cs (Calendar.monthNumber ym))
    (acc : List ℕ) (n : ℕ) :
    idx.scanMonths f yms (acc, n) = .ok (acc ++
      (scan (skipsMonth env f) (endsAtMonth env f) (uses env f) (stops env f) (yms.map (fun ym =>
        inDirection f (bucket monthNr cs (Calendar.monthNumber ym))))).map
          ConfirmedGradidoTx.txNr) := by
  induction yms generalizing acc n with
  | nil => simp [TransactionsIndex.scanMonths, scan]
  | cons ym yms ih =>
    have hrest := ih (fun ym' hym' => hyms ym' (List.mem_cons_of_mem _ hym'))
    obtain ⟨hmonth, hcovered⟩ := hyms ym List.mem_cons_self
    obtain ⟨i, hi, hentries⟩ := h.entries_of_month hcs hmonth hcovered
    obtain ⟨m, hm⟩ := @scanEntries_eq env f hsize
      (inDirection f (bucket monthNr cs (Calendar.monthNumber ym))) acc n
    rw [scanMonths_cons hi hentries, hm, List.map_cons, scan]
    by_cases hskip : inDirection f (bucket monthNr cs (Calendar.monthNumber ym)) = [] ∨
        skipsMonth env f (inDirection f (bucket monthNr cs (Calendar.monthNumber ym))) = true
    · rw [if_pos hskip, if_pos hskip, hrest]
    rw [if_neg hskip, if_neg hskip]
    cases hends : endsAtMonth env f
        (inDirection f (bucket monthNr cs (Calendar.monthNumber ym))) with
    | true => simp
    | false =>
      cases hstop : (inDirection f (bucket monthNr cs (Calendar.monthNumber ym))).any
          (stops env f) with
      | true => simp
      | false => simp [hrest]

end Loops

/-! ### What the loops find -/

section Found

variable {env : Env} {own : ℕ} {cs : List ConfirmedGradidoTx} {f : CompactFilter}

theorem head_le {l : List ConfirmedGradidoTx} (hl : l.Pairwise (fun a b => a.txNr < b.txNr))
    {a c : ConfirmedGradidoTx} (ha : l.head? = some a) (hc : c ∈ l) : a.txNr ≤ c.txNr := by
  cases l with
  | nil => simp at hc
  | cons b l =>
    obtain rfl : b = a := by simpa using ha
    rcases List.mem_cons.1 hc with rfl | hc
    · exact Nat.le_refl _
    · exact Nat.le_of_lt ((List.pairwise_cons.1 hl).1 c hc)

theorem le_last {l : List ConfirmedGradidoTx} (hl : l.Pairwise (fun a b => a.txNr < b.txNr))
    {a c : ConfirmedGradidoTx} (ha : l.getLast? = some a) (hc : c ∈ l) : c.txNr ≤ a.txNr := by
  rcases List.eq_nil_or_concat' l with rfl | ⟨pre, b, rfl⟩
  · simp at hc
  · obtain rfl : b = a := by simpa using ha
    rcases List.mem_append.1 hc with hc | hc
    · exact Nat.le_of_lt ((List.pairwise_append.1 hl).2.2 c hc b (by simp))
    · rw [List.mem_singleton.1 hc]

theorem startsBelow_iff {l : List ConfirmedGradidoTx} :
    TransactionsIndex.startsBelow f (l.map (entryOf env)) = true ↔
      ∃ a, l.head? = some a ∧ a.txNr < f.minTransactionNr := by
  unfold TransactionsIndex.startsBelow
  cases l with
  | nil => simp
  | cons a l =>
    change decide (f.minTransactionNr ≠ 0 ∧ a.txNr < f.minTransactionNr) = true ↔ _
    rw [decide_eq_true_iff, List.head?_cons]
    simp only [Option.some.injEq, exists_eq_left']
    omega

theorem startsAbove_iff {l : List ConfirmedGradidoTx} :
    TransactionsIndex.startsAbove f (l.map (entryOf env)) = true ↔
      ∃ a, l.head? = some a ∧ f.maxTransactionNr ≠ 0 ∧ f.maxTransactionNr < a.txNr := by
  unfold TransactionsIndex.startsAbove
  cases l with
  | nil => simp
  | cons a l =>
    change decide (f.maxTransactionNr ≠ 0 ∧ a.txNr > f.maxTransactionNr) = true ↔ _
    rw [decide_eq_true_iff, List.head?_cons]
    simp only [Option.some.injEq, exists_eq_left']

theorem endsBelow_iff {l : List ConfirmedGradidoTx} :
    TransactionsIndex.endsBelow f (l.map (entryOf env)) = true ↔
      ∃ a, l.getLast? = some a ∧ a.txNr < f.minTransactionNr := by
  unfold TransactionsIndex.endsBelow
  rcases List.eq_nil_or_concat' l with rfl | ⟨pre, a, rfl⟩
  · simp
  · rw [List.map_append, List.map_singleton, List.getLast?_concat, List.getLast?_concat]
    change decide (f.minTransactionNr ≠ 0 ∧ a.txNr < f.minTransactionNr) = true ↔ _
    rw [decide_eq_true_iff]
    simp only [Option.some.injEq, exists_eq_left']
    omega

/-- Out of bounds, nothing is used. -/
theorem uses_eq_false {c : ConfirmedGradidoTx} (hfew : (involved env c).length ≤ 4)
    (h : c.txNr < f.minTransactionNr ∨ f.maxTransactionNr ≠ 0 ∧ f.maxTransactionNr < c.txNr) :
    uses env f c = false := by
  rw [Bool.eq_false_iff]
  intro huse
  obtain ⟨hmin, hmax⟩ := ((isMatchingFilter_use_iff hfew).1 huse).number
  omega

/-- In a month that ends below the bounds, nothing is used. -/
theorem uses_of_endsBelow {l : List ConfirmedGradidoTx}
    (hl : l.Pairwise (fun a b => a.txNr < b.txNr))
    (hbelow : TransactionsIndex.endsBelow f (l.map (entryOf env)) = true)
    {c : ConfirmedGradidoTx} (hc : c ∈ l) (hfew : (involved env c).length ≤ 4) :
    uses env f c = false := by
  obtain ⟨a, ha, hlt⟩ := endsBelow_iff.1 hbelow
  exact uses_eq_false hfew (.inl (Nat.lt_of_le_of_lt (le_last hl ha hc) hlt))

/-- In a month that starts above the bounds, nothing is used. -/
theorem uses_of_startsAbove {l : List ConfirmedGradidoTx}
    (hl : l.Pairwise (fun a b => a.txNr < b.txNr))
    (habove : TransactionsIndex.startsAbove f (l.map (entryOf env)) = true)
    {c : ConfirmedGradidoTx} (hc : c ∈ l) (hfew : (involved env c).length ≤ 4) :
    uses env f c = false := by
  obtain ⟨a, ha, hmax, hlt⟩ := startsAbove_iff.1 habove
  exact uses_eq_false hfew (.inr ⟨hmax, Nat.lt_of_lt_of_le hlt (head_le hl ha hc)⟩)

/-- Forwards, the tests on the months are sound. -/
theorem sound_asc (hdirection : f.searchDirection = .asc) {bs : List (List ConfirmedGradidoTx)}
    (hsorted : bs.flatten.Pairwise (fun a b => a.txNr < b.txNr))
    (hfew : ∀ c ∈ bs.flatten, (involved env c).length ≤ 4) :
    Sound (skipsMonth env f) (endsAtMonth env f) (uses env f) (stops env f) bs := by
  obtain ⟨hinside, hacross⟩ := List.pairwise_flatten.1 hsorted
  have hmem : ∀ b ∈ bs, ∀ c ∈ b, c ∈ bs.flatten := fun b hb c hc =>
    List.mem_flatten.2 ⟨b, hb, hc⟩
  refine ⟨fun b hb hskip c hc => ?_, hacross.imp_of_mem ?_, hsorted.imp_of_mem ?_⟩
  · simp only [skipsMonth, hdirection] at hskip
    exact uses_of_endsBelow (hinside b hb) hskip hc (hfew c (hmem b hb c hc))
  · intro b b' hb hb' hbefore hends c hc
    simp only [endsAtMonth, hdirection] at hends
    obtain ⟨a, ha, hmax, hlt⟩ := startsAbove_iff.1 hends
    have hlt' := hbefore a (List.mem_of_mem_head? ha) c hc
    exact uses_eq_false (hfew c (hmem b' hb' c hc)) (.inr ⟨hmax, by omega⟩)
  · intro a c _ hc hlt hstop
    rcases isMatchingFilter_stop hstop with ⟨hdesc, -⟩ | ⟨-, hmax, hover⟩
    · simp [hdirection] at hdesc
    · exact uses_eq_false (hfew c hc) (.inr ⟨hmax, by omega⟩)

/-- Backwards too. -/
theorem sound_desc (hdirection : f.searchDirection = .desc) {bs : List (List ConfirmedGradidoTx)}
    (hsorted : bs.flatten.Pairwise (fun a b => b.txNr < a.txNr))
    (hfew : ∀ c ∈ bs.flatten, (involved env c).length ≤ 4) :
    Sound (skipsMonth env f) (endsAtMonth env f) (uses env f) (stops env f) bs := by
  obtain ⟨hinside, hacross⟩ := List.pairwise_flatten.1 hsorted
  have hmem : ∀ b ∈ bs, ∀ c ∈ b, c ∈ bs.flatten := fun b hb c hc =>
    List.mem_flatten.2 ⟨b, hb, hc⟩
  refine ⟨fun b hb hskip c hc => ?_, hacross.imp_of_mem ?_, hsorted.imp_of_mem ?_⟩
  · simp only [skipsMonth, hdirection] at hskip
    exact uses_of_startsAbove (List.pairwise_reverse.2 (hinside b hb)) hskip
      (List.mem_reverse.2 hc) (hfew c (hmem b hb c hc))
  · intro b b' hb hb' hbefore hends c hc
    simp only [endsAtMonth, hdirection] at hends
    obtain ⟨a, ha, hlt⟩ := startsBelow_iff.1 hends
    have hlt' := hbefore a (List.mem_reverse.1 (List.mem_of_mem_head? ha)) c hc
    exact uses_eq_false (hfew c (hmem b' hb' c hc)) (.inl (by omega))
  · intro a c _ hc hlt hstop
    rcases isMatchingFilter_stop hstop with ⟨-, hbelow⟩ | ⟨hasc, -⟩
    · exact uses_eq_false (hfew c hc) (.inl (by omega))
    · simp [hdirection] at hasc

/-- The month of a transaction starts with a number below the lower bound. -/
def StartsEarlier (cs : List ConfirmedGradidoTx) (f : CompactFilter) (c : ConfirmedGradidoTx) :
    Prop :=
  ∃ c' ∈ cs, monthNr c' = monthNr c ∧ c'.txNr < f.minTransactionNr

instance (cs : List ConfirmedGradidoTx) (f : CompactFilter) (c : ConfirmedGradidoTx) :
    Decidable (StartsEarlier cs f c) :=
  inferInstanceAs (Decidable (∃ c' ∈ cs, _))

theorem startsBelow_bucket (hcs : Monthly cs) (c : ConfirmedGradidoTx) :
    TransactionsIndex.startsBelow f ((bucket monthNr cs (monthNr c)).map (entryOf env)) = true ↔
      StartsEarlier cs f c := by
  have hsorted : (bucket monthNr cs (monthNr c)).Pairwise (fun a b => a.txNr < b.txNr) :=
    hcs.numbered.filter _
  rw [startsBelow_iff]
  constructor
  · rintro ⟨a, ha, hlt⟩
    obtain ⟨hmem, hmonth⟩ := mem_bucket.1 (List.mem_of_mem_head? ha)
    exact ⟨a, hmem, hmonth, hlt⟩
  · rintro ⟨c', hc', hmonth, hlt⟩
    have hin : c' ∈ bucket monthNr cs (monthNr c) := mem_bucket.2 ⟨hc', hmonth⟩
    cases ha : (bucket monthNr cs (monthNr c)).head? with
    | none =>
      rw [List.head?_eq_none_iff.1 ha] at hin
      simp at hin
    | some a => exact ⟨a, rfl, Nat.lt_of_le_of_lt (head_le hsorted ha hin) hlt⟩

/-- The search finds a transaction of the months it goes through: backwards, a month that starts
below the lower bound is given up. -/
def found (env : Env) (cs : List ConfirmedGradidoTx) (f : CompactFilter)
    (c : ConfirmedGradidoTx) : Bool :=
  uses env f c && (decide (f.searchDirection = .asc) || !decide (StartsEarlier cs f c))

/-- **The search through consecutive months** finds what it should, in the order of its
direction. -/
theorem scan_months (hcs : Monthly cs) (hfew : ∀ c ∈ cs, (involved env c).length ≤ 4)
    (m : ℤ) (n : ℕ) :
    scan (skipsMonth env f) (endsAtMonth env f) (uses env f) (stops env f)
        ((inDirection f (keysFrom m n)).map (fun k => inDirection f (bucket monthNr cs k))) =
      inDirection f (cs.filter (fun c =>
        decide (m ≤ monthNr c ∧ monthNr c < m + n) && found env cs f c)) := by
  have hflatten := flatten_buckets hcs.months m n
  have hsorted : ((keysFrom m n).map (bucket monthNr cs)).flatten.Pairwise
      (fun a b => a.txNr < b.txNr) := by
    rw [hflatten]
    exact hcs.numbered.filter _
  have hfew' : ∀ c ∈ ((keysFrom m n).map (bucket monthNr cs)).flatten,
      (involved env c).length ≤ 4 := by
    rw [hflatten]
    exact fun c hc => hfew c (List.mem_of_mem_filter hc)
  cases hd : f.searchDirection with
  | asc =>
    have hid : ∀ {α : Type} (l : List α), inDirection f l = l := by
      intro α l
      simp [inDirection, hd]
    simp only [hid]
    rw [scan_eq (sound_asc hd hsorted hfew'), flatten_filter_map_bucket, hflatten,
      List.filter_filter, List.filter_filter]
    refine List.filter_congr (fun c hc => ?_)
    have hends : endsAtMonth env f (bucket monthNr cs (monthNr c)) = true →
        uses env f c = false := by
      intro hends
      simp only [endsAtMonth, hd] at hends
      exact uses_of_startsAbove (hcs.numbered.filter _) hends (mem_bucket.2 ⟨hc, rfl⟩) (hfew c hc)
    have hfound : found env cs f c = uses env f c := by
      simp [found, hd]
    rw [hfound]
    cases huse : uses env f c with
    | false => simp
    | true =>
      have hnot : endsAtMonth env f (bucket monthNr cs (monthNr c)) = false := by
        rw [Bool.eq_false_iff]
        intro h
        rw [hends h] at huse
        simp at huse
      simp [hnot]
  | desc =>
    have hrev : ∀ {α : Type} (l : List α), inDirection f l = l.reverse := by
      intro α l
      simp [inDirection, hd]
    have hbs : ((keysFrom m n).reverse.map (fun k => (bucket monthNr cs k).reverse)) =
        (((keysFrom m n).map (bucket monthNr cs)).map List.reverse).reverse := by
      rw [List.map_map, List.map_reverse]
      rfl
    have hreversed : (((keysFrom m n).map (bucket monthNr cs)).map List.reverse).reverse.flatten =
        ((keysFrom m n).map (bucket monthNr cs)).flatten.reverse := by
      rw [List.reverse_flatten]
    simp only [hrev]
    rw [hbs, scan_eq (sound_desc hd ?_ ?_), flatten_filter_reverse, flatten_filter_map_bucket,
      hflatten, List.filter_reverse, List.filter_filter, List.filter_filter]
    · congr 1
      refine List.filter_congr (fun c hc => ?_)
      have hends : endsAtMonth env f (bucket monthNr cs (monthNr c)).reverse =
          decide (StartsEarlier cs f c) := by
        rw [Bool.eq_iff_iff, decide_eq_true_iff, ← @startsBelow_bucket env cs f hcs c]
        simp [endsAtMonth, hd]
      rw [hends, found, hd]
      cases uses env f c <;> simp [Bool.and_comm]
    · rw [hreversed]
      exact List.pairwise_reverse.2 hsorted
    · rw [hreversed]
      exact fun c hc => hfew' c (List.mem_reverse.1 hc)

end Found


/-! ### Intervals -/

theorem isMonth_iterateMonths {ym : ℤ × ℕ} (hym : Calendar.IsMonth ym) (n : ℕ) :
    ∀ ym' ∈ TimepointInterval.iterateMonths ym n, Calendar.IsMonth ym' := by
  induction n generalizing ym with
  | zero => simp [TimepointInterval.iterateMonths]
  | succ n ih =>
    intro ym' hym'
    rcases List.mem_cons.1 hym' with rfl | hym'
    · exact hym
    · exact ih (Calendar.isMonth_yearMonth _) ym' hym'

theorem map_iterateMonths (ym : ℤ × ℕ) (n : ℕ) :
    (TimepointInterval.iterateMonths ym n).map Calendar.monthNumber =
      keysFrom (Calendar.monthNumber ym) n := by
  induction n generalizing ym with
  | zero => rfl
  | succ n ih =>
    rw [TimepointInterval.iterateMonths, List.map_cons, ih, Calendar.monthNumber_yearMonth,
      keysFrom, keysFrom, List.range_succ_eq_map, List.map_cons, List.map_map]
    refine List.cons_eq_cons.2 ⟨by simp, List.map_congr_left (fun i _ => ?_)⟩
    simp only [Function.comp_apply, Nat.succ_eq_add_one]
    omega

section Intervals

variable {env : Env} {own : ℕ} {cs : List ConfirmedGradidoTx} {f : CompactFilter}
  {idx : TransactionsIndex}

/-- The months of an interval are months that the index can be asked for. -/
def Inside (cs : List ConfirmedGradidoTx) (i : TimepointInterval) : Prop :=
  cs ≠ [] → Calendar.monthNumber (firstMonth cs) ≤ monthOf i.startDate ∧
    monthOf i.endDate ≤ Calendar.monthNumber (lastMonth cs)

theorem map_months (i : TimepointInterval) : i.months.map Calendar.monthNumber =
    keysFrom (monthOf i.startDate) (monthOf i.endDate + 1 - monthOf i.startDate).toNat :=
  map_iterateMonths _ _

theorem months_covered {i : TimepointInterval} (hinside : Inside cs i) :
    ∀ ym ∈ i.months, Calendar.IsMonth ym ∧ Covered cs (Calendar.monthNumber ym) := by
  intro ym hym
  have hin : Calendar.monthNumber ym ∈ i.months.map Calendar.monthNumber :=
    List.mem_map.2 ⟨ym, hym, rfl⟩
  rw [map_months, keysFrom] at hin
  obtain ⟨j, hj, heq⟩ := List.mem_map.1 hin
  rw [List.mem_range] at hj
  refine ⟨isMonth_iterateMonths (isMonth_yearMonthOf _) _ ym hym, fun hne => ?_⟩
  have hbounds := hinside hne
  omega

theorem mem_inDirection {α : Type} {l : List α} {a : α} : a ∈ inDirection f l ↔ a ∈ l := by
  unfold inDirection
  cases f.searchDirection with
  | asc => exact Iff.rfl
  | desc => exact List.mem_reverse

theorem inDirection_nil {α : Type} : inDirection f ([] : List α) = [] := by
  unfold inDirection
  cases f.searchDirection <;> rfl

theorem inDirection_eq_nil_iff {α : Type} {l : List α} : inDirection f l = [] ↔ l = [] := by
  unfold inDirection
  cases f.searchDirection with
  | asc => exact Iff.rfl
  | desc => exact List.reverse_eq_nil_iff

theorem inDirection_inj {α : Type} {l l' : List α} :
    inDirection f l = inDirection f l' ↔ l = l' := by
  unfold inDirection
  cases f.searchDirection with
  | asc => exact Iff.rfl
  | desc => exact List.reverse_inj

theorem map_inDirection {α β : Type} (g : α → β) (l : List α) :
    (inDirection f l).map g = inDirection f (l.map g) := by
  unfold inDirection
  cases f.searchDirection with
  | asc => rfl
  | desc => exact List.map_reverse

/-- **The search through the months of an interval.** -/
theorem TransactionsIndex.Holds.scanMonths_interval (h : idx.Holds env own cs) (hcs : Monthly cs)
    (hsize : f.pagination.size = 0) {i : TimepointInterval} (hinside : Inside cs i) :
    idx.scanMonths f (inDirection f i.months) ([], 0) =
      .ok ((inDirection f (cs.filter (fun c =>
        decide (monthOf i.startDate ≤ monthNr c ∧ monthNr c ≤ monthOf i.endDate) &&
          found env cs f c))).map ConfirmedGradidoTx.txNr) := by
  have hyms : ∀ ym ∈ inDirection f i.months,
      Calendar.IsMonth ym ∧ Covered cs (Calendar.monthNumber ym) := fun ym hym =>
    months_covered hinside ym (mem_inDirection.1 hym)
  have hmap : (inDirection f i.months).map
      (fun ym => inDirection f (bucket monthNr cs (Calendar.monthNumber ym))) =
        (inDirection f (keysFrom (monthOf i.startDate)
          (monthOf i.endDate + 1 - monthOf i.startDate).toNat)).map
            (fun k => inDirection f (bucket monthNr cs k)) := by
    rw [← map_months]
    unfold inDirection
    cases f.searchDirection with
    | asc => simp [Function.comp_def]
    | desc => simp [Function.comp_def]
  rw [h.scanMonths_eq hcs hsize hyms, hmap, scan_months hcs h.few, List.nil_append]
  congr 3
  refine List.filter_congr (fun c _ => ?_)
  congr 1
  rw [decide_eq_decide]
  omega

/-- From the first to the last month of the index. -/
def spanned (cs : List ConfirmedGradidoTx) : TimepointInterval :=
  ⟨monthYearToTimepoint (firstMonth cs), monthYearToTimepoint (lastMonth cs)⟩

theorem firstMonth_le (hcs : Monthly cs) {c : ConfirmedGradidoTx} (hc : c ∈ cs) :
    Calendar.monthNumber (firstMonth cs) ≤ monthNr c := by
  cases cs with
  | nil => simp at hc
  | cons a cs =>
    rcases List.mem_cons.1 hc with rfl | hc
    · exact Int.le_refl _
    · exact (List.pairwise_cons.1 hcs.months).1 c hc

theorem le_lastMonth (hcs : Monthly cs) {c : ConfirmedGradidoTx} (hc : c ∈ cs) :
    monthNr c ≤ Calendar.monthNumber (lastMonth cs) := by
  rcases List.eq_nil_or_concat' cs with rfl | ⟨pre, a, rfl⟩
  · simp at hc
  · have hlast : Calendar.monthNumber (lastMonth (pre ++ [a])) = monthNr a := by
      simp [lastMonth, monthNr, monthOf]
    rw [hlast]
    rcases List.mem_append.1 hc with hc | hc
    · exact (List.pairwise_append.1 hcs.months).2.2 c hc a (by simp)
    · rw [List.mem_singleton.1 hc]

theorem year_firstMonth (hcs : Monthly cs) (hne : cs ≠ []) : (firstMonth cs).1 ≠ 0 := by
  cases cs with
  | nil => exact absurd rfl hne
  | cons a cs => exact (TransactionsIndex.year_pos (hcs.clock a (by simp))).ne'

theorem year_lastMonth (hcs : Monthly cs) (hne : cs ≠ []) : (lastMonth cs).1 ≠ 0 := by
  rcases List.eq_nil_or_concat' cs with rfl | ⟨pre, a, rfl⟩
  · exact absurd rfl hne
  · have hlast : lastMonth (pre ++ [a]) = yearMonthOf a.confirmedAt.getAsTimepoint := by
      simp [lastMonth]
    rw [hlast]
    exact (TransactionsIndex.year_pos (hcs.clock a (by simp))).ne'

theorem firstMonth_le_lastMonth (hcs : Monthly cs) :
    Calendar.monthNumber (firstMonth cs) ≤ Calendar.monthNumber (lastMonth cs) := by
  cases cs with
  | nil => exact Int.le_refl _
  | cons a cs =>
    exact Int.le_trans (firstMonth_le hcs List.mem_cons_self)
      (le_lastMonth hcs List.mem_cons_self)

theorem spanned_le (hcs : Monthly cs) : (spanned cs).startDate ≤ (spanned cs).endDate := by
  by_cases hne : cs = []
  · subst hne
    exact Int.le_refl _
  · unfold spanned
    dsimp only
    rw [monthYearToTimepoint_le_iff (isMonth_firstMonth hne) (year_firstMonth hcs hne),
      monthOf_monthYearToTimepoint (isMonth_lastMonth hne) (year_lastMonth hcs hne)]
    exact firstMonth_le_lastMonth hcs

theorem TransactionsIndex.Holds.interval_eq (h : idx.Holds env own cs) (hcs : Monthly cs) :
    idx.interval = .ok (spanned cs) := by
  have hle := spanned_le hcs
  unfold TransactionsIndex.interval TimepointInterval.ofYearMonths TimepointInterval.make
  rw [h.minMonth, h.maxMonth]
  change (throwIf (decide ((spanned cs).startDate > (spanned cs).endDate)) _ >>= fun _ => _) = _
  rw [decide_eq_false (Int.not_lt.2 hle)]
  rfl

/-- The interval of the filter overlaps the months of the index, or is not set. -/
def Overlaps (cs : List ConfirmedGradidoTx) (f : CompactFilter) : Prop :=
  f.timepointInterval.isEmpty = true ∨ f.timepointInterval.isOverlap (spanned cs) = true

instance (cs : List ConfirmedGradidoTx) (f : CompactFilter) : Decidable (Overlaps cs f) :=
  inferInstanceAs (Decidable (_ ∨ _))

/-- The month of a transaction lies in the interval of the filter, when there is one. -/
def InMonths (f : CompactFilter) (c : ConfirmedGradidoTx) : Prop :=
  f.timepointInterval.isEmpty = true ∨
    monthOf f.timepointInterval.startDate ≤ monthNr c ∧
      monthNr c ≤ monthOf f.timepointInterval.endDate

instance (f : CompactFilter) (c : ConfirmedGradidoTx) : Decidable (InMonths f c) :=
  inferInstanceAs (Decidable (_ ∨ _))

/-- The interval that the search goes through. -/
def clipped (cs : List ConfirmedGradidoTx) (f : CompactFilter) : TimepointInterval :=
  if f.timepointInterval.isEmpty then spanned cs
  else ⟨max (spanned cs).startDate f.timepointInterval.startDate,
    min (spanned cs).endDate f.timepointInterval.endDate⟩

/-- The interval of the filter is in order, where the constructor did not see to it. -/
def InOrder (f : CompactFilter) : Prop :=
  f.timepointInterval.startDate ≤ f.timepointInterval.endDate

instance (f : CompactFilter) : Decidable (InOrder f) :=
  inferInstanceAs (Decidable (_ ≤ _))

theorem TransactionsIndex.Holds.filteredTimepointInterval_eq (h : idx.Holds env own cs)
    (hcs : Monthly cs) (hoverlaps : Overlaps cs f) :
    idx.filteredTimepointInterval f =
      if f.timepointInterval.isEmpty = true ∨ InOrder f then .ok (clipped cs f)
      else .error (.endDateBeforeStartDate
        "end date for timepoint interval is before start date") := by
  have hspanned := spanned_le hcs
  unfold TransactionsIndex.filteredTimepointInterval clipped InOrder
  rw [h.interval_eq hcs, ok_bind]
  rcases hoverlaps with hempty | hoverlap
  · simp [hempty]
  · have hnot : f.timepointInterval.isEmpty = false := by
      unfold TimepointInterval.isOverlap at hoverlap
      cases hempty : f.timepointInterval.isEmpty with
      | true => simp [hempty] at hoverlap
      | false => rfl
    have hbounds := hoverlap
    unfold TimepointInterval.isOverlap at hbounds
    simp only [Bool.and_eq_true, Bool.not_eq_true', Bool.or_eq_false_iff,
      decide_eq_false_iff_not] at hbounds
    unfold TimepointInterval.make
    simp only [hnot, hoverlap, Bool.not_true, Bool.or_self, Bool.false_eq_true, if_false, false_or]
    split_ifs with hle
    · have hclip : ¬ max (spanned cs).startDate f.timepointInterval.startDate >
          min (spanned cs).endDate f.timepointInterval.endDate := by omega
      simp [hclip, throwIf]
    · have hclip : max (spanned cs).startDate f.timepointInterval.startDate >
          min (spanned cs).endDate f.timepointInterval.endDate := by omega
      simp [hclip, throwIf]

/-- The interval that is searched: without an overlap, all months of the index. -/
def searched (cs : List ConfirmedGradidoTx) (f : CompactFilter) : TimepointInterval :=
  if Overlaps cs f then clipped cs f else spanned cs

/-- **The filtered interval.** -/
theorem TransactionsIndex.Holds.filteredTimepointInterval_searched (h : idx.Holds env own cs)
    (hcs : Monthly cs) :
    idx.filteredTimepointInterval f =
      if f.timepointInterval.isOverlap (spanned cs) = true ∧ ¬ InOrder f then
        .error (.endDateBeforeStartDate "end date for timepoint interval is before start date")
      else .ok (searched cs f) := by
  unfold searched
  by_cases hoverlaps : Overlaps cs f
  · rw [h.filteredTimepointInterval_eq hcs hoverlaps, if_pos hoverlaps]
    by_cases hempty : f.timepointInterval.isEmpty = true
    · have hnot : f.timepointInterval.isOverlap (spanned cs) = false := by
        simp [TimepointInterval.isOverlap, hempty]
      simp [hempty, hnot]
    · have hoverlap := hoverlaps.resolve_left hempty
      by_cases horder : InOrder f <;> simp [hempty, hoverlap, horder]
  · obtain ⟨hempty, hoverlap⟩ := not_or.1 hoverlaps
    unfold TransactionsIndex.filteredTimepointInterval
    rw [h.interval_eq hcs, ok_bind, if_neg hoverlaps]
    simp [hempty, hoverlap]

theorem monthOf_max (p q : ℤ) : monthOf (max p q) = max (monthOf p) (monthOf q) := by
  rcases Int.le_total p q with h | h
  · have hmono := monthOf_mono h
    rw [max_eq_right h, max_eq_right hmono]
  · have hmono := monthOf_mono h
    rw [max_eq_left h, max_eq_left hmono]

theorem monthOf_min (p q : ℤ) : monthOf (min p q) = min (monthOf p) (monthOf q) := by
  rcases Int.le_total p q with h | h
  · have hmono := monthOf_mono h
    rw [min_eq_left h, min_eq_left hmono]
  · have hmono := monthOf_mono h
    rw [min_eq_right h, min_eq_right hmono]

theorem monthOf_spanned (hcs : Monthly cs) (hne : cs ≠ []) :
    monthOf (spanned cs).startDate = Calendar.monthNumber (firstMonth cs) ∧
      monthOf (spanned cs).endDate = Calendar.monthNumber (lastMonth cs) :=
  ⟨monthOf_monthYearToTimepoint (isMonth_firstMonth hne) (year_firstMonth hcs hne),
    monthOf_monthYearToTimepoint (isMonth_lastMonth hne) (year_lastMonth hcs hne)⟩

theorem inside_clipped (hcs : Monthly cs) : Inside cs (clipped cs f) := by
  intro hne
  obtain ⟨hfirst, hlast⟩ := monthOf_spanned hcs hne
  unfold clipped
  split_ifs
  · omega
  · rw [monthOf_max, monthOf_min]
    omega

/-- The months that the search goes through are those of the filter. -/
theorem clipped_iff_inMonths (hcs : Monthly cs) {c : ConfirmedGradidoTx} (hc : c ∈ cs) :
    monthOf (clipped cs f).startDate ≤ monthNr c ∧ monthNr c ≤ monthOf (clipped cs f).endDate ↔
      InMonths f c := by
  obtain ⟨hfirst, hlast⟩ := monthOf_spanned hcs (List.ne_nil_of_mem hc)
  have hle := firstMonth_le hcs hc
  have hge := le_lastMonth hcs hc
  unfold clipped InMonths
  cases f.timepointInterval.isEmpty with
  | true => simp only [if_true, true_or, iff_true]; omega
  | false =>
    simp only [Bool.false_eq_true, if_false, false_or]
    rw [monthOf_max, monthOf_min]
    omega

theorem inside_spanned (hcs : Monthly cs) : Inside cs (spanned cs) := by
  intro hne
  obtain ⟨hfirst, hlast⟩ := monthOf_spanned hcs hne
  omega

theorem inside_searched (hcs : Monthly cs) : Inside cs (searched cs f) := by
  unfold searched
  split_ifs
  · exact inside_clipped hcs
  · exact inside_spanned hcs

theorem searched_iff (hcs : Monthly cs) {c : ConfirmedGradidoTx} (hc : c ∈ cs) :
    monthOf (searched cs f).startDate ≤ monthNr c ∧ monthNr c ≤ monthOf (searched cs f).endDate ↔
      (Overlaps cs f → InMonths f c) := by
  unfold searched
  split_ifs with hoverlaps
  · rw [clipped_iff_inMonths hcs hc]
    exact (true_imp_iff.symm.trans (imp_congr_left (iff_true_intro hoverlaps).symm))
  · obtain ⟨hfirst, hlast⟩ := monthOf_spanned hcs (List.ne_nil_of_mem hc)
    have hle := firstMonth_le hcs hc
    have hge := le_lastMonth hcs hc
    refine iff_of_true (by omega) (fun hin => absurd hin hoverlaps)

/-- The bounds of the prefilter leave nothing over. -/
theorem TransactionsIndex.Holds.uses_of_outOfBounds (h : idx.Holds env own cs)
    (hout : idx.outOfBounds f = true) {c : ConfirmedGradidoTx} (hc : c ∈ cs) :
    uses env f c = false := by
  have hmin := h.minNr c hc
  have hmax := h.maxNr c hc
  refine uses_eq_false (h.few c hc) ?_
  simp only [TransactionsIndex.outOfBounds, Bool.or_eq_true, decide_eq_true_eq] at hout
  omega

/-- The part of the search behind its tests. -/
theorem TransactionsIndex.Holds.scan_clipped (h : idx.Holds env own cs) (hcs : Monthly cs)
    (hsize : f.pagination.size = 0) (hoverlaps : Overlaps cs f) :
    idx.scanMonths f (inDirection f (clipped cs f).months) ([], 0) =
      .ok ((inDirection f (cs.filter (fun c =>
        decide (Overlaps cs f ∧ InMonths f c) && found env cs f c))).map
          ConfirmedGradidoTx.txNr) := by
  have hscan := h.scanMonths_interval hcs hsize (@inside_clipped cs f hcs)
  have hfilter : cs.filter (fun c => decide (monthOf (clipped cs f).startDate ≤ monthNr c ∧
        monthNr c ≤ monthOf (clipped cs f).endDate) && found env cs f c) =
      cs.filter (fun c => decide (Overlaps cs f ∧ InMonths f c) && found env cs f c) := by
    refine List.filter_congr (fun c hc => ?_)
    congr 1
    rw [decide_eq_decide, clipped_iff_inMonths hcs hc]
    exact (and_iff_right hoverlaps).symm
  rw [hfilter] at hscan
  exact hscan

/-- **The search by months**, without pages. -/
theorem TransactionsIndex.Holds.findInMonths_eq (h : idx.Holds env own cs) (hcs : Monthly cs)
    (hsize : f.pagination.size = 0) :
    idx.findInMonths f =
      if idx.outOfBounds f = false ∧ f.timepointInterval.isOverlap (spanned cs) = true ∧
          ¬ InOrder f then
        .error (.endDateBeforeStartDate "end date for timepoint interval is before start date")
      else .ok ((inDirection f (cs.filter (fun c =>
        decide (Overlaps cs f ∧ InMonths f c) && found env cs f c))).map
          ConfirmedGradidoTx.txNr) := by
  have hnone : ∀ {P : ConfirmedGradidoTx → Bool}, (∀ c ∈ cs, P c = false) →
      (inDirection f (cs.filter P)).map ConfirmedGradidoTx.txNr = [] := by
    intro P hP
    have hnil : cs.filter P = [] := List.filter_eq_nil_iff.2 (fun c hc => by simp [hP c hc])
    rw [hnil, inDirection_nil, List.map_nil]
  unfold TransactionsIndex.findInMonths
  cases hout : idx.outOfBounds f with
  | true =>
    have hunused : ∀ c ∈ cs,
        (decide (Overlaps cs f ∧ InMonths f c) && found env cs f c) = false := by
      intro c hc
      simp [found, h.uses_of_outOfBounds hout hc]
    rw [hnone hunused]
    simp
  | false =>
    cases hempty : f.timepointInterval.isEmpty with
    | true =>
      have hnot : f.timepointInterval.isOverlap (spanned cs) = false := by
        simp [TimepointInterval.isOverlap, hempty]
      have hfiltered := h.filteredTimepointInterval_eq hcs (f := f) (.inl hempty)
      rw [if_pos (.inl hempty)] at hfiltered
      simp only [hnot, Bool.false_eq_true, if_false, false_and, and_false, Bool.not_true, hfiltered,
        ok_bind]
      exact h.scan_clipped hcs hsize (.inl hempty)
    | false =>
      cases hoverlap : f.timepointInterval.isOverlap (spanned cs) with
      | false =>
        have hnot : ¬ Overlaps cs f := by simp [Overlaps, hempty, hoverlap]
        have hunused : ∀ c ∈ cs,
            (decide (Overlaps cs f ∧ InMonths f c) && found env cs f c) = false := by
          intro c _
          simp [hnot]
        rw [hnone hunused]
        simp [h.interval_eq hcs, hoverlap]
      | true =>
        have hfiltered := h.filteredTimepointInterval_eq hcs (f := f) (.inr hoverlap)
        simp only [hempty, Bool.false_eq_true, false_or] at hfiltered
        simp only [Bool.false_eq_true, if_false, Bool.not_false, if_true, h.interval_eq hcs,
          ok_bind, hoverlap, Bool.not_true, hfiltered, true_and]
        split_ifs with horder
        · exact h.scan_clipped hcs hsize (.inr hoverlap)
        · rfl

end Intervals

/-! ### The whole search -/

section Search

variable {env : Env} {own : ℕ} {cs : List ConfirmedGradidoTx} {f : CompactFilter}
  {idx : TransactionsIndex}

/-- The last change of a balance as the upper bound. -/
def cappedAt (f : CompactFilter) (last : ℕ) : CompactFilter :=
  { f with
    maxTransactionNr :=
      if last ≠ 0 ∧ (f.maxTransactionNr = 0 ∨ f.maxTransactionNr > last) then last
      else f.maxTransactionNr }

/-- Nothing that changes a balance comes behind its last change. -/
theorem TransactionsIndex.Holds.matches_cappedAt (h : idx.Holds env own cs)
    (hsearch : f.publicKeySearchType = .balanceChangingPublicKey) {c : ConfirmedGradidoTx}
    (hc : c ∈ cs) :
    Matches env (cappedAt f (lastChange idx.mAddressIndex f.publicKeyIndex.publicKeyIndex)) c ↔
      Matches env f c := by
  have hlast : Changes env c f.publicKeyIndex.publicKeyIndex →
      lastChange idx.mAddressIndex f.publicKeyIndex.publicKeyIndex ≠ 0 →
      c.txNr ≤ lastChange idx.mAddressIndex f.publicKeyIndex.publicKeyIndex :=
    fun hchanges hne => h.last _ hne c hc hchanges
  generalize lastChange idx.mAddressIndex f.publicKeyIndex.publicKeyIndex = last at hlast ⊢
  have hnumber : Changes env c f.publicKeyIndex.publicKeyIndex →
      (Admits (cappedAt f last) c.txNr ↔ Admits f c.txNr) := by
    intro hchanges
    have hle := hlast hchanges
    unfold Admits cappedAt
    dsimp only
    split_ifs with hcap
    · have hbound := hle hcap.1
      omega
    · rfl
  constructor
  · rintro ⟨htype, hcoin, hadmits, hbalance, hkey⟩
    exact ⟨htype, hcoin, (hnumber (hbalance hsearch)).1 hadmits, hbalance, hkey⟩
  · rintro ⟨htype, hcoin, hadmits, hbalance, hkey⟩
    exact ⟨htype, hcoin, (hnumber (hbalance hsearch)).2 hadmits, hbalance, hkey⟩

theorem TransactionsIndex.Holds.outOfBounds_cappedAt (h : idx.Holds env own cs) (k : ℕ) :
    idx.outOfBounds (cappedAt f (lastChange idx.mAddressIndex k)) = idx.outOfBounds f := by
  have hlast : lastChange idx.mAddressIndex k ≠ 0 →
      idx.mMinTransactionNr ≤ lastChange idx.mAddressIndex k := by
    intro hne
    obtain ⟨c, hc, heq⟩ := h.lastNr k hne
    rw [← heq]
    exact h.minNr c hc
  generalize lastChange idx.mAddressIndex k = last at hlast ⊢
  have hcapped : (cappedAt f last).maxTransactionNr ≠ 0 ∧
      (cappedAt f last).maxTransactionNr < idx.mMinTransactionNr ↔
        f.maxTransactionNr ≠ 0 ∧ f.maxTransactionNr < idx.mMinTransactionNr := by
    unfold cappedAt
    dsimp only
    split_ifs with hcap
    · have hbound := hlast hcap.1
      omega
    · rfl
  unfold TransactionsIndex.outOfBounds
  congr 1
  rw [decide_eq_decide]
  exact hcapped

/-- The search for the changes of a balance, without pages, is a search like any other one. -/
theorem TransactionsIndex.Holds.findInMonths_cappedAt (h : idx.Holds env own cs)
    (hcs : Monthly cs) (hsize : f.pagination.size = 0)
    (hsearch : f.publicKeySearchType = .balanceChangingPublicKey) :
    idx.findInMonths
        (cappedAt f (lastChange idx.mAddressIndex f.publicKeyIndex.publicKeyIndex)) =
      idx.findInMonths f := by
  have hplain := h.findInMonths_eq hcs (f := f) hsize
  have hcapped := h.findInMonths_eq hcs (f := cappedAt f
    (lastChange idx.mAddressIndex f.publicKeyIndex.publicKeyIndex)) hsize
  rw [h.outOfBounds_cappedAt] at hcapped
  have hfilter : cs.filter (fun c => decide (Overlaps cs f ∧ InMonths f c) && found env cs
        (cappedAt f (lastChange idx.mAddressIndex f.publicKeyIndex.publicKeyIndex)) c) =
      cs.filter (fun c => decide (Overlaps cs f ∧ InMonths f c) && found env cs f c) := by
    refine List.filter_congr (fun c hc => ?_)
    congr 1
    unfold found
    have huses : uses env
        (cappedAt f (lastChange idx.mAddressIndex f.publicKeyIndex.publicKeyIndex)) c =
          uses env f c := by
      rw [Bool.eq_iff_iff]
      unfold uses
      rw [isMatchingFilter_use_iff (h.few c hc), isMatchingFilter_use_iff (h.few c hc)]
      exact h.matches_cappedAt hsearch hc
    rw [huses]
    rfl
  rw [hplain, ← hfilter]
  exact hcapped

/-- Only for keys of the own community the last change is looked up. -/
theorem TransactionsIndex.Holds.lastBalanceChanged_eq (h : idx.Holds env own cs)
    (k : PublicKeyIndex) :
    idx.lastBalanceChanged k =
      if k.communityIdIndex ≠ own then
        .error (.gradidoNodeInvalidData
          "dont't call AddressIndex::lastBalanceChanged with foreign publicKey")
      else .ok (lastChange idx.mAddressIndex k.publicKeyIndex) := by
  unfold TransactionsIndex.lastBalanceChanged
  rw [h.community]
  by_cases hforeign : k.communityIdIndex ≠ own
  · rw [if_pos hforeign, decide_eq_true hforeign]
    rfl
  · rw [if_neg hforeign, decide_eq_false hforeign]
    rfl

/-- **The search**, without pages. -/
theorem TransactionsIndex.Holds.findTransactions_eq (h : idx.Holds env own cs) (hcs : Monthly cs)
    (hsize : f.pagination.size = 0) :
    idx.findTransactions f =
      if f.publicKeySearchType = .missingIndex then .ok []
      else if f.publicKeySearchType = .balanceChangingPublicKey ∧
          f.publicKeyIndex.communityIdIndex ≠ own then
        .error (.gradidoNodeInvalidData
          "dont't call AddressIndex::lastBalanceChanged with foreign publicKey")
      else idx.findInMonths f := by
  unfold TransactionsIndex.findTransactions
  split
  next hsearch => rw [if_pos hsearch]
  next hsearch =>
    rw [if_neg (by simp [hsearch]), h.lastBalanceChanged_eq]
    by_cases hforeign : f.publicKeyIndex.communityIdIndex ≠ own
    · rw [if_pos hforeign, if_pos ⟨hsearch, hforeign⟩]
      rfl
    · rw [if_neg hforeign, if_neg (fun hand => hforeign hand.2), ok_bind, if_neg]
      · exact h.findInMonths_cappedAt hcs hsize hsearch
      · rw [hsize]
        simp
  next hmissing hbalance => rw [if_neg hmissing, if_neg (fun hand => hbalance hand.1)]

/-! ### Both directions -/

/-- The month of a transaction lies in the interval of a filter, as `isInsideInterval` says. -/
def OnMonth (f : CompactFilter) (c : ConfirmedGradidoTx) : Prop :=
  let ym := yearMonthOf c.confirmedAt.getAsTimepoint
  f.timepointInterval.isEmpty = true ∨ f.timepointInterval.isInsideIntervalMonth ym.2 ym.1 = true

instance (f : CompactFilter) (c : ConfirmedGradidoTx) : Decidable (OnMonth f c) :=
  inferInstanceAs (Decidable (_ ∨ _))

/-- The search returns in both directions, backwards the reversed list, and both times exactly
the transactions that the filter of an entry uses in the months of the interval. -/
def SearchesBothWays (env : Env) (cs : List ConfirmedGradidoTx) (idx : TransactionsIndex)
    (f : CompactFilter) : Prop :=
  ∃ l, idx.findTransactions { f with searchDirection := .asc } = .ok l ∧
    idx.findTransactions { f with searchDirection := .desc } = .ok l.reverse ∧
    ∀ n, n ∈ l ↔ ∃ c ∈ cs, c.txNr = n ∧ (entryOf env c).isMatchingFilter f = .USE ∧ OnMonth f c

/-- What a filter has to respect.

* The balance of a foreign key must not be asked for, and the interval must not be reversed:
  the search throws.
* A transaction that matches in the months of the interval must not be asked for with a key
  without a number; the interval must not start behind the beginning of the last month, or end
  before the first; and its month must not start with a number below the lower bound. -/
structure Searchable (env : Env) (own : ℕ) (cs : List ConfirmedGradidoTx) (idx : TransactionsIndex)
    (f : CompactFilter) : Prop where
  own : f.publicKeySearchType = .balanceChangingPublicKey →
    f.publicKeyIndex.communityIdIndex = own
  ordered : f.publicKeySearchType ≠ .missingIndex → idx.outOfBounds f = false →
    f.timepointInterval.isOverlap (spanned cs) = true → InOrder f
  reached : ∀ c ∈ cs, Matches env f c → InMonths f c →
    f.publicKeySearchType ≠ .missingIndex ∧ Overlaps cs f ∧ ¬ StartsEarlier cs f c

theorem onMonth_iff {c : ConfirmedGradidoTx} : OnMonth f c ↔ InMonths f c := by
  have hc := isMonth_yearMonthOf c.confirmedAt.getAsTimepoint
  have hs := isMonth_yearMonthOf f.timepointInterval.startDate
  have he := isMonth_yearMonthOf f.timepointInterval.endDate
  have hbelow := Calendar.monthNumber_lt_iff hc hs
  have habove := Calendar.monthNumber_lt_iff he hc
  unfold OnMonth InMonths TimepointInterval.isInsideIntervalMonth
  refine or_congr Iff.rfl ?_
  change (!(decide ((yearMonthOf _).1 = (yearMonthOf _).1 ∧ (yearMonthOf _).2 < (yearMonthOf _).2) ||
    decide ((yearMonthOf _).1 = (yearMonthOf _).1 ∧ (yearMonthOf _).2 > (yearMonthOf _).2) ||
    decide ((yearMonthOf _).1 < (yearMonthOf _).1 ∨ (yearMonthOf _).1 > (yearMonthOf _).1))) =
      true ↔ monthOf _ ≤ monthOf _ ∧ monthOf _ ≤ monthOf _
  rw [← Int.not_lt, ← Int.not_lt]
  unfold monthOf
  rw [hbelow, habove]
  simp only [Bool.not_eq_true', Bool.or_eq_false_iff, decide_eq_false_iff_not]
  omega

theorem matches_direction {d : SearchDirection} {c : ConfirmedGradidoTx} :
    Matches env { f with searchDirection := d } c ↔ Matches env f c :=
  ⟨fun h => ⟨h.type, h.coin, h.number, h.balance, h.key⟩,
    fun h => ⟨h.type, h.coin, h.number, h.balance, h.key⟩⟩

theorem isMatchingFilter_eq_USE {c : ConfirmedGradidoTx} (hfew : (involved env c).length ≤ 4) :
    (entryOf env c).isMatchingFilter f = .USE ↔ Matches env f c := by
  rw [← isMatchingFilter_use_iff hfew]
  unfold TransactionsIndexEntry.isMatchingFilter
  split_ifs <;> simp [FilterResult.USE, FilterResult.DISMISS, FilterResult.STOP]

/-- What is found in a direction. -/
theorem found_iff {d : SearchDirection} {c : ConfirmedGradidoTx}
    (hfew : (involved env c).length ≤ 4) :
    found env cs { f with searchDirection := d } c = true ↔
      Matches env f c ∧ (d = .desc → ¬ StartsEarlier cs f c) := by
  unfold found
  rw [Bool.and_eq_true, uses, isMatchingFilter_use_iff hfew, matches_direction]
  refine and_congr_right (fun _ => ?_)
  cases d with
  | asc => simp
  | desc =>
    simp only [reduceCtorEq, decide_false, Bool.false_or, Bool.not_eq_true',
      decide_eq_false_iff_not, true_imp_iff]
    rfl

/-- What a search in a direction finds when it goes through the months. -/
theorem TransactionsIndex.Holds.findTransactions_of_ordered (h : idx.Holds env own cs)
    (hcs : Monthly cs) (hsize : f.pagination.size = 0)
    (hmissing : f.publicKeySearchType ≠ .missingIndex)
    (hown : f.publicKeySearchType = .balanceChangingPublicKey →
      f.publicKeyIndex.communityIdIndex = own)
    (hordered : idx.outOfBounds f = false → f.timepointInterval.isOverlap (spanned cs) = true →
      InOrder f) (d : SearchDirection) :
    idx.findTransactions { f with searchDirection := d } =
      .ok ((inDirection { f with searchDirection := d } (cs.filter (fun c =>
        decide (Overlaps cs f ∧ InMonths f c) &&
          found env cs { f with searchDirection := d } c))).map ConfirmedGradidoTx.txNr) := by
  have hfind := h.findTransactions_eq hcs (f := { f with searchDirection := d }) hsize
  have hmonths := h.findInMonths_eq hcs (f := { f with searchDirection := d }) hsize
  rw [if_neg hmissing, if_neg (fun hand => hand.2 (hown hand.1)), hmonths, if_neg] at hfind
  · exact hfind
  · rintro ⟨hin, hoverlap, hnot⟩
    exact hnot (hordered hin hoverlap)

/-- What it takes for a search in a direction to return. -/
theorem TransactionsIndex.Holds.ordered_of_returns (h : idx.Holds env own cs) (hcs : Monthly cs)
    (hsize : f.pagination.size = 0) {d : SearchDirection} {l : List ℕ}
    (hfind : idx.findTransactions { f with searchDirection := d } = .ok l)
    (hmissing : f.publicKeySearchType ≠ .missingIndex) :
    (f.publicKeySearchType = .balanceChangingPublicKey →
        f.publicKeyIndex.communityIdIndex = own) ∧
      (idx.outOfBounds f = false → f.timepointInterval.isOverlap (spanned cs) = true →
        InOrder f) := by
  have heq := h.findTransactions_eq hcs (f := { f with searchDirection := d }) hsize
  rw [if_neg hmissing, hfind] at heq
  by_cases hforeign : f.publicKeySearchType = .balanceChangingPublicKey ∧
      f.publicKeyIndex.communityIdIndex ≠ own
  · rw [if_pos hforeign] at heq
    simp at heq
  rw [if_neg hforeign, h.findInMonths_eq hcs (f := { f with searchDirection := d }) hsize] at heq
  refine ⟨fun hbalance => ?_, fun hin hoverlap => ?_⟩
  · by_contra hcommunity
    exact hforeign ⟨hbalance, hcommunity⟩
  · by_contra hnot
    rw [if_pos ⟨hin, hoverlap, hnot⟩] at heq
    simp at heq

/-- When both directions find what they should, the filter respects `Searchable`. -/
theorem TransactionsIndex.Holds.searchable (h : idx.Holds env own cs) (hcs : Monthly cs)
    (hsize : f.pagination.size = 0) (hboth : SearchesBothWays env cs idx f) :
    Searchable env own cs idx f := by
  obtain ⟨l, hasc, hdesc, hl⟩ := hboth
  by_cases hmissing : f.publicKeySearchType = .missingIndex
  · -- nothing is found for a key without a number
    have heq := h.findTransactions_eq hcs (f := { f with searchDirection := .asc }) hsize
    rw [if_pos hmissing, hasc, Except.ok.injEq] at heq
    refine ⟨fun hbalance => ?_, fun hne => absurd hmissing hne, fun c hc hmatches hmonth => ?_⟩
    · simp [hmissing] at hbalance
    · have hin := (hl c.txNr).2
        ⟨c, hc, rfl, (isMatchingFilter_eq_USE (h.few c hc)).2 hmatches, onMonth_iff.2 hmonth⟩
      simp [heq] at hin
  · obtain ⟨hown, hordered⟩ := h.ordered_of_returns hcs hsize hdesc hmissing
    refine ⟨hown, fun _ => hordered, fun c hc hmatches hmonth => ?_⟩
    have hin := (hl c.txNr).2
      ⟨c, hc, rfl, (isMatchingFilter_eq_USE (h.few c hc)).2 hmatches, onMonth_iff.2 hmonth⟩
    have hfind := h.findTransactions_of_ordered hcs hsize hmissing hown hordered .desc
    rw [hdesc, Except.ok.injEq] at hfind
    rw [← List.mem_reverse, hfind, List.mem_map] at hin
    obtain ⟨c', hc', heq⟩ := hin
    rw [mem_inDirection, List.mem_filter, Bool.and_eq_true, decide_eq_true_iff] at hc'
    obtain rfl := eq_of_numbered hcs.numbered hc'.1 hc heq
    obtain ⟨-, hearlier⟩ := (found_iff (h.few c' hc)).1 hc'.2.2
    exact ⟨hmissing, hc'.2.1.1, hearlier rfl⟩

/-- For a filter that respects `Searchable`, both directions find what they should. -/
theorem TransactionsIndex.Holds.searchesBothWays (h : idx.Holds env own cs) (hcs : Monthly cs)
    (hsize : f.pagination.size = 0) (hf : Searchable env own cs idx f) :
    SearchesBothWays env cs idx f := by
  by_cases hmissing : f.publicKeySearchType = .missingIndex
  · have heq : ∀ d, idx.findTransactions { f with searchDirection := d } = .ok [] := by
      intro d
      rw [h.findTransactions_eq hcs (f := { f with searchDirection := d }) hsize,
        if_pos hmissing]
    refine ⟨[], heq .asc, heq .desc, fun n => iff_of_false (by simp) ?_⟩
    rintro ⟨c, hc, -, huse, hmonth⟩
    have hreached := hf.reached c hc ((isMatchingFilter_eq_USE (h.few c hc)).1 huse)
      (onMonth_iff.1 hmonth)
    exact hreached.1 hmissing
  · have hfind := h.findTransactions_of_ordered hcs hsize hmissing hf.own (hf.ordered hmissing)
    have hfilter : ∀ d, cs.filter (fun c => decide (Overlaps cs f ∧ InMonths f c) &&
        found env cs { f with searchDirection := d } c) =
          cs.filter (fun c => decide (Matches env f c ∧ InMonths f c)) := by
      intro d
      refine List.filter_congr (fun c hc => ?_)
      rw [Bool.eq_iff_iff, Bool.and_eq_true, found_iff (h.few c hc), decide_eq_true_iff,
        decide_eq_true_iff]
      constructor
      · rintro ⟨⟨-, hmonth⟩, hmatches, -⟩
        exact ⟨hmatches, hmonth⟩
      · rintro ⟨hmatches, hmonth⟩
        obtain ⟨-, hoverlaps, hearlier⟩ := hf.reached c hc hmatches hmonth
        exact ⟨⟨hoverlaps, hmonth⟩, hmatches, fun _ => hearlier⟩
    refine ⟨(cs.filter (fun c => decide (Matches env f c ∧ InMonths f c))).map
      ConfirmedGradidoTx.txNr, ?_, ?_, fun n => ?_⟩
    · rw [hfind .asc, hfilter .asc]
      rfl
    · rw [hfind .desc, hfilter .desc, ← List.map_reverse]
      rfl
    · rw [List.mem_map]
      constructor
      · rintro ⟨c, hc, rfl⟩
        rw [List.mem_filter, decide_eq_true_iff] at hc
        exact ⟨c, hc.1, rfl, (isMatchingFilter_eq_USE (h.few c hc.1)).2 hc.2.1,
          onMonth_iff.2 hc.2.2⟩
      · rintro ⟨c, hc, rfl, huse, hmonth⟩
        refine ⟨c, List.mem_filter.2 ⟨hc, ?_⟩, rfl⟩
        rw [decide_eq_true_iff]
        exact ⟨(isMatchingFilter_eq_USE (h.few c hc)).1 huse, onMonth_iff.1 hmonth⟩

/-- **Both directions** find what they should exactly for the filters that respect `Searchable`. -/
theorem searchesBothWays_iff (hcs : Monthly cs)
    (hrun : Steps.run (TransactionsIndex.add env) (.empty own) cs = some idx)
    (hsize : f.pagination.size = 0) :
    SearchesBothWays env cs idx f ↔ Searchable env own cs idx f := by
  have h := TransactionsIndex.holds_of_added hcs hrun
  exact ⟨h.searchable hcs hsize, h.searchesBothWays hcs hsize⟩

end Search

/-! ### Two transactions of one month -/

open Gradido.TransactionsIndex (january5 january10)

theorem monthly_january : Monthly [january5, january10] where
  positive := by decide
  numbered := by decide
  months := by decide +kernel
  clock := by
    unfold InClock
    decide

/-- Both are entered. -/
theorem added_january : ∃ idx,
    Steps.run (TransactionsIndex.add Sample.env) (.empty 1) [january5, january10] = some idx :=
  Option.isSome_iff_exists.1 (by decide +kernel)

/-- From the second one on, the search backwards finds nothing: the month starts with the first. -/
theorem january_not_searchesBothWays : ∃ idx,
    Steps.run (TransactionsIndex.add Sample.env) (.empty 1) [january5, january10] = some idx ∧
      Monthly [january5, january10] ∧
      ¬ SearchesBothWays Sample.env [january5, january10] idx { minTransactionNr := 2 } := by
  obtain ⟨idx, hrun⟩ := added_january
  refine ⟨idx, hrun, monthly_january, ?_⟩
  rintro ⟨l, hasc, hdesc, -⟩
  have hfound : ((Steps.run (TransactionsIndex.add Sample.env) (.empty 1)
      [january5, january10]).map (fun idx =>
        ((idx.findTransactions { minTransactionNr := 2, searchDirection := .asc }).toOption,
          (idx.findTransactions { minTransactionNr := 2, searchDirection := .desc }).toOption))) =
      some (some [2], some []) := by
    decide +kernel
  rw [hrun, Option.map_some, Option.some.injEq, Prod.mk.injEq] at hfound
  have hone : some l = some [2] := by
    rw [← hfound.1, hasc]
    rfl
  have htwo : some l.reverse = some [] := by
    rw [← hfound.2, hdesc]
    rfl
  rw [Option.some.inj hone] at htwo
  simp at htwo

/-- From the first one on, both are found in both directions. -/
theorem january_searchesBothWays : ∃ idx,
    Steps.run (TransactionsIndex.add Sample.env) (.empty 1) [january5, january10] = some idx ∧
      SearchesBothWays Sample.env [january5, january10] idx { minTransactionNr := 1 } := by
  obtain ⟨idx, hrun⟩ := added_january
  refine ⟨idx, hrun, (searchesBothWays_iff monthly_january hrun rfl).2 ⟨?_, ?_, ?_⟩⟩
  · simp
  · intro _ _ hoverlap
    simp [TimepointInterval.isOverlap, TimepointInterval.isEmpty, TimepointInterval.unset]
      at hoverlap
  · intro c hc _ _
    refine ⟨by simp, .inl rfl, ?_⟩
    revert c
    decide +kernel

end ByMonth

end Gradido
