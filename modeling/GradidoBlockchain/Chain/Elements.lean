import GradidoBlockchain.Chain.Indexed
import GradidoBlockchain.Index.Matches
import GradidoBlockchain.Index.Pages
import GradidoBlockchain.Lib.Paging

/-!
# Elements from pages

`InMemory::findAll` with an element filter requests page after page until it has
enough elements.  `findAllElements_eq` says what it should return, the accepted
elements from the first page on, and when it does: page zero is the same as page
one, whether there is room left is asked between pages only, and the pages are
those of `findTransactions`.
-/

namespace Gradido

open Checked Paging

/-! ### Known numbers -/

namespace TransactionsIndex

section Known

variable {env : Env} {own : ℕ} {cs : List ConfirmedGradidoTx} {idx : TransactionsIndex}

theorem scanEnd_le {cells : ℕ → ℕ} {m : ℕ} (h : ∀ n, cells n ≤ m) (stop : Option ℕ) (e : ℕ) :
    scanEnd cells stop e ≤ m := by
  induction e with
  | zero => exact h 0
  | succ e ih =>
    unfold scanEnd
    split_ifs
    · exact h (e + 1)
    · exact Nat.zero_le m
    · exact ih

/-- Whatever the filter asks for, a range lies within the numbers that the index has seen. -/
theorem calculateTxRange_bounds {m : ℕ} (hmin : 1 ≤ idx.mMinTransactionNr)
    (hmax : idx.mMaxTransactionNr ≤ m) (hcells : ∀ n, idx.mDayMonthYearTxRanges n ≤ m)
    {f : CompactFilter} {lo hi : ℕ} (h : idx.calculateTxRange f = some (lo, hi)) :
    1 ≤ lo ∧ hi ≤ m := by
  have hscan : ∀ s e, idx.getTxRangeOfInterval s e ≠ (0, 0) →
      1 ≤ (idx.getTxRangeOfInterval s e).1 ∧ (idx.getTxRangeOfInterval s e).2 ≤ m := by
    intro s e
    have hend := scanEnd_le hcells
    unfold getTxRangeOfInterval
    dsimp only
    generalize (if s.day = 0 then none
      else some (idx.yearMonthToIndex s * 31 + (s.day - 1))) = stop
    generalize idx.yearMonthToIndex e * 31 + (if idx.mMaxDate < e then 30 else e.day - 1) = cell
    specialize hend stop cell
    split_ifs
    · exact fun hne => absurd rfl hne
    · exact fun _ => ⟨Nat.le_add_left 1 _, hend⟩
    · exact fun _ => ⟨hmin, hend⟩
  unfold calculateTxRange at h
  dsimp only at h
  generalize (if f.timepointInterval.isEmpty = true then idx.mMinDate
    else timepointAsYearMonthDay f.timepointInterval.startDate) = s at h
  generalize (if f.timepointInterval.isEmpty = true then idx.mMaxDate
    else timepointAsYearMonthDay f.timepointInterval.endDate) = e at h
  by_cases hpart : s ≠ idx.mMinDate ∨ e ≠ idx.mMaxDate
  · simp only [hpart, true_and] at h
    split_ifs at h with hout hdates hempty
    all_goals
      rw [Option.some.injEq, Prod.mk.injEq] at h
      obtain ⟨rfl, rfl⟩ := h
      have hbounds := hscan s e hempty
      omega
  · simp only [hpart, false_and, if_false] at h
    split_ifs at h with hout hdates
    all_goals
      rw [Option.some.injEq, Prod.mk.injEq] at h
      obtain ⟨rfl, rfl⟩ := h
      omega

/-- Every number that is found belongs to a transaction. -/
theorem Indexes.known (h : Indexes env own cs idx)
    (hkeys : ∀ k : PublicKeyIndex, k.empty = true → idx.mInvolvedPublicKeys k = none)
    (f : CompactFilter) (hsize : f.pagination.size = 0) :
    ∀ n ∈ idx.findTransactions f, ∃ c ∈ cs, c.txNr = n := by
  intro n hn
  by_cases hne : cs = []
  · subst hne
    simp [findTransactions, h.dates.minNr, h.dates.maxNr] at hn
  have hmaxNr : idx.mMaxTransactionNr ≠ 0 := by
    rw [h.dates.maxNr]
    exact fun hzero => hne (List.length_eq_zero_iff.1 hzero)
  rw [findTransactions_eq_pageOf idx f hmaxNr, mem_pageOf_of_size_zero hsize] at hn
  by_cases hf : Plain f
  · cases hrange : idx.calculateTxRange f with
    | none => simp [aggregateTransactions, hrange] at hn
    | some range =>
      obtain ⟨lo, hi⟩ := range
      have hcells : ∀ cell, idx.mDayMonthYearTxRanges cell ≤ cs.length := by
        intro cell
        rw [h.dates.cells]
        rcases isLast_lastInCell (fun c hc => (h.txNr_bounds hc).1) (firstDate cs) cell with
          ⟨hzero, -⟩ | ⟨-, c, hc, -, hnr, -⟩
        · omega
        · rw [← hnr]
          exact (h.txNr_bounds hc).2
      obtain ⟨hlo, hhi⟩ := calculateTxRange_bounds
        (by rw [h.dates.minNr, if_neg hne]) h.dates.maxNr.le hcells hrange
      obtain ⟨-, -, c, hc, hnr, -⟩ := (h.mem_aggregate hne hf hrange hlo hhi n).1 hn
      exact ⟨c, hc, hnr⟩
  · rw [aggregate_of_not_plain hkeys hf] at hn
    simp at hn

end Known

/-- On a page of two the last number comes twice when it is alone. -/
theorem page_of_lonely {f : CompactFilter} {b : Bitmap} (hmore : 2 ≤ f.pagination.size)
    (hlonely : Lonely b.cardinality f.pagination.size f.pagination.skipEntriesCount) :
    ∃ n, (inDirection f.searchDirection b)[f.pagination.skipEntriesCount]? = some n ∧
      page f b = [n, n] := by
  obtain ⟨hn, hn1, hsize, htwo⟩ := hlonely
  unfold page inDirection
  unfold Bitmap.cardinality at *
  generalize f.pagination.skipEntriesCount = skip at *
  generalize f.pagination.size = size at *
  cases f.searchDirection with
  | asc =>
    have hlt : skip < b.toList.length := by omega
    refine ⟨b.toList[skip], List.getElem?_eq_getElem hlt, ?_⟩
    have hmax : b.maximum = b.toList[skip] := by
      rw [Bitmap.maximum, List.getLastD_eq_getLast?, List.getLast?_eq_getElem?]
      rw [show b.toList.length - 1 = skip by omega, List.getElem?_eq_getElem hlt]
      rfl
    simp only [hn1, hsize, htwo, or_self, if_false, if_true, Bitmap.select]
    rw [List.getElem?_eq_getElem hlt, List.getElem?_eq_none (by omega), Option.getD_some,
      Option.getD_none, hmax]
  | desc =>
    have hpos : 0 < b.toList.length := by omega
    refine ⟨b.toList[0], ?_, ?_⟩
    · dsimp only
      rw [List.getElem?_reverse (by omega), show b.toList.length - 1 - skip = 0 by omega]
      exact List.getElem?_eq_getElem hpos
    have hmin : b.minimum = b.toList[0] := by
      rw [Bitmap.minimum, List.headD_eq_head?_getD, List.head?_eq_getElem?,
        List.getElem?_eq_getElem hpos]
      rfl
    simp only [hn1, hsize, htwo, or_self, if_false, if_true, Bitmap.select]
    rw [show b.toList.length - skip - 1 = 0 by omega, if_pos (by omega),
      List.getElem?_eq_getElem hpos, Option.getD_some, hmin]

/-- A page is its block, and the last number alone on a page of two comes twice. -/
theorem findPage_eq (idx : TransactionsIndex) (f : CompactFilter) {size page : ℕ}
    (hsize : 1 ≤ size) (hpage : 1 ≤ page) (hfits : (page - 1) * size < 2 ^ 32) :
    idx.findPage f size page =
      if size = 2 ∧ (idx.findPage f 0 0).length = (page - 1) * size + 1 ∧
          (idx.findPage f 0 0).length ≠ 1
      then block (idx.findPage f 0 0) size page ++ block (idx.findPage f 0 0) size page
      else block (idx.findPage f 0 0) size page := by
  obtain ⟨b, hb⟩ := idx.exists_findPage f
  have hall : idx.findPage f 0 0 = inDirection f.searchDirection b := by
    rw [hb, pageOf_size_zero]
  rw [hall, hb, length_inDirection]
  split_ifs with htwo
  · obtain ⟨hsize2, hn, hn1⟩ := htwo
    have hskip : (⟨size, page⟩ : Pagination).skipEntriesCount = (page - 1) * size := by
      rw [Pagination.skipEntriesCount, if_neg (show page ≠ 0 by omega)]
      exact Nat.mod_eq_of_lt hfits
    obtain ⟨n, hget, heq⟩ := page_of_lonely (f := { f with pagination := ⟨size, page⟩ }) (b := b)
      (by dsimp only; omega) ⟨by rw [hskip]; exact hn, hn1, by dsimp only; omega, .inl hsize2⟩
    rw [hskip] at hget
    have hlt : (page - 1) * size < (inDirection f.searchDirection b).length := by
      rw [length_inDirection]
      omega
    have hblock : block (inDirection f.searchDirection b) size page = [n] := by
      rw [block, List.drop_eq_getElem_cons hlt, List.drop_eq_nil_of_le
        (by rw [length_inDirection]; omega)]
      rw [List.getElem?_eq_getElem hlt, Option.some.injEq] at hget
      rw [hget, List.take_of_length_le (by simp; omega)]
    rw [hblock, pageOf, if_neg, if_pos, heq]
    · rfl
    · dsimp only
      omega
    · rw [hskip]
      omega
  · exact (pageOf_eq_block_iff f b hsize hpage).2 (.inr ⟨hfits, htwo⟩)

/-- Every page is a part of the result. -/
theorem mem_findPage {idx : TransactionsIndex} {f : CompactFilter} {size page n : ℕ}
    (hn : n ∈ idx.findPage f size page) : n ∈ idx.findPage f 0 0 := by
  obtain ⟨b, hb⟩ := idx.exists_findPage f
  rw [hb, pageOf_size_zero]
  rw [hb] at hn
  rcases Nat.eq_zero_or_pos size with rfl | hsize
  · have hsame : pageOf { f with pagination := ⟨0, page⟩ } b =
        pageOf { f with pagination := ⟨0, 0⟩ } b := by
      simp [pageOf, Pagination.skipEntriesCount]
    rwa [hsame, pageOf_size_zero] at hn
  unfold pageOf at hn
  rw [if_pos (show ({ f with pagination := ⟨size, page⟩ } : CompactFilter).pagination.size ≠ 0 from
    hsize.ne')] at hn
  split_ifs at hn with hempty
  · simp at hn
  rw [not_or, Nat.not_le] at hempty
  by_cases hlonely : Lonely b.cardinality size
      (⟨size, page⟩ : Pagination).skipEntriesCount
  · obtain ⟨m, hget, heq⟩ := page_of_lonely (f := { f with pagination := ⟨size, page⟩ }) (b := b)
      (by have := hlonely.2.2.1; dsimp only; omega) hlonely
    rw [heq] at hn
    obtain rfl : n = m := by simpa using hn
    exact List.mem_of_getElem? hget
  · rw [page_eq_drop_take (f := { f with pagination := ⟨size, page⟩ }) hsize hempty.2 hlonely] at hn
    exact List.mem_of_mem_drop (List.mem_of_mem_take hn)

/-- Without pages the page number does not matter. -/
theorem findPage_size_zero (idx : TransactionsIndex) (f : CompactFilter) (page : ℕ) :
    idx.findPage f 0 page = idx.findPage f 0 0 := by
  obtain ⟨b, hb⟩ := idx.exists_findPage f
  rw [hb, hb]
  simp [pageOf, Pagination.skipEntriesCount]

/-- Page zero is page one. -/
theorem findPage_zero (idx : TransactionsIndex) (f : CompactFilter) (size : ℕ) :
    idx.findPage f size 0 = idx.findPage f size 1 := by
  obtain ⟨b, hb⟩ := idx.exists_findPage f
  rw [hb, hb]
  unfold pageOf page
  simp [Pagination.skipEntriesCount]

end TransactionsIndex

/-! ### Collecting elements -/

namespace InMemory

section Elements

variable {s : InMemory} {f : CompactFilter} {elementFilter : ConfirmedGradidoTx → FilterResult}

/-- The candidates of a filter: the compact transactions that the index finds without pages, in
search order. -/
def candidates (s : InMemory) (f : CompactFilter) : List ConfirmedGradidoTx :=
  (s.mTransactionsIndex.findPage f 0 0).filterMap s.mConfirmedTxByNr

/-- The elements that are accepted from a list, up to the first one that stops. -/
def accepted (elementFilter : ConfirmedGradidoTx → FilterResult) (l : List ConfirmedGradidoTx) :
    List ConfirmedGradidoTx :=
  taken (fun c => (elementFilter c).use) (fun c => (elementFilter c).stop) l

/-- What `InMemory::findAll` should return: the accepted elements from the first page on, as many
as fit on a page. -/
def expectedElements (s : InMemory) (f : CompactFilter)
    (elementFilter : ConfirmedGradidoTx → FilterResult) : List ConfirmedGradidoTx :=
  let found := accepted elementFilter
    ((s.candidates f).drop ((f.pagination.page - 1) * f.pagination.size))
  if f.pagination.size = 0 then found else found.take f.pagination.size

/-- No page that is read starts beyond the numbers of 32 bits, in which the number of skipped
entries is computed. -/
def FitsPages (elementFilter : ConfirmedGradidoTx → FilterResult) (l : List ConfirmedGradidoTx)
    (size page : ℕ) : Prop :=
  ∀ k, Open (fun c => (elementFilter c).use) (fun c => (elementFilter c).stop)
      (l.drop ((page - 1) * size)) size k →
    k * size < (l.drop ((page - 1) * size)).length + size → (page - 1 + k) * size < 2 ^ 32

/-- The pages fill up as they should.

* Page zero is followed by page one, which is the same: it can be read twice.
* No page brings more elements than there is room for.
* An element that is alone on a page of two comes twice: it is not used or stops. -/
structure FillsPages (elementFilter : ConfirmedGradidoTx → FilterResult)
    (l : List ConfirmedGradidoTx) (size page : ℕ) : Prop where
  first : page = 0 → Passed (fun c => (elementFilter c).use) (fun c => (elementFilter c).stop) size
    (blockAt l size 0)
  even : Even (fun c => (elementFilter c).use) (fun c => (elementFilter c).stop)
    (l.drop ((page - 1) * size)) size
  alone : size = 2 → l.length ≠ 1 → ∀ k, Open (fun c => (elementFilter c).use)
    (fun c => (elementFilter c).stop) (l.drop ((page - 1) * size)) size k →
    ∀ c, blockAt (l.drop ((page - 1) * size)) size k = [c] → (elementFilter c).use = true →
      (elementFilter c).stop = true

/-- The inner loop takes what is accepted from a page. -/
theorem forPage_eq (elementFilter : ConfirmedGradidoTx → FilterResult) {nrs : List ℕ}
    {l : List ConfirmedGradidoTx} (hknown : nrs.map s.mConfirmedTxByNr = l.map some)
    (acc : List ConfirmedGradidoTx) {last : FilterResult} (hlast : last.stop = false) :
    ∃ r, s.forPage (fun acc tx =>
        .ok (if (elementFilter tx).use then acc ++ [tx] else acc, elementFilter tx)) nrs acc last =
        .ok (acc ++ accepted elementFilter l, r) ∧
      r.stop = l.any (fun c => (elementFilter c).stop) := by
  induction nrs generalizing l acc last with
  | nil =>
    cases l with
    | cons c l => simp at hknown
    | nil => exact ⟨last, by simp [forPage, accepted], by simp [hlast]⟩
  | cons nr nrs ih =>
    cases l with
    | nil => simp at hknown
    | cons c l =>
      rw [List.map_cons, List.map_cons, List.cons.injEq] at hknown
      have hacc : (if (elementFilter c).use then acc ++ [c] else acc) =
          acc ++ (if (elementFilter c).use then [c] else []) := by
        split_ifs
        · rfl
        · rw [List.append_nil]
      rw [forPage, hknown.1, accepted, taken_cons, List.any_cons]
      simp only [ok_bind, hacc]
      by_cases hstop : (elementFilter c).stop = true
      · rw [if_pos hstop, if_pos hstop, List.append_nil]
        exact ⟨_, rfl, by rw [hstop, Bool.true_or]⟩
      · rw [if_neg hstop, if_neg hstop]
        rw [Bool.not_eq_true] at hstop
        obtain ⟨r, heq, hr⟩ :=
          ih hknown.2 (acc ++ (if (elementFilter c).use then [c] else [])) hstop
        refine ⟨r, ?_, ?_⟩
        · rw [heq, accepted, List.append_assoc]
        · rw [hr, hstop, Bool.false_or]

/-- The outer loop collects the pages. -/
theorem findAllPages_eq (elementFilter : ConfirmedGradidoTx → FilterResult)
    (pages : ℕ → List ConfirmedGradidoTx)
    (hknown : ∀ page, (s.mTransactionsIndex.findPage f f.pagination.size page).map
      s.mConfirmedTxByNr = (pages page).map some) (bound page : ℕ)
    (acc : List ConfirmedGradidoTx) :
    s.findAllPages f elementFilter bound page acc =
      .ok (collectPages (fun c => (elementFilter c).use) (fun c => (elementFilter c).stop) pages
        f.pagination.size bound page acc) := by
  induction bound generalizing page acc with
  | zero => rfl
  | succ bound ih =>
    have hpage := hknown page
    rw [TransactionsIndex.findPage] at hpage
    unfold findAllPages collectPages
    generalize s.mTransactionsIndex.findTransactions
      { f with pagination := ⟨f.pagination.size, page⟩ } = nrs at hpage ⊢
    generalize pages page = l at hpage ⊢
    cases nrs with
    | nil =>
      obtain rfl : l = [] := by simpa using hpage
      rw [if_pos rfl]
    | cons nr nrs =>
      have hne : l ≠ [] := by
        rintro rfl
        simp at hpage
      obtain ⟨r, heq, hr⟩ := forPage_eq elementFilter hpage acc
        (show FilterResult.DISMISS.stop = false from rfl)
      have hcapacity : f.pagination.hasCapacityLeft (acc ++ accepted elementFilter l).length =
          false ↔ f.pagination.size ≠ 0 ∧
            f.pagination.size ≤ (acc ++ accepted elementFilter l).length := by
        simp [Pagination.hasCapacityLeft]
      have hcondition : (f.pagination.size = 0 ∨
          f.pagination.hasCapacityLeft (acc ++ accepted elementFilter l).length = false ∨
            r.stop = true) ↔
          (f.pagination.size = 0 ∨ f.pagination.size ≤ (acc ++ accepted elementFilter l).length ∨
            l.any (fun c => (elementFilter c).stop) = true) := by
        rw [hcapacity, hr]
        by_cases hsize : f.pagination.size = 0
        · exact iff_of_true (.inl hsize) (.inl hsize)
        · rw [and_iff_right hsize]
      rw [if_neg hne]
      dsimp only
      rw [heq]
      simp only [ok_bind, hcondition]
      by_cases hends : f.pagination.size = 0 ∨
          f.pagination.size ≤ (acc ++ accepted elementFilter l).length ∨
            l.any (fun c => (elementFilter c).stop) = true
      · rw [if_pos hends]
        exact congrArg Except.ok (if_pos hends).symm
      · rw [if_neg hends, ih]
        exact congrArg Except.ok (if_neg hends).symm

theorem map_eq_of_known {nrs : List ℕ} (h : ∀ n ∈ nrs, ∃ c, s.mConfirmedTxByNr n = some c) :
    nrs.map s.mConfirmedTxByNr = (nrs.filterMap s.mConfirmedTxByNr).map some := by
  induction nrs with
  | nil => rfl
  | cons nr nrs ih =>
    obtain ⟨c, hc⟩ := h nr List.mem_cons_self
    rw [List.map_cons, List.filterMap_cons_some hc, List.map_cons, hc,
      ih (fun n hn => h n (List.mem_cons_of_mem nr hn))]

/-- A part of the numbers gives the same part of the transactions. -/
theorem filterMap_block {nrs : List ℕ} (h : ∀ n ∈ nrs, ∃ c, s.mConfirmedTxByNr n = some c)
    (i j : ℕ) : ((nrs.drop i).take j).filterMap s.mConfirmedTxByNr =
      ((nrs.filterMap s.mConfirmedTxByNr).drop i).take j := by
  have hmap := map_eq_of_known h
  have hpart : ((nrs.drop i).take j).map s.mConfirmedTxByNr = _ :=
    map_eq_of_known (fun n hn => h n (List.mem_of_mem_drop (List.mem_of_mem_take hn)))
  refine List.map_injective_iff.2 (Option.some_injective _) ?_
  rw [← hpart, List.map_take, List.map_drop, hmap, List.map_take, List.map_drop]

/-- A page that is read is a block of the candidates, or the last candidate alone and twice. -/
theorem FitsPages.page_eq (elementFilter : ConfirmedGradidoTx → FilterResult)
    (hknown : ∀ n ∈ s.mTransactionsIndex.findPage f 0 0, ∃ c, s.mConfirmedTxByNr n = some c)
    {size page : ℕ} (hsize : 1 ≤ size) (hpage : 1 ≤ page)
    (hfits : FitsPages elementFilter (s.candidates f) size page) {k : ℕ}
    (hopen : Open (fun c => (elementFilter c).use) (fun c => (elementFilter c).stop)
      ((s.candidates f).drop ((page - 1) * size)) size k)
    (hk : k * size < ((s.candidates f).drop ((page - 1) * size)).length + size) :
    (s.mTransactionsIndex.findPage f size (page + k)).filterMap s.mConfirmedTxByNr =
      if size = 2 ∧ (s.candidates f).length ≠ 1 ∧
          (blockAt ((s.candidates f).drop ((page - 1) * size)) size k).length = 1
      then blockAt ((s.candidates f).drop ((page - 1) * size)) size k ++
        blockAt ((s.candidates f).drop ((page - 1) * size)) size k
      else blockAt ((s.candidates f).drop ((page - 1) * size)) size k := by
  have hskip : page + k - 1 = page - 1 + k := by omega
  have hblock : (TransactionsIndex.block (s.mTransactionsIndex.findPage f 0 0) size
      (page + k)).filterMap s.mConfirmedTxByNr =
      blockAt ((s.candidates f).drop ((page - 1) * size)) size k := by
    rw [TransactionsIndex.block, filterMap_block hknown, blockAt, List.drop_drop, hskip,
      Nat.add_mul]
    rfl
  have hlength : (s.candidates f).length = (s.mTransactionsIndex.findPage f 0 0).length := by
    have hmap := congrArg List.length (map_eq_of_known hknown)
    rw [List.length_map, List.length_map] at hmap
    exact hmap.symm
  have halone : (size = 2 ∧ (s.mTransactionsIndex.findPage f 0 0).length =
        (page + k - 1) * size + 1 ∧ (s.mTransactionsIndex.findPage f 0 0).length ≠ 1) ↔
      (size = 2 ∧ (s.candidates f).length ≠ 1 ∧
        (blockAt ((s.candidates f).drop ((page - 1) * size)) size k).length = 1) := by
    rw [blockAt, List.length_take, List.length_drop, List.length_drop, hlength, hskip, Nat.add_mul]
    omega
  rw [TransactionsIndex.findPage_eq s.mTransactionsIndex f hsize (by omega)
    (by rw [hskip]; exact hfits k hopen hk)]
  by_cases htwo : size = 2 ∧ (s.candidates f).length ≠ 1 ∧
      (blockAt ((s.candidates f).drop ((page - 1) * size)) size k).length = 1
  · rw [if_pos htwo, if_pos (halone.2 htwo), List.filterMap_append, hblock]
  · rw [if_neg htwo, if_neg (fun h => htwo (halone.1 h)), hblock]

/-- A page that is read stands for its block unless the candidate that is alone on it is used and
does not stop. -/
theorem FitsPages.replaces_iff (elementFilter : ConfirmedGradidoTx → FilterResult)
    (hknown : ∀ n ∈ s.mTransactionsIndex.findPage f 0 0, ∃ c, s.mConfirmedTxByNr n = some c)
    {size page : ℕ} (hsize : 1 ≤ size) (hpage : 1 ≤ page)
    (hfits : FitsPages elementFilter (s.candidates f) size page) {k : ℕ}
    (hopen : Open (fun c => (elementFilter c).use) (fun c => (elementFilter c).stop)
      ((s.candidates f).drop ((page - 1) * size)) size k)
    (hk : k * size < ((s.candidates f).drop ((page - 1) * size)).length + size) :
    Replaces (fun c => (elementFilter c).use) (fun c => (elementFilter c).stop)
        ((s.mTransactionsIndex.findPage f size (page + k)).filterMap s.mConfirmedTxByNr)
        (blockAt ((s.candidates f).drop ((page - 1) * size)) size k) ↔
      (size = 2 → (s.candidates f).length ≠ 1 → ∀ c,
        blockAt ((s.candidates f).drop ((page - 1) * size)) size k = [c] →
          (elementFilter c).use = true → (elementFilter c).stop = true) := by
  rw [hfits.page_eq elementFilter hknown hsize hpage hopen hk]
  split_ifs with htwo
  · obtain ⟨hsize2, hne, hone⟩ := htwo
    obtain ⟨c, hc⟩ := List.length_eq_one_iff.1 hone
    rw [hc]
    refine replaces_twice.trans ⟨fun h _ _ c' hc' => ?_, fun h => h hsize2 hne c rfl⟩
    rwa [← List.singleton_injective hc']
  · refine iff_of_true (Replaces.refl _) (fun hsize2 hne c hc => ?_)
    exact absurd ⟨hsize2, hne, by rw [hc]; rfl⟩ htwo

/-- **Elements from the pages from one on.** -/
theorem FitsPages.collectPages_iff (elementFilter : ConfirmedGradidoTx → FilterResult)
    (hknown : ∀ n ∈ s.mTransactionsIndex.findPage f 0 0, ∃ c, s.mConfirmedTxByNr n = some c)
    {size page bound : ℕ} (hsize : 1 ≤ size) (hpage : 1 ≤ page)
    (hfits : FitsPages elementFilter (s.candidates f) size page)
    (hbound : (s.candidates f).length < bound) :
    collectPages (fun c => (elementFilter c).use) (fun c => (elementFilter c).stop)
        (fun page => (s.mTransactionsIndex.findPage f size page).filterMap s.mConfirmedTxByNr)
        size bound page [] =
      (accepted elementFilter ((s.candidates f).drop ((page - 1) * size))).take size ↔
    FillsPages elementFilter (s.candidates f) size page := by
  have hpages := fun k hopen hk => hfits.replaces_iff elementFilter hknown hsize hpage (k := k)
    hopen hk
  unfold accepted
  rw [collectPages_eq_iff hsize ?_ (by rw [List.length_drop]; omega)]
  · constructor
    · rintro ⟨hreplaces, heven⟩
      refine ⟨fun hzero => by omega, heven, ?_⟩
      intro hsize2 hlength k hopen c hsingle
      have hk : k * size < ((s.candidates f).drop ((page - 1) * size)).length := by
        by_contra hge
        rw [(blockAt_eq_nil hsize).2 (by omega)] at hsingle
        simp at hsingle
      exact (hpages k hopen (by omega)).1 (hreplaces k hopen (by omega)) hsize2 hlength c hsingle
    · rintro ⟨-, heven, halone⟩
      refine ⟨fun k hopen hk => (hpages k hopen hk).2 ?_, heven⟩
      exact fun hsize2 hlength => halone hsize2 hlength k hopen
  · intro k hopen hk
    by_cases hreplaces : Replaces (fun c => (elementFilter c).use) (fun c => (elementFilter c).stop)
        ((s.mTransactionsIndex.findPage f size (page + k)).filterMap s.mConfirmedTxByNr)
        (blockAt ((s.candidates f).drop ((page - 1) * size)) size k)
    · exact .inl hreplaces
    · right
      rw [hpages k hopen hk] at hreplaces
      simp only [not_forall] at hreplaces
      obtain ⟨hsize2, hne, c, hc, huse, hstop⟩ := hreplaces
      have hlast : ((s.candidates f).drop ((page - 1) * size)).length ≤ (k + 1) * size := by
        have hlength := congrArg List.length hc
        rw [blockAt, List.length_take, List.length_drop, List.length_singleton] at hlength
        rw [Nat.add_mul, Nat.one_mul]
        omega
      rw [hfits.page_eq elementFilter hknown hsize hpage hopen hk,
        if_pos ⟨hsize2, hne, by rw [hc]; rfl⟩, hopen.taken_of_last hlast, hc, List.singleton_append,
        taken_cons c [c], if_pos huse, if_neg hstop]
      simp only [List.length_append, List.length_singleton]
      omega

/-- Page zero comes before page one and is the same. -/
theorem FitsPages.collectPages_zero_iff (elementFilter : ConfirmedGradidoTx → FilterResult)
    (hknown : ∀ n ∈ s.mTransactionsIndex.findPage f 0 0, ∃ c, s.mConfirmedTxByNr n = some c)
    (hnodup : (s.candidates f).Nodup) {size bound : ℕ} (hsize : 1 ≤ size)
    (hfits : FitsPages elementFilter (s.candidates f) size 0)
    (hbound : (s.candidates f).length ≤ bound) :
    collectPages (fun c => (elementFilter c).use) (fun c => (elementFilter c).stop)
        (fun page => (s.mTransactionsIndex.findPage f size page).filterMap s.mConfirmedTxByNr)
        size (bound + 2) 0 [] = (accepted elementFilter (s.candidates f)).take size ↔
    FillsPages elementFilter (s.candidates f) size 0 := by
  have hone : FitsPages elementFilter (s.candidates f) size 1 := by
    simpa [FitsPages] using hfits
  have hfrom := hone.collectPages_iff elementFilter hknown hsize le_rfl (Nat.lt_succ_of_le hbound)
  have hreplaces := hone.replaces_iff elementFilter hknown hsize le_rfl (k := 0)
    ⟨by simp, by simp; omega⟩ (by omega)
  simp only [Nat.sub_self, Nat.zero_mul, List.drop_zero, Nat.add_zero] at hfrom hreplaces
  have halone : ∀ {page : ℕ}, page ≤ 1 → FillsPages elementFilter (s.candidates f) size page →
      Replaces (fun c => (elementFilter c).use) (fun c => (elementFilter c).stop)
        ((s.mTransactionsIndex.findPage f size 1).filterMap s.mConfirmedTxByNr)
        (blockAt (s.candidates f) size 0) := by
    intro page hle hfill
    refine hreplaces.2 (fun hsize2 hne => ?_)
    have hlone := hfill.alone hsize2 hne 0 ⟨by simp, by simp; omega⟩
    rwa [Nat.sub_eq_zero_of_le hle, Nat.zero_mul, List.drop_zero] at hlone
  by_cases hpassed :
    Passed (fun c => (elementFilter c).use) (fun c => (elementFilter c).stop) size
      ((s.mTransactionsIndex.findPage f size 1).filterMap s.mConfirmedTxByNr)
  · rw [collectPages_zero (by rw [TransactionsIndex.findPage_zero]) hpassed, hfrom]
    constructor
    · intro hfill
      exact ⟨fun _ => (halone le_rfl hfill).passed_iff.1 hpassed, by simpa using hfill.even,
        by simpa using hfill.alone⟩
    · intro hfill
      exact ⟨by simp, by simpa using hfill.even, by simpa using hfill.alone⟩
  · refine iff_of_false ?_ ?_
    · -- what page zero brings would be in the result twice
      intro heq
      have hpages : (s.mTransactionsIndex.findPage f size 0).filterMap s.mConfirmedTxByNr =
          (s.mTransactionsIndex.findPage f size 1).filterMap s.mConfirmedTxByNr := by
        rw [TransactionsIndex.findPage_zero]
      have htwice := @collectPages_zero_twice _ _ _ _ (fun page =>
          (s.mTransactionsIndex.findPage f size page).filterMap s.mConfirmedTxByNr)
        hpages hsize hpassed bound
      rw [heq] at htwice
      have hdistinct := hnodup.sublist (htwice.sublist.trans
        ((List.take_sublist _ _).trans (taken_sublist _)))
      refine hpassed (.inl (List.eq_nil_iff_forall_not_mem.2 (fun c hc => ?_)))
      exact (List.nodup_append.1 hdistinct).2.2 c hc c hc rfl
    · intro hfill
      exact hpassed ((halone (Nat.zero_le 1) hfill).passed_iff.2 (hfill.first rfl))

/-- **Elements from pages.** -/
theorem findAllElements_iff (elementFilter : ConfirmedGradidoTx → FilterResult)
    (hknown : ∀ n ∈ s.mTransactionsIndex.findPage f 0 0, ∃ c, s.mConfirmedTxByNr n = some c)
    (hcount : (s.candidates f).length ≤ s.mTransactionsIndex.mMaxTransactionNr)
    (hnodup : (s.candidates f).Nodup)
    (hfits : f.pagination.size ≠ 0 →
      FitsPages elementFilter (s.candidates f) f.pagination.size f.pagination.page) :
    s.findAllElements f elementFilter = .ok (s.expectedElements f elementFilter) ↔
      (f.pagination.size ≠ 0 →
        FillsPages elementFilter (s.candidates f) f.pagination.size f.pagination.page) := by
  unfold findAllElements
  rw [findAllPages_eq elementFilter (fun page => (s.mTransactionsIndex.findPage f
      f.pagination.size page).filterMap s.mConfirmedTxByNr)
    (fun page => map_eq_of_known (fun n hn => hknown n (TransactionsIndex.mem_findPage hn))),
    Except.ok.injEq]
  unfold expectedElements
  generalize f.pagination.size = size at *
  generalize f.pagination.page = page at *
  rcases Nat.eq_zero_or_pos size with rfl | hsize
  · -- without pages there is one round
    refine iff_of_true ?_ (fun h => absurd rfl h)
    rw [collectPages]
    simp only [TransactionsIndex.findPage_size_zero, true_or, if_true, Nat.mul_zero,
      List.drop_zero, List.nil_append]
    change (if s.candidates f = [] then [] else accepted elementFilter (s.candidates f)) = _
    split_ifs with hnil
    · rw [hnil]
      rfl
    · rfl
  have hfits := hfits hsize.ne'
  rw [if_neg hsize.ne', imp_iff_right hsize.ne']
  rcases Nat.eq_zero_or_pos page with rfl | hpage
  · simp only [Nat.zero_sub, Nat.zero_mul, List.drop_zero]
    exact hfits.collectPages_zero_iff elementFilter hknown hnodup hsize (by omega)
  · exact hfits.collectPages_iff elementFilter hknown hsize hpage (by omega)

theorem nodup_expectedElements (hnodup : (s.candidates f).Nodup)
    (elementFilter : ConfirmedGradidoTx → FilterResult) :
    (s.expectedElements f elementFilter).Nodup := by
  have haccepted : (accepted elementFilter
      ((s.candidates f).drop ((f.pagination.page - 1) * f.pagination.size))).Nodup :=
    hnodup.sublist ((taken_sublist _).trans (List.drop_sublist _ _))
  unfold expectedElements
  dsimp only
  split_ifs
  · exact haccepted
  · exact haccepted.sublist (List.take_sublist _ _)

end Elements

end InMemory

/-! ### Chains -/

theorem IndexedBy.of_byNr {env : Env} {own : ℕ} {s : InMemory} {cs : List ConfirmedGradidoTx}
    (h : IndexedBy env own s cs) {n : ℕ} {c : ConfirmedGradidoTx}
    (hc : s.mConfirmedTxByNr n = some c) : c ∈ cs ∧ c.txNr = n := by
  cases n with
  | zero => simp [h.byNr_zero] at hc
  | succ k =>
    rw [h.byNr] at hc
    exact ⟨List.mem_of_getElem? hc, h.index.txNr k c hc⟩

/-- The candidates of an indexed log are distinct, and not more than the log has transactions. -/
theorem IndexedBy.candidates {env : Env} {own : ℕ} {s : InMemory} {cs : List ConfirmedGradidoTx}
    (h : IndexedBy env own s cs) (f : CompactFilter) :
    (s.candidates f).Nodup ∧
      (s.candidates f).length ≤ s.mTransactionsIndex.mMaxTransactionNr := by
  obtain ⟨b, hb⟩ := s.mTransactionsIndex.exists_findPage f
  have hnodup : (s.candidates f).Nodup := by
    unfold InMemory.candidates
    rw [hb, TransactionsIndex.pageOf_size_zero]
    refine (TransactionsIndex.nodup_inDirection _ b).filterMap ?_
    intro n n' c hn hn'
    rw [← (h.of_byNr hn).2, ← (h.of_byNr hn').2]
  refine ⟨hnodup, ?_⟩
  rw [h.index.dates.maxNr]
  refine (List.subperm_of_subset hnodup (fun c hc => ?_)).length_le
  obtain ⟨n, -, hn⟩ := List.mem_filterMap.1 hc
  exact (h.of_byNr hn).1

namespace ConfirmTransaction

/-- **The empty key** is never indexed. -/
theorem Reachable.emptyKey {env : Env} {direct : ℕ → Role → Prop} {p : InMemoryProvider}
    (h : Reachable env direct p) : ∀ i, ∀ k : PublicKeyIndex, k.empty = true →
      (p.findBlockchain i).mTransactionsIndex.mInvolvedPublicKeys k = none := by
  refine h.chain_invariant (P := fun p => ∀ i, ∀ k : PublicKeyIndex, k.empty = true →
    (p.findBlockchain i).mTransactionsIndex.mInvolvedPublicKeys k = none) ?_ ?_ ?_
  · intro i k _
    rfl
  · intro community endDate event p _ hp _ i k hk
    by_cases hi : i = community
    · subst hi
      rw [findBlockchain_dropEvent]
      exact hp i k hk
    · rw [findBlockchain_dropEvent_of_ne _ _ hi]
      exact hp i k hk
  · intro community role p q tx _ _ _ hq _ _ _ _ i k hk
    by_cases hi : i = community
    · subst hi
      rw [findBlockchain_added, InMemory.addToBlockchain_mTransactionsIndex,
        InMemory.pushTransactionEntry]
      unfold InMemory.pushCompact
      dsimp only
      split
      · exact hq i k hk
      · next compactTx _ =>
        have hadded := @TransactionsIndex.addTransactionIndices_emptyKey env _ compactTx (hq i) k hk
        split
        · next idx _ hidx =>
          rw [hidx] at hadded
          exact hadded
        · next idx hidx =>
          rw [hidx] at hadded
          exact hadded
    · rw [findBlockchain_added_of_ne _ _ _ hi]
      exact hq i k hk

end ConfirmTransaction

namespace Sample

/-- An element filter that accepts one number. -/
def only (nr : ℕ) (c : ConfirmedGradidoTx) : FilterResult :=
  if c.txNr = nr then .USE else .DISMISS

end Sample

end Gradido
