import GradidoBlockchain.Blockchain.MonthIndex
import GradidoBlockchain.Lib.Paging
import Mathlib.Data.List.Basic

/-!
# Ranges in search order

`iterateRangeInOrder` calls a function for the elements of a range until it
returns `false`; `iterateRangeInOrderCollectFiltered` is the call with a function
that skips the entries before the page, fills the page and ends with it or with
an element that stops.  The entries are counted by a signed number of 32 bits,
which must not be counted over its largest value.
-/

namespace Gradido

open Checked Paging

/-- The loop of `iterateRangeInOrder`, for a range in the order of the search.  The callback has a
state of its own and says whether to go on; it returns nothing where its behaviour is undefined. -/
def iterateRange {α σ : Type} (callback : σ → α → Option (σ × Bool)) : List α → σ → Option σ
  | [], s => some s
  | a :: range, s =>
    match callback s a with
    | none => none
    | some (s, false) => some s
    | some (s, true) => iterateRange callback range s

/-- `iterateRangeInOrder`. -/
def iterateRangeInOrder {α σ : Type} (range : List α) (searchDirection : SearchDirection)
    (callback : σ → α → Option (σ × Bool)) (s : σ) : Option σ :=
  match searchDirection with
  | .asc => iterateRange callback range s
  | .desc => iterateRange callback range.reverse s

/-- The callback of `iterateRangeInOrderCollectFiltered`, with `results` and `paginationCursor`. -/
def collectEntity {α β : Type} (pagination : Pagination) (filterFunction : α → β × FilterResult)
    (s : List β × ℕ) (a : α) : Option ((List β × ℕ) × Bool) :=
  let (results, paginationCursor) := s
  let (entity, filterResult) := filterFunction a
  if filterResult.use then
    let results :=
      if pagination.skipEntriesCount ≤ paginationCursor then results ++ [entity] else results
    if pagination.skipEntriesCount ≤ paginationCursor ∧
        pagination.hasCapacityLeft results.length = false then
      some ((results, paginationCursor), false)
    -- the increment of the largest value is undefined
    else if paginationCursor = intMax then none
    else some ((results, paginationCursor + 1), !filterResult.stop)
  else some ((results, paginationCursor), !filterResult.stop)

/-- `iterateRangeInOrderCollectFiltered`. -/
def iterateRangeInOrderCollectFiltered {α β : Type} (range : List α) (f : CompactFilter)
    (filterFunction : α → β × FilterResult) : Option (List β) :=
  (iterateRangeInOrder range f.searchDirection (collectEntity f.pagination filterFunction)
    ([], 0)).map Prod.fst

/-- The page of a list. -/
def Pagination.pageOf {β : Type} (p : Pagination) (l : List β) : List β :=
  let rest := l.drop p.skipEntriesCount
  if p.size = 0 then rest else rest.take p.size

/-- What a filter function uses of a range, in the order of a search and up to the first element
that stops it. -/
def usedInOrder {α β : Type} (range : List α) (searchDirection : SearchDirection)
    (filterFunction : α → β × FilterResult) : List β :=
  (taken (fun a => (filterFunction a).2.use) (fun a => (filterFunction a).2.stop)
    (match searchDirection with
      | .asc => range
      | .desc => range.reverse)).map (fun a => (filterFunction a).1)

/-- The increments of the counter stay in its range. -/
def CountFits (p : Pagination) (count length : ℕ) : Prop :=
  (p.size ≠ 0 ∧ p.skipEntriesCount + p.size ≤ intMax + 1) ∨ count + length ≤ intMax

instance (p : Pagination) (count length : ℕ) : Decidable (CountFits p count length) :=
  inferInstanceAs (Decidable (_ ∨ _))

/-- What the rest of a range adds to the page when some elements have been counted. -/
def restOfPage {β : Type} (p : Pagination) (count : ℕ) (l : List β) : List β :=
  (if p.size = 0 then l else l.take (p.skipEntriesCount + p.size - count)).drop
    (p.skipEntriesCount - count)

section Collect

variable {α β : Type} {p : Pagination} {filterFunction : α → β × FilterResult}
variable {results : List β} {count : ℕ} {a : α}

theorem hasCapacityLeft_eq_false {n : ℕ} :
    p.hasCapacityLeft n = false ↔ p.size ≠ 0 ∧ p.size ≤ n := by
  simp [Pagination.hasCapacityLeft]

@[simp] theorem restOfPage_nil : restOfPage p count ([] : List β) = [] := by simp [restOfPage]

theorem restOfPage_zero (l : List β) : restOfPage p 0 l = p.pageOf l := by
  unfold restOfPage Pagination.pageOf
  split_ifs with hsize
  · rfl
  · rw [Nat.sub_zero, Nat.sub_zero, List.drop_take, Nat.add_sub_cancel_left]

/-- An element before the page is not taken. -/
theorem restOfPage_cons_of_lt (b : β) (l : List β) (h : count < p.skipEntriesCount) :
    restOfPage p count (b :: l) = restOfPage p (count + 1) l := by
  unfold restOfPage
  have hdrop : p.skipEntriesCount - count = p.skipEntriesCount - (count + 1) + 1 := by omega
  have htake : p.skipEntriesCount + p.size - count =
      p.skipEntriesCount + p.size - (count + 1) + 1 := by omega
  rw [hdrop, htake]
  split_ifs
  · rfl
  · rfl

/-- An element of the page is taken. -/
theorem restOfPage_cons_of_le (b : β) (l : List β) (h : p.skipEntriesCount ≤ count)
    (hroom : p.size = 0 ∨ count < p.skipEntriesCount + p.size) :
    restOfPage p count (b :: l) = b :: restOfPage p (count + 1) l := by
  unfold restOfPage
  have hdrop : p.skipEntriesCount - count = 0 := by omega
  have hdrop' : p.skipEntriesCount - (count + 1) = 0 := by omega
  rw [hdrop, hdrop', List.drop_zero, List.drop_zero]
  split_ifs with hsize
  · rfl
  · have htake : p.skipEntriesCount + p.size - count =
        p.skipEntriesCount + p.size - (count + 1) + 1 := by omega
    rw [htake, List.take_succ_cons]

/-- The page is full. -/
theorem restOfPage_of_full (l : List β) (hsize : p.size ≠ 0)
    (hfull : p.skipEntriesCount + p.size ≤ count) : restOfPage p count l = [] := by
  rw [restOfPage, if_neg hsize, Nat.sub_eq_zero_of_le hfull, List.take_zero, List.drop_nil]

theorem collectEntity_of_not_use (huse : (filterFunction a).2.use = false) :
    collectEntity p filterFunction (results, count) a =
      some ((results, count), !(filterFunction a).2.stop) := by
  simp [collectEntity, huse]

/-- The element that fills the page ends the loop. -/
theorem collectEntity_full (huse : (filterFunction a).2.use = true)
    (hskip : p.skipEntriesCount ≤ count)
    (hfull : p.hasCapacityLeft (results.length + 1) = false) :
    collectEntity p filterFunction (results, count) a =
      some ((results ++ [(filterFunction a).1], count), false) := by
  simp [collectEntity, huse, hskip, hfull]

/-- Behind another element the counter is incremented. -/
theorem collectEntity_next (huse : (filterFunction a).2.use = true)
    (hnext : p.skipEntriesCount ≤ count → p.hasCapacityLeft (results.length + 1) = true) :
    collectEntity p filterFunction (results, count) a =
      if count = intMax then none
      else some ((if p.skipEntriesCount ≤ count then results ++ [(filterFunction a).1]
        else results, count + 1), !(filterFunction a).2.stop) := by
  unfold collectEntity
  simp only [huse, if_true]
  by_cases hskip : p.skipEntriesCount ≤ count
  · simp [hskip, hnext hskip]
  · simp [hskip]

theorem usedInOrder_cons (a : α) (l : List α) (filterFunction : α → β × FilterResult) :
    usedInOrder (a :: l) .asc filterFunction =
      (if (filterFunction a).2.use then [(filterFunction a).1] else []) ++
        (if (filterFunction a).2.stop then [] else usedInOrder l .asc filterFunction) := by
  unfold usedInOrder
  rw [taken_cons]
  split_ifs <;> simp

/-- An element that does not fill the page leaves room for another one. -/
theorem room_succ (hresults : results.length = count - p.skipEntriesCount)
    (hnext : p.skipEntriesCount ≤ count → p.hasCapacityLeft (results.length + 1) = true) :
    p.size = 0 ∨ count + 1 < p.skipEntriesCount + p.size := by
  by_contra hnone
  have hcapacity := hnext (by omega)
  simp only [Pagination.hasCapacityLeft, Bool.or_eq_true, decide_eq_true_eq] at hcapacity
  omega

/-- What is appended for an element and what is left make the page. -/
theorem collected_append_restOfPage (hroom : p.size = 0 ∨ count < p.skipEntriesCount + p.size)
    (results : List β) (b : β) (rest : List β) :
    (if p.skipEntriesCount ≤ count then results ++ [b] else results) ++
      restOfPage p (count + 1) rest = results ++ restOfPage p count (b :: rest) := by
  split_ifs with hskip
  · rw [restOfPage_cons_of_le _ _ hskip hroom, List.append_assoc, List.singleton_append]
  · rw [restOfPage_cons_of_lt _ _ (by omega)]

/-- The loop, from a state in which `count` elements have been counted, of which those behind the
skipped ones are in `results`, and the page is not full. -/
theorem iterateRange_collectEntity (l : List α) (hcount : count ≤ intMax)
    (hroom : p.size = 0 ∨ count < p.skipEntriesCount + p.size)
    (hresults : results.length = count - p.skipEntriesCount) :
    (iterateRange (collectEntity p filterFunction) l (results, count)).map Prod.fst =
      if CountFits p count (usedInOrder l .asc filterFunction).length then
        some (results ++ restOfPage p count (usedInOrder l .asc filterFunction))
      else none := by
  induction l generalizing results count with
  | nil => simp [iterateRange, usedInOrder, CountFits, hcount]
  | cons a l ih =>
    have hused := usedInOrder_cons a l filterFunction
    cases huse : (filterFunction a).2.use with
    | false =>
      rw [iterateRange, collectEntity_of_not_use huse, hused, huse]
      cases hstop : (filterFunction a).2.stop with
      | true => simp [CountFits, hcount]
      | false => simpa using ih hcount hroom hresults
    | true =>
      rw [iterateRange, hused, huse, if_pos rfl, List.singleton_append]
      by_cases hfull : p.skipEntriesCount ≤ count ∧ p.hasCapacityLeft (results.length + 1) = false
      · obtain ⟨hskip, hfull⟩ := hfull
        rw [collectEntity_full huse hskip hfull]
        obtain ⟨hsize, hlength⟩ := hasCapacityLeft_eq_false.1 hfull
        have hlast : p.skipEntriesCount + p.size = count + 1 := by omega
        rw [if_pos (.inl ⟨hsize, by omega⟩), restOfPage_cons_of_le _ _ hskip hroom,
          restOfPage_of_full _ hsize (by omega)]
        rfl
      · have hnext : p.skipEntriesCount ≤ count →
            p.hasCapacityLeft (results.length + 1) = true := by
          intro hskip
          rw [not_and, Bool.not_eq_false] at hfull
          exact hfull hskip
        have hroom' := room_succ hresults hnext
        rw [collectEntity_next huse hnext]
        by_cases hmax : count = intMax
        · rw [if_pos hmax, if_neg]
          · rfl
          · rintro (⟨hsize, hfits⟩ | hfits)
            · omega
            · rw [List.length_cons] at hfits
              omega
        rw [if_neg hmax]
        have hpage := collected_append_restOfPage hroom results (filterFunction a).1
        cases hstop : (filterFunction a).2.stop with
        | true =>
          have hlast := hpage []
          rw [restOfPage_nil, List.append_nil] at hlast
          have hfits : CountFits p count [(filterFunction a).1].length :=
            .inr (by rw [List.length_singleton]; omega)
          simp only [Bool.not_true, if_true, if_pos hfits, ← hlast]
          rfl
        | false =>
          have hfits : CountFits p (count + 1) (usedInOrder l .asc filterFunction).length ↔
              CountFits p count
                ((filterFunction a).1 :: usedInOrder l .asc filterFunction).length := by
            unfold CountFits
            rw [List.length_cons]
            omega
          have hresults' : (if p.skipEntriesCount ≤ count then results ++ [(filterFunction a).1]
              else results).length = count + 1 - p.skipEntriesCount := by
            split_ifs
            · rw [List.length_append, List.length_singleton]
              omega
            · omega
          have hrest := ih (by omega) hroom' hresults'
          rw [hpage] at hrest
          simpa only [hfits, Bool.not_false, Bool.false_eq_true, if_false] using hrest

end Collect

/-- The page of what the filter function uses, or nothing when the counter leaves its range. -/
theorem iterateRangeInOrderCollectFiltered_eq {α β : Type} (range : List α) (f : CompactFilter)
    (filterFunction : α → β × FilterResult) :
    iterateRangeInOrderCollectFiltered range f filterFunction =
      if CountFits f.pagination 0 (usedInOrder range f.searchDirection filterFunction).length then
        some (f.pagination.pageOf (usedInOrder range f.searchDirection filterFunction))
      else none := by
  have hloop : ∀ l : List α, (iterateRange (collectEntity f.pagination filterFunction) l
      ([], 0)).map Prod.fst = if CountFits f.pagination 0 (usedInOrder l .asc filterFunction).length
        then some (f.pagination.pageOf (usedInOrder l .asc filterFunction)) else none := by
    intro l
    rw [iterateRange_collectEntity l (Nat.zero_le _) (by omega) (by simp), restOfPage_zero]
    rfl
  unfold iterateRangeInOrderCollectFiltered iterateRangeInOrder
  cases f.searchDirection with
  | asc => exact hloop range
  | desc => exact hloop range.reverse

theorem collectFiltered_of_loop {α : Type} {l : List α} {f : CompactFilter}
    {filterFunction : α → ℕ × FilterResult} {s s' : List ℕ × ℕ}
    (h : iterateRange (collectEntity f.pagination filterFunction) l s = some s') :
    ByMonth.TransactionsIndex.collectFiltered f filterFunction l s = s'.1 := by
  induction l generalizing s with
  | nil =>
    cases h
    rfl
  | cons a l ih =>
    obtain ⟨results, count⟩ := s
    rw [iterateRange] at h
    unfold ByMonth.TransactionsIndex.collectFiltered
    cases huse : (filterFunction a).2.use with
    | false =>
      rw [collectEntity_of_not_use huse] at h
      cases hstop : (filterFunction a).2.stop with
      | true => simp_all
      | false => simp_all
    | true =>
      by_cases hfull : f.pagination.skipEntriesCount ≤ count ∧
          f.pagination.hasCapacityLeft (results.length + 1) = false
      · rw [collectEntity_full huse hfull.1 hfull.2] at h
        cases h
        simp [huse, hfull.1, hfull.2]
      · have hnext : f.pagination.skipEntriesCount ≤ count →
            f.pagination.hasCapacityLeft (results.length + 1) = true := by
          intro hskip
          rw [not_and, Bool.not_eq_false] at hfull
          exact hfull hskip
        rw [collectEntity_next huse hnext] at h
        by_cases hmax : count = intMax
        · simp [hmax] at h
        rw [if_neg hmax] at h
        have hopen : (decide (f.pagination.skipEntriesCount ≤ count) &&
            !f.pagination.hasCapacityLeft (results.length + 1)) = false := by
          by_cases hskip : f.pagination.skipEntriesCount ≤ count
          · simp [hnext hskip]
          · simp [hskip]
        cases hstop : (filterFunction a).2.stop with
        | true => simp_all
        | false => simp_all

/-- The list of the search by months is the same, where it is defined. -/
theorem collectFiltered_of_iterate {α : Type} {range : List α} {f : CompactFilter}
    {filterFunction : α → ℕ × FilterResult} {l : List ℕ}
    (h : iterateRangeInOrderCollectFiltered range f filterFunction = some l) :
    ByMonth.TransactionsIndex.collectFiltered f filterFunction (ByMonth.inDirection f range)
      ([], 0) = l := by
  obtain ⟨s', hloop, hresult⟩ := Option.map_eq_some_iff.1 h
  rw [← hresult]
  unfold iterateRangeInOrder at hloop
  unfold ByMonth.inDirection
  cases hdirection : f.searchDirection with
  | asc =>
    rw [hdirection] at hloop
    exact collectFiltered_of_loop hloop
  | desc =>
    rw [hdirection] at hloop
    exact collectFiltered_of_loop hloop

/-- The loop collects the page of what the filter function uses exactly when the counter stays in
its range: when fewer than `2 ^ 31` elements are used, or the page ends before there are as many. -/
theorem collectsPage_iff {α β : Type} (range : List α) (f : CompactFilter)
    (filterFunction : α → β × FilterResult) :
    iterateRangeInOrderCollectFiltered range f filterFunction =
        some (f.pagination.pageOf (usedInOrder range f.searchDirection filterFunction)) ↔
      (usedInOrder range f.searchDirection filterFunction).length < 2 ^ 31 ∨
        (f.pagination.size ≠ 0 ∧
          f.pagination.skipEntriesCount + f.pagination.size ≤ 2 ^ 31) := by
  have hfits : ∀ n, CountFits f.pagination 0 n ↔ n < 2 ^ 31 ∨ (f.pagination.size ≠ 0 ∧
      f.pagination.skipEntriesCount + f.pagination.size ≤ 2 ^ 31) := by
    intro n
    unfold CountFits intMax
    omega
  rw [iterateRangeInOrderCollectFiltered_eq, ← hfits]
  split_ifs with h
  · exact iff_of_true rfl h
  · exact iff_of_false (by simp) h

/-- A range of which every element is used. -/
theorem usedInOrder_all {α : Type} (range : List α) :
    usedInOrder range .asc (fun a => (a, FilterResult.USE)) = range := by
  induction range with
  | nil => rfl
  | cons a range ih =>
    unfold usedInOrder at ih ⊢
    rw [taken_cons]
    simpa [FilterResult.USE] using ih

/-- Elements without end: the counter passes its largest value with the last one. -/
theorem longRange_not_collected :
    iterateRangeInOrderCollectFiltered (List.replicate (2 ^ 31) ())
        { searchDirection := .asc } (fun a => (a, .USE)) ≠
      some ((⟨0, 0⟩ : Pagination).pageOf
        (usedInOrder (List.replicate (2 ^ 31) ()) .asc (fun a => (a, .USE)))) := by
  rw [iterateRangeInOrderCollectFiltered_eq, if_neg]
  · exact (Option.some_ne_none _).symm
  · rw [usedInOrder_all, List.length_replicate]
    decide

end Gradido
