import GradidoBlockchain.Index.Search
import GradidoBlockchain.System

/-!
# Pages

How `findTransactions` cuts a page out of a result.  With page size `s`, page
`p` should be the `p`-th block of `s` numbers.  Two things get in the way: the
number of skipped entries is a product of 32-bit numbers, and a page of two
always gets two numbers, also when only one is left.  `findPage_law` says
exactly when a page is right, and that right pages, one after the other, give
the whole result.
-/

namespace Gradido

namespace TransactionsIndex

/-! ### Blocks -/

/-- A result in search direction. -/
def inDirection (direction : SearchDirection) (resultSet : Bitmap) : List ℕ :=
  match direction with
  | .desc => resultSet.toList.reverse
  | .asc => resultSet.toList

@[simp] theorem length_inDirection (direction : SearchDirection) (b : Bitmap) :
    (inDirection direction b).length = b.cardinality := by
  cases direction <;> simp [inDirection, Bitmap.cardinality]

theorem nodup_inDirection (direction : SearchDirection) (b : Bitmap) :
    (inDirection direction b).Nodup := by
  have h : b.toList.Nodup := b.sorted.imp Nat.ne_of_lt
  cases direction with
  | asc => exact h
  | desc => exact List.nodup_reverse.2 h

/-- The `page`-th block of `size` elements of a list, counted from one. -/
def block {α : Type} (l : List α) (size page : ℕ) : List α :=
  (l.drop ((page - 1) * size)).take size

/-- The last of several numbers stands alone on a page of two, or on a page of a result of two. -/
def Lonely (n size skip : ℕ) : Prop :=
  n = skip + 1 ∧ n ≠ 1 ∧ size ≠ 1 ∧ (size = 2 ∨ n = 2)

instance {n size skip : ℕ} : Decidable (Lonely n size skip) :=
  inferInstanceAs (Decidable (_ ∧ _))

section Page

variable {f : CompactFilter} {b : Bitmap}

/-- Searched from the start, a page begins after the skipped numbers. -/
theorem page_asc (hdirection : f.searchDirection = .asc) (hsize : 1 ≤ f.pagination.size)
    (hskip : f.pagination.skipEntriesCount < b.cardinality)
    (hlonely : ¬ Lonely b.cardinality f.pagination.size f.pagination.skipEntriesCount) :
    page f b = ((inDirection .asc b).drop f.pagination.skipEntriesCount).take
      f.pagination.size := by
  unfold page inDirection
  rw [hdirection]
  unfold Lonely at hlonely
  generalize f.pagination.skipEntriesCount = skip at *
  generalize f.pagination.size = size at *
  unfold Bitmap.cardinality at *
  have hstart := List.getElem?_eq_getElem hskip
  have hcons := List.drop_eq_getElem_cons hskip
  simp only [Bitmap.select, hstart, Option.getD_some]
  split_ifs with hone htwo
  · -- one number, or a page of one
    have htake : (b.toList.drop skip).take size = (b.toList.drop skip).take 1 := by
      rcases hone with rfl | hone
      · rfl
      · rw [List.take_of_length_le (by simp; omega), List.take_of_length_le (by simp; omega)]
    rw [htake, hcons, List.take_succ_cons, List.take_zero]
  · have hnext : skip + 1 < b.toList.length := by
      omega
    have hend : b.toList[skip + size - 1]?.getD b.maximum = b.toList[skip + 1] := by
      rcases htwo with rfl | htwo
      · rw [show skip + 2 - 1 = skip + 1 by omega, List.getElem?_eq_getElem hnext,
          Option.getD_some]
      · rcases Nat.lt_or_eq_of_le (show 2 ≤ size by omega) with hlarge | rfl
        · rw [List.getElem?_eq_none (by omega), Option.getD_none, Bitmap.maximum,
            List.getLastD_eq_getLast?, List.getLast?_eq_getElem?]
          rw [show b.toList.length - 1 = skip + 1 by omega, List.getElem?_eq_getElem hnext]
          rfl
        · rw [show skip + 2 - 1 = skip + 1 by omega, List.getElem?_eq_getElem hnext,
            Option.getD_some]
    have htake : (b.toList.drop skip).take size = (b.toList.drop skip).take 2 := by
      rcases htwo with rfl | htwo
      · rfl
      · rw [List.take_of_length_le (by simp; omega), List.take_of_length_le (by simp; omega)]
    rw [hend, htake, hcons, List.take_succ_cons, List.drop_eq_getElem_cons hnext,
      List.take_succ_cons, List.take_zero]
  · rcases Nat.lt_or_ge (skip + size - 1) b.toList.length with hfull | hpartial
    · have hend := List.getElem?_eq_getElem hfull
      rw [hend, Option.getD_some, Bitmap.toList_inter_rangeClosed (by omega) hstart hend]
      rw [show skip + size - 1 + 1 - skip = size by omega]
    · have hmax : b.toList[b.toList.length - 1]? = some b.maximum := by
        rw [Bitmap.maximum, List.getLastD_eq_getLast?, ← List.getLast?_eq_getElem?]
        cases hlast : b.toList.getLast? with
        | none => simp [List.getLast?_eq_none_iff.1 hlast] at hskip
        | some n => rfl
      rw [List.getElem?_eq_none hpartial, Option.getD_none,
        Bitmap.toList_inter_rangeClosed (by omega) hstart hmax]
      rw [List.take_of_length_le (by simp; omega), List.take_of_length_le (by simp; omega)]

/-- Searched from the end, a page ends before the skipped numbers. -/
theorem page_desc (hdirection : f.searchDirection = .desc) (hsize : 1 ≤ f.pagination.size)
    (hskip : f.pagination.skipEntriesCount < b.cardinality)
    (hlonely : ¬ Lonely b.cardinality f.pagination.size f.pagination.skipEntriesCount) :
    page f b = ((inDirection .desc b).drop f.pagination.skipEntriesCount).take
      f.pagination.size := by
  unfold page inDirection
  rw [hdirection]
  unfold Lonely at hlonely
  generalize f.pagination.skipEntriesCount = skip at *
  generalize f.pagination.size = size at *
  unfold Bitmap.cardinality at *
  have hend : b.toList[b.toList.length - skip - 1]? =
      some (b.toList[b.toList.length - skip - 1]) :=
    List.getElem?_eq_getElem (by omega)
  have hlength : (b.toList.take (b.toList.length - skip)).length = b.toList.length - skip := by
    simp
  dsimp only [Bitmap.select]
  rw [List.drop_reverse, List.take_reverse, hlength, hend, Option.getD_some, List.drop_take]
  generalize hlast : b.toList[b.toList.length - skip - 1] = last at *
  -- the page starts at rank `first`
  obtain ⟨first, hfirst⟩ : ∃ first, first = b.toList.length - skip - size := ⟨_, rfl⟩
  rw [← hfirst]
  have hstart : (if b.toList.length ≤ skip + size then b.minimum
      else b.toList[first]?.getD 0) = b.toList[first] := by
    split_ifs with hmin
    · have hzero : first = 0 := by omega
      subst hzero
      rw [Bitmap.minimum, List.headD_eq_head?_getD, List.head?_eq_getElem?,
        List.getElem?_eq_getElem (by omega)]
      rfl
    · rw [List.getElem?_eq_getElem (by omega)]
      rfl
  have hcons := List.drop_eq_getElem_cons (show first < b.toList.length by omega)
  rw [hstart]
  split_ifs with hone htwo
  · have hrank : first = b.toList.length - skip - 1 := by omega
    have hrest : b.toList.length - skip - first = 1 := by omega
    rw [hrest, hcons, List.take_succ_cons, List.take_zero, List.reverse_singleton, ← hlast]
    simp only [hrank]
  · have hrank : first + 1 = b.toList.length - skip - 1 := by omega
    have hrest : b.toList.length - skip - first = 2 := by omega
    rw [hrest, hcons, List.take_succ_cons,
      List.drop_eq_getElem_cons (show first + 1 < b.toList.length by omega), List.take_succ_cons,
      List.take_zero, ← hlast]
    simp only [hrank]
    rfl
  · rw [Bitmap.toList_inter_rangeClosed (by omega) (List.getElem?_eq_getElem (by omega)) hend]
    rw [show b.toList.length - skip - 1 + 1 - first = b.toList.length - skip - first by omega]

theorem page_eq_drop_take (hsize : 1 ≤ f.pagination.size)
    (hskip : f.pagination.skipEntriesCount < b.cardinality)
    (hlonely : ¬ Lonely b.cardinality f.pagination.size f.pagination.skipEntriesCount) :
    page f b = ((inDirection f.searchDirection b).drop f.pagination.skipEntriesCount).take
      f.pagination.size := by
  cases hdirection : f.searchDirection with
  | asc => exact page_asc hdirection hsize hskip hlonely
  | desc => exact page_desc hdirection hsize hskip hlonely

/-- A number that stands alone is returned twice. -/
theorem length_page_of_lonely
    (hlonely : Lonely b.cardinality f.pagination.size f.pagination.skipEntriesCount) :
    (page f b).length = 2 := by
  obtain ⟨-, hn, hsize, htwo⟩ := hlonely
  unfold page
  cases f.searchDirection <;> simp [hn, hsize, htwo]

theorem head?_drop_take {α : Type} (l : List α) {size : ℕ} (hsize : 1 ≤ size) (skip : ℕ) :
    ((l.drop skip).take size).head? = l[skip]? := by
  rw [List.head?_take, if_neg (by omega), List.head?_drop]

/-- Every page begins with the number after the skipped ones. -/
theorem head?_page (hsize : 1 ≤ f.pagination.size)
    (hskip : f.pagination.skipEntriesCount < b.cardinality) :
    (page f b).head? = (inDirection f.searchDirection b)[f.pagination.skipEntriesCount]? := by
  by_cases hlonely : Lonely b.cardinality f.pagination.size f.pagination.skipEntriesCount
  · obtain ⟨-, hn, hsize', htwo⟩ := hlonely
    unfold page inDirection
    cases f.searchDirection with
    | asc =>
      simp only [hn, hsize', htwo, or_self, if_false, if_true, List.head?_cons, Bitmap.select]
      rw [List.getElem?_eq_getElem hskip, Option.getD_some]
    | desc =>
      simp only [hn, hsize', htwo, or_self, if_false, if_true, List.head?_cons, Bitmap.select]
      unfold Bitmap.cardinality at hskip ⊢
      rw [List.getElem?_reverse hskip, Nat.sub_right_comm, List.getElem?_eq_getElem (by omega),
        Option.getD_some]
  · rw [page_eq_drop_take hsize hskip hlonely, head?_drop_take _ hsize]

end Page

/-! ### The pagination law -/

/-- A page is cut at the right place: nothing is left for it and nothing is returned, or the
product of page and size fits and the page is not a page of two with one number left. -/
def CutRight (n size page : ℕ) : Prop :=
  n ≤ (page - 1) * size % 2 ^ 32 ∨
    (page - 1) * size < 2 ^ 32 ∧ ¬ (size = 2 ∧ n = (page - 1) * size + 1 ∧ n ≠ 1)

instance {n size page : ℕ} : Decidable (CutRight n size page) :=
  inferInstanceAs (Decidable (_ ∨ _))

/-- The result for a filter with other pagination. -/
def findPage (idx : TransactionsIndex) (f : CompactFilter) (size page : ℕ) : List ℕ :=
  idx.findTransactions { f with pagination := ⟨size, page⟩ }

/-- What every page is cut out of. -/
theorem exists_findPage (idx : TransactionsIndex) (f : CompactFilter) :
    ∃ b : Bitmap, ∀ size page, idx.findPage f size page =
      pageOf { f with pagination := ⟨size, page⟩ } b := by
  by_cases hempty : idx.mMinTransactionNr = 0 ∧ idx.mMaxTransactionNr = 0
  · refine ⟨.empty, fun size page => ?_⟩
    rw [findPage, findTransactions, if_pos hempty, pageOf, if_pos (.inl rfl)]
  · refine ⟨(idx.aggregateTransactions f).getD .empty, fun size page => ?_⟩
    have haggregate : idx.aggregateTransactions { f with pagination := ⟨size, page⟩ } =
        idx.aggregateTransactions f := rfl
    rw [findPage, findTransactions, if_neg hempty, haggregate]
    cases idx.aggregateTransactions f with
    | none => rfl
    | some resultSet => rfl

/-- Without pagination a result is returned as a whole. -/
theorem pageOf_of_size_zero {f : CompactFilter} (hsize : f.pagination.size = 0) (b : Bitmap) :
    pageOf f b = inDirection f.searchDirection b := by
  have hskip : f.pagination.skipEntriesCount = 0 := by
    simp [Pagination.skipEntriesCount, hsize]
  unfold pageOf inDirection
  rw [hskip]
  split_ifs with hempty hnot
  · have hnone : b = .empty := Bitmap.cardinality_eq_zero.1 (by omega)
    subst hnone
    cases f.searchDirection <;> rfl
  · exact absurd hsize hnot
  · rfl

theorem pageOf_size_zero (f : CompactFilter) (b : Bitmap) :
    pageOf { f with pagination := ⟨0, 0⟩ } b = inDirection f.searchDirection b :=
  pageOf_of_size_zero rfl b

/-- **The pagination law**, with the exact condition under which a page is the block of the
unpaginated result that it should be. -/
theorem pageOf_eq_block_iff (f : CompactFilter) (b : Bitmap) {size page : ℕ} (hsize : 1 ≤ size)
    (hpage : 1 ≤ page) :
    pageOf { f with pagination := ⟨size, page⟩ } b =
      block (inDirection f.searchDirection b) size page ↔ CutRight b.cardinality size page := by
  have hskip : (⟨size, page⟩ : Pagination).skipEntriesCount = (page - 1) * size % 2 ^ 32 := by
    simp [Pagination.skipEntriesCount, show page ≠ 0 by omega]
  have hmod := Nat.mod_le ((page - 1) * size) (2 ^ 32)
  have hlt := Nat.mod_lt ((page - 1) * size) (show 2 ^ 32 > 0 by decide)
  unfold pageOf block CutRight
  dsimp only
  rw [hskip]
  by_cases hnone : b.cardinality ≤ (page - 1) * size % 2 ^ 32
  · rw [if_pos (.inr hnone), List.drop_eq_nil_of_le (by rw [length_inDirection]; omega)]
    exact iff_of_true List.take_nil.symm (.inl hnone)
  rw [if_neg (by omega), if_pos (by omega)]
  set g : CompactFilter := { f with pagination := ⟨size, page⟩ } with hg
  have hgskip : g.pagination.skipEntriesCount = (page - 1) * size % 2 ^ 32 := hskip
  have hgsize : g.pagination.size = size := rfl
  by_cases hfits : (page - 1) * size < 2 ^ 32
  · have hmod' : (page - 1) * size % 2 ^ 32 = (page - 1) * size := Nat.mod_eq_of_lt hfits
    rw [hmod'] at hgskip hnone
    -- the number of skipped entries is a multiple of the size
    have hlonely : Lonely b.cardinality size ((page - 1) * size) ↔
        size = 2 ∧ b.cardinality = (page - 1) * size + 1 ∧ b.cardinality ≠ 1 := by
      unfold Lonely
      constructor
      · rintro ⟨hn, hn1, hsize1, rfl | hn2⟩
        · exact ⟨rfl, hn, hn1⟩
        · have hone : (page - 1) * size = 1 := by omega
          exact absurd (Nat.eq_one_of_mul_eq_one_left hone) hsize1
      · rintro ⟨rfl, hn, hn1⟩
        exact ⟨hn, hn1, by decide, .inl rfl⟩
    rw [← hlonely]
    by_cases hl : Lonely b.cardinality size ((page - 1) * size)
    · refine iff_of_false ?_ ?_
      · intro heq
        have hlength := congrArg List.length heq
        rw [length_page_of_lonely (by rw [hgskip, hgsize]; exact hl), List.length_take,
          List.length_drop, length_inDirection, hl.1] at hlength
        omega
      · rw [hmod']
        rintro (hle | ⟨-, hnot⟩)
        · omega
        · exact hnot hl
    · rw [page_eq_drop_take hsize (by rw [hgskip]; omega) (by rw [hgskip, hgsize]; exact hl),
        hgskip, hgsize]
      exact iff_of_true rfl (.inr ⟨hfits, hl⟩)
  · -- the product has wrapped around, and the page begins somewhere else
    refine iff_of_false ?_ (by omega)
    intro heq
    have hhead := congrArg List.head? heq
    rw [head?_page hsize (by rw [hgskip]; omega), head?_drop_take _ hsize, hgskip] at hhead
    have hrank : (page - 1) * size % 2 ^ 32 < (inDirection f.searchDirection b).length := by
      rw [length_inDirection]
      omega
    have hsame : (page - 1) * size % 2 ^ 32 = (page - 1) * size :=
      (List.getElem?_inj hrank (nodup_inDirection _ _)).1 hhead
    omega

/-- The pages from a number on, one after the other, until the first empty one. -/
def pagesFrom (idx : TransactionsIndex) (f : CompactFilter) (size : ℕ) : ℕ → ℕ → List ℕ
  | 0, _ => []
  | bound + 1, page =>
    match idx.findPage f size page with
    | [] => []
    | nr :: nrs => nr :: nrs ++ pagesFrom idx f size bound (page + 1)

/-- Pages that are blocks give all that is left. -/
theorem pagesFrom_eq {idx : TransactionsIndex} {f : CompactFilter} {size : ℕ} (hsize : 1 ≤ size)
    {l : List ℕ} (hblock : ∀ page, 1 ≤ page → (page - 1) * size < l.length + size →
      idx.findPage f size page = block l size page) (bound : ℕ) {page : ℕ} (hpage : 1 ≤ page)
    (hstart : (page - 1) * size < l.length + size)
    (hbound : l.length < (page - 1) * size + bound) :
    idx.pagesFrom f size bound page = l.drop ((page - 1) * size) := by
  induction bound generalizing page with
  | zero => rw [List.drop_eq_nil_of_le (by omega), pagesFrom]
  | succ bound ih =>
    have hhere := hblock page hpage hstart
    have hnext : (page + 1 - 1) * size = (page - 1) * size + size := by
      rw [show page + 1 - 1 = page - 1 + 1 by omega, Nat.add_mul, Nat.one_mul]
    unfold pagesFrom
    cases hfind : idx.findPage f size page with
    | nil =>
      rw [hfind, block, eq_comm, List.take_eq_nil_iff] at hhere
      rcases hhere with hzero | hnil
      · omega
      · exact hnil.symm
    | cons nr nrs =>
      have hlt : (page - 1) * size < l.length := by
        by_contra hge
        rw [hfind, block, List.drop_eq_nil_of_le (by omega)] at hhere
        simp at hhere
      rw [hfind] at hhere
      dsimp only
      rw [hhere, ih (by omega) (by omega) (by omega), block, hnext, ← List.drop_drop,
        List.take_append_drop]

/-- **Pagination.**  In every state of the index, for every filter and page size, a page is the
block of the unpaginated result that it should be exactly when it is cut at the right place; and
when all pages up to the first empty one are, they give the unpaginated result. -/
theorem findPage_law (idx : TransactionsIndex) (f : CompactFilter) {size : ℕ} (hsize : 1 ≤ size) :
    (∀ page, 1 ≤ page → (idx.findPage f size page = block (idx.findPage f 0 0) size page ↔
      CutRight (idx.findPage f 0 0).length size page)) ∧
    ((∀ page, 1 ≤ page → (page - 1) * size < (idx.findPage f 0 0).length + size →
        CutRight (idx.findPage f 0 0).length size page) →
      ∀ bound, (idx.findPage f 0 0).length < bound →
        idx.pagesFrom f size bound 1 = idx.findPage f 0 0) := by
  obtain ⟨b, hb⟩ := idx.exists_findPage f
  have hall : idx.findPage f 0 0 = inDirection f.searchDirection b := by
    rw [hb, pageOf_size_zero]
  have hiff : ∀ page, 1 ≤ page → (idx.findPage f size page = block (idx.findPage f 0 0) size page ↔
      CutRight (idx.findPage f 0 0).length size page) := by
    intro page hpage
    rw [hall, hb, length_inDirection]
    exact pageOf_eq_block_iff f b hsize hpage
  refine ⟨hiff, ?_⟩
  intro hcut bound hbound
  have hpages := pagesFrom_eq hsize (fun page hpage hlt => (hiff page hpage).2
    (hcut page hpage hlt)) bound (show 1 ≤ 1 by decide) (by omega) (by omega)
  rw [hpages, Nat.sub_self, Nat.zero_mul, List.drop_zero]

/-- Three transactions on pages of two: the second page holds the last one twice. -/
theorem setup_page_not_block :
    ¬ ((run Sample.env Sample.setup).findBlockchain 1).mTransactionsIndex.findPage {} 2 2 =
      block (((run Sample.env Sample.setup).findBlockchain 1).mTransactionsIndex.findPage {} 0 0)
        2 2 := by
  decide +kernel

/-- On pages of three they are complete. -/
theorem setup_pagesFrom :
    ((run Sample.env Sample.setup).findBlockchain 1).mTransactionsIndex.pagesFrom {} 3 4 1 =
      ((run Sample.env Sample.setup).findBlockchain 1).mTransactionsIndex.findPage {} 0 0 := by
  have hlength : (((run Sample.env Sample.setup).findBlockchain 1).mTransactionsIndex.findPage
      {} 0 0).length = 3 := by
    decide +kernel
  refine (findPage_law _ {} (by decide)).2 ?_ 4 (by omega)
  intro page _ hlt
  rw [hlength] at hlt ⊢
  exact .inr (by omega)

end TransactionsIndex

end Gradido
