import GradidoBlockchain.Blockchain.SearchIterator
import Mathlib.Data.List.Infix
import Mathlib.Data.List.Range

/-!
# A step of the search iterator

`Stands` says where an iterator stands and what lies ahead of it: the rest of
its month in the direction of the search, and the months up to the border.
`increment_lands` is the step to the next entry that is used, in either
direction, and `searchIterator_lands` the same for a new iterator.
-/

namespace Gradido

open Checked Cursor Paging

namespace ByMonth

/-- The filter uses an entry. -/
def usesEntry (f : CompactFilter) (e : TransactionsIndexEntry) : Bool := (e.isMatchingFilter f).use

/-- The filter stops the search at an entry. -/
def stopsEntry (f : CompactFilter) (e : TransactionsIndexEntry) : Bool :=
  (e.isMatchingFilter f).stop

/-- An entry that is used does not stop the search. -/
theorem stopsEntry_of_usesEntry {f : CompactFilter} {e : TransactionsIndexEntry}
    (h : usesEntry f e = true) : stopsEntry f e = false := by
  unfold usesEntry at h
  unfold stopsEntry
  unfold TransactionsIndexEntry.isMatchingFilter at h ⊢
  split_ifs at h ⊢ <;> first | rfl | exact absurd h (by decide)

namespace TransactionsIndex

/-- Months whose entries have consecutive numbers, short enough to be counted with an `int`. -/
structure Regular (idx : TransactionsIndex) : Prop where
  positive : ∀ m, ∀ e ∈ idx.mYearMonthAddressIndexEntries m, 0 < e.transactionNr
  numbered : ∀ m i e, (idx.mYearMonthAddressIndexEntries m)[i]? = some e →
    e.transactionNr = idx.firstNrOf m + i
  short : ∀ m, (idx.mYearMonthAddressIndexEntries m).length ≤ intMax

/-- The entries of a number of months, from one of them on. -/
def entriesFrom (idx : TransactionsIndex) (m n : ℕ) : List TransactionsIndexEntry :=
  ((List.range n).map (fun i => idx.mYearMonthAddressIndexEntries (m + i))).flatten

/-- What lies behind a place in the order of the numbers, up to the month `hi`. -/
def aheadForward (idx : TransactionsIndex) (hi m e : ℕ) : List TransactionsIndexEntry :=
  (idx.mYearMonthAddressIndexEntries m).drop (e + 1) ++ idx.entriesFrom (m + 1) (hi - m)

/-- What lies before a place, backwards down to the month `lo`. -/
def aheadBack (idx : TransactionsIndex) (lo m e : ℕ) : List TransactionsIndexEntry :=
  ((idx.mYearMonthAddressIndexEntries m).take e).reverse ++ (idx.entriesFrom lo (m - lo)).reverse

/-- What lies ahead of a place in the direction of a search. -/
def aheadOf (idx : TransactionsIndex) (f : CompactFilter) (lo hi m e : ℕ) :
    List TransactionsIndexEntry :=
  match f.searchDirection with
  | .asc => idx.aheadForward hi m e
  | .desc => idx.aheadBack lo m e

section Lists

variable {idx : TransactionsIndex}

@[simp] theorem entriesFrom_zero (m : ℕ) : idx.entriesFrom m 0 = [] := rfl

theorem entriesFrom_succ (m n : ℕ) : idx.entriesFrom m (n + 1) =
    idx.mYearMonthAddressIndexEntries m ++ idx.entriesFrom (m + 1) n := by
  unfold entriesFrom
  rw [List.range_succ_eq_map, List.map_cons, List.flatten_cons, List.map_map]
  congr 3
  funext i
  simp only [Function.comp_apply, Nat.succ_eq_add_one]
  congr 1
  omega

theorem entriesFrom_concat (m n : ℕ) : idx.entriesFrom m (n + 1) =
    idx.entriesFrom m n ++ idx.mYearMonthAddressIndexEntries (m + n) := by
  simp [entriesFrom, List.range_succ]

theorem length_entriesFrom_le (hidx : idx.Regular) (m n : ℕ) :
    (idx.entriesFrom m n).length ≤ n * intMax := by
  induction n with
  | zero => simp
  | succ n ih =>
    have hshort := hidx.short (m + n)
    rw [entriesFrom_concat, List.length_append, Nat.succ_mul]
    omega

theorem length_aheadOf_lt (hidx : idx.Regular) (f : CompactFilter) {lo hi m : ℕ} (hm : m ≤ hi)
    (hhi : hi < 2 ^ 8) (e : ℕ) : (idx.aheadOf f lo hi m e).length + 1 < loopBound := by
  have hbucket := hidx.short m
  have hforward := length_entriesFrom_le hidx (m + 1) (hi - m)
  have hback := length_entriesFrom_le hidx lo (m - lo)
  have hmonths : (hi - m) * intMax ≤ 2 ^ 8 * intMax := Nat.mul_le_mul_right _ (by omega)
  have hmonths' : (m - lo) * intMax ≤ 2 ^ 8 * intMax := Nat.mul_le_mul_right _ (by omega)
  unfold aheadOf aheadForward aheadBack loopBound
  unfold intMax at *
  cases f.searchDirection <;> simp only [List.length_append, List.length_drop, List.length_reverse,
    List.length_take] <;> omega

/-- The months that are skipped have no entries. -/
theorem skipForward_eq (n m : ℕ) :
    match idx.skipForward n m with
    | none => idx.entriesFrom (m + 1) n = []
    | some m' => m < m' ∧ m' ≤ m + n ∧ idx.mYearMonthAddressIndexEntries m' ≠ [] ∧
        idx.entriesFrom (m + 1) n =
          idx.mYearMonthAddressIndexEntries m' ++ idx.entriesFrom (m' + 1) (m + n - m') := by
  induction n generalizing m with
  | zero => rfl
  | succ n ih =>
    rw [skipForward, entriesFrom_succ]
    split_ifs with hempty
    · have hrest := ih (m + 1)
      rw [hempty, List.nil_append]
      cases hskip : idx.skipForward n (m + 1) with
      | none =>
        rw [hskip] at hrest
        exact hrest
      | some m' =>
        rw [hskip] at hrest
        obtain ⟨hlt, hle, hne, heq⟩ := hrest
        refine ⟨by omega, by omega, hne, ?_⟩
        rw [heq, show m + 1 + n - m' = m + (n + 1) - m' by omega]
    · refine ⟨by omega, by omega, hempty, ?_⟩
      rw [show m + (n + 1) - (m + 1) = n by omega]

theorem skipBack_eq {n m : ℕ} (hn : n ≤ m) :
    match idx.skipBack n m with
    | none => idx.entriesFrom (m - n) n = []
    | some m' => m - n ≤ m' ∧ m' < m ∧ idx.mYearMonthAddressIndexEntries m' ≠ [] ∧
        idx.entriesFrom (m - n) n =
          idx.entriesFrom (m - n) (m' - (m - n)) ++ idx.mYearMonthAddressIndexEntries m' := by
  induction n generalizing m with
  | zero => rfl
  | succ n ih =>
    have hrest := @ih (m - 1) (by omega)
    rw [show m - 1 - n = m - (n + 1) by omega] at hrest
    rw [skipBack, entriesFrom_concat, show m - (n + 1) + n = m - 1 by omega]
    split_ifs with hempty
    · rw [hempty, List.append_nil]
      cases hskip : idx.skipBack n (m - 1) with
      | none =>
        rw [hskip] at hrest
        exact hrest
      | some m' =>
        rw [hskip] at hrest
        obtain ⟨hle, hlt, hne, heq⟩ := hrest
        exact ⟨hle, by omega, hne, heq⟩
    · refine ⟨by omega, by omega, hempty, ?_⟩
      rw [show m - 1 - (m - (n + 1)) = n by omega]

end Lists

/-- Where an iterator stands: on an entry of a month between the borders, with a list ahead. -/
structure Stands (idx : TransactionsIndex) (f : CompactFilter) (lo hi : ℕ) (it : SearchIterator)
    (a : TransactionsIndexEntry) (rest : List TransactionsIndexEntry) : Prop where
  filter : it.mFilter = f
  first : it.mMinMonthYearIndex = lo
  last : it.mMaxMonthYearIndex = hi
  low : lo ≤ it.mMonthYearIndex
  high : it.mMonthYearIndex ≤ hi
  running : it.mStopped = false
  entry : (idx.mYearMonthAddressIndexEntries it.mMonthYearIndex)[it.mEntryIndex]? = some a
  ahead : rest = idx.aheadOf f lo hi it.mMonthYearIndex it.mEntryIndex

/-- What a step has to give: the number of the first entry of a list, with an iterator that stands
there, or a zero and an iterator that is stopped. -/
def Reaches (idx : TransactionsIndex) (f : CompactFilter) (lo hi : ℕ) (r : SearchIterator × ℕ) :
    List TransactionsIndexEntry → Prop
  | [] => r.2 = 0 ∧ r.1.mStopped = true
  | a :: rest => r.2 = a.transactionNr ∧ idx.Stands f lo hi r.1 a rest

section Steps

variable {idx : TransactionsIndex} {f : CompactFilter} {lo hi : ℕ} {it : SearchIterator}
  {a : TransactionsIndexEntry} {rest : List TransactionsIndexEntry}

theorem Stands.entry_lt (h : idx.Stands f lo hi it a rest) :
    it.mEntryIndex < (idx.mYearMonthAddressIndexEntries it.mMonthYearIndex).length :=
  (List.getElem?_eq_some_iff.1 h.entry).1

theorem Stands.filterCurrentEntry_eq (h : idx.Stands f lo hi it a rest) :
    it.filterCurrentEntry (idx.mYearMonthAddressIndexEntries it.mMonthYearIndex) =
      ({ it with mStopped := stopsEntry f a }, if usesEntry f a then a.transactionNr else 0) := by
  have hhigh := h.high
  unfold SearchIterator.filterCurrentEntry
  rw [if_neg (by simp [h.running]), if_neg (by rw [h.last]; omega), h.entry, h.filter]
  rfl

/-- The entry that an iterator stands on is looked at: it is used, or stops the search, or the
search goes on. -/
theorem Stands.filterCurrentEntry_cases (hidx : idx.Regular) (h : idx.Stands f lo hi it a rest) :
    (∃ r, it.filterCurrentEntry (idx.mYearMonthAddressIndexEntries it.mMonthYearIndex) = r ∧
        (r.2 ≠ 0 ∨ r.1.mStopped = true) ∧
          idx.Reaches f lo hi r (seek (usesEntry f) (stopsEntry f) (a :: rest))) ∨
      it.filterCurrentEntry (idx.mYearMonthAddressIndexEntries it.mMonthYearIndex) = (it, 0) ∧
        seek (usesEntry f) (stopsEntry f) (a :: rest) =
          seek (usesEntry f) (stopsEntry f) rest := by
  have hpos := hidx.positive _ a (List.mem_of_getElem? h.entry)
  rw [h.filterCurrentEntry_eq]
  cases huse : usesEntry f a with
  | true =>
    have hstop := stopsEntry_of_usesEntry huse
    refine .inl ⟨_, rfl, .inl (by simp; omega), ?_⟩
    rw [seek_of_use _ huse]
    exact ⟨by simp, ⟨h.filter, h.first, h.last, h.low, h.high, hstop, h.entry, h.ahead⟩⟩
  | false =>
    cases hstop : stopsEntry f a with
    | true =>
      refine .inl ⟨_, rfl, .inr rfl, ?_⟩
      rw [seek_of_stop _ huse hstop]
      exact ⟨by simp, rfl⟩
    | false =>
      have hsame : ({ it with mStopped := false } : SearchIterator) = it := by rw [← h.running]
      exact .inr ⟨by rw [hsame]; rfl, seek_of_skip _ huse hstop⟩

/-! ### The ascending order -/

/-- **One move** of the loops for the ascending order: to the next entry, or to a stop. -/
theorem Stands.advanceForward_succ (hidx : idx.Regular) (hd : f.searchDirection = .asc)
    (h : idx.Stands f lo hi it a rest) (n : ℕ) :
    (rest = [] ∧ ∃ it', idx.advanceForward (n + 1) it = .ok (it', 0) ∧ it'.mStopped = true) ∨
      ∃ c rest' it', rest = c :: rest' ∧ idx.Stands f lo hi it' c rest' ∧
        idx.advanceForward (n + 1) it =
          let r := it'.filterCurrentEntry (idx.mYearMonthAddressIndexEntries it'.mMonthYearIndex)
          if r.2 ≠ 0 ∨ r.1.mStopped = true then .ok r else idx.advanceForward n r.1 := by
  have hlt := h.entry_lt
  have hshort := hidx.short it.mMonthYearIndex
  have hlow := h.low
  have hhigh := h.high
  have hhi := h.last
  have hne : idx.mYearMonthAddressIndexEntries it.mMonthYearIndex ≠ [] :=
    List.ne_nil_of_length_pos (by omega)
  have hahead : rest = (idx.mYearMonthAddressIndexEntries it.mMonthYearIndex).drop
      (it.mEntryIndex + 1) ++ idx.entriesFrom (it.mMonthYearIndex + 1)
        (it.mMaxMonthYearIndex - it.mMonthYearIndex) := by
    rw [h.ahead, aheadOf, hd, hhi]
    rfl
  by_cases hlast : (idx.mYearMonthAddressIndexEntries it.mMonthYearIndex).length - 1 ≤
      it.mEntryIndex
  · -- the month is at its end
    have hdrop : (idx.mYearMonthAddressIndexEntries it.mMonthYearIndex).drop
        (it.mEntryIndex + 1) = [] := List.drop_of_length_le (by omega)
    have hskip := @skipForward_eq idx (it.mMaxMonthYearIndex - it.mMonthYearIndex)
      it.mMonthYearIndex
    rw [hdrop, List.nil_append] at hahead
    rw [advanceForward]
    dsimp only
    rw [if_pos ⟨hne, hlast⟩]
    cases hmonth : idx.skipForward (it.mMaxMonthYearIndex - it.mMonthYearIndex)
        it.mMonthYearIndex with
    | none =>
      rw [hmonth] at hskip
      exact .inl ⟨hahead.trans hskip, _, rfl, rfl⟩
    | some m =>
      rw [hmonth] at hskip
      obtain ⟨hgt, hle, hfull, heq⟩ := hskip
      obtain ⟨c, bucket, hbucket⟩ := List.exists_cons_of_ne_nil hfull
      rw [heq, hbucket, List.cons_append] at hahead
      refine .inr ⟨c, _, { it with mMonthYearIndex := m, mEntryIndex := 0 }, hahead, ?_, rfl⟩
      refine ⟨h.filter, h.first, h.last, ?_, ?_, h.running, ?_, ?_⟩
      · exact Nat.le_of_lt (Nat.lt_of_le_of_lt hlow hgt)
      · show m ≤ hi
        omega
      · show (idx.mYearMonthAddressIndexEntries m)[0]? = some c
        rw [hbucket]
        rfl
      · show bucket ++ _ = idx.aheadOf f lo hi m 0
        rw [aheadOf, hd, aheadForward, hbucket,
          show it.mMonthYearIndex + (it.mMaxMonthYearIndex - it.mMonthYearIndex) - m = hi - m by
            omega]
        rfl
  · -- the next entry of the month
    have hnext : it.mEntryIndex + 1 <
        (idx.mYearMonthAddressIndexEntries it.mMonthYearIndex).length := by omega
    have hmod : (it.mEntryIndex + 1) % 2 ^ 32 = it.mEntryIndex + 1 := by
      unfold intMax at hshort
      exact Nat.mod_eq_of_lt (by omega)
    rw [List.drop_eq_getElem_cons hnext, List.cons_append] at hahead
    rw [advanceForward]
    dsimp only
    rw [if_neg (fun hand => hlast hand.2), hmod]
    refine .inr ⟨_, _, { it with mEntryIndex := it.mEntryIndex + 1 }, hahead, ?_, rfl⟩
    refine ⟨h.filter, h.first, h.last, hlow, hhigh, h.running, ?_, ?_⟩
    · exact List.getElem?_eq_getElem hnext
    · show _ = idx.aheadOf f lo hi it.mMonthYearIndex (it.mEntryIndex + 1)
      rw [aheadOf, hd, ← hhi]
      rfl

/-- **The ascending loops** reach the next entry that is used. -/
theorem Stands.advanceForward_reaches (hidx : idx.Regular) (hd : f.searchDirection = .asc)
    (h : idx.Stands f lo hi it a rest) {n : ℕ} (hn : rest.length < n) :
    ∃ r, idx.advanceForward n it = .ok r ∧
      idx.Reaches f lo hi r (seek (usesEntry f) (stopsEntry f) rest) := by
  induction n generalizing it a rest with
  | zero => omega
  | succ n ih =>
    rcases h.advanceForward_succ hidx hd n with
      ⟨rfl, it', hok, hstopped⟩ | ⟨c, rest', it', rfl, hstands, hok⟩
    · exact ⟨_, hok, rfl, hstopped⟩
    rw [List.length_cons] at hn
    rw [hok]
    rcases hstands.filterCurrentEntry_cases hidx with ⟨r, hr, hdone, hreaches⟩ | ⟨hr, hseek⟩
    · rw [hr]
      exact ⟨r, if_pos hdone, hreaches⟩
    · have hagain : ¬ ((0 : ℕ) ≠ 0 ∨ it'.mStopped = true) := by simp [hstands.running]
      rw [hr, hseek]
      dsimp only
      rw [if_neg hagain]
      exact ih hstands (by omega)

/-! ### The descending order -/

/-- The loop over a range that is read backwards. -/
theorem findNextInRange_eq (hrunning : it.mStopped = false) (l : List TransactionsIndexEntry) :
    it.findNextInRange l =
      match seek (usesEntry it.mFilter) (stopsEntry it.mFilter) l with
      | [] => ({ it with mStopped := l.any (stopsEntry it.mFilter) }, 0)
      | b :: _ => (it, b.transactionNr) := by
  induction l with
  | nil =>
    have hsame : ({ it with mStopped := false } : SearchIterator) = it := by rw [← hrunning]
    exact Prod.ext hsame.symm rfl
  | cons e l ih =>
    rw [SearchIterator.findNextInRange]
    change (if usesEntry it.mFilter e then
        (if stopsEntry it.mFilter e then it.stop else it, e.transactionNr)
      else if (if stopsEntry it.mFilter e then it.stop else it).mStopped then
        (if stopsEntry it.mFilter e then it.stop else it, 0)
      else (if stopsEntry it.mFilter e then it.stop else it).findNextInRange l) = _
    cases huse : usesEntry it.mFilter e with
    | true =>
      rw [seek_of_use _ huse, stopsEntry_of_usesEntry huse]
      rfl
    | false =>
      cases hstop : stopsEntry it.mFilter e with
      | true =>
        rw [seek_of_stop _ huse hstop, List.any_cons, hstop]
        rfl
      | false =>
        rw [seek_of_skip _ huse hstop, List.any_cons, hstop]
        simp only [Bool.false_eq_true, if_false, hrunning, Bool.false_or, ih]

/-- The entry that is found before a place, and its index by the difference of the numbers. -/
theorem exists_of_seek_take (hidx : idx.Regular) {m e : ℕ} {b : TransactionsIndexEntry}
    {l : List TransactionsIndexEntry}
    (h : seek (usesEntry f) (stopsEntry f)
      ((idx.mYearMonthAddressIndexEntries m).take e).reverse = b :: l) :
    ∃ i, difference b.transactionNr (idx.firstNrOf m) % 2 ^ 32 = i ∧
      (idx.mYearMonthAddressIndexEntries m)[i]? = some b ∧
        l = ((idx.mYearMonthAddressIndexEntries m).take i).reverse := by
  have hsuffix : b :: l <:+ ((idx.mYearMonthAddressIndexEntries m).take e).reverse :=
    h ▸ seek_suffix _
  have hprefix : l.reverse ++ [b] <+: (idx.mYearMonthAddressIndexEntries m).take e := by
    rw [← List.reverse_cons]
    exact List.reverse_suffix.1 (by rwa [List.reverse_reverse])
  have hbucket := hprefix.trans (List.take_prefix e _)
  have hb : (idx.mYearMonthAddressIndexEntries m)[l.length]? = some b := by
    obtain ⟨t, ht⟩ := hbucket
    rw [← ht, List.append_assoc, List.getElem?_append_right (by simp)]
    simp
  have hlt := (List.getElem?_eq_some_iff.1 hb).1
  have hshort := hidx.short m
  have hnr := hidx.numbered m l.length b hb
  have hindex : difference b.transactionNr (idx.firstNrOf m) % 2 ^ 32 = l.length := by
    unfold difference
    unfold intMax at hshort
    rw [hnr, show idx.firstNrOf m + l.length + 2 ^ 64 - idx.firstNrOf m = l.length + 2 ^ 64 by
        omega,
      Nat.add_mod_right, Nat.mod_eq_of_lt (show l.length < 2 ^ 64 by omega),
      Nat.mod_eq_of_lt (by omega)]
  have htake : l.reverse = (idx.mYearMonthAddressIndexEntries m).take l.length := by
    have heq := List.prefix_iff_eq_take.1 ((List.prefix_append l.reverse [b]).trans hbucket)
    rwa [List.length_reverse] at heq
  exact ⟨l.length, hindex, hb, by rw [← htake, List.reverse_reverse]⟩

/-- **The descending loops** reach the next entry that is used: from a place whose own entry was
already looked at, month by month. -/
theorem advanceBack_reaches (hidx : idx.Regular) (hd : f.searchDirection = .desc) {n : ℕ}
    (hfilter : it.mFilter = f) (hfirst : it.mMinMonthYearIndex = lo)
    (hlast : it.mMaxMonthYearIndex = hi) (hlow : lo ≤ it.mMonthYearIndex)
    (hhigh : it.mMonthYearIndex ≤ hi) (hrunning : it.mStopped = false)
    (hentry : it.mEntryIndex ≤
      (idx.mYearMonthAddressIndexEntries it.mMonthYearIndex).length)
    (hn : 2 * (it.mMonthYearIndex - lo) + (if it.mEntryIndex = 0 then 0 else 1) < n) :
    ∃ r, idx.advanceBack n it = .ok r ∧ idx.Reaches f lo hi r
      (seek (usesEntry f) (stopsEntry f) (idx.aheadBack lo it.mMonthYearIndex it.mEntryIndex)) := by
  induction n generalizing it with
  | zero => omega
  | succ n ih =>
    have hshort := hidx.short it.mMonthYearIndex
    rw [advanceBack]
    by_cases hzero : it.mEntryIndex = 0
    · -- the month is at its start
      have hahead : idx.aheadBack lo it.mMonthYearIndex it.mEntryIndex =
          (idx.entriesFrom lo (it.mMonthYearIndex - lo)).reverse := by
        rw [hzero]
        rfl
      rw [if_pos hzero] at hn ⊢
      rw [hahead]
      by_cases hborder : it.mMonthYearIndex = it.mMinMonthYearIndex
      · rw [if_pos hborder, show it.mMonthYearIndex - lo = 0 by omega]
        exact ⟨_, rfl, rfl, rfl⟩
      rw [if_neg hborder, if_neg (by omega)]
      have hskip := @skipBack_eq idx (it.mMonthYearIndex - it.mMinMonthYearIndex)
        it.mMonthYearIndex (Nat.sub_le _ _)
      rw [show it.mMonthYearIndex - (it.mMonthYearIndex - it.mMinMonthYearIndex) = lo by omega]
        at hskip
      cases hmonth : idx.skipBack (it.mMonthYearIndex - it.mMinMonthYearIndex)
          it.mMonthYearIndex with
      | none =>
        rw [hmonth, hfirst] at hskip
        dsimp only at hskip
        rw [hskip]
        exact ⟨_, rfl, rfl, rfl⟩
      | some m =>
        rw [hmonth, hfirst] at hskip
        obtain ⟨hle, hlt, hne, heq⟩ := hskip
        have hsize := hidx.short m
        have hmod : (idx.mYearMonthAddressIndexEntries m).length % 2 ^ 32 =
            (idx.mYearMonthAddressIndexEntries m).length := by
          unfold intMax at hsize
          exact Nat.mod_eq_of_lt (by omega)
        have hrest := @ih { it with
          mMonthYearIndex := m
          mEntryIndex := (idx.mYearMonthAddressIndexEntries m).length } hfilter hfirst hlast hle
          (by show m ≤ hi; omega) hrunning (Nat.le_refl _)
          (by show 2 * (m - lo) + _ < n; split_ifs <;> omega)
        dsimp only at hrest ⊢
        rw [hmod, heq, List.reverse_append]
        rw [aheadBack, List.take_length] at hrest
        exact hrest
    · have hcount : ¬ intMax < (idx.mYearMonthAddressIndexEntries it.mMonthYearIndex).length -
          it.mEntryIndex := by omega
      have hdrop : (idx.mYearMonthAddressIndexEntries it.mMonthYearIndex).reverse.drop
          ((idx.mYearMonthAddressIndexEntries it.mMonthYearIndex).length - it.mEntryIndex) =
            ((idx.mYearMonthAddressIndexEntries it.mMonthYearIndex).take
              it.mEntryIndex).reverse := by
        rw [List.drop_reverse, Nat.sub_sub_self hentry]
      rw [if_neg hzero] at hn ⊢
      dsimp only
      rw [if_neg hcount, hdrop, findNextInRange_eq hrunning, hfilter, aheadBack, seek_append]
      cases hseek : seek (usesEntry f) (stopsEntry f)
          ((idx.mYearMonthAddressIndexEntries it.mMonthYearIndex).take
            it.mEntryIndex).reverse with
      | cons b l =>
        obtain ⟨i, hi, hb, hl⟩ := exists_of_seek_take hidx hseek
        have hpos := hidx.positive _ b (List.mem_of_getElem? hb)
        dsimp only
        rw [if_pos (by omega), hi]
        refine ⟨_, rfl, rfl, ⟨hfilter, hfirst, hlast, hlow, hhigh, hrunning, hb, ?_⟩⟩
        rw [aheadOf, hd, aheadBack, hl]
      | nil =>
        dsimp only
        rw [if_neg (not_not.2 rfl)]
        cases hstop : (((idx.mYearMonthAddressIndexEntries it.mMonthYearIndex).take
            it.mEntryIndex).reverse).any (stopsEntry f) with
        | true => exact ⟨_, if_pos rfl, rfl, rfl⟩
        | false =>
          have hrest := @ih { it with mEntryIndex := 0 } hfilter hfirst hlast hlow hhigh hrunning
            (Nat.zero_le _) (by show 2 * (it.mMonthYearIndex - lo) + 0 < n; omega)
          have hsame : ({ it with
              mFilter := f, mEntryIndex := 0, mStopped := false } : SearchIterator) =
                { it with mEntryIndex := 0 } := by rw [← hrunning, ← hfilter]
          rw [if_neg (by simp), if_neg (by simp), hsame]
          exact hrest

/-! ### The iterator -/

/-- **A step** of an iterator that is not stopped. -/
theorem Stands.advance_reaches (hidx : idx.Regular) (hhi : hi < 2 ^ 8)
    (h : idx.Stands f lo hi it a rest) :
    ∃ r, idx.advance it it.isReversed = .ok r ∧
      idx.Reaches f lo hi r (seek (usesEntry f) (stopsEntry f) rest) := by
  have hhigh := h.high
  have hlt := h.entry_lt
  have hlength := @length_aheadOf_lt idx hidx f lo hi _ h.high hhi it.mEntryIndex
  rw [← h.ahead] at hlength
  unfold advance SearchIterator.isReversed
  rw [if_neg (by simp [h.running]), if_neg (by rw [h.last]; omega), h.filter]
  cases hd : f.searchDirection with
  | asc =>
    rw [if_neg (by simp)]
    exact h.advanceForward_reaches hidx hd (by omega)
  | desc =>
    have hahead : rest = idx.aheadBack lo it.mMonthYearIndex it.mEntryIndex := by
      rw [h.ahead, aheadOf, hd]
    rw [if_pos (by simp), hahead]
    refine advanceBack_reaches hidx hd h.filter h.first h.last h.low hhigh h.running
      (Nat.le_of_lt hlt) ?_
    unfold loopBound
    split_ifs <;> omega

theorem advance_of_stopped (h : it.mStopped = true) (reversed : Bool) :
    idx.advance it reversed = .ok (it, 0) := by
  rw [advance, if_pos h]

theorem increment_of_stopped (h : it.mStopped = true) : idx.increment it = .ok it := by
  rw [increment, advance_of_stopped h]
  rfl

/-- An iterator that stands on an entry and shows its number. -/
def Shows (idx : TransactionsIndex) (f : CompactFilter) (lo hi : ℕ) (it : SearchIterator)
    (a : TransactionsIndexEntry) (rest : List TransactionsIndexEntry) : Prop :=
  it.mTxNr = a.transactionNr ∧ idx.Stands f lo hi it a rest

theorem Stands.withTxNr (h : idx.Stands f lo hi it a rest) (nr : ℕ) :
    idx.Stands f lo hi { it with mTxNr := nr } a rest :=
  ⟨h.filter, h.first, h.last, h.low, h.high, h.running, h.entry, h.ahead⟩

/-- **The increment** lands on the next entry that is used. -/
theorem Shows.increment_lands (hidx : idx.Regular) (hhi : hi < 2 ^ 8)
    (h : idx.Shows f lo hi it a rest) :
    ∃ it', idx.increment it = .ok it' ∧ Lands (idx.Shows f lo hi)
      (fun it => it.mStopped = true) it' (seek (usesEntry f) (stopsEntry f) rest) := by
  obtain ⟨r, hok, hreaches⟩ := h.2.advance_reaches hidx hhi
  rw [increment, hok]
  refine ⟨_, rfl, ?_⟩
  cases hseek : seek (usesEntry f) (stopsEntry f) rest with
  | nil =>
    rw [hseek] at hreaches
    exact hreaches.2
  | cons b l =>
    rw [hseek] at hreaches
    obtain ⟨hnr, hstands⟩ := hreaches
    have hpos := hidx.positive _ b (List.mem_of_getElem? hstands.entry)
    refine ⟨?_, hstands.withTxNr _⟩
    show (if r.2 ≠ 0 then r.2 else r.1.mTxNr) = b.transactionNr
    rw [hnr, if_pos (by omega)]

/-! ### New iterators -/

/-- The entries from a place on, in the direction of a search: none, when the place is not on an
entry of a month between the borders. -/
def lineAt (idx : TransactionsIndex) (f : CompactFilter) (lo hi m e : ℕ) :
    List TransactionsIndexEntry :=
  if lo ≤ m ∧ m ≤ hi then
    match (idx.mYearMonthAddressIndexEntries m)[e]? with
    | none => []
    | some a => a :: idx.aheadOf f lo hi m e
  else []

theorem length_lineAt_lt (hidx : idx.Regular) (f : CompactFilter) (hhi : hi < 2 ^ 8) (lo m e : ℕ) :
    (idx.lineAt f lo hi m e).length < loopBound := by
  have hpos : 0 < loopBound := by unfold loopBound; omega
  unfold lineAt
  split_ifs with hmonth
  · split
    · exact hpos
    · exact length_aheadOf_lt hidx f hmonth.2 hhi e
  · exact hpos

/-- An iterator that is stopped from the start, or whose place is no entry. -/
theorem getCurrentOrNext_of_outside (h : it.mStopped = true ∨
      it.mMonthYearIndex > it.mMaxMonthYearIndex ∨
      (idx.mYearMonthAddressIndexEntries it.mMonthYearIndex)[it.mEntryIndex]? = none)
    (reversed : Bool) :
    ∃ r, idx.getCurrentOrNext it reversed = .ok r ∧ r.2 = 0 ∧ r.1.mStopped = true := by
  unfold getCurrentOrNext
  dsimp only
  split_ifs with hout hused
  · exact ⟨_, rfl, rfl, rfl⟩
  all_goals
    have hstopped : it.mStopped = true := by
      rw [not_or] at hout
      rcases h with h | h | h
      · exact h
      · exact absurd h hout.1
      · exact absurd (List.getElem?_eq_none_iff.1 h) hout.2
    have hfilter : it.filterCurrentEntry
        (idx.mYearMonthAddressIndexEntries it.mMonthYearIndex) = (it, 0) := by
      rw [SearchIterator.filterCurrentEntry, if_pos hstopped]
  · rw [hfilter] at hused
    exact absurd rfl hused
  · rw [hfilter]
    exact ⟨_, advance_of_stopped hstopped reversed, rfl, hstopped⟩

/-- An iterator that stands on an entry goes to the first one, from there on, that is used. -/
theorem Stands.getCurrentOrNext_reaches (hidx : idx.Regular) (hhi : hi < 2 ^ 8)
    (h : idx.Stands f lo hi it a rest) :
    ∃ r, idx.getCurrentOrNext it it.isReversed = .ok r ∧
      idx.Reaches f lo hi r (seek (usesEntry f) (stopsEntry f) (a :: rest)) := by
  have hlt := h.entry_lt
  have hhigh := h.high
  have hlast := h.last
  unfold getCurrentOrNext
  dsimp only
  rw [if_neg (by omega)]
  rcases h.filterCurrentEntry_cases hidx with ⟨r, hr, hdone, hreaches⟩ | ⟨hr, hseek⟩
  · rw [hr]
    by_cases hused : r.2 ≠ 0
    · exact ⟨r, if_pos hused, hreaches⟩
    · have hstopped := hdone.resolve_left hused
      rw [if_neg hused]
      exact ⟨_, advance_of_stopped hstopped _, by
        rw [not_not] at hused
        rwa [show r = (r.1, 0) from Prod.ext rfl hused] at hreaches⟩
  · rw [hr, hseek, if_neg (not_not.2 rfl)]
    exact h.advance_reaches hidx hhi

/-- **A new iterator** lands on the first entry, from its place on, that is used. -/
theorem searchIterator_lands (hidx : idx.Regular) {last first : ℕ}
    (hlast : idx.yearMonthToIndex (timepointAsYearMonth f.timepointInterval.endDate) = .ok last)
    (hfirst : idx.yearMonthToIndex (timepointAsYearMonth f.timepointInterval.startDate) =
      .ok first) (e m : ℕ) :
    ∃ it, idx.searchIterator f e m = .ok it ∧
      Lands (idx.Shows f (first % 2 ^ 8) (last % 2 ^ 8)) (fun it => it.mStopped = true) it
        (seek (usesEntry f) (stopsEntry f)
          (idx.lineAt f (first % 2 ^ 8) (last % 2 ^ 8) (m % 2 ^ 8) (e % 2 ^ 32))) := by
  have hhi : last % 2 ^ 8 < 2 ^ 8 := Nat.mod_lt _ (by decide)
  unfold searchIterator
  rw [hlast, hfirst]
  change ∃ it, (idx.getCurrentOrNext _ _ >>= _) = _ ∧ _
  generalize hit : (SearchIterator.mk f 0 (e % 2 ^ 32) (m % 2 ^ 8) (last % 2 ^ 8) (first % 2 ^ 8)
    (decide (m % 2 ^ 8 < first % 2 ^ 8 ∨ m % 2 ^ 8 > last % 2 ^ 8))) = it₀
  have hstopped : it₀.mStopped = decide (m % 2 ^ 8 < first % 2 ^ 8 ∨
      m % 2 ^ 8 > last % 2 ^ 8) := by rw [← hit]
  have hmonth : it₀.mMonthYearIndex = m % 2 ^ 8 := by rw [← hit]
  have hentry : it₀.mEntryIndex = e % 2 ^ 32 := by rw [← hit]
  by_cases hinside : first % 2 ^ 8 ≤ m % 2 ^ 8 ∧ m % 2 ^ 8 ≤ last % 2 ^ 8
  · rw [lineAt, if_pos hinside]
    cases ha : (idx.mYearMonthAddressIndexEntries (m % 2 ^ 8))[e % 2 ^ 32]? with
    | none =>
      obtain ⟨r, hok, -, hrest⟩ := @getCurrentOrNext_of_outside idx it₀
        (.inr (.inr (by rw [hmonth, hentry]; exact ha))) it₀.isReversed
      rw [hok]
      exact ⟨_, rfl, hrest⟩
    | some a =>
      have hstands : idx.Stands f (first % 2 ^ 8) (last % 2 ^ 8) it₀ a
          (idx.aheadOf f (first % 2 ^ 8) (last % 2 ^ 8) (m % 2 ^ 8) (e % 2 ^ 32)) := by
        rw [← hit]
        exact ⟨rfl, rfl, rfl, hinside.1, hinside.2, decide_eq_false (by omega), ha, rfl⟩
      obtain ⟨r, hok, hreaches⟩ := hstands.getCurrentOrNext_reaches hidx hhi
      rw [hok]
      refine ⟨_, rfl, ?_⟩
      dsimp only
      cases hseek : seek (usesEntry f) (stopsEntry f) (a :: idx.aheadOf f (first % 2 ^ 8)
          (last % 2 ^ 8) (m % 2 ^ 8) (e % 2 ^ 32)) with
      | nil =>
        rw [hseek] at hreaches
        exact hreaches.2
      | cons b l =>
        rw [hseek] at hreaches
        exact ⟨hreaches.1, hreaches.2.withTxNr _⟩
  · rw [lineAt, if_neg hinside]
    obtain ⟨r, hok, -, hrest⟩ := @getCurrentOrNext_of_outside idx it₀
      (.inl (by rw [hstopped]; exact decide_eq_true (by omega))) it₀.isReversed
    rw [hok]
    exact ⟨_, rfl, hrest⟩

/-- The iterator of an end, past its place, is stopped exactly when at most one entry is used from
there on. -/
theorem exists_pastEnd (hidx : idx.Regular) (hhi : hi < 2 ^ 8) {l : List TransactionsIndexEntry}
    (h : Lands (idx.Shows f lo hi) (fun it => it.mStopped = true) it
      (seek (usesEntry f) (stopsEntry f) l)) :
    ∃ it', idx.increment it = .ok it' ∧
      (it'.mStopped = true ↔ (taken (usesEntry f) (stopsEntry f) l).length ≤ 1) := by
  have hkeeps : ∀ e, usesEntry f e = true → stopsEntry f e = false :=
    fun _ => stopsEntry_of_usesEntry
  rw [taken_eq_seek hkeeps]
  cases hseek : seek (usesEntry f) (stopsEntry f) l with
  | nil =>
    rw [hseek] at h
    exact ⟨it, increment_of_stopped h, iff_of_true h (Nat.zero_le _)⟩
  | cons a rest =>
    rw [hseek] at h
    obtain ⟨it', hok, hlands⟩ := Shows.increment_lands hidx hhi h
    refine ⟨it', hok, ?_⟩
    dsimp only
    rw [taken_eq_seek hkeeps rest]
    cases hrest : seek (usesEntry f) (stopsEntry f) rest with
    | nil =>
      rw [hrest] at hlands
      exact iff_of_true hlands (Nat.le_refl _)
    | cons b rest' =>
      rw [hrest] at hlands
      exact iff_of_false (by simp [hlands.2.running]) (by simp)

/-- **The loop from one iterator to another**: to one that is stopped it collects what is used;
otherwise it ends at once, or never. -/
theorem collect_eq (hidx : idx.Regular) (hhi : hi < 2 ^ 8) {l : List TransactionsIndexEntry}
    (hl : l.length < loopBound) (h : Lands (idx.Shows f lo hi) (fun it => it.mStopped = true) it
      (seek (usesEntry f) (stopsEntry f) l)) (pastEnd : SearchIterator) :
    collect (fun it => it.equals pastEnd) SearchIterator.mTxNr idx.increment .endless loopBound
        it =
      if pastEnd.mStopped = true then
        .ok ((taken (usesEntry f) (stopsEntry f) l).map TransactionsIndexEntry.transactionNr)
      else if taken (usesEntry f) (stopsEntry f) l = [] then .error .endless else .ok [] := by
  have hkeeps : ∀ e, usesEntry f e = true → stopsEntry f e = false :=
    fun _ => stopsEntry_of_usesEntry
  split_ifs with hpast hnone
  · refine collect_of_lands hkeeps (fun s hs => ?_) (fun s a rest hs => ?_)
      (fun s a rest hs => hs.increment_lands hidx hhi) hl h
    · simp [SearchIterator.equals, hs, hpast]
    · exact ⟨by simp [SearchIterator.equals, hs.2.running, hpast], hs.1⟩
  · rw [taken_eq_seek hkeeps] at hnone
    cases hseek : seek (usesEntry f) (stopsEntry f) l with
    | nil =>
      rw [hseek] at h
      exact collect_of_fixed (by simp_all [SearchIterator.equals, Lands]) (increment_of_stopped h) _
    | cons a rest =>
      rw [hseek] at hnone
      simp at hnone
  · rw [taken_eq_seek hkeeps] at hnone
    cases hseek : seek (usesEntry f) (stopsEntry f) l with
    | nil =>
      rw [hseek] at hnone
      exact absurd rfl hnone
    | cons a rest =>
      rw [hseek] at h
      obtain ⟨n, hn⟩ : ∃ n, loopBound = n + 1 := ⟨loopBound - 1, by omega⟩
      rw [hn]
      exact collect_of_done (by simp [SearchIterator.equals, h.2.running, hpast]) n

end Steps

end TransactionsIndex

end ByMonth

end Gradido
