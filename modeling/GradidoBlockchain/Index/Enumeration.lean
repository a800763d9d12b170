import GradidoBlockchain.Index.Advance
import GradidoBlockchain.Index.MonthCount

/-!
# What the search iterators enumerate

The loop from `begin` to `end` goes through the transactions from one place on,
up to a border (`Ahead`); the place is found by a walk over the months
(`Rises`, `Falls`) and kept in narrow cursors.  `enumerates_iff` says when the
loop gives exactly what the search finds.
-/

namespace Gradido

open Checked Buckets Cursor Paging

namespace ByMonth

/-! ### Places -/

/-- The month of a transaction, counted from the first month of the index. -/
def monthIndex (cs : List ConfirmedGradidoTx) (c : ConfirmedGradidoTx) : ℕ :=
  (monthNr c - Calendar.monthNumber (firstMonth cs)).toNat

/-- The first month that the iterators go to, counted from the first month of the index. -/
def firstSearched (cs : List ConfirmedGradidoTx) (f : CompactFilter) : ℕ :=
  (monthOf (clipped cs f).startDate - Calendar.monthNumber (firstMonth cs)).toNat

/-- The last month that they go to. -/
def lastSearched (cs : List ConfirmedGradidoTx) (f : CompactFilter) : ℕ :=
  (monthOf (clipped cs f).endDate - Calendar.monthNumber (firstMonth cs)).toNat

/-- The number of the first transaction of a month. -/
def firstNrIn (cs : List ConfirmedGradidoTx) (m : ℕ) : ℕ :=
  ((monthBucket cs m).head?.map ConfirmedGradidoTx.txNr).getD 0

/-- From a month on upwards, the first one that does not end below a number: no month before it is
without transactions. -/
structure Rises (cs : List ConfirmedGradidoTx) (nr lo m : ℕ) : Prop where
  le : lo ≤ m
  full : ∀ i, lo ≤ i → i ≤ m → monthBucket cs i ≠ []
  below : ∀ c ∈ cs, lo ≤ monthIndex cs c → monthIndex cs c < m → c.txNr < nr
  reached : ∃ c ∈ cs, monthIndex cs c = m ∧ nr ≤ c.txNr

/-- From a month on downwards, the first one that does not start above a number. -/
structure Falls (cs : List ConfirmedGradidoTx) (nr hi m : ℕ) : Prop where
  le : m ≤ hi
  full : ∀ i, m ≤ i → i ≤ hi → monthBucket cs i ≠ []
  above : ∀ c ∈ cs, m < monthIndex cs c → monthIndex cs c ≤ hi → nr < c.txNr
  reached : ∃ c ∈ cs, monthIndex cs c = m ∧ c.txNr ≤ nr

/-- A month and an entry are the place for the first entry. -/
def LowPlace (cs : List ConfirmedGradidoTx) (f : CompactFilter) (place : ℕ × ℕ) : Prop :=
  if f.minTransactionNr = 0 then place = (firstSearched cs f, 0)
  else Rises cs f.minTransactionNr (firstSearched cs f) place.1 ∧
    place.2 = difference f.minTransactionNr (firstNrIn cs place.1)

/-- They are the place for the last entry. -/
def HighPlace (cs : List ConfirmedGradidoTx) (f : CompactFilter) (place : ℕ × ℕ) : Prop :=
  if f.maxTransactionNr = 0 then
    place = (lastSearched cs f, difference (monthBucket cs (lastSearched cs f)).length 1)
  else Falls cs f.maxTransactionNr (lastSearched cs f) place.1 ∧
    place.2 = difference f.maxTransactionNr (firstNrIn cs place.1)

/-- The place of `begin`. -/
def BeginPlace (cs : List ConfirmedGradidoTx) (f : CompactFilter) : ℕ × ℕ → Prop :=
  match f.searchDirection with
  | .asc => LowPlace cs f
  | .desc => HighPlace cs f

/-- The place of `end`. -/
def EndPlace (cs : List ConfirmedGradidoTx) (f : CompactFilter) : ℕ × ℕ → Prop :=
  match f.searchDirection with
  | .asc => HighPlace cs f
  | .desc => LowPlace cs f

/-- A transaction does not come before another one in the direction of a search. -/
def Beyond (f : CompactFilter) (a c : ConfirmedGradidoTx) : Prop :=
  (f.searchDirection = .asc → a.txNr ≤ c.txNr) ∧ (f.searchDirection = .desc → c.txNr ≤ a.txNr)

instance (f : CompactFilter) (a c : ConfirmedGradidoTx) : Decidable (Beyond f a c) :=
  inferInstanceAs (Decidable (_ ∧ _))

/-- A transaction lies ahead of a place, in the months from `lo` to `hi`. -/
def AheadIn (cs : List ConfirmedGradidoTx) (f : CompactFilter) (lo hi : ℕ) (place : ℕ × ℕ)
    (c : ConfirmedGradidoTx) : Prop :=
  (lo ≤ place.1 ∧ place.1 ≤ hi) ∧ (lo ≤ monthIndex cs c ∧ monthIndex cs c ≤ hi) ∧
    ∃ a ∈ (monthBucket cs place.1)[place.2]?, Beyond f a c

instance (cs : List ConfirmedGradidoTx) (f : CompactFilter) (lo hi : ℕ) (place : ℕ × ℕ)
    (c : ConfirmedGradidoTx) : Decidable (AheadIn cs f lo hi place c) :=
  inferInstanceAs (Decidable (_ ∧ _ ∧ _))

/-- A transaction lies ahead of a place, as the cursors keep it: a byte for the month, and for the
borders, and 32 bits for the entry. -/
def Ahead (cs : List ConfirmedGradidoTx) (f : CompactFilter) (place : ℕ × ℕ)
    (c : ConfirmedGradidoTx) : Prop :=
  AheadIn cs f (firstSearched cs f % 2 ^ 8) (lastSearched cs f % 2 ^ 8)
    (place.1 % 2 ^ 8, place.2 % 2 ^ 32) c

instance (cs : List ConfirmedGradidoTx) (f : CompactFilter) (place : ℕ × ℕ)
    (c : ConfirmedGradidoTx) : Decidable (Ahead cs f place c) :=
  inferInstanceAs (Decidable (AheadIn _ _ _ _ _ _))

section Lines

variable {env : Env} {own : ℕ} {cs : List ConfirmedGradidoTx} {f : CompactFilter}
  {idx : TransactionsIndex} {c : ConfirmedGradidoTx}

theorem monthNr_eq (hcs : Monthly cs) (hc : c ∈ cs) :
    monthNr c = Calendar.monthNumber (firstMonth cs) + monthIndex cs c := by
  have hle := firstMonth_le hcs hc
  unfold monthIndex
  omega

theorem mem_monthBucket (hcs : Monthly cs) {m : ℕ} :
    c ∈ monthBucket cs m ↔ c ∈ cs ∧ monthIndex cs c = m := by
  rw [monthBucket, mem_bucket]
  refine and_congr_right (fun hc => ?_)
  have heq := monthNr_eq hcs hc
  omega

theorem numbered_monthBucket (hcs : Monthly cs) (m : ℕ) :
    (monthBucket cs m).Pairwise (fun a b => a.txNr < b.txNr) :=
  hcs.numbered.filter _

/-- Later numbers are not in earlier months, counted from the first one. -/
theorem monthIndex_le (hcs : Monthly cs) {a : ConfirmedGradidoTx} (ha : a ∈ cs) (hc : c ∈ cs)
    (hle : a.txNr ≤ c.txNr) : monthIndex cs a ≤ monthIndex cs c := by
  have hmonths := hcs.month_le ha hc hle
  unfold monthIndex
  omega

/-- A transaction of an earlier month has a smaller number. -/
theorem txNr_lt_of_monthIndex_lt (hcs : Monthly cs) {a : ConfirmedGradidoTx} (ha : a ∈ cs)
    (hc : c ∈ cs) (hlt : monthIndex cs a < monthIndex cs c) : a.txNr < c.txNr := by
  by_contra hnot
  have hle := monthIndex_le hcs hc ha (by omega)
  omega

theorem filter_monthIndex (hcs : Monthly cs) (m : ℕ) (P : ConfirmedGradidoTx → Bool) :
    (monthBucket cs m).filter P =
      cs.filter (fun c => decide (monthIndex cs c = m) && P c) := by
  rw [monthBucket, bucket, List.filter_filter]
  refine List.filter_congr (fun c hc => ?_)
  have heq := monthNr_eq hcs hc
  rw [Bool.and_comm]
  congr 1
  rw [decide_eq_decide]
  omega

/-- The entries of the months from one on. -/
theorem TransactionsIndex.Holds.entriesFrom_eq (h : idx.Holds env own cs) (hcs : Monthly cs)
    (m n : ℕ) : idx.entriesFrom m n =
      (cs.filter (fun c => decide (m ≤ monthIndex cs c ∧ monthIndex cs c < m + n))).map
        (entryOf env) := by
  have hflatten := flatten_buckets hcs.months (Calendar.monthNumber (firstMonth cs) + m) n
  have hfilter : cs.filter (fun c => decide (m ≤ monthIndex cs c ∧ monthIndex cs c < m + n)) =
      cs.filter (fun c => decide (Calendar.monthNumber (firstMonth cs) + m ≤ monthNr c ∧
        monthNr c < Calendar.monthNumber (firstMonth cs) + m + n)) := by
    refine List.filter_congr (fun c hc => ?_)
    have heq := monthNr_eq hcs hc
    rw [decide_eq_decide]
    omega
  rw [hfilter, ← hflatten, keysFrom, List.map_map, List.map_flatten, List.map_map]
  unfold TransactionsIndex.entriesFrom
  congr 1
  refine List.map_congr_left (fun i _ => ?_)
  rw [h.buckets, monthBucket]
  simp only [Function.comp_apply]
  congr 2
  omega

/-- The entry at a place, with those after it up to a month. -/
theorem TransactionsIndex.Holds.aheadForward_eq (h : idx.Holds env own cs) (hcs : Monthly cs)
    {m e hi : ℕ} (hhi : m ≤ hi) {a : ConfirmedGradidoTx} (ha : (monthBucket cs m)[e]? = some a) :
    entryOf env a :: idx.aheadForward hi m e =
      (cs.filter (fun c => decide (a.txNr ≤ c.txNr ∧ monthIndex cs c ≤ hi))).map
        (entryOf env) := by
  have hmem := (mem_monthBucket hcs).1 (List.mem_of_getElem? ha)
  obtain ⟨hlt, hget⟩ := List.getElem?_eq_some_iff.1 ha
  have hdrop : a :: (monthBucket cs m).drop (e + 1) = (monthBucket cs m).drop e := by
    rw [List.drop_eq_getElem_cons hlt, hget]
  unfold TransactionsIndex.aheadForward
  rw [h.buckets, ← List.map_drop, h.entriesFrom_eq hcs, ← List.cons_append, ← List.map_cons,
    hdrop, drop_eq_filter (numbered_monthBucket hcs m) ha, filter_monthIndex hcs,
    ← List.map_append, filter_append_filter]
  · congr 1
    refine List.filter_congr (fun c hc => ?_)
    have hle := fun hnr => monthIndex_le hcs hmem.1 hc hnr
    have hlt := fun hmonth => txNr_lt_of_monthIndex_lt hcs hmem.1 hc hmonth
    rw [Bool.eq_iff_iff, decide_eq_true_iff]
    simp only [Bool.or_eq_true, Bool.and_eq_true, decide_eq_true_eq]
    omega
  · refine hcs.numbered.imp_of_mem (fun {b c} hb hc hnr hbehind => ?_)
    have hle := monthIndex_le hcs hb hc (Nat.le_of_lt hnr)
    simp only [decide_eq_true_eq] at hbehind
    simp only [Bool.and_eq_false_iff, decide_eq_false_iff_not]
    omega
  · intro c _ hmonth
    simp only [Bool.and_eq_true, decide_eq_true_eq] at hmonth
    simp only [decide_eq_false_iff_not]
    omega

/-- The entry at a place, with those before it down to a month. -/
theorem TransactionsIndex.Holds.aheadBack_eq (h : idx.Holds env own cs) (hcs : Monthly cs)
    {m e lo : ℕ} (hlo : lo ≤ m) {a : ConfirmedGradidoTx} (ha : (monthBucket cs m)[e]? = some a) :
    entryOf env a :: idx.aheadBack lo m e =
      ((cs.filter (fun c => decide (c.txNr ≤ a.txNr ∧ lo ≤ monthIndex cs c))).reverse).map
        (entryOf env) := by
  have hmem := (mem_monthBucket hcs).1 (List.mem_of_getElem? ha)
  have htake : (monthBucket cs m).take e ++ [a] = (monthBucket cs m).take (e + 1) := by
    rw [List.take_add_one, ha]
    rfl
  unfold TransactionsIndex.aheadBack
  rw [h.buckets, ← List.map_take, h.entriesFrom_eq hcs, ← List.map_reverse, ← List.map_reverse,
    ← List.map_append, ← List.map_cons, ← List.cons_append, ← List.reverse_concat, htake,
    ← List.reverse_append, take_eq_filter (numbered_monthBucket hcs m) ha,
    filter_monthIndex hcs, filter_append_filter]
  · congr 2
    refine List.filter_congr (fun c hc => ?_)
    have hle := fun hnr => monthIndex_le hcs hc hmem.1 hnr
    have hlt := fun hmonth => txNr_lt_of_monthIndex_lt hcs hc hmem.1 hmonth
    rw [Bool.eq_iff_iff, decide_eq_true_iff]
    simp only [Bool.or_eq_true, Bool.and_eq_true, decide_eq_true_eq]
    omega
  · refine hcs.numbered.imp_of_mem (fun {b c} hb hc hnr hbehind => ?_)
    have hle := monthIndex_le hcs hb hc (Nat.le_of_lt hnr)
    simp only [Bool.and_eq_true, decide_eq_true_eq] at hbehind
    simp only [decide_eq_false_iff_not]
    omega
  · intro c _ hmonth
    simp only [decide_eq_true_eq] at hmonth
    simp only [Bool.and_eq_false_iff, decide_eq_false_iff_not]
    omega

/-- **The entries ahead of a place** are those of the transactions ahead of it. -/
theorem TransactionsIndex.Holds.lineAt_eq (h : idx.Holds env own cs) (hcs : Monthly cs)
    (lo hi m e : ℕ) : idx.lineAt f lo hi m e =
      (inDirection f (cs.filter (fun c => decide (AheadIn cs f lo hi (m, e) c)))).map
        (entryOf env) := by
  have hnone : (∀ c, ¬ AheadIn cs f lo hi (m, e) c) →
      (inDirection f (cs.filter (fun c => decide (AheadIn cs f lo hi (m, e) c)))).map
        (entryOf env) = [] := by
    intro hout
    rw [List.filter_eq_nil_iff.2 (fun c _ => by simpa using hout c), inDirection_nil]
    rfl
  unfold TransactionsIndex.lineAt
  split_ifs with hinside
  · rw [h.buckets, List.getElem?_map]
    cases ha : (monthBucket cs m)[e]? with
    | none =>
      refine (hnone ?_).symm
      rintro c ⟨-, -, a, hmem, -⟩
      rw [ha] at hmem
      simp at hmem
    | some a =>
      have hmem := (mem_monthBucket hcs).1 (List.mem_of_getElem? ha)
      have hbeyond : ∀ c, AheadIn cs f lo hi (m, e) c ↔
          (lo ≤ monthIndex cs c ∧ monthIndex cs c ≤ hi) ∧ Beyond f a c := by
        intro c
        unfold AheadIn
        simp [hinside, ha]
      simp only [Option.map_some]
      unfold TransactionsIndex.aheadOf inDirection
      cases hd : f.searchDirection with
      | asc =>
        dsimp only
        rw [h.aheadForward_eq hcs hinside.2 ha]
        congr 1
        refine List.filter_congr (fun c hc => ?_)
        have hle := fun hnr => monthIndex_le hcs hmem.1 hc hnr
        rw [decide_eq_decide, hbeyond]
        simp only [Beyond, hd, true_imp_iff, reduceCtorEq, false_imp_iff, and_true]
        omega
      | desc =>
        dsimp only
        rw [h.aheadBack_eq hcs hinside.1 ha]
        congr 2
        refine List.filter_congr (fun c hc => ?_)
        have hle := fun hnr => monthIndex_le hcs hc hmem.1 hnr
        rw [decide_eq_decide, hbeyond]
        simp only [Beyond, hd, true_imp_iff, reduceCtorEq, false_imp_iff, true_and]
        omega
  · refine (hnone ?_).symm
    rintro c ⟨hplace, -⟩
    exact hinside hplace

/-- Behind a transaction that stops the search nothing is used. -/
theorem uses_behind_stop {a : ConfirmedGradidoTx} (hfew : (involved env c).length ≤ 4)
    (hbeyond : Beyond f a c) (hstop : stops env f a = true) : uses env f c = false := by
  rcases isMatchingFilter_stop hstop with ⟨hd, hlt⟩ | ⟨hd, hmax, hlt⟩
  · have hle := hbeyond.2 hd
    exact uses_eq_false hfew (.inl (by omega))
  · have hle := hbeyond.1 hd
    exact uses_eq_false hfew (.inr ⟨hmax, by omega⟩)

/-- A selection in the direction of a search is in its order. -/
theorem pairwise_inDirection (hcs : Monthly cs) (P : ConfirmedGradidoTx → Bool) :
    (inDirection f (cs.filter P)).Pairwise (Beyond f) := by
  have hsorted : (cs.filter P).Pairwise (fun a b => a.txNr < b.txNr) := hcs.numbered.filter P
  unfold inDirection
  cases hd : f.searchDirection with
  | asc => exact hsorted.imp (fun hlt => ⟨fun _ => Nat.le_of_lt hlt, by simp [hd]⟩)
  | desc =>
    exact List.pairwise_reverse.2
      (hsorted.imp (fun hlt => ⟨by simp [hd], fun _ => Nat.le_of_lt hlt⟩))

theorem inDirection_filter (P : ConfirmedGradidoTx → Bool) (l : List ConfirmedGradidoTx) :
    (inDirection f l).filter P = inDirection f (l.filter P) := by
  unfold inDirection
  cases f.searchDirection with
  | asc => rfl
  | desc => exact List.filter_reverse

/-- The numbers that are taken from a selection in the direction of a search. -/
theorem taken_entries (hcs : Monthly cs) (hfew : ∀ c ∈ cs, (involved env c).length ≤ 4)
    (P : ConfirmedGradidoTx → Bool) :
    taken (usesEntry f) (stopsEntry f) ((inDirection f (cs.filter P)).map (entryOf env)) =
      (inDirection f (cs.filter (fun c => P c && uses env f c))).map (entryOf env) := by
  have hmem : ∀ c ∈ inDirection f (cs.filter P), c ∈ cs := fun c hc =>
    List.mem_of_mem_filter (mem_inDirection.1 hc)
  have hstops : ((inDirection f (cs.filter P)).map (entryOf env)).Pairwise
      (fun e e' => stopsEntry f e = true → usesEntry f e' = false) := by
    refine List.pairwise_map.2 ((pairwise_inDirection hcs P).imp_of_mem ?_)
    intro a c _ hc hbeyond hstop
    exact uses_behind_stop (hfew c (hmem c hc)) hbeyond hstop
  rw [taken_eq_filter hstops, List.filter_map, inDirection_filter, List.filter_filter]
  congr 2
  exact List.filter_congr (fun c _ => Bool.and_comm _ _)

end Lines

/-! ### The index -/

section Index

variable {env : Env} {own : ℕ} {cs : List ConfirmedGradidoTx} {f : CompactFilter}
  {idx : TransactionsIndex} {c : ConfirmedGradidoTx}

/-- No month has more transactions than an `int` counts. -/
def Short (cs : List ConfirmedGradidoTx) : Prop :=
  ∀ m, (monthBucket cs m).length ≤ intMax

/-- Within a month the numbers are consecutive. -/
theorem txNr_monthBucket (hcs : Monthly cs) (hconsecutive : Consecutive cs) {m i : ℕ}
    (hc : (monthBucket cs m)[i]? = some c) : c.txNr = firstNrIn cs m + i := by
  have hsorted := numbered_monthBucket hcs m
  induction i generalizing c with
  | zero =>
    unfold firstNrIn
    rw [List.head?_eq_getElem?, hc]
    rfl
  | succ i ih =>
    obtain ⟨hlt, rfl⟩ := List.getElem?_eq_some_iff.1 hc
    have hbefore := @ih (monthBucket cs m)[i] (List.getElem?_eq_getElem (by omega))
    have hstep := List.pairwise_iff_getElem.1 hsorted i (i + 1) (by omega) hlt (Nat.lt_succ_self i)
    obtain ⟨hbmem, hbmonth⟩ := (mem_monthBucket hcs).1
      (List.getElem_mem (show i < (monthBucket cs m).length by omega))
    obtain ⟨hcmem, hcmonth⟩ := (mem_monthBucket hcs).1 (List.getElem_mem hlt)
    -- the next number is in the same month, and nothing stands in between
    obtain ⟨d, hd, hdnr⟩ := hconsecutive.exists_txNr hbmem hcmem (Nat.le_succ _) hstep
    have hlow := monthIndex_le hcs hbmem hd (by omega)
    have hhigh := monthIndex_le hcs hd hcmem (by omega)
    have hdmonth : monthIndex cs d = m := by omega
    obtain ⟨j, hj, hdj⟩ := List.getElem_of_mem ((mem_monthBucket hcs).2 ⟨hd, hdmonth⟩)
    have hij : i < j := by
      by_contra hnot
      rcases Nat.lt_or_eq_of_le (Nat.not_lt.1 hnot) with hji | rfl
      · have hnr := List.pairwise_iff_getElem.1 hsorted j i hj (by omega) hji
        rw [hdj] at hnr
        omega
      · rw [hdj] at hbefore hdnr
        omega
    rcases Nat.lt_or_eq_of_le (Nat.succ_le_of_lt hij) with hlater | heq
    · have hnr := List.pairwise_iff_getElem.1 hsorted (i + 1) j hlt hj hlater
      rw [hdj] at hnr
      omega
    · subst heq
      rw [hdj]
      omega

theorem TransactionsIndex.Holds.firstNrOf_eq (h : idx.Holds env own cs) (m : ℕ) :
    idx.firstNrOf m = firstNrIn cs m := by
  unfold TransactionsIndex.firstNrOf firstNrIn
  rw [h.buckets, List.head?_map, Option.map_map]
  rfl

/-- **The months of the index** are as the iterators rely on. -/
theorem TransactionsIndex.Holds.regular (h : idx.Holds env own cs) (hcs : Monthly cs)
    (hconsecutive : Consecutive cs) (hshort : Short cs) : idx.Regular where
  positive := by
    intro m e he
    rw [h.buckets] at he
    obtain ⟨c, hc, rfl⟩ := List.mem_map.1 he
    exact hcs.positive c ((mem_monthBucket hcs).1 hc).1
  numbered := by
    intro m i e he
    rw [h.buckets, List.getElem?_map, Option.map_eq_some_iff] at he
    obtain ⟨c, hc, rfl⟩ := he
    rw [h.firstNrOf_eq]
    exact txNr_monthBucket hcs hconsecutive hc
  short := by
    intro m
    rw [h.buckets, List.length_map]
    exact hshort m

/-- The months that can be asked for by their first day or later. -/
theorem TransactionsIndex.Holds.yearMonthToIndex_eq (h : idx.Holds env own cs) (hcs : Monthly cs)
    (hne : cs ≠ []) {p : ℤ} (hp : p ≠ 0)
    (hfirst : Calendar.monthNumber (firstMonth cs) ≤ monthOf p)
    (hlast : monthOf p ≤ Calendar.monthNumber (lastMonth cs)) :
    idx.yearMonthToIndex (timepointAsYearMonth p) =
      .ok (monthOf p - Calendar.monthNumber (firstMonth cs)).toNat := by
  have hmonth := isMonth_yearMonthOf p
  have hbelow := mt (TransactionsIndex.before_iff hmonth (isMonth_firstMonth hne)).1
    (by unfold monthOf at hfirst; omega)
  have habove := mt (TransactionsIndex.before_iff (isMonth_lastMonth hne) hmonth).1
    (by unfold monthOf at hlast; omega)
  rw [Bool.not_eq_true] at hbelow habove
  rw [timepointAsYearMonth_of_ne_zero hp]
  unfold TransactionsIndex.yearMonthToIndex
  rw [h.minMonth, h.maxMonth, if_neg (TransactionsIndex.firstMonth_ne_zero hcs hne), hbelow,
    habove]
  change Except.ok _ = _
  congr 2
  unfold monthOf Calendar.monthNumber
  omega

/-- The epoch is no month that can be asked for. -/
theorem TransactionsIndex.Holds.yearMonthToIndex_epoch (h : idx.Holds env own cs)
    (hcs : Monthly cs) (hne : cs ≠ []) (m : ℕ) :
    idx.yearMonthToIndex (timepointAsYearMonth 0) ≠ .ok m := by
  have hyear : 0 < (firstMonth cs).1 := by
    cases cs with
    | nil => exact absurd rfl hne
    | cons a cs => exact TransactionsIndex.year_pos (hcs.clock a List.mem_cons_self)
  have hbefore : before (timepointAsYearMonth 0) (firstMonth cs) = true := by
    simp [before, timepointAsYearMonth, timepointAsYearMonthDay, hyear]
  unfold TransactionsIndex.yearMonthToIndex
  rw [h.minMonth, if_neg (TransactionsIndex.firstMonth_ne_zero hcs hne), hbefore]
  simp [throwIf]

/-! ### The bounds of the index -/

/-- The bounds of an index that are exact. -/
structure Exact (cs : List ConfirmedGradidoTx) (idx : TransactionsIndex) : Prop where
  empty : cs = [] → idx.mMinTransactionNr = 0 ∧ idx.mMaxTransactionNr = 0
  maxNr : cs ≠ [] → ∃ c ∈ cs, c.txNr = idx.mMaxTransactionNr
  minNr : cs ≠ [] → ∃ c ∈ cs, c.txNr = idx.mMinTransactionNr
  months : ∀ c ∈ cs, monthIndex cs c < idx.monthCount

theorem monthIndex_concat {a : ConfirmedGradidoTx} (hc : c ∈ cs) :
    monthIndex (cs ++ [a]) c = monthIndex cs c := by
  cases cs with
  | nil => simp at hc
  | cons b cs => rfl

/-- **An insertion** keeps the bounds exact. -/
theorem TransactionsIndex.Holds.exact_add (h : idx.Holds env own cs)
    (hcs : Monthly (cs ++ [c])) (hexact : Exact cs idx) {idx' : TransactionsIndex}
    (hadd : idx.add env c = some idx') : Exact (cs ++ [c]) idx' := by
  rw [TransactionsIndex.add_eq_some] at hadd
  obtain ⟨-, -, -, ⟨hnonneg, hreach⟩, rfl⟩ :=
    TransactionsIndex.addIndicesForTransaction_eq_ok hadd
  have hbucket := h.bucketOf hcs
  have hlt : ∀ c' ∈ cs, c'.txNr < c.txNr := fun c' hc' =>
    (List.pairwise_append.1 hcs.numbered).2.2 c' hc' c (by simp)
  have hcount : (if idx.bucketOf (yearMonthOf c.confirmedAt.getAsTimepoint) < idx.monthCount then
        idx.monthCount else idx.monthCount + TransactionsIndex.resizeStepSize) ≥ idx.monthCount ∧
      idx.bucketOf (yearMonthOf c.confirmedAt.getAsTimepoint) <
        (if idx.bucketOf (yearMonthOf c.confirmedAt.getAsTimepoint) < idx.monthCount then
          idx.monthCount else idx.monthCount + TransactionsIndex.resizeStepSize : ℕ) := by
    split_ifs with hfits
    · exact ⟨Nat.le_refl _, hfits⟩
    · exact ⟨Nat.le_add_right _ _, hreach⟩
  refine ⟨by simp, fun _ => ⟨c, by simp, ?_⟩, fun _ => ?_, fun c' hc' => ?_⟩
  · show c.txNr = max idx.mMaxTransactionNr c.txNr
    by_cases hne : cs = []
    · have hzero := (hexact.empty hne).2
      omega
    · obtain ⟨c', hc', hmax⟩ := hexact.maxNr hne
      have hle := hlt c' hc'
      omega
  · show ∃ c' ∈ cs ++ [c], c'.txNr =
      if idx.mMinTransactionNr = 0 then c.txNr else idx.mMinTransactionNr
    split_ifs with hzero
    · exact ⟨c, by simp, rfl⟩
    · have hne : cs ≠ [] := fun hnil => hzero (hexact.empty hnil).1
      obtain ⟨c', hc', hmin⟩ := hexact.minNr hne
      exact ⟨c', List.mem_append_left _ hc', hmin⟩
  · show monthIndex (cs ++ [c]) c' <
      if idx.bucketOf (yearMonthOf c.confirmedAt.getAsTimepoint) < idx.monthCount then
        idx.monthCount else idx.monthCount + TransactionsIndex.resizeStepSize
    rcases List.mem_append.1 hc' with hc' | hc'
    · rw [monthIndex_concat hc']
      exact Nat.lt_of_lt_of_le (hexact.months c' hc') hcount.1
    · have hlast := hcount.2
      rw [List.mem_singleton.1 hc', monthIndex, ← hbucket]
      omega

/-- **The bounds of every index** that was built are exact. -/
theorem exact_of_added (hcs : Monthly cs)
    (hrun : Steps.run (TransactionsIndex.add env) (.empty own) cs = some idx) : Exact cs idx := by
  induction cs using List.reverseRecOn generalizing idx with
  | nil =>
    rw [Steps.run_nil, Option.some.injEq] at hrun
    rw [← hrun]
    exact ⟨fun _ => ⟨rfl, rfl⟩, by simp, by simp, by simp⟩
  | append_singleton cs c ih =>
    obtain ⟨idx₁, hrun₁, hadd⟩ := Steps.run_concat_eq_some.1 hrun
    exact (TransactionsIndex.holds_of_added hcs.of_concat hrun₁).exact_add hcs
      (ih hcs.of_concat hrun₁) hadd

/-! ### The walks -/

theorem TransactionsIndex.Holds.entries_eq_nil (h : idx.Holds env own cs) (m : ℕ) :
    idx.mYearMonthAddressIndexEntries m = [] ↔ monthBucket cs m = [] := by
  rw [h.buckets, List.map_eq_nil_iff]

/-- The bound is reached in a month with transactions, when it is reached at all up to there. -/
theorem exists_reached_of_le (hcs : Monthly cs) {nr m : ℕ} (hm : monthBucket cs m ≠ [])
    (hreach : ∃ c ∈ cs, nr ≤ c.txNr ∧ monthIndex cs c ≤ m) :
    ∃ c ∈ cs, monthIndex cs c = m ∧ nr ≤ c.txNr := by
  obtain ⟨c, hc, hnr, hle⟩ := hreach
  obtain ⟨d, hd⟩ := List.exists_mem_of_ne_nil _ hm
  obtain ⟨hdmem, hdmonth⟩ := (mem_monthBucket hcs).1 hd
  rcases Nat.lt_or_eq_of_le hle with hlt | heq
  · have hnr' := txNr_lt_of_monthIndex_lt hcs hc hdmem (by omega)
    exact ⟨d, hdmem, hdmonth, by omega⟩
  · exact ⟨c, hc, heq, hnr⟩

theorem exists_reached_of_ge (hcs : Monthly cs) {nr m : ℕ} (hm : monthBucket cs m ≠ [])
    (hreach : ∃ c ∈ cs, c.txNr ≤ nr ∧ m ≤ monthIndex cs c) :
    ∃ c ∈ cs, monthIndex cs c = m ∧ c.txNr ≤ nr := by
  obtain ⟨c, hc, hnr, hle⟩ := hreach
  obtain ⟨d, hd⟩ := List.exists_mem_of_ne_nil _ hm
  obtain ⟨hdmem, hdmonth⟩ := (mem_monthBucket hcs).1 hd
  rcases Nat.lt_or_eq_of_le hle with hlt | heq
  · have hnr' := txNr_lt_of_monthIndex_lt hcs hdmem hc (by omega)
    exact ⟨d, hdmem, hdmonth, by omega⟩
  · exact ⟨c, hc, heq.symm, hnr⟩

/-- A walk ends at once where the bound is reached. -/
theorem rises_iff_of_reached {nr lo m : ℕ} (hlo : monthBucket cs lo ≠ [])
    (hreached : ∃ c ∈ cs, monthIndex cs c = lo ∧ nr ≤ c.txNr) : Rises cs nr lo m ↔ lo = m := by
  constructor
  · intro hrises
    by_contra hne
    obtain ⟨c, hc, hmonth, hnr⟩ := hreached
    have hle := hrises.le
    have hlt := hrises.below c hc (by omega) (by omega)
    omega
  · rintro rfl
    refine ⟨Nat.le_refl _, fun i hlow hhigh => ?_, fun c _ hlow hhigh => by omega, hreached⟩
    rwa [show i = lo by omega]

theorem falls_iff_of_reached {nr hi m : ℕ} (hhi : monthBucket cs hi ≠ [])
    (hreached : ∃ c ∈ cs, monthIndex cs c = hi ∧ c.txNr ≤ nr) : Falls cs nr hi m ↔ hi = m := by
  constructor
  · intro hfalls
    by_contra hne
    obtain ⟨c, hc, hmonth, hnr⟩ := hreached
    have hle := hfalls.le
    have hlt := hfalls.above c hc (by omega) (by omega)
    omega
  · rintro rfl
    refine ⟨Nat.le_refl _, fun i hlow hhigh => ?_, fun c _ hlow hhigh => by omega, hreached⟩
    rwa [show i = hi by omega]

/-- **The walk upwards.** -/
theorem TransactionsIndex.Holds.climb_eq_ok_iff (h : idx.Holds env own cs) (hcs : Monthly cs)
    {nr n lo m : ℕ} (hreach : ∃ c ∈ cs, nr ≤ c.txNr ∧ monthIndex cs c ≤ lo + n) :
    idx.climb nr n lo = .ok m ↔ Rises cs nr lo m := by
  induction n generalizing lo with
  | zero =>
    rw [TransactionsIndex.climb]
    split_ifs with hempty
    · rw [h.entries_eq_nil] at hempty
      exact iff_of_false (by simp) (fun hrises => hrises.full lo (Nat.le_refl _) hrises.le hempty)
    · rw [h.entries_eq_nil] at hempty
      rw [Except.ok.injEq]
      exact (rises_iff_of_reached hempty (exists_reached_of_le hcs hempty hreach)).symm
  | succ n ih =>
    rw [TransactionsIndex.climb, h.buckets, List.getLast?_map]
    cases hlast : (monthBucket cs lo).getLast? with
    | none =>
      rw [List.getLast?_eq_none_iff] at hlast
      exact iff_of_false (by simp) (fun hrises => hrises.full lo (Nat.le_refl _) hrises.le hlast)
    | some back =>
      have hback := List.mem_of_getLast? hlast
      have hlo : monthBucket cs lo ≠ [] := List.ne_nil_of_mem hback
      obtain ⟨hbmem, hbmonth⟩ := (mem_monthBucket hcs).1 hback
      dsimp only [Option.map_some]
      by_cases hbelow : back.txNr < nr
      · -- every number of the month is below the bound
        have hall : ∀ c ∈ cs, monthIndex cs c = lo → c.txNr < nr := by
          intro c hc hmonth
          have hle := le_last (numbered_monthBucket hcs lo) hlast
            ((mem_monthBucket hcs).2 ⟨hc, hmonth⟩)
          omega
        rw [if_pos (show (entryOf env back).transactionNr < nr from hbelow),
          ih (by obtain ⟨c, hc, hnr, hle⟩ := hreach; exact ⟨c, hc, hnr, by omega⟩)]
        constructor
        · intro hrises
          have hle := hrises.le
          refine ⟨by omega, fun i hlow hhigh => ?_, fun c hc hlow hhigh => ?_, hrises.reached⟩
          · rcases Nat.lt_or_eq_of_le hlow with hlt | rfl
            · exact hrises.full i hlt hhigh
            · exact hlo
          · rcases Nat.lt_or_eq_of_le hlow with hlt | heq
            · exact hrises.below c hc hlt hhigh
            · exact hall c hc heq.symm
        · intro hrises
          have hne : lo ≠ m := by
            rintro rfl
            obtain ⟨c, hc, hmonth, hnr⟩ := hrises.reached
            have hlt := hall c hc hmonth
            omega
          have hle := hrises.le
          exact ⟨by omega, fun i hlow hhigh => hrises.full i (by omega) hhigh,
            fun c hc hlow hhigh => hrises.below c hc (by omega) hhigh, hrises.reached⟩
      · rw [if_neg (show ¬ (entryOf env back).transactionNr < nr from hbelow), Except.ok.injEq]
        exact (rises_iff_of_reached hlo ⟨back, hbmem, hbmonth, by omega⟩).symm

/-- **The walk downwards.** -/
theorem TransactionsIndex.Holds.descend_eq_ok_iff (h : idx.Holds env own cs) (hcs : Monthly cs)
    {nr hi m : ℕ} (hreach : ∃ c ∈ cs, c.txNr ≤ nr) :
    idx.descend nr hi = .ok m ↔ Falls cs nr hi m := by
  induction hi with
  | zero =>
    rw [TransactionsIndex.descend]
    split_ifs with hempty
    · rw [h.entries_eq_nil] at hempty
      exact iff_of_false (by simp)
        (fun hfalls => hfalls.full 0 hfalls.le (Nat.le_refl _) hempty)
    · rw [h.entries_eq_nil] at hempty
      obtain ⟨c, hc, hnr⟩ := hreach
      rw [Except.ok.injEq]
      exact (falls_iff_of_reached hempty
        (exists_reached_of_ge hcs hempty ⟨c, hc, hnr, Nat.zero_le _⟩)).symm
  | succ hi ih =>
    rw [TransactionsIndex.descend, h.buckets, List.head?_map]
    cases hfirst : (monthBucket cs (hi + 1)).head? with
    | none =>
      rw [List.head?_eq_none_iff] at hfirst
      exact iff_of_false (by simp)
        (fun hfalls => hfalls.full (hi + 1) hfalls.le (Nat.le_refl _) hfirst)
    | some front =>
      have hfront := List.mem_of_mem_head? hfirst
      have hhi : monthBucket cs (hi + 1) ≠ [] := List.ne_nil_of_mem hfront
      obtain ⟨hfmem, hfmonth⟩ := (mem_monthBucket hcs).1 hfront
      dsimp only [Option.map_some]
      by_cases habove : front.txNr > nr
      · -- every number of the month is above the bound
        have hall : ∀ c ∈ cs, monthIndex cs c = hi + 1 → nr < c.txNr := by
          intro c hc hmonth
          have hle := head_le (numbered_monthBucket hcs (hi + 1)) hfirst
            ((mem_monthBucket hcs).2 ⟨hc, hmonth⟩)
          omega
        rw [if_pos (show (entryOf env front).transactionNr > nr from habove), ih]
        constructor
        · intro hfalls
          have hle := hfalls.le
          refine ⟨by omega, fun i hlow hhigh => ?_, fun c hc hlow hhigh => ?_, hfalls.reached⟩
          · rcases Nat.lt_or_eq_of_le hhigh with hlt | rfl
            · exact hfalls.full i hlow (by omega)
            · exact hhi
          · rcases Nat.lt_or_eq_of_le hhigh with hlt | heq
            · exact hfalls.above c hc hlow (by omega)
            · exact hall c hc heq
        · intro hfalls
          have hne : m ≠ hi + 1 := by
            rintro rfl
            obtain ⟨c, hc, hmonth, hnr⟩ := hfalls.reached
            have hlt := hall c hc hmonth
            omega
          have hle := hfalls.le
          exact ⟨by omega, fun i hlow hhigh => hfalls.full i hlow (by omega),
            fun c hc hlow hhigh => hfalls.above c hc hlow (by omega), hfalls.reached⟩
      · rw [if_neg (show ¬ (entryOf env front).transactionNr > nr from habove), Except.ok.injEq]
        exact (falls_iff_of_reached hhi ⟨front, hfmem, hfmonth, by omega⟩).symm

end Index

/-! ### The iterators -/

/-- The filter that the iterators are placed by: for a balance, its last change is an upper
bound. -/
def placedBy (idx : TransactionsIndex) (f : CompactFilter) : CompactFilter :=
  if f.publicKeySearchType = .balanceChangingPublicKey then
    cappedAt f (lastChange idx.mAddressIndex f.publicKeyIndex.publicKeyIndex)
  else f

/-- The iterators are not placed: nothing is in the index, the interval does not overlap its
months, or the bounds are outside of its numbers. -/
def Outside (cs : List ConfirmedGradidoTx) (idx : TransactionsIndex) (f : CompactFilter) : Prop :=
  cs = [] ∨ ¬ Overlaps cs f ∨ idx.outOfBounds f = true

section Iterators

variable {env : Env} {own : ℕ} {cs : List ConfirmedGradidoTx} {f : CompactFilter}
  {idx : TransactionsIndex}

@[simp] theorem searchDirection_placedBy :
    (placedBy idx f).searchDirection = f.searchDirection := by
  unfold placedBy
  split_ifs <;> rfl

@[simp] theorem timepointInterval_placedBy :
    (placedBy idx f).timepointInterval = f.timepointInterval := by
  unfold placedBy
  split_ifs <;> rfl

@[simp] theorem minTransactionNr_placedBy :
    (placedBy idx f).minTransactionNr = f.minTransactionNr := by
  unfold placedBy
  split_ifs <;> rfl

theorem clipped_placedBy : clipped cs (placedBy idx f) = clipped cs f := by
  unfold clipped
  rw [timepointInterval_placedBy]

theorem throws_ok {α : Type} (a : α) : throws (.ok a) = .ok a := rfl

theorem throws_error {α : Type} (e : Exception) :
    (throws (.error e) : Except Fault α) = .error (.thrown e) := rfl

/-- The bound changes nothing about what is used. -/
theorem TransactionsIndex.Holds.uses_placedBy (h : idx.Holds env own cs)
    {c : ConfirmedGradidoTx} (hc : c ∈ cs) : uses env (placedBy idx f) c = uses env f c := by
  unfold placedBy
  split_ifs with hsearch
  · rw [Bool.eq_iff_iff]
    unfold uses
    rw [isMatchingFilter_use_iff (h.few c hc), isMatchingFilter_use_iff (h.few c hc)]
    exact h.matches_cappedAt hsearch hc
  · rfl

theorem TransactionsIndex.Holds.iteratorFilter_eq (h : idx.Holds env own cs)
    (hmissing : f.publicKeySearchType ≠ .missingIndex)
    (hown : f.publicKeySearchType = .balanceChangingPublicKey →
      f.publicKeyIndex.communityIdIndex = own) :
    idx.iteratorFilter f = .ok (placedBy idx f) := by
  unfold TransactionsIndex.iteratorFilter placedBy
  split
  next hsearch => exact absurd hsearch hmissing
  next hsearch =>
    rw [if_pos hsearch, h.lastBalanceChanged_eq, if_neg (not_not.2 (hown hsearch)), ok_bind]
    rfl
  next hbalance => rw [if_neg hbalance]

theorem TransactionsIndex.Holds.isEmpty_eq_false (h : idx.Holds env own cs) (hne : cs ≠ []) :
    idx.isEmpty = false := by
  have hpos := h.minPos hne
  unfold TransactionsIndex.isEmpty
  rw [decide_eq_false (by omega), Bool.false_and]

theorem TransactionsIndex.Holds.isOverlap_eq (h : idx.Holds env own cs) (hcs : Monthly cs) :
    idx.isOverlap f = .ok (decide (Overlaps cs f)) := by
  unfold TransactionsIndex.isOverlap
  by_cases hempty : f.timepointInterval.isEmpty = true
  · rw [if_pos hempty, decide_eq_true (.inl hempty)]
    rfl
  · have hsame : decide (Overlaps cs f) = f.timepointInterval.isOverlap (spanned cs) := by
      rw [Bool.eq_iff_iff, decide_eq_true_iff]
      exact or_iff_right hempty
    rw [if_neg hempty, h.interval_eq hcs, ok_bind, hsame]
    rfl

/-- Elsewhere the blockchain is not empty, and the search is not left early. -/
theorem inside_of_not_outside (hin : ¬ Outside cs idx f) :
    cs ≠ [] ∧ Overlaps cs f ∧ idx.outOfBounds f = false := by
  obtain ⟨hne, hin⟩ := not_or.1 hin
  obtain ⟨hoverlap, hbounds⟩ := not_or.1 hin
  exact ⟨hne, not_not.1 hoverlap, Bool.eq_false_iff.2 hbounds⟩

/-- Where they are not placed, both iterators are past everything. -/
theorem TransactionsIndex.Holds.createSearchIterator_of_outside (h : idx.Holds env own cs)
    (hcs : Monthly cs) (hexact : Exact cs idx) (hout : Outside cs idx f) (isEnd : Bool) :
    idx.createSearchIterator f isEnd = .ok (.past idx (idx.mMaxTransactionNr + 1)) := by
  unfold TransactionsIndex.createSearchIterator
  dsimp only
  by_cases hne : cs = []
  · obtain ⟨hmin, hmax⟩ := hexact.empty hne
    have hempty : idx.isEmpty = true := by
      simp [TransactionsIndex.isEmpty, hmin, hmax]
    rw [if_pos hempty]
    rfl
  · have hearly : (!decide (Overlaps cs f) || idx.outOfBounds f) = true := by
      rcases hout with hnil | hoverlap | hbounds
      · exact absurd hnil hne
      · simp [hoverlap]
      · simp [hbounds]
    rw [if_neg (by simp [h.isEmpty_eq_false hne]), h.isOverlap_eq hcs, throws_ok, ok_bind,
      if_pos hearly]
    rfl

/-- The filter of the iterators, with the interval that they go through. -/
def iterated (cs : List ConfirmedGradidoTx) (idx : TransactionsIndex) (f : CompactFilter) :
    CompactFilter :=
  { placedBy idx f with timepointInterval := clipped cs f }

/-- **How the iterators are made** where they are placed. -/
theorem TransactionsIndex.Holds.createSearchIterator_eq (h : idx.Holds env own cs)
    (hcs : Monthly cs) (hin : ¬ Outside cs idx f)
    (hmissing : f.publicKeySearchType ≠ .missingIndex)
    (hown : f.publicKeySearchType = .balanceChangingPublicKey →
      f.publicKeyIndex.communityIdIndex = own)
    (horder : f.timepointInterval.isOverlap (spanned cs) = true → InOrder f) (isEnd : Bool) :
    idx.createSearchIterator f isEnd =
      (if f.searchDirection = .desc ∧ isEnd = false ∨ f.searchDirection = .asc ∧ isEnd = true then
        idx.lastPlace (iterated cs idx f) else idx.firstPlace (iterated cs idx f)) >>= fun place =>
      idx.searchIterator (iterated cs idx f) place.2 place.1 >>= fun it =>
      if isEnd then idx.increment it else .ok it := by
  obtain ⟨hne, hoverlap, hbounds⟩ := inside_of_not_outside hin
  have hinterval : idx.filteredTimepointInterval (placedBy idx f) = .ok (clipped cs f) := by
    have hoverlaps : Overlaps cs (placedBy idx f) := by
      unfold Overlaps
      rwa [timepointInterval_placedBy]
    rw [h.filteredTimepointInterval_eq hcs hoverlaps, clipped_placedBy, if_pos]
    unfold InOrder
    rw [timepointInterval_placedBy]
    exact hoverlap.imp_right horder
  unfold TransactionsIndex.createSearchIterator
  dsimp only
  rw [if_neg (by simp [h.isEmpty_eq_false hne]), h.isOverlap_eq hcs, throws_ok, ok_bind,
    if_neg (by simp [hoverlap, hbounds]), h.iteratorFilter_eq hmissing hown, throws_ok, ok_bind,
    hinterval, throws_ok, ok_bind]
  split_ifs <;> rfl

/-! ### Places of the iterators -/

theorem throws_eq_ok {α : Type} {x : Except Exception α} {a : α} :
    throws x = .ok a ↔ x = .ok a := by
  cases x with
  | error e => simp [throws_error]
  | ok b => simp [throws_ok]

/-- The interval that the iterators go through is in order. -/
theorem clipped_le (hcs : Monthly cs) (hoverlaps : Overlaps cs f)
    (horder : f.timepointInterval.isOverlap (spanned cs) = true → InOrder f) :
    (clipped cs f).startDate ≤ (clipped cs f).endDate := by
  have hspanned := spanned_le hcs
  unfold clipped
  split_ifs with hempty
  · exact hspanned
  · have hoverlap := hoverlaps.resolve_left hempty
    have hle := horder hoverlap
    unfold InOrder at hle
    unfold TimepointInterval.isOverlap at hoverlap
    simp only [Bool.and_eq_true, Bool.not_eq_true', Bool.or_eq_false_iff,
      decide_eq_false_iff_not] at hoverlap
    dsimp only
    omega

/-- The bounds of the filter meet the numbers of the index. -/
theorem bounds_of_inside (hbounds : idx.outOfBounds f ≠ true) :
    f.minTransactionNr ≤ idx.mMaxTransactionNr ∧
      (f.maxTransactionNr ≠ 0 → idx.mMinTransactionNr ≤ f.maxTransactionNr) := by
  simp only [TransactionsIndex.outOfBounds, ne_eq, Bool.or_eq_true, decide_eq_true_eq] at hbounds
  omega

section Placed

variable (h : idx.Holds env own cs) (hcs : Monthly cs) (hne : cs ≠ [])
  (hle : (clipped cs f).startDate ≤ (clipped cs f).endDate)
include h hcs hne hle

theorem TransactionsIndex.Holds.lastSearched_eq (hend : (clipped cs f).endDate ≠ 0) :
    idx.yearMonthToIndex (timepointAsYearMonth (clipped cs f).endDate) =
      .ok (lastSearched cs f) := by
  obtain ⟨hfirst, hlast⟩ := @inside_clipped cs f hcs hne
  have hmono := monthOf_mono hle
  exact h.yearMonthToIndex_eq hcs hne hend (by omega) hlast

theorem TransactionsIndex.Holds.firstSearched_eq (hstart : (clipped cs f).startDate ≠ 0) :
    idx.yearMonthToIndex (timepointAsYearMonth (clipped cs f).startDate) =
      .ok (firstSearched cs f) := by
  obtain ⟨hfirst, hlast⟩ := @inside_clipped cs f hcs hne
  have hmono := monthOf_mono hle
  exact h.yearMonthToIndex_eq hcs hne hstart hfirst (by omega)

/-- **The place for the last entry.** -/
theorem TransactionsIndex.Holds.lastPlace_eq_ok_iff (hexact : Exact cs idx)
    (hbounds : idx.outOfBounds f ≠ true) (hend : (clipped cs f).endDate ≠ 0) {place : ℕ × ℕ} :
    idx.lastPlace (iterated cs idx f) = .ok place ↔ HighPlace cs (placedBy idx f) place := by
  obtain ⟨m, e⟩ := place
  have hsearched : lastSearched cs (placedBy idx f) = lastSearched cs f := by
    rw [lastSearched, lastSearched, clipped_placedBy]
  have hmonth : idx.yearMonthToIndex
      (timepointAsYearMonth (iterated cs idx f).timepointInterval.endDate) =
        .ok (lastSearched cs f) := h.lastSearched_eq hcs hne hle hend
  unfold TransactionsIndex.lastPlace HighPlace
  rw [hmonth, throws_ok, ok_bind, hsearched]
  by_cases hmax : (placedBy idx f).maxTransactionNr = 0
  · rw [if_pos hmax, if_pos (show (iterated cs idx f).maxTransactionNr = 0 from hmax), h.buckets,
      List.length_map, pure_eq_ok]
    exact eq_comm
  · have hreach : ∃ c ∈ cs, c.txNr ≤ (placedBy idx f).maxTransactionNr := by
      obtain ⟨c, hc, hmin⟩ := hexact.minNr hne
      have hplain : f.maxTransactionNr ≠ 0 → c.txNr ≤ f.maxTransactionNr := by
        rw [hmin]
        exact (bounds_of_inside hbounds).2
      unfold placedBy cappedAt at hmax ⊢
      split_ifs at hmax ⊢ with hsearch hcap
      · obtain ⟨c', hc', heq⟩ := h.lastNr _ hcap.1
        exact ⟨c', hc', Nat.le_of_eq heq⟩
      · exact ⟨c, hc, hplain hmax⟩
      · exact ⟨c, hc, hplain hmax⟩
    rw [if_neg hmax, if_neg (show ¬ (iterated cs idx f).maxTransactionNr = 0 from hmax)]
    change (idx.descend (placedBy idx f).maxTransactionNr _ >>= fun month =>
      (pure (month, difference (placedBy idx f).maxTransactionNr (idx.firstNrOf month)) :
        Except Fault (ℕ × ℕ))) = .ok (m, e) ↔ _
    simp only [bind_eq_ok, pure_eq_ok, h.descend_eq_ok_iff hcs hreach, h.firstNrOf_eq,
      Prod.mk.injEq]
    constructor
    · rintro ⟨month, hfalls, rfl, rfl⟩
      exact ⟨hfalls, rfl⟩
    · rintro ⟨hfalls, rfl⟩
      exact ⟨m, hfalls, rfl, rfl⟩

/-- **The place for the first entry.** -/
theorem TransactionsIndex.Holds.firstPlace_eq_ok_iff (hexact : Exact cs idx)
    (hbounds : idx.outOfBounds f ≠ true) (hstart : (clipped cs f).startDate ≠ 0)
    {place : ℕ × ℕ} :
    idx.firstPlace (iterated cs idx f) = .ok place ↔ LowPlace cs (placedBy idx f) place := by
  obtain ⟨m, e⟩ := place
  have hsearched : firstSearched cs (placedBy idx f) = firstSearched cs f := by
    rw [firstSearched, firstSearched, clipped_placedBy]
  have hmonth : idx.yearMonthToIndex
      (timepointAsYearMonth (iterated cs idx f).timepointInterval.startDate) =
        .ok (firstSearched cs f) := h.firstSearched_eq hcs hne hle hstart
  have hminNr : (iterated cs idx f).minTransactionNr = f.minTransactionNr :=
    minTransactionNr_placedBy
  unfold TransactionsIndex.firstPlace LowPlace
  rw [hmonth, throws_ok, ok_bind, hsearched, hminNr, minTransactionNr_placedBy]
  by_cases hmin : f.minTransactionNr = 0
  · rw [if_pos hmin, if_pos hmin, pure_eq_ok]
    exact eq_comm
  · have hreach : ∃ c ∈ cs, f.minTransactionNr ≤ c.txNr ∧
        monthIndex cs c ≤ firstSearched cs f + (idx.monthCount - 1 - firstSearched cs f) := by
      obtain ⟨c, hc, hmax⟩ := hexact.maxNr hne
      have hmonths := hexact.months c hc
      have hle' := (bounds_of_inside hbounds).1
      exact ⟨c, hc, by omega, by omega⟩
    rw [if_neg hmin, if_neg hmin]
    simp only [bind_eq_ok, pure_eq_ok, h.climb_eq_ok_iff hcs hreach, h.firstNrOf_eq,
      Prod.mk.injEq]
    constructor
    · rintro ⟨month, hrises, rfl, rfl⟩
      exact ⟨hrises, rfl⟩
    · rintro ⟨hrises, rfl⟩
      exact ⟨m, hrises, rfl, rfl⟩

/-- **The places of both iterators.** -/
theorem TransactionsIndex.Holds.place_eq_ok_iff (hexact : Exact cs idx)
    (hbounds : idx.outOfBounds f ≠ true)
    (hdated : (clipped cs f).startDate ≠ 0 ∧ (clipped cs f).endDate ≠ 0) (isEnd : Bool)
    {place : ℕ × ℕ} :
    (if f.searchDirection = .desc ∧ isEnd = false ∨ f.searchDirection = .asc ∧ isEnd = true then
        idx.lastPlace (iterated cs idx f) else idx.firstPlace (iterated cs idx f)) = .ok place ↔
      (if isEnd then EndPlace cs (placedBy idx f) place
        else BeginPlace cs (placedBy idx f) place) := by
  unfold EndPlace BeginPlace
  rw [searchDirection_placedBy]
  cases f.searchDirection with
  | asc =>
    cases isEnd with
    | true =>
      rw [if_pos (by simp), if_pos rfl]
      exact h.lastPlace_eq_ok_iff hcs hne hle hexact hbounds hdated.2
    | false =>
      rw [if_neg (by simp), if_neg (by simp)]
      exact h.firstPlace_eq_ok_iff hcs hne hle hexact hbounds hdated.1
  | desc =>
    cases isEnd with
    | true =>
      rw [if_neg (by simp), if_pos rfl]
      exact h.firstPlace_eq_ok_iff hcs hne hle hexact hbounds hdated.1
    | false =>
      rw [if_pos (by simp), if_neg (by simp)]
      exact h.lastPlace_eq_ok_iff hcs hne hle hexact hbounds hdated.2

end Placed

/-- Either month of the epoch cannot be asked for. -/
theorem TransactionsIndex.Holds.dated_of_searchIterator (h : idx.Holds env own cs)
    (hcs : Monthly cs) (hne : cs ≠ []) {g : CompactFilter} {e m : ℕ} {it : SearchIterator}
    (hit : idx.searchIterator g e m = .ok it) :
    g.timepointInterval.startDate ≠ 0 ∧ g.timepointInterval.endDate ≠ 0 := by
  unfold TransactionsIndex.searchIterator at hit
  obtain ⟨last, hlast, hit⟩ := bind_eq_ok.1 hit
  obtain ⟨first, hfirst, -⟩ := bind_eq_ok.1 hit
  rw [throws_eq_ok] at hlast hfirst
  refine ⟨fun hzero => ?_, fun hzero => ?_⟩
  · rw [hzero] at hfirst
    exact h.yearMonthToIndex_epoch hcs hne first hfirst
  · rw [hzero] at hlast
    exact h.yearMonthToIndex_epoch hcs hne last hlast

theorem searchDirection_iterated : (iterated cs idx f).searchDirection = f.searchDirection :=
  searchDirection_placedBy

/-- **What is taken from a place on.** -/
theorem TransactionsIndex.Holds.taken_lineAt (h : idx.Holds env own cs) (hcs : Monthly cs)
    (place : ℕ × ℕ) :
    taken (usesEntry (iterated cs idx f)) (stopsEntry (iterated cs idx f))
        (idx.lineAt (iterated cs idx f) (firstSearched cs f % 2 ^ 8) (lastSearched cs f % 2 ^ 8)
          (place.1 % 2 ^ 8) (place.2 % 2 ^ 32)) =
      (inDirection f (cs.filter (fun c => decide (Ahead cs f place c) && uses env f c))).map
        (entryOf env) := by
  have hdirection : ∀ l : List ConfirmedGradidoTx,
      inDirection (iterated cs idx f) l = inDirection f l := by
    intro l
    unfold inDirection
    rw [searchDirection_iterated]
  have hahead : ∀ c, AheadIn cs (iterated cs idx f) (firstSearched cs f % 2 ^ 8)
      (lastSearched cs f % 2 ^ 8) (place.1 % 2 ^ 8, place.2 % 2 ^ 32) c ↔ Ahead cs f place c := by
    intro c
    unfold Ahead AheadIn Beyond
    rw [searchDirection_iterated]
  rw [h.lineAt_eq hcs, taken_entries hcs h.few, hdirection]
  congr 2
  refine List.filter_congr (fun c hc => ?_)
  have huses : uses env (iterated cs idx f) c = uses env f c := h.uses_placedBy hc
  rw [huses, decide_eq_decide.2 (hahead c)]

/-- The loop stops at an end: ahead of it at most one transaction is used. -/
def StopsAt (env : Env) (cs : List ConfirmedGradidoTx) (f : CompactFilter) (finish : ℕ × ℕ) :
    Prop :=
  (cs.filter (fun c => decide (Ahead cs f finish c) && uses env f c)).length ≤ 1

instance (env : Env) (cs : List ConfirmedGradidoTx) (f : CompactFilter) (finish : ℕ × ℕ) :
    Decidable (StopsAt env cs f finish) :=
  inferInstanceAs (Decidable (_ ≤ _))

/-- The loop from one place to another gives a list: what is used ahead of its beginning, when it
stops at its end, and otherwise nothing, where something is used. -/
def LoopGives (env : Env) (cs : List ConfirmedGradidoTx) (f : CompactFilter) (start finish : ℕ × ℕ)
    (l : List ℕ) : Prop :=
  let used := cs.filter (fun c => decide (Ahead cs f start c) && uses env f c)
  if StopsAt env cs f finish then l = (inDirection f used).map ConfirmedGradidoTx.txNr
  else used ≠ [] ∧ l = []

/-- The iterators that stand for two places, and the loop between them. -/
theorem TransactionsIndex.Holds.exists_iterators (h : idx.Holds env own cs) (hcs : Monthly cs)
    (hidx : idx.Regular)
    (hfirst : idx.yearMonthToIndex (timepointAsYearMonth (clipped cs f).startDate) =
      .ok (firstSearched cs f))
    (hlast : idx.yearMonthToIndex (timepointAsYearMonth (clipped cs f).endDate) =
      .ok (lastSearched cs f)) (start finish : ℕ × ℕ) :
    ∃ it past pastEnd, idx.searchIterator (iterated cs idx f) start.2 start.1 = .ok it ∧
      idx.searchIterator (iterated cs idx f) finish.2 finish.1 = .ok past ∧
      idx.increment past = .ok pastEnd ∧
      ∀ l, collect (fun it => it.equals pastEnd) SearchIterator.mTxNr idx.increment .endless
        loopBound it = .ok l ↔ LoopGives env cs f start finish l := by
  have hhi : lastSearched cs f % 2 ^ 8 < 2 ^ 8 := Nat.mod_lt _ (by decide)
  obtain ⟨it, hit, hlands⟩ := searchIterator_lands (f := iterated cs idx f) hidx hlast hfirst
    start.2 start.1
  obtain ⟨past, hpast, hlandsPast⟩ := searchIterator_lands (f := iterated cs idx f) hidx hlast
    hfirst finish.2 finish.1
  obtain ⟨pastEnd, hend, hstopped⟩ := exists_pastEnd hidx hhi hlandsPast
  refine ⟨it, past, pastEnd, hit, hpast, hend, fun l => ?_⟩
  have hlength := length_lineAt_lt hidx (iterated cs idx f) hhi (firstSearched cs f % 2 ^ 8)
    (start.1 % 2 ^ 8) (start.2 % 2 ^ 32)
  rw [h.taken_lineAt hcs, List.length_map, length_inDirection] at hstopped
  change pastEnd.mStopped = true ↔ StopsAt env cs f finish at hstopped
  rw [collect_eq hidx hhi hlength hlands, h.taken_lineAt hcs, List.map_map]
  unfold LoopGives
  dsimp only
  by_cases hone : pastEnd.mStopped = true
  · rw [if_pos hone, if_pos (hstopped.1 hone), Except.ok.injEq]
    exact eq_comm
  · rw [if_neg hone, if_neg (mt hstopped.2 hone)]
    split_ifs with hnone
    all_goals rw [List.map_eq_nil_iff, inDirection_eq_nil_iff] at hnone
    · exact iff_of_false (by simp) (fun hand => hand.1 hnone)
    · rw [Except.ok.injEq]
      exact ⟨fun hnil => ⟨hnone, hnil.symm⟩, fun hand => hand.2.symm⟩

/-- **The loop** between iterators that are placed. -/
theorem TransactionsIndex.Holds.enumerate_eq_ok_iff (h : idx.Holds env own cs)
    (hcs : Monthly cs) (hexact : Exact cs idx) (hidx : idx.Regular) (hin : ¬ Outside cs idx f)
    (hmissing : f.publicKeySearchType ≠ .missingIndex)
    (hown : f.publicKeySearchType = .balanceChangingPublicKey →
      f.publicKeyIndex.communityIdIndex = own)
    (horder : f.timepointInterval.isOverlap (spanned cs) = true → InOrder f) {l : List ℕ} :
    idx.enumerate f = .ok l ↔
      ((clipped cs f).startDate ≠ 0 ∧ (clipped cs f).endDate ≠ 0) ∧
        ∃ start, BeginPlace cs (placedBy idx f) start ∧
          ∃ finish, EndPlace cs (placedBy idx f) finish ∧ LoopGives env cs f start finish l := by
  obtain ⟨hne, hoverlap, hinside⟩ := inside_of_not_outside hin
  have hbounds := Bool.eq_false_iff.1 hinside
  have hle := clipped_le hcs hoverlap horder
  unfold TransactionsIndex.enumerate
  rw [h.createSearchIterator_eq hcs hin hmissing hown horder,
    h.createSearchIterator_eq hcs hin hmissing hown horder]
  by_cases hdated : (clipped cs f).startDate ≠ 0 ∧ (clipped cs f).endDate ≠ 0
  · have hfirst := h.firstSearched_eq hcs hne hle hdated.1
    have hlast := h.lastSearched_eq hcs hne hle hdated.2
    have hplaces := @TransactionsIndex.Holds.place_eq_ok_iff env own cs f idx h hcs hne hle hexact
      hbounds hdated
    rw [and_iff_right hdated]
    constructor
    · intro hok
      obtain ⟨it', hmade, hok⟩ := bind_eq_ok.1 hok
      obtain ⟨pastEnd', hmadeEnd, hok⟩ := bind_eq_ok.1 hok
      obtain ⟨start, hstart, hmade⟩ := bind_eq_ok.1 hmade
      obtain ⟨finish, hplace, hmadeEnd⟩ := bind_eq_ok.1 hmadeEnd
      obtain ⟨it, past, pastEnd, hit, hpast, hend, hloop⟩ :=
        h.exists_iterators hcs hidx hfirst hlast start finish
      rw [hit] at hmade
      rw [hpast] at hmadeEnd
      obtain rfl : it = it' := Except.ok.inj hmade
      obtain rfl : pastEnd = pastEnd' := Except.ok.inj (hend.symm.trans hmadeEnd)
      exact ⟨start, (hplaces false).1 hstart, finish, (hplaces true).1 hplace, (hloop l).1 hok⟩
    · rintro ⟨start, hstart, finish, hplace, hgives⟩
      obtain ⟨it, past, pastEnd, hit, hpast, hend, hloop⟩ :=
        h.exists_iterators hcs hidx hfirst hlast start finish
      refine bind_eq_ok.2 ⟨it, bind_eq_ok.2 ⟨start, (hplaces false).2 hstart, ?_⟩,
        bind_eq_ok.2 ⟨pastEnd, bind_eq_ok.2 ⟨finish, (hplaces true).2 hplace, ?_⟩,
          (hloop l).2 hgives⟩⟩
      · rw [hit]
        rfl
      · rw [hpast]
        exact hend
  · refine iff_of_false (fun hok => hdated ?_) (fun hand => hdated hand.1)
    obtain ⟨it, hit, -⟩ := bind_eq_ok.1 hok
    obtain ⟨place, -, hit⟩ := bind_eq_ok.1 hit
    obtain ⟨it', hit', -⟩ := bind_eq_ok.1 hit
    exact h.dated_of_searchIterator hcs hne hit'

/-! ### The enumeration -/

/-- The search finds a transaction, if the filter uses it. -/
def Searched (cs : List ConfirmedGradidoTx) (f : CompactFilter) (c : ConfirmedGradidoTx) : Prop :=
  InMonths f c ∧ (f.searchDirection = .desc → ¬ StartsEarlier cs f c)

/-- Two places agree with the search: of what the filter uses, what lies ahead of the beginning is
what the search finds.  Where the loop does not stop at its end, it ends at once: then something
has to lie ahead, and nothing may be found. -/
def Agrees (env : Env) (cs : List ConfirmedGradidoTx) (f : CompactFilter) (start finish : ℕ × ℕ) :
    Prop :=
  if StopsAt env cs f finish then
    ∀ c ∈ cs, uses env f c = true → (Ahead cs f start c ↔ Searched cs f c)
  else
    (∃ c ∈ cs, uses env f c = true ∧ Ahead cs f start c) ∧
      ∀ c ∈ cs, uses env f c = true → ¬ Searched cs f c

/-- What a filter has to respect, unless the iterators are not placed at all.

* The key must have a number, and the interval must not start or end at the epoch.
* No month without transactions is met on the walks to the places of `begin` and `end`: from the
  first month up to the minimal number, and from the last month down to the maximal one.
* The places agree with the search. -/
def Enumerable (env : Env) (cs : List ConfirmedGradidoTx) (idx : TransactionsIndex)
    (f : CompactFilter) : Prop :=
  Outside cs idx f ∨
    f.publicKeySearchType ≠ .missingIndex ∧
      ((clipped cs f).startDate ≠ 0 ∧ (clipped cs f).endDate ≠ 0) ∧
        ∃ start, BeginPlace cs (placedBy idx f) start ∧
          ∃ finish, EndPlace cs (placedBy idx f) finish ∧ Agrees env cs f start finish

theorem found_eq_true_iff {c : ConfirmedGradidoTx} :
    found env cs f c = true ↔
      uses env f c = true ∧ (f.searchDirection = .desc → ¬ StartsEarlier cs f c) := by
  unfold found
  rw [Bool.and_eq_true]
  refine and_congr_right (fun _ => ?_)
  cases f.searchDirection with
  | asc => simp
  | desc => simp

/-- What the loop gives is what the search finds exactly when the places agree with it. -/
theorem loopGives_iff_agrees (hcs : Monthly cs) (hoverlaps : Overlaps cs f)
    (start finish : ℕ × ℕ) :
    LoopGives env cs f start finish ((inDirection f (cs.filter (fun c =>
        decide (Overlaps cs f ∧ InMonths f c) && found env cs f c))).map
          ConfirmedGradidoTx.txNr) ↔ Agrees env cs f start finish := by
  have hfound : ∀ c, (decide (Overlaps cs f ∧ InMonths f c) && found env cs f c) = true ↔
      uses env f c = true ∧ Searched cs f c := by
    intro c
    rw [Bool.and_eq_true, decide_eq_true_iff, found_eq_true_iff, and_iff_right hoverlaps]
    exact and_left_comm
  unfold LoopGives Agrees
  dsimp only
  split_ifs with hstops
  · rw [map_inDirection, map_inDirection, inDirection_inj, map_filter_eq_iff hcs.numbered]
    refine forall₂_congr (fun c _ => ?_)
    rw [Bool.eq_iff_iff, hfound, Bool.and_eq_true, decide_eq_true_iff]
    constructor
    · intro hsame huse
      exact ⟨fun hahead => (hsame.2 ⟨hahead, huse⟩).2,
        fun hsearched => (hsame.1 ⟨huse, hsearched⟩).1⟩
    · intro hsame
      exact ⟨fun ⟨huse, hsearched⟩ => ⟨(hsame huse).2 hsearched, huse⟩,
        fun ⟨hahead, huse⟩ => ⟨huse, (hsame huse).1 hahead⟩⟩
  · rw [List.map_eq_nil_iff, inDirection_eq_nil_iff, List.filter_eq_nil_iff]
    refine and_congr ?_ (forall₂_congr (fun c _ => ?_))
    · rw [ne_eq, List.filter_eq_nil_iff]
      constructor
      · intro hsome
        by_contra hnone
        refine hsome (fun c hc hboth => hnone ⟨c, hc, ?_⟩)
        rw [Bool.and_eq_true, decide_eq_true_iff] at hboth
        exact ⟨hboth.2, hboth.1⟩
      · rintro ⟨c, hc, huse, hahead⟩ hnone
        exact hnone c hc (by rw [Bool.and_eq_true, decide_eq_true_iff]; exact ⟨hahead, huse⟩)
    · rw [hfound, not_and]

/-- For a key without a number the iterators are refused. -/
theorem TransactionsIndex.Holds.enumerate_of_missing (h : idx.Holds env own cs)
    (hcs : Monthly cs) (hin : ¬ Outside cs idx f) (hmissing : f.publicKeySearchType = .missingIndex)
    (l : List ℕ) : idx.enumerate f ≠ .ok l := by
  obtain ⟨hne, hoverlap, hbounds⟩ := inside_of_not_outside hin
  have hrefused : idx.iteratorFilter f = .error (.gradidoNodeInvalidData
      "invalid filter, PublicKeySearchType is MissingIndex") := by
    simp [TransactionsIndex.iteratorFilter, hmissing]
  intro hok
  obtain ⟨it, hit, -⟩ := bind_eq_ok.1 hok
  unfold TransactionsIndex.createSearchIterator at hit
  dsimp only at hit
  rw [if_neg (by simp [h.isEmpty_eq_false hne]), h.isOverlap_eq hcs, throws_ok, ok_bind,
    if_neg (by simp [hoverlap, hbounds]), hrefused, throws_error] at hit
  exact absurd hit (by simp [bind, Except.bind])

/-- Where the iterators are not placed, nothing is enumerated, as nothing is found. -/
theorem TransactionsIndex.Holds.enumerate_of_outside (h : idx.Holds env own cs)
    (hcs : Monthly cs) (hexact : Exact cs idx) (hsize : f.pagination.size = 0)
    (hout : Outside cs idx f) {l : List ℕ} (hfind : idx.findTransactions f = .ok l) :
    idx.enumerate f = .ok l := by
  have hloop : idx.enumerate f = .ok [] := by
    obtain ⟨n, hn⟩ : ∃ n, loopBound = n + 1 := by
      unfold loopBound
      exact ⟨_, rfl⟩
    unfold TransactionsIndex.enumerate
    rw [h.createSearchIterator_of_outside hcs hexact hout,
      h.createSearchIterator_of_outside hcs hexact hout, ok_bind, ok_bind, hn]
    exact collect_of_done rfl n
  have hnil : l = [] := by
    by_cases hmissing : f.publicKeySearchType = .missingIndex
    · rw [h.findTransactions_eq hcs hsize, if_pos hmissing, Except.ok.injEq] at hfind
      exact hfind.symm
    · obtain ⟨hown, hordered⟩ := h.ordered_of_returns hcs hsize (d := f.searchDirection) hfind
        hmissing
      have hl := h.findTransactions_of_ordered hcs hsize hmissing hown hordered f.searchDirection
      rw [show idx.findTransactions { f with searchDirection := f.searchDirection } = .ok l from
        hfind, Except.ok.injEq] at hl
      rw [hl, List.filter_eq_nil_iff.2, inDirection_nil, List.map_nil]
      intro c hc hboth
      rw [Bool.and_eq_true, decide_eq_true_iff] at hboth
      rcases hout with rfl | hoverlap | hbounds
      · simp at hc
      · exact hoverlap hboth.1.1
      · have hused := (Bool.and_eq_true _ _ ▸ hboth.2 : _ ∧ _).1
        rw [h.uses_of_outOfBounds hbounds hc] at hused
        simp at hused
  rw [hloop, hnil]

/-- **The loop over the iterators** gives exactly what the search finds for the filters that respect
`Enumerable`. -/
theorem enumerates_iff (hcs : Monthly cs) (hconsecutive : Consecutive cs) (hshort : Short cs)
    (hrun : Steps.run (TransactionsIndex.add env) (.empty own) cs = some idx)
    (hsize : f.pagination.size = 0) {l : List ℕ} (hfind : idx.findTransactions f = .ok l) :
    idx.enumerate f = .ok l ↔ Enumerable env cs idx f := by
  have h := TransactionsIndex.holds_of_added hcs hrun
  have hexact := exact_of_added hcs hrun
  have hidx := h.regular hcs hconsecutive hshort
  by_cases hout : Outside cs idx f
  · exact iff_of_true (h.enumerate_of_outside hcs hexact hsize hout hfind) (.inl hout)
  by_cases hmissing : f.publicKeySearchType = .missingIndex
  · refine iff_of_false (h.enumerate_of_missing hcs hout hmissing l) ?_
    rintro (houtside | ⟨hne, -⟩)
    · exact hout houtside
    · exact hne hmissing
  obtain ⟨-, hoverlap, hbounds⟩ := inside_of_not_outside hout
  obtain ⟨hown, hordered⟩ := h.ordered_of_returns hcs hsize (d := f.searchDirection) hfind hmissing
  have hl := h.findTransactions_of_ordered hcs hsize hmissing hown hordered f.searchDirection
  rw [show idx.findTransactions { f with searchDirection := f.searchDirection } = .ok l from hfind,
    Except.ok.injEq] at hl
  have hgives : ∀ start finish, LoopGives env cs f start finish l ↔
      Agrees env cs f start finish := by
    intro start finish
    rw [hl]
    exact loopGives_iff_agrees hcs hoverlap start finish
  rw [h.enumerate_eq_ok_iff hcs hexact hidx hout hmissing hown (hordered hbounds)]
  simp only [hgives]
  unfold Enumerable
  rw [or_iff_right hout, and_iff_right hmissing]

end Iterators

/-! ### Two transactions of one month, enumerated -/

open Gradido.TransactionsIndex (january5 january10)

theorem short_january : Short [january5, january10] := fun m =>
  Nat.le_trans (List.length_filter_le _ _)
    (show [january5, january10].length ≤ intMax by decide)

/-- Backwards from the number five, which is not given yet, nothing is enumerated: the place of the
number is behind the last entry of the month. -/
theorem january_not_enumerated : ∃ idx,
    Steps.run (TransactionsIndex.add Sample.env) (.empty 1) [january5, january10] = some idx ∧
      Monthly [january5, january10] ∧ Consecutive [january5, january10] ∧
      idx.findTransactions { maxTransactionNr := 5 } = .ok [2, 1] ∧
      idx.enumerate { maxTransactionNr := 5 } = .ok [] := by
  obtain ⟨idx, hrun⟩ := added_january
  have hboth : ((Steps.run (TransactionsIndex.add Sample.env) (.empty 1)
      [january5, january10]).map (fun idx =>
        (idx.findTransactions { maxTransactionNr := 5 },
          idx.enumerate { maxTransactionNr := 5 }))) = some (.ok [2, 1], .ok []) := by
    decide +kernel
  rw [hrun, Option.map_some, Option.some.injEq, Prod.mk.injEq] at hboth
  exact ⟨idx, hrun, monthly_january, consecutive_january, hboth.1, hboth.2⟩

/-- Backwards from the number two, the last one, both are enumerated. -/
theorem january_enumerated : ∃ idx,
    Steps.run (TransactionsIndex.add Sample.env) (.empty 1) [january5, january10] = some idx ∧
      Enumerable Sample.env [january5, january10] idx { maxTransactionNr := 2 } := by
  obtain ⟨idx, hrun⟩ := added_january
  have hboth : ((Steps.run (TransactionsIndex.add Sample.env) (.empty 1)
      [january5, january10]).map (fun idx =>
        (idx.findTransactions { maxTransactionNr := 2 },
          idx.enumerate { maxTransactionNr := 2 }))) = some (.ok [2, 1], .ok [2, 1]) := by
    decide +kernel
  rw [hrun, Option.map_some, Option.some.injEq, Prod.mk.injEq] at hboth
  exact ⟨idx, hrun, (enumerates_iff monthly_january consecutive_january short_january hrun rfl
    hboth.1).1 hboth.2⟩

end ByMonth

end Gradido
