import GradidoBlockchain.Blockchain.InMemory

/-!
# What the index knows

The index of a blockchain is compared with the list of compact transactions
that were added to it.  `Indexes` says, for every part of the index, which
transactions it has to contain; `Fits` collects the limits that a further
transaction has to respect; `Indexes.addTransactionIndices` is the step: within
the limits the insertion does not throw and the index knows one more
transaction.
-/

namespace Gradido

open Checked

/-! ### Address types -/

namespace ConfirmedGradidoTx

/-- The addresses that a transaction gives a type, in the order of
`AddressIndex::addTransaction`. -/
def typedAddresses (tx : ConfirmedGradidoTx) : List (ℕ × AddressType) :=
  match tx.specific with
  | .communityRoot _ gmw auf => [(auf, .communityAuf), (gmw, .communityGmw)]
  | .registerAddress addressType user account => [(user, addressType), (account, addressType)]
  | .deferredTransfer _ _ recipient _ => [(recipient, .deferredTransfer)]
  | _ => []

/-- The day of a transaction, as the index sees it. -/
def date (tx : ConfirmedGradidoTx) : YearMonthDay :=
  timepointAsYearMonthDay tx.confirmedAt.getAsTimepoint

end ConfirmedGradidoTx

namespace AddressIndex

/-- The types of addresses that a list of transactions has given, as the address index stores
them. -/
structure Types (cs : List ConfirmedGradidoTx) (a : AddressIndex) : Prop where
  type : ∀ k t, (∃ data, a.mIndexTransactionNrs k = some data ∧ data.addressType = t) ↔
    ∃ c ∈ cs, (k, t) ∈ c.typedAddresses
  nrs : ∀ k data, a.mIndexTransactionNrs k = some data → ∀ n, n ∈ data.transactionNrs ↔
    ∃ c ∈ cs, c.txNr = n ∧ ∃ t, (k, t) ∈ c.typedAddresses

/-- The insertions of `AddressIndex::addTransaction`, one after the other. -/
def addTyped (nr : ℕ) : List (ℕ × AddressType) → AddressIndex → AddressIndex × Except Exception Unit
  | [], a => (a, .ok ())
  | (k, t) :: l, a => andThen (a.addTransactionNrForIndex k nr t) (addTyped nr l)

theorem addTransaction_eq (a : AddressIndex) (tx : ConfirmedGradidoTx) :
    a.addTransaction tx = andThen (addTyped tx.txNr tx.typedAddresses a)
      (fun a => (tx.accountBalances.foldl
        (fun a b => a.updateLastBalanceChangingTransactionNr b.publicKeyIndex tx.txNr) a,
        .ok ())) := by
  unfold addTransaction ConfirmedGradidoTx.typedAddresses
  cases tx.specific <;> simp only [addTyped, andThen_pure]

/-- What is known while the typed addresses of one transaction are inserted: those of earlier
transactions and those of the list that was already worked off. -/
structure Partial (cs : List ConfirmedGradidoTx) (nr : ℕ) (done : List (ℕ × AddressType))
    (a : AddressIndex) : Prop where
  type : ∀ k t, (∃ data, a.mIndexTransactionNrs k = some data ∧ data.addressType = t) ↔
    (∃ c ∈ cs, (k, t) ∈ c.typedAddresses) ∨ (k, t) ∈ done
  nrs : ∀ k data, a.mIndexTransactionNrs k = some data → ∀ n, n ∈ data.transactionNrs ↔
    (∃ c ∈ cs, c.txNr = n ∧ ∃ t, (k, t) ∈ c.typedAddresses) ∨ n = nr ∧ ∃ t, (k, t) ∈ done

/-- An entry of the only type that its address has, with one number more than was known. -/
theorem Partial.update {cs : List ConfirmedGradidoTx} {nr : ℕ} {done : List (ℕ × AddressType)}
    {a : AddressIndex} (h : Partial cs nr done a) {k : ℕ} (data : AddressData)
    (htype : ∀ old, a.mIndexTransactionNrs k = some old → old.addressType = data.addressType)
    (hnrs : ∀ n, n ∈ data.transactionNrs ↔
      (∃ old, a.mIndexTransactionNrs k = some old ∧ n ∈ old.transactionNrs) ∨ n = nr) :
    Partial cs nr (done ++ [(k, data.addressType)])
      ⟨Function.update a.mIndexTransactionNrs k (some data)⟩ := by
  refine ⟨fun k' t' => ?_, fun k' data' hdata' n => ?_⟩
  · rw [List.mem_append, List.mem_singleton, ← or_assoc, ← h.type k' t', Prod.mk.injEq]
    by_cases hkk : k' = k
    · subst hkk
      dsimp only
      rw [Function.update_self, and_iff_right rfl]
      constructor
      · rintro ⟨_, heq, rfl⟩
        rw [← Option.some.inj heq]
        exact .inr rfl
      · rintro (⟨old, hold, rfl⟩ | rfl)
        · exact ⟨data, rfl, (htype old hold).symm⟩
        · exact ⟨data, rfl, rfl⟩
    · dsimp only
      rw [Function.update_of_ne hkk, or_iff_left (fun hboth => hkk hboth.1)]
  · dsimp only at hdata'
    simp only [List.mem_append, List.mem_singleton, Prod.mk.injEq]
    by_cases hkk : k' = k
    · subst hkk
      rw [Function.update_self, Option.some.injEq] at hdata'
      subst hdata'
      rw [hnrs]
      constructor
      · rintro (⟨old, hold, hn⟩ | rfl)
        · refine ((h.nrs k' old hold n).1 hn).imp id ?_
          exact fun ⟨hnr, t, ht⟩ => ⟨hnr, t, .inl ht⟩
        · exact .inr ⟨rfl, data.addressType, .inr ⟨rfl, rfl⟩⟩
      · rintro (⟨c, hc, hnr, t, ht⟩ | ⟨hnr, -⟩)
        · obtain ⟨old, hold, -⟩ := (h.type k' t).2 (.inl ⟨c, hc, ht⟩)
          exact .inl ⟨old, hold, (h.nrs k' old hold n).2 (.inl ⟨c, hc, hnr, t, ht⟩)⟩
        · exact .inr hnr
    · rw [Function.update_of_ne hkk] at hdata'
      simp only [h.nrs k' data' hdata' n, hkk, false_and, or_false]

/-- One insertion of a type that agrees with what is known. -/
theorem Partial.addTransactionNrForIndex {cs : List ConfirmedGradidoTx} {nr : ℕ}
    {done : List (ℕ × AddressType)} {a : AddressIndex} (h : Partial cs nr done a) {k : ℕ}
    {t : AddressType} (hcs : ∀ c ∈ cs, ∀ t', (k, t') ∈ c.typedAddresses → t' = t)
    (hdone : ∀ t', (k, t') ∈ done → t' = t) :
    ∃ a', a.addTransactionNrForIndex k nr t = (a', .ok ()) ∧
      Partial cs nr (done ++ [(k, t)]) a' := by
  have htype : ∀ old, a.mIndexTransactionNrs k = some old → old.addressType = t := by
    intro old hold
    rcases (h.type k old.addressType).1 ⟨old, hold, rfl⟩ with ⟨c, hc, hin⟩ | hin
    · exact hcs c hc _ hin
    · exact hdone _ hin
  unfold AddressIndex.addTransactionNrForIndex
  cases hk : a.mIndexTransactionNrs k with
  | none => exact ⟨_, rfl, h.update ⟨t, [nr], 0⟩ (by simp [hk]) (by simp [hk])⟩
  | some data =>
    obtain rfl := htype data hk
    have hknown : ∀ n, (∃ old, a.mIndexTransactionNrs k = some old ∧ n ∈ old.transactionNrs) ↔
        n ∈ data.transactionNrs := by simp [hk]
    dsimp only
    rw [if_neg (not_not.2 rfl)]
    by_cases hnr : nr ∈ data.transactionNrs
    · -- the entry stays as it is
      have hsame : (⟨Function.update a.mIndexTransactionNrs k (some data)⟩ : AddressIndex) = a := by
        rw [← hk, Function.update_eq_self]
      refine ⟨a, by rw [if_pos hnr], hsame ▸ h.update data htype (fun n => ?_)⟩
      rw [hknown, or_iff_left_of_imp]
      rintro rfl
      exact hnr
    · rw [if_neg hnr]
      refine ⟨_, rfl, h.update { data with transactionNrs := data.transactionNrs ++ [nr] } htype
        (fun n => ?_)⟩
      rw [hknown, List.mem_append, List.mem_singleton]

/-- All insertions of a transaction whose types agree with what is known. -/
theorem Partial.addTyped {cs : List ConfirmedGradidoTx} {nr : ℕ} (l : List (ℕ × AddressType))
    {done : List (ℕ × AddressType)} {a : AddressIndex} (h : Partial cs nr done a)
    (hcs : ∀ x ∈ l, ∀ c ∈ cs, ∀ t', (x.1, t') ∈ c.typedAddresses → t' = x.2)
    (hl : ∀ x ∈ l, ∀ t', (x.1, t') ∈ done ++ l → t' = x.2) :
    ∃ a', AddressIndex.addTyped nr l a = (a', .ok ()) ∧ Partial cs nr (done ++ l) a' := by
  induction l generalizing done a with
  | nil => exact ⟨a, rfl, by rwa [List.append_nil]⟩
  | cons x l ih =>
    obtain ⟨k, t⟩ := x
    obtain ⟨a₁, heq₁, h₁⟩ := h.addTransactionNrForIndex
      (fun c hc t' ht' => hcs (k, t) List.mem_cons_self c hc t' ht')
      (fun t' ht' => hl (k, t) List.mem_cons_self t' (List.mem_append_left _ ht'))
    obtain ⟨a₂, heq₂, h₂⟩ := ih h₁ (fun x hx => hcs x (List.mem_cons_of_mem _ hx))
      (fun x hx t' ht' => hl x (List.mem_cons_of_mem _ hx) t' (by simpa using ht'))
    refine ⟨a₂, ?_, by simpa using h₂⟩
    rw [AddressIndex.addTyped, heq₁]
    exact heq₂

/-- The number of the last balance change does not belong to the types. -/
theorem Types.updateLastBalanceChanging {cs : List ConfirmedGradidoTx} {a : AddressIndex}
    (h : Types cs a) (k nr : ℕ) : Types cs (a.updateLastBalanceChangingTransactionNr k nr) := by
  unfold updateLastBalanceChangingTransactionNr
  cases hk : a.mIndexTransactionNrs k with
  | none => exact h
  | some data =>
    dsimp only
    refine ⟨?_, ?_⟩
    · intro k' t
      rw [← h.type k' t]
      by_cases hkk : k' = k
      · subst hkk
        simp [hk]
      · simp [Function.update_of_ne hkk]
    · intro k' data' hdata' n
      dsimp only at hdata'
      by_cases hkk : k' = k
      · subst hkk
        rw [Function.update_self, Option.some.injEq] at hdata'
        subst hdata'
        exact h.nrs k' data hk n
      · rw [Function.update_of_ne hkk] at hdata'
        exact h.nrs k' data' hdata' n

theorem Types.foldl_updateLastBalanceChanging {cs : List ConfirmedGradidoTx} (nr : ℕ)
    (bs : List CompactAccountBalance) {a : AddressIndex} (h : Types cs a) :
    Types cs (bs.foldl
      (fun a b => a.updateLastBalanceChangingTransactionNr b.publicKeyIndex nr) a) := by
  induction bs generalizing a with
  | nil => exact h
  | cons b bs ih => exact ih (h.updateLastBalanceChanging b.publicKeyIndex nr)

/-- **The address index** takes a transaction whose addresses keep their types. -/
theorem Types.addTransaction {cs : List ConfirmedGradidoTx} {a : AddressIndex} (h : Types cs a)
    {tx : ConfirmedGradidoTx}
    (htypes : ∀ x ∈ tx.typedAddresses, ∀ c ∈ cs ++ [tx], ∀ t, (x.1, t) ∈ c.typedAddresses →
      t = x.2) :
    ∃ a', a.addTransaction tx = (a', .ok ()) ∧ Types (cs ++ [tx]) a' := by
  have hpartial : Partial cs tx.txNr [] a :=
    ⟨fun k t => by simpa using h.type k t,
      fun k data hdata n => by simpa using h.nrs k data hdata n⟩
  obtain ⟨a', heq, h'⟩ := hpartial.addTyped tx.typedAddresses
    (fun x hx c hc => htypes x hx c (List.mem_append_left _ hc))
    (fun x hx => htypes x hx tx (List.mem_append_right _ (List.mem_singleton.2 rfl)))
  rw [addTransaction_eq, heq]
  refine ⟨_, rfl, Types.foldl_updateLastBalanceChanging _ _ ⟨?_, ?_⟩⟩
  · intro k t
    rw [h'.type k t]
    simp [or_and_right, exists_or]
  · intro k data hdata n
    rw [h'.nrs k data hdata n]
    simp [or_and_right, exists_or, eq_comm]

end AddressIndex

/-! ### Days -/

namespace TransactionsIndex

open ConfirmedGradidoTx

/-- The date that the index counts its months from. -/
def firstDate (cs : List ConfirmedGradidoTx) : YearMonthDay :=
  (cs.map ConfirmedGradidoTx.date).headD zeroDate

/-- The latest date of a list of transactions. -/
def latestDate (cs : List ConfirmedGradidoTx) : YearMonthDay :=
  cs.foldl (fun d c => if d < c.date then c.date else d) zeroDate

/-- The number of months that the index has room for after some dates. -/
def monthRows (first : YearMonthDay) (dates : List YearMonthDay) : ℕ :=
  dates.foldl (fun rows date =>
    if 0 ≤ monthDistance first date ∧ monthDistance first date < rows then rows
    else rows + resizeStepSize) resizeStepSize

/-- The cell of the day of a transaction. -/
def cellOf (first : YearMonthDay) (c : ConfirmedGradidoTx) : ℕ :=
  (monthDistance first c.date).toNat * 31 + (c.date.day - 1)

/-- The largest number of a transaction in a cell. -/
def lastInCell (first : YearMonthDay) (cs : List ConfirmedGradidoTx) (cell : ℕ) : ℕ :=
  cs.foldl (fun m c => if cellOf first c = cell then max m c.txNr else m) 0

/-- The part of the index that searches by date and number. -/
structure Dates (cs : List ConfirmedGradidoTx) (idx : TransactionsIndex) : Prop where
  minNr : idx.mMinTransactionNr = if cs = [] then 0 else 1
  maxNr : idx.mMaxTransactionNr = cs.length
  minDate : idx.mMinDate = firstDate cs
  maxDate : idx.mMaxDate = latestDate cs
  monthCount : idx.monthCount = monthRows (firstDate cs) (cs.map ConfirmedGradidoTx.date)
  cells : idx.mDayMonthYearTxRanges = lastInCell (firstDate cs) cs
  days : ∀ c ∈ cs, c.date.day ≠ 0

theorem dates_empty (community : ℕ) : Dates [] (empty community) where
  minNr := rfl
  maxNr := rfl
  minDate := rfl
  maxDate := rfl
  monthCount := rfl
  cells := rfl
  days := by
    intro c hc
    simp at hc

/-- The month of a further date is one that the index has or makes room for. -/
def FitsMonth (dates : List YearMonthDay) (date : YearMonthDay) : Prop :=
  0 ≤ monthDistance ((dates ++ [date]).headD zeroDate) date ∧
    monthDistance ((dates ++ [date]).headD zeroDate) date <
      monthRows ((dates ++ [date]).headD zeroDate) dates + resizeStepSize

theorem firstDate_append_of_ne_nil {cs : List ConfirmedGradidoTx} (h : cs ≠ [])
    (ds : List ConfirmedGradidoTx) : firstDate (cs ++ ds) = firstDate cs := by
  cases cs with
  | nil => exact absurd rfl h
  | cons c cs => rfl

/-- The month that is counted from does not depend on whether a first transaction is there yet. -/
theorem minDateFor_eq {cs : List ConfirmedGradidoTx} {idx : TransactionsIndex}
    (hmin : idx.mMinDate = firstDate cs) (hdays : ∀ c ∈ cs, c.date.day ≠ 0)
    (c : ConfirmedGradidoTx) : idx.minDateFor c.date = firstDate (cs ++ [c]) := by
  unfold TransactionsIndex.minDateFor
  rw [hmin]
  cases cs with
  | nil => rfl
  | cons c₀ cs =>
    have hday := hdays c₀ List.mem_cons_self
    rw [if_neg]
    · rfl
    · intro hzero
      have hdate : c₀.date = zeroDate := hzero
      rw [hdate] at hday
      exact hday rfl

/-- What is counted from the first date is the same for a list that is still empty. -/
theorem lastInCell_firstDate (cs : List ConfirmedGradidoTx) (c : ConfirmedGradidoTx) :
    lastInCell (firstDate cs) cs = lastInCell (firstDate (cs ++ [c])) cs := by
  cases cs with
  | nil => rfl
  | cons c₀ cs => rfl

theorem monthRows_firstDate (cs : List ConfirmedGradidoTx) (c : ConfirmedGradidoTx) :
    monthRows (firstDate cs) (cs.map ConfirmedGradidoTx.date) =
      monthRows (firstDate (cs ++ [c])) (cs.map ConfirmedGradidoTx.date) := by
  cases cs with
  | nil => rfl
  | cons c₀ cs => rfl

theorem latestDate_append (cs : List ConfirmedGradidoTx) (c : ConfirmedGradidoTx) :
    latestDate (cs ++ [c]) = if latestDate cs < c.date then c.date else latestDate cs := by
  rw [latestDate, List.foldl_append, ← latestDate]
  rfl

/-- A further transaction only changes its own cell. -/
theorem lastInCell_append (first : YearMonthDay) (cs : List ConfirmedGradidoTx)
    (c : ConfirmedGradidoTx) : lastInCell first (cs ++ [c]) =
      Function.update (lastInCell first cs) (cellOf first c)
        (max (lastInCell first cs (cellOf first c)) c.txNr) := by
  funext cell
  rw [lastInCell, List.foldl_append, ← lastInCell, List.foldl_cons, List.foldl_nil]
  by_cases hcell : cellOf first c = cell
  · rw [if_pos hcell, ← hcell, Function.update_self]
  · rw [if_neg hcell, Function.update_of_ne (Ne.symm hcell)]

/-- **The cells** take a transaction with the next number whose month fits. -/
theorem Dates.updateYearMonthDayTxRange {cs : List ConfirmedGradidoTx} {idx : TransactionsIndex}
    (h : Dates cs idx) {c : ConfirmedGradidoTx} (hnr : c.txNr = cs.length + 1)
    (hday : c.date.day ≠ 0) (hmonth : FitsMonth (cs.map ConfirmedGradidoTx.date) c.date) :
    ∃ idx', idx.updateYearMonthDayTxRange c.date c.txNr = (idx', .ok ()) ∧
      Dates (cs ++ [c]) idx' ∧ idx'.mCommunityIdIndex = idx.mCommunityIdIndex ∧
      idx'.mAddressIndex = idx.mAddressIndex ∧
      idx'.mInvolvedPublicKeys = idx.mInvolvedPublicKeys ∧ idx'.mTxPerType = idx.mTxPerType ∧
      idx'.mOtherCoinCommunityTx = idx.mOtherCoinCommunityTx := by
  have hmin : (if idx.mMinTransactionNr = 0 then c.txNr else idx.mMinTransactionNr) = 1 := by
    rw [h.minNr]
    split_ifs with h1 h2 h3 <;> simp_all
  have hminDate := minDateFor_eq h.minDate h.days c
  have hrows := h.monthCount.trans (monthRows_firstDate cs c)
  have hcells := h.cells.trans (lastInCell_firstDate cs c)
  have hfirst : (cs.map ConfirmedGradidoTx.date ++ [c.date]).headD zeroDate =
      firstDate (cs ++ [c]) := by
    rw [firstDate, List.map_append, List.map_singleton]
  unfold FitsMonth at hmonth
  rw [hfirst] at hmonth
  obtain ⟨hmonth0, hmonth1⟩ := hmonth
  unfold TransactionsIndex.updateYearMonthDayTxRange
  simp only [hmin, hminDate]
  rw [if_neg (by omega : ¬ c.txNr < 1)]
  have hroom : 0 ≤ monthDistance (firstDate (cs ++ [c])) c.date ∧
      monthDistance (firstDate (cs ++ [c])) c.date <
        ((if decide (0 ≤ monthDistance (firstDate (cs ++ [c])) c.date ∧
          monthDistance (firstDate (cs ++ [c])) c.date < idx.monthCount) = true
          then idx.monthCount else idx.monthCount + resizeStepSize : ℕ) : ℤ) := by
    refine ⟨hmonth0, ?_⟩
    split_ifs with hfits
    · exact (of_decide_eq_true hfits).2
    · rw [hrows]
      push_cast
      exact hmonth1
  rw [if_neg (not_not.2 hroom), if_neg hday]
  refine ⟨_, rfl, ?_, rfl, rfl, rfl, rfl, rfl⟩
  exact {
    minNr := by simp
    maxNr := by simp [h.maxNr, hnr]
    minDate := rfl
    maxDate := by rw [latestDate_append, ← h.maxDate]
    monthCount := by
      rw [monthRows, List.map_append, List.foldl_append, ← monthRows, ← hrows]
      simp
    cells := by
      rw [lastInCell_append, ← hcells]
      rfl
    days := by
      intro c' hc'
      rcases List.mem_append.1 hc' with hc' | hc'
      · exact h.days c' hc'
      · rw [List.mem_singleton.1 hc']
        exact hday }

/-! ### Sets of numbers -/

/-- The numbers that the index stores for a key whose balance changes. -/
def balanceNrs (idx : TransactionsIndex) (k : PublicKeyIndex) : Bitmap :=
  ((idx.mInvolvedPublicKeys k).getD .empty).balanceChangingTx

/-- The numbers that the index stores for a key in any role. -/
def involvedNrs (idx : TransactionsIndex) (k : PublicKeyIndex) : Bitmap :=
  let bitmaps := (idx.mInvolvedPublicKeys k).getD .empty
  (bitmaps.otherInvolvedTx.union bitmaps.signedTx).union bitmaps.balanceChangingTx

/-- A key has one of the three roles in a transaction that the index stores. -/
def Recorded (env : Env) (c : ConfirmedGradidoTx) (k : PublicKeyIndex) : Prop :=
  c.isOtherInvolved k = true ∨ c.isSignaturePublicKey env k = true ∨ c.isBalanceUpdated k = true

instance {env : Env} {c : ConfirmedGradidoTx} {k : PublicKeyIndex} :
    Decidable (Recorded env c k) :=
  inferInstanceAs (Decidable (_ ∨ _))

/-- The numbers that the index stores for a foreign coin. -/
def coinNrs (idx : TransactionsIndex) (coin : ℕ) : Bitmap :=
  (idx.mOtherCoinCommunityTx coin).getD .empty

/-- The part of the index that searches by key, type and coin. -/
structure Sets (env : Env) (own : ℕ) (cs : List ConfirmedGradidoTx) (idx : TransactionsIndex) :
    Prop where
  balance : ∀ k, k.empty = false → ∀ n, n ∈ idx.balanceNrs k ↔
    ∃ c ∈ cs, c.txNr = n ∧ c.isBalanceUpdated k = true
  involved : ∀ k, k.empty = false → ∀ n, n ∈ idx.involvedNrs k ↔
    ∃ c ∈ cs, c.txNr = n ∧ Recorded env c k
  type : ∀ t n, n ∈ idx.mTxPerType t ↔ ∃ c ∈ cs, c.txNr = n ∧ c.transactionType = t
  coin : ∀ coin n, n ∈ idx.coinNrs coin ↔ coin ≠ own ∧ ∃ c ∈ cs, c.txNr = n ∧
    ∃ b ∈ c.accountBalances, b.coinCommunityIdIndex = coin
  ownCoin : idx.mOtherCoinCommunityTx own = none

/-- The part of the index that searches by key and type, whatever the communities. -/
structure Keyed (env : Env) (cs : List ConfirmedGradidoTx) (idx : TransactionsIndex) : Prop where
  balance : ∀ k, k.empty = false → ∀ n, n ∈ idx.balanceNrs k ↔
    ∃ c ∈ cs, c.txNr = n ∧ c.isBalanceUpdated k = true
  involved : ∀ k, k.empty = false → ∀ n, n ∈ idx.involvedNrs k ↔
    ∃ c ∈ cs, c.txNr = n ∧ Recorded env c k
  type : ∀ t n, n ∈ idx.mTxPerType t ↔ ∃ c ∈ cs, c.txNr = n ∧ c.transactionType = t

theorem Sets.keyed {env : Env} {own : ℕ} {cs : List ConfirmedGradidoTx} {idx : TransactionsIndex}
    (h : Sets env own cs idx) : Keyed env cs idx :=
  ⟨h.balance, h.involved, h.type⟩

theorem sets_empty (env : Env) (community : ℕ) : Sets env community [] (empty community) where
  balance := by
    intro k _ n
    simp [balanceNrs, empty, PublicKeyBitmaps.empty]
  involved := by
    intro k _ n
    simp [involvedNrs, empty, PublicKeyBitmaps.empty]
  type := by
    intro t n
    simp [empty]
  coin := by
    intro coin n
    simp [coinNrs, empty]
  ownCoin := rfl

/-- Keys and types depend on two parts of the index only. -/
theorem Keyed.congr {env : Env} {cs : List ConfirmedGradidoTx} {idx idx' : TransactionsIndex}
    (h : Keyed env cs idx) (hinvolved : idx'.mInvolvedPublicKeys = idx.mInvolvedPublicKeys)
    (htype : idx'.mTxPerType = idx.mTxPerType) : Keyed env cs idx' where
  balance := by simpa [balanceNrs, hinvolved] using h.balance
  involved := by simpa [involvedNrs, hinvolved] using h.involved
  type := by simpa [htype] using h.type

/-- The sets depend on three parts of the index only. -/
theorem Sets.congr {env : Env} {own : ℕ} {cs : List ConfirmedGradidoTx}
    {idx idx' : TransactionsIndex} (h : Sets env own cs idx)
    (hinvolved : idx'.mInvolvedPublicKeys = idx.mInvolvedPublicKeys)
    (htype : idx'.mTxPerType = idx.mTxPerType)
    (hcoin : idx'.mOtherCoinCommunityTx = idx.mOtherCoinCommunityTx) : Sets env own cs idx' where
  balance := (h.keyed.congr hinvolved htype).balance
  involved := (h.keyed.congr hinvolved htype).involved
  type := (h.keyed.congr hinvolved htype).type
  coin := by simpa [coinNrs, hcoin] using h.coin
  ownCoin := by rw [hcoin, h.ownCoin]

section AddBitmaps

variable {env : Env} {c : ConfirmedGradidoTx}

/-- One round of the loop over the involved addresses. -/
theorem mem_addInvolvedAddress (idx : TransactionsIndex) (a k : PublicKeyIndex) (n : ℕ) :
    (n ∈ (addInvolvedAddress env c idx a).balanceNrs k ↔
      n ∈ idx.balanceNrs k ∨ k = a ∧ n = c.txNr ∧ c.isBalanceUpdated k = true) ∧
    (n ∈ (addInvolvedAddress env c idx a).involvedNrs k ↔
      n ∈ idx.involvedNrs k ∨ k = a ∧ n = c.txNr ∧ Recorded env c k) := by
  unfold balanceNrs involvedNrs addInvolvedAddress Recorded
  by_cases hk : k = a
  · subst hk
    constructor
    · cases hb : c.isBalanceUpdated k <;> simp [or_comm]
    · cases ho : c.isOtherInvolved k <;> cases hs : c.isSignaturePublicKey env k <;>
        cases hb : c.isBalanceUpdated k <;> simp <;> tauto
  · simp [hk]

/-- The loop over the involved addresses adds the number to the roles of each key, and changes no
other part of the index. -/
theorem foldl_addInvolvedAddress (addresses : List PublicKeyIndex) (idx : TransactionsIndex) :
    (∀ k n, n ∈ (addresses.foldl (addInvolvedAddress env c) idx).balanceNrs k ↔
      n ∈ idx.balanceNrs k ∨ k ∈ addresses ∧ n = c.txNr ∧ c.isBalanceUpdated k = true) ∧
    (∀ k n, n ∈ (addresses.foldl (addInvolvedAddress env c) idx).involvedNrs k ↔
      n ∈ idx.involvedNrs k ∨ k ∈ addresses ∧ n = c.txNr ∧ Recorded env c k) ∧
    ∃ involved, addresses.foldl (addInvolvedAddress env c) idx =
      { idx with mInvolvedPublicKeys := involved } := by
  induction addresses generalizing idx with
  | nil => exact ⟨fun k n => by simp, fun k n => by simp, _, rfl⟩
  | cons a addresses ih =>
    obtain ⟨hbalance, hinvolved, involved, heq⟩ := ih (addInvolvedAddress env c idx a)
    rw [List.foldl_cons]
    refine ⟨?_, ?_, involved, heq⟩
    · intro k n
      rw [hbalance k n, (mem_addInvolvedAddress idx a k n).1, List.mem_cons]
      tauto
    · intro k n
      rw [hinvolved k n, (mem_addInvolvedAddress idx a k n).2, List.mem_cons]
      tauto

/-- The loop over the balances adds the number to each foreign coin. -/
theorem foldl_addCoinCommunity (bs : List CompactAccountBalance) (idx : TransactionsIndex) :
    (∀ coin n, n ∈ (bs.foldl (addCoinCommunity c) idx).coinNrs coin ↔
      n ∈ idx.coinNrs coin ∨ n = c.txNr ∧ coin ≠ c.txCommunityIdIndex ∧
        ∃ b ∈ bs, b.coinCommunityIdIndex = coin) ∧
    (bs.foldl (addCoinCommunity c) idx).mOtherCoinCommunityTx c.txCommunityIdIndex =
      idx.mOtherCoinCommunityTx c.txCommunityIdIndex ∧
    ∃ coins, bs.foldl (addCoinCommunity c) idx = { idx with mOtherCoinCommunityTx := coins } := by
  induction bs generalizing idx with
  | nil => exact ⟨fun coin n => by simp, rfl, _, rfl⟩
  | cons b bs ih =>
    obtain ⟨hmem, hown, coins, heq⟩ := ih (addCoinCommunity c idx b)
    rw [List.foldl_cons]
    have hstep : (∀ coin n, n ∈ (addCoinCommunity c idx b).coinNrs coin ↔
        n ∈ idx.coinNrs coin ∨ n = c.txNr ∧ coin ≠ c.txCommunityIdIndex ∧
          b.coinCommunityIdIndex = coin) ∧
        (addCoinCommunity c idx b).mOtherCoinCommunityTx c.txCommunityIdIndex =
          idx.mOtherCoinCommunityTx c.txCommunityIdIndex ∧
        ∃ coins, addCoinCommunity c idx b = { idx with mOtherCoinCommunityTx := coins } := by
      unfold addCoinCommunity
      split_ifs with hb
      · refine ⟨?_, rfl, _, rfl⟩
        intro coin n
        refine ⟨.inl, ?_⟩
        rintro (hn | ⟨-, hne, heq⟩)
        · exact hn
        · exact absurd (heq.symm.trans hb) hne
      · refine ⟨?_, ?_, _, rfl⟩
        · intro coin n
          unfold coinNrs
          by_cases hcoin : coin = b.coinCommunityIdIndex
          · subst hcoin
            simp [hb, or_comm]
          · simp [Function.update_of_ne hcoin, Ne.symm hcoin]
        · exact Function.update_of_ne (Ne.symm hb) _ _
    obtain ⟨hmem₁, hown₁, coins₁, heq₁⟩ := hstep
    refine ⟨?_, hown.trans hown₁, coins, ?_⟩
    · intro coin n
      rw [hmem, hmem₁]
      simp only [List.mem_cons, exists_eq_or_imp]
      tauto
    · rw [heq, heq₁]

end AddBitmaps

/-- The other involved keys of a transaction are keys of its body. -/
theorem mem_bodyAddresses_of_isOtherInvolved {c : ConfirmedGradidoTx} {k : PublicKeyIndex}
    (hk : k.empty = false) (h : c.isOtherInvolved k = true) : k ∈ c.bodyAddresses := by
  have hne : k ≠ ⟨0, 0⟩ := by
    rintro rfl
    simp [PublicKeyIndex.empty] at hk
  rw [isOtherInvolved, decide_eq_true_eq] at h
  unfold getOtherInvolved at h
  unfold bodyAddresses
  cases hspecific : c.specific <;> cases htype : c.crossGroupType <;>
    simp_all [getSender, getRecipient]

/-- A key with a role is among the involved addresses. -/
theorem mem_getInvolvedAddresses {env : Env} {c : ConfirmedGradidoTx}
    {addresses : List PublicKeyIndex} (h : c.getInvolvedAddresses env = .ok addresses)
    {k : PublicKeyIndex} (hk : k.empty = false) (hrecorded : Recorded env c k) :
    k ∈ addresses := by
  simp only [getInvolvedAddresses, bind_eq_ok, exists_unit, pure_eq_ok] at h
  obtain ⟨-, -, -, rfl⟩ := h
  simp only [List.mem_filter, List.mem_dedup, List.mem_append, hk, Bool.not_false, and_true]
  rcases hrecorded with hother | hsigner | hbalance
  · exact .inr (mem_bodyAddresses_of_isOtherInvolved hk hother)
  · simp only [isSignaturePublicKey, Bool.and_eq_true, decide_eq_true_eq, List.any_eq_true]
      at hsigner
    obtain ⟨hcommunity, key, hkey, hidx⟩ := hsigner
    refine .inl (.inr (List.mem_map.2 ⟨key, hkey, ?_⟩))
    rw [PublicKeyDictionary.toPublicKeyIndex, hidx, ← hcommunity]
  · simp only [isBalanceUpdated, List.any_eq_true, Bool.and_eq_true, decide_eq_true_eq] at hbalance
    obtain ⟨b, hb, hidx, hcommunity⟩ := hbalance
    refine .inl (.inl (List.mem_map.2 ⟨b, hb, ?_⟩))
    rw [hidx, ← hcommunity]

/-- **Keys and types** take a transaction; the bitmaps are all that changes. -/
theorem Keyed.addBitmaps {env : Env} {cs : List ConfirmedGradidoTx} {idx : TransactionsIndex}
    (h : Keyed env cs idx) {c : ConfirmedGradidoTx} {addresses : List PublicKeyIndex}
    (haddresses : c.getInvolvedAddresses env = .ok addresses) :
    Keyed env (cs ++ [c]) (idx.addBitmaps env c addresses) ∧
      ∃ involved types coins, idx.addBitmaps env c addresses =
        { idx with
          mInvolvedPublicKeys := involved
          mTxPerType := types
          mOtherCoinCommunityTx := coins } := by
  unfold TransactionsIndex.addBitmaps
  obtain ⟨hbalance, hinvolved, involved, heq₁⟩ :=
    @foldl_addInvolvedAddress env c addresses idx
  rw [heq₁] at hbalance hinvolved ⊢
  obtain ⟨-, -, coins, heq₂⟩ := foldl_addCoinCommunity (c := c) c.accountBalances
    { idx with
      mInvolvedPublicKeys := involved
      mTxPerType := Function.update idx.mTxPerType c.transactionType
        ((idx.mTxPerType c.transactionType).add c.txNr) }
  dsimp only
  rw [heq₂]
  refine ⟨⟨?_, ?_, ?_⟩, involved, _, coins, rfl⟩
  · intro k hk n
    have hn := hbalance k n
    rw [h.balance k hk n] at hn
    refine hn.trans ?_
    simp only [List.mem_append, List.mem_singleton, or_and_right, exists_or, exists_eq_left]
    refine or_congr Iff.rfl ⟨?_, ?_⟩
    · rintro ⟨-, rfl, hb⟩
      exact ⟨rfl, hb⟩
    · rintro ⟨rfl, hb⟩
      exact ⟨mem_getInvolvedAddresses haddresses hk (.inr (.inr hb)), rfl, hb⟩
  · intro k hk n
    have hn := hinvolved k n
    rw [h.involved k hk n] at hn
    refine hn.trans ?_
    simp only [List.mem_append, List.mem_singleton, or_and_right, exists_or, exists_eq_left]
    refine or_congr Iff.rfl ⟨?_, ?_⟩
    · rintro ⟨-, rfl, hrecorded⟩
      exact ⟨rfl, hrecorded⟩
    · rintro ⟨rfl, hrecorded⟩
      exact ⟨mem_getInvolvedAddresses haddresses hk hrecorded, rfl, hrecorded⟩
  · intro t n
    simp only [List.mem_append, List.mem_singleton, or_and_right, exists_or, exists_eq_left]
    by_cases ht : t = c.transactionType
    · subst ht
      simp only [Function.update_self, Bitmap.mem_add, h.type, and_true, eq_comm, or_comm]
    · simp only [Function.update_of_ne ht, h.type, Ne.symm ht, and_false, or_false]

/-- The coins of a transaction, but for the one of its community, are added. -/
theorem coinNrs_addBitmaps {env : Env} {c : ConfirmedGradidoTx} (addresses : List PublicKeyIndex)
    (idx : TransactionsIndex) :
    (∀ coin n, n ∈ (idx.addBitmaps env c addresses).coinNrs coin ↔
      n ∈ idx.coinNrs coin ∨ n = c.txNr ∧ coin ≠ c.txCommunityIdIndex ∧
        ∃ b ∈ c.accountBalances, b.coinCommunityIdIndex = coin) ∧
      (idx.addBitmaps env c addresses).mOtherCoinCommunityTx c.txCommunityIdIndex =
        idx.mOtherCoinCommunityTx c.txCommunityIdIndex := by
  obtain ⟨-, -, involved, heq⟩ := @foldl_addInvolvedAddress env c addresses idx
  unfold TransactionsIndex.addBitmaps
  rw [heq]
  obtain ⟨hcoin, hown, -⟩ := foldl_addCoinCommunity (c := c) c.accountBalances
    { idx with
      mInvolvedPublicKeys := involved
      mTxPerType := Function.update idx.mTxPerType c.transactionType
        ((idx.mTxPerType c.transactionType).add c.txNr) }
  exact ⟨hcoin, hown⟩

/-- **The sets** take a transaction. -/
theorem Sets.addBitmaps {env : Env} {own : ℕ} {cs : List ConfirmedGradidoTx}
    {idx : TransactionsIndex} (h : Sets env own cs idx) {c : ConfirmedGradidoTx}
    (hown : c.txCommunityIdIndex = own) {addresses : List PublicKeyIndex}
    (haddresses : c.getInvolvedAddresses env = .ok addresses) :
    Sets env own (cs ++ [c]) (idx.addBitmaps env c addresses) ∧
      ∃ involved types coins, idx.addBitmaps env c addresses =
        { idx with
          mInvolvedPublicKeys := involved
          mTxPerType := types
          mOtherCoinCommunityTx := coins } := by
  obtain ⟨hkeyed, hframe⟩ := h.keyed.addBitmaps haddresses
  obtain ⟨hcoin, hownCoin⟩ := @coinNrs_addBitmaps env c addresses idx
  refine ⟨⟨hkeyed.balance, hkeyed.involved, hkeyed.type, fun coin n => ?_, ?_⟩, hframe⟩
  · rw [hcoin, h.coin, hown]
    simp only [List.mem_append, List.mem_singleton, or_and_right, exists_or, exists_eq_left]
    constructor
    · rintro (⟨hne, hin⟩ | ⟨rfl, hne, hin⟩)
      · exact ⟨hne, .inl hin⟩
      · exact ⟨hne, .inr ⟨rfl, hin⟩⟩
    · rintro ⟨hne, hin | ⟨rfl, hin⟩⟩
      · exact .inl ⟨hne, hin⟩
      · exact .inr ⟨rfl, hne, hin⟩
  · rw [hown] at hownCoin
    rw [hownCoin, h.ownCoin]

/-! ### The whole index -/

/-- The index knows exactly the transactions of a list, with the numbers `1` to `cs.length`. -/
structure Indexes (env : Env) (own : ℕ) (cs : List ConfirmedGradidoTx)
    (idx : TransactionsIndex) : Prop where
  community : idx.mCommunityIdIndex = own
  dates : Dates cs idx
  sets : Sets env own cs idx
  types : idx.mAddressIndex.Types cs
  txNr : ∀ k c, cs[k]? = some c → c.txNr = k + 1
  own : ∀ c ∈ cs, c.txCommunityIdIndex = own

theorem indexes_empty (env : Env) (community : ℕ) :
    Indexes env community [] (empty community) where
  community := rfl
  dates := dates_empty community
  sets := sets_empty env community
  types := by
    refine ⟨?_, ?_⟩
    · intro k t
      simp [empty]
    · intro k data hdata
      simp [empty] at hdata
  txNr := by
    intro k c hc
    simp at hc
  own := by
    intro c hc
    simp at hc

/-- What a further transaction has to respect. -/
structure Fits (own : ℕ) (cs : List ConfirmedGradidoTx) (c : ConfirmedGradidoTx) : Prop where
  txNr : c.txNr = cs.length + 1
  own : c.txCommunityIdIndex = own
  day : c.date.day ≠ 0
  month : FitsMonth (cs.map ConfirmedGradidoTx.date) c.date
  keys : c.accountBalances.length + c.signaturePublicKeys.length ≤ 5
  types : ∀ x ∈ c.typedAddresses, ∀ c' ∈ cs ++ [c], ∀ t, (x.1, t) ∈ c'.typedAddresses → t = x.2

theorem getInvolvedAddresses_of_keys (env : Env) {c : ConfirmedGradidoTx}
    (h : c.accountBalances.length + c.signaturePublicKeys.length ≤ 5) :
    ∃ addresses, c.getInvolvedAddresses env = .ok addresses := by
  refine ⟨((c.balanceAddresses ++ c.signatureAddresses env ++ c.bodyAddresses).dedup).filter
    (fun k => !k.empty), ?_⟩
  simp only [getInvolvedAddresses, bind_eq_ok, exists_unit, throwIf_eq_ok, decide_eq_false_iff_not,
    pure_eq_ok, and_true]
  refine ⟨by omega, by omega, by omega⟩

/-- **The index** takes every transaction that fits. -/
theorem Indexes.addTransactionIndices {env : Env} {own : ℕ} {cs : List ConfirmedGradidoTx}
    {idx : TransactionsIndex} (h : Indexes env own cs idx) {c : ConfirmedGradidoTx}
    (hc : Fits own cs c) :
    ∃ idx', idx.addTransactionIndices env c = (idx', .ok ()) ∧
      Indexes env own (cs ++ [c]) idx' := by
  obtain ⟨idx₁, heq₁, hdates, hcommunity, haddress, hinvolved, htype, hcoin⟩ :=
    h.dates.updateYearMonthDayTxRange hc.txNr hc.day hc.month
  obtain ⟨addresses, haddresses⟩ := getInvolvedAddresses_of_keys env hc.keys
  have hsets := h.sets.congr hinvolved htype hcoin
  obtain ⟨hsets', involved, types, coins, heq₂⟩ := hsets.addBitmaps hc.own haddresses
  obtain ⟨a', heq₃, htypes⟩ := h.types.addTransaction hc.types
  rw [← haddress] at heq₃
  refine ⟨{ idx₁.addBitmaps env c addresses with mAddressIndex := a' }, ?_, ?_⟩
  · unfold TransactionsIndex.addTransactionIndices
    have hdate : idx.updateYearMonthDayTxRange (timepointAsYearMonthDay
        c.confirmedAt.getAsTimepoint) c.txNr = (idx₁, .ok ()) := heq₁
    rw [hdate]
    simp only [andThen, haddresses]
    have hsame : (idx₁.addBitmaps env c addresses).mAddressIndex = idx₁.mAddressIndex := by
      rw [heq₂]
    rw [hsame, heq₃]
  · exact {
      community := by
        rw [heq₂]
        exact hcommunity.trans h.community
      dates := by
        rw [heq₂]
        exact ⟨hdates.minNr, hdates.maxNr, hdates.minDate, hdates.maxDate, hdates.monthCount,
          hdates.cells, hdates.days⟩
      sets := hsets'.congr rfl rfl rfl
      types := htypes
      txNr := by
        intro k c' hk
        rcases Nat.lt_or_ge k cs.length with hlt | hge
        · rw [List.getElem?_append_left hlt] at hk
          exact h.txNr k c' hk
        · have hlt := (List.getElem?_eq_some_iff.1 hk).1
          rw [List.length_append, List.length_singleton] at hlt
          obtain rfl : k = cs.length := by omega
          rw [List.getElem?_concat_length, Option.some.injEq] at hk
          rw [← hk, hc.txNr]
      own := by
        intro c' hc'
        rcases List.mem_append.1 hc' with hc' | hc'
        · exact h.own c' hc'
        · rw [List.mem_singleton.1 hc', hc.own] }

end TransactionsIndex

end Gradido
