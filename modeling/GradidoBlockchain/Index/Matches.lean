import GradidoBlockchain.Index.Search
import GradidoBlockchain.System

/-!
# The index and the filter

`aggregateTransactions` answers a filter from bitmaps, `CompactFilter::matches`
answers it from one transaction.  `addCalls` is any sequence of calls of
`addTransactionIndices`, calls that throw included; `mem_aggregate_addCalls`
says what the bitmaps then answer, and `aggregate_eq_matching_iff` compares the
two: `Agreeable` lists what has to be the case for the same answer.
-/

namespace Gradido

open Checked

namespace TransactionsIndex

open ConfirmedGradidoTx

/-! ### Sequences of calls -/

/-- A call gets as far as the bitmaps: neither the date nor the number of keys makes it throw
before. -/
def writesBitmaps (env : Env) (idx : TransactionsIndex) (c : ConfirmedGradidoTx) : Bool :=
  (idx.updateYearMonthDayTxRange c.date c.txNr).2.isOk && (c.getInvolvedAddresses env).isOk

/-- What calls of `addTransactionIndices` leave behind: the index, the transactions whose call
returned, and those that got into the bitmaps, also when the call threw after that. -/
structure Calls where
  index : TransactionsIndex
  added : List ConfirmedGradidoTx
  written : List ConfirmedGradidoTx

/-- One call. -/
def addCall (env : Env) (r : Calls) (c : ConfirmedGradidoTx) : Calls :=
  let result := r.index.addTransactionIndices env c
  { index := result.1
    added := if result.2.isOk then r.added ++ [c] else r.added
    written := if writesBitmaps env r.index c then r.written ++ [c] else r.written }

/-- The calls for a list of transactions, starting with the index of a new blockchain. -/
def addCalls (env : Env) (own : ℕ) (cs : List ConfirmedGradidoTx) : Calls :=
  cs.foldl (addCall env) ⟨empty own, [], []⟩

/-- The number of the first transaction, zero without one. -/
def firstNr (cs : List ConfirmedGradidoTx) : ℕ := (cs.map ConfirmedGradidoTx.txNr).headD 0

/-- The number of the last transaction, zero without one. -/
def lastNr (cs : List ConfirmedGradidoTx) : ℕ := (cs.map ConfirmedGradidoTx.txNr).getLastD 0

/-- The sequences that a blockchain makes: confirmed transactions of its community with
increasing numbers. -/
structure Increasing (own : ℕ) (cs : List ConfirmedGradidoTx) : Prop where
  positive : ∀ c ∈ cs, 0 < c.txNr
  own : ∀ c ∈ cs, c.txCommunityIdIndex = own
  numbered : cs.Pairwise (fun a b => a.txNr < b.txNr)

/-- Transactions with increasing numbers, whatever their communities. -/
structure Upwards (cs : List ConfirmedGradidoTx) : Prop where
  positive : ∀ c ∈ cs, 0 < c.txNr
  numbered : cs.Pairwise (fun a b => a.txNr < b.txNr)

section Steps

variable {env : Env} {own : ℕ} {cs : List ConfirmedGradidoTx} {c : ConfirmedGradidoTx}

theorem Increasing.upwards (h : Increasing own cs) : Upwards cs := ⟨h.positive, h.numbered⟩

theorem Increasing.of_concat (h : Increasing own (cs ++ [c])) : Increasing own cs where
  positive := fun c' hc' => h.positive c' (List.mem_append_left _ hc')
  own := fun c' hc' => h.own c' (List.mem_append_left _ hc')
  numbered := (List.pairwise_append.1 h.numbered).1

theorem Upwards.of_concat (h : Upwards (cs ++ [c])) : Upwards cs where
  positive := fun c' hc' => h.positive c' (List.mem_append_left _ hc')
  numbered := (List.pairwise_append.1 h.numbered).1

theorem Upwards.lt_last (h : Upwards (cs ++ [c])) {c' : ConfirmedGradidoTx} (hc' : c' ∈ cs) :
    c'.txNr < c.txNr :=
  (List.pairwise_append.1 h.numbered).2.2 c' hc' c (List.mem_singleton.2 rfl)

theorem firstNr_concat (h : Upwards (cs ++ [c])) :
    firstNr (cs ++ [c]) = if firstNr cs = 0 then c.txNr else firstNr cs := by
  cases cs with
  | nil => rfl
  | cons a cs =>
    have hpos : 0 < a.txNr := h.positive a (by simp)
    exact (if_neg hpos.ne').symm

theorem firstNr_le (h : Upwards (cs ++ [c])) : firstNr cs ≤ c.txNr := by
  cases cs with
  | nil => exact Nat.zero_le _
  | cons a cs => exact Nat.le_of_lt (h.lt_last List.mem_cons_self)

theorem lastNr_concat (h : Upwards (cs ++ [c])) :
    lastNr (cs ++ [c]) = max (lastNr cs) c.txNr := by
  have hlast : lastNr (cs ++ [c]) = c.txNr := by simp [lastNr]
  rw [hlast]
  rcases List.eq_nil_or_concat' cs with rfl | ⟨pre, a, rfl⟩
  · simp [lastNr]
  · have hlt : a.txNr < c.txNr := h.lt_last (by simp)
    have ha : lastNr (pre ++ [a]) = a.txNr := by simp [lastNr]
    rw [ha, max_eq_right hlt.le]

theorem firstNr_pos (h : Upwards cs) (hc : c ∈ cs) : 0 < firstNr cs := by
  cases cs with
  | nil => simp at hc
  | cons a cs => exact h.positive a List.mem_cons_self

theorem txNr_between (h : Upwards cs) (hc : c ∈ cs) :
    firstNr cs ≤ c.txNr ∧ c.txNr ≤ lastNr cs := by
  induction cs using List.reverseRecOn with
  | nil => simp at hc
  | append_singleton cs a ih =>
    have hfirst := firstNr_concat h
    have hle := firstNr_le h
    have hlast := lastNr_concat h
    rcases List.mem_append.1 hc with hc | hc
    · have hbetween := ih h.of_concat hc
      have hpos := firstNr_pos h.of_concat hc
      split_ifs at hfirst <;> omega
    · rw [List.mem_singleton.1 hc]
      split_ifs at hfirst <;> omega

/-- The date of a transaction has a day, unless it is the date that was never set. -/
theorem date_eq_zeroDate (h : c.date.day = 0) : c.date = zeroDate := by
  unfold ConfirmedGradidoTx.date timepointAsYearMonthDay at *
  split_ifs at * with hzero
  · rfl
  · have hbounds := Calendar.civilFromDays_bounds (floorDays c.confirmedAt.getAsTimepoint)
    omega

/-- Whether it throws or not, `updateYearMonthDayTxRange` changes the range and the dates only. -/
theorem updateYearMonthDayTxRange_frame (idx : TransactionsIndex)
    (hle : idx.mMinTransactionNr ≤ c.txNr) :
    ∃ minDate maxDate rows cells,
      (idx.updateYearMonthDayTxRange c.date c.txNr).1 =
        { idx with
          mMinTransactionNr :=
            if idx.mMinTransactionNr = 0 then c.txNr else idx.mMinTransactionNr
          mMaxTransactionNr := max idx.mMaxTransactionNr c.txNr
          mMinDate := minDate
          mMaxDate := maxDate
          monthCount := rows
          mDayMonthYearTxRanges := cells } ∧
      (¬ idx.mMaxDate < idx.mMinDate → ¬ maxDate < minDate) := by
  have hmin : ¬ c.txNr <
      (if idx.mMinTransactionNr = 0 then c.txNr else idx.mMinTransactionNr) := by
    split_ifs <;> omega
  unfold updateYearMonthDayTxRange
  simp only [if_neg hmin]
  generalize (if decide (0 ≤ monthDistance (idx.minDateFor c.date) c.date ∧
    monthDistance (idx.minDateFor c.date) c.date < idx.monthCount) = true
    then idx.monthCount else idx.monthCount + resizeStepSize) = rows
  by_cases hjump : 0 ≤ monthDistance (idx.minDateFor c.date) c.date ∧
      monthDistance (idx.minDateFor c.date) c.date < rows
  · rw [if_neg (not_not.2 hjump)]
    have hminDate : idx.minDateFor c.date = idx.mMinDate ∨ idx.minDateFor c.date = c.date := by
      unfold minDateFor
      split_ifs
      · exact .inr rfl
      · exact .inl rfl
    by_cases hday : c.date.day = 0
    · rw [if_pos hday]
      refine ⟨_, _, _, _, rfl, ?_⟩
      have hsame : idx.minDateFor c.date = idx.mMinDate := by
        unfold minDateFor
        split_ifs with hzero
        · rw [date_eq_zeroDate hday, hzero]
        · rfl
      rw [hsame]
      exact id
    · rw [if_neg hday]
      refine ⟨_, _, _, _, rfl, ?_⟩
      intro hdates
      simp only [YearMonthDay.lt_def] at *
      rcases hminDate with hminDate | hminDate
      · rw [hminDate]
        split_ifs <;> omega
      · rw [hminDate]
        split_ifs <;> omega
  · rw [if_pos hjump]
    exact ⟨_, _, _, _, rfl, id⟩

/-- The keys that have no bitmaps are left alone by transactions that do not involve them. -/
theorem addBitmaps_of_not_mem {addresses : List PublicKeyIndex} {k : PublicKeyIndex}
    (hk : k ∉ addresses) (idx : TransactionsIndex) :
    (idx.addBitmaps env c addresses).mInvolvedPublicKeys k = idx.mInvolvedPublicKeys k := by
  have hcoins : ∀ (bs : List CompactAccountBalance) (idx : TransactionsIndex),
      (bs.foldl (addCoinCommunity c) idx).mInvolvedPublicKeys = idx.mInvolvedPublicKeys := by
    intro bs idx
    obtain ⟨-, -, coins, heq⟩ := foldl_addCoinCommunity (c := c) bs idx
    rw [heq]
  have hkeys : ∀ (idx : TransactionsIndex),
      (addresses.foldl (addInvolvedAddress env c) idx).mInvolvedPublicKeys k =
        idx.mInvolvedPublicKeys k := by
    induction addresses with
    | nil => exact fun idx => rfl
    | cons a addresses ih =>
      rw [List.mem_cons, not_or] at hk
      intro idx
      rw [List.foldl_cons, ih hk.2]
      exact Function.update_of_ne hk.1 _ _
  unfold addBitmaps
  rw [hcoins]
  exact hkeys idx

/-- What holds of the index after a sequence of calls, whatever the communities. -/
structure Entered (env : Env) (own : ℕ) (cs : List ConfirmedGradidoTx) (r : Calls) : Prop where
  community : r.index.mCommunityIdIndex = own
  keyed : Keyed env r.written r.index
  emptyKey : ∀ k : PublicKeyIndex, k.empty = true → r.index.mInvolvedPublicKeys k = none
  dates : ¬ r.index.mMaxDate < r.index.mMinDate
  minNr : r.index.mMinTransactionNr = firstNr cs
  maxNr : r.index.mMaxTransactionNr = lastNr cs
  written : List.Sublist r.written cs
  added : List.Sublist r.added r.written

/-- What holds of the index after the calls of a blockchain. -/
structure Kept (env : Env) (own : ℕ) (cs : List ConfirmedGradidoTx) (r : Calls) : Prop where
  collects : Collects env own r.written r.index
  emptyKey : ∀ k : PublicKeyIndex, k.empty = true → r.index.mInvolvedPublicKeys k = none
  dates : ¬ r.index.mMaxDate < r.index.mMinDate
  minNr : r.index.mMinTransactionNr = firstNr cs
  maxNr : r.index.mMaxTransactionNr = lastNr cs
  written : List.Sublist r.written cs
  added : List.Sublist r.added r.written

/-- What a call does to the index, whether it throws or not. -/
theorem addTransactionIndices_frame (idx : TransactionsIndex) :
    ∃ idx₁, idx₁ = (idx.updateYearMonthDayTxRange c.date c.txNr).1 ∧
      (writesBitmaps env idx c = false ∧ (idx.addTransactionIndices env c).1 = idx₁ ∧
          (idx.addTransactionIndices env c).2.isOk = false ∨
        writesBitmaps env idx c = true ∧ ∃ addresses addressIndex,
          c.getInvolvedAddresses env = .ok addresses ∧
          (idx.addTransactionIndices env c).1 =
            { idx₁.addBitmaps env c addresses with mAddressIndex := addressIndex }) := by
  refine ⟨_, rfl, ?_⟩
  unfold writesBitmaps addTransactionIndices
  change _ ∧ (andThen (idx.updateYearMonthDayTxRange c.date c.txNr) _).1 = _ ∧
    (andThen (idx.updateYearMonthDayTxRange c.date c.txNr) _).2.isOk = false ∨
    _ ∧ ∃ addresses addressIndex, _ ∧
      (andThen (idx.updateYearMonthDayTxRange c.date c.txNr) _).1 = _
  rcases idx.updateYearMonthDayTxRange c.date c.txNr with ⟨idx₁, e | ⟨⟩⟩
  · exact .inl ⟨rfl, rfl, rfl⟩
  · cases haddresses : c.getInvolvedAddresses env with
    | error e => exact .inl ⟨rfl, rfl, rfl⟩
    | ok addresses => exact .inr ⟨rfl, addresses, _, rfl, rfl⟩

theorem mem_getInvolvedAddresses_ne_empty {addresses : List PublicKeyIndex}
    (h : c.getInvolvedAddresses env = .ok addresses) {k : PublicKeyIndex} (hk : k.empty = true) :
    k ∉ addresses := by
  simp only [getInvolvedAddresses, bind_eq_ok, exists_unit, pure_eq_ok] at h
  obtain ⟨-, -, -, rfl⟩ := h
  simp [hk]

/-- What a call changes: the range and the dates, and the bitmaps unless it throws before. -/
theorem Entered.addCall_cases {r : Calls} (h : Entered env own cs r) (hcs : Upwards (cs ++ [c])) :
    ∃ idx₁ : TransactionsIndex, idx₁.mCommunityIdIndex = own ∧
      idx₁.mInvolvedPublicKeys = r.index.mInvolvedPublicKeys ∧
      idx₁.mTxPerType = r.index.mTxPerType ∧
      idx₁.mOtherCoinCommunityTx = r.index.mOtherCoinCommunityTx ∧
      ¬ idx₁.mMaxDate < idx₁.mMinDate ∧
      idx₁.mMinTransactionNr = firstNr (cs ++ [c]) ∧
      idx₁.mMaxTransactionNr = lastNr (cs ++ [c]) ∧
      (addCall env r c = ⟨idx₁, r.added, r.written⟩ ∨
        ∃ addresses addressIndex added, c.getInvolvedAddresses env = .ok addresses ∧
          (added = r.added ∨ added = r.added ++ [c]) ∧
          addCall env r c = ⟨{ idx₁.addBitmaps env c addresses with mAddressIndex := addressIndex },
            added, r.written ++ [c]⟩) := by
  have hle : r.index.mMinTransactionNr ≤ c.txNr := by
    rw [h.minNr]
    exact firstNr_le hcs
  obtain ⟨minDate, maxDate, rows, cells, heq₁, hdates⟩ :=
    updateYearMonthDayTxRange_frame r.index hle
  rw [h.minNr, h.maxNr, ← firstNr_concat hcs, ← lastNr_concat hcs] at heq₁
  obtain ⟨idx₁, hidx₁, hcases⟩ := @addTransactionIndices_frame env c r.index
  rw [heq₁] at hidx₁
  refine ⟨idx₁, by rw [hidx₁]; exact h.community, by rw [hidx₁], by rw [hidx₁], by rw [hidx₁],
    by rw [hidx₁]; exact hdates h.dates, by rw [hidx₁], by rw [hidx₁], ?_⟩
  unfold TransactionsIndex.addCall
  rcases hcases with ⟨hwrites, hindex, hok⟩ | ⟨hwrites, addresses, addressIndex, haddresses, hindex⟩
  · exact .inl (by simp only [hwrites, hok, hindex, Bool.false_eq_true, if_false])
  · refine .inr ⟨addresses, addressIndex, _, haddresses, ?_, by
      simp only [hwrites, hindex, if_true]; rfl⟩
    split_ifs
    · exact .inr rfl
    · exact .inl rfl

/-- **One more call** keeps it. -/
theorem Entered.addCall {r : Calls} (h : Entered env own cs r) (hcs : Upwards (cs ++ [c])) :
    Entered env own (cs ++ [c]) (addCall env r c) := by
  obtain ⟨idx₁, hcommunity, hinvolved, htypes, -, hdates, hminNr, hmaxNr, hcases⟩ :=
    h.addCall_cases hcs
  have hkeyed : Keyed env r.written idx₁ :=
    h.keyed.congr hinvolved htypes
  have hempty : ∀ k : PublicKeyIndex, k.empty = true → idx₁.mInvolvedPublicKeys k = none := by
    rw [hinvolved]
    exact h.emptyKey
  rcases hcases with heq | ⟨addresses, addressIndex, added, haddresses, hadded, heq⟩
  · rw [heq]
    exact ⟨hcommunity, hkeyed, hempty, hdates, hminNr, hmaxNr,
      h.written.trans (List.sublist_append_left cs [c]), h.added⟩
  · obtain ⟨hkeyed', involved, types, coins, hframe⟩ := hkeyed.addBitmaps haddresses
    have hempty' : ∀ k : PublicKeyIndex, k.empty = true →
        (idx₁.addBitmaps env c addresses).mInvolvedPublicKeys k = none := by
      intro k hk
      rw [addBitmaps_of_not_mem (mem_getInvolvedAddresses_ne_empty haddresses hk)]
      exact hempty k hk
    rw [heq]
    rw [hframe] at hkeyed' hempty' ⊢
    refine ⟨hcommunity, hkeyed'.congr rfl rfl, hempty', hdates, hminNr, hmaxNr,
      h.written.append (List.Sublist.refl [c]), ?_⟩
    rcases hadded with rfl | rfl
    · exact h.added.trans (List.sublist_append_left r.written [c])
    · exact h.added.append (List.Sublist.refl [c])

/-- **A sequence of calls** with increasing numbers. -/
theorem entered_addCalls (hcs : Upwards cs) : Entered env own cs (addCalls env own cs) := by
  induction cs using List.reverseRecOn with
  | nil =>
    exact {
      community := rfl
      keyed := (sets_empty env own).keyed
      emptyKey := fun k _ => rfl
      dates := by simp [addCalls, empty, YearMonthDay.lt_def]
      minNr := rfl
      maxNr := rfl
      written := List.Sublist.refl []
      added := List.Sublist.refl [] }
  | append_singleton cs c ih =>
    have hstep := (ih hcs.of_concat).addCall hcs
    rwa [addCalls, List.foldl_concat]

/-- The coins too, for transactions of the own community. -/
theorem sets_addCalls (hcs : Increasing own cs) :
    Sets env own (addCalls env own cs).written (addCalls env own cs).index := by
  induction cs using List.reverseRecOn with
  | nil => exact sets_empty env own
  | append_singleton cs c ih =>
    have h := @entered_addCalls env own cs hcs.of_concat.upwards
    obtain ⟨idx₁, -, hinvolved, htypes, hcoins, -, -, -, hcases⟩ := h.addCall_cases hcs.upwards
    have hsets : Sets env own (addCalls env own cs).written idx₁ :=
      (ih hcs.of_concat).congr hinvolved htypes hcoins
    have hcalls : addCalls env own (cs ++ [c]) = addCall env (addCalls env own cs) c := by
      rw [addCalls, List.foldl_concat]
      rfl
    rw [hcalls]
    rcases hcases with heq | ⟨addresses, addressIndex, added, haddresses, -, heq⟩
    · rw [heq]
      exact hsets
    · rw [heq]
      exact (hsets.addBitmaps (hcs.own c (by simp)) haddresses).1.congr rfl rfl rfl

/-- **The calls of a blockchain** with increasing numbers. -/
theorem kept_addCalls (hcs : Increasing own cs) : Kept env own cs (addCalls env own cs) := by
  have h := @entered_addCalls env own cs hcs.upwards
  exact {
    collects := ⟨h.community, sets_addCalls hcs, fun c hc => hcs.own c (h.written.subset hc),
      hcs.numbered.sublist h.written⟩
    emptyKey := h.emptyKey
    dates := h.dates
    minNr := h.minNr
    maxNr := h.maxNr
    written := h.written
    added := h.added }

end Steps

/-! ### The answer of the index -/

section Answer

variable {env : Env} {own : ℕ} {cs : List ConfirmedGradidoTx} {f : CompactFilter}

/-- The transactions that the bitmaps answer with, their numbers apart. -/
def Seen (env : Env) (own : ℕ) (f : CompactFilter) (c : ConfirmedGradidoTx) : Prop :=
  Plain f ∧ Wanted env own f c

instance : Decidable (Plain f) :=
  inferInstanceAs (Decidable (_ → _))

instance {c : ConfirmedGradidoTx} : Decidable (Seen env own f c) :=
  inferInstanceAs (Decidable (_ ∧ _))

/-- An empty key is never found. -/
theorem aggregate_of_not_plain {idx : TransactionsIndex}
    (hkeys : ∀ k : PublicKeyIndex, k.empty = true → idx.mInvolvedPublicKeys k = none)
    (hf : ¬ Plain f) : idx.aggregateTransactions f = none := by
  unfold Plain at hf
  rw [Classical.not_imp, Bool.not_eq_false] at hf
  obtain ⟨hsearch, hempty⟩ := hf
  have hkey : idx.publicKeyMaps f = none := by
    have hnone := hkeys _ hempty
    unfold publicKeyMaps
    rcases hsearch with hsearch | hsearch
    · simp [hsearch, hnone]
    · simp [hsearch, hnone]
  unfold aggregateTransactions
  rw [hkey]
  cases idx.calculateTxRange f with
  | none => rfl
  | some range =>
    cases idx.coinMaps f with
    | none => rfl
    | some coin => rfl

/-- The empty key stays without bitmaps. -/
theorem addTransactionIndices_emptyKey {idx : TransactionsIndex} {c : ConfirmedGradidoTx}
    (hkeys : ∀ k : PublicKeyIndex, k.empty = true → idx.mInvolvedPublicKeys k = none) :
    ∀ k : PublicKeyIndex, k.empty = true →
      (idx.addTransactionIndices env c).1.mInvolvedPublicKeys k = none := by
  intro k hk
  have hframe : (idx.updateYearMonthDayTxRange c.date c.txNr).1.mInvolvedPublicKeys =
      idx.mInvolvedPublicKeys := by
    unfold updateYearMonthDayTxRange
    dsimp only
    split_ifs <;> rfl
  obtain ⟨idx₁, rfl, ⟨-, heq, -⟩ | ⟨-, addresses, addressIndex, haddresses, heq⟩⟩ :=
    @addTransactionIndices_frame env c idx
  · rw [heq, hframe]
    exact hkeys k hk
  · rw [heq]
    change (addBitmaps env c addresses _).mInvolvedPublicKeys k = none
    rw [addBitmaps_of_not_mem (mem_getInvolvedAddresses_ne_empty haddresses hk), hframe]
    exact hkeys k hk

/-- The answer of the bitmaps, given what they hold of a filter whose range is known. -/
theorem Entered.mem_aggregate_of {r : Calls} (h : Entered env own cs r) (hcs : Upwards cs)
    (hinterval : f.timepointInterval.isEmpty = true)
    (haggregate : Plain f →
      (∀ c ∈ r.written, r.index.mMinTransactionNr ≤ c.txNr ∧
        c.txNr ≤ r.index.mMaxTransactionNr) →
      ∀ lo hi, r.index.calculateTxRange f = some (lo, hi) → ∀ n,
        (n ∈ (r.index.aggregateTransactions f).getD .empty ↔ lo ≤ n ∧ n ≤ hi ∧
          (Unrestricted own f ∨ ∃ c ∈ r.written, c.txNr = n ∧ Wanted env own f c))) (n : ℕ) :
    n ∈ (r.index.aggregateTransactions f).getD .empty ↔
      firstNr cs ≤ n ∧ n ≤ lastNr cs ∧ Admits f n ∧ (Unrestricted own f ∨
        ∃ c ∈ r.written, c.txNr = n ∧ Seen env own f c) := by
  by_cases hf : Plain f
  · have hbounds : ∀ c ∈ r.written, r.index.mMinTransactionNr ≤ c.txNr ∧
        c.txNr ≤ r.index.mMaxTransactionNr := by
      intro c hc
      rw [h.minNr, h.maxNr]
      exact txNr_between hcs (h.written.subset hc)
    have hanswer := haggregate hf hbounds
    have hrange := calculateTxRange_of_isEmpty h.dates hinterval
    rw [h.minNr, h.maxNr] at hrange
    unfold Seen Admits
    split_ifs at hrange with hout
    · refine iff_of_false ?_ ?_
      · simp [aggregateTransactions, hrange]
      · rintro ⟨hlo, hhi, hadmits, -⟩
        omega
    · rw [hanswer _ _ hrange, le_cappedNr, Nat.max_le]
      simp only [hf, true_and]
      constructor
      · rintro ⟨⟨hmin, hlo⟩, ⟨hhi, hmax⟩, hwanted⟩
        exact ⟨hlo, hhi, ⟨.inr hmin, hmax⟩, hwanted⟩
      · rintro ⟨hlo, hhi, ⟨hmin, hmax⟩, hwanted⟩
        exact ⟨⟨by omega, hlo⟩, ⟨hhi, hmax⟩, hwanted⟩
  · rw [aggregate_of_not_plain h.emptyKey hf]
    refine iff_of_false (by simp) ?_
    rintro ⟨-, -, -, hall | ⟨c, -, -, hplain, -⟩⟩
    · obtain ⟨-, hbalance, hinvolved, -⟩ := hall
      refine hf ?_
      rintro (hsearch | hsearch)
      · exact absurd hsearch hbalance
      · exact absurd hsearch hinvolved
    · exact hf hplain

/-- **The answer of the bitmaps** after a sequence of calls.  A search that nothing restricts is
answered with all numbers from the first to the last call. -/
theorem mem_aggregate_addCalls (hcs : Increasing own cs)
    (hinterval : f.timepointInterval.isEmpty = true) (n : ℕ) :
    n ∈ ((addCalls env own cs).index.aggregateTransactions f).getD .empty ↔
      firstNr cs ≤ n ∧ n ≤ lastNr cs ∧ Admits f n ∧ (Unrestricted own f ∨
        ∃ c ∈ (addCalls env own cs).written, c.txNr = n ∧ Seen env own f c) :=
  (entered_addCalls hcs.upwards).mem_aggregate_of hcs.upwards hinterval
    (fun hf hbounds _ _ hrange =>
      (@kept_addCalls env own cs hcs).collects.mem_aggregate hbounds hf hrange) n

/-- The same for transactions of any communities, when the filter has no coin and does not ask for
the balance of a foreign key. -/
theorem mem_aggregate_addCalls_coinless (hcs : Upwards cs)
    (hinterval : f.timepointInterval.isEmpty = true) (hcoin : f.coinCommunityIdIndex = 0)
    (hforeign : f.publicKeySearchType = .balanceChangingPublicKey →
      f.publicKeyIndex.communityIdIndex = own) (n : ℕ) :
    n ∈ ((addCalls env own cs).index.aggregateTransactions f).getD .empty ↔
      firstNr cs ≤ n ∧ n ≤ lastNr cs ∧ Admits f n ∧ (Unrestricted own f ∨
        ∃ c ∈ (addCalls env own cs).written, c.txNr = n ∧ Seen env own f c) := by
  have h := @entered_addCalls env own cs hcs
  refine h.mem_aggregate_of hcs hinterval (fun hf hbounds _ _ hrange => ?_) n
  exact h.keyed.mem_aggregate h.community
    (fun _ hc _ hc' => Buckets.eq_of_numbered (hcs.numbered.sublist h.written) hc hc')
    hbounds hf hcoin hforeign hrange

/-! ### The answer of the filter -/

/-- A key was asked for that has no number or whose community is not known. -/
def Missing (f : CompactFilter) : Prop :=
  f.publicKeySearchType = .missingIndex ∨ f.publicKeySearchType = .missingCommunityId

instance : Decidable (Missing f) :=
  inferInstanceAs (Decidable (_ ∨ _))

/-- The bitmaps answer with exactly the added transactions that the filter uses, and with nothing
for a missing key. -/
def AnswersMatching (env : Env) (own : ℕ) (cs : List ConfirmedGradidoTx) (f : CompactFilter) :
    Prop :=
  ∀ n, n ∈ ((addCalls env own cs).index.aggregateTransactions f).getD .empty ↔
    ¬ Missing f ∧ ∃ c ∈ (addCalls env own cs).added, c.txNr = n ∧ f.matchesTx env c = .USE

/-- A transaction meets the criteria of a filter that are not about a key. -/
def MeetsOthers (f : CompactFilter) (c : ConfirmedGradidoTx) : Prop :=
  Admits f c.txNr ∧ f.matchesCoinCommunity c = true ∧ f.matchesTransactionType c = true

/-- What the calls and the filter have to respect.

* A search that nothing restricts needs a transaction for every number.
* What the bitmaps see has to be the transaction of a call that returned, the key must not be
  missing, and the own coin, for which there is no bitmap, must be among the balances.
* A key that is only named in the body has no bitmap, and neither has the empty key. -/
structure Agreeable (env : Env) (own : ℕ) (cs : List ConfirmedGradidoTx) (f : CompactFilter) :
    Prop where
  gapless : Unrestricted own f → ∀ n, firstNr cs ≤ n → n ≤ lastNr cs → Admits f n →
    ∃ c ∈ (addCalls env own cs).added, c.txNr = n
  seen : ∀ c ∈ (addCalls env own cs).written, Admits f c.txNr → Seen env own f c →
    c ∈ (addCalls env own cs).added ∧ ¬ Missing f ∧ f.matchesCoinCommunity c = true
  body : f.publicKeySearchType = .involvedPublicKey → f.publicKeyIndex.empty = false →
    ∀ c ∈ (addCalls env own cs).added, MeetsOthers f c → f.publicKeyIndex ∈ c.bodyAddresses →
      Recorded env c f.publicKeyIndex
  emptyKey : f.publicKeySearchType = .balanceChangingPublicKey → f.publicKeyIndex.empty = true →
    ∀ c ∈ (addCalls env own cs).added, MeetsOthers f c →
      c.isBalanceUpdated f.publicKeyIndex = false

theorem matchesTx_eq_USE_iff {c : ConfirmedGradidoTx}
    (hinterval : f.timepointInterval.isEmpty = true) :
    f.matchesTx env c = .USE ↔ MeetsOthers f c ∧
      (f.publicKeySearchType = .involvedPublicKey → c.isInvolved env f.publicKeyIndex = true) ∧
      (f.publicKeySearchType = .balanceChangingPublicKey →
        c.isBalanceUpdated f.publicKeyIndex = true) := by
  rw [CompactFilter.matchesTx_eq_USE, admits_iff, MeetsOthers]
  simp only [forall_const, CompactFilter.matchesTimepointInterval, hinterval, Bool.true_or,
    CompactFilter.matchesInvolvedPublicKey, CompactFilter.matchesUpdatedBalancePublicKey,
    Bool.not_eq_true', Bool.and_eq_false_iff, decide_eq_false_iff_not, Bool.not_eq_false',
    true_and, and_assoc, imp_iff_not_or]

/-- A recorded key is an involved one. -/
theorem Recorded.isInvolved {c : ConfirmedGradidoTx} {k : PublicKeyIndex} (hk : k.empty = false)
    (h : Recorded env c k) : c.isInvolved env k = true := by
  simp only [ConfirmedGradidoTx.isInvolved, hk, Bool.not_false, Bool.true_and, Bool.or_eq_true,
    decide_eq_true_eq]
  rcases h with hother | hsigner | hbalance
  · exact .inl (.inr (mem_bodyAddresses_of_isOtherInvolved hk hother))
  · exact .inr hsigner
  · exact .inl (.inl hbalance)

/-- What the bitmaps see is used by the filter, given the coin. -/
theorem Seen.matchesTx {c : ConfirmedGradidoTx} (h : Seen env own f c)
    (hinterval : f.timepointInterval.isEmpty = true) (hadmits : Admits f c.txNr)
    (hcoin : f.matchesCoinCommunity c = true) : f.matchesTx env c = .USE := by
  obtain ⟨hplain, -, ⟨hbalance, hinvolved⟩, htype⟩ := h
  rw [matchesTx_eq_USE_iff hinterval]
  refine ⟨⟨hadmits, hcoin, ?_⟩, ?_, hbalance⟩
  · simpa [CompactFilter.matchesTransactionType] using htype
  · intro hsearch
    exact (hinvolved hsearch).isInvolved (hplain (.inr hsearch))

/-- What the filter uses is seen by the bitmaps, given that its key has one. -/
theorem seen_of_matchesTx {c : ConfirmedGradidoTx}
    (hinterval : f.timepointInterval.isEmpty = true) (h : f.matchesTx env c = .USE)
    (hplain : Plain f) (hrecorded : f.publicKeySearchType = .involvedPublicKey →
      Recorded env c f.publicKeyIndex) : Seen env own f c := by
  rw [matchesTx_eq_USE_iff hinterval] at h
  obtain ⟨⟨-, hcoin, htype⟩, -, hbalance⟩ := h
  refine ⟨hplain, ?_, ⟨hbalance, hrecorded⟩, ?_⟩
  · simp only [CompactFilter.matchesCoinCommunity, hasCoinsFromCommunity, Bool.or_eq_true,
      decide_eq_true_eq, List.any_eq_true] at hcoin
    rcases hcoin with hzero | hbalances
    · exact .inl hzero
    · exact .inr (.inr hbalances)
  · simpa [CompactFilter.matchesTransactionType] using htype

/-- Where the bitmaps answer like the filter, the conditions of `Agreeable` hold. -/
theorem AnswersMatching.agreeable (hcs : Increasing own cs)
    (hinterval : f.timepointInterval.isEmpty = true) (hsame : AnswersMatching env own cs f) :
    Agreeable env own cs f := by
  have h := @kept_addCalls env own cs hcs
  have hinj : ∀ c ∈ (addCalls env own cs).written, ∀ c' ∈ (addCalls env own cs).added,
      c'.txNr = c.txNr → c' = c := fun c hc c' hc' heq =>
    h.collects.txNr_injective c' (h.added.subset hc') c hc heq
  unfold AnswersMatching at hsame
  simp only [mem_aggregate_addCalls hcs hinterval] at hsame
  have hseen : ∀ c ∈ (addCalls env own cs).added, f.matchesTx env c = .USE → ¬ Missing f →
      Unrestricted own f ∨ Seen env own f c := by
    intro c hc huse hmissing
    obtain ⟨-, -, -, hall | ⟨c', hc', hnr, hw⟩⟩ := (hsame c.txNr).2 ⟨hmissing, c, hc, rfl, huse⟩
    · exact .inl hall
    · rw [hinj c' hc' c hc hnr.symm]
      exact .inr hw
  refine ⟨?_, ?_, ?_, ?_⟩
  · intro hall n hlo hhi hadmits
    obtain ⟨-, c, hc, hnr, -⟩ := (hsame n).1 ⟨hlo, hhi, hadmits, .inl hall⟩
    exact ⟨c, hc, hnr⟩
  · intro c hc hadmits hw
    have hbetween := txNr_between hcs.upwards (h.written.subset hc)
    obtain ⟨hmissing, c', hc', hnr, huse⟩ :=
      (hsame c.txNr).1 ⟨hbetween.1, hbetween.2, hadmits, .inr ⟨c, hc, rfl, hw⟩⟩
    obtain rfl := hinj c hc c' hc' hnr
    exact ⟨hc', hmissing, ((matchesTx_eq_USE_iff hinterval).1 huse).1.2.1⟩
  · intro hsearch hkey c hc hothers hbody
    have huse : f.matchesTx env c = .USE := by
      rw [matchesTx_eq_USE_iff hinterval]
      refine ⟨hothers, fun _ => ?_, fun hbalance => by simp [hsearch] at hbalance⟩
      simp [ConfirmedGradidoTx.isInvolved, hkey, hbody]
    rcases hseen c hc huse (by simp [Missing, hsearch]) with hall | hw
    · exact absurd hsearch hall.2.2.1
    · exact hw.2.2.1.2 hsearch
  · intro hsearch hkey c hc hothers
    by_contra hbalance
    rw [Bool.not_eq_false] at hbalance
    have huse : f.matchesTx env c = .USE := by
      rw [matchesTx_eq_USE_iff hinterval]
      exact ⟨hothers, fun hinvolved => by simp [hsearch] at hinvolved, fun _ => hbalance⟩
    rcases hseen c hc huse (by simp [Missing, hsearch]) with hall | hw
    · exact absurd hsearch hall.2.1
    · rw [hw.1 (.inl hsearch)] at hkey
      simp at hkey

/-- Under the conditions of `Agreeable` the bitmaps answer like the filter. -/
theorem Agreeable.answersMatching (hcs : Increasing own cs)
    (hinterval : f.timepointInterval.isEmpty = true) (hagree : Agreeable env own cs f) :
    AnswersMatching env own cs f := by
  have h := @kept_addCalls env own cs hcs
  unfold AnswersMatching
  simp only [mem_aggregate_addCalls hcs hinterval]
  intro n
  constructor
  · rintro ⟨hlo, hhi, hadmits, hall | ⟨c, hc, rfl, hw⟩⟩
    · obtain ⟨c, hc, rfl⟩ := hagree.gapless hall n hlo hhi hadmits
      have hw : Seen env own f c := by
        refine ⟨?_, hall.wanted c⟩
        rintro (hsearch | hsearch)
        · exact absurd hsearch hall.2.1
        · exact absurd hsearch hall.2.2.1
      obtain ⟨-, hmissing, hcoin⟩ := hagree.seen c (h.added.subset hc) hadmits hw
      exact ⟨hmissing, c, hc, rfl, hw.matchesTx hinterval hadmits hcoin⟩
    · obtain ⟨hadded, hmissing, hcoin⟩ := hagree.seen c hc hadmits hw
      exact ⟨hmissing, c, hadded, rfl, hw.matchesTx hinterval hadmits hcoin⟩
  · rintro ⟨-, c, hc, rfl, huse⟩
    have hbetween := txNr_between hcs.upwards (h.written.subset (h.added.subset hc))
    obtain ⟨hothers, hinvolved, hbalance⟩ := (matchesTx_eq_USE_iff hinterval).1 huse
    refine ⟨hbetween.1, hbetween.2, hothers.1, .inr ⟨c, h.added.subset hc, rfl, ?_⟩⟩
    refine seen_of_matchesTx hinterval huse ?_ ?_
    · rintro (hsearch | hsearch)
      · by_contra hkey
        have hnone := hagree.emptyKey hsearch (by simpa using hkey) c hc hothers
        rw [hbalance hsearch] at hnone
        simp at hnone
      · have hkey := hinvolved hsearch
        simp only [ConfirmedGradidoTx.isInvolved, Bool.and_eq_true, Bool.not_eq_true'] at hkey
        exact hkey.1
    · intro hsearch
      have hkey := hinvolved hsearch
      simp only [ConfirmedGradidoTx.isInvolved, Bool.and_eq_true, Bool.not_eq_true',
        Bool.or_eq_true, decide_eq_true_eq] at hkey
      obtain ⟨hempty, (hupdated | hbody) | hsigner⟩ := hkey
      · exact .inr (.inr hupdated)
      · exact hagree.body hsearch hempty c hc hothers hbody
      · exact .inr (.inl hsigner)

/-- **The bitmaps answer like the filter** exactly under the conditions of `Agreeable`. -/
theorem answersMatching_iff (hcs : Increasing own cs)
    (hinterval : f.timepointInterval.isEmpty = true) :
    AnswersMatching env own cs f ↔ Agreeable env own cs f :=
  ⟨AnswersMatching.agreeable hcs hinterval, Agreeable.answersMatching hcs hinterval⟩

end Answer

/-- The compact form of a community root. -/
def rootTx : ConfirmedGradidoTx where
  txNr := 1
  confirmedAt := ⟨Sample.midnight, 0⟩
  txCommunityIdIndex := 1
  coinCommunityIdIndex := 1
  crossGroupType := .localGroup
  transactionType := .communityRoot
  accountBalances := [⟨0, 1, 2⟩, ⟨0, 1, 3⟩]
  specific := .communityRoot 1 2 3
  pairingTxCommunityIdIndex := 0
  signaturePublicKeys := [1]

theorem increasing_rootTx : Increasing 1 [rootTx] where
  positive := by simp [rootTx]
  own := by simp [rootTx]
  numbered := List.pairwise_singleton _ _

/-- A key without a number is answered with everything. -/
theorem missingIndex_not_answersMatching :
    Increasing 1 [rootTx] ∧
      ¬ AnswersMatching Sample.env 1 [rootTx] { publicKeySearchType := .missingIndex } := by
  refine ⟨increasing_rootTx, ?_⟩
  intro h
  have hone : 1 ∈ ((addCalls Sample.env 1 [rootTx]).index.aggregateTransactions
      { publicKeySearchType := .missingIndex }).getD .empty := by
    decide +kernel
  exact ((h 1).1 hone).1 (by decide)

/-- The root is found by its type and by the key that signed it. -/
theorem rootTx_answersMatching :
    AnswersMatching Sample.env 1 [rootTx] { transactionType := .communityRoot
                                            publicKeySearchType := .involvedPublicKey
                                            publicKeyIndex := ⟨1, 1⟩ } := by
  have hadded : (addCalls Sample.env 1 [rootTx]).added = [rootTx] := rfl
  have hwritten : (addCalls Sample.env 1 [rootTx]).written = [rootTx] := rfl
  refine (answersMatching_iff increasing_rootTx rfl).2 ⟨?_, ?_, ?_, ?_⟩
  · intro hall
    exact absurd hall (by decide)
  · rw [hadded, hwritten]
    intro c hc _ _
    exact ⟨hc, by decide, by simp [CompactFilter.matchesCoinCommunity]⟩
  · rw [hadded]
    intro _ _ c hc _ _
    rw [List.mem_singleton.1 hc]
    decide
  · intro hsearch
    simp at hsearch

end TransactionsIndex

end Gradido
