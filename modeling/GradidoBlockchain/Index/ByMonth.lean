import GradidoBlockchain.Blockchain.MonthIndex
import GradidoBlockchain.Index.Interval
import GradidoBlockchain.Lib.Buckets
import GradidoBlockchain.Lib.Steps

/-!
# What the index by months holds

`Holds` says what the index holds after the insertion of a list of transactions
with increasing numbers in the order of their months: their entries in the
buckets of the months, and for each key the list of those that changed its
balance.  `holds_of_added` is the induction over the insertions.
-/

namespace Gradido

open Checked Buckets

namespace ByMonth

open Gradido.TransactionsIndex (InClock)

/-! ### Transactions as entries -/

/-- The number of the month of a transaction. -/
def monthNr (c : ConfirmedGradidoTx) : ℤ := monthOf c.confirmedAt.getAsTimepoint

/-- The addresses that are entered for a transaction. -/
def involved (env : Env) (c : ConfirmedGradidoTx) : List PublicKeyIndex :=
  ((c.getInvolvedAddresses env).toOption).getD []

/-- The coin community that is entered for a transaction. -/
def coinOf (c : ConfirmedGradidoTx) : ℕ :=
  if c.coinCommunityIdIndex ≠ 0 then c.coinCommunityIdIndex else c.txCommunityIdIndex

/-- The entry of a transaction. -/
def entryOf (env : Env) (c : ConfirmedGradidoTx) : TransactionsIndexEntry where
  transactionType := c.transactionType
  isBalanceChanging := TransactionsIndex.balanceChangingBits c (involved env c)
  coinCommunityIdIndex := coinOf c
  transactionNr := c.txNr
  addressIndices := (involved env c).map PublicKeyIndex.publicKeyIndex

@[simp] theorem transactionNr_entryOf (env : Env) (c : ConfirmedGradidoTx) :
    (entryOf env c).transactionNr = c.txNr := rfl

/-- The entry of a transaction in the lists of the keys. -/
def balanceEntryOf (c : ConfirmedGradidoTx) : BalanceTransactionIndexEntry where
  transactionType := c.transactionType
  confirmed := yearMonthOf c.confirmedAt.getAsTimepoint
  coinCommunityIdIndex := coinOf c
  transactionNr := c.txNr

/-- A transaction is entered for the number of a key, whatever its community. -/
def Involves (env : Env) (c : ConfirmedGradidoTx) (k : ℕ) : Prop :=
  ∃ a ∈ involved env c, a.publicKeyIndex = k

/-- A transaction is entered as one that changed the balance of the number of a key. -/
def Changes (env : Env) (c : ConfirmedGradidoTx) (k : ℕ) : Prop :=
  ∃ a ∈ involved env c, a.publicKeyIndex = k ∧ c.isBalanceUpdated a = true

instance (env : Env) (c : ConfirmedGradidoTx) (k : ℕ) : Decidable (Involves env c k) :=
  inferInstanceAs (Decidable (∃ a ∈ involved env c, _))

instance (env : Env) (c : ConfirmedGradidoTx) (k : ℕ) : Decidable (Changes env c k) :=
  inferInstanceAs (Decidable (∃ a ∈ involved env c, _))

section Entries

variable {env : Env} {c : ConfirmedGradidoTx}

theorem nodup_involved (env : Env) (c : ConfirmedGradidoTx) : (involved env c).Nodup := by
  unfold involved
  cases h : c.getInvolvedAddresses env with
  | error e => exact List.nodup_nil
  | ok addresses =>
    simp only [ConfirmedGradidoTx.getInvolvedAddresses, bind_eq_ok, exists_unit, pure_eq_ok] at h
    obtain ⟨-, -, -, rfl⟩ := h
    exact (List.nodup_dedup _).filter _

/-- For up to seven addresses no bit is left out. -/
theorem zip_balanceChangingBits {addresses : List PublicKeyIndex} (h : addresses.length < 8) :
    (addresses.map PublicKeyIndex.publicKeyIndex).zip
        (TransactionsIndex.balanceChangingBits c addresses) =
      addresses.map (fun a => (a.publicKeyIndex, c.isBalanceUpdated a)) := by
  have hbits : TransactionsIndex.balanceChangingBits c addresses =
      addresses.map (fun a => c.isBalanceUpdated a) := by
    refine List.ext_getElem (by simp [TransactionsIndex.balanceChangingBits]) (fun i hi _ => ?_)
    have hlt : i < addresses.length := by simpa [TransactionsIndex.balanceChangingBits] using hi
    have hbit : i + 1 < 8 := by omega
    simp [TransactionsIndex.balanceChangingBits, hbit]
  rw [hbits, List.zip_map']

theorem mem_zip_entryOf (h : (involved env c).length ≤ 4) (k : ℕ) :
    (k, true) ∈ (entryOf env c).addressIndices.zip (entryOf env c).isBalanceChanging ↔
      Changes env c k := by
  rw [entryOf, zip_balanceChangingBits (by omega)]
  simp [Changes]

/-- A balance is changed under one address only, the one of the transaction's community. -/
theorem count_balanceChanging (h : (involved env c).length ≤ 4) (k : ℕ) :
    ((entryOf env c).addressIndices.zip (entryOf env c).isBalanceChanging).count (k, true) =
      if Changes env c k then 1 else 0 := by
  have hmem := mem_zip_entryOf h k
  have hle : ((entryOf env c).addressIndices.zip (entryOf env c).isBalanceChanging).count
      (k, true) ≤ 1 := by
    rw [entryOf, zip_balanceChangingBits (by omega), List.count, List.countP_map]
    have hone : (involved env c).countP (fun a => a == ⟨c.txCommunityIdIndex, k⟩) ≤ 1 :=
      List.nodup_iff_count_le_one.1 (nodup_involved env c) _
    refine Nat.le_trans (List.countP_mono_left (fun a _ ha => ?_)) hone
    simp only [Function.comp_apply, beq_iff_eq, Prod.mk.injEq] at ha ⊢
    obtain ⟨hk, hupdated⟩ := ha
    obtain ⟨b, -, hb⟩ := List.any_eq_true.1 hupdated
    simp only [Bool.and_eq_true, decide_eq_true_eq] at hb
    obtain ⟨community, index⟩ := a
    dsimp only at hk hb
    rw [hk, hb.2]
  split_ifs with hchanges
  · exact Nat.le_antisymm hle (List.count_pos_iff.2 (hmem.2 hchanges))
  · exact List.count_eq_zero.2 (fun hin => hchanges (hmem.1 hin))

theorem addBalanceChanging_eq (e : BalanceTransactionIndexEntry) (addresses : List (ℕ × Bool))
    (m : ℕ → List BalanceTransactionIndexEntry) (k : ℕ) :
    TransactionsIndex.addBalanceChanging e addresses m k =
      m k ++ List.replicate (addresses.count (k, true)) e := by
  induction addresses generalizing m with
  | nil => simp [TransactionsIndex.addBalanceChanging]
  | cons p addresses ih =>
    obtain ⟨address, changing⟩ := p
    rw [TransactionsIndex.addBalanceChanging, ih, List.count_cons]
    cases changing with
    | false => simp
    | true =>
      by_cases hk : address = k
      · subst hk
        simp [List.replicate_succ]
      · simp [hk, Function.update_of_ne (Ne.symm hk)]

end Entries

/-! ### The last change of a balance -/

/-- What the address index knows as the last change of a balance, zero for nothing. -/
def lastChange (a : AddressIndex) (k : ℕ) : ℕ :=
  ((a.mIndexTransactionNrs k).map AddressData.lastBalanceChangingTransactionNr).getD 0

section LastChange

variable {a : AddressIndex}

theorem lastChange_addTransactionNrForIndex (k' nr : ℕ) (t : AddressType) (k : ℕ) :
    lastChange (a.addTransactionNrForIndex k' nr t).1 k = lastChange a k := by
  unfold AddressIndex.addTransactionNrForIndex lastChange
  cases hk' : a.mIndexTransactionNrs k' with
  | none =>
    by_cases hk : k = k'
    · subst hk
      simp [hk']
    · simp [Function.update_of_ne hk]
  | some data =>
    dsimp only
    split_ifs
    · rfl
    · rfl
    · by_cases hk : k = k'
      · subst hk
        simp [hk']
      · simp [Function.update_of_ne hk]

theorem lastChange_update (k' nr k : ℕ) :
    lastChange (a.updateLastBalanceChangingTransactionNr k' nr) k =
      if k = k' ∧ (a.mIndexTransactionNrs k).isSome = true then nr else lastChange a k := by
  unfold AddressIndex.updateLastBalanceChangingTransactionNr lastChange
  cases hk' : a.mIndexTransactionNrs k' with
  | none =>
    by_cases hk : k = k'
    · subst hk
      simp [hk']
    · simp [hk]
  | some data =>
    by_cases hk : k = k'
    · subst hk
      simp [hk']
    · simp [hk]

theorem isSome_of_lastChange {k : ℕ} (h : lastChange a k ≠ 0) :
    (a.mIndexTransactionNrs k).isSome = true := by
  unfold lastChange at h
  cases hk : a.mIndexTransactionNrs k with
  | none => simp [hk] at h
  | some data => rfl

theorem lastChange_addTyped (nr : ℕ) (l : List (ℕ × AddressType)) (k : ℕ) :
    lastChange (AddressIndex.addTyped nr l a).1 k = lastChange a k := by
  induction l generalizing a with
  | nil => rfl
  | cons p l ih =>
    obtain ⟨k', t⟩ := p
    have hone := @lastChange_addTransactionNrForIndex a k' nr t k
    unfold AddressIndex.addTyped
    cases hr : (a.addTransactionNrForIndex k' nr t).2 with
    | ok u => rw [andThen_of_ok _ hr, ih, hone]
    | error e => rw [andThen_of_error _ hr, hone]

/-- The loop over the balances: a balance that changes is dated with the new number, when anything
was known of it before. -/
theorem lastChange_foldl (nr : ℕ) (bs : List CompactAccountBalance) (k : ℕ) :
    let a' := bs.foldl (fun a b => a.updateLastBalanceChangingTransactionNr b.publicKeyIndex nr) a
    (lastChange a' k = lastChange a k ∨ lastChange a' k = nr) ∧
      ((a.mIndexTransactionNrs k).isSome = true → k ∈ bs.map CompactAccountBalance.publicKeyIndex →
        lastChange a' k = nr) := by
  induction bs generalizing a with
  | nil => exact ⟨.inl rfl, by simp⟩
  | cons b bs ih =>
    obtain ⟨hold, hnew⟩ := @ih (a.updateLastBalanceChangingTransactionNr b.publicKeyIndex nr)
    have hupdate := @lastChange_update a b.publicKeyIndex nr k
    have hsome : ((a.updateLastBalanceChangingTransactionNr b.publicKeyIndex
        nr).mIndexTransactionNrs k).isSome = (a.mIndexTransactionNrs k).isSome := by
      unfold AddressIndex.updateLastBalanceChangingTransactionNr
      cases hb : a.mIndexTransactionNrs b.publicKeyIndex with
      | none => rfl
      | some data =>
        by_cases hk : k = b.publicKeyIndex
        · simp [hk, hb]
        · simp [Function.update_of_ne hk]
    rw [hsome] at hnew
    dsimp only [List.foldl_cons]
    refine ⟨?_, fun hin hk => ?_⟩
    · rcases hold with hold | hold
      · rw [hold, hupdate]
        split_ifs
        · exact .inr rfl
        · exact .inl rfl
      · exact .inr hold
    · rw [List.map_cons, List.mem_cons] at hk
      rcases hk with rfl | hk
      · rw [if_pos ⟨rfl, hin⟩] at hupdate
        rcases hold with hold | hold
        · rw [hold, hupdate]
        · exact hold
      · exact hnew hin hk

/-- **An insertion into the address index** and the last changes. -/
theorem lastChange_addTransaction {a' : AddressIndex} {c : ConfirmedGradidoTx}
    (h : a.addTransaction c = (a', .ok ())) (k : ℕ) :
    (lastChange a' k = lastChange a k ∨ lastChange a' k = c.txNr) ∧
      (lastChange a k ≠ 0 → k ∈ c.accountBalances.map CompactAccountBalance.publicKeyIndex →
        lastChange a' k = c.txNr) := by
  rw [AddressIndex.addTransaction_eq, andThen_eq_ok] at h
  obtain ⟨-, h⟩ := h
  obtain rfl := (Prod.ext_iff.1 h).1
  have htyped := @lastChange_addTyped a c.txNr c.typedAddresses k
  obtain ⟨hold, hnew⟩ := @lastChange_foldl (AddressIndex.addTyped c.txNr c.typedAddresses a).1
    c.txNr c.accountBalances k
  rw [htyped] at hold
  refine ⟨hold, fun hne hk => hnew (isSome_of_lastChange ?_) hk⟩
  rwa [htyped]

end LastChange

/-! ### The invariant -/

/-- Transactions with increasing numbers, in the order of their months. -/
structure Monthly (cs : List ConfirmedGradidoTx) : Prop where
  positive : ∀ c ∈ cs, 0 < c.txNr
  numbered : cs.Pairwise (fun a b => a.txNr < b.txNr)
  months : cs.Pairwise (fun a b => monthNr a ≤ monthNr b)
  clock : ∀ c ∈ cs, InClock c.confirmedAt.getAsTimepoint

theorem Monthly.of_concat {cs : List ConfirmedGradidoTx} {c : ConfirmedGradidoTx}
    (h : Monthly (cs ++ [c])) : Monthly cs where
  positive := fun c' hc' => h.positive c' (List.mem_append_left _ hc')
  numbered := (List.pairwise_append.1 h.numbered).1
  months := (List.pairwise_append.1 h.months).1
  clock := fun c' hc' => h.clock c' (List.mem_append_left _ hc')

/-- The month of the first transaction, as it stands in the index. -/
def firstMonth (cs : List ConfirmedGradidoTx) : ℤ × ℕ :=
  (cs.head?.map (fun c => yearMonthOf c.confirmedAt.getAsTimepoint)).getD (0, 0)

/-- The month of the last transaction, as it stands in the index. -/
def lastMonth (cs : List ConfirmedGradidoTx) : ℤ × ℕ :=
  (cs.getLast?.map (fun c => yearMonthOf c.confirmedAt.getAsTimepoint)).getD (0, 0)

/-- The transactions of the month that comes a number of months after the first. -/
def monthBucket (cs : List ConfirmedGradidoTx) (i : ℕ) : List ConfirmedGradidoTx :=
  bucket monthNr cs (Calendar.monthNumber (firstMonth cs) + i)

namespace TransactionsIndex

/-- What the index holds. -/
structure Holds (env : Env) (own : ℕ) (cs : List ConfirmedGradidoTx) (idx : TransactionsIndex) :
    Prop where
  community : idx.mCommunityIdIndex = own
  minPos : cs ≠ [] → 0 < idx.mMinTransactionNr
  minNr : ∀ c ∈ cs, idx.mMinTransactionNr ≤ c.txNr
  maxNr : ∀ c ∈ cs, c.txNr ≤ idx.mMaxTransactionNr
  minMonth : idx.mMinYearMonth = firstMonth cs
  maxMonth : idx.mMaxYearMonth = lastMonth cs
  buckets : ∀ i, idx.mYearMonthAddressIndexEntries i = (monthBucket cs i).map (entryOf env)
  lists : ∀ k, idx.mBalanceChangingTxPerAccountPublicKey k =
    (cs.filter (fun c => decide (Changes env c k))).map balanceEntryOf
  last : ∀ k, lastChange idx.mAddressIndex k ≠ 0 → ∀ c ∈ cs, Changes env c k →
    c.txNr ≤ lastChange idx.mAddressIndex k
  lastNr : ∀ k, lastChange idx.mAddressIndex k ≠ 0 →
    ∃ c ∈ cs, c.txNr = lastChange idx.mAddressIndex k
  few : ∀ c ∈ cs, (involved env c).length ≤ 4

/-- One insertion that succeeds. -/
def add (env : Env) (idx : TransactionsIndex) (c : ConfirmedGradidoTx) :
    Option TransactionsIndex :=
  match idx.addIndicesForTransaction env c with
  | (idx, .ok ()) => some idx
  | (_, .error _) => none

theorem add_eq_some {env : Env} {idx idx' : TransactionsIndex} {c : ConfirmedGradidoTx} :
    idx.add env c = some idx' ↔ idx.addIndicesForTransaction env c = (idx', .ok ()) := by
  unfold add
  split
  · next idx₁ h => simp [h]
  · next idx₁ e h => simp [h]

/-! ### The parts of an insertion -/

/-- The bounds of the numbers after a call, whether it throws or not. -/
def boundedBy (idx : TransactionsIndex) (nr : ℕ) : TransactionsIndex :=
  { idx with
    mMaxTransactionNr := max idx.mMaxTransactionNr nr
    mMinTransactionNr := if idx.mMinTransactionNr = 0 then nr else idx.mMinTransactionNr }

theorem transactionNrUpdateBounds_fst (idx : TransactionsIndex) (nr : ℕ) :
    (idx.transactionNrUpdateBounds nr).1 = idx.boundedBy nr := by
  have hmax : (if nr > idx.mMaxTransactionNr then nr else idx.mMaxTransactionNr) =
      max idx.mMaxTransactionNr nr := by
    split_ifs <;> omega
  unfold transactionNrUpdateBounds boundedBy
  dsimp only
  rw [hmax]
  split_ifs <;> rfl

theorem transactionNrUpdateBounds_snd {idx : TransactionsIndex} {nr : ℕ} :
    (idx.transactionNrUpdateBounds nr).2 = .ok () ↔
      (idx.mMinTransactionNr ≠ 0 → idx.mMinTransactionNr ≤ nr) := by
  unfold transactionNrUpdateBounds
  dsimp only
  split_ifs <;> simp <;> omega

/-- The bounds are updated twice, which is the same as once. -/
theorem boundedBy_boundedBy (idx : TransactionsIndex) (nr : ℕ) :
    (idx.boundedBy nr).boundedBy nr = idx.boundedBy nr := by
  have hmin : (if (if idx.mMinTransactionNr = 0 then nr else idx.mMinTransactionNr) = 0 then nr
      else if idx.mMinTransactionNr = 0 then nr else idx.mMinTransactionNr) =
      if idx.mMinTransactionNr = 0 then nr else idx.mMinTransactionNr := by
    split_ifs <;> rfl
  unfold boundedBy
  dsimp only
  rw [hmin, Nat.max_assoc, Nat.max_self]

/-- A month has a bucket, if need be after the next hundred was added. -/
def InReach (idx : TransactionsIndex) (ym : ℤ × ℕ) : Prop :=
  0 ≤ idx.bucketOf ym ∧ idx.bucketOf ym < (idx.monthCount + resizeStepSize : ℕ)

instance (idx : TransactionsIndex) (ym : ℤ × ℕ) : Decidable (idx.InReach ym) :=
  inferInstanceAs (Decidable (_ ∧ _))

/-- The bounds of the months after an insertion. -/
def datedBy (idx : TransactionsIndex) (ym : ℤ × ℕ) : TransactionsIndex :=
  { idx with
    monthCount := if idx.bucketOf ym < idx.monthCount then idx.monthCount
      else idx.monthCount + resizeStepSize
    mMinYearMonth := idx.minYearMonthFor ym
    mMaxYearMonth := if before idx.mMaxYearMonth ym then ym else idx.mMaxYearMonth }

theorem yearMonthToIndexUpdateBounds_of_inReach {idx : TransactionsIndex} {ym : ℤ × ℕ}
    (h : idx.InReach ym) : idx.yearMonthToIndexUpdateBounds ym = (idx.datedBy ym, .ok ()) := by
  obtain ⟨hnonneg, hlt⟩ := h
  unfold yearMonthToIndexUpdateBounds datedBy
  by_cases hfits : idx.bucketOf ym < idx.monthCount
  · simp [hnonneg, hfits]
  · simp only [hnonneg, hfits, and_false, decide_false, Bool.false_eq_true, if_false, hlt, and_self,
      not_true]

theorem yearMonthToIndexUpdateBounds_of_not_inReach {idx : TransactionsIndex} {ym : ℤ × ℕ}
    (h : ¬ idx.InReach ym) : idx.yearMonthToIndexUpdateBounds ym =
      ({ idx with monthCount := idx.monthCount + resizeStepSize },
        .error (.gradidoNodeInvalidData "unexpected jump in transaction index grow")) := by
  have hfits : ¬ (0 ≤ idx.bucketOf ym ∧ idx.bucketOf ym < idx.monthCount) := by
    intro hfits
    exact h ⟨hfits.1, by omega⟩
  unfold InReach at h
  unfold yearMonthToIndexUpdateBounds
  simp only [hfits, decide_false, Bool.false_eq_true, if_false, h, not_false_eq_true, if_true]

/-- Behind the update of the months, the bucket is counted from the same month. -/
theorem bucketOf_datedBy (idx : TransactionsIndex) (ym : ℤ × ℕ) :
    (idx.datedBy ym).bucketOf ym = idx.bucketOf ym := by
  have hmin : (idx.datedBy ym).minYearMonthFor ym = idx.minYearMonthFor ym := by
    unfold minYearMonthFor datedBy minYearMonthFor
    dsimp only
    split_ifs <;> rfl
  rw [bucketOf, hmin, bucketOf]

/-- The entries that an insertion makes. -/
def enter (env : Env) (idx : TransactionsIndex) (c : ConfirmedGradidoTx) (i : ℕ) :
    TransactionsIndex :=
  { idx with
    mYearMonthAddressIndexEntries := Function.update idx.mYearMonthAddressIndexEntries i
      (idx.mYearMonthAddressIndexEntries i ++ [entryOf env c])
    mBalanceChangingTxPerAccountPublicKey := addBalanceChanging (balanceEntryOf c)
      ((entryOf env c).addressIndices.zip (entryOf env c).isBalanceChanging)
      idx.mBalanceChangingTxPerAccountPublicKey }

/-- The bounds of the numbers and the address index after a call that gets as far. -/
def known (idx : TransactionsIndex) (c : ConfirmedGradidoTx) : TransactionsIndex :=
  { idx.boundedBy c.txNr with mAddressIndex := (idx.mAddressIndex.addTransaction c).1 }

theorem boundedBy_known (idx : TransactionsIndex) (c : ConfirmedGradidoTx) :
    (idx.known c).boundedBy c.txNr = idx.known c :=
  congrArg (fun i : TransactionsIndex => { i with
    mAddressIndex := (idx.mAddressIndex.addTransaction c).1 }) (boundedBy_boundedBy idx c.txNr)

/-- The protected insertion, for a transaction whose number the bounds already have. -/
theorem addIndices_known (env : Env) (idx : TransactionsIndex) (c : ConfirmedGradidoTx)
    (hmin : idx.mMinTransactionNr ≠ 0 → idx.mMinTransactionNr ≤ c.txNr) :
    let ym := yearMonthOf c.confirmedAt.getAsTimepoint
    let i := (idx.bucketOf ym).toNat
    (idx.known c).addIndices c.transactionType (coinOf c) ym c.txNr
        (entryOf env c).addressIndices (entryOf env c).isBalanceChanging =
      if ¬ idx.InReach ym then
        ({ idx.known c with monthCount := idx.monthCount + resizeStepSize },
          .error (.gradidoNodeInvalidData "unexpected jump in transaction index grow"))
      else if 4 < (involved env c).length then
        ((idx.known c).datedBy ym, .error (.gradidoNotImplemented
          "addressIndiceCount is bigger than 4, currently not supported"))
      else if (idx.mYearMonthAddressIndexEntries i).getLast?.any
          (fun e => decide (c.txNr ≤ e.transactionNr)) then
        ((idx.known c).datedBy ym, .error (.gradidoNodeInvalidData
          "try to add new transaction to block index with same or lesser transaction nr!"))
      else (enter env ((idx.known c).datedBy ym) c i, .ok ()) := by
  intro ym i
  have hbounds : ((idx.known c).transactionNrUpdateBounds c.txNr).2 = .ok () := by
    rw [transactionNrUpdateBounds_snd]
    unfold known boundedBy
    dsimp only
    split_ifs with hzero
    · exact fun _ => Nat.le_refl _
    · exact hmin
  have hbucket : ((idx.known c).datedBy ym).bucketOf ym = idx.bucketOf ym :=
    bucketOf_datedBy (idx.known c) ym
  unfold addIndices
  rw [andThen_of_ok _ hbounds, transactionNrUpdateBounds_fst, boundedBy_known]
  by_cases hreach : idx.InReach ym
  · have hmonths : (idx.known c).yearMonthToIndexUpdateBounds ym =
        ((idx.known c).datedBy ym, .ok ()) :=
      yearMonthToIndexUpdateBounds_of_inReach hreach
    rw [hmonths, if_neg (not_not.2 hreach)]
    dsimp only [andThen]
    rw [hbucket]
    simp only [entryOf, List.length_map]
    rfl
  · have hmonths : (idx.known c).yearMonthToIndexUpdateBounds ym =
        ({ idx.known c with monthCount := idx.monthCount + resizeStepSize },
          .error (.gradidoNodeInvalidData "unexpected jump in transaction index grow")) :=
      yearMonthToIndexUpdateBounds_of_not_inReach hreach
    rw [hmonths, if_pos hreach]
    rfl

/-- **What an insertion does** when it succeeds. -/
theorem addIndicesForTransaction_eq_ok {env : Env} {idx idx' : TransactionsIndex}
    {c : ConfirmedGradidoTx} (h : idx.addIndicesForTransaction env c = (idx', .ok ())) :
    (idx.mAddressIndex.addTransaction c).2 = .ok () ∧ (involved env c).length ≤ 4 ∧
      (idx.mMinTransactionNr ≠ 0 → idx.mMinTransactionNr ≤ c.txNr) ∧
      idx.InReach (yearMonthOf c.confirmedAt.getAsTimepoint) ∧
      idx' = enter env ((idx.known c).datedBy (yearMonthOf c.confirmedAt.getAsTimepoint)) c
        (idx.bucketOf (yearMonthOf c.confirmedAt.getAsTimepoint)).toNat := by
  unfold addIndicesForTransaction at h
  rw [andThen_eq_ok, transactionNrUpdateBounds_fst, transactionNrUpdateBounds_snd] at h
  obtain ⟨hmin, h⟩ := h
  cases haddresses : c.getInvolvedAddresses env with
  | error e =>
    rw [haddresses] at h
    simp at h
  | ok addresses =>
    have hinvolved : involved env c = addresses := by
      rw [involved, haddresses]
      rfl
    rw [haddresses, ← hinvolved] at h
    dsimp only at h
    rw [andThen_eq_ok] at h
    obtain ⟨haddress, h⟩ := h
    have hstep := addIndices_known env idx c hmin
    dsimp only at hstep haddress
    change (idx.known c).addIndices c.transactionType (coinOf c)
      (yearMonthOf c.confirmedAt.getAsTimepoint) c.txNr (entryOf env c).addressIndices
      (entryOf env c).isBalanceChanging = _ at h
    rw [hstep] at h
    split_ifs at h with hreach hfew hlast
    · simp at h
    · simp at h
    · rw [Prod.mk.injEq] at h
      exact ⟨haddress, by omega, hmin, hreach, h.1.symm⟩
    · simp at h

/-! ### Sequences of insertions -/

section Run

variable {env : Env} {own : ℕ} {cs : List ConfirmedGradidoTx} {c : ConfirmedGradidoTx}
  {idx idx' : TransactionsIndex}

theorem holds_empty (env : Env) (own : ℕ) : Holds env own [] (empty own) where
  community := rfl
  minPos := fun h => absurd rfl h
  minNr := by simp
  maxNr := by simp
  minMonth := rfl
  maxMonth := rfl
  buckets := fun _ => rfl
  lists := fun _ => rfl
  last := by simp
  lastNr := fun _ hk => absurd rfl hk
  few := by simp

/-- The clock knows no year zero. -/
theorem year_pos (hclock : InClock c.confirmedAt.getAsTimepoint) :
    0 < (yearMonthOf c.confirmedAt.getAsTimepoint).1 := by
  have hdate := Gradido.TransactionsIndex.calendarDate_calendarDay hclock
  exact hdate.2.2.2.2

theorem firstMonth_ne_zero (hcs : Monthly cs) (hne : cs ≠ []) : firstMonth cs ≠ (0, 0) := by
  cases cs with
  | nil => exact absurd rfl hne
  | cons a cs =>
    have hpos := year_pos (hcs.clock a (by simp))
    intro hzero
    have hyear : (yearMonthOf a.confirmedAt.getAsTimepoint).1 = 0 := congrArg Prod.fst hzero
    omega

theorem Holds.minYearMonthFor (h : Holds env own cs idx) (hcs : Monthly (cs ++ [c])) :
    idx.minYearMonthFor (yearMonthOf c.confirmedAt.getAsTimepoint) = firstMonth (cs ++ [c]) := by
  unfold TransactionsIndex.minYearMonthFor
  rw [h.minMonth]
  cases cs with
  | nil => rfl
  | cons a cs =>
    rw [if_neg (firstMonth_ne_zero hcs.of_concat (by simp))]
    rfl

theorem Holds.bucketOf (h : Holds env own cs idx) (hcs : Monthly (cs ++ [c])) :
    idx.bucketOf (yearMonthOf c.confirmedAt.getAsTimepoint) =
      monthNr c - Calendar.monthNumber (firstMonth (cs ++ [c])) := by
  unfold TransactionsIndex.bucketOf
  rw [h.minYearMonthFor hcs]
  unfold monthNr monthOf Calendar.monthNumber
  omega

theorem before_iff {a b : ℤ × ℕ} (ha : Calendar.IsMonth a) (hb : Calendar.IsMonth b) :
    before a b = true ↔ Calendar.monthNumber a < Calendar.monthNumber b := by
  rw [Calendar.monthNumber_lt_iff ha hb]
  exact decide_eq_true_iff

theorem Holds.maxYearMonth (h : Holds env own cs idx) (hcs : Monthly (cs ++ [c])) :
    (if before idx.mMaxYearMonth (yearMonthOf c.confirmedAt.getAsTimepoint) then
      yearMonthOf c.confirmedAt.getAsTimepoint else idx.mMaxYearMonth) =
        lastMonth (cs ++ [c]) := by
  have hlast : lastMonth (cs ++ [c]) = yearMonthOf c.confirmedAt.getAsTimepoint := by
    simp [lastMonth]
  have hmonth := isMonth_yearMonthOf c.confirmedAt.getAsTimepoint
  rw [hlast, h.maxMonth]
  rcases List.eq_nil_or_concat' cs with rfl | ⟨pre, a, rfl⟩
  · have hpos := year_pos (hcs.clock c (by simp))
    have hbefore : before (lastMonth []) (yearMonthOf c.confirmedAt.getAsTimepoint) = true := by
      simp [before, lastMonth, hpos]
    rw [if_pos hbefore]
  · have ha : lastMonth (pre ++ [a]) = yearMonthOf a.confirmedAt.getAsTimepoint := by
      simp [lastMonth]
    have hle : monthNr a ≤ monthNr c :=
      (List.pairwise_append.1 hcs.months).2.2 a (by simp) c (by simp)
    have hmonth' := isMonth_yearMonthOf a.confirmedAt.getAsTimepoint
    rw [ha]
    split_ifs with hbefore
    · rfl
    · refine Calendar.monthNumber_injective hmonth' hmonth ?_
      rw [before_iff hmonth' hmonth] at hbefore
      unfold monthNr monthOf at hle
      omega

/-- The smallest number with a further transaction. -/
theorem Holds.minNr_add (h : Holds env own cs idx)
    (hmin : idx.mMinTransactionNr ≠ 0 → idx.mMinTransactionNr ≤ c.txNr) :
    ∀ c' ∈ cs ++ [c], (if idx.mMinTransactionNr = 0 then c.txNr else idx.mMinTransactionNr) ≤
      c'.txNr := by
  intro c' hc'
  rcases List.mem_append.1 hc' with hc' | hc'
  · have hne : idx.mMinTransactionNr ≠ 0 := (h.minPos (List.ne_nil_of_mem hc')).ne'
    rw [if_neg hne]
    exact h.minNr c' hc'
  · rw [List.mem_singleton.1 hc']
    split_ifs with hzero
    · exact Nat.le_refl _
    · exact hmin hzero

/-- The bucket of the month gets one more entry. -/
theorem Holds.buckets_add (h : Holds env own cs idx) (hcs : Monthly (cs ++ [c]))
    (hnonneg : 0 ≤ idx.bucketOf (yearMonthOf c.confirmedAt.getAsTimepoint)) (i : ℕ) :
    Function.update idx.mYearMonthAddressIndexEntries
        (idx.bucketOf (yearMonthOf c.confirmedAt.getAsTimepoint)).toNat
        (idx.mYearMonthAddressIndexEntries
          (idx.bucketOf (yearMonthOf c.confirmedAt.getAsTimepoint)).toNat ++ [entryOf env c]) i =
      (monthBucket (cs ++ [c]) i).map (entryOf env) := by
  have hbucket := h.bucketOf hcs
  have hold : monthBucket cs i =
      bucket monthNr cs (Calendar.monthNumber (firstMonth (cs ++ [c])) + i) := by
    cases cs with
    | nil => rfl
    | cons a cs => rfl
  rw [monthBucket, bucket, List.filter_append, List.map_append]
  change _ = (bucket monthNr cs _).map (entryOf env) ++ _
  rw [← hold, ← h.buckets]
  by_cases hi : i = (idx.bucketOf (yearMonthOf c.confirmedAt.getAsTimepoint)).toNat
  · have hkey : monthNr c = Calendar.monthNumber (firstMonth (cs ++ [c])) + i := by omega
    rw [← hi, Function.update_self]
    simp [hkey]
  · have hkey : monthNr c ≠ Calendar.monthNumber (firstMonth (cs ++ [c])) + i := by omega
    rw [Function.update_of_ne hi]
    simp [hkey]

/-- A further transaction is the last change of its accounts. -/
theorem Holds.last_add (h : Holds env own cs idx) (hcs : Monthly (cs ++ [c])) {a : AddressIndex}
    (haddress : idx.mAddressIndex.addTransaction c = (a, .ok ())) {k : ℕ}
    (hk : lastChange a k ≠ 0) {c' : ConfirmedGradidoTx} (hc' : c' ∈ cs ++ [c])
    (hchanges : Changes env c' k) : c'.txNr ≤ lastChange a k := by
  obtain ⟨hold, hnew⟩ := lastChange_addTransaction haddress k
  rcases List.mem_append.1 hc' with hc' | hc'
  · rcases hold with hold | hold
    · rw [hold] at hk ⊢
      exact h.last k hk c' hc' hchanges
    · rw [hold]
      exact Nat.le_of_lt ((List.pairwise_append.1 hcs.numbered).2.2 c' hc' c (by simp))
  · obtain rfl := List.mem_singleton.1 hc'
    rcases hold with hold | hold
    · refine (hnew (by rwa [hold] at hk) ?_).ge
      obtain ⟨a, -, rfl, ha⟩ := hchanges
      obtain ⟨b, hb, hab⟩ := List.any_eq_true.1 ha
      simp only [Bool.and_eq_true, decide_eq_true_eq] at hab
      exact List.mem_map.2 ⟨b, hb, hab.1⟩
    · exact hold.ge

/-- The last change of an account is a transaction. -/
theorem Holds.lastNr_add (h : Holds env own cs idx) {a : AddressIndex}
    (haddress : idx.mAddressIndex.addTransaction c = (a, .ok ())) {k : ℕ}
    (hk : lastChange a k ≠ 0) : ∃ c' ∈ cs ++ [c], c'.txNr = lastChange a k := by
  rcases (lastChange_addTransaction haddress k).1 with hold | hold
  · rw [hold] at hk ⊢
    obtain ⟨c', hc', heq⟩ := h.lastNr k hk
    exact ⟨c', List.mem_append_left _ hc', heq⟩
  · exact ⟨c, by simp, hold.symm⟩

/-- **An insertion** keeps the invariant. -/
theorem Holds.add (h : Holds env own cs idx) (hcs : Monthly (cs ++ [c]))
    (hadd : idx.add env c = some idx') : Holds env own (cs ++ [c]) idx' := by
  rw [add_eq_some] at hadd
  obtain ⟨haddress, hfew, hmin, ⟨hnonneg, -⟩, rfl⟩ := addIndicesForTransaction_eq_ok hadd
  have hpos : 0 < c.txNr := hcs.positive c (by simp)
  have haddr : idx.mAddressIndex.addTransaction c =
      ((idx.mAddressIndex.addTransaction c).1, .ok ()) := Prod.ext rfl haddress
  refine {
    community := h.community
    minPos := fun _ => ?_
    minNr := h.minNr_add hmin
    maxNr := fun c' hc' => ?_
    minMonth := h.minYearMonthFor hcs
    maxMonth := h.maxYearMonth hcs
    buckets := h.buckets_add hcs hnonneg
    lists := fun k => ?_
    last := fun k hk c' hc' hchanges => h.last_add hcs haddr hk hc' hchanges
    lastNr := fun k hk => h.lastNr_add haddr hk
    few := fun c' hc' => ?_ }
  · change 0 < if idx.mMinTransactionNr = 0 then c.txNr else idx.mMinTransactionNr
    split_ifs <;> omega
  · change c'.txNr ≤ max idx.mMaxTransactionNr c.txNr
    rcases List.mem_append.1 hc' with hc' | hc'
    · exact Nat.le_trans (h.maxNr c' hc') (Nat.le_max_left _ _)
    · rw [List.mem_singleton.1 hc']
      exact Nat.le_max_right _ _
  · change addBalanceChanging (balanceEntryOf c)
      ((entryOf env c).addressIndices.zip (entryOf env c).isBalanceChanging)
      idx.mBalanceChangingTxPerAccountPublicKey k = _
    rw [addBalanceChanging_eq, count_balanceChanging hfew, h.lists, List.filter_append,
      List.map_append]
    by_cases hchanges : Changes env c k
    · simp [hchanges]
    · simp [hchanges]
  · rcases List.mem_append.1 hc' with hc' | hc'
    · exact h.few c' hc'
    · rw [List.mem_singleton.1 hc']
      exact hfew

/-- **A sequence of insertions** that succeed. -/
theorem holds_of_added (hcs : Monthly cs) (hrun : Steps.run (add env) (empty own) cs = some idx) :
    Holds env own cs idx := by
  induction cs using List.reverseRecOn generalizing idx with
  | nil =>
    rw [Steps.run_nil, Option.some.injEq] at hrun
    rw [← hrun]
    exact holds_empty env own
  | append_singleton cs c ih =>
    obtain ⟨idx₁, hrun₁, hadd⟩ := Steps.run_concat_eq_some.1 hrun
    exact (ih hcs.of_concat hrun₁).add hcs hadd

end Run

end TransactionsIndex

end ByMonth

end Gradido
