import GradidoBlockchain.Blockchain.Filter
import GradidoBlockchain.Lib.Bitmap
import Mathlib.Logic.Function.Basic

/-!
# The transaction index

`AddressIndex` records the type of each address and the transactions that set
it; `TransactionsIndexRoaringBitmaps` keeps, for each key, type and foreign
coin, the set of transaction numbers, and for each day the largest number
confirmed on it.  An insertion that throws keeps what it already changed, so
the insertions return the state next to the exception.
-/

namespace Gradido

open Checked

/-! ### Address types -/

/-- `AddressIndex::AddressData`. -/
structure AddressData where
  addressType : AddressType
  transactionNrs : List ℕ
  lastBalanceChangingTransactionNr : ℕ
deriving DecidableEq, Repr

/-- `AddressIndex`; its community is the one of the transaction index it belongs to. -/
structure AddressIndex where
  mIndexTransactionNrs : ℕ → Option AddressData

namespace AddressIndex

/-- `AddressIndex::addTransactionNrForIndex`. -/
def addTransactionNrForIndex (a : AddressIndex) (publicKeyIndex transactionNr : ℕ)
    (addressType : AddressType) : AddressIndex × Except Exception Unit :=
  match a.mIndexTransactionNrs publicKeyIndex with
  | none =>
    (⟨Function.update a.mIndexTransactionNrs publicKeyIndex
      (some ⟨addressType, [transactionNr], 0⟩)⟩, .ok ())
  | some data =>
    if addressType ≠ data.addressType then
      (a, .error (.gradidoNodeInvalidData
        "AddressIndex: address type changed, currently not expected!"))
    else if transactionNr ∈ data.transactionNrs then (a, .ok ())
    else
      (⟨Function.update a.mIndexTransactionNrs publicKeyIndex
        (some { data with transactionNrs := data.transactionNrs ++ [transactionNr] })⟩, .ok ())

/-- `AddressIndex::updateLastBalanceChangingTransactionNr`. -/
def updateLastBalanceChangingTransactionNr (a : AddressIndex) (publicKeyIndex transactionNr : ℕ) :
    AddressIndex :=
  match a.mIndexTransactionNrs publicKeyIndex with
  | none => a
  | some data =>
    ⟨Function.update a.mIndexTransactionNrs publicKeyIndex
      (some { data with lastBalanceChangingTransactionNr := transactionNr })⟩

/-- `AddressIndex::addTransaction(compactTx)`. -/
def addTransaction (a : AddressIndex) (tx : ConfirmedGradidoTx) :
    AddressIndex × Except Exception Unit :=
  andThen
    (match tx.specific with
      | .communityRoot _ gmw auf =>
        andThen (a.addTransactionNrForIndex auf tx.txNr .communityAuf)
          (fun a => a.addTransactionNrForIndex gmw tx.txNr .communityGmw)
      | .registerAddress addressType user account =>
        andThen (a.addTransactionNrForIndex user tx.txNr addressType)
          (fun a => a.addTransactionNrForIndex account tx.txNr addressType)
      | .deferredTransfer _ _ recipient _ =>
        a.addTransactionNrForIndex recipient tx.txNr .deferredTransfer
      | _ => (a, .ok ()))
    (fun a => (tx.accountBalances.foldl
      (fun a b => a.updateLastBalanceChangingTransactionNr b.publicKeyIndex tx.txNr) a, .ok ()))

end AddressIndex

/-! ### The index -/

/-- `TransactionsIndexRoaringBitmaps::PublicKeyBitmaps`. -/
structure PublicKeyBitmaps where
  balanceChangingTx : Bitmap
  signedTx : Bitmap
  otherInvolvedTx : Bitmap

namespace PublicKeyBitmaps

/-- The bitmaps of a key that was not seen before. -/
def empty : PublicKeyBitmaps := ⟨.empty, .empty, .empty⟩

end PublicKeyBitmaps

/-- `TransactionsIndexRoaringBitmaps`.  The rows of 31 days of `mDayMonthYearTxRanges`, of which
there are `monthCount`, are laid out one after the other. -/
structure TransactionsIndex where
  mMinTransactionNr : ℕ
  mMaxTransactionNr : ℕ
  mMinDate : YearMonthDay
  mMaxDate : YearMonthDay
  mCommunityIdIndex : ℕ
  mAddressIndex : AddressIndex
  monthCount : ℕ
  mDayMonthYearTxRanges : ℕ → ℕ
  mInvolvedPublicKeys : PublicKeyIndex → Option PublicKeyBitmaps
  mTxPerType : TransactionType → Bitmap
  mOtherCoinCommunityTx : ℕ → Option Bitmap

namespace TransactionsIndex

/-- `MAGIC_NUMBER_TRANSACTION_INDEX_ENTRIES_RESIZE_STEP_SIZE`. -/
def resizeStepSize : ℕ := 100

/-- The date that was never set. -/
def zeroDate : YearMonthDay := ⟨0, 0, 0⟩

/-- The index of a new blockchain. -/
def empty (communityIdIndex : ℕ) : TransactionsIndex where
  mMinTransactionNr := 0
  mMaxTransactionNr := 0
  mMinDate := zeroDate
  mMaxDate := zeroDate
  mCommunityIdIndex := communityIdIndex
  mAddressIndex := ⟨fun _ => none⟩
  monthCount := resizeStepSize
  mDayMonthYearTxRanges := fun _ => 0
  mInvolvedPublicKeys := fun _ => none
  mTxPerType := fun _ => .empty
  mOtherCoinCommunityTx := fun _ => none

/-- `TransactionsIndexRoaringBitmaps::reset`: the address index is not reset. -/
def reset (idx : TransactionsIndex) : TransactionsIndex :=
  { idx with
    mMinTransactionNr := 0
    mMaxTransactionNr := 0
    mMinDate := zeroDate
    mMaxDate := zeroDate
    monthCount := 100
    mDayMonthYearTxRanges := fun _ => 0
    mInvolvedPublicKeys := fun _ => none
    mTxPerType := fun _ => .empty
    mOtherCoinCommunityTx := fun _ => none }

/-- The number of months between two dates, as the index counts them. -/
def monthDistance (fromDate toDate : YearMonthDay) : ℤ :=
  (toDate.year - fromDate.year) * 12 + ((toDate.month : ℤ) - fromDate.month)

/-- The month that `yearMonthToIndexUpdateBounds` counts from. -/
def minDateFor (idx : TransactionsIndex) (date : YearMonthDay) : YearMonthDay :=
  if idx.mMinDate = zeroDate then date else idx.mMinDate

/-- `yearMonthToIndexUpdateBounds` and the update of the day's cell in
`updateYearMonthDayTxRange`.  A negative distance is converted to a huge unsigned number, which is
out of bounds like a month beyond the next hundred. -/
def updateYearMonthDayTxRange (idx : TransactionsIndex) (date : YearMonthDay) (txNr : ℕ) :
    TransactionsIndex × Except Exception Unit :=
  let idx1 := { idx with
    mMinTransactionNr := if idx.mMinTransactionNr = 0 then txNr else idx.mMinTransactionNr }
  if txNr < idx1.mMinTransactionNr then
    (idx1, .error (.gradidoNodeInvalidData
      "call updateYearMonthDayTxRange with txNr < mMinTransactionNr"))
  else
    let idx2 := { idx1 with mMaxTransactionNr := max idx.mMaxTransactionNr txNr }
    let distance := monthDistance (idx.minDateFor date) date
    let fits := decide (0 ≤ distance ∧ distance < idx.monthCount)
    let monthCount := if fits then idx.monthCount else idx.monthCount + resizeStepSize
    if ¬ (0 ≤ distance ∧ distance < monthCount) then
      ({ idx2 with monthCount := monthCount },
        .error (.gradidoNodeInvalidData "unexpected jump in transaction index grow"))
    else if date.day = 0 then
      ({ idx2 with monthCount := monthCount, mMinDate := idx.minDateFor date },
        .error (.outOfRange "day of month"))
    else
      let cell := distance.toNat * 31 + (date.day - 1)
      ({ idx2 with
        monthCount := monthCount
        mMinDate := idx.minDateFor date
        mMaxDate := if idx.mMaxDate < date then date else idx.mMaxDate
        mDayMonthYearTxRanges := Function.update idx.mDayMonthYearTxRanges cell
          (max (idx.mDayMonthYearTxRanges cell) txNr) }, .ok ())

/-- One round of the loop over the involved addresses in `addTransactionIndices`. -/
def addInvolvedAddress (env : Env) (tx : ConfirmedGradidoTx) (idx : TransactionsIndex)
    (k : PublicKeyIndex) : TransactionsIndex :=
  let bitmaps := (idx.mInvolvedPublicKeys k).getD .empty
  { idx with
    mInvolvedPublicKeys := Function.update idx.mInvolvedPublicKeys k (some
      { balanceChangingTx :=
          if tx.isBalanceUpdated k then bitmaps.balanceChangingTx.add tx.txNr
          else bitmaps.balanceChangingTx
        signedTx :=
          if tx.isSignaturePublicKey env k then bitmaps.signedTx.add tx.txNr
          else bitmaps.signedTx
        otherInvolvedTx :=
          if tx.isOtherInvolved k then bitmaps.otherInvolvedTx.add tx.txNr
          else bitmaps.otherInvolvedTx }) }

/-- One round of the loop over the balances in `addTransactionIndices`: only coins of other
communities are recorded. -/
def addCoinCommunity (tx : ConfirmedGradidoTx) (idx : TransactionsIndex)
    (b : CompactAccountBalance) : TransactionsIndex :=
  if b.coinCommunityIdIndex = tx.txCommunityIdIndex then idx
  else
    { idx with
      mOtherCoinCommunityTx := Function.update idx.mOtherCoinCommunityTx b.coinCommunityIdIndex
        (some (((idx.mOtherCoinCommunityTx b.coinCommunityIdIndex).getD .empty).add tx.txNr)) }

/-- The bitmaps of a transaction: involved keys, type and coins. -/
def addBitmaps (env : Env) (tx : ConfirmedGradidoTx) (addresses : List PublicKeyIndex)
    (idx : TransactionsIndex) : TransactionsIndex :=
  let idx1 := addresses.foldl (addInvolvedAddress env tx) idx
  let idx2 := { idx1 with
    mTxPerType := Function.update idx1.mTxPerType tx.transactionType
      ((idx1.mTxPerType tx.transactionType).add tx.txNr) }
  tx.accountBalances.foldl (addCoinCommunity tx) idx2

/-- `TransactionsIndexRoaringBitmaps::addTransactionIndices`. -/
def addTransactionIndices (env : Env) (idx : TransactionsIndex) (tx : ConfirmedGradidoTx) :
    TransactionsIndex × Except Exception Unit :=
  andThen
    (idx.updateYearMonthDayTxRange (timepointAsYearMonthDay tx.confirmedAt.getAsTimepoint) tx.txNr)
    (fun idx =>
      match tx.getInvolvedAddresses env with
      | .error e => (idx, .error e)
      | .ok addresses =>
        let idx1 := idx.addBitmaps env tx addresses
        let r := idx1.mAddressIndex.addTransaction tx
        ({ idx1 with mAddressIndex := r.1 }, r.2))

/-! ### Searching by date and number -/

/-- `yearMonthToIndex`. -/
def yearMonthToIndex (idx : TransactionsIndex) (ymd : YearMonthDay) : ℕ :=
  if idx.mMinDate = zeroDate then 0
  else if ymd < idx.mMinDate then 0
  else if idx.mMaxDate < ymd then (monthDistance idx.mMinDate idx.mMaxDate).toNat
  else (monthDistance idx.mMinDate ymd).toNat

/-- The first loop of `getTxRangeOfInterval`: the number in the last cell that is not empty, from
the given cell down; zero when the stop cell or the first cell is reached before. -/
def scanEnd (cells : ℕ → ℕ) (stopCell : Option ℕ) : ℕ → ℕ
  | 0 => cells 0
  | c + 1 =>
    if cells (c + 1) ≠ 0 then cells (c + 1)
    else if stopCell = some (c + 1) then 0
    else scanEnd cells stopCell c

/-- The second loop of `getTxRangeOfInterval`: the number in the last cell that is not empty
before the given one. -/
def scanStart (cells : ℕ → ℕ) : ℕ → ℕ
  | 0 => cells 0
  | c + 1 => if cells c ≠ 0 then cells c else scanStart cells c

/-- `getTxRangeOfInterval`; an end of zero stands for the pair `{0, 0}`.  The day of a start date
that was never set is an unsigned `-1`, which no cell has. -/
def getTxRangeOfInterval (idx : TransactionsIndex) (startDate endDate : YearMonthDay) : ℕ × ℕ :=
  let endDay := if idx.mMaxDate < endDate then 30 else endDate.day - 1
  let endCell := idx.yearMonthToIndex endDate * 31 + endDay
  let startCell := idx.yearMonthToIndex startDate * 31 + (startDate.day - 1)
  let stopCell := if startDate.day = 0 then none else some startCell
  let endTx := scanEnd idx.mDayMonthYearTxRanges stopCell endCell
  if endTx = 0 then (0, 0)
  else if idx.mMinDate < startDate then
    (scanStart idx.mDayMonthYearTxRanges startCell + 1, endTx)
  else (idx.mMinTransactionNr, endTx)

/-- `calculateTxRange`. -/
def calculateTxRange (idx : TransactionsIndex) (f : CompactFilter) : Option (ℕ × ℕ) :=
  if (f.minTransactionNr ≠ 0 ∧ idx.mMaxTransactionNr < f.minTransactionNr) ∨
      (f.maxTransactionNr ≠ 0 ∧ f.maxTransactionNr < idx.mMinTransactionNr) then none
  else
    let startDate := if f.timepointInterval.isEmpty then idx.mMinDate
      else timepointAsYearMonthDay f.timepointInterval.startDate
    let endDate := if f.timepointInterval.isEmpty then idx.mMaxDate
      else timepointAsYearMonthDay f.timepointInterval.endDate
    if idx.mMaxDate < startDate ∨ endDate < idx.mMinDate then none
    else
      let part := startDate ≠ idx.mMinDate ∨ endDate ≠ idx.mMaxDate
      let range := if part then idx.getTxRangeOfInterval startDate endDate
        else (idx.mMinTransactionNr, idx.mMaxTransactionNr)
      if part ∧ range = (0, 0) then none
      else
        some (if f.minTransactionNr ≠ 0 ∧ range.1 < f.minTransactionNr then f.minTransactionNr
            else range.1,
          if f.maxTransactionNr ≠ 0 ∧ f.maxTransactionNr < range.2 then f.maxTransactionNr
            else range.2)

/-! ### Searching by set operations -/

/-- The bitmap of the coin community filter: none to add for the own coin or without a filter,
and no result at all for a foreign coin that was never seen. -/
def coinMaps (idx : TransactionsIndex) (f : CompactFilter) : Option (List Bitmap) :=
  if f.coinCommunityIdIndex = 0 ∨ f.coinCommunityIdIndex = idx.mCommunityIdIndex then some []
  else (idx.mOtherCoinCommunityTx f.coinCommunityIdIndex).map (fun b => [b])

/-- The bitmap that is subtracted for the own coin, were it recorded. -/
def coinRevertMap (idx : TransactionsIndex) (f : CompactFilter) : Option Bitmap :=
  if f.coinCommunityIdIndex ≠ 0 ∧ f.coinCommunityIdIndex = idx.mCommunityIdIndex then
    idx.mOtherCoinCommunityTx f.coinCommunityIdIndex
  else none

/-- The bitmap of the public key filter.  A key that is missing is not searched for. -/
def publicKeyMaps (idx : TransactionsIndex) (f : CompactFilter) : Option (List Bitmap) :=
  match f.publicKeySearchType with
  | .none | .missingCommunityId | .missingIndex => some []
  | .balanceChangingPublicKey =>
    if f.publicKeyIndex.communityIdIndex ≠ idx.mCommunityIdIndex then none
    else (idx.mInvolvedPublicKeys f.publicKeyIndex).map (fun b => [b.balanceChangingTx])
  | .involvedPublicKey =>
    match idx.mInvolvedPublicKeys f.publicKeyIndex with
    | none => none
    | some b =>
      let involved := (b.otherInvolvedTx.union b.signedTx).union b.balanceChangingTx
      if involved.isEmpty then none else some [involved]

/-- The bitmap of the transaction type filter. -/
def typeMaps (idx : TransactionsIndex) (f : CompactFilter) : Option (List Bitmap) :=
  if f.transactionType = .none then some []
  else if (idx.mTxPerType f.transactionType).isEmpty then none
  else some [idx.mTxPerType f.transactionType]

/-- The intersection of a list of bitmaps that is not empty. -/
def intersect : List Bitmap → Bitmap
  | [] => .empty
  | b :: bs => bs.foldl .inter b

/-- `aggregateTransactions`. -/
def aggregateTransactions (idx : TransactionsIndex) (f : CompactFilter) : Option Bitmap := do
  let range ← idx.calculateTxRange f
  let coin ← idx.coinMaps f
  let publicKey ← idx.publicKeyMaps f
  let type ← idx.typeMaps f
  let maps := coin ++ publicKey ++ type
  let maps :=
    if range.1 ≠ idx.mMinTransactionNr ∨ range.2 ≠ idx.mMaxTransactionNr ∨ maps = [] then
      maps ++ [.rangeClosed range.1 range.2]
    else maps
  let found := intersect maps
  match idx.coinRevertMap f with
  | some revert =>
    let result := found.diff revert
    if 1 < maps.length ∧ result.isEmpty then none else some result
  | none => if found.isEmpty then none else some found

/-- The page that `findTransactions` cuts out of a result that is not empty. -/
def page (f : CompactFilter) (resultSet : Bitmap) : List ℕ :=
  let size := f.pagination.size
  let skip := f.pagination.skipEntriesCount
  let n := resultSet.cardinality
  match f.searchDirection with
  | .desc =>
    let pageEndTx := (resultSet.select (n - skip - 1)).getD 0
    if size = 1 ∨ n = 1 then [pageEndTx]
    else
      let pageStartTx :=
        if n ≤ skip + size then resultSet.minimum else (resultSet.select (n - skip - size)).getD 0
      if size = 2 ∨ n = 2 then [pageEndTx, pageStartTx]
      else (resultSet.inter (.rangeClosed pageStartTx pageEndTx)).toList.reverse
  | .asc =>
    let pageStartTx := (resultSet.select skip).getD 0
    if size = 1 ∨ n = 1 then [pageStartTx]
    else
      let pageEndTx := (resultSet.select (skip + size - 1)).getD resultSet.maximum
      if size = 2 ∨ n = 2 then [pageStartTx, pageEndTx]
      else (resultSet.inter (.rangeClosed pageStartTx pageEndTx)).toList

/-- `TransactionsIndexRoaringBitmaps::findTransactions`. -/
def findTransactions (idx : TransactionsIndex) (f : CompactFilter) : List ℕ :=
  if idx.mMinTransactionNr = 0 ∧ idx.mMaxTransactionNr = 0 then []
  else
    match idx.aggregateTransactions f with
    | none => []
    | some resultSet =>
      if resultSet.cardinality = 0 ∨ resultSet.cardinality ≤ f.pagination.skipEntriesCount then []
      else if f.pagination.size ≠ 0 then page f resultSet
      else
        match f.searchDirection with
        | .desc => resultSet.toList.reverse
        | .asc => resultSet.toList

/-- `TransactionsIndexRoaringBitmaps::countTransactions`. -/
def countTransactions (idx : TransactionsIndex) (f : CompactFilter) : ℕ :=
  if idx.mMinTransactionNr = 0 ∧ idx.mMaxTransactionNr = 0 then 0
  else
    match idx.aggregateTransactions f with
    | none => 0
    | some resultSet => resultSet.cardinality

/-! ### Address types -/

/-- `TransactionsIndexRoaringBitmaps::getAddressType`: the type and the last transaction that set
it, zero when there is none. -/
def getAddressType (idx : TransactionsIndex) (publicKeyIndex : ℕ) : ℕ × AddressType :=
  match idx.mAddressIndex.mIndexTransactionNrs publicKeyIndex with
  | none => (0, .none)
  | some data =>
    if data.addressType = .none then (0, .none)
    else (data.transactionNrs.foldl max 0, data.addressType)

end TransactionsIndex

end Gradido
