import GradidoBlockchain.Blockchain.TransactionsIndex
import GradidoBlockchain.Data.YearMonth

/-!
# The transaction index by months

`blockchain::TransactionsIndex`, the index that the one of bitmaps replaces:
an entry for each transaction in the bucket of its month, and for each key the
list of the transactions that changed its balance.  It stands in its own
namespace, as the index of bitmaps has its name here.  Like there, an insertion
that throws keeps what it already changed.
-/

namespace Gradido

open Checked

namespace TimepointInterval

/-- `TimepointInterval::isOverlap`. -/
def isOverlap (i other : TimepointInterval) : Bool :=
  !(i.isEmpty || other.isEmpty) &&
    !(decide (i.endDate < other.startDate) || decide (other.endDate < i.startDate))

/-- The constructor `TimepointInterval(startDate, endDate)` for two months. -/
def ofYearMonths (startDate endDate : ℤ × ℕ) : Except Exception TimepointInterval :=
  make (monthYearToTimepoint startDate) (monthYearToTimepoint endDate)

/-- `n` steps of a `MonthYearIterator`. -/
def iterateMonths : ℤ × ℕ → ℕ → List (ℤ × ℕ)
  | _, 0 => []
  | ym, n + 1 => ym :: iterateMonths (Calendar.yearMonth (Calendar.monthNumber ym + 1)) n

/-- The months from `begin()` up to `end()`, the month after the one of the end date. -/
def months (i : TimepointInterval) : List (ℤ × ℕ) :=
  iterateMonths (yearMonthOf i.startDate) (monthOf i.endDate + 1 - monthOf i.startDate).toNat

end TimepointInterval

namespace ByMonth

/-- `TransactionsIndex::TransactionsIndexEntry`; `isBalanceChanging` holds the bits of the mask,
one for each address. -/
structure TransactionsIndexEntry where
  transactionType : TransactionType
  isBalanceChanging : List Bool
  coinCommunityIdIndex : ℕ
  transactionNr : ℕ
  addressIndices : List ℕ
deriving DecidableEq, Repr

/-- `TransactionsIndex::BalanceTransactionIndexEntry`; the month is `confirmedYear` and
`confirmedMonth`. -/
structure BalanceTransactionIndexEntry where
  transactionType : TransactionType
  confirmed : ℤ × ℕ
  coinCommunityIdIndex : ℕ
  transactionNr : ℕ
deriving DecidableEq, Repr

/-- `TransactionsIndex`.  Of the buckets in `mYearMonthAddressIndexEntries` there are
`monthCount`; a key that is not in `mBalanceChangingTxPerAccountPublicKey` has no entries. -/
structure TransactionsIndex where
  mMaxTransactionNr : ℕ
  mMinTransactionNr : ℕ
  mMinYearMonth : ℤ × ℕ
  mMaxYearMonth : ℤ × ℕ
  mCommunityIdIndex : ℕ
  mAddressIndex : AddressIndex
  monthCount : ℕ
  mYearMonthAddressIndexEntries : ℕ → List TransactionsIndexEntry
  mBalanceChangingTxPerAccountPublicKey : ℕ → List BalanceTransactionIndexEntry

/-- A range in the order of a search. -/
def inDirection {α : Type} (f : CompactFilter) (range : List α) : List α :=
  match f.searchDirection with
  | .asc => range
  | .desc => range.reverse

/-- A month is before another one. -/
def before (a b : ℤ × ℕ) : Bool := decide (a.1 < b.1 ∨ a.1 = b.1 ∧ a.2 < b.2)

/-! ### Matching -/

/-- `TransactionsIndexEntry::isMatchingFilter`. -/
def TransactionsIndexEntry.isMatchingFilter (e : TransactionsIndexEntry) (f : CompactFilter) :
    FilterResult :=
  if f.transactionType ≠ .none ∧ f.transactionType ≠ e.transactionType then .DISMISS
  else if f.coinCommunityIdIndex ≠ 0 ∧ e.coinCommunityIdIndex ≠ f.coinCommunityIdIndex then
    .DISMISS
  else if f.minTransactionNr ≠ 0 ∧ f.minTransactionNr > e.transactionNr then
    if f.searchDirection = .desc then .STOP else .DISMISS
  else if f.maxTransactionNr ≠ 0 ∧ f.maxTransactionNr < e.transactionNr then
    if f.searchDirection = .asc then .STOP else .DISMISS
  else if f.publicKeySearchType = .balanceChangingPublicKey then
    if (f.publicKeyIndex.publicKeyIndex, true) ∈ e.addressIndices.zip e.isBalanceChanging then .USE
    else .DISMISS
  else if f.publicKeySearchType = .involvedPublicKey then
    if f.publicKeyIndex.publicKeyIndex ∈ e.addressIndices then .USE else .DISMISS
  else .USE

/-- `BalanceTransactionIndexEntry::isMatchingFilter`. -/
def BalanceTransactionIndexEntry.isMatchingFilter (e : BalanceTransactionIndexEntry)
    (f : CompactFilter) (startYM endYM : ℤ × ℕ) : FilterResult :=
  let bounded := startYM.1 ≠ 0 ∧ startYM.2 ≠ 0 ∧ endYM.1 ≠ 0 ∧ endYM.2 ≠ 0
  if f.transactionType ≠ .none ∧ f.transactionType ≠ e.transactionType then .DISMISS
  else if bounded ∧ before e.confirmed startYM = true then
    if f.searchDirection = .desc then .STOP else .DISMISS
  else if bounded ∧ before endYM e.confirmed = true then
    if f.searchDirection = .asc then .STOP else .DISMISS
  else if f.coinCommunityIdIndex ≠ 0 ∧ e.coinCommunityIdIndex ≠ f.coinCommunityIdIndex then
    .DISMISS
  else if f.maxTransactionNr ≠ 0 ∧ f.maxTransactionNr < e.transactionNr then
    if f.searchDirection = .asc then .STOP else .DISMISS
  else if f.minTransactionNr ≠ 0 ∧ f.minTransactionNr > e.transactionNr then
    if f.searchDirection = .desc then .STOP else .DISMISS
  else .USE

namespace TransactionsIndex

/-- `MAGIC_NUMBER_TRANSACTION_INDEX_ENTRIES_RESIZE_STEP_SIZE`. -/
def resizeStepSize : ℕ := 100

/-- The constructor `TransactionsIndex(communityIdIndex)`. -/
def empty (communityIdIndex : ℕ) : TransactionsIndex where
  mMaxTransactionNr := 0
  mMinTransactionNr := 0
  mMinYearMonth := (0, 0)
  mMaxYearMonth := (0, 0)
  mCommunityIdIndex := communityIdIndex
  mAddressIndex := ⟨fun _ => none⟩
  monthCount := resizeStepSize
  mYearMonthAddressIndexEntries := fun _ => []
  mBalanceChangingTxPerAccountPublicKey := fun _ => []

/-! ### Insertion -/

/-- `transactionNrUpdateBounds`. -/
def transactionNrUpdateBounds (idx : TransactionsIndex) (transactionNr : ℕ) :
    TransactionsIndex × Except Exception Unit :=
  let idx1 := { idx with
    mMaxTransactionNr := if transactionNr > idx.mMaxTransactionNr then transactionNr
      else idx.mMaxTransactionNr
    mMinTransactionNr := if idx.mMinTransactionNr = 0 then transactionNr
      else idx.mMinTransactionNr }
  if transactionNr < idx1.mMinTransactionNr then
    (idx1, .error (.gradidoNodeInvalidData
      "tried to push a transaction with lower nr as mMinTransactionNr"))
  else (idx1, .ok ())

/-- The month that `yearMonthToIndexUpdateBounds` counts from. -/
def minYearMonthFor (idx : TransactionsIndex) (ym : ℤ × ℕ) : ℤ × ℕ :=
  if idx.mMinYearMonth = (0, 0) then ym else idx.mMinYearMonth

/-- The distance of a month from the first one. -/
def bucketOf (idx : TransactionsIndex) (ym : ℤ × ℕ) : ℤ :=
  (ym.1 - (idx.minYearMonthFor ym).1) * 12 + ((ym.2 : ℤ) - (idx.minYearMonthFor ym).2)

/-- `yearMonthToIndexUpdateBounds`.  A negative distance is converted to a huge unsigned number,
which is out of bounds like a month beyond the next hundred; then the first month is restored, but
not the number of buckets. -/
def yearMonthToIndexUpdateBounds (idx : TransactionsIndex) (ym : ℤ × ℕ) :
    TransactionsIndex × Except Exception Unit :=
  let fits := decide (0 ≤ idx.bucketOf ym ∧ idx.bucketOf ym < idx.monthCount)
  let monthCount := if fits then idx.monthCount else idx.monthCount + resizeStepSize
  if ¬ (0 ≤ idx.bucketOf ym ∧ idx.bucketOf ym < monthCount) then
    ({ idx with monthCount := monthCount },
      .error (.gradidoNodeInvalidData "unexpected jump in transaction index grow"))
  else
    ({ idx with
      monthCount := monthCount
      mMinYearMonth := idx.minYearMonthFor ym
      mMaxYearMonth := if before idx.mMaxYearMonth ym then ym else idx.mMaxYearMonth }, .ok ())

/-- The loop over the addresses at the end of `addIndicesForTransaction`. -/
def addBalanceChanging (entry : BalanceTransactionIndexEntry) :
    List (ℕ × Bool) → (ℕ → List BalanceTransactionIndexEntry) →
      ℕ → List BalanceTransactionIndexEntry
  | [], m => m
  | (address, isBalanceChanging) :: addresses, m =>
    addBalanceChanging entry addresses
      (if isBalanceChanging then Function.update m address (m address ++ [entry]) else m)

/-- `addIndicesForTransaction(transactionType, …, isBalanceChanging)`. -/
def addIndices (idx : TransactionsIndex) (transactionType : TransactionType)
    (coinCommunityIdIndex : ℕ) (ym : ℤ × ℕ) (transactionNr : ℕ) (addressIndices : List ℕ)
    (isBalanceChanging : List Bool) : TransactionsIndex × Except Exception Unit :=
  andThen (idx.transactionNrUpdateBounds transactionNr) (fun idx =>
    andThen (idx.yearMonthToIndexUpdateBounds ym) (fun idx =>
      let yearMonthIndex := (idx.bucketOf ym).toNat
      let entries := idx.mYearMonthAddressIndexEntries yearMonthIndex
      if 4 < addressIndices.length then
        (idx, .error (.gradidoNotImplemented
          "addressIndiceCount is bigger than 4, currently not supported"))
      else if entries.getLast?.any (fun e => decide (transactionNr ≤ e.transactionNr)) then
        (idx, .error (.gradidoNodeInvalidData
          "try to add new transaction to block index with same or lesser transaction nr!"))
      else
        ({ idx with
          mYearMonthAddressIndexEntries := Function.update idx.mYearMonthAddressIndexEntries
            yearMonthIndex (entries ++ [⟨transactionType, isBalanceChanging, coinCommunityIdIndex,
              transactionNr, addressIndices⟩])
          mBalanceChangingTxPerAccountPublicKey :=
            addBalanceChanging ⟨transactionType, ym, coinCommunityIdIndex, transactionNr⟩
              (addressIndices.zip isBalanceChanging)
              idx.mBalanceChangingTxPerAccountPublicKey }, .ok ())))

/-- The mask that `addIndicesForTransaction` computes; it has no bit for the eighth address. -/
def balanceChangingBits (tx : ConfirmedGradidoTx) (addresses : List PublicKeyIndex) : List Bool :=
  addresses.mapIdx (fun i k => decide (i + 1 < 8) && tx.isBalanceUpdated k)

/-- `TransactionsIndex::addIndicesForTransaction`. -/
def addIndicesForTransaction (env : Env) (idx : TransactionsIndex) (tx : ConfirmedGradidoTx) :
    TransactionsIndex × Except Exception Unit :=
  andThen (idx.transactionNrUpdateBounds tx.txNr) (fun idx =>
    match tx.getInvolvedAddresses env with
    | .error e => (idx, .error e)
    | .ok addresses =>
      let r := idx.mAddressIndex.addTransaction tx
      andThen ({ idx with mAddressIndex := r.1 }, r.2) (fun idx =>
        idx.addIndices tx.transactionType
          (if tx.coinCommunityIdIndex ≠ 0 then tx.coinCommunityIdIndex else tx.txCommunityIdIndex)
          (yearMonthOf tx.confirmedAt.getAsTimepoint) tx.txNr
          (addresses.map PublicKeyIndex.publicKeyIndex) (balanceChangingBits tx addresses)))

/-! ### Search -/

/-- `AddressIndex::lastBalanceChanged`. -/
def lastBalanceChanged (idx : TransactionsIndex) (k : PublicKeyIndex) : Except Exception ℕ := do
  throwIf (decide (k.communityIdIndex ≠ idx.mCommunityIdIndex)) (.gradidoNodeInvalidData
    "dont't call AddressIndex::lastBalanceChanged with foreign publicKey")
  return ((idx.mAddressIndex.mIndexTransactionNrs k.publicKeyIndex).map
    AddressData.lastBalanceChangingTransactionNr).getD 0

/-- `yearMonthToIndex`. -/
def yearMonthToIndex (idx : TransactionsIndex) (ym : ℤ × ℕ) : Except Exception ℕ := do
  if idx.mMinYearMonth = (0, 0) then return 0
  throwIf (before ym idx.mMinYearMonth) (.outOfRange
    "TransactionsIndex::yearMonthToIndex called with out of bounds parameters (to low)")
  throwIf (before idx.mMaxYearMonth ym) (.outOfRange
    "TransactionsIndex::yearMonthToIndex called with out of bounds parameters (too high)")
  return ((ym.1 - idx.mMinYearMonth.1) * 12 + ((ym.2 : ℤ) - idx.mMinYearMonth.2)).toNat

/-- `TimepointInterval(getOldestYearMonth(), getNewestYearMonth())`. -/
def interval (idx : TransactionsIndex) : Except Exception TimepointInterval :=
  TimepointInterval.ofYearMonths idx.mMinYearMonth idx.mMaxYearMonth

/-- `filteredTimepointInterval`. -/
def filteredTimepointInterval (idx : TransactionsIndex) (f : CompactFilter) :
    Except Exception TimepointInterval := do
  let interval ← idx.interval
  if f.timepointInterval.isEmpty || !f.timepointInterval.isOverlap interval then return interval
  TimepointInterval.make (max interval.startDate f.timepointInterval.startDate)
    (min interval.endDate f.timepointInterval.endDate)

/-- The prefilter of `findTransactions` and `countTransactions`: the bounds are outside of the
numbers of the index. -/
def outOfBounds (idx : TransactionsIndex) (f : CompactFilter) : Bool :=
  decide (f.minTransactionNr ≠ 0 ∧ f.minTransactionNr > idx.mMaxTransactionNr) ||
    decide (f.maxTransactionNr ≠ 0 ∧ f.maxTransactionNr < idx.mMinTransactionNr)

/-- The last number of a month is below the lower bound. -/
def endsBelow (f : CompactFilter) (entries : List TransactionsIndexEntry) : Bool :=
  entries.getLast?.any (fun e => decide (f.minTransactionNr ≠ 0 ∧
    e.transactionNr < f.minTransactionNr))

/-- The first number of a month is below the lower bound. -/
def startsBelow (f : CompactFilter) (entries : List TransactionsIndexEntry) : Bool :=
  entries.head?.any (fun e => decide (f.minTransactionNr ≠ 0 ∧
    e.transactionNr < f.minTransactionNr))

/-- The first number of a month is above the upper bound. -/
def startsAbove (f : CompactFilter) (entries : List TransactionsIndexEntry) : Bool :=
  entries.head?.any (fun e => decide (f.maxTransactionNr ≠ 0 ∧
    e.transactionNr > f.maxTransactionNr))

/-- The loop of `findTransactions` over the entries of a month; the flag says that the search
returned. -/
def scanEntries (f : CompactFilter) : List TransactionsIndexEntry → List ℕ × ℕ →
    (List ℕ × ℕ) × Bool
  | [], r => (r, false)
  | e :: entries, (result, paginationCursor) =>
    if !f.pagination.hasCapacityLeft result.length then ((result, paginationCursor), true)
    else
      let filterResult := e.isMatchingFilter f
      let r := if filterResult.use then
          (if f.pagination.skipEntriesCount ≤ paginationCursor then result ++ [e.transactionNr]
            else result, paginationCursor + 1)
        else (result, paginationCursor)
      if filterResult.stop then (r, true) else scanEntries f entries r

/-- The loop of `findTransactions` over the months, with the tests of the search direction. -/
def scanMonths (idx : TransactionsIndex) (f : CompactFilter) : List (ℤ × ℕ) → List ℕ × ℕ →
    Except Exception (List ℕ)
  | [], r => .ok r.1
  | ym :: yms, r => do
    let yearMonthIndex ← idx.yearMonthToIndex ym
    let entries := idx.mYearMonthAddressIndexEntries yearMonthIndex
    match f.searchDirection with
    | .asc =>
      if entries = [] then scanMonths idx f yms r
      else if endsBelow f entries then scanMonths idx f yms r
      else if startsAbove f entries then .ok r.1
      else
        let (r, returned) := scanEntries f entries r
        if returned then .ok r.1 else scanMonths idx f yms r
    | .desc =>
      if entries = [] then scanMonths idx f yms r
      else if startsAbove f entries then scanMonths idx f yms r
      else if startsBelow f entries then .ok r.1
      else
        let (r, returned) := scanEntries f entries.reverse r
        if returned then .ok r.1 else scanMonths idx f yms r

/-- The part of `findTransactions` behind the search for the last balance. -/
def findInMonths (idx : TransactionsIndex) (f : CompactFilter) : Except Exception (List ℕ) := do
  if idx.outOfBounds f then return []
  if !f.timepointInterval.isEmpty then
    let interval ← idx.interval
    if !f.timepointInterval.isOverlap interval then return []
  let interval ← idx.filteredTimepointInterval f
  idx.scanMonths f (inDirection f interval.months) ([], 0)

/-- `TransactionsIndex::findTransactions`. -/
def findTransactions (idx : TransactionsIndex) (originalFilter : CompactFilter) :
    Except Exception (List ℕ) :=
  match originalFilter.publicKeySearchType with
  | .missingIndex => .ok []
  | .balanceChangingPublicKey => do
    let last ← idx.lastBalanceChanged originalFilter.publicKeyIndex
    let f := { originalFilter with
      maxTransactionNr :=
        if last ≠ 0 ∧ (originalFilter.maxTransactionNr = 0 ∨
          originalFilter.maxTransactionNr > last) then last
        else originalFilter.maxTransactionNr }
    -- only the last balance is asked for
    if last ≠ 0 ∧ f.pagination.size = 1 ∧ f.pagination.page < 2 ∧ f.searchDirection = .desc ∧
        f.timepointInterval.isEmpty = true ∧ f.coinCommunityIdIndex = 0 ∧
        f.minTransactionNr ≤ last ∧ last ≤ f.maxTransactionNr then
      return [last]
    idx.findInMonths f
  | _ => idx.findInMonths originalFilter

/-- `iterateRangeInOrderCollectFiltered`, for a range in the order of the search. -/
def collectFiltered {α : Type} (f : CompactFilter) (filterFunction : α → ℕ × FilterResult) :
    List α → List ℕ × ℕ → List ℕ
  | [], r => r.1
  | a :: range, (results, paginationCursor) =>
    let (entity, filterResult) := filterFunction a
    if filterResult.use && decide (f.pagination.skipEntriesCount ≤ paginationCursor) &&
        !f.pagination.hasCapacityLeft (results.length + 1) then results ++ [entity]
    else
      let r := if filterResult.use then
          (if f.pagination.skipEntriesCount ≤ paginationCursor then results ++ [entity]
            else results, paginationCursor + 1)
        else (results, paginationCursor)
      if filterResult.stop then r.1 else collectFiltered f filterFunction range r

/-- `TransactionsIndex::findTransactionsBalanceChangingForPublicKey`. -/
def findTransactionsBalanceChangingForPublicKey (idx : TransactionsIndex) (f : CompactFilter) :
    Except Exception (List ℕ) := do
  throwIf (decide (f.publicKeySearchType ≠ .balanceChangingPublicKey) || f.publicKeyIndex.empty)
    (.gradidoNodeInvalidData "please call findTransactionsBalanceChangingForPublicKey with PublicKeySearchType = BalanceChangingPublicKey and valid publicKeyIndex")
  let entries := idx.mBalanceChangingTxPerAccountPublicKey f.publicKeyIndex.publicKeyIndex
  if entries = [] then return []
  let interval ← idx.filteredTimepointInterval f
  let startYm := timepointAsYearMonth interval.startDate
  let endYm := timepointAsYearMonth interval.endDate
  return collectFiltered f (fun e => (e.transactionNr, e.isMatchingFilter f startYm endYm))
    (inDirection f entries) ([], 0)

/-! ### Counting -/

/-- The numbers of a month between the bounds, as `countTransactions` subtracts them. -/
def countBetween (f : CompactFilter) (first last : ℕ) : ℕ :=
  let minTx := if f.minTransactionNr ≠ 0 ∧ f.minTransactionNr > first then f.minTransactionNr
    else first
  let maxTx := if f.maxTransactionNr ≠ 0 ∧ f.maxTransactionNr < last then f.maxTransactionNr
    else last
  if maxTx ≥ minTx then maxTx - minTx + 1 else 0

/-- The loop of `countTransactions` over the months. -/
def countMonths (idx : TransactionsIndex) (f : CompactFilter) : List (ℤ × ℕ) → ℕ →
    Except Exception ℕ
  | [], result => .ok result
  | ym :: yms, result => do
    let yearMonthIndex ← idx.yearMonthToIndex ym
    let entries := idx.mYearMonthAddressIndexEntries yearMonthIndex
    match entries.head?, entries.getLast? with
    | some first, some last =>
      if endsBelow f entries then countMonths idx f yms result
      else if startsAbove f entries then .ok result
      else if f.transactionType ≠ .none ∨ f.publicKeySearchType ≠ .none ∨
          f.coinCommunityIdIndex ≠ 0 then
        countMonths idx f yms
          (result + (entries.filter (fun e => (e.isMatchingFilter f).use)).length)
      else
        countMonths idx f yms (result + countBetween f first.transactionNr last.transactionNr)
    | _, _ => countMonths idx f yms result

/-- The loop of `countBalanceChangingTxs`. -/
def countEntries (f : CompactFilter) (startYm endYm : ℤ × ℕ) :
    List BalanceTransactionIndexEntry → ℕ → ℕ
  | [], count => count
  | e :: entries, count =>
    let result := e.isMatchingFilter f startYm endYm
    let count := if result.use then count + 1 else count
    if result.stop then count else countEntries f startYm endYm entries count

/-- `TransactionsIndex::countBalanceChangingTxs`: the months are those of the filter's own
interval. -/
def countBalanceChangingTxs (idx : TransactionsIndex) (f : CompactFilter) : Except Exception ℕ := do
  throwIf (decide (f.publicKeySearchType ≠ .balanceChangingPublicKey)) (.gradidoNodeInvalidData
    "TransactionsIndex::countBalanceChangingTxs called with wrong filter")
  let entries := idx.mBalanceChangingTxPerAccountPublicKey f.publicKeyIndex.publicKeyIndex
  if entries = [] then return 0
  if f.minTransactionNr = 0 ∧ f.maxTransactionNr = 0 ∧ f.transactionType = .none ∧
      f.timepointInterval.isEmpty = true ∧ f.coinCommunityIdIndex = 0 then
    return entries.length
  let interval ← idx.filteredTimepointInterval f
  return countEntries { f with timepointInterval := interval, searchDirection := .asc }
    (timepointAsYearMonth f.timepointInterval.startDate)
    (timepointAsYearMonth f.timepointInterval.endDate) entries 0

/-- `TransactionsIndex::countTransactions`. -/
def countTransactions (idx : TransactionsIndex) (f : CompactFilter) : Except Exception ℕ :=
  match f.publicKeySearchType with
  | .missingIndex => .ok 0
  | .balanceChangingPublicKey => idx.countBalanceChangingTxs f
  | _ => do
    if idx.outOfBounds f then return 0
    let interval ← idx.filteredTimepointInterval f
    idx.countMonths f interval.months 0

end TransactionsIndex

end ByMonth

end Gradido
