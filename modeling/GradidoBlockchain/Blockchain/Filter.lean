import GradidoBlockchain.Data.Compact

/-!
# Filters

`Filter` describes a search over rich transactions and `CompactFilter` the same
search for the index, where keys are numbers and zero stands for a bound or a
coin community that is not set.
-/

namespace Gradido

/-- `SearchDirection`. -/
inductive SearchDirection
  | asc
  | desc
deriving DecidableEq, Repr

/-- `FilterResult`, a set of flags. -/
structure FilterResult where
  use : Bool
  stop : Bool
deriving DecidableEq, Repr

namespace FilterResult

/-- `FilterResult::USE`. -/
def USE : FilterResult := ⟨true, false⟩

/-- `FilterResult::DISMISS`. -/
def DISMISS : FilterResult := ⟨false, false⟩

/-- `FilterResult::STOP`. -/
def STOP : FilterResult := ⟨false, true⟩

/-- `FilterResult::USE | FilterResult::STOP`. -/
def USE_STOP : FilterResult := ⟨true, true⟩

end FilterResult

/-- A check that dismisses. -/
theorem FilterResult.dismiss_or_eq_USE {b : Bool} {r : FilterResult} :
    (if b then .DISMISS else r) = FilterResult.USE ↔ b = false ∧ r = .USE := by
  cases b with
  | false => simp
  | true => simp [DISMISS, USE]

/-- `FilterCriteria`; its flags are combined to a predicate. -/
inductive FilterCriteria
  | transactionNr
  | involvedPublicKey
  | coinCommunity
  | timepointInterval
  | filterFunction
  | transactionType
  | updatedBalancedPublicKey
deriving DecidableEq, Repr

/-- `Pagination`: page size, zero for all, and page. -/
structure Pagination where
  size : ℕ
  page : ℕ
deriving DecidableEq, Repr

namespace Pagination

/-- `Pagination::skipEntriesCount`: the product is one of 32-bit numbers. -/
def skipEntriesCount (p : Pagination) : ℕ :=
  if p.page = 0 then 0 else (p.page - 1) * p.size % 2 ^ 32

/-- `Pagination::hasCapacityLeft`. -/
def hasCapacityLeft (p : Pagination) (currentCount : ℕ) : Bool :=
  decide (p.size = 0) || decide (currentCount < p.size)

end Pagination

/-- `TimepointInterval`. -/
structure TimepointInterval where
  startDate : ℤ
  endDate : ℤ
deriving DecidableEq, Repr

namespace TimepointInterval

/-- The interval that is not set. -/
def unset : TimepointInterval := ⟨0, 0⟩

/-- The constructor `TimepointInterval(startDate, endDate)`. -/
def make (startDate endDate : ℤ) : Except Exception TimepointInterval := do
  Checked.throwIf (decide (startDate > endDate))
    (.endDateBeforeStartDate "end date for timepoint interval is before start date")
  return ⟨startDate, endDate⟩

/-- `TimepointInterval::isEmpty`: both ends are the epoch. -/
def isEmpty (i : TimepointInterval) : Bool := decide (i.startDate = 0) && decide (i.endDate = 0)

/-- `TimepointInterval::isInsideInterval(date)`. -/
def isInsideInterval (i : TimepointInterval) (date : ℤ) : Bool :=
  decide (i.startDate ≤ date) && decide (date ≤ i.endDate)

/-- `TimepointInterval::isInsideInterval(month, year)`. -/
def isInsideIntervalMonth (i : TimepointInterval) (month : ℕ) (year : ℤ) : Bool :=
  let s := Calendar.civilFromDays (floorDays i.startDate)
  let e := Calendar.civilFromDays (floorDays i.endDate)
  !(decide (year = s.year ∧ month < s.month) || decide (year = e.year ∧ month > e.month) ||
    decide (year < s.year ∨ year > e.year))

end TimepointInterval

/-- `Filter`. -/
structure Filter where
  minTransactionNr : ℕ := 0
  maxTransactionNr : ℕ := 0
  involvedPublicKey : Option ℕ := none
  updatedBalancePublicKey : Option ℕ := none
  searchDirection : SearchDirection := .desc
  transactionType : TransactionType := .none
  pagination : Pagination := ⟨0, 0⟩
  coinCommunityIdIndex : Option ℕ := none
  timepointInterval : TimepointInterval := .unset
  filterFunction : Option (ConfirmedTransaction → FilterResult) := none

namespace Filter

/-- `Filter::LAST_TRANSACTION`. -/
def LAST_TRANSACTION : Filter := { pagination := ⟨1, 0⟩ }

/-- `Filter::FIRST_TRANSACTION`. -/
def FIRST_TRANSACTION : Filter := { searchDirection := .asc, pagination := ⟨1, 0⟩ }

/-- `Filter::lastBalanceFor`. -/
def lastBalanceFor (updatedBalancePublicKey : ℕ) : Filter :=
  { updatedBalancePublicKey := some updatedBalancePublicKey, pagination := ⟨1, 0⟩ }

/-- The bounds on the transaction number in `Filter::matches`. -/
def matchesTransactionNr (f : Filter) (tx : ConfirmedTransaction) : Bool :=
  !(decide (f.minTransactionNr ≠ 0 ∧ tx.id < f.minTransactionNr) ||
    decide (f.maxTransactionNr ≠ 0 ∧ tx.id > f.maxTransactionNr))

/-- `TransactionEntry::getCoinCommunityIdIndex(body)`: the community of the amount is read and then
not returned. -/
def getCoinCommunityIdIndex (_body : TransactionBody) : Option ℕ := none

/-- The coin community in `Filter::matches`, for an entry of the blockchain of a community. -/
def matchesCoinCommunity (blockchainCommunityIdIndex : ℕ) (f : Filter)
    (tx : ConfirmedTransaction) : Bool :=
  f.coinCommunityIdIndex.all (fun coin =>
    decide (coin = (getCoinCommunityIdIndex tx.body).getD blockchainCommunityIdIndex))

/-- The transaction type in `Filter::matches`. -/
def matchesTransactionType (f : Filter) (tx : ConfirmedTransaction) : Bool :=
  decide (f.transactionType = .none) || decide (tx.body.transactionType = f.transactionType)

/-- The involved key in `Filter::matches`. -/
def matchesInvolvedPublicKey (env : Env) (f : Filter) (tx : ConfirmedTransaction) : Bool :=
  f.involvedPublicKey.all (fun k => tx.isInvolved env k)

/-- The key with a balance in `Filter::matches`. -/
def matchesUpdatedBalancePublicKey (f : Filter) (tx : ConfirmedTransaction) : Bool :=
  f.updatedBalancePublicKey.all (fun k => tx.isBalanceUpdated k)

/-- The interval in `Filter::matches`: first by month, then exactly. -/
def matchesTimepointInterval (f : Filter) (tx : ConfirmedTransaction) : Bool :=
  let ymd := timepointAsYearMonthDay tx.confirmedAt.getAsTimepoint
  f.timepointInterval.isEmpty ||
    (f.timepointInterval.isInsideIntervalMonth ymd.month ymd.year &&
      f.timepointInterval.isInsideInterval tx.confirmedAt.getAsTimepoint)

/-- The filter function, when there is one. -/
def applyFilterFunction (f : Filter) (tx : ConfirmedTransaction) : FilterResult :=
  match f.filterFunction with
  | some g => g tx
  | none => .USE

/-- `Filter::matches` for an entry of the blockchain of a community. -/
def matchesEntry (env : Env) (blockchainCommunityIdIndex : ℕ) (f : Filter)
    (tx : ConfirmedTransaction) (type : FilterCriteria → Bool) : FilterResult :=
  if type .transactionNr && !f.matchesTransactionNr tx then .DISMISS
  else if type .coinCommunity && !f.matchesCoinCommunity blockchainCommunityIdIndex tx then .DISMISS
  else if type .transactionType && !f.matchesTransactionType tx then .DISMISS
  else if type .timepointInterval && !f.matchesTimepointInterval tx then .DISMISS
  else if type .involvedPublicKey && !f.matchesInvolvedPublicKey env tx then .DISMISS
  else if type .updatedBalancedPublicKey && !f.matchesUpdatedBalancePublicKey tx then .DISMISS
  else if type .filterFunction then f.applyFilterFunction tx
  else .USE

/-- `Filter::matches` with the criteria filter function and timepoint interval, as `findAll`
calls it on what the index found. -/
def matchesFound (f : Filter) (tx : ConfirmedTransaction) : FilterResult :=
  if f.matchesTimepointInterval tx then f.applyFilterFunction tx else .DISMISS

theorem matchesEntry_eq_USE {env : Env} {own : ℕ} {f : Filter} {tx : ConfirmedTransaction}
    {type : FilterCriteria → Bool} (hfunction : f.filterFunction = none) :
    f.matchesEntry env own tx type = .USE ↔
      (type .transactionNr = true → f.matchesTransactionNr tx = true) ∧
      (type .coinCommunity = true → f.matchesCoinCommunity own tx = true) ∧
      (type .transactionType = true → f.matchesTransactionType tx = true) ∧
      (type .timepointInterval = true → f.matchesTimepointInterval tx = true) ∧
      (type .involvedPublicKey = true → f.matchesInvolvedPublicKey env tx = true) ∧
      (type .updatedBalancedPublicKey = true → f.matchesUpdatedBalancePublicKey tx = true) := by
  simp only [matchesEntry, FilterResult.dismiss_or_eq_USE, Bool.and_eq_false_iff,
    Bool.not_eq_false', applyFilterFunction, hfunction, ite_self, and_true, imp_iff_not_or,
    Bool.not_eq_true]

/-- `Filter::matches` with all criteria, as `getAddressType` calls it.  None of its callers sets a
coin community. -/
def matchesAll (env : Env) (f : Filter) (tx : ConfirmedTransaction) : FilterResult :=
  if !f.matchesTransactionNr tx then .DISMISS
  else if f.transactionType ≠ .none ∧ tx.body.transactionType ≠ f.transactionType then .DISMISS
  else if !f.matchesTimepointInterval tx then .DISMISS
  else if f.involvedPublicKey.any (fun k => !tx.isInvolved env k) then .DISMISS
  else if f.updatedBalancePublicKey.any (fun k => !tx.isBalanceUpdated k) then .DISMISS
  else f.applyFilterFunction tx

end Filter

/-- `PublicKeySearchType`. -/
inductive PublicKeySearchType
  | none
  | involvedPublicKey
  | balanceChangingPublicKey
  | missingCommunityId
  | missingIndex
deriving DecidableEq, Repr

/-- `CompactFilter`; a number of zero stands for a bound or a coin community that is not set. -/
structure CompactFilter where
  searchDirection : SearchDirection := .desc
  transactionType : TransactionType := .none
  publicKeySearchType : PublicKeySearchType := .none
  coinCommunityIdIndex : ℕ := 0
  maxTransactionNr : ℕ := 0
  minTransactionNr : ℕ := 0
  publicKeyIndex : PublicKeyIndex := ⟨0, 0⟩
  pagination : Pagination := ⟨0, 0⟩
  timepointInterval : TimepointInterval := .unset

namespace CompactFilter

/-- The search for a key in the constructor `CompactFilter(filter, dictionary, communityIdIndex)`:
a key without a number, or a missing community, is no longer searched for. -/
def searchFor (f : CompactFilter) (type : PublicKeySearchType) (index communityIdIndex : ℕ) :
    CompactFilter :=
  if index = 0 then { f with publicKeySearchType := .missingIndex }
  else if communityIdIndex = 0 then { f with publicKeySearchType := .missingCommunityId }
  else { f with publicKeySearchType := type, publicKeyIndex := ⟨communityIdIndex, index⟩ }

/-- The constructor `CompactFilter(filter, dictionary, communityIdIndex)`; `getIndexForData` is the
dictionary, which says zero for a key that it does not know.  The empty key is no key. -/
def ofFilter (getIndexForData : ℕ → ℕ) (f : Filter) (communityIdIndex : ℕ) : CompactFilter :=
  let base : CompactFilter :=
    { searchDirection := f.searchDirection
      transactionType := f.transactionType
      coinCommunityIdIndex := f.coinCommunityIdIndex.getD 0
      maxTransactionNr := f.maxTransactionNr
      minTransactionNr := f.minTransactionNr
      pagination := f.pagination
      timepointInterval := f.timepointInterval }
  match f.updatedBalancePublicKey.filter (· ≠ 0), f.involvedPublicKey.filter (· ≠ 0) with
  | some k, _ => base.searchFor .balanceChangingPublicKey (getIndexForData k) communityIdIndex
  | none, some k => base.searchFor .involvedPublicKey (getIndexForData k) communityIdIndex
  | none, none => base

/-- The constructor takes everything but the keys over. -/
theorem ofFilter_eq (getIndexForData : ℕ → ℕ) (f : Filter) (communityIdIndex : ℕ) :
    ∃ searchType key, ofFilter getIndexForData f communityIdIndex =
      { searchDirection := f.searchDirection
        transactionType := f.transactionType
        publicKeySearchType := searchType
        coinCommunityIdIndex := f.coinCommunityIdIndex.getD 0
        maxTransactionNr := f.maxTransactionNr
        minTransactionNr := f.minTransactionNr
        publicKeyIndex := key
        pagination := f.pagination
        timepointInterval := f.timepointInterval } := by
  unfold ofFilter searchFor
  dsimp only
  split
  · split_ifs <;> exact ⟨_, _, rfl⟩
  · split_ifs <;> exact ⟨_, _, rfl⟩
  · exact ⟨_, _, rfl⟩

/-- The bounds on the transaction number in `CompactFilter::matches`. -/
def matchesTransactionNr (f : CompactFilter) (tx : ConfirmedGradidoTx) : Bool :=
  !(decide (f.minTransactionNr ≠ 0 ∧ tx.txNr < f.minTransactionNr) ||
    decide (f.maxTransactionNr ≠ 0 ∧ tx.txNr > f.maxTransactionNr))

/-- The coin community in `CompactFilter::matches`. -/
def matchesCoinCommunity (f : CompactFilter) (tx : ConfirmedGradidoTx) : Bool :=
  decide (f.coinCommunityIdIndex = 0) || tx.hasCoinsFromCommunity f.coinCommunityIdIndex

/-- The transaction type in `CompactFilter::matches`. -/
def matchesTransactionType (f : CompactFilter) (tx : ConfirmedGradidoTx) : Bool :=
  decide (f.transactionType = .none) || decide (tx.transactionType = f.transactionType)

/-- The interval in `CompactFilter::matches`. -/
def matchesTimepointInterval (f : CompactFilter) (tx : ConfirmedGradidoTx) : Bool :=
  f.timepointInterval.isEmpty || f.timepointInterval.isInsideInterval tx.confirmedAt.getAsTimepoint

/-- The involved key in `CompactFilter::matches`. -/
def matchesInvolvedPublicKey (env : Env) (f : CompactFilter) (tx : ConfirmedGradidoTx) : Bool :=
  !(decide (f.publicKeySearchType = .involvedPublicKey) && !tx.isInvolved env f.publicKeyIndex)

/-- The key with a balance in `CompactFilter::matches`. -/
def matchesUpdatedBalancePublicKey (f : CompactFilter) (tx : ConfirmedGradidoTx) : Bool :=
  !(decide (f.publicKeySearchType = .balanceChangingPublicKey) &&
    !tx.isBalanceUpdated f.publicKeyIndex)

/-- `CompactFilter::matches`, with all criteria unless others are given. -/
def matchesTx (env : Env) (f : CompactFilter) (tx : ConfirmedGradidoTx)
    (type : FilterCriteria → Bool := fun _ => true) : FilterResult :=
  if type .transactionNr && !f.matchesTransactionNr tx then .DISMISS
  else if type .coinCommunity && !f.matchesCoinCommunity tx then .DISMISS
  else if type .transactionType && !f.matchesTransactionType tx then .DISMISS
  else if type .timepointInterval && !f.matchesTimepointInterval tx then .DISMISS
  else if type .involvedPublicKey && !f.matchesInvolvedPublicKey env tx then .DISMISS
  else if type .updatedBalancedPublicKey && !f.matchesUpdatedBalancePublicKey tx then .DISMISS
  else .USE

theorem matchesTx_eq_USE {env : Env} {f : CompactFilter} {tx : ConfirmedGradidoTx}
    {type : FilterCriteria → Bool} :
    f.matchesTx env tx type = .USE ↔
      (type .transactionNr = true → f.matchesTransactionNr tx = true) ∧
      (type .coinCommunity = true → f.matchesCoinCommunity tx = true) ∧
      (type .transactionType = true → f.matchesTransactionType tx = true) ∧
      (type .timepointInterval = true → f.matchesTimepointInterval tx = true) ∧
      (type .involvedPublicKey = true → f.matchesInvolvedPublicKey env tx = true) ∧
      (type .updatedBalancedPublicKey = true → f.matchesUpdatedBalancePublicKey tx = true) := by
  simp only [matchesTx, FilterResult.dismiss_or_eq_USE, Bool.and_eq_false_iff, Bool.not_eq_false',
    and_true, imp_iff_not_or, Bool.not_eq_true]

/-- `CompactFilter::lastBalanceFor`. -/
def lastBalanceFor (publicKeyIndex : PublicKeyIndex) : CompactFilter :=
  { publicKeyIndex := publicKeyIndex
    publicKeySearchType := .balanceChangingPublicKey
    pagination := ⟨1, 0⟩ }

end CompactFilter

end Gradido
