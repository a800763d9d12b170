import GradidoBlockchain.Blockchain.TransactionsIndex

/-!
# The in-memory blockchain

The members of `blockchain::InMemory` that the interactions read and write, the
searches over them, and the three operations that change them:
`pushTransactionEntry` and the insertion and removal of trigger events.
-/

namespace Gradido

open Checked

/-- `TransactionTriggerEvent`; the only type of event is the timeout of a deferred transfer. -/
structure TransactionTriggerEvent where
  linkedTransactionId : ℕ
  targetDate : Timestamp
deriving DecidableEq, Repr

/-- `blockchain::InMemory`.  The multimap of trigger events is its list of entries in order of the
target date, equal dates in order of insertion. -/
structure InMemory where
  mCommunityIdIndex : ℕ
  mTransactionsByNr : ℕ → Option ConfirmedTransaction
  mLastTransaction : Option ConfirmedTransaction
  mLedgerAnchorTransactionNrs : LedgerAnchor → Option ℕ
  mConfirmedTxByNr : ℕ → Option ConfirmedGradidoTx
  mTransactionsIndex : TransactionsIndex
  mTransactionTriggerEvents : List TransactionTriggerEvent

namespace InMemory

/-- A new blockchain. -/
def empty (communityIdIndex : ℕ) : InMemory where
  mCommunityIdIndex := communityIdIndex
  mTransactionsByNr := fun _ => none
  mLastTransaction := none
  mLedgerAnchorTransactionNrs := fun _ => none
  mConfirmedTxByNr := fun _ => none
  mTransactionsIndex := .empty communityIdIndex
  mTransactionTriggerEvents := []

/-- `InMemory::clear`: besides the index only the list of sorted transactions and the dictionary are
reset. -/
def clear (s : InMemory) : InMemory :=
  { s with mTransactionsIndex := s.mTransactionsIndex.reset }

/-! ### Storing transactions -/

/-- `insert` of a map: an entry that is there already stays. -/
def insertNew {K V : Type} [DecidableEq K] (m : K → Option V) (k : K) (v : V) : K → Option V :=
  if (m k).isSome then m else Function.update m k (some v)

/-- The try block of `pushTransactionEntry`: compact form, index and compact map.  An exception is
logged and swallowed; what the index already took over stays. -/
def pushCompact (env : Env) (s : InMemory) (tx : ConfirmedTransaction) : InMemory :=
  match ConfirmedGradidoTx.fromConfirmedTransaction env s.mCommunityIdIndex
      s.mConfirmedTxByNr tx with
  | .error _ => s
  | .ok compactTx =>
    match s.mTransactionsIndex.addTransactionIndices env compactTx with
    | (idx, .error _) => { s with mTransactionsIndex := idx }
    | (idx, .ok ()) =>
      { s with
        mTransactionsIndex := idx
        mConfirmedTxByNr := insertNew s.mConfirmedTxByNr compactTx.txNr compactTx }

/-- `InMemory::pushTransactionEntry`. -/
def pushTransactionEntry (env : Env) (s : InMemory) (tx : ConfirmedTransaction) : InMemory :=
  pushCompact env
    { s with
      mLedgerAnchorTransactionNrs := insertNew s.mLedgerAnchorTransactionNrs tx.ledgerAnchor tx.id
      mTransactionsByNr := insertNew s.mTransactionsByNr tx.id tx
      mLastTransaction := some tx }
    tx

/-! ### Trigger events -/

/-- Insertion into the multimap: after the events with the same or an earlier date. -/
def insertEvent (event : TransactionTriggerEvent) :
    List TransactionTriggerEvent → List TransactionTriggerEvent
  | [] => [event]
  | e :: es =>
    if event.targetDate.lt e.targetDate then event :: e :: es else e :: insertEvent event es

/-- `InMemory::addTransactionTriggerEvent`. -/
def addTransactionTriggerEvent (s : InMemory) (event : TransactionTriggerEvent) :
    Except Exception InMemory := do
  let entry ← orThrow (s.mTransactionsByNr event.linkedTransactionId) (.gradidoNullPointer
    "empty transactionEntry from getTransactionForId for transactionTriggerEvent linked transaction id"
    "data::TransactionEntry")
  throwIf (decide (entry.body.transactionType ≠ .deferredTransfer)) (.gradidoNodeInvalidData
    "transactionTriggerEvent linked transaction id is not a deferred transfer")
  return { s with mTransactionTriggerEvents := insertEvent event s.mTransactionTriggerEvents }

/-- `InMemory::removeTransactionTriggerEvent`. -/
def removeTransactionTriggerEvent (s : InMemory) (event : TransactionTriggerEvent) : InMemory :=
  { s with
    mTransactionTriggerEvents :=
      s.mTransactionTriggerEvents.filter (fun e => decide (e ≠ event)) }

/-- `InMemory::findNextTransactionTriggerEventInRange`: the first event that is not before the
start, when it is due by the end. -/
def findNextTransactionTriggerEventInRange (s : InMemory) (startDate endDate : Timestamp) :
    Option TransactionTriggerEvent :=
  (s.mTransactionTriggerEvents.find? (fun e => !e.targetDate.lt startDate)).filter
    (fun e => e.targetDate.le endDate)

/-- `InMemory::findTransactionTriggerEventsInRange`. -/
def findTransactionTriggerEventsInRange (s : InMemory) (startDate endDate : Timestamp) :
    List TransactionTriggerEvent :=
  s.mTransactionTriggerEvents.filter
    (fun e => !e.targetDate.lt startDate && !endDate.lt e.targetDate)

/-! ### Searching -/

/-- The loop of `InMemory::findAll(Filter)` over the numbers that the index found. -/
def collect (s : InMemory) (f : Filter) :
    List ℕ → List ConfirmedTransaction → Except Exception (List ConfirmedTransaction)
  | [], result => .ok result
  | nr :: nrs, result =>
    if !f.pagination.hasCapacityLeft result.length then .ok result
    else
      match s.mTransactionsByNr nr with
      | none => .error (.nullDereference "transaction of an indexed number")
      | some tx =>
        let filterResult := f.matchesFound tx
        let result := if filterResult.use then result ++ [tx] else result
        if filterResult.stop then .ok result else collect s f nrs result

/-- `InMemory::findAll(Filter)`, with what the dictionary knows when it is called. -/
def findAllWith (getIndexForData : ℕ → ℕ) (s : InMemory) (f : Filter) :
    Except Exception (List ConfirmedTransaction) :=
  s.collect f
    (s.mTransactionsIndex.findTransactions (.ofFilter getIndexForData f s.mCommunityIdIndex)) []

/-- `InMemory::findAll(Filter)` as the interactions call it: their keys have a number. -/
def findAll (env : Env) (s : InMemory) (f : Filter) :
    Except Exception (List ConfirmedTransaction) :=
  s.findAllWith (env.dict.index s.mCommunityIdIndex) f

/-- The loop of `InMemory::findAll(Filter)` for a filter function that changes a state `σ` of its
caller or throws. -/
def collectInto {σ : Type} (s : InMemory) (f : Filter)
    (filterFunction : σ → ConfirmedTransaction → Except Exception (σ × FilterResult)) :
    List ℕ → σ → List ConfirmedTransaction → Except Exception (σ × List ConfirmedTransaction)
  | [], acc, result => .ok (acc, result)
  | nr :: nrs, acc, result =>
    if !f.pagination.hasCapacityLeft result.length then .ok (acc, result)
    else
      match s.mTransactionsByNr nr with
      | none => .error (.nullDereference "transaction of an indexed number")
      | some tx => do
        let (acc, filterResult) ←
          if f.matchesTimepointInterval tx then filterFunction acc tx else .ok (acc, .DISMISS)
        let result := if filterResult.use then result ++ [tx] else result
        if filterResult.stop then return (acc, result)
        else collectInto s f filterFunction nrs acc result

/-- `InMemory::findAll(Filter)` for such a filter function: the state afterwards and the
transactions. -/
def findAllInto {σ : Type} (env : Env) (s : InMemory) (f : Filter)
    (filterFunction : σ → ConfirmedTransaction → Except Exception (σ × FilterResult)) (acc : σ) :
    Except Exception (σ × List ConfirmedTransaction) :=
  s.collectInto f filterFunction (s.mTransactionsIndex.findTransactions
    (.ofFilter (env.dict.index s.mCommunityIdIndex) f s.mCommunityIdIndex)) acc []

/-- The result of `findOne` from the result of `findAll`. -/
def exactlyOne {α : Type} : List α → Except Exception (Option α)
  | [] => .ok none
  | [x] => .ok (some x)
  | xs => .error (.transactionResultCount
      "to many transactions found with blockchain::Abstract::findOne" 1 xs.length)

/-- `Abstract::findOne(Filter)`, for every filter but `LAST_TRANSACTION`. -/
def findOne (env : Env) (s : InMemory) (f : Filter) :
    Except Exception (Option ConfirmedTransaction) := do
  exactlyOne (← s.findAll env f)

/-- `InMemory::findAll(CompactFilter)`: a number without compact form gives a null pointer. -/
def findAllCompact (s : InMemory) (f : CompactFilter) : List (Option ConfirmedGradidoTx) :=
  (s.mTransactionsIndex.findTransactions f).map s.mConfirmedTxByNr

/-- `Abstract::findOne(CompactFilter)`. -/
def findOneCompact (s : InMemory) (f : CompactFilter) :
    Except Exception (Option ConfirmedGradidoTx) := do
  return (← exactlyOne (s.findAllCompact f)).join

/-- The inner loop of `InMemory::findAll(CompactFilter, elementFilter)` over one page; the element
filter may change a state `σ` or throw. -/
def forPage {σ : Type} (s : InMemory)
    (elementFilter : σ → ConfirmedGradidoTx → Except Exception (σ × FilterResult)) :
    List ℕ → σ → FilterResult → Except Exception (σ × FilterResult)
  | [], acc, last => .ok (acc, last)
  | nr :: nrs, acc, _ =>
    match s.mConfirmedTxByNr nr with
    | none => .error (.transactionNotFound "cannot found confirmed tx in iterateAllImpl" nr)
    | some tx => do
      let (acc, result) ← elementFilter acc tx
      if result.stop then return (acc, result) else forPage s elementFilter nrs acc result

/-- `InMemory::findAll(CompactFilter, elementFilter)` for an element filter that never uses an
element, as both callers pass it: the pages are requested one after the other until one is empty
or the filter stops.  The bound is the number of pages. -/
def forEachPage {σ : Type} (s : InMemory) (f : CompactFilter)
    (elementFilter : σ → ConfirmedGradidoTx → Except Exception (σ × FilterResult)) :
    ℕ → ℕ → σ → Except Exception σ
  | 0, _, acc => .ok acc
  | bound + 1, page, acc =>
    match s.mTransactionsIndex.findTransactions
        { f with pagination := ⟨f.pagination.size, page⟩ } with
    | [] => .ok acc
    | txs => do
      let (acc, result) ← s.forPage elementFilter txs acc .DISMISS
      if f.pagination.size = 0 ∨ result.stop = true then return acc
      else forEachPage s f elementFilter bound (page + 1) acc

/-- `InMemory::findAll(CompactFilter, elementFilter)`.  Pages zero and one are the same, and a
page beyond the last transaction number is empty. -/
def forEachCompact {σ : Type} (s : InMemory) (f : CompactFilter)
    (elementFilter : σ → ConfirmedGradidoTx → Except Exception (σ × FilterResult)) (acc : σ) :
    Except Exception σ :=
  s.forEachPage f elementFilter (s.mTransactionsIndex.mMaxTransactionNr + 3) f.pagination.page acc

/-- The loop over the pages in `InMemory::findAll(CompactFilter, elementFilter)`, for an element
filter that may use elements. -/
def findAllPages (s : InMemory) (f : CompactFilter)
    (elementFilter : ConfirmedGradidoTx → FilterResult) :
    ℕ → ℕ → List ConfirmedGradidoTx → Except Exception (List ConfirmedGradidoTx)
  | 0, _, acc => .ok acc
  | bound + 1, page, acc =>
    match s.mTransactionsIndex.findTransactions
        { f with pagination := ⟨f.pagination.size, page⟩ } with
    | [] => .ok acc
    | txs => do
      let (acc, result) ← s.forPage (fun acc tx =>
        .ok (if (elementFilter tx).use then acc ++ [tx] else acc, elementFilter tx))
        txs acc .DISMISS
      if f.pagination.size = 0 ∨ f.pagination.hasCapacityLeft acc.length = false ∨
          result.stop = true then return acc
      else findAllPages s f elementFilter bound (page + 1) acc

/-- `InMemory::findAll(CompactFilter, elementFilter)`. -/
def findAllElements (s : InMemory) (f : CompactFilter)
    (elementFilter : ConfirmedGradidoTx → FilterResult) :
    Except Exception (List ConfirmedGradidoTx) :=
  s.findAllPages f elementFilter (s.mTransactionsIndex.mMaxTransactionNr + 3) f.pagination.page []

/-- `InMemory::countAll`. -/
def countAll (s : InMemory) (f : CompactFilter) : ℕ :=
  s.mTransactionsIndex.countTransactions f

/-- `InMemory::findByLedgerAnchor`. -/
def findByLedgerAnchor (s : InMemory) (ledgerAnchor : LedgerAnchor) :
    Option ConfirmedTransaction :=
  (s.mLedgerAnchorTransactionNrs ledgerAnchor).bind s.mTransactionsByNr

/-! ### Address types and duplicates -/

/-- `Abstract::getAddressTypeSlow`. -/
def getAddressTypeSlow (env : Env) (s : InMemory) (f : Filter) (publicKey : ℕ) :
    Except Exception AddressType := do
  match ← s.findOne env .FIRST_TRANSACTION with
  | none => return .none
  | some first =>
    let root ← orThrow first.body.getCommunityRoot
      (.nullDereference "first transaction is no community root")
    let index := env.dict.index s.mCommunityIdIndex publicKey
    let rootCommunity := first.gradidoTransaction.communityIdIndex
    if env.dict.index rootCommunity root.aufPublicKey = index then return .communityAuf
    else if env.dict.index rootCommunity root.gmwPublicKey = index then return .communityGmw
    else
      let f := { f with
        transactionType := .registerAddress
        pagination := ⟨1, f.pagination.page⟩
        searchDirection := .desc }
      match ← s.findOne env f with
      | some entry =>
        let r ← orThrow entry.body.getRegisterAddress (.nullDereference "register address")
        return r.addressType
      | none =>
        let f := { f with
          transactionType := .deferredTransfer
          filterFunction := some (fun entry =>
            if entry.body.getDeferredTransfer.any
                (fun d => decide (d.transfer.recipient = publicKey))
            then .USE else .DISMISS) }
        match ← s.findOne env f with
        | some _ => return .deferredTransfer
        | none => return .none

/-- `InMemory::getAddressType`. -/
def getAddressType (env : Env) (s : InMemory) (f : Filter) : Except Exception AddressType := do
  let publicKey := f.involvedPublicKey.getD 0
  throwIf (decide (publicKey = 0)) (.gradidoNodeInvalidData
    "missing public key, please use filter with involvedPublicKey set")
  let (txId, addressType) :=
    s.mTransactionsIndex.getAddressType (env.dict.index s.mCommunityIdIndex publicKey)
  if txId = 0 then return addressType
  else
    let tx ← orThrow (s.mTransactionsByNr txId)
      (.gradidoNodeInvalidData "tx for tx id in address index couldn't be found")
    if (f.matchesAll env tx).use then return addressType
    else s.getAddressTypeSlow env f publicKey

/-- The filter function of `isTransactionExist`. -/
def sameTransactionFilter (env : Env) (tx : GradidoTransaction) (confirmedAt : Timestamp)
    (entry : ConfirmedTransaction) : FilterResult :=
  if entry.confirmedAt.lt confirmedAt then .STOP
  else if entry.confirmedAt = confirmedAt ∧ tx.isTheSame env entry.gradidoTransaction = true then
    .USE_STOP
  else .DISMISS

/-- `Abstract::isTransactionExist`. -/
def isTransactionExist (env : Env) (s : InMemory) (tx : GradidoTransaction)
    (confirmedAt : Timestamp) : Except Exception Bool :=
  match s.mLastTransaction with
  | none => .ok false
  | some last =>
    if last.confirmedAt.lt confirmedAt then .ok false
    else if last.confirmedAt = confirmedAt ∧ tx.isTheSame env last.gradidoTransaction = true then
      .ok true
    else do
      let found ← s.findOne env
        { timepointInterval := ⟨confirmedAt.getAsTimepoint, confirmedAt.getAsTimepoint⟩
          filterFunction := some (sameTransactionFilter env tx confirmedAt) }
      return found.isSome

end InMemory

/-! ### All blockchains -/

/-- `InMemoryProvider`: the blockchain of every community, by community index.  The provider
creates a blockchain when it is asked for one, so every community has one, empty at first. -/
structure InMemoryProvider where
  blockchains : ℕ → InMemory

namespace InMemoryProvider

/-- The provider before any transaction. -/
def empty : InMemoryProvider := ⟨InMemory.empty⟩

/-- `InMemoryProvider::findBlockchain`. -/
def findBlockchain (p : InMemoryProvider) (communityIdIndex : ℕ) : InMemory :=
  p.blockchains communityIdIndex

/-- The provider after a change to one blockchain. -/
def set (p : InMemoryProvider) (communityIdIndex : ℕ) (s : InMemory) : InMemoryProvider :=
  ⟨Function.update p.blockchains communityIdIndex s⟩

@[simp] theorem findBlockchain_set_self (p : InMemoryProvider) (i : ℕ) (s : InMemory) :
    (p.set i s).findBlockchain i = s := by
  simp [findBlockchain, set]

theorem findBlockchain_set_of_ne (p : InMemoryProvider) {i j : ℕ} (s : InMemory) (h : j ≠ i) :
    (p.set i s).findBlockchain j = p.findBlockchain j := by
  simp [findBlockchain, set, h]

end InMemoryProvider

end Gradido
