import GradidoBlockchain.Interaction.Validate

/-!
# Confirming transactions

`interaction::confirmTransaction`: how the balances of a new transaction are
computed, how the transaction is built and validated, and how
`InMemory::createAndAddConfirmedTransaction` adds it.  Before a transaction is
built, the trigger events that are due are turned into timeout transactions by
a recursive call.
-/

namespace Gradido

open Checked

namespace ConfirmTransaction

/-- `confirmTransaction::AbstractRole`: a transaction to be confirmed.  Balances that were
computed elsewhere are given; otherwise the node computes them. -/
structure Role where
  mGradidoTransaction : GradidoTransaction
  mLedgerAnchor : LedgerAnchor
  mConfirmedAt : Timestamp
  mAccountBalances : Option (List AccountBalance) := none

namespace Role

/-- `mBody`. -/
def mBody (role : Role) : TransactionBody := role.mGradidoTransaction.body

/-- `mBalanceDerivationType`. -/
def mBalanceDerivationType (role : Role) : BalanceDerivation :=
  if role.mAccountBalances.isSome then .externComputed else .nodeComputed

end Role

/-! ### Account balances -/

/-- The end of both functions `calculateAccountBalance`: a debit may exceed the balance by a
hundred cents, and then leaves zero. -/
def addToBalance (previousDecayedAccountBalance amount : ℤ) : Except Exception ℤ :=
  let newBalance := previousDecayedAccountBalance + amount
  if newBalance < 0 then
    if newBalance + 100 < 0 then
      .error (.insufficientBalance "not enough Gradido Balance for operation" amount
        previousDecayedAccountBalance)
    else .ok 0
  else .ok newBalance

/-- The previous balance that `AbstractRole::calculateAccountBalance(publicKey)` starts from. -/
def previousDecayedAccountBalance (env : Env) (s : InMemory) (confirmedAt : Timestamp)
    (publicKey coinCommunityIdIndex : ℕ) : Except Exception ℤ := do
  match ← s.findOne env { Filter.lastBalanceFor publicKey with
      coinCommunityIdIndex := some coinCommunityIdIndex } with
  | some tx =>
    tx.getDecayedAccountBalance env publicKey (some coinCommunityIdIndex)
      confirmedAt.getAsTimepoint
  | none => return 0

/-- `AbstractRole::calculateAccountBalance(publicKey)`. -/
def calculateAccountBalance (env : Env) (s : InMemory) (confirmedAt : Timestamp)
    (publicKey : ℕ) (amount : ℤ) (coinCommunityIdIndex : ℕ) : Except Exception AccountBalance := do
  let previous ← previousDecayedAccountBalance env s confirmedAt publicKey coinCommunityIdIndex
  let newBalance ← addToBalance previous amount
  return ⟨publicKey, newBalance, coinCommunityIdIndex⟩

/-- The previous balance that `AbstractRole::calculateAccountBalance(publicKeyIndex)` starts
from. -/
def previousDecayedCompactBalance (env : Env) (s : InMemory) (confirmedAt : Timestamp)
    (k : PublicKeyIndex) (coinCommunityIdIndex : ℕ) : Except Exception ℤ := do
  match ← s.findOneCompact { CompactFilter.lastBalanceFor k with
      coinCommunityIdIndex := coinCommunityIdIndex } with
  | some tx => getDecayedAmount env (tx.getAccountBalance k coinCommunityIdIndex) confirmedAt
  | none => return 0

/-- `CreationTransactionRole::accountBalanceFromPublicKeyIndex` with
`AbstractRole::calculateAccountBalance(publicKeyIndex)`. -/
def accountBalanceFromPublicKeyIndex (env : Env) (s : InMemory) (confirmedAt : Timestamp)
    (publicKeyIndex : ℕ) (amount : ℤ) (coinCommunityIdIndex : ℕ) :
    Except Exception AccountBalance := do
  let previous ← previousDecayedCompactBalance env s confirmedAt
    ⟨s.mCommunityIdIndex, publicKeyIndex⟩ coinCommunityIdIndex
  let newBalance ← addToBalance previous amount
  return ⟨env.dict.key s.mCommunityIdIndex publicKeyIndex, newBalance, coinCommunityIdIndex⟩

/-- `CommunityRootTransactionRole::calculateAccountBalances`. -/
def communityRootBalances (s : InMemory) (r : CommunityRoot) : List AccountBalance :=
  [⟨r.gmwPublicKey, 0, s.mCommunityIdIndex⟩, ⟨r.aufPublicKey, 0, s.mCommunityIdIndex⟩]

/-- `RegisterAddressRole::calculateAccountBalances`. -/
def registerAddressBalances (s : InMemory) (r : RegisterAddress) : List AccountBalance :=
  if r.accountPublicKey = 0 then [] else [⟨r.accountPublicKey, 0, s.mCommunityIdIndex⟩]

/-- `CreationTransactionRole::calculateAccountBalances`. -/
def creationBalances (env : Env) (s : InMemory) (confirmedAt : Timestamp) (c : GradidoCreation) :
    Except Exception (List AccountBalance) := do
  let t := c.recipient
  let first ← orThrow (← s.findOne env .FIRST_TRANSACTION)
    (.nullDereference "first transaction")
  let root ← orThrow first.body.getCommunityRoot
    (.gradidoNodeInvalidData "invalid first transaction, expect community root tx")
  let rootCommunity := first.gradidoTransaction.communityIdIndex
  let recipient ← calculateAccountBalance env s confirmedAt t.publicKey t.amount
    t.coinCommunityIdIndex
  let gmw ← accountBalanceFromPublicKeyIndex env s confirmedAt
    (env.dict.index rootCommunity root.gmwPublicKey) t.amount t.coinCommunityIdIndex
  let auf ← accountBalanceFromPublicKeyIndex env s confirmedAt
    (env.dict.index rootCommunity root.aufPublicKey) t.amount t.coinCommunityIdIndex
  return [recipient, gmw, auf]

/-- `TransferTransactionRole::calculateAccountBalances`. -/
def transferBalances (env : Env) (s : InMemory) (confirmedAt : Timestamp) (type : CrossGroupType)
    (t : GradidoTransfer) : Except Exception (List AccountBalance) :=
  let coin := t.sender.coinCommunityIdIndex
  match type with
  | .localGroup => do
    let sender ← calculateAccountBalance env s confirmedAt t.sender.publicKey (-t.sender.amount)
      coin
    let recipient ← calculateAccountBalance env s confirmedAt t.recipient t.sender.amount coin
    return [sender, recipient]
  | .outbound => do
    let sender ← calculateAccountBalance env s confirmedAt t.sender.publicKey (-t.sender.amount)
      coin
    return [sender]
  | .inbound => do
    let recipient ← calculateAccountBalance env s confirmedAt t.recipient t.sender.amount coin
    return [recipient]
  | .cross => .error (.gradidoUnhandledEnum
      "interaction::confirmTransaction transfer account balance" "grdt_cross_group")

/-- `DeferredTransferTransactionRole::calculateAccountBalances`: the cross group type is not looked
at. -/
def deferredTransferBalances (env : Env) (s : InMemory) (confirmedAt : Timestamp)
    (d : GradidoDeferredTransfer) : Except Exception (List AccountBalance) := do
  let t := d.transfer
  let sender ← calculateAccountBalance env s confirmedAt t.sender.publicKey (-t.sender.amount)
    t.sender.coinCommunityIdIndex
  let recipient ← calculateAccountBalance env s confirmedAt t.recipient t.sender.amount
    t.sender.coinCommunityIdIndex
  return [sender, recipient]

/-- `RedeemDeferredTransferTransactionRole::calculateAccountBalances`. -/
def redeemDeferredTransferBalances (env : Env) (s : InMemory) (confirmedAt : Timestamp)
    (type : CrossGroupType) (r : GradidoRedeemDeferredTransfer) :
    Except Exception (List AccountBalance) := do
  let t := r.transfer
  let coin := t.sender.coinCommunityIdIndex
  let entry ← orThrow (s.mTransactionsByNr r.deferredTransferTransactionNr)
    (.gradidoNullPointer "invalid deferred tx" "TransactionEntry")
  let d ← orThrow entry.body.getDeferredTransfer (.nullDereference "deferred transfer")
  let decayed ← env.calculateDecay d.transfer.sender.amount entry.confirmedAt.getAsTimepoint
    confirmedAt.getAsTimepoint
  let change := decayed - t.sender.amount
  if t.recipient = d.transfer.sender.publicKey then
    let recipient ← calculateAccountBalance env s confirmedAt t.recipient decayed coin
    return [⟨t.sender.publicKey, 0, coin⟩, recipient]
  else
    match type with
    | .localGroup =>
      let recipient ← calculateAccountBalance env s confirmedAt t.recipient t.sender.amount coin
      let sender ← calculateAccountBalance env s confirmedAt d.transfer.sender.publicKey change
        coin
      return [⟨t.sender.publicKey, 0, coin⟩, recipient, sender]
    | .outbound =>
      let sender ← calculateAccountBalance env s confirmedAt d.transfer.sender.publicKey change
        coin
      return [⟨t.sender.publicKey, 0, coin⟩, sender]
    | .inbound =>
      let recipient ← calculateAccountBalance env s confirmedAt t.recipient t.sender.amount coin
      return [recipient]
    | .cross => throw (.gradidoUnhandledEnum
        "interaction::confirmTransaction redeem deferred transfer account balance"
        "grdt_cross_group")

/-- `TimeoutDeferredTransferTransactionRole::calculateAccountBalances`. -/
def timeoutDeferredTransferBalances (env : Env) (s : InMemory) (confirmedAt : Timestamp)
    (deferredTransferTransactionNr : ℕ) : Except Exception (List AccountBalance) := do
  let entry ← orThrow (s.mTransactionsByNr deferredTransferTransactionNr)
    (.nullDereference "deferred transfer entry")
  let d ← orThrow entry.body.getDeferredTransfer (.nullDereference "deferred transfer")
  let coin := d.transfer.sender.coinCommunityIdIndex
  let decayed ← env.calculateDecay d.transfer.sender.amount entry.confirmedAt.getAsTimepoint
    confirmedAt.getAsTimepoint
  let sender ← calculateAccountBalance env s confirmedAt d.transfer.sender.publicKey decayed coin
  return [sender, ⟨d.transfer.recipient, 0, coin⟩]

/-- `calculateAccountBalances` of the role that `createRole` chooses. -/
def calculateAccountBalances (env : Env) (s : InMemory) (confirmedAt : Timestamp)
    (body : TransactionBody) : Except Exception (List AccountBalance) :=
  match body.specific with
  | .communityRoot r => .ok (communityRootBalances s r)
  | .registerAddress r => .ok (registerAddressBalances s r)
  | .creation c => creationBalances env s confirmedAt c
  | .transfer t => transferBalances env s confirmedAt body.type t
  | .deferredTransfer d => deferredTransferBalances env s confirmedAt d
  | .redeemDeferredTransfer r => redeemDeferredTransferBalances env s confirmedAt body.type r
  | .timeoutDeferredTransfer nr => timeoutDeferredTransferBalances env s confirmedAt nr
  | .communityFriendsUpdate _ => .ok []
  | .none => .ok []

/-! ### Building and validating one transaction -/

/-- `Context::createRole`: which bodies have a role. -/
def createRole (body : TransactionBody) : Except Exception Unit :=
  throwIf (decide (body.transactionType = .none ∨ body.transactionType = .communityFriendsUpdate))
    (.gradidoUnhandledEnum "adding transaction of this type currently not implemented"
      "grdt_transaction")

/-- The balances of `AbstractRole::createConfirmedTransaction`: computed here or given. -/
def roleAccountBalances (env : Env) (s : InMemory) (role : Role) :
    Except Exception (List AccountBalance) :=
  match role.mAccountBalances with
  | some accountBalances => .ok accountBalances
  | none => calculateAccountBalances env s role.mConfirmedAt role.mBody

/-- `AbstractRole::createConfirmedTransaction`: the constructor of `ConfirmedTransaction` collects
the involved addresses and computes the running hash. -/
def createConfirmedTransaction (env : Env) (s : InMemory) (role : Role) (id : ℕ)
    (last : Option ConfirmedTransaction) : Except Exception ConfirmedTransaction := do
  let accountBalances ← roleAccountBalances env s role
  let tx : ConfirmedTransaction :=
    { id := id
      gradidoTransaction := role.mGradidoTransaction
      confirmedAt := role.mConfirmedAt
      runningHash := []
      ledgerAnchor := role.mLedgerAnchor
      accountBalances := accountBalances
      balanceDerivationType := role.mBalanceDerivationType }
  let _ ← tx.getInvolvedAddressIndices env
  return { tx with runningHash := tx.calculateRunningHash env last }

/-- `getValidationType` of the role, less `SINGLE`, with the levels that `Context::run` adds when
there is a previous transaction. -/
def validationType (role : Role) (last : Option ConfirmedTransaction) : Validate.ValidationType :=
  let root := decide (role.mBody.transactionType = .communityRoot)
  { account := !root
    paired := !root && decide (role.mBody.type ≠ .localGroup)
    monthRange := decide (role.mBody.transactionType = .creation)
    previous := last.isSome
    previousBalance := last.isSome && role.mAccountBalances.isNone }

/-- `Context::run` up to the trigger events: the simple validation and the search for a
duplicate. -/
def validateSingle (env : Env) (p : InMemoryProvider) (community : ℕ) (disableVerify : Bool)
    (role : Role) : Except Exception Unit := do
  let s := p.findBlockchain community
  Validate.gradidoTransactionRole env p disableVerify { single := true }
    (.ofSender s s.mLastTransaction) role.mGradidoTransaction
  throwIf (← s.isTransactionExist env role.mGradidoTransaction role.mConfirmedAt)
    (.gradidoNullPointer "empty confirmed transaction from confirmTransaction interaction"
      "data::ConfirmedTransaction")

/-- `Context::run` after the trigger events. -/
def confirm (env : Env) (p : InMemoryProvider) (community : ℕ) (role : Role) :
    Except Exception ConfirmedTransaction := do
  let s := p.findBlockchain community
  let last := s.mLastTransaction
  throwIf (last.any (fun l => role.mConfirmedAt.lt l.confirmedAt))
    (.blockchainOrder "previous transaction is younger")
  let id := match last with
    | some l => l.id + 1
    | none => 1
  let tx ← createConfirmedTransaction env s role id last
  Validate.confirmedTransactionRole env p false (validationType role last) (.ofSender s last) tx
  return tx

/-! ### Adding to the blockchain -/

/-- `runPastAddToBlockchain` of the role: a deferred transfer plans its timeout and a redeem takes
it back. -/
def runPastAddToBlockchain (s : InMemory) (tx : ConfirmedTransaction) :
    Except Exception InMemory :=
  match tx.body.specific with
  | .deferredTransfer d =>
    s.addTransactionTriggerEvent ⟨tx.id, tx.confirmedAt.addSeconds d.timeoutDuration⟩
  | .redeemDeferredTransfer r => do
    let entry ← orThrow (s.mTransactionsByNr r.deferredTransferTransactionNr)
      (.nullDereference "deferred transfer entry")
    let d ← orThrow entry.body.getDeferredTransfer (.nullDereference "deferred transfer")
    return s.removeTransactionTriggerEvent
      ⟨r.deferredTransferTransactionNr, .ofTimepoint (entry.confirmedAt.getAsTimepoint +
        d.timeoutDuration * microsecondsPerSecond)⟩
  | _ => return s

/-- `pushTransactionEntry` and `runPastAddToBlockchain`: an exception of the second keeps the
transaction that the first one stored. -/
def addToBlockchain (env : Env) (s : InMemory) (tx : ConfirmedTransaction) :
    InMemory × Except Exception Unit :=
  let pushed := s.pushTransactionEntry env tx
  match runPastAddToBlockchain pushed tx with
  | .ok s' => (s', .ok ())
  | .error e => (pushed, .error e)

/-- `TimeoutDeferredTransferEventRole::run`, the transaction that an event creates: the builder
sets a date by way of a time point. -/
def createTransactionByEvent (community : ℕ) (event : TransactionTriggerEvent) :
    GradidoTransaction where
  signatureMap := ⟨[], List.nodup_nil⟩
  body :=
    { memos := []
      createdAt := .ofTimepoint event.targetDate.getAsTimepoint
      type := .localGroup
      otherCommunityIdIndex := none
      specific := .timeoutDeferredTransfer event.linkedTransactionId }
  encoding := 0
  communityIdIndex := community
  pairingLedgerAnchor := .unspecified

/-- The call that `Context::processTransactionTrigger` makes for an event. -/
def eventRole (community : ℕ) (event : TransactionTriggerEvent) : Role where
  mGradidoTransaction := createTransactionByEvent community event
  mLedgerAnchor := .nodeTrigger event.linkedTransactionId
  mConfirmedAt := event.targetDate

/-- The event that `Context::processTransactionTrigger` would take up. -/
def nextEvent (s : InMemory) (endDate : Timestamp) : Option TransactionTriggerEvent :=
  s.mLastTransaction.bind
    (fun last => s.findNextTransactionTriggerEventInRange last.confirmedAt endDate)

/-- `Context::processTransactionTrigger`, one round of the loop in `Context::run`: the event is
removed, and whether its transaction can be added does not matter.  The recursive call is a
parameter. -/
def processTransactionTrigger
    (createAndAdd : InMemoryProvider → ℕ → Role → InMemoryProvider × Except Exception Unit)
    (community : ℕ) (endDate : Timestamp) (p : InMemoryProvider) : Option InMemoryProvider :=
  (nextEvent (p.findBlockchain community) endDate).map (fun event =>
    (createAndAdd
      (p.set community ((p.findBlockchain community).removeTransactionTriggerEvent event))
      community (eventRole community event)).1)

/-- `Context::createRole`, `Context::run` and the end of `createAndAddConfirmedTransaction`.  Each
recursive call takes a trigger event away, so their number bounds the depth and every loop. -/
def createAndAdd (env : Env) : (depth : ℕ) → (disableVerify : Bool) → InMemoryProvider →
    (community : ℕ) → Role → InMemoryProvider × Except Exception Unit
  | 0, _, p, _, _ => (p, .error (.outOfRange "depth"))
  | depth + 1, disableVerify, p, community, role =>
    match createRole role.mBody, validateSingle env p community disableVerify role with
    | .error e, _ => (p, .error e)
    | .ok (), .error e => (p, .error e)
    | .ok (), .ok () =>
      let rounds := (p.findBlockchain community).mTransactionTriggerEvents.length
      let q := iterateWhile (processTransactionTrigger (createAndAdd env depth false) community
        role.mConfirmedAt) rounds p
      match confirm env q community role with
      | .error e => (q, .error e)
      | .ok tx =>
        let r := addToBlockchain env (q.findBlockchain community) tx
        (q.set community r.1, r.2)

/-- A depth that is enough: one more than the number of trigger events. -/
def depthBound (p : InMemoryProvider) (community : ℕ) : ℕ :=
  (p.findBlockchain community).mTransactionTriggerEvents.length + 1

end ConfirmTransaction

namespace InMemory

open ConfirmTransaction

/-- `InMemory::createAndAddConfirmedTransaction`. -/
def createAndAddConfirmedTransaction (env : Env) (p : InMemoryProvider) (community : ℕ)
    (tx : GradidoTransaction) (ledgerAnchor : LedgerAnchor) (confirmedAt : Timestamp) :
    InMemoryProvider × Except Exception Unit :=
  createAndAdd env (depthBound p community) false p community
    { mGradidoTransaction := tx, mLedgerAnchor := ledgerAnchor, mConfirmedAt := confirmedAt }

/-- `InMemory::createAndAddConfirmedTransactionExtern`, and with `disableVerify` also
`InMemory::createAndAddConfirmedTransactionExternFast`. -/
def createAndAddConfirmedTransactionExtern (env : Env) (disableVerify : Bool)
    (p : InMemoryProvider) (community : ℕ) (tx : GradidoTransaction) (ledgerAnchor : LedgerAnchor)
    (accountBalances : List AccountBalance) : InMemoryProvider × Except Exception Unit :=
  createAndAdd env (depthBound p community) disableVerify p community
    { mGradidoTransaction := tx
      mLedgerAnchor := ledgerAnchor
      mConfirmedAt := tx.body.createdAt
      mAccountBalances := some accountBalances }

end InMemory

end Gradido
