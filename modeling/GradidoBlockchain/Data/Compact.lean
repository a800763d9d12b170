import GradidoBlockchain.Data.Transaction
import GradidoBlockchain.Lib.Checked

/-!
# The compact form of a confirmed transaction

`compact::ConfirmedGradidoTx` is what the index and the balance search work on.
It is built in two steps from the rich transaction, and each step refuses what
the fixed-size form cannot hold: more than three balances, more than two memos,
a deferred transfer across communities or of more than `2^32` cents, and too
many keys for the list of involved addresses.
-/

namespace Gradido

open Checked

/-- `compact::AccountBalance`; the key belongs to the community of the chain. -/
structure CompactAccountBalance where
  balanceGddCent : ℤ
  coinCommunityIdIndex : ℕ
  publicKeyIndex : ℕ
deriving DecidableEq, Repr

/-- The union `specific` of `ConfirmedGradidoTx`. -/
inductive CompactSpecific
  | creation (amountGddCent : ℤ) (recipientPublicKeyIndex : ℕ) (targetMonthYear : ℤ × ℕ)
  | transfer (amountGddCent : ℤ) (senderPublicKeyIndex recipientPublicKeyIndex : ℕ)
  | deferredTransfer (amountGddCent : ℤ) (senderPublicKeyIndex recipientPublicKeyIndex : ℕ)
      (timeoutDurationSeconds : ℕ)
  | registerAddress (addressType : AddressType) (userPublicKeyIndex accountPublicKeyIndex : ℕ)
  | communityRoot (publicKeyIndex gmwPublicKeyIndex aufPublicKeyIndex : ℕ)
deriving DecidableEq, Repr

/-- `compact::ConfirmedGradidoTx` with the part of its cold data that is read again. -/
structure ConfirmedGradidoTx where
  txNr : ℕ
  confirmedAt : Timestamp
  txCommunityIdIndex : ℕ
  coinCommunityIdIndex : ℕ
  crossGroupType : CrossGroupType
  transactionType : TransactionType
  accountBalances : List CompactAccountBalance
  specific : CompactSpecific
  pairingTxCommunityIdIndex : ℕ
  signaturePublicKeys : List ℕ
deriving Repr

namespace ConfirmedGradidoTx

/-- The balances that `ConfirmedGradidoTx::fromGrdw` copies. -/
def compactBalances (env : Env) (communityIdIndex : ℕ) (tx : ConfirmedTransaction) :
    List CompactAccountBalance :=
  tx.accountBalances.map (fun b =>
    ⟨b.balance, b.coinCommunityIdIndex, env.dict.index communityIdIndex b.publicKey⟩)

/-- The loop of `fillFromGrdwTransactionBody` over the balances of a timeout: the position of the
only zero balance, `-1` without one and `-2` after a second one. -/
def timeoutSenderIdx : ℤ → ℤ → List CompactAccountBalance → ℤ
  | _, senderIdx, [] => senderIdx
  | i, senderIdx, b :: bs =>
    timeoutSenderIdx (i + 1)
      (if b.balanceGddCent = 0 then (if senderIdx = -1 then i else -2) else senderIdx) bs

/-- The timeout branch of `fillFromGrdwTransactionBody`.  Only a zero balance at position one is
taken as the sender; otherwise the deferred transfer is looked up. -/
def fillTimeout (env : Env) (getConfirmedTxForId : ℕ → Option ConfirmedGradidoTx)
    (balances : List CompactAccountBalance) (deferredTransferTransactionNr : ℕ)
    (confirmedAt : Timestamp) : Except Exception CompactSpecific :=
  match balances with
  | [b0, b1] =>
    if timeoutSenderIdx 0 (-1) balances > 0 then
      .ok (.transfer 0 b1.publicKeyIndex b0.publicKeyIndex)
    else fromDeferred
  | _ => fromDeferred
where
  /-- Sender, recipient and amount from the compact deferred transfer.  The amount is converted
  by way of a floating point number of coins, which cuts off the cents. -/
  fromDeferred : Except Exception CompactSpecific :=
    match getConfirmedTxForId deferredTransferTransactionNr with
    | none => .error (.gradidoNodeInvalidData "missing deferred transfer for timeout")
    | some d =>
      match d.specific with
      | .deferredTransfer amount sender recipient _ => do
        let decayed ← env.calculateDecay amount d.confirmedAt.getAsTimepoint
          confirmedAt.getAsTimepoint
        return .transfer (decayed.tdiv 10000) recipient sender
      | _ => .error (.nullDereference "timeout of a transaction that is no deferred transfer")

/-- The communities of sender and recipient in `fillFromGrdwTransactionBody`. -/
def communities (own : ℕ) (body : TransactionBody) : Except Exception (ℕ × ℕ) :=
  match body.type, body.otherCommunityIdIndex with
  | .localGroup, _ => .ok (own, own)
  | _, none =>
    .error (.gradidoNodeInvalidData "missing other community uuid on cross group transaction")
  | .outbound, some other => .ok (own, other)
  | .inbound, some other => .ok (other, own)
  | .cross, some _ =>
    .error (.gradidoUnhandledEnum "compact confirmed transaction from grdw, not implemented yet"
      "grdt_cross_group")

/-- The type-specific part of `fillFromGrdwTransactionBody`, with the coin community. -/
def fillSpecific (env : Env) (own sender recipient : ℕ)
    (getConfirmedTxForId : ℕ → Option ConfirmedGradidoTx)
    (balances : List CompactAccountBalance) (confirmedAt : Timestamp) (body : TransactionBody) :
    Except Exception (CompactSpecific × ℕ) :=
  match body.specific with
  | .timeoutDeferredTransfer nr => do
    let specific ← fillTimeout env getConfirmedTxForId balances nr confirmedAt
    return (specific, own)
  | .transfer t =>
    .ok (.transfer t.sender.amount (env.dict.index sender t.sender.publicKey)
      (env.dict.index recipient t.recipient), t.sender.coinCommunityIdIndex)
  | .creation c =>
    .ok (.creation c.recipient.amount (env.dict.index recipient c.recipient.publicKey)
      (secondsAsYearMonth c.targetDate), c.recipient.coinCommunityIdIndex)
  | .registerAddress r =>
    .ok (.registerAddress r.addressType (env.dict.index sender r.userPublicKey)
      (env.dict.index sender r.accountPublicKey), own)
  | .deferredTransfer d => do
    throwIf (decide (body.type ≠ .localGroup))
      (.gradidoNodeInvalidData "deferred transfer (currently) don't work cross community")
    throwIf (decide (¬ (0 ≤ d.transfer.sender.amount ∧ d.transfer.sender.amount < 2 ^ 32)))
      (.gradidoNodeInvalidData "deferred transfer amount exceed uint32_t (more than 429'496 GDD)")
    return (.deferredTransfer d.transfer.sender.amount
      (env.dict.index own d.transfer.sender.publicKey)
      (env.dict.index own d.transfer.recipient) d.timeoutDuration,
      d.transfer.sender.coinCommunityIdIndex)
  | .redeemDeferredTransfer r =>
    .ok (.transfer r.transfer.sender.amount (env.dict.index sender r.transfer.sender.publicKey)
      (env.dict.index recipient r.transfer.recipient), r.transfer.sender.coinCommunityIdIndex)
  | .communityRoot r =>
    .ok (.communityRoot (env.dict.index sender r.publicKey) (env.dict.index sender r.gmwPublicKey)
      (env.dict.index sender r.aufPublicKey), own)
  | .communityFriendsUpdate _ =>
    .error (.gradidoUnhandledEnum "on ConfirmedGradidoTx::fromGrdw" "grdt_transaction")
  | .none => .error (.gradidoUnhandledEnum "on ConfirmedGradidoTx::fromGrdw" "grdt_transaction")

/-- `ConfirmedGradidoTx::fromGrdw` followed by `fillFromGrdwTransactionBody`, as
`pushTransactionEntry` calls them. -/
def fromConfirmedTransaction (env : Env) (own : ℕ)
    (getConfirmedTxForId : ℕ → Option ConfirmedGradidoTx) (tx : ConfirmedTransaction) :
    Except Exception ConfirmedGradidoTx := do
  throwIf (decide (3 < tx.accountBalances.length)) (.gradidoNotImplemented
    "more than 3 account balances, currently not supported from compact::ConfirmedGradidoTx")
  let balances := compactBalances env own tx
  let (sender, recipient) ← communities own tx.body
  let (specific, coin) ←
    fillSpecific env own sender recipient getConfirmedTxForId balances tx.confirmedAt tx.body
  throwIf (decide (2 < tx.body.memos.length))
    (.gradidoNotImplemented "memo count is more than expected")
  return {
    txNr := tx.id
    confirmedAt := tx.confirmedAt
    txCommunityIdIndex := own
    coinCommunityIdIndex := coin
    crossGroupType := tx.body.type
    transactionType := tx.body.transactionType
    accountBalances := balances
    specific := specific
    pairingTxCommunityIdIndex :=
      if tx.gradidoTransaction.pairingLedgerAnchor.empty then 0
      else tx.body.otherCommunityIdIndex.getD 0
    signaturePublicKeys :=
      tx.gradidoTransaction.signatureMap.signaturePairs.map SignaturePair.publicKey }

/-! ### Addresses -/

/-- `ConfirmedGradidoTx::getSender`. -/
def getSender (tx : ConfirmedGradidoTx) : PublicKeyIndex :=
  let idx := match tx.specific with
    | .transfer _ sender _ => sender
    | .deferredTransfer _ sender _ _ => sender
    | _ => 0
  if idx = 0 then ⟨0, 0⟩
  else if tx.crossGroupType = .inbound then ⟨tx.pairingTxCommunityIdIndex, idx⟩
  else ⟨tx.txCommunityIdIndex, idx⟩

/-- `ConfirmedGradidoTx::getRecipient`. -/
def getRecipient (tx : ConfirmedGradidoTx) : PublicKeyIndex :=
  let idx := match tx.specific with
    | .creation _ recipient _ => recipient
    | .transfer _ _ recipient => recipient
    | .deferredTransfer _ _ recipient _ => recipient
    | _ => 0
  if idx = 0 then ⟨0, 0⟩
  else if tx.crossGroupType = .outbound then ⟨tx.pairingTxCommunityIdIndex, idx⟩
  else ⟨tx.txCommunityIdIndex, idx⟩

/-- The addresses that `getInvolvedAddresses` takes from the body. -/
def bodyAddresses (tx : ConfirmedGradidoTx) : List PublicKeyIndex :=
  match tx.specific with
  | .transfer _ _ _ => [tx.getSender, tx.getRecipient]
  | .deferredTransfer _ _ _ _ => [tx.getSender, tx.getRecipient]
  | .creation _ _ _ => [tx.getRecipient]
  | .registerAddress _ user account =>
    [⟨tx.txCommunityIdIndex, user⟩, ⟨tx.txCommunityIdIndex, account⟩]
  | .communityRoot root gmw auf =>
    [⟨tx.txCommunityIdIndex, root⟩, ⟨tx.txCommunityIdIndex, auf⟩, ⟨tx.txCommunityIdIndex, gmw⟩]

/-- The addresses of the balances. -/
def balanceAddresses (tx : ConfirmedGradidoTx) : List PublicKeyIndex :=
  tx.accountBalances.map (fun b => ⟨tx.txCommunityIdIndex, b.publicKeyIndex⟩)

/-- The addresses of the signers. -/
def signatureAddresses (env : Env) (tx : ConfirmedGradidoTx) : List PublicKeyIndex :=
  tx.signaturePublicKeys.map (fun k => env.dict.toPublicKeyIndex k tx.txCommunityIdIndex)

/-- `ConfirmedGradidoTx::getInvolvedAddresses`: an array of nine is filled with the keys of the
balances, the signers and the body; the order of the result does not matter to its callers. -/
def getInvolvedAddresses (env : Env) (tx : ConfirmedGradidoTx) :
    Except Exception (List PublicKeyIndex) := do
  let balances := tx.accountBalances.length
  let signatures := tx.signaturePublicKeys.length
  throwIf (decide (9 ≤ balances))
    (.gradidoNodeInvalidData "more public key as expected in account balances")
  throwIf (decide (0 < signatures ∧ 9 ≤ balances + signatures))
    (.gradidoNodeInvalidData "more public key as expected in signature map + account balances")
  throwIf (decide (9 ≤ balances + signatures + 3))
    (.gradidoNodeInvalidData
      "more public key as expected in signature map + account balances + body")
  return ((tx.balanceAddresses ++ tx.signatureAddresses env ++ tx.bodyAddresses).dedup).filter
    (fun k => !k.empty)

/-- `ConfirmedGradidoTx::isSignaturePublicKey`. -/
def isSignaturePublicKey (env : Env) (tx : ConfirmedGradidoTx) (k : PublicKeyIndex) : Bool :=
  decide (k.communityIdIndex = tx.txCommunityIdIndex) &&
    tx.signaturePublicKeys.any (fun key =>
      decide (env.dict.index tx.txCommunityIdIndex key = k.publicKeyIndex))

/-- `ConfirmedGradidoTx::isBalanceUpdated`. -/
def isBalanceUpdated (tx : ConfirmedGradidoTx) (k : PublicKeyIndex) : Bool :=
  tx.accountBalances.any (fun b =>
    decide (b.publicKeyIndex = k.publicKeyIndex) &&
      decide (k.communityIdIndex = tx.txCommunityIdIndex))

/-- `ConfirmedGradidoTx::getOtherInvolved`. -/
def getOtherInvolved (tx : ConfirmedGradidoTx) : List PublicKeyIndex :=
  match tx.crossGroupType with
  | .localGroup =>
    match tx.specific with
    | .communityRoot root _ _ => [⟨tx.txCommunityIdIndex, root⟩]
    | _ => []
  | .inbound => [tx.getSender]
  | .outbound => [tx.getRecipient]
  | .cross => []

/-- `ConfirmedGradidoTx::isOtherInvolved`. -/
def isOtherInvolved (tx : ConfirmedGradidoTx) (k : PublicKeyIndex) : Bool :=
  decide (k ∈ tx.getOtherInvolved)

/-- `ConfirmedGradidoTx::isInvolved`: a number that belongs to no key of the dictionary makes the
comparison with the signers throw, so it is not involved either. -/
def isInvolved (env : Env) (tx : ConfirmedGradidoTx) (k : PublicKeyIndex) : Bool :=
  !k.empty && (tx.isBalanceUpdated k || decide (k ∈ tx.bodyAddresses) ||
    tx.isSignaturePublicKey env k)

/-- `ConfirmedGradidoTx::hasCoinsFromCommunity`. -/
def hasCoinsFromCommunity (tx : ConfirmedGradidoTx) (coinColorCommunityId : ℕ) : Bool :=
  tx.accountBalances.any (fun b => decide (b.coinCommunityIdIndex = coinColorCommunityId))

/-! ### Amounts -/

/-- `ConfirmedGradidoTx::getAmount`. -/
def getAmount (tx : ConfirmedGradidoTx) : ℤ :=
  match tx.transactionType, tx.specific with
  | .transfer, .transfer amount _ _ => amount
  | .redeemDeferredTransfer, .transfer amount _ _ => amount
  | .deferredTransfer, .deferredTransfer amount _ _ _ => amount
  | .creation, .creation amount _ _ => amount
  | _, _ => 0

/-- The amount and the date of `ConfirmedGradidoTx::getAccountBalance`; coin zero stands for any
coin.  Without an entry the balance is zero and dated to the epoch. -/
def getAccountBalance (tx : ConfirmedGradidoTx) (k : PublicKeyIndex) (coin : ℕ) : ℤ × Timestamp :=
  if k.communityIdIndex ≠ tx.txCommunityIdIndex then (0, ⟨0, 0⟩)
  else
    match tx.accountBalances.find? (fun b => decide (b.publicKeyIndex = k.publicKeyIndex) &&
        (decide (coin = 0) || decide (coin = b.coinCommunityIdIndex))) with
    | some b => (b.balanceGddCent, tx.confirmedAt)
    | none => (0, ⟨0, 0⟩)

end ConfirmedGradidoTx

/-- `rich::AccountBalance::getDecayedAmount`. -/
def getDecayedAmount (env : Env) (balance : ℤ × Timestamp) (endDate : Timestamp) :
    Except Exception ℤ :=
  env.calculateDecay balance.1 balance.2.getAsTimepoint endDate.getAsTimepoint

end Gradido
