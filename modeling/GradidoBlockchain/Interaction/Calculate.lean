import GradidoBlockchain.Blockchain.InMemory
import GradidoBlockchain.Data.YearMonth

/-!
# Balances and creation sums

`interaction::calculateAccountBalance::Context`: `fromEnd`, the balance of an
account at a date as the validation reads it from the chain, and `fromBegin`,
which computes it again from the transactions.  And
`interaction::calculateCreationSum`, the sum of the creations of an account
that count against its limit.
-/

namespace Gradido

open Checked

/-! ### Account balances -/

namespace CalculateAccountBalance

/-- The element filter of `fromEnd`: the first transaction not after the end date decides. -/
def fromEndFilter (env : Env) (endDate : Timestamp) (k : PublicKeyIndex) (coin : ℕ) (sum : ℤ)
    (tx : ConfirmedGradidoTx) : Except Exception (ℤ × FilterResult) :=
  if tx.confirmedAt.gt endDate then .ok (sum, .DISMISS)
  else do
    let amount ← getDecayedAmount env (tx.getAccountBalance k coin) endDate
    return (amount, .STOP)

/-- `Context::fromEnd(publicKeyIndex)`. -/
def fromEndIndex (env : Env) (s : InMemory) (k : PublicKeyIndex) (endDate : Timestamp)
    (coin : Option ℕ) (maxTransactionNr : ℕ) : Except Exception ℤ := do
  let interval ← TimepointInterval.make 0 endDate.getAsTimepoint
  let filter : CompactFilter :=
    { CompactFilter.lastBalanceFor k with
      maxTransactionNr := maxTransactionNr
      coinCommunityIdIndex := coin.getD 0
      timepointInterval := interval }
  s.forEachCompact filter (fromEndFilter env endDate k (coin.getD 0)) 0

/-- `Context::fromEnd(publicKey)`. -/
def fromEnd (env : Env) (s : InMemory) (publicKey : ℕ) (endDate : Timestamp) (coin : Option ℕ)
    (maxTransactionNr : ℕ) : Except Exception ℤ := do
  throwIf (decide (publicKey = 0)) (.gradidoNullPointer "empty publicKey" "ConstBlockPtr")
  fromEndIndex env s (env.dict.toPublicKeyIndex publicKey s.mCommunityIdIndex) endDate coin
    maxTransactionNr

/-! #### Replaying the transactions -/

/-- The roles of `interaction::calculateAccountBalance`, each with the body that it was created for.
The roles of a redeem and of a timeout also keep what they have read of the deferred transfer. -/
inductive AbstractRole
  | gradidoCreation (mBody : TransactionBody) (communityIdIndex : ℕ)
  | gradidoTransfer (mBody : TransactionBody)
  | registerAddress (mBody : TransactionBody)
  | gradidoDeferredTransfer (mBody : TransactionBody)
  | gradidoRedeemDeferredTransfer (mBody : TransactionBody)
      (mDeferredTransfer : Option GradidoDeferredTransfer)
      (mDeferredTransferConfirmedAt mRedeemTransferConfirmedAt : ℤ)
  | gradidoTimeoutDeferredTransfer (mBody : TransactionBody)
      (mDeferredTransfer : Option GradidoDeferredTransfer)

namespace AbstractRole

/-- `AbstractRole::getTransferAmount`, overridden by the role of a timeout. -/
def getTransferAmount : AbstractRole → Except Exception TransferAmount
  | gradidoTimeoutDeferredTransfer _ mDeferredTransfer => do
    let d ← orThrow mDeferredTransfer (.nullDereference "mDeferredTransfer")
    return d.transfer.sender
  | gradidoCreation mBody _ => mBody.getTransferAmount
  | gradidoTransfer mBody => mBody.getTransferAmount
  | registerAddress mBody => mBody.getTransferAmount
  | gradidoDeferredTransfer mBody => mBody.getTransferAmount
  | gradidoRedeemDeferredTransfer mBody _ _ _ => mBody.getTransferAmount

/-- `getRecipient` of each role; a registration has none. -/
def getRecipient : AbstractRole → Except Exception (Option ℕ)
  | gradidoCreation mBody _ => do
    let c ← orThrow mBody.getCreation (.nullDereference "getCreation")
    return some c.recipient.publicKey
  | gradidoTransfer mBody => do
    let t ← orThrow mBody.getTransfer (.nullDereference "getTransfer")
    return some t.recipient
  | registerAddress _ => return none
  | gradidoDeferredTransfer mBody => do
    let d ← orThrow mBody.getDeferredTransfer (.nullDereference "getDeferredTransfer")
    return some d.transfer.recipient
  | gradidoRedeemDeferredTransfer mBody _ _ _ => do
    let r ← orThrow mBody.getRedeemDeferredTransfer (.nullDereference "getRedeemDeferredTransfer")
    return some r.transfer.recipient
  | gradidoTimeoutDeferredTransfer _ mDeferredTransfer => do
    let d ← orThrow mDeferredTransfer (.nullDereference "mDeferredTransfer")
    return some d.transfer.sender.publicKey

/-- `getRecipient()->isTheSame(accountPublicKey)`. -/
def isRecipient (role : AbstractRole) (accountPublicKey : ℕ) : Except Exception Bool := do
  let recipient ← orThrow (← role.getRecipient) (.nullDereference "getRecipient")
  return decide (recipient = accountPublicKey)

/-- `GradidoTimeoutDeferredTransferRole::calculateRestAmount`. -/
def calculateRestAmount (env : Env) (role : AbstractRole)
    (mDeferredTransfer : Option GradidoDeferredTransfer) : Except Exception ℤ := do
  let amount ← role.getTransferAmount
  let d ← orThrow mDeferredTransfer (.nullDereference "mDeferredTransfer")
  return env.decay amount.amount d.timeoutDuration

/-- `getAmountAdded` of each role. -/
def getAmountAdded (env : Env) (s : InMemory) (role : AbstractRole) (accountPublicKey : ℕ) :
    Except Exception ℤ :=
  match role with
  | gradidoCreation _ communityIdIndex => do
    if ← role.isRecipient accountPublicKey then return (← role.getTransferAmount).amount
    else
      let first ← orThrow (← s.findOne env .FIRST_TRANSACTION)
        (.nullDereference "firstTransactionEntry")
      let root ← orThrow first.body.getCommunityRoot (.nullDereference "communityRoot")
      let rootCommunity := first.gradidoTransaction.communityIdIndex
      let accountPublicKeyIndex := env.dict.index communityIdIndex accountPublicKey
      if env.dict.index rootCommunity root.aufPublicKey = accountPublicKeyIndex ∨
          env.dict.index rootCommunity root.gmwPublicKey = accountPublicKeyIndex then
        return (← role.getTransferAmount).amount
      else return 0
  | registerAddress _ => return 0
  | gradidoTransfer _ | gradidoDeferredTransfer _ => do
    if ← role.isRecipient accountPublicKey then return (← role.getTransferAmount).amount
    else return 0
  | gradidoRedeemDeferredTransfer _ mDeferredTransfer mDeferredTransferConfirmedAt
      mRedeemTransferConfirmedAt => do
    if ← role.isRecipient accountPublicKey then return (← role.getTransferAmount).amount
    else
      -- the rest is booked back to the sender of the deferred transfer
      let d ← orThrow mDeferredTransfer (.nullDereference "mDeferredTransfer")
      if d.transfer.sender.publicKey = accountPublicKey then
        let decayed ← env.calculateDecay d.transfer.sender.amount mDeferredTransferConfirmedAt
          mRedeemTransferConfirmedAt
        return decayed - (← role.getTransferAmount).amount
      else return 0
  | gradidoTimeoutDeferredTransfer _ mDeferredTransfer => do
    if ← role.isRecipient accountPublicKey then role.calculateRestAmount env mDeferredTransfer
    else return 0

/-- `getAmountCost` of each role. -/
def getAmountCost (env : Env) (role : AbstractRole) (accountPublicKey : ℕ) : Except Exception ℤ :=
  match role with
  | gradidoCreation _ _ | registerAddress _ => return 0
  | gradidoTransfer _ | gradidoDeferredTransfer _ | gradidoRedeemDeferredTransfer _ _ _ _ => do
    let amount ← role.getTransferAmount
    return if amount.publicKey = accountPublicKey then amount.amount else 0
  | gradidoTimeoutDeferredTransfer _ mDeferredTransfer => do
    let amount ← role.getTransferAmount
    if amount.publicKey = accountPublicKey then role.calculateRestAmount env mDeferredTransfer
    else return 0

end AbstractRole

/-- `Context::getRole`.  The table has no place for the type `none`, and its last place is an empty
function.  The functions of the table are created by the first call and refer to its arguments; this
is that call. -/
def getRole (s : InMemory) (body : TransactionBody) (communityIdIndex : ℕ) (confirmedAt : ℤ) :
    Except Exception (Option AbstractRole) :=
  match body.transactionType.enumInteger with
  | 0 => return some (.gradidoCreation body communityIdIndex)
  | 1 => return some (.gradidoTransfer body)
  | 2 => return none
  | 3 => return some (.registerAddress body)
  | 4 => return some (.gradidoDeferredTransfer body)
  | 5 => return none
  | 6 => do
    let r ← orThrow body.getRedeemDeferredTransfer (.nullDereference "getRedeemDeferredTransfer")
    let entry ← orThrow (s.mTransactionsByNr r.deferredTransferTransactionNr)
      (.nullDereference "transactionEntry")
    return some (.gradidoRedeemDeferredTransfer body entry.body.getDeferredTransfer
      entry.confirmedAt.getAsTimepoint confirmedAt)
  | 7 => do
    let nr ← orThrow body.getTimeoutDeferredTransfer (.nullDereference "getTimeoutDeferredTransfer")
    let entry ← orThrow (s.mTransactionsByNr nr) (.nullDereference "transactionEntry")
    return some (.gradidoTimeoutDeferredTransfer body entry.body.getDeferredTransfer)
  | _ => .error .badFunctionCall

/-- What a role adds to the balance of an account. -/
def roleAmount (env : Env) (s : InMemory) (tx : ConfirmedTransaction) (publicKey : ℕ) :
    Except Exception ℤ := do
  let role ← orThrow (← getRole s tx.body tx.gradidoTransaction.communityIdIndex
    tx.confirmedAt.getAsTimepoint) (.nullDereference "role")
  return (← role.getAmountAdded env s publicKey) - (← role.getAmountCost env publicKey)

/-- The filter function of `fromBegin`, which changes the balance and the last date. -/
def fromBeginFilter (env : Env) (s : InMemory) (publicKey : ℕ) (endDate : ℤ) (coin : ℕ)
    (acc : ℤ × ℤ) (tx : ConfirmedTransaction) : Except Exception ((ℤ × ℤ) × FilterResult) :=
  let confirmedAt := tx.confirmedAt.getAsTimepoint
  if confirmedAt > endDate then .ok (acc, .STOP)
  else if acc.1 = 0 then
    .ok ((tx.getAccountBalance publicKey (some coin), confirmedAt), .DISMISS)
  else do
    let amount ← roleAmount env s tx publicKey
    let decayed ← env.calculateDecay acc.1 acc.2 confirmedAt
    return ((decayed + amount, confirmedAt), .DISMISS)

/-- `Context::fromBegin`. -/
def fromBegin (env : Env) (s : InMemory) (startTransactionNr publicKey : ℕ) (endDate : ℤ)
    (coin : Option ℕ) : Except Exception ℤ := do
  let ((balance, lastDate), _) ← s.findAllInto env
    { minTransactionNr := startTransactionNr
      updatedBalancePublicKey := some publicKey
      searchDirection := .asc
      coinCommunityIdIndex := coin }
    (fromBeginFilter env s publicKey endDate (coin.getD s.mCommunityIdIndex)) (0, 0)
  env.calculateDecay balance lastDate endDate

end CalculateAccountBalance

/-! ### Creation sums -/

namespace CalculateCreationSum

/-- The length of `date::months(1)`, the average month, as a time point difference. -/
def averageMonth : ℤ := 2629746 * microsecondsPerSecond

/-- `getTargetDateReceivedDistanceMonth`, in months; the validation has the same function. -/
def getTargetDateReceivedDistanceMonth (createdAt : ℤ) : ℕ :=
  let secondsSinceEpoch := createdAt.tdiv microsecondsPerSecond
  if secondsSinceEpoch > 1585544394 ∧ secondsSinceEpoch < 1641681224 then 3 else 2

/-- The filter that both algorithms search with. -/
def creationFilter (k : PublicKeyIndex) (interval : TimepointInterval) (transactionNrMax : ℕ) :
    CompactFilter :=
  { maxTransactionNr := transactionNrMax
    publicKeyIndex := k
    publicKeySearchType := .balanceChangingPublicKey
    timepointInterval := interval
    transactionType := .creation }

/-- The element filter of `V02_TargetDateAlgoRole::run`. -/
def targetMonthFilter (ym : ℤ × ℕ) (sum : ℤ) (tx : ConfirmedGradidoTx) :
    Except Exception (ℤ × FilterResult) :=
  match tx.specific with
  | .creation _ _ targetMonthYear =>
    .ok (if targetMonthYear = ym then sum + tx.getAmount else sum, .DISMISS)
  | _ => .error (.gradidoNullPointer "transaction isn't creation or invalid" "GradidoCreation")

/-- `V02_TargetDateAlgoRole::run`: the creations for the target month that were confirmed in the
last two or three average months. -/
def targetDateAlgo (s : InMemory) (date targetDate : ℤ) (k : PublicKeyIndex)
    (transactionNrMax : ℕ) : Except Exception ℤ := do
  let interval ← TimepointInterval.make
    (date - getTargetDateReceivedDistanceMonth date * averageMonth) date
  s.forEachCompact (creationFilter k interval transactionNrMax)
    (targetMonthFilter (timepointAsYearMonth targetDate)) 0

/-- The difference of two months of the `date` library, from zero to eleven. -/
def monthMinusMonth (a b : ℕ) : ℤ := ((a : ℤ) - b) % 12

/-- `month - months(n)` of the `date` library. -/
def monthMinusMonths (a : ℕ) (n : ℕ) : ℤ := ((a : ℤ) - 1 - n) % 12 + 1

/-- `year_month - months(n)` of the `date` library. -/
def yearMonthMinusMonths (ym : ℤ × ℕ) (n : ℕ) : ℤ × ℕ :=
  let m := ym.1 * 12 + ((ym.2 : ℤ) - 1) - n
  (m / 12, (m % 12 + 1).toNat)

/-- The element filter of `V01_ThreeMonthsAlgoRole::run`. -/
def threeMonthsFilter (dateYM : ℤ × ℕ) (sum : ℤ) (tx : ConfirmedGradidoTx) :
    Except Exception (ℤ × FilterResult) :=
  match tx.specific with
  | .creation _ _ _ =>
    let confirmed := timepointAsYearMonthDay tx.confirmedAt.getAsTimepoint
    .ok (if (confirmed.year = dateYM.1 ∧ monthMinusMonth dateYM.2 confirmed.month ≤ 2) ∨
          (dateYM.1 - confirmed.year = 1 ∧ monthMinusMonths confirmed.month 10 = dateYM.2)
        then sum + tx.getAmount else sum, .DISMISS)
  | _ => .error (.gradidoNullPointer "transaction isn't creation or invalid" "GradidoCreation")

/-- `V01_ThreeMonthsAlgoRole::run`. -/
def threeMonthsAlgo (s : InMemory) (date : ℤ) (k : PublicKeyIndex) (transactionNrMax : ℕ) :
    Except Exception ℤ := do
  let dateYM := timepointAsYearMonth date
  let interval ← TimepointInterval.make
    (monthYearToTimepoint (yearMonthMinusMonths dateYM 2)) (monthYearToTimepoint dateYM)
  s.forEachCompact (creationFilter k interval transactionNrMax) (threeMonthsFilter dateYM) 0

/-- Whether `Context` chooses `V02_TargetDateAlgoRole` for a date. -/
def usesTargetDateAlgo (date : ℤ) : Bool :=
  decide (1588503608 ≤ date.tdiv microsecondsPerSecond)

/-- `Context::run`. -/
def run (s : InMemory) (date targetDate : ℤ) (k : PublicKeyIndex) (transactionNrMax : ℕ) :
    Except Exception ℤ :=
  if usesTargetDateAlgo date then targetDateAlgo s date targetDate k transactionNrMax
  else threeMonthsAlgo s date k transactionNrMax

/-- `Context::getLimit`, in cents: 1000 GDD a month, before that 3000 GDD for three months. -/
def getLimit (date : ℤ) : ℤ := if usesTargetDateAlgo date then 10000000 else 30000000

end CalculateCreationSum

end Gradido
