import GradidoBlockchain.Interaction.ConfirmTransaction
import GradidoBlockchain.Lib.Traced

/-!
# Arithmetic with 64 bits

A `GradidoUnit` is an `int64_t`; its operators do not check for an overflow.
Here the balances of a new transaction and `validatePrevious` are computed once
more, recording the exact result of every addition, subtraction and negation.
`result_calculateAccountBalances` says that the record changes nothing.
-/

namespace Gradido

open Checked Traced

namespace GradidoUnit

/-- `std::numeric_limits<int64_t>::min()`. -/
def minValue : ℤ := -9223372036854775808

/-- `std::numeric_limits<int64_t>::max()`. -/
def maxValue : ℤ := 9223372036854775807

/-- A number that a `GradidoUnit` can hold. -/
def Fits (x : ℤ) : Prop := minValue ≤ x ∧ x ≤ maxValue

instance (x : ℤ) : Decidable (Fits x) :=
  inferInstanceAs (Decidable (_ ∧ _))

/-- Computations that record the results of their operators. -/
abbrev Recorded (α : Type) := Traced Exception ℤ α

/-- `operator+`. -/
def add (a b : ℤ) : Recorded ℤ := noted (a + b)

/-- `operator-`. -/
def sub (a b : ℤ) : Recorded ℤ := noted (a - b)

/-- `negated`. -/
def negated (a : ℤ) : Recorded ℤ := noted (-a)

@[simp] theorem result_add (a b : ℤ) : (add a b).result = .ok (a + b) := rfl
@[simp] theorem result_sub (a b : ℤ) : (sub a b).result = .ok (a - b) := rfl
@[simp] theorem result_negated (a : ℤ) : (negated a).result = .ok (-a) := rfl

@[simp] theorem keeps_add {P : ℤ → Prop} (a b : ℤ) : (add a b).Keeps P ↔ P (a + b) :=
  keeps_noted _

@[simp] theorem keeps_sub {P : ℤ → Prop} (a b : ℤ) : (sub a b).Keeps P ↔ P (a - b) :=
  keeps_noted _

@[simp] theorem keeps_negated {P : ℤ → Prop} (a : ℤ) : (negated a).Keeps P ↔ P (-a) :=
  keeps_noted _

end GradidoUnit

open GradidoUnit

/-- `GradidoTransferRole::validatePrevious`. -/
def Validate.recordPrevious (env : Env) (s : InMemory) (transfer : GradidoTransfer)
    (confirmedAt : Timestamp) (previous : ConfirmedTransaction) : Recorded Unit := do
  let finalBalance ← lift (CalculateAccountBalance.fromEnd env s transfer.sender.publicKey
    confirmedAt (some transfer.sender.coinCommunityIdIndex) previous.id)
  let limit ← add finalBalance 100
  lift (throwIf (decide (transfer.sender.amount > limit))
    (.insufficientBalance "not enough Gradido Balance for send coins" transfer.sender.amount
      finalBalance))

namespace ConfirmTransaction

/-- The end of both functions `calculateAccountBalance`. -/
def recordBalance (previousDecayedAccountBalance amount : ℤ) : Recorded ℤ := do
  let newBalance ← add previousDecayedAccountBalance amount
  if newBalance < 0 then
    let tolerated ← add newBalance 100
    if tolerated < 0 then
      lift (.error (.insufficientBalance "not enough Gradido Balance for operation" amount
        previousDecayedAccountBalance))
    else return 0
  else return newBalance

/-- `AbstractRole::calculateAccountBalance(publicKey)`. -/
def recordAccountBalance (env : Env) (s : InMemory) (confirmedAt : Timestamp)
    (publicKey : ℕ) (amount : ℤ) (coinCommunityIdIndex : ℕ) : Recorded AccountBalance := do
  let previous ← lift (previousDecayedAccountBalance env s confirmedAt publicKey
    coinCommunityIdIndex)
  let newBalance ← recordBalance previous amount
  return ⟨publicKey, newBalance, coinCommunityIdIndex⟩

/-- `CreationTransactionRole::accountBalanceFromPublicKeyIndex`. -/
def recordIndexBalance (env : Env) (s : InMemory) (confirmedAt : Timestamp)
    (publicKeyIndex : ℕ) (amount : ℤ) (coinCommunityIdIndex : ℕ) : Recorded AccountBalance := do
  let previous ← lift (previousDecayedCompactBalance env s confirmedAt
    ⟨s.mCommunityIdIndex, publicKeyIndex⟩ coinCommunityIdIndex)
  let newBalance ← recordBalance previous amount
  return ⟨env.dict.key s.mCommunityIdIndex publicKeyIndex, newBalance, coinCommunityIdIndex⟩

/-- `CreationTransactionRole::calculateAccountBalances`. -/
def recordCreation (env : Env) (s : InMemory) (confirmedAt : Timestamp) (c : GradidoCreation) :
    Recorded (List AccountBalance) := do
  let t := c.recipient
  let found ← lift (s.findOne env .FIRST_TRANSACTION)
  let first ← lift (orThrow found (.nullDereference "first transaction"))
  let root ← lift (orThrow first.body.getCommunityRoot
    (.gradidoNodeInvalidData "invalid first transaction, expect community root tx"))
  let rootCommunity := first.gradidoTransaction.communityIdIndex
  let recipient ← recordAccountBalance env s confirmedAt t.publicKey t.amount
    t.coinCommunityIdIndex
  let gmw ← recordIndexBalance env s confirmedAt
    (env.dict.index rootCommunity root.gmwPublicKey) t.amount t.coinCommunityIdIndex
  let auf ← recordIndexBalance env s confirmedAt
    (env.dict.index rootCommunity root.aufPublicKey) t.amount t.coinCommunityIdIndex
  return [recipient, gmw, auf]

/-- `TransferTransactionRole::calculateAccountBalances`. -/
def recordTransfer (env : Env) (s : InMemory) (confirmedAt : Timestamp) (type : CrossGroupType)
    (t : GradidoTransfer) : Recorded (List AccountBalance) :=
  let coin := t.sender.coinCommunityIdIndex
  match type with
  | .localGroup => do
    let debit ← negated t.sender.amount
    let sender ← recordAccountBalance env s confirmedAt t.sender.publicKey debit coin
    let recipient ← recordAccountBalance env s confirmedAt t.recipient t.sender.amount coin
    return [sender, recipient]
  | .outbound => do
    let debit ← negated t.sender.amount
    let sender ← recordAccountBalance env s confirmedAt t.sender.publicKey debit coin
    return [sender]
  | .inbound => do
    let recipient ← recordAccountBalance env s confirmedAt t.recipient t.sender.amount coin
    return [recipient]
  | .cross => lift (.error (.gradidoUnhandledEnum
      "interaction::confirmTransaction transfer account balance" "grdt_cross_group"))

/-- `DeferredTransferTransactionRole::calculateAccountBalances`. -/
def recordDeferredTransfer (env : Env) (s : InMemory) (confirmedAt : Timestamp)
    (d : GradidoDeferredTransfer) : Recorded (List AccountBalance) := do
  let t := d.transfer
  let debit ← negated t.sender.amount
  let sender ← recordAccountBalance env s confirmedAt t.sender.publicKey debit
    t.sender.coinCommunityIdIndex
  let recipient ← recordAccountBalance env s confirmedAt t.recipient t.sender.amount
    t.sender.coinCommunityIdIndex
  return [sender, recipient]

/-- `RedeemDeferredTransferTransactionRole::calculateAccountBalances`. -/
def recordRedeem (env : Env) (s : InMemory) (confirmedAt : Timestamp) (type : CrossGroupType)
    (r : GradidoRedeemDeferredTransfer) : Recorded (List AccountBalance) := do
  let t := r.transfer
  let coin := t.sender.coinCommunityIdIndex
  let entry ← lift (orThrow (s.mTransactionsByNr r.deferredTransferTransactionNr)
    (.gradidoNullPointer "invalid deferred tx" "TransactionEntry"))
  let d ← lift (orThrow entry.body.getDeferredTransfer (.nullDereference "deferred transfer"))
  let decayed ← lift (env.calculateDecay d.transfer.sender.amount entry.confirmedAt.getAsTimepoint
    confirmedAt.getAsTimepoint)
  let change ← sub decayed t.sender.amount
  if t.recipient = d.transfer.sender.publicKey then
    let recipient ← recordAccountBalance env s confirmedAt t.recipient decayed coin
    return [⟨t.sender.publicKey, 0, coin⟩, recipient]
  else
    match type with
    | .localGroup =>
      let recipient ← recordAccountBalance env s confirmedAt t.recipient t.sender.amount coin
      let sender ← recordAccountBalance env s confirmedAt d.transfer.sender.publicKey change coin
      return [⟨t.sender.publicKey, 0, coin⟩, recipient, sender]
    | .outbound =>
      let sender ← recordAccountBalance env s confirmedAt d.transfer.sender.publicKey change coin
      return [⟨t.sender.publicKey, 0, coin⟩, sender]
    | .inbound =>
      let recipient ← recordAccountBalance env s confirmedAt t.recipient t.sender.amount coin
      return [recipient]
    | .cross => lift (.error (.gradidoUnhandledEnum
        "interaction::confirmTransaction redeem deferred transfer account balance"
        "grdt_cross_group"))

/-- `TimeoutDeferredTransferTransactionRole::calculateAccountBalances`. -/
def recordTimeout (env : Env) (s : InMemory) (confirmedAt : Timestamp)
    (deferredTransferTransactionNr : ℕ) : Recorded (List AccountBalance) := do
  let entry ← lift (orThrow (s.mTransactionsByNr deferredTransferTransactionNr)
    (.nullDereference "deferred transfer entry"))
  let d ← lift (orThrow entry.body.getDeferredTransfer (.nullDereference "deferred transfer"))
  let coin := d.transfer.sender.coinCommunityIdIndex
  let decayed ← lift (env.calculateDecay d.transfer.sender.amount entry.confirmedAt.getAsTimepoint
    confirmedAt.getAsTimepoint)
  let sender ← recordAccountBalance env s confirmedAt d.transfer.sender.publicKey decayed coin
  return [sender, ⟨d.transfer.recipient, 0, coin⟩]

/-- `calculateAccountBalances` of the role that `createRole` chooses. -/
def recordAccountBalances (env : Env) (s : InMemory) (confirmedAt : Timestamp)
    (body : TransactionBody) : Recorded (List AccountBalance) :=
  match body.specific with
  | .communityRoot r => pure (communityRootBalances s r)
  | .registerAddress r => pure (registerAddressBalances s r)
  | .creation c => recordCreation env s confirmedAt c
  | .transfer t => recordTransfer env s confirmedAt body.type t
  | .deferredTransfer d => recordDeferredTransfer env s confirmedAt d
  | .redeemDeferredTransfer r => recordRedeem env s confirmedAt body.type r
  | .timeoutDeferredTransfer nr => recordTimeout env s confirmedAt nr
  | .communityFriendsUpdate _ => pure []
  | .none => pure []

/-! ### The record changes nothing -/

section Results

variable {env : Env} {s : InMemory} {confirmedAt : Timestamp}

@[simp] theorem result_recordBalance (previous amount : ℤ) :
    (recordBalance previous amount).result = addToBalance previous amount := by
  unfold recordBalance addToBalance
  rw [result_bind, result_add, ok_bind]
  dsimp only
  split_ifs with hneg hlimit
  · rw [result_bind, result_add, ok_bind, if_pos hlimit]
    rfl
  · rw [result_bind, result_add, ok_bind, if_neg hlimit]
    rfl
  · rfl

@[simp] theorem result_recordAccountBalance (publicKey : ℕ) (amount : ℤ) (coin : ℕ) :
    (recordAccountBalance env s confirmedAt publicKey amount coin).result =
      calculateAccountBalance env s confirmedAt publicKey amount coin := by
  simp only [recordAccountBalance, result_bind, result_lift, result_recordBalance]
  rfl

@[simp] theorem result_recordIndexBalance (publicKeyIndex : ℕ) (amount : ℤ) (coin : ℕ) :
    (recordIndexBalance env s confirmedAt publicKeyIndex amount coin).result =
      accountBalanceFromPublicKeyIndex env s confirmedAt publicKeyIndex amount coin := by
  simp only [recordIndexBalance, result_bind, result_lift, result_recordBalance]
  rfl

theorem result_recordRedeem (type : CrossGroupType) (r : GradidoRedeemDeferredTransfer) :
    (recordRedeem env s confirmedAt type r).result =
      redeemDeferredTransferBalances env s confirmedAt type r := by
  simp only [recordRedeem, redeemDeferredTransferBalances, result_bind, result_lift, result_sub,
    ok_bind]
  refine bind_congr (fun entry => bind_congr (fun d => bind_congr (fun decayed => ?_)))
  split_ifs with hback
  · simp only [result_bind, result_recordAccountBalance]
    rfl
  · cases type with
    | cross => rfl
    | localGroup | outbound | inbound =>
      simp only [result_bind, result_recordAccountBalance]
      rfl

/-- **The record changes nothing**: without it, the roles compute the same. -/
theorem result_recordAccountBalances (body : TransactionBody) :
    (recordAccountBalances env s confirmedAt body).result =
      calculateAccountBalances env s confirmedAt body := by
  unfold recordAccountBalances calculateAccountBalances
  cases body.specific with
  | creation c =>
    simp only [recordCreation, creationBalances, result_bind, result_lift,
      result_recordAccountBalance, result_recordIndexBalance]
    rfl
  | transfer t =>
    dsimp only
    unfold recordTransfer transferBalances
    cases body.type with
    | cross => rfl
    | localGroup | outbound | inbound =>
      simp only [result_bind, result_recordAccountBalance, result_negated, ok_bind]
      rfl
  | deferredTransfer d =>
    simp only [recordDeferredTransfer, deferredTransferBalances, result_bind,
      result_recordAccountBalance, result_negated, ok_bind]
    rfl
  | redeemDeferredTransfer r => exact result_recordRedeem body.type r
  | timeoutDeferredTransfer nr =>
    simp only [recordTimeout, timeoutDeferredTransferBalances, result_bind, result_lift,
      result_recordAccountBalance]
    rfl
  | communityRoot | registerAddress | communityFriendsUpdate | none => rfl

/-- The same for `validatePrevious`. -/
theorem result_recordPrevious (transfer : GradidoTransfer) (previous : ConfirmedTransaction) :
    (Validate.recordPrevious env s transfer confirmedAt previous).result =
      Validate.validatePrevious env s transfer confirmedAt previous := by
  simp only [Validate.recordPrevious, Validate.validatePrevious, result_bind, result_lift,
    result_add, ok_bind]

end Results

end ConfirmTransaction

end Gradido
