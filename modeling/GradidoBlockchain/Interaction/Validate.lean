import GradidoBlockchain.Interaction.Calculate

/-!
# Validation

`interaction::validate`: the roles that check a confirmed transaction, its
Gradido transaction, its body and its content, each at the levels that `Type`
asks for.  Every role also says which signatures it needs.
-/

namespace Gradido

open Checked

namespace Validate

/-! ### Levels and context -/

/-- `validate::Type`, a set of flags. -/
structure ValidationType where
  single : Bool := false
  previous : Bool := false
  previousBalance : Bool := false
  monthRange : Bool := false
  paired : Bool := false
  account : Bool := false
deriving DecidableEq, Repr

/-- `ContextData`. -/
structure ContextData where
  senderBlockchain : InMemory
  recipientBlockchain : InMemory
  senderPrevious : Option ConfirmedTransaction
  recipientPrevious : Option ConfirmedTransaction
  pairingTx : Option ConfirmedTransaction

/-- `ContextData(senderBlockchain, senderPreviousConfirmedTransaction)`. -/
def ContextData.ofSender (s : InMemory) (previous : Option ConfirmedTransaction) : ContextData :=
  ⟨s, s, previous, previous, none⟩

/-- `MAGIC_NUMBER_MAX_TIMESPAN_BETWEEN_CREATING_AND_RECEIVING_TRANSACTION`, in seconds. -/
def maxTimespan : ℤ := 120

/-- `GRADIDO_DEFERRED_TRANSFER_MAX_TIMEOUT_INTERVAL`: three average months, in seconds. -/
def maxTimeoutInterval : ℕ := 3 * 2629746

/-- `GRADIDO_DEFERRED_TRANSFER_MIN_TIMEOUT_INTERVAL`: one hour, in seconds. -/
def minTimeoutInterval : ℕ := 3600

/-! ### Keys and signatures -/

/-- `AbstractRole::validateEd25519PublicKey`; a key always has 32 bytes here. -/
def validateEd25519PublicKey (publicKey : ℕ) (name : String) : Except Exception Unit :=
  throwIf (decide (publicKey = 0)) (.transactionValidationInvalidInput "empty" name "public key")

/-- `AbstractRole::validateEd25519Signature`; a signature always has 64 bytes here. -/
def validateEd25519Signature (signature : ℕ) (name : String) : Except Exception Unit :=
  throwIf (decide (signature = 0)) (.transactionValidationInvalidInput "empty" name "signature")

/-- The members of `AbstractRole` that prepare the signature check. -/
structure RequiredSignatures where
  mMinSignatureCount : ℕ
  mRequiredSignPublicKeys : List ℕ := []
  mRequiredSignPublicKeyIndices : List PublicKeyIndex := []
  mForbiddenSignPublicKeys : List ℕ := []

/-- The loop of `AbstractRole::checkRequiredSignatures` over several signatures: what is left of
the required keys. -/
def eraseSigned (env : Env) (r : RequiredSignatures) :
    List SignaturePair → List ℕ → List PublicKeyIndex →
    Except Exception (List ℕ × List PublicKeyIndex)
  | [], keys, indices => .ok (keys, indices)
  | p :: ps, keys, indices => do
    throwIf (decide (p.publicKey ∈ r.mForbiddenSignPublicKeys))
      (.transactionValidationForbiddenSign p.publicKey)
    eraseSigned env r ps (keys.erase p.publicKey)
      (match indices with
        | [] => []
        | k :: _ => indices.erase (env.dict.toPublicKeyIndex p.publicKey k.communityIdIndex))

/-- `AbstractRole::checkRequiredSignatures`.  Two signatures of one key cannot occur in a
signature map, so the search for doublets finds none. -/
def checkRequiredSignatures (env : Env) (r : RequiredSignatures) (signatureMap : SignatureMap) :
    Except Exception Unit := do
  let signPairs := signatureMap.signaturePairs
  throwIf (decide (r.mMinSignatureCount > signPairs.length))
    (.transactionValidationMissingSign signPairs.length r.mMinSignatureCount)
  if r.mRequiredSignPublicKeys = [] ∧ r.mForbiddenSignPublicKeys = [] ∧
      r.mRequiredSignPublicKeyIndices = [] then
    return ()
  throwIf (decide (r.mRequiredSignPublicKeys.length > signPairs.length))
    (.transactionValidationRequiredSignMissing r.mRequiredSignPublicKeys)
  throwIf (decide (r.mRequiredSignPublicKeyIndices.length > signPairs.length))
    (.transactionValidationRequiredSignMissing
      (r.mRequiredSignPublicKeyIndices.map PublicKeyIndex.publicKeyIndex))
  match signPairs with
  | [p] =>
    throwIf (decide (p.publicKey ∈ r.mForbiddenSignPublicKeys))
      (.transactionValidationForbiddenSign p.publicKey)
    throwIf (decide (r.mRequiredSignPublicKeys.length = 1 ∧
        r.mRequiredSignPublicKeys ≠ [p.publicKey]))
      (.transactionValidationRequiredSignMissing r.mRequiredSignPublicKeys)
    match r.mRequiredSignPublicKeyIndices with
    | [k] =>
      throwIf (decide (env.dict.toPublicKeyIndex p.publicKey k.communityIdIndex ≠ k))
        (.transactionValidationRequiredSignMissing [k.publicKeyIndex])
    | _ => return ()
  | _ =>
    let (keys, indices) ← eraseSigned env r signPairs r.mRequiredSignPublicKeys
      r.mRequiredSignPublicKeyIndices
    throwIf (decide (keys ≠ [])) (.transactionValidationRequiredSignMissing keys)
    throwIf (decide (indices ≠ []))
      (.transactionValidationRequiredSignMissing (indices.map PublicKeyIndex.publicKeyIndex))

/-! ### Address types -/

/-- A check of an address type: the address has to be registered and must not be of a deferred
transfer, unless the caller asks for other texts. -/
def requireAddressType (env : Env) (s : InMemory) (f : Filter) (publicKey : ℕ)
    (allowed : AddressType → Option String) : Except Exception Unit := do
  let addressType ← s.getAddressType env { f with involvedPublicKey := some publicKey }
  match allowed addressType with
  | none => return ()
  | some what =>
    throw (.wrongAddressType what addressType publicKey s.mCommunityIdIndex)

/-- The texts for a sender that has to be a registered account. -/
def registeredSender : AddressType → Option String
  | .none => some "sender address not registered"
  | .deferredTransfer => some
      "sender address is deferred transfer, please use redeemDeferredTransferTransaction for that"
  | _ => none

/-- The texts for a recipient that has to be a registered account. -/
def registeredRecipient : AddressType → Option String
  | .none => some "recipient address not registered"
  | .deferredTransfer => some "recipient cannot be a deferred transfer address"
  | _ => none

/-- The texts for a sender that has to be a deferred transfer address. -/
def deferredSender : AddressType → Option String
  | .none => some "sender address not registered"
  | .deferredTransfer => none
  | _ => some "sender address isn't a deferred transfer"

/-- The text for a recipient that has to be new. -/
def newRecipient : AddressType → Option String
  | .none => none
  | _ => some "deferred transfer address already exist"

/-- The text for an account that has to belong to a human. -/
def humanAccount (what : String) : AddressType → Option String
  | .communityHuman => none
  | _ => some what

/-! ### Transfers -/

/-- `TransferAmountRole::run`. -/
def transferAmountRole (type : ValidationType) (amount : TransferAmount) :
    Except Exception Unit := do
  when type.single do
    throwIf (decide (amount.amount ≤ 0))
      (.transactionValidationInvalidInput "zero or negative amount" "amount" "string")
    validateEd25519PublicKey amount.publicKey "sender"

/-- `GradidoTransferRole::validateAccount`. -/
def validateAccount (env : Env) (c : ContextData) (transfer : GradidoTransfer)
    (senderPrevious recipientPrevious : ConfirmedTransaction) : Except Exception Unit := do
  requireAddressType env c.senderBlockchain { maxTransactionNr := senderPrevious.id }
    transfer.sender.publicKey registeredSender
  requireAddressType env c.recipientBlockchain { maxTransactionNr := recipientPrevious.id }
    transfer.recipient registeredRecipient

/-- `GradidoTransferRole::validatePrevious`. -/
def validatePrevious (env : Env) (s : InMemory) (transfer : GradidoTransfer)
    (confirmedAt : Timestamp) (previous : ConfirmedTransaction) : Except Exception Unit := do
  let finalBalance ← CalculateAccountBalance.fromEnd env s transfer.sender.publicKey confirmedAt
    (some transfer.sender.coinCommunityIdIndex) previous.id
  throwIf (decide (transfer.sender.amount > finalBalance + 100))
    (.insufficientBalance "not enough Gradido Balance for send coins" transfer.sender.amount
      finalBalance)

/-- `GradidoTransferRole::run`. -/
def gradidoTransferRole (env : Env) (type : ValidationType) (c : ContextData)
    (transfer : GradidoTransfer) (confirmedAt : Timestamp) : Except Exception Unit := do
  transferAmountRole type transfer.sender
  when type.single do
    validateEd25519PublicKey transfer.recipient "recipient"
    throwIf (decide (transfer.recipient = transfer.sender.publicKey))
      (.transactionValidation "sender and recipient are the same")
  when type.account do
    let senderPrevious ← orThrow c.senderPrevious (.blockchainOrder
      "transfer transaction not allowed as first transaction on sender blockchain")
    let recipientPrevious ← orThrow c.recipientPrevious (.blockchainOrder
      "transfer transaction not allowed as first transaction on recipient blockchain")
    validateAccount env c transfer senderPrevious recipientPrevious
  when type.previous do
    throwIf c.senderPrevious.isNone (.blockchainOrder
      "transfer transaction not allowed as first transaction on blockchain")
  when type.previousBalance do
    let senderPrevious ← orThrow c.senderPrevious (.nullDereference "previous transaction")
    validatePrevious env c.senderBlockchain transfer confirmedAt senderPrevious

/-- The level without the account check that the deferred roles pass on. -/
def ValidationType.withoutAccount (type : ValidationType) : ValidationType :=
  { type with account := false }

/-- `GradidoDeferredTransferRole::run`. -/
def gradidoDeferredTransferRole (env : Env) (type : ValidationType) (c : ContextData)
    (d : GradidoDeferredTransfer) (confirmedAt : Timestamp) : Except Exception Unit := do
  when type.single do
    throwIf (decide (d.timeoutDuration > maxTimeoutInterval))
      (.transactionValidationInvalidInput "timeoutDuration is to long" "timeout_duration" "uint32")
    throwIf (decide (d.timeoutDuration < minTimeoutInterval))
      (.transactionValidationInvalidInput "timeoutDuration is to short" "timeout_duration" "uint32")
  when type.account do
    let senderPrevious ← orThrow c.senderPrevious (.blockchainOrder
      "deferred transfer transaction not allowed as first transaction on blockchain")
    let f := { Filter.LAST_TRANSACTION with maxTransactionNr := senderPrevious.id }
    requireAddressType env c.senderBlockchain f d.transfer.sender.publicKey registeredSender
    requireAddressType env c.senderBlockchain f d.transfer.recipient newRecipient
  gradidoTransferRole env type.withoutAccount c d.transfer confirmedAt

/-- The check of `GradidoRedeemDeferredTransferRole::run` against the deferred transfer. -/
def redeemPrevious (s : InMemory) (r : GradidoRedeemDeferredTransfer) (createdAt : Timestamp) :
    Except Exception Unit := do
  let field := "deferred_transfer_transaction_nr"
  let entry ← orThrow (s.mTransactionsByNr r.deferredTransferTransactionNr)
    (.transactionValidationInvalidInput
      "deferredTransferTransactionNr is invalid, couldn't find transaction" field "uint64")
  let d ← orThrow entry.body.getDeferredTransfer (.transactionValidationInvalidInput
    "deferredTransferTransactionNr points to a invalid Transaction, wrong type" field "uint64")
  throwIf (decide (d.transfer.recipient ≠ r.transfer.sender.publicKey))
    (.transactionValidationInvalidInput
      "deferredTransferTransactionNr points to a invalid Transaction, not matching recipient-sender address pair"
      field "uint64")
  throwIf (decide (entry.confirmedAt.getAsTimepoint + d.timeoutDuration * microsecondsPerSecond <
      createdAt.getAsTimepoint + maxTimespan * microsecondsPerSecond))
    (.transactionValidationInvalidInput "redeem timeouted deferred transfer" "createdAt"
      "Timestamp")

/-- `GradidoRedeemDeferredTransferRole::run`. -/
def gradidoRedeemDeferredTransferRole (env : Env) (type : ValidationType) (c : ContextData)
    (r : GradidoRedeemDeferredTransfer) (createdAt confirmedAt : Timestamp) :
    Except Exception Unit := do
  when type.single do
    throwIf (decide (r.deferredTransferTransactionNr ≤ 3))
      (.transactionValidationInvalidInput "deferredTransferTransactionNr is to short"
        "deferred_transfer_transaction_nr" "uint64")
  when type.previous do
    redeemPrevious c.senderBlockchain r createdAt
  when type.account do
    let senderPrevious ← orThrow c.senderPrevious (.blockchainOrder
      "deferred transfer transaction not allowed as first transaction on blockchain")
    let f := { Filter.LAST_TRANSACTION with maxTransactionNr := senderPrevious.id }
    requireAddressType env c.senderBlockchain f r.transfer.sender.publicKey deferredSender
    requireAddressType env c.recipientBlockchain f r.transfer.recipient registeredRecipient
  gradidoTransferRole env type.withoutAccount c r.transfer confirmedAt

/-- `GradidoTimeoutDeferredTransferRole::run`. -/
def gradidoTimeoutDeferredTransferRole (env : Env) (type : ValidationType) (c : ContextData)
    (deferredTransferTransactionNr : ℕ) (createdAt : Timestamp) : Except Exception Unit := do
  when type.single do
    throwIf (decide (deferredTransferTransactionNr ≤ 3))
      (.transactionValidationInvalidInput "deferredTransferTransactionNr is to short"
        "deferred_transfer_transaction_nr" "uint64")
  when type.previous do
    let entry ← orThrow (c.senderBlockchain.mTransactionsByNr deferredTransferTransactionNr)
      (.transactionValidationInvalidInput
        "deferredTransferTransactionNr is invalid, couldn't find transaction"
        "deferred_transfer_transaction_nr" "uint64")
    let d ← orThrow entry.body.getDeferredTransfer (.nullDereference "deferred transfer")
    throwIf (decide (createdAt.getAsTimepoint ≠
        entry.confirmedAt.getAsTimepoint + d.timeoutDuration * microsecondsPerSecond))
      (.transactionValidationInvalidInput
        "createdAt is invalid, must be timeoutDuration after confirmed deferred transfer"
        "createdAt" "Timestamp")
  when type.account do
    let entry ← orThrow (c.senderBlockchain.mTransactionsByNr deferredTransferTransactionNr)
      (.nullDereference "deferred transfer entry")
    let d ← orThrow entry.body.getDeferredTransfer (.nullDereference "deferred transfer")
    let senderPrevious ← orThrow c.senderPrevious (.nullDereference "previous transaction")
    -- one microsecond before the creation date
    let balance ← CalculateAccountBalance.fromEnd env c.senderBlockchain d.transfer.recipient
      ⟨createdAt.seconds, createdAt.nanos - 1000⟩ none senderPrevious.id
    throwIf (decide (balance = 0))
      (.transactionValidationInvalidInput "deferred transfer balance is already empty"
        "deferredTransfer.balance" "GradidoUnit")

/-! ### Creations -/

/-- `GradidoCreationRole::validateTargetDate`. -/
def validateTargetDate (c : GradidoCreation) (createdAt : ℤ) : Except Exception Unit :=
  let target := Calendar.civilFromDays (floorDays (c.targetDate * microsecondsPerSecond))
  let received := Calendar.civilFromDays (floorDays createdAt)
  let distance := CalculateCreationSum.getTargetDateReceivedDistanceMonth createdAt
  let invalid := fun what => Exception.transactionValidationInvalidInput what "target_date"
    "TimestampSeconds"
  if target.year = received.year then do
    throwIf (decide (target.month + distance < received.month))
      (invalid "year is the same, target date month is invalid")
    throwIf (decide (target.month > received.month))
      (invalid "year is the same, target date month is invalid")
  else if target.year > received.year then .error (invalid "target date year is in future")
  else if target.year + 1 < received.year then .error (invalid "target date year is in past")
  else
    throwIf (decide (target.month + distance < received.month + 12))
      (invalid "target date month is invalid")

/-- `GradidoCreationRole::run`. -/
def gradidoCreationRole (env : Env) (type : ValidationType) (c : ContextData)
    (creation : GradidoCreation) (confirmedAt : Timestamp) : Except Exception Unit := do
  transferAmountRole type creation.recipient
  when type.single do
    validateEd25519PublicKey creation.recipient.publicKey "recipient pubkey"
    throwIf (decide (creation.recipient.amount > 10000000))
      (.transactionValidationInvalidInput "creation amount to high, max 1000 per month" "amount"
        "string")
    throwIf (decide (creation.recipient.amount < 2000))
      (.transactionValidationInvalidInput "creation amount to low, min 0.2 GDD" "amount" "string")
  when type.monthRange do
    let senderPrevious ← orThrow c.senderPrevious (.gradidoNullPointer
      "missing previous confirmed transaction for interaction::validate Creation"
      "data::ConstConfirmedTransactionPtr")
    let k := env.dict.toPublicKeyIndex creation.recipient.publicKey
      c.recipientBlockchain.mCommunityIdIndex
    let date := confirmedAt.getAsTimepoint
    let sum ← CalculateCreationSum.run c.senderBlockchain date
      (creation.targetDate * microsecondsPerSecond) k senderPrevious.id
    let target := secondsAsYearMonth creation.targetDate
    throwIf (decide (sum + creation.recipient.amount > CalculateCreationSum.getLimit date))
      (.invalidCreation "creation more than limit not allowed" target.2 target.1
        creation.recipient.amount sum)
  when type.account do
    requireAddressType env c.senderBlockchain .LAST_TRANSACTION creation.recipient.publicKey
      (humanAccount "wrong address type for creation")

/-- The loop of `GradidoCreationRole::checkRequiredSignatures`: every signer has a human account
since before the creation date. -/
def checkCreationSigners (env : Env) (s : InMemory) (createdAt : Timestamp) :
    List SignaturePair → Except Exception Unit
  | [] => .ok ()
  | p :: ps => do
    -- `Abstract::mStartDate` is never set
    let interval ← TimepointInterval.make 0 createdAt.getAsTimepoint
    requireAddressType env s { Filter.LAST_TRANSACTION with timepointInterval := interval }
      p.publicKey (humanAccount "signer for creation doesn't have a community human account")
    checkCreationSigners env s createdAt ps

/-! ### Addresses and communities -/

/-- `RegisterAddressRole::run`. -/
def registerAddressRole (env : Env) (type : ValidationType) (c : ContextData)
    (r : RegisterAddress) : Except Exception Unit := do
  when type.single do
    throwIf (decide (r.addressType = .communityGmw ∨ r.addressType = .communityAuf ∨
        r.addressType = .none))
      (.wrongAddressType
        "register address transaction not allowed with community auf or gmw account or None"
        r.addressType r.userPublicKey c.senderBlockchain.mCommunityIdIndex)
    throwIf (decide (r.accountPublicKey = 0))
      (.transactionValidationInvalidInput "missing key for index" "account public key" "")
    throwIf (decide (r.userPublicKey = 0))
      (.transactionValidationInvalidInput "missing key for index" "user public key" "")
    throwIf (decide (r.accountPublicKey = r.userPublicKey))
      (.transactionValidation "accountPubkey and userPubkey are the same")
  when type.account do
    let senderPrevious ← orThrow c.senderPrevious (.gradidoNullPointer
      "missing previous confirmed transaction for sender in interaction::validate RegisterAddress Type::ACCOUNT"
      "data::ConstConfirmedTransactionPtr")
    if r.addressType = .subaccount then
      let found ← c.senderBlockchain.findOne env
        { involvedPublicKey := some r.userPublicKey, maxTransactionNr := senderPrevious.id }
      throwIf found.isNone (.addressAlreadyExist
        "cannot register sub address because user is missing" r.addressType)
    else
      let addressType ← c.senderBlockchain.getAddressType env
        { involvedPublicKey := some r.userPublicKey
          maxTransactionNr := senderPrevious.id
          transactionType := .registerAddress }
      throwIf (decide (addressType ≠ .none)) (.addressAlreadyExist
        "cannot register address because it already exist" addressType)

/-- The second part of `RegisterAddressRole::checkRequiredSignatures`: besides account and user
the community root has to sign. -/
def checkCommunityRootSigner (env : Env) (s : InMemory) (communityIdIndex : ℕ)
    (r : RegisterAddress) (signPairs : List SignaturePair) : Except Exception Unit := do
  let first ← s.findOne env .FIRST_TRANSACTION
  let entry ← orThrow first
    (.blockchainOrder "cannot find community root transaction before register address")
  let root ← orThrow entry.body.getCommunityRoot (.gradidoNodeInvalidData
    "first transaction isn't valid community root transaction")
  let rootIndex := env.dict.index entry.gradidoTransaction.communityIdIndex root.publicKey
  throwIf (!signPairs.any (fun p =>
      decide (p.publicKey ≠ r.accountPublicKey) && decide (p.publicKey ≠ r.userPublicKey) &&
        decide (env.dict.index communityIdIndex p.publicKey = rootIndex)))
    (.transactionValidationRequiredSignMissing [rootIndex])

/-- `CommunityRootRole::run`. -/
def communityRootRole (type : ValidationType) (c : ContextData) (r : CommunityRoot) :
    Except Exception Unit := do
  when type.single do
    throwIf (decide (r.publicKey = 0 ∨ r.gmwPublicKey = 0 ∨ r.aufPublicKey = 0))
      (.transactionValidation "at least one public key index is invalid")
    throwIf (decide (r.gmwPublicKey = r.aufPublicKey))
      (.transactionValidation "gmw and auf are the same")
    throwIf (decide (r.publicKey = r.gmwPublicKey))
      (.transactionValidation "gmw and pubkey are the same")
    throwIf (decide (r.aufPublicKey = r.publicKey))
      (.transactionValidation "aufPubkey and pubkey are the same")
  when type.previous do
    throwIf c.senderPrevious.isSome
      (.transactionValidation "community root must be the first transaction in the blockchain!")

/-! ### Bodies -/

/-- The memo check of `TransactionBodyRole::run`.  The size of an encrypted memo is unsigned, so
less than 32 bytes count as too long. -/
def validateMemo (memo : EncryptedMemo) : Except Exception Unit :=
  if memo.keyType = .plain then
    throwIf (decide (memo.memo.length < 5 ∨ memo.memo.length > 450))
      (.transactionValidationInvalidInput "not in expected range [5;450]" "memo" "string")
  else
    throwIf (decide (memo.memo.length < 37 ∨ memo.memo.length > 482))
      (.transactionValidationInvalidInput "not in expected range [5;450]" "encryptedMemo" "bytes")

/-- The first part of `TransactionBodyRole::run`. -/
def validateBody (body : TransactionBody) : Except Exception Unit := do
  when (decide (body.transactionType = .deferredTransfer ∨ body.transactionType = .transfer ∨
      body.transactionType = .creation)) do
    throwIf body.memos.isEmpty (.transactionValidationInvalidInput "no memo" "memo" "EncryptedMemo")
    body.memos.forM validateMemo
  throwIf (decide (body.type ≠ .localGroup ∧ body.otherCommunityIdIndex = none))
    (.transactionValidationInvalidInput
      "missing other community id index for cross group transaction" "other_community_id_index"
      "std::optional<uint32>")

/-- The confirmation date that `TransactionBodyRole::run` estimates; the role of a confirmed
transaction does not pass its own date on. -/
def estimatedConfirmedAt (body : TransactionBody) : Timestamp :=
  ⟨body.createdAt.seconds + maxTimespan, body.createdAt.nanos⟩

/-- The `run` of the role that `getSpecificTransactionRole` chooses. -/
def specificRole (env : Env) (type : ValidationType) (c : ContextData) (body : TransactionBody) :
    Except Exception Unit :=
  let confirmedAt := estimatedConfirmedAt body
  match body.specific with
  | .transfer t => gradidoTransferRole env type c t confirmedAt
  | .creation creation => do
    validateTargetDate creation body.createdAt.getAsTimepoint
    gradidoCreationRole env type c creation confirmedAt
  | .communityFriendsUpdate _ => .error (.gradidoNotImplemented
      "interaction::validate missing role for communityFriendsUpdate")
  | .registerAddress r => registerAddressRole env type c r
  | .deferredTransfer d => gradidoDeferredTransferRole env type c d confirmedAt
  | .redeemDeferredTransfer r =>
    gradidoRedeemDeferredTransferRole env type c r body.createdAt confirmedAt
  | .timeoutDeferredTransfer nr =>
    gradidoTimeoutDeferredTransferRole env type c nr body.createdAt
  | .communityRoot r => communityRootRole type c r
  | .none => .error (.transactionValidation "body without specific transaction")

/-- The signatures that the constructor of each role asks for. -/
def requiredSignatures (env : Env) (tx : GradidoTransaction) : RequiredSignatures :=
  let own := tx.communityIdIndex
  match tx.body.specific with
  | .transfer t => { mMinSignatureCount := 1, mRequiredSignPublicKeys := [t.sender.publicKey] }
  | .creation c =>
    { mMinSignatureCount := 1, mForbiddenSignPublicKeys := [c.recipient.publicKey] }
  | .registerAddress r =>
    { mMinSignatureCount := 3
      mRequiredSignPublicKeyIndices := [env.dict.toPublicKeyIndex r.accountPublicKey own,
        env.dict.toPublicKeyIndex r.userPublicKey own] }
  | .deferredTransfer d =>
    { mMinSignatureCount := 1, mRequiredSignPublicKeys := [d.transfer.sender.publicKey] }
  | .redeemDeferredTransfer r =>
    { mMinSignatureCount := 1, mRequiredSignPublicKeys := [r.transfer.sender.publicKey] }
  | .communityRoot r =>
    { mMinSignatureCount := 1
      mRequiredSignPublicKeyIndices := [env.dict.toPublicKeyIndex r.publicKey own] }
  | _ => { mMinSignatureCount := 0 }

/-- `checkRequiredSignatures` of the role, with the additions of the creation and the register
address role. -/
def checkSignatures (env : Env) (s : InMemory) (tx : GradidoTransaction) :
    Except Exception Unit := do
  checkRequiredSignatures env (requiredSignatures env tx) tx.signatureMap
  match tx.body.specific with
  | .creation _ =>
    checkCreationSigners env s tx.body.createdAt tx.signatureMap.signaturePairs
  | .registerAddress r =>
    checkCommunityRootSigner env s tx.communityIdIndex r tx.signatureMap.signaturePairs
  | _ => return ()

/-! ### Gradido transactions -/

/-- The pairing transaction that `GradidoTransactionRole::run` looks up in the other blockchain. -/
def findPairingTx (otherBlockchain : InMemory) (tx : GradidoTransaction) :
    Option ConfirmedTransaction :=
  if tx.pairingLedgerAnchor.empty then none
  else otherBlockchain.findByLedgerAnchor tx.pairingLedgerAnchor

/-- The cross group preparations of `GradidoTransactionRole::run`: which chain and which previous
transaction belong to the sender and which to the recipient. -/
def prepareContext (p : InMemoryProvider) (tx : GradidoTransaction) (c : ContextData) :
    Except Exception ContextData :=
  match tx.body.otherCommunityIdIndex with
  | none => .ok c
  | some other => do
    let otherBlockchain := p.findBlockchain other
    let pairingTx := findPairingTx otherBlockchain tx
    let otherPrevious := pairingTx.bind (fun t => otherBlockchain.mTransactionsByNr t.id)
    let c := { c with pairingTx := pairingTx }
    let c := match tx.body.type with
      | .outbound => { c with recipientBlockchain := otherBlockchain }
      | .inbound =>
        { c with
          recipientBlockchain := c.senderBlockchain
          senderBlockchain := otherBlockchain
          senderPrevious := otherPrevious.or c.senderPrevious }
      | _ => c
    let last ← orThrow c.recipientBlockchain.mLastTransaction
      (.gradidoNodeInvalidData "missing last transaction of other community id")
    return { c with recipientPrevious := some last }

/-- The signature check of `GradidoTransactionRole::run`. -/
def verifySignature (env : Env) (disableVerify : Bool) (tx : GradidoTransaction)
    (p : SignaturePair) : Except Exception Unit := do
  validateEd25519PublicKey p.publicKey "run"
  validateEd25519Signature p.signature "run"
  throwIf (!disableVerify && !env.verify p.publicKey tx.body tx.encoding p.signature)
    (.transactionValidationInvalidSignature "pubkey don't belong to body bytes" p.publicKey
      p.signature)

/-- The pairing check of `GradidoTransactionRole::run`. -/
def validatePairing (env : Env) (tx : GradidoTransaction) (c : ContextData) :
    Except Exception Unit :=
  match tx.body.type with
  | .localGroup => .ok ()
  | .outbound => .ok ()
  | _ => do
    throwIf tx.pairingLedgerAnchor.empty (.transactionValidationInvalidInput
      "pairing ledger anchor not set for outbound or cross" "pairing_ledger_anchor" "LedgerAnchor")
    let pairingTx ← orThrow c.pairingTx
      (.transactionValidation "pairing transaction not found or invalid")
    throwIf (!tx.isPairing env pairingTx.gradidoTransaction)
      (.pairingTransactionNotMatch "pairing transaction not matching")

/-- `GradidoTransactionRole::run`. -/
def gradidoTransactionRole (env : Env) (p : InMemoryProvider) (disableVerify : Bool)
    (type : ValidationType) (c : ContextData) (tx : GradidoTransaction) :
    Except Exception Unit := do
  let c ← prepareContext p tx c
  when type.single do
    validateBody tx.body
  specificRole env type c tx.body
  when type.single do
    tx.signatureMap.signaturePairs.forM (verifySignature env disableVerify tx)
  checkSignatures env c.senderBlockchain tx
  when (type.paired && tx.body.otherCommunityIdIndex.isSome) do
    validatePairing env tx c

/-! ### Confirmed transactions -/

/-- The checks of `ConfirmedTransactionRole::run` against the previous transaction. -/
def confirmedPrevious (env : Env) (s : InMemory) (tx : ConfirmedTransaction) :
    Except Exception Unit := do
  when (decide (1 < tx.id)) do
    let previous ← orThrow (s.mTransactionsByNr (tx.id - 1))
      (.transactionNotFound "previous transaction not found" (tx.id - 1))
    throwIf (previous.confirmedAt.gt tx.confirmedAt)
      (.blockchainOrder "previous transaction is younger")
    throwIf (decide (tx.confirmedAt.getAsTimepoint - tx.body.createdAt.getAsTimepoint >
        maxTimespan * microsecondsPerSecond))
      (.transactionValidationInvalidInput "timespan between created and received are more than 2 minutes"
        "confirmed_at" "TimestampSeconds")
    throwIf (decide (tx.calculateRunningHash env (some previous) ≠ tx.runningHash))
      (.transactionValidationInvalidInput "stored tx hash isn't equal to calculated txHash"
        "running_hash" "binary[32]")
    throwIf (previous.ledgerAnchor.isHieroTransactionId && tx.ledgerAnchor.isLegacyGradidoId)
      (.transactionValidationInvalidInput
        "current transaction was imported from db while last transaction was confirmed by ledger"
        "ledger_anchor" "LedgerAnchor")

/-- `ConfirmedTransactionRole::run`, with the running hash test enabled. -/
def confirmedTransactionRole (env : Env) (p : InMemoryProvider) (disableVerify : Bool)
    (type : ValidationType) (c : ContextData) (tx : ConfirmedTransaction) :
    Except Exception Unit := do
  when type.single do
    throwIf tx.ledgerAnchor.empty
      (.transactionValidationInvalidInput "invalid" "ledger_anchor" "LedgerAnchor")
  when type.previous do
    confirmedPrevious env c.senderBlockchain tx
  let type := if tx.balanceDerivationType = .externComputed
    then { type with previousBalance := false } else type
  gradidoTransactionRole env p disableVerify type c tx.gradidoTransaction

end Validate

end Gradido
