import GradidoBlockchain.Wire.AppContext

/-!
# Transaction bodies on the wire

`TransactionBody::toGrdw` fills the structure of the core library that is
encoded afterwards, `TransactionBody::fromGrdw` reads it.  On the wire keys and
communities stand as bytes; in the body a community is a number, and so are the
keys of a registered address and of a community root.

The functions of the core library that fill a part of the structure copy their
arguments.  What a `reserve` function writes into the count of its list is a
parameter, and so is the decoder of the body bytes.
-/

namespace Gradido.Wire

open Checked

/-! ### Bodies -/

/-- `TransferAmount`: the constructor refuses an empty key. -/
structure TransferAmount where
  publicKey : NonEmpty 32
  amount : ℤ
  coinCommunityIdIndex : UInt32
deriving DecidableEq

/-- `GradidoTransfer`: the constructor refuses an empty recipient. -/
structure GradidoTransfer where
  sender : TransferAmount
  recipient : NonEmpty 32
deriving DecidableEq

/-- `GradidoCreation`; the target date is in seconds. -/
structure GradidoCreation where
  recipient : TransferAmount
  targetDate : ℤ
deriving DecidableEq

/-- `GradidoDeferredTransfer`; the timeout is in seconds. -/
structure GradidoDeferredTransfer where
  transfer : GradidoTransfer
  timeoutDuration : ℕ
deriving DecidableEq

/-- `GradidoRedeemDeferredTransfer`. -/
structure GradidoRedeemDeferredTransfer where
  deferredTransferTransactionNr : ℕ
  transfer : GradidoTransfer
deriving DecidableEq

/-- `compact::RegisterAddressTx`. -/
structure RegisterAddressTx where
  addressType : AddressType
  derivationIndex : UInt16
  nameHashIndex : UInt32
  userPublicKeyIndex : UInt32
  accountPublicKeyIndex : UInt32
deriving DecidableEq

/-- `compact::CommunityRootTx`. -/
structure CommunityRootTx where
  publicKeyIndex : UInt32
  gmwPublicKeyIndex : UInt32
  aufPublicKeyIndex : UInt32
deriving DecidableEq

/-- `TransactionBody::Specific` with the transaction type it belongs to. -/
inductive Specific
  | none
  | creation (creation : GradidoCreation)
  | transfer (transfer : GradidoTransfer)
  | communityFriendsUpdate (colorFusion : Bool)
  | registerAddress (registerAddress : RegisterAddressTx)
  | deferredTransfer (deferredTransfer : GradidoDeferredTransfer)
  | communityRoot (communityRoot : CommunityRootTx)
  | redeemDeferredTransfer (redeemDeferredTransfer : GradidoRedeemDeferredTransfer)
  | timeoutDeferredTransfer (deferredTransferTransactionNr : ℕ)
deriving DecidableEq

/-- `TransactionBody`. -/
structure TransactionBody where
  memos : List EncryptedMemo
  createdAt : Timestamp
  type : CrossGroupType
  communityIdIndex : UInt32
  otherCommunityIdIndex : Option UInt32
  specific : Specific
deriving DecidableEq

/-! ### The structures of the core library -/

/-- `grdw_encrypted_memo`. -/
structure GrdwEncryptedMemo where
  type : MemoKeyType
  memo : Block

/-- `grdw_transfer_amount`. -/
structure GrdwTransferAmount where
  pubkey : PublicKey
  amount : ℤ
  communityUuid : Uuid

/-- `grdw_gradido_transfer`. -/
structure GrdwGradidoTransfer where
  sender : GrdwTransferAmount
  recipient : PublicKey

/-- `grdw_register_address`. -/
structure GrdwRegisterAddress where
  userPubkey : PublicKey
  addressType : AddressType
  derivationIndex : ℕ
  nameHash : GenericHash
  accountPubkey : PublicKey

/-- `grdw_community_root`. -/
structure GrdwCommunityRoot where
  pubkey : PublicKey
  gmwPubkey : PublicKey
  aufPubkey : PublicKey

/-- The union of `grdw_transaction_body` with the `transaction_type` that selects its member. -/
inductive GrdwSpecific
  | none
  | creation (recipient : GrdwTransferAmount) (targetDate : ℤ)
  | transfer (transfer : GrdwGradidoTransfer)
  | communityFriendsUpdate (colorFusion : Bool)
  | registerAddress (registerAddress : GrdwRegisterAddress)
  | deferredTransfer (transfer : GrdwGradidoTransfer) (timeoutDuration : ℕ)
  | communityRoot (communityRoot : GrdwCommunityRoot)
  | redeemDeferredTransfer (deferredTransferTransactionNr : ℕ) (transfer : GrdwGradidoTransfer)
  | timeoutDeferredTransfer (deferredTransferTransactionNr : ℕ)

/-- `grdw_transaction_body`. -/
structure GrdwTransactionBody where
  memosCount : ℕ
  memos : List GrdwEncryptedMemo
  createdAt : Timestamp
  type : CrossGroupType
  otherCommunityUuid : Option Uuid
  specific : GrdwSpecific

/-- What the adapters use of the core library: the counts that the `reserve` functions set, which
are the requested sizes as far as the count of the list reaches, and
`grdw_transaction_body_decode`. -/
structure GrdwCore where
  reserveMemos : ℕ → ℕ
  reserveAccountBalances : ℕ → ℕ
  reserveSigMap : ℕ → ℕ
  decode : Block → Option GrdwTransactionBody
  reserveMemos_eq : ∀ n ≤ 255, reserveMemos n = n
  reserveAccountBalances_eq : ∀ n ≤ 255, reserveAccountBalances n = n
  reserveSigMap_eq : ∀ n, reserveSigMap n = n

/-! ### Writing -/

namespace TransferAmount

/-- `adapter::toGrdw` of a transfer amount. -/
def toGrdw (ctx : AppContext) (a : TransferAmount) (communityIdIndex : UInt32) :
    Except Exception GrdwTransferAmount := do
  let communityUuid ← ctx.getCommunityId a.coinCommunityIdIndex
    (.dictionaryMissingEntry "missing community id" (toString communityIdIndex))
  return ⟨a.publicKey.1, a.amount, communityUuid⟩

end TransferAmount

namespace GradidoTransfer

/-- The transfer that the `assemble` functions copy from a transfer amount and a recipient. -/
def toGrdw (ctx : AppContext) (t : GradidoTransfer) (communityIdIndex : UInt32) :
    Except Exception GrdwGradidoTransfer := do
  let sender ← t.sender.toGrdw ctx communityIdIndex
  return ⟨sender, t.recipient.1⟩

end GradidoTransfer

namespace RegisterAddressTx

/-- The branch of `TransactionBody::toGrdw` for a registered address. -/
def toGrdw (ctx : AppContext) (r : RegisterAddressTx) (communityIdIndex : UInt32) :
    Except Exception GrdwRegisterAddress := do
  let accountPubkey ← ctx.getRawKey communityIdIndex r.accountPublicKeyIndex
  let userPubkey ← ctx.getRawKey communityIdIndex r.userPublicKeyIndex
  let nameHash ← ctx.getUserNameHash r.nameHashIndex
  throwIf (isEmpty accountPubkey.1 || isEmpty nameHash.1 || isEmpty userPubkey.1)
    (.gradidoNodeInvalidData
      "at least one of account public key, name hash, user public key isn't 32 Bytes")
  return ⟨userPubkey, r.addressType, r.derivationIndex.toNat, nameHash, accountPubkey⟩

end RegisterAddressTx

namespace CommunityRootTx

/-- The branch of `TransactionBody::toGrdw` for a community root. -/
def toGrdw (ctx : AppContext) (r : CommunityRootTx) (communityIdIndex : UInt32) :
    Except Exception GrdwCommunityRoot := do
  let pubkey ← ctx.getRawKey communityIdIndex r.publicKeyIndex
  let gmwPubkey ← ctx.getRawKey communityIdIndex r.gmwPublicKeyIndex
  let aufPubkey ← ctx.getRawKey communityIdIndex r.aufPublicKeyIndex
  return ⟨pubkey, gmwPubkey, aufPubkey⟩

end CommunityRootTx

namespace TransactionBody

/-- `TransactionBody::getTransactionType`. -/
def transactionType (b : TransactionBody) : TransactionType :=
  match b.specific with
  | .none => .none
  | .creation _ => .creation
  | .transfer _ => .transfer
  | .communityFriendsUpdate _ => .communityFriendsUpdate
  | .registerAddress _ => .registerAddress
  | .deferredTransfer _ => .deferredTransfer
  | .communityRoot _ => .communityRoot
  | .redeemDeferredTransfer _ => .redeemDeferredTransfer
  | .timeoutDeferredTransfer _ => .timeoutDeferredTransfer

/-- The branches of `TransactionBody::toGrdw` by transaction type. -/
def specificToGrdw (ctx : AppContext) (b : TransactionBody) : Except Exception GrdwSpecific :=
  match b.specific with
  | .registerAddress r => do
    let registerAddress ← r.toGrdw ctx b.communityIdIndex
    return .registerAddress registerAddress
  | .transfer t => do
    let transfer ← t.toGrdw ctx b.communityIdIndex
    return .transfer transfer
  | .creation c => do
    let recipient ← c.recipient.toGrdw ctx b.communityIdIndex
    return .creation recipient c.targetDate
  | .deferredTransfer d => do
    let transfer ← d.transfer.toGrdw ctx b.communityIdIndex
    return .deferredTransfer transfer d.timeoutDuration
  | .redeemDeferredTransfer r => do
    let transfer ← r.transfer.toGrdw ctx b.communityIdIndex
    return .redeemDeferredTransfer r.deferredTransferTransactionNr transfer
  | .timeoutDeferredTransfer nr => .ok (.timeoutDeferredTransfer nr)
  | .communityRoot r => do
    let communityRoot ← r.toGrdw ctx b.communityIdIndex
    return .communityRoot communityRoot
  | .communityFriendsUpdate colorFusion => .ok (.communityFriendsUpdate colorFusion)
  | .none =>
    .error (.gradidoUnhandledEnum "missing implementation for TransactionBody::toGrdw"
      "grdt_transaction")

/-- The branch of `TransactionBody::toGrdw` for the other community. -/
def otherCommunityToGrdw (ctx : AppContext) (b : TransactionBody) :
    Except Exception (Option Uuid) :=
  match b.otherCommunityIdIndex with
  | some other => do
    let otherCommunityId ← ctx.getCommunityId other
      (.dictionaryMissingEntry "missing other community id" (toString other))
    return some otherCommunityId
  | none => .ok none

/-- `TransactionBody::toGrdw`. -/
def toGrdw (core : GrdwCore) (ctx : AppContext) (b : TransactionBody) :
    Except Exception GrdwTransactionBody := do
  let memosCount := if b.memos.length ≠ 0 then core.reserveMemos b.memos.length else 0
  let memos := b.memos.map (fun memo => (⟨memo.keyType, memo.memo⟩ : GrdwEncryptedMemo))
  let otherCommunityUuid ← b.otherCommunityToGrdw ctx
  let specific ← b.specificToGrdw ctx
  return ⟨memosCount, memos, b.createdAt, b.type, otherCommunityUuid, specific⟩

end TransactionBody

/-! ### Reading -/

namespace TransferAmount

/-- The constructor of `TransferAmount`. -/
def make (pubkey : PublicKey) (amount : ℤ) (coinCommunityIdIndex : UInt32) :
    AppM TransferAmount :=
  if h : isEmpty pubkey.1 = false then do
    let _ ← Method.read (fun ctx => ctx.getCommunityId coinCommunityIdIndex
      (.dictionaryMissingEntry "invalid coin community id index in TransferAmount Construct"
        (toString coinCommunityIdIndex)))
    return ⟨⟨pubkey, h⟩, amount, coinCommunityIdIndex⟩
  else
    Method.raise (.gradidoNodeInvalidData "pubkey cannot be empty")

/-- `adapter::fromGrdw` of a transfer amount. -/
def fromGrdw (a : GrdwTransferAmount) : AppM TransferAmount := do
  let coinCommunityIdIndex ← AppContext.getOrAddCommunityIdIndex a.communityUuid
  make a.pubkey a.amount coinCommunityIdIndex

end TransferAmount

namespace GradidoTransfer

/-- The constructor of `GradidoTransfer`. -/
def make (sender : TransferAmount) (recipient : PublicKey) : AppM GradidoTransfer :=
  if h : isEmpty recipient.1 = false then
    return ⟨sender, ⟨recipient, h⟩⟩
  else
    Method.raise (.gradidoNodeInvalidData "pubkey cannot be empty")

/-- A transfer as `TransactionBody::fromGrdw` reads it. -/
def fromGrdw (t : GrdwGradidoTransfer) : AppM GradidoTransfer := do
  let sender ← TransferAmount.fromGrdw t.sender
  make sender t.recipient

end GradidoTransfer

namespace RegisterAddressTx

/-- `RegisterAddressTx::fromGrdw`. -/
def fromGrdw (r : GrdwRegisterAddress) (blockchainCommunityIdIndex : UInt32) :
    AppM RegisterAddressTx := do
  let nameHashIndex ← AppContext.getOrAddUserNameHashIndex r.nameHash
  let userPublicKeyIndex ←
    AppContext.getOrAddPublicKeyIndex blockchainCommunityIdIndex r.userPubkey
  let accountPublicKeyIndex ←
    AppContext.getOrAddPublicKeyIndex blockchainCommunityIdIndex r.accountPubkey
  return ⟨r.addressType, UInt16.ofNat r.derivationIndex, nameHashIndex, userPublicKeyIndex,
    accountPublicKeyIndex⟩

end RegisterAddressTx

namespace CommunityRootTx

/-- `CommunityRootTx::fromGrdw`. -/
def fromGrdw (r : GrdwCommunityRoot) (blockchainCommunityIdIndex : UInt32) :
    AppM CommunityRootTx := do
  let publicKeyIndex ← AppContext.getOrAddPublicKeyIndex blockchainCommunityIdIndex r.pubkey
  let gmwPublicKeyIndex ← AppContext.getOrAddPublicKeyIndex blockchainCommunityIdIndex r.gmwPubkey
  let aufPublicKeyIndex ← AppContext.getOrAddPublicKeyIndex blockchainCommunityIdIndex r.aufPubkey
  return ⟨publicKeyIndex, gmwPublicKeyIndex, aufPublicKeyIndex⟩

end CommunityRootTx

namespace TransactionBody

/-- The switch of `TransactionBody::fromGrdw` over the transaction type. -/
def specificFromGrdw (communityIdIndex : UInt32) : GrdwSpecific → AppM Specific
  | .transfer t => do
    let transfer ← GradidoTransfer.fromGrdw t
    return .transfer transfer
  | .creation recipient targetDate => do
    let recipient ← TransferAmount.fromGrdw recipient
    return .creation ⟨recipient, targetDate⟩
  | .registerAddress r => do
    let registerAddress ← RegisterAddressTx.fromGrdw r communityIdIndex
    return .registerAddress registerAddress
  | .deferredTransfer t timeoutDuration => do
    let transfer ← GradidoTransfer.fromGrdw t
    return .deferredTransfer ⟨transfer, timeoutDuration⟩
  | .redeemDeferredTransfer nr t => do
    let transfer ← GradidoTransfer.fromGrdw t
    return .redeemDeferredTransfer ⟨nr, transfer⟩
  | .timeoutDeferredTransfer nr => return .timeoutDeferredTransfer nr
  | .communityRoot r => do
    let communityRoot ← CommunityRootTx.fromGrdw r communityIdIndex
    return .communityRoot communityRoot
  | .communityFriendsUpdate colorFusion => return .communityFriendsUpdate colorFusion
  | .none =>
    Method.raise (.gradidoUnhandledEnum "missing implementation for TransactionBody::fromGrdw"
      "grdt_transaction")

/-- The branch of `TransactionBody::fromGrdw` for the other community. -/
def otherCommunityFromGrdw : Option Uuid → AppM (Option UInt32)
  | some communityUuid => do
    let other ← AppContext.getOrAddCommunityIdIndex communityUuid
    return some other
  | none => return none

/-- `TransactionBody::fromGrdw`. -/
def fromGrdw (body : GrdwTransactionBody) (communityIdIndex : UInt32) : AppM TransactionBody := do
  let memos := (body.memos.take body.memosCount).map
    (fun memo => (⟨memo.type, memo.memo⟩ : EncryptedMemo))
  let otherCommunityIdIndex ← otherCommunityFromGrdw body.otherCommunityUuid
  let specific ← specificFromGrdw communityIdIndex body.specific
  return ⟨memos, body.createdAt, body.type, communityIdIndex, otherCommunityIdIndex, specific⟩

end TransactionBody

end Gradido.Wire
