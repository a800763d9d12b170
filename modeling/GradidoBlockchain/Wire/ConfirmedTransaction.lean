import GradidoBlockchain.Wire.TransactionBody

/-!
# Confirmed transactions on the wire

Ledger anchors, signatures, balances and around them `GradidoTransaction` and
`ConfirmedTransaction` with their adapters.  The constructor of a confirmed
transaction collects the keys it involves.  For that it decodes the body bytes,
so it refuses a transaction whose body cannot be read.
-/

namespace Gradido.Wire

open Checked

/-! ### Ledger anchors -/

/-- The account number of a Hiero transaction id as `compact::HieroTransactionId` keeps it. -/
def toInt32 (n : ℤ) : ℤ := n.bmod (2 ^ 32)

/-- A ledger anchor as `LedgerAnchor` stores it: a Hiero transaction id is there in its compact
form, with an account number of 32 bits and without shard and realm. -/
abbrev CompactLedgerAnchor :=
  { anchor : LedgerAnchor // ∀ seconds nanos accountNum,
    anchor = .hieroTransactionId seconds nanos accountNum → toInt32 accountNum = accountNum }

/-- `grdt_ledger_anchor`. -/
inductive LedgerAnchorType
  | unspecified
  | hieroTransactionId
  | legacyGradidoDb (type : LegacyType)
  | nodeTrigger
deriving DecidableEq, Repr

/-- `grdw_hiero_transaction_id`. -/
structure GrdwHieroTransactionId where
  seconds : ℤ
  nanos : ℤ
  shardNum : ℤ
  realmNum : ℤ
  accountNum : ℤ

/-- `grdw_ledger_anchor`; a designated initializer leaves the other members zero. -/
structure GrdwLedgerAnchor where
  type : LedgerAnchorType
  hieroTransactionId : GrdwHieroTransactionId
  id : ℕ

namespace GrdwLedgerAnchor

/-- The Hiero transaction id of an anchor of another type. -/
def noHieroTransactionId : GrdwHieroTransactionId := ⟨0, 0, 0, 0, 0⟩

/-- The hypothesis of `CompactLedgerAnchor` for the other types. -/
theorem compact_of_ne {anchor : LedgerAnchor} (h : anchor.isHieroTransactionId = false) :
    ∀ seconds nanos accountNum, anchor = .hieroTransactionId seconds nanos accountNum →
      toInt32 accountNum = accountNum := by
  rintro seconds nanos accountNum rfl
  cases h

/-- `adapter::fromGrdw` of a ledger anchor. -/
def fromGrdw (a : GrdwLedgerAnchor) : Except Exception CompactLedgerAnchor :=
  match a.type with
  | .unspecified => .ok ⟨.unspecified, compact_of_ne rfl⟩
  | .hieroTransactionId =>
    if h : a.hieroTransactionId.realmNum = 0 ∧ a.hieroTransactionId.shardNum = 0 ∧
        toInt32 a.hieroTransactionId.accountNum = a.hieroTransactionId.accountNum then
      .ok ⟨.hieroTransactionId a.hieroTransactionId.seconds a.hieroTransactionId.nanos
        a.hieroTransactionId.accountNum, by
          intro seconds nanos accountNum heq
          cases heq
          exact h.2.2⟩
    else
      .error (.gradidoNodeInvalidData "cannot convert hiero transaction id from grdw to compact")
  | .legacyGradidoDb type => .ok ⟨.legacyGradidoDb type a.id, compact_of_ne rfl⟩
  | .nodeTrigger => .ok ⟨.nodeTrigger a.id, compact_of_ne rfl⟩

/-- `adapter::toGrdw` of a ledger anchor. -/
def ofAnchor (anchor : LedgerAnchor) : GrdwLedgerAnchor :=
  match anchor with
  | .unspecified => ⟨.unspecified, noHieroTransactionId, 0⟩
  | .hieroTransactionId seconds nanos accountNum =>
    ⟨.hieroTransactionId, ⟨seconds, nanos, 0, 0, accountNum⟩, 0⟩
  | .nodeTrigger id => ⟨.nodeTrigger, noHieroTransactionId, id⟩
  | .legacyGradidoDb type id => ⟨.legacyGradidoDb type, noHieroTransactionId, id⟩

theorem fromGrdw_ofAnchor (anchor : CompactLedgerAnchor) :
    fromGrdw (ofAnchor anchor.1) = .ok anchor := by
  obtain ⟨anchor, hcompact⟩ := anchor
  cases anchor with
  | unspecified => rfl
  | hieroTransactionId seconds nanos accountNum =>
    exact dif_pos ⟨rfl, rfl, hcompact seconds nanos accountNum rfl⟩
  | legacyGradidoDb type id => rfl
  | nodeTrigger id => rfl

end GrdwLedgerAnchor

/-! ### Signatures -/

/-- `SignaturePair`. -/
structure SignaturePair where
  publicKey : PublicKey
  signature : Signature
deriving DecidableEq

/-- `SignatureMap`: `push` refuses a second signature of one key. -/
structure SignatureMap where
  signaturePairs : List SignaturePair
  nodup : (signaturePairs.map SignaturePair.publicKey).Nodup

/-- `grdw_signature_pair`. -/
structure GrdwSignaturePair where
  publicKey : PublicKey
  signature : Signature

namespace SignaturePair

/-- `adapter::toGrdw` of a signature pair. -/
def toGrdw (p : SignaturePair) : GrdwSignaturePair := ⟨p.publicKey, p.signature⟩

/-- `adapter::fromGrdw` of a signature pair. -/
def fromGrdw (p : GrdwSignaturePair) : SignaturePair := ⟨p.publicKey, p.signature⟩

end SignaturePair

namespace SignatureMap

/-- `SignatureMap::push`. -/
def push (signatures : SignatureMap) (p : SignaturePair) : Except Exception SignatureMap :=
  if h : p.publicKey ∈ signatures.signaturePairs.map SignaturePair.publicKey then
    .error (.gradidoAlreadyExist "public key already exist in signature map of gradido transaction")
  else
    .ok ⟨signatures.signaturePairs ++ [p], by
      rw [List.map_append, List.nodup_append]
      refine ⟨signatures.nodup, List.nodup_singleton _, fun k hk l hl heq => ?_⟩
      rw [List.map_singleton, List.mem_singleton] at hl
      exact h (hl ▸ heq ▸ hk)⟩

/-- The empty map. -/
def empty : SignatureMap := ⟨[], List.nodup_nil⟩

/-- The loop that pushes every pair. -/
def pushAll (signatures : SignatureMap) : List SignaturePair → Except Exception SignatureMap
  | [] => .ok signatures
  | p :: ps => do
    let pushed ← signatures.push p
    pushAll pushed ps

/-- Pushing pairs of different keys appends them. -/
theorem pushAll_eq {signatures result : SignatureMap} {ps : List SignaturePair}
    (h : result.signaturePairs = signatures.signaturePairs ++ ps) :
    signatures.pushAll ps = .ok result := by
  induction ps generalizing signatures with
  | nil =>
    obtain ⟨pairs, _⟩ := signatures
    obtain ⟨pairs', _⟩ := result
    cases (show pairs' = pairs by simpa using h)
    rfl
  | cons p ps ih =>
    have hnodup := result.nodup
    rw [h, List.map_append, List.map_cons, List.nodup_append] at hnodup
    have hnew : p.publicKey ∉ signatures.signaturePairs.map SignaturePair.publicKey :=
      fun hmem => hnodup.2.2 _ hmem _ List.mem_cons_self rfl
    unfold pushAll push
    rw [dif_neg hnew, ok_bind]
    exact ih (by rw [h, List.append_assoc, List.singleton_append])

end SignatureMap

/-! ### Gradido transactions -/

/-- `GradidoTransaction`; the body bytes are missing when the pointer is null. -/
structure GradidoTransaction where
  signatureMap : SignatureMap
  bodyBytes : Option Block
  communityIdIndex : UInt32
  pairingLedgerAnchor : CompactLedgerAnchor

/-- `grdw_gradido_transaction`. -/
structure GrdwGradidoTransaction where
  sigMapCount : ℕ
  sigMap : List GrdwSignaturePair
  bodyBytes : Block
  pairingLedgerAnchor : GrdwLedgerAnchor

namespace GradidoTransaction

/-- `GradidoTransaction::toGrdw`. -/
def toGrdw (core : GrdwCore) (tx : GradidoTransaction) : GrdwGradidoTransaction :=
  let pairs := tx.signatureMap.signaturePairs
  { sigMapCount := if pairs.length ≠ 0 then core.reserveSigMap pairs.length else 0
    sigMap := pairs.map SignaturePair.toGrdw
    bodyBytes := tx.bodyBytes.getD []
    pairingLedgerAnchor := GrdwLedgerAnchor.ofAnchor tx.pairingLedgerAnchor.1 }

/-- `GradidoTransaction::fromGrdw`. -/
def fromGrdw (tx : GrdwGradidoTransaction) (communityIdIndex : UInt32) :
    Except Exception GradidoTransaction := do
  let signatures ← SignatureMap.empty.pushAll
    ((tx.sigMap.take tx.sigMapCount).map SignaturePair.fromGrdw)
  let pairingLedgerAnchor ← tx.pairingLedgerAnchor.fromGrdw
  return ⟨signatures, some tx.bodyBytes, communityIdIndex, pairingLedgerAnchor⟩

/-- `GradidoTransaction::getTransactionBody`.  When the body bytes are no body,
`deserialize::Context` tries them as a confirmed transaction before it gives up; only its giving
up is here. -/
def getTransactionBody (core : GrdwCore) (tx : GradidoTransaction) : AppM TransactionBody :=
  let invalid : Exception :=
    .gradidoNullPointer "cannot deserialize from body bytes" "TransactionBody"
  match tx.bodyBytes with
  | none => Method.raise (.gradidoNullPointer "body bytes missing" "bodyBytes")
  | some bodyBytes =>
    if isEmpty bodyBytes then
      Method.raise (.gradidoNullPointer "body bytes missing" "bodyBytes")
    else
      match core.decode bodyBytes with
      | none => Method.raise invalid
      | some body => (TransactionBody.fromGrdw body tx.communityIdIndex).orRaise invalid

end GradidoTransaction

/-! ### Involved addresses -/

/-- `adapter::toPublicKeyIndex`. -/
def toPublicKeyIndex (communityIdIndex : UInt32) (publicKey : PublicKey) : AppM PublicKeyIndex := do
  let publicKeyIndex ← AppContext.getOrAddPublicKeyIndex communityIdIndex publicKey
  return ⟨communityIdIndex.toNat, publicKeyIndex.toNat⟩

namespace TransactionBody

/-- `TransactionBody::fillFromGradidoTransfer`. -/
def fillFromGradidoTransfer (b : TransactionBody) (transfer : GradidoTransfer) :
    AppM (List PublicKeyIndex) :=
  let own := b.communityIdIndex
  let indices (senderCommunity recipientCommunity : UInt32) : AppM (List PublicKeyIndex) := do
    let sender ← toPublicKeyIndex senderCommunity transfer.sender.publicKey.1
    let recipient ← toPublicKeyIndex recipientCommunity transfer.recipient.1
    return [sender, recipient]
  match b.type, b.otherCommunityIdIndex with
  | .localGroup, _ => indices own own
  | _, none => Method.raise (.gradidoNodeInvalidData
      "empty mOtherCommunityIdIndex in TransactionBody in CrossCommunityTransaction")
  | .outbound, some other => indices own other
  | .inbound, some other => indices other own
  | .cross, some _ => Method.raise
      (.gradidoUnhandledEnum "TransactionBody fillFromGradidoTransfer" "grdt_cross_group")

/-- `TransactionBody::getInvolvedAddressIndices`. -/
def getInvolvedAddressIndices (b : TransactionBody) : AppM (List PublicKeyIndex) :=
  let own := b.communityIdIndex.toNat
  match b.specific with
  | .communityFriendsUpdate _ => return []
  | .communityRoot r =>
    return [⟨own, r.publicKeyIndex.toNat⟩, ⟨own, r.gmwPublicKeyIndex.toNat⟩,
      ⟨own, r.aufPublicKeyIndex.toNat⟩]
  | .registerAddress r =>
    return [⟨own, r.accountPublicKeyIndex.toNat⟩, ⟨own, r.userPublicKeyIndex.toNat⟩]
  | .transfer t => b.fillFromGradidoTransfer t
  | .creation c => do
    let recipient ← toPublicKeyIndex b.communityIdIndex c.recipient.publicKey.1
    return [recipient]
  | .deferredTransfer d => b.fillFromGradidoTransfer d.transfer
  | .redeemDeferredTransfer r => b.fillFromGradidoTransfer r.transfer
  | .timeoutDeferredTransfer _ => return []
  | .none => return []

end TransactionBody

/-- The loops that append an index unless it is there. -/
def appendMissing (involved : List PublicKeyIndex) (more : List PublicKeyIndex) :
    List PublicKeyIndex :=
  more.foldl (fun involved i => if i ∈ involved then involved else involved ++ [i]) involved

/-! ### Confirmed transactions -/

/-- `AccountBalance`. -/
structure AccountBalance where
  publicKey : PublicKey
  balance : ℤ
  coinCommunityIdIndex : UInt32
deriving DecidableEq

/-- `grdw_account_balance`. -/
structure GrdwAccountBalance where
  pubkey : PublicKey
  balance : ℤ
  communityUuid : Uuid

namespace AccountBalance

/-- `adapter::toGrdw` of an account balance. -/
def toGrdw (ctx : AppContext) (b : AccountBalance) : Except Exception GrdwAccountBalance := do
  let communityId ← ctx.getCommunityId b.coinCommunityIdIndex
    (.dictionaryMissingEntry ctx.communityIdsName (toString b.coinCommunityIdIndex))
  return ⟨b.publicKey, b.balance, communityId⟩

/-- `adapter::fromGrdw` of an account balance. -/
def fromGrdw (b : GrdwAccountBalance) : AppM AccountBalance := do
  let coinCommunityIdIndex ← AppContext.getOrAddCommunityIdIndex b.communityUuid
  return ⟨b.pubkey, b.balance, coinCommunityIdIndex⟩

end AccountBalance

/-- `ConfirmedTransaction`; the last field is filled by the constructor. -/
structure ConfirmedTransaction where
  id : ℕ
  gradidoTransaction : GradidoTransaction
  confirmedAt : Timestamp
  runningHash : GenericHash
  ledgerAnchor : CompactLedgerAnchor
  accountBalances : List AccountBalance
  balanceDerivationType : BalanceDerivation
  pubkeyIndices : List PublicKeyIndex

/-- `grdw_confirmed_transaction`. -/
structure GrdwConfirmedTransaction where
  id : ℕ
  transaction : GrdwGradidoTransaction
  confirmedAt : Timestamp
  runningHash : GenericHash
  ledgerAnchor : GrdwLedgerAnchor
  accountBalancesCount : ℕ
  accountBalances : List GrdwAccountBalance
  balanceDerivation : BalanceDerivation

namespace GrdwConfirmedTransaction

/-- The zero structure that the serializer hands to `toGrdw`. -/
def zero : GrdwConfirmedTransaction where
  id := 0
  transaction := ⟨0, [], [], GrdwLedgerAnchor.ofAnchor .unspecified⟩
  confirmedAt := ⟨0, 0⟩
  runningHash := ⟨List.replicate 32 0, rfl⟩
  ledgerAnchor := GrdwLedgerAnchor.ofAnchor .unspecified
  accountBalancesCount := 0
  accountBalances := []
  balanceDerivation := .unspecified

end GrdwConfirmedTransaction

namespace ConfirmedTransaction

/-- `ConfirmedTransaction::getInvolvedAddressIndices`: the keys of the body, the signers and the
accounts of the balances. -/
def getInvolvedAddressIndices (core : GrdwCore) (tx : GradidoTransaction)
    (accountBalances : List AccountBalance) : AppM (List PublicKeyIndex) := do
  let body ← tx.getTransactionBody core
  let involved ← body.getInvolvedAddressIndices
  let signers ← Method.forEach (toPublicKeyIndex tx.communityIdIndex)
    (tx.signatureMap.signaturePairs.map SignaturePair.publicKey)
  let accounts ← Method.forEach (toPublicKeyIndex tx.communityIdIndex)
    (accountBalances.map AccountBalance.publicKey)
  return appendMissing (appendMissing involved signers) accounts

/-- The constructors of `ConfirmedTransaction`; the one for a new transaction calculates the
running hash first. -/
def make (core : GrdwCore) (id : ℕ) (gradidoTransaction : GradidoTransaction)
    (confirmedAt : Timestamp) (runningHash : GenericHash) (ledgerAnchor : CompactLedgerAnchor)
    (accountBalances : List AccountBalance) (balanceDerivationType : BalanceDerivation) :
    AppM ConfirmedTransaction := do
  let pubkeyIndices ← getInvolvedAddressIndices core gradidoTransaction accountBalances
  return ⟨id, gradidoTransaction, confirmedAt, runningHash, ledgerAnchor, accountBalances,
    balanceDerivationType, pubkeyIndices⟩

/-- The loop of `ConfirmedTransaction::toGrdw` over the balances. -/
def balancesToGrdw (ctx : AppContext) : List AccountBalance →
    Except Exception (List GrdwAccountBalance)
  | [] => .ok []
  | b :: bs => do
    let balance ← b.toGrdw ctx
    let balances ← balancesToGrdw ctx bs
    return balance :: balances

/-- `ConfirmedTransaction::toGrdw`; without balances their list and count stay as they were. -/
def toGrdw (core : GrdwCore) (ctx : AppContext) (t : ConfirmedTransaction)
    (grdwTx : GrdwConfirmedTransaction) : Except Exception GrdwConfirmedTransaction := do
  let accountBalances ← balancesToGrdw ctx t.accountBalances
  return {
    id := t.id
    transaction := t.gradidoTransaction.toGrdw core
    confirmedAt := t.confirmedAt
    runningHash := t.runningHash
    ledgerAnchor := GrdwLedgerAnchor.ofAnchor t.ledgerAnchor.1
    accountBalancesCount :=
      if t.accountBalances.length ≠ 0 then
        core.reserveAccountBalances t.accountBalances.length
      else grdwTx.accountBalancesCount
    accountBalances :=
      if t.accountBalances.length ≠ 0 then accountBalances else grdwTx.accountBalances
    balanceDerivation := t.balanceDerivationType }

/-- `ConfirmedTransaction::fromGrdw`. -/
def fromGrdw (core : GrdwCore) (tx : GrdwConfirmedTransaction) (communityIdIndex : UInt32) :
    AppM ConfirmedTransaction := do
  let accountBalances ← Method.forEach AccountBalance.fromGrdw
    (tx.accountBalances.take tx.accountBalancesCount)
  let gradidoTransaction ←
    Method.read (fun _ => GradidoTransaction.fromGrdw tx.transaction communityIdIndex)
  let ledgerAnchor ← Method.read (fun _ => tx.ledgerAnchor.fromGrdw)
  make core tx.id gradidoTransaction tx.confirmedAt tx.runningHash ledgerAnchor accountBalances
    tx.balanceDerivation

end ConfirmedTransaction

end Gradido.Wire
