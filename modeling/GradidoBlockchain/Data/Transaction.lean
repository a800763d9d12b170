import GradidoBlockchain.Data.Exception
import GradidoBlockchain.Data.Timestamp
import Mathlib.Data.List.Dedup

/-!
# Transactions

The rich data model: what a `GradidoTransaction` and its body contain and what
a `ConfirmedTransaction` adds to it.

Public keys, signatures and hashes are opaque numbers; the key `0` is the empty
key.  A `PublicKeyDictionary` numbers the keys of each community, as the
dictionaries of the communities do; since an entry of a dictionary never
changes, one numbering serves a whole run.  A body is stored decoded, next to
the number `encoding` that tells apart the byte strings that decode to it.
-/

namespace Gradido

/-! ### Communities and public keys -/

/-- `compact::PublicKeyIndex`. -/
structure PublicKeyIndex where
  communityIdIndex : ℕ
  publicKeyIndex : ℕ
deriving DecidableEq, Repr

namespace PublicKeyIndex

/-- `PublicKeyIndex::empty`. -/
def empty (k : PublicKeyIndex) : Bool :=
  decide (k.communityIdIndex = 0) && decide (k.publicKeyIndex = 0)

end PublicKeyIndex

/-- The public key dictionaries of all communities: `index` numbers the keys of a community and
`key` looks a number up again.  Number zero belongs to the empty key only. -/
structure PublicKeyDictionary where
  index : ℕ → ℕ → ℕ
  key : ℕ → ℕ → ℕ
  key_index : ∀ c k, key c (index c k) = k
  index_zero : ∀ c, index c 0 = 0

namespace PublicKeyDictionary

variable (dict : PublicKeyDictionary)

theorem index_injective {c k l : ℕ} (h : dict.index c k = dict.index c l) : k = l := by
  rw [← dict.key_index c k, h, dict.key_index]

@[simp] theorem index_inj {c k l : ℕ} : dict.index c k = dict.index c l ↔ k = l :=
  ⟨dict.index_injective, fun h => by rw [h]⟩

@[simp] theorem index_eq_zero {c k : ℕ} : dict.index c k = 0 ↔ k = 0 := by
  have h := dict.index_inj (c := c) (k := k) (l := 0)
  rwa [dict.index_zero] at h

/-- `adapter::toPublicKeyIndex`. -/
def toPublicKeyIndex (publicKey communityIdIndex : ℕ) : PublicKeyIndex :=
  ⟨communityIdIndex, dict.index communityIdIndex publicKey⟩

theorem toPublicKeyIndex_inj {k l c c' : ℕ} :
    dict.toPublicKeyIndex k c = dict.toPublicKeyIndex l c' ↔ c = c' ∧ k = l := by
  unfold toPublicKeyIndex
  rw [PublicKeyIndex.mk.injEq]
  refine and_congr_right ?_
  rintro rfl
  exact dict.index_inj

/-- A key of a community is not the empty one. -/
theorem empty_toPublicKeyIndex {c : ℕ} (hc : c ≠ 0) (k : ℕ) :
    (dict.toPublicKeyIndex k c).empty = false := by
  simp [toPublicKeyIndex, PublicKeyIndex.empty, hc]

end PublicKeyDictionary

/-! ### Ledger anchors -/

/-- The types of `LedgerAnchor` that name a row of the legacy database. -/
inductive LegacyType
  | transaction
  | community
  | user
  | contribution
  | transactionLink
deriving DecidableEq, Repr

/-- `LedgerAnchor`: the place of a transaction on the ledger that ordered it. -/
inductive LedgerAnchor
  | unspecified
  | hieroTransactionId (seconds nanos : ℤ) (accountNum : ℤ)
  | legacyGradidoDb (type : LegacyType) (id : ℕ)
  | nodeTrigger (transactionId : ℕ)
deriving DecidableEq, Repr

namespace LedgerAnchor

/-- `LedgerAnchor::empty`. -/
def empty : LedgerAnchor → Bool
  | unspecified => true
  | _ => false

/-- `LedgerAnchor::isHieroTransactionId`. -/
def isHieroTransactionId : LedgerAnchor → Bool
  | hieroTransactionId _ _ _ => true
  | _ => false

/-- `LedgerAnchor::isLegacyGradidoId`. -/
def isLegacyGradidoId : LedgerAnchor → Bool
  | legacyGradidoDb _ _ => true
  | _ => false

end LedgerAnchor

/-! ### Transaction bodies -/

/-- `grdt_memo_key`. -/
inductive MemoKeyType
  | sharedSecret
  | communitySecret
  | plain
deriving DecidableEq, Repr

/-- `EncryptedMemo`. -/
structure EncryptedMemo where
  keyType : MemoKeyType
  memo : List UInt8
deriving DecidableEq, Repr

/-- `grdt_cross_group`. -/
inductive CrossGroupType
  | localGroup
  | inbound
  | outbound
  | cross
deriving DecidableEq, Repr

/-- `TransferAmount`: a key and an amount, in cents, of coins of a community. -/
structure TransferAmount where
  publicKey : ℕ
  amount : ℤ
  coinCommunityIdIndex : ℕ
deriving DecidableEq, Repr

/-- `GradidoTransfer`. -/
structure GradidoTransfer where
  sender : TransferAmount
  recipient : ℕ
deriving DecidableEq, Repr

/-- `GradidoCreation`; the target date is in seconds. -/
structure GradidoCreation where
  recipient : TransferAmount
  targetDate : ℤ
deriving DecidableEq, Repr

/-- `GradidoDeferredTransfer`; the timeout is in seconds. -/
structure GradidoDeferredTransfer where
  transfer : GradidoTransfer
  timeoutDuration : ℕ
deriving DecidableEq, Repr

/-- `GradidoRedeemDeferredTransfer`. -/
structure GradidoRedeemDeferredTransfer where
  deferredTransferTransactionNr : ℕ
  transfer : GradidoTransfer
deriving DecidableEq, Repr

/-- `compact::RegisterAddressTx`, with the keys themselves instead of their numbers. -/
structure RegisterAddress where
  addressType : AddressType
  derivationIndex : ℕ
  nameHashIndex : ℕ
  userPublicKey : ℕ
  accountPublicKey : ℕ
deriving DecidableEq, Repr

/-- `compact::CommunityRootTx`, with the keys themselves instead of their numbers. -/
structure CommunityRoot where
  publicKey : ℕ
  gmwPublicKey : ℕ
  aufPublicKey : ℕ
deriving DecidableEq, Repr

/-- `TransactionBody::Specific`: what a body contains, by transaction type. -/
inductive Specific
  | none
  | creation (creation : GradidoCreation)
  | transfer (transfer : GradidoTransfer)
  | communityFriendsUpdate (colorFusion : Bool)
  | registerAddress (registerAddress : RegisterAddress)
  | deferredTransfer (deferredTransfer : GradidoDeferredTransfer)
  | communityRoot (communityRoot : CommunityRoot)
  | redeemDeferredTransfer (redeemDeferredTransfer : GradidoRedeemDeferredTransfer)
  | timeoutDeferredTransfer (deferredTransferTransactionNr : ℕ)
deriving DecidableEq, Repr

/-- `grdt_transaction`. -/
inductive TransactionType
  | none
  | creation
  | transfer
  | communityFriendsUpdate
  | registerAddress
  | deferredTransfer
  | communityRoot
  | redeemDeferredTransfer
  | timeoutDeferredTransfer
deriving DecidableEq, Repr

/-- `enum_integer` of a transaction type. -/
def TransactionType.enumInteger : TransactionType → ℕ
  | .none => 0
  | .creation => 1
  | .transfer => 2
  | .communityFriendsUpdate => 3
  | .registerAddress => 4
  | .deferredTransfer => 5
  | .communityRoot => 6
  | .redeemDeferredTransfer => 7
  | .timeoutDeferredTransfer => 8

/-- `TransactionBody`. -/
structure TransactionBody where
  memos : List EncryptedMemo
  createdAt : Timestamp
  type : CrossGroupType
  otherCommunityIdIndex : Option ℕ
  specific : Specific
deriving DecidableEq, Repr

namespace TransactionBody

/-- `TransactionBody::getTransactionType`. -/
def transactionType (body : TransactionBody) : TransactionType :=
  match body.specific with
  | .none => .none
  | .creation _ => .creation
  | .transfer _ => .transfer
  | .communityFriendsUpdate _ => .communityFriendsUpdate
  | .registerAddress _ => .registerAddress
  | .deferredTransfer _ => .deferredTransfer
  | .communityRoot _ => .communityRoot
  | .redeemDeferredTransfer _ => .redeemDeferredTransfer
  | .timeoutDeferredTransfer _ => .timeoutDeferredTransfer

/-- `TransactionBody::getTransfer`. -/
def getTransfer (body : TransactionBody) : Option GradidoTransfer :=
  match body.specific with
  | .transfer t => some t
  | _ => none

/-- `TransactionBody::getCreation`. -/
def getCreation (body : TransactionBody) : Option GradidoCreation :=
  match body.specific with
  | .creation c => some c
  | _ => none

/-- `TransactionBody::getRedeemDeferredTransfer`. -/
def getRedeemDeferredTransfer (body : TransactionBody) : Option GradidoRedeemDeferredTransfer :=
  match body.specific with
  | .redeemDeferredTransfer r => some r
  | _ => none

/-- The transaction number of `TransactionBody::getTimeoutDeferredTransfer`. -/
def getTimeoutDeferredTransfer (body : TransactionBody) : Option ℕ :=
  match body.specific with
  | .timeoutDeferredTransfer nr => some nr
  | _ => none

/-- `TransactionBody::getTransferAmount`. -/
def getTransferAmount (body : TransactionBody) : Except Exception TransferAmount :=
  match body.specific with
  | .transfer t => .ok t.sender
  | .deferredTransfer d => .ok d.transfer.sender
  | .redeemDeferredTransfer r => .ok r.transfer.sender
  | .creation c => .ok c.recipient
  | _ => .error (.gradidoNodeInvalidData
    "cannnot provide transferAmount for this transaction type")

/-- `TransactionBody::getDeferredTransfer`. -/
def getDeferredTransfer (body : TransactionBody) : Option GradidoDeferredTransfer :=
  match body.specific with
  | .deferredTransfer d => some d
  | _ => none

theorem getDeferredTransfer_eq_some {body : TransactionBody} {d : GradidoDeferredTransfer} :
    body.getDeferredTransfer = some d ↔ body.specific = .deferredTransfer d := by
  unfold getDeferredTransfer
  cases body.specific <;> simp

/-- `TransactionBody::getCommunityRoot`. -/
def getCommunityRoot (body : TransactionBody) : Option CommunityRoot :=
  match body.specific with
  | .communityRoot r => some r
  | _ => none

theorem getCommunityRoot_eq_some {body : TransactionBody} {r : CommunityRoot} :
    body.getCommunityRoot = some r ↔ body.specific = .communityRoot r := by
  unfold getCommunityRoot
  cases body.specific <;> simp

/-- `TransactionBody::getRegisterAddress`. -/
def getRegisterAddress (body : TransactionBody) : Option RegisterAddress :=
  match body.specific with
  | .registerAddress r => some r
  | _ => none

/-! The type tells the content. -/

theorem exists_creation {body : TransactionBody} (h : body.transactionType = .creation) :
    ∃ c, body.specific = .creation c := by
  unfold transactionType at h
  split at h <;> simp_all

theorem exists_communityRoot {body : TransactionBody} (h : body.transactionType = .communityRoot) :
    ∃ r, body.specific = .communityRoot r := by
  unfold transactionType at h
  split at h <;> simp_all

theorem exists_registerAddress {body : TransactionBody}
    (h : body.transactionType = .registerAddress) : ∃ r, body.specific = .registerAddress r := by
  unfold transactionType at h
  split at h <;> simp_all

theorem exists_deferredTransfer {body : TransactionBody}
    (h : body.transactionType = .deferredTransfer) : ∃ d, body.specific = .deferredTransfer d := by
  unfold transactionType at h
  split at h <;> simp_all

end TransactionBody

namespace TransferAmount

/-- `TransferAmount::isPairing`: the coin community is not compared. -/
def isPairing (a b : TransferAmount) : Bool :=
  decide (a.publicKey = b.publicKey) && decide (a.amount = b.amount)

end TransferAmount

namespace GradidoTransfer

/-- `GradidoTransfer::isPairing`. -/
def isPairing (a b : GradidoTransfer) : Bool :=
  a.sender.isPairing b.sender && decide (a.recipient = b.recipient)

end GradidoTransfer

namespace GradidoRedeemDeferredTransfer

/-- `GradidoRedeemDeferredTransfer::isPairing`. -/
def isPairing (a b : GradidoRedeemDeferredTransfer) : Bool :=
  a.transfer.isPairing b.transfer &&
    decide (a.deferredTransferTransactionNr = b.deferredTransferTransactionNr)

end GradidoRedeemDeferredTransfer

namespace RegisterAddress

/-- `RegisterAddressTx::operator==`: the keys are compared by their numbers, each in the
dictionary of the community its body was read for. -/
def isTheSame (dict : PublicKeyDictionary) (community otherCommunity : ℕ)
    (a b : RegisterAddress) : Bool :=
  decide (a.addressType = b.addressType) && decide (a.derivationIndex = b.derivationIndex) &&
    decide (a.nameHashIndex = b.nameHashIndex) &&
    decide (dict.index community a.userPublicKey = dict.index otherCommunity b.userPublicKey) &&
    decide (dict.index community a.accountPublicKey =
      dict.index otherCommunity b.accountPublicKey)

end RegisterAddress

/-! ### Signatures -/

/-- `SignaturePair`. -/
structure SignaturePair where
  publicKey : ℕ
  signature : ℕ
deriving DecidableEq, Repr

/-- `SignatureMap`: `push` refuses a second signature of one key. -/
structure SignatureMap where
  signaturePairs : List SignaturePair
  nodup : (signaturePairs.map SignaturePair.publicKey).Nodup

namespace SignatureMap

/-- The loop of `SignatureMap::isTheSame` that fills `ownHashes`: of several pairs with one hash
the first is kept. -/
def ownHash (shorthash : SignaturePair → ℤ) (pairs : List SignaturePair) (hash : ℤ) :
    Option SignaturePair :=
  pairs.find? (fun p => decide (shorthash p = hash))

/-- `SignatureMap::isTheSame`. -/
def isTheSame (shorthash : SignaturePair → ℤ) (a b : SignatureMap) : Bool :=
  if a.signaturePairs.length ≠ b.signaturePairs.length then false
  else
    match a.signaturePairs, b.signaturePairs with
    | [p], [q] => decide (p = q)
    | ps, qs => qs.all (fun q => decide (ownHash shorthash ps (shorthash q) = some q))

end SignatureMap

/-! ### Gradido and confirmed transactions -/

/-- `GradidoTransaction`. -/
structure GradidoTransaction where
  signatureMap : SignatureMap
  body : TransactionBody
  encoding : ℕ
  communityIdIndex : ℕ
  pairingLedgerAnchor : LedgerAnchor

/-- `grdt_balance_derivation`. -/
inductive BalanceDerivation
  | unspecified
  | nodeComputed
  | externComputed
deriving DecidableEq, Repr

/-- `AccountBalance`: an account of the chain's community and its balance in a coin. -/
structure AccountBalance where
  publicKey : ℕ
  balance : ℤ
  coinCommunityIdIndex : ℕ
deriving DecidableEq, Repr

namespace AccountBalance

/-- `AccountBalance::belongsTo`. -/
def belongsTo (b : AccountBalance) (publicKey : ℕ) (communityIdIndex : Option ℕ) : Bool :=
  decide (b.publicKey = publicKey) &&
    match communityIdIndex with
    | none => true
    | some c => decide (c = b.coinCommunityIdIndex)

end AccountBalance

/-- `ConfirmedTransaction`. -/
structure ConfirmedTransaction where
  id : ℕ
  gradidoTransaction : GradidoTransaction
  confirmedAt : Timestamp
  runningHash : List UInt8
  ledgerAnchor : LedgerAnchor
  accountBalances : List AccountBalance
  balanceDerivationType : BalanceDerivation

namespace ConfirmedTransaction

/-- The body of a confirmed transaction. -/
def body (tx : ConfirmedTransaction) : TransactionBody := tx.gradidoTransaction.body

/-- The balance of `ConfirmedTransaction::getAccountBalance`: the first entry that belongs to the
key and the coin, or zero. -/
def getAccountBalance (tx : ConfirmedTransaction) (publicKey : ℕ) (coin : Option ℕ) : ℤ :=
  match tx.accountBalances.find? (fun b => b.belongsTo publicKey coin) with
  | some b => b.balance
  | none => 0

/-- `ConfirmedTransaction::isBalanceUpdated(publicKey)`. -/
def isBalanceUpdated (tx : ConfirmedTransaction) (publicKey : ℕ) : Bool :=
  tx.accountBalances.any (fun b => decide (b.publicKey = publicKey))

end ConfirmedTransaction

/-! ### Functions of other libraries -/

/-- What the repository takes from other libraries: Ed25519 verification, the two hashes of
libsodium, and decay, its duration and the text of a Hiero transaction id from the core library.
`durationSeconds` is undefined when the end lies before the start. -/
structure Env where
  dict : PublicKeyDictionary
  verify : (publicKey : ℕ) → TransactionBody → (encoding : ℕ) → (signature : ℕ) → Bool
  shorthash : SignaturePair → ℤ
  generichash : List UInt8 → List UInt8
  hieroTransactionIdToString : (seconds nanos accountNum : ℤ) → String
  decay : ℤ → ℕ → ℤ
  durationSeconds : ℤ → ℤ → Option ℕ

namespace Env

variable (env : Env)

/-- `GradidoUnit::calculateDecay(start, end)`: both dates are cut to seconds. -/
def calculateDecay (amount : ℤ) (startTime endTime : ℤ) : Except Exception ℤ :=
  match env.durationSeconds (startTime.tdiv microsecondsPerSecond)
      (endTime.tdiv microsecondsPerSecond) with
  | some seconds => .ok (env.decay amount seconds)
  | none => .error (.endDateBeforeStartDate "startTime is before endTime in decay duration")

end Env

namespace GradidoTransaction

/-- `GradidoTransaction::isTheSame`: equal signature maps and equal body bytes. -/
def isTheSame (env : Env) (a b : GradidoTransaction) : Bool :=
  a.signatureMap.isTheSame env.shorthash b.signatureMap &&
    (decide (a.body = b.body) && decide (a.encoding = b.encoding))

/-- `TransactionBody::isPairing`: memos and creation date agree, the other communities differ,
and the contents pair. -/
def isPairing (env : Env) (a b : GradidoTransaction) : Bool :=
  if a.body.memos ≠ b.body.memos ∨ a.body.createdAt ≠ b.body.createdAt ∨
      a.body.otherCommunityIdIndex = b.body.otherCommunityIdIndex then false
  else
    match a.body.specific, b.body.specific with
    | .communityFriendsUpdate x, .communityFriendsUpdate y => decide (x = y)
    | .registerAddress x, .registerAddress y =>
      x.isTheSame env.dict a.communityIdIndex b.communityIdIndex y
    | .transfer x, .transfer y => x.isPairing y
    | .deferredTransfer x, .deferredTransfer y => decide (x = y)
    | .redeemDeferredTransfer x, .redeemDeferredTransfer y => x.isPairing y
    | .timeoutDeferredTransfer x, .timeoutDeferredTransfer y => decide (x = y)
    | _, _ => false

end GradidoTransaction

/-! ### Involved addresses -/

namespace GradidoTransaction

/-- `TransactionBody::fillFromGradidoTransfer`. -/
def fillFromGradidoTransfer (env : Env) (tx : GradidoTransaction) (transfer : GradidoTransfer) :
    Except Exception (List PublicKeyIndex) :=
  let own := tx.communityIdIndex
  match tx.body.type, tx.body.otherCommunityIdIndex with
  | .localGroup, _ =>
    .ok [env.dict.toPublicKeyIndex transfer.sender.publicKey own,
      env.dict.toPublicKeyIndex transfer.recipient own]
  | _, none =>
    .error (.gradidoNodeInvalidData
      "empty mOtherCommunityIdIndex in TransactionBody in CrossCommunityTransaction")
  | .outbound, some other =>
    .ok [env.dict.toPublicKeyIndex transfer.sender.publicKey own,
      env.dict.toPublicKeyIndex transfer.recipient other]
  | .inbound, some other =>
    .ok [env.dict.toPublicKeyIndex transfer.sender.publicKey other,
      env.dict.toPublicKeyIndex transfer.recipient own]
  | .cross, some _ =>
    .error (.gradidoUnhandledEnum "TransactionBody fillFromGradidoTransfer" "grdt_cross_group")

/-- `TransactionBody::getInvolvedAddressIndices`. -/
def getBodyAddressIndices (env : Env) (tx : GradidoTransaction) :
    Except Exception (List PublicKeyIndex) :=
  let own := tx.communityIdIndex
  match tx.body.specific with
  | .communityRoot r =>
    .ok [env.dict.toPublicKeyIndex r.publicKey own, env.dict.toPublicKeyIndex r.gmwPublicKey own,
      env.dict.toPublicKeyIndex r.aufPublicKey own]
  | .registerAddress r =>
    .ok [env.dict.toPublicKeyIndex r.accountPublicKey own,
      env.dict.toPublicKeyIndex r.userPublicKey own]
  | .transfer t => tx.fillFromGradidoTransfer env t
  | .creation c => .ok [env.dict.toPublicKeyIndex c.recipient.publicKey own]
  | .deferredTransfer d => tx.fillFromGradidoTransfer env d.transfer
  | .redeemDeferredTransfer r => tx.fillFromGradidoTransfer env r.transfer
  | .communityFriendsUpdate _ => .ok []
  | .timeoutDeferredTransfer _ => .ok []
  | .none => .ok []

end GradidoTransaction

namespace ConfirmedTransaction

/-- `ConfirmedTransaction::getInvolvedAddressIndices`: body, signers and balances.  The constructor
calls it, so it is also a check that a transaction has to pass. -/
def getInvolvedAddressIndices (env : Env) (tx : ConfirmedTransaction) :
    Except Exception (List PublicKeyIndex) := do
  let own := tx.gradidoTransaction.communityIdIndex
  let bodyAddresses ← tx.gradidoTransaction.getBodyAddressIndices env
  let signers := tx.gradidoTransaction.signatureMap.signaturePairs.map
    (fun p => env.dict.toPublicKeyIndex p.publicKey own)
  let balances := tx.accountBalances.map (fun b => env.dict.toPublicKeyIndex b.publicKey own)
  return (bodyAddresses ++ signers ++ balances).dedup

/-- `ConfirmedTransaction::isInvolved(publicKey)`. -/
def isInvolved (env : Env) (tx : ConfirmedTransaction) (publicKey : ℕ) : Bool :=
  match tx.getInvolvedAddressIndices env with
  | .ok addresses =>
    decide (env.dict.toPublicKeyIndex publicKey tx.gradidoTransaction.communityIdIndex ∈ addresses)
  | .error _ => false

end ConfirmedTransaction

/-! ### The running hash -/

/-- The bytes of an ASCII text. -/
def asciiBytes (text : String) : List UInt8 := text.toList.map (fun c => UInt8.ofNat c.toNat)

/-- The `length` low bytes of a number, the lowest first. -/
def littleEndian (n : ℕ) : (length : ℕ) → List UInt8
  | 0 => []
  | length + 1 => UInt8.ofNat n :: littleEndian (n / 256) length

@[simp] theorem length_littleEndian (n length : ℕ) : (littleEndian n length).length = length := by
  induction length generalizing n with
  | zero => rfl
  | succ length ih => rw [littleEndian, List.length_cons, ih]

theorem littleEndian_inj {length n m : ℕ} (hn : n < 256 ^ length) (hm : m < 256 ^ length)
    (h : littleEndian n length = littleEndian m length) : n = m := by
  induction length generalizing n m with
  | zero => simp at hn hm; omega
  | succ length ih =>
    rw [littleEndian, littleEndian, List.cons.injEq] at h
    have hlow := congrArg UInt8.toNat h.1
    rw [UInt8.toNat_ofNat', UInt8.toNat_ofNat'] at hlow
    rw [Nat.pow_succ] at hn hm
    have hhigh := ih (Nat.div_lt_of_lt_mul (by omega)) (Nat.div_lt_of_lt_mul (by omega)) h.2
    omega

/-- `Block::convertToHex`. -/
def convertToHex (bytes : List UInt8) : String :=
  String.ofList (bytes.flatMap (fun b =>
    [Nat.digitChar (b.toNat / 16), Nat.digitChar (b.toNat % 16)]))

namespace Timestamp

/-- `Timestamp::toString`. -/
def toString (t : Timestamp) : String :=
  let nanos := t.nanos.repr
  t.seconds.repr ++ "." ++ String.ofList (List.replicate (9 - nanos.length) '0') ++ nanos

end Timestamp

namespace LedgerAnchor

/-- `LedgerAnchor::toString`: of the legacy types only the transaction id is written out. -/
def toString (env : Env) : LedgerAnchor → String
  | unspecified => "empty"
  | hieroTransactionId seconds nanos accountNum =>
    if seconds = 0 ∧ nanos = 0 ∧ accountNum = 0 then "empty hiero transaction id"
    else env.hieroTransactionIdToString seconds nanos accountNum
  | legacyGradidoDb .transaction id =>
    if id = 0 then "empty legacy transaction id" else id.repr
  | legacyGradidoDb _ _ => "empty"
  | nodeTrigger id =>
    if id = 0 then "empty node triggered transaction id" else id.repr

end LedgerAnchor

namespace BalanceDerivation

/-- The value of the enumerator. -/
def toByte : BalanceDerivation → UInt8
  | unspecified => 0
  | nodeComputed => 1
  | externComputed => 2

end BalanceDerivation

namespace ConfirmedTransaction

/-- The bytes that `calculateRunningHash` feeds into the hash, in order. -/
def runningHashInput (env : Env) (tx : ConfirmedTransaction)
    (previous : Option ConfirmedTransaction) : List UInt8 :=
  (match previous with
    | some p => asciiBytes (convertToHex p.runningHash)
    | none => []) ++
  asciiBytes tx.id.repr ++ asciiBytes tx.confirmedAt.toString ++
  asciiBytes (tx.ledgerAnchor.toString env) ++
  tx.gradidoTransaction.signatureMap.signaturePairs.flatMap
    (fun p => littleEndian p.publicKey 32 ++ littleEndian p.signature 64) ++
  tx.accountBalances.flatMap (fun b => littleEndian (b.balance % 2 ^ 64).toNat 8) ++
  [tx.balanceDerivationType.toByte]

/-- `ConfirmedTransaction::calculateRunningHash`. -/
def calculateRunningHash (env : Env) (tx : ConfirmedTransaction)
    (previous : Option ConfirmedTransaction) : List UInt8 :=
  env.generichash (tx.runningHashInput env previous)

/-- `ConfirmedTransaction::getDecayedAccountBalance`. -/
def getDecayedAccountBalance (env : Env) (tx : ConfirmedTransaction) (publicKey : ℕ)
    (coin : Option ℕ) (endDate : ℤ) : Except Exception ℤ :=
  env.calculateDecay (tx.getAccountBalance publicKey coin) tx.confirmedAt.getAsTimepoint endDate

end ConfirmedTransaction

end Gradido
