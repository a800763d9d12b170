import GradidoBlockchain.Wire.Messages

/-!
# The roles of ids and ledger anchors

A role of the serializer makes a message of a value, and one of the deserializer
a value of a message.  The serializer writes into a buffer whose size it
estimates, and gets nothing when the message is longer.  The deserializer tries
the type it was given and then all types behind it; without a type it tries all
of them but the ledger anchor.
-/

namespace Gradido.Wire

open Protobuf

/-- What the roles of the deserializer throw. -/
inductive RoleException
  | deserialize (e : DeserializeException)
  | gradido (e : Exception)
deriving DecidableEq

/-- `TransactionId` with the flag that its comparisons leave out. -/
structure FlaggedTransactionId extends Hiero.TransactionId where
  mScheduled : Bool := false
deriving DecidableEq

/-- The numbers that `grdt_ledger_anchor` gives its types. -/
structure AnchorNumbers where
  number : LedgerAnchorType → ℕ
  injective : Function.Injective number
  lt : ∀ t, number t < 128

/-! ### Writing -/

/-- `serialize::AbstractRole::encode`: nothing for a message that does not fit, and for an empty
text. -/
def encode {M : Type} (coder : Coder M) (calculateSerializedSize : ℕ) (m : M) : Option Block :=
  match coder.encode (calculateSerializedSize + 10) m with
  | none => none
  | some buffer => if buffer = [] then none else some buffer

/-- `serialize::AbstractRole::serializedSize`. -/
def serializedSize (ui64Value : ℕ) : ℕ :=
  if ui64Value < 128 then 1
  else if ui64Value < 16000 then 2
  else if ui64Value < 2000000 then 3
  else if ui64Value < 34359738368 then 5
  else 10

/-- `serialize::HieroAccountIdRole::getMessage`. -/
def Hiero.AccountId.getMessage (a : Hiero.AccountId) : HieroAccountIdMessage :=
  if isEmpty a.mAlias = false then ⟨some a.mShardNum, some a.mRealmNum, none, some a.mAlias⟩
  else ⟨some a.mShardNum, some a.mRealmNum, some a.mAccountNum, none⟩

/-- `serialize::HieroAccountIdRole::calculateSerializedSize`. -/
def Hiero.AccountId.calculateSerializedSize (a : Hiero.AccountId) : ℕ :=
  2 * 9 + 2 + if isEmpty a.mAlias = false then a.mAlias.length else 9

/-- `serialize::HieroTopicIdRole::getMessage`. -/
def Hiero.TopicId.getMessage (t : Hiero.TopicId) : HieroTopicIdMessage :=
  ⟨some t.mShardNum, some t.mRealmNum, some t.mTopicNum⟩

/-- `serialize::HieroTopicIdRole::calculateSerializedSize`. -/
def Hiero.TopicId.calculateSerializedSize (_ : Hiero.TopicId) : ℕ := 3 * 9 + 2

namespace FlaggedTransactionId

/-- `serialize::HieroTransactionIdRole::getMessage`. -/
def getMessage (id : FlaggedTransactionId) : HieroTransactionIdMessage where
  transactionValidStart :=
    some ⟨some id.mTransactionValidStart.seconds, some id.mTransactionValidStart.nanos⟩
  accountID := some id.mAccountId.getMessage
  scheduled := if id.mScheduled then some true else none
  nonce := if id.mNonce ≠ 0 then some id.mNonce else none

/-- `serialize::HieroTransactionIdRole::calculateSerializedSize`. -/
def calculateSerializedSize (id : FlaggedTransactionId) : ℕ :=
  4 + 9 + 5 + 5 + id.mAccountId.calculateSerializedSize

/-- `adapter::fromCompact`. -/
def fromCompact (seconds nanos accountNum : ℤ) : FlaggedTransactionId :=
  ⟨⟨⟨seconds, nanos⟩, ⟨0, 0, accountNum, []⟩, 0⟩, false⟩

/-- `adapter::toCompact`, to the anchor that holds the result. -/
def toCompact (id : FlaggedTransactionId) : Except RoleException LedgerAnchor :=
  if id.mAccountId.mAlias ≠ [] ∨ id.mAccountId.mRealmNum ≠ 0 ∨ id.mAccountId.mShardNum ≠ 0 then
    .error (.gradido (.gradidoNodeInvalidData ("cannot use compact format for hiero transaction " ++
      "id, because account id contain alias, realm or shard")))
  else if id.mNonce ≠ 0 ∨ id.mScheduled then
    .error (.gradido (.gradidoNodeInvalidData ("cannot use compact format for hiero transaction " ++
      "id, because nonce or scheduled is set")))
  else if id.mAccountId.mAccountNum ≠ Wire.toInt32 id.mAccountId.mAccountNum then
    .error (.gradido (.gradidoNodeInvalidData ("cannot use compact format for hiero transaction " ++
      "id, because accountNum exceed int32")))
  else
    .ok (.hieroTransactionId id.mTransactionValidStart.seconds id.mTransactionValidStart.nanos
      (Wire.toInt32 id.mAccountId.mAccountNum))

end FlaggedTransactionId

/-- `LedgerAnchor::getType`. -/
def getType (anchor : LedgerAnchor) : LedgerAnchorType := (GrdwLedgerAnchor.ofAnchor anchor).type

/-- `serialize::LedgerAnchorRole::getMessage`. -/
def getMessage (numbers : AnchorNumbers) (anchor : LedgerAnchor) : LedgerAnchorMessage where
  type := some (numbers.number (getType anchor))
  hieroTransactionId :=
    match anchor with
    | .hieroTransactionId seconds nanos accountNum =>
      some (FlaggedTransactionId.fromCompact seconds nanos accountNum).getMessage
    | _ => none
  id :=
    match anchor with
    | .legacyGradidoDb _ id => some id
    | .nodeTrigger id => some id
    | _ => none

/-- `serialize::LedgerAnchorRole::serializedSize`: of the legacy ids only that of a transaction is
counted. -/
def anchorSerializedSize (anchor : LedgerAnchor) : ℕ :=
  let sum := 2
  let sum :=
    match anchor with
    | .hieroTransactionId _ _ _ => sum + 36
    | .legacyGradidoDb .transaction id => sum + serializedSize id
    | .nodeTrigger id => sum + serializedSize id
    | _ => sum
  sum + 4

/-! ### Reading -/

/-- `deserialize::HieroAccountIdRole`. -/
def HieroAccountIdMessage.read (m : HieroAccountIdMessage) :
    Except RoleException Hiero.AccountId :=
  match m.accountNum, m.mAlias with
  | some accountNum, _ => .ok ⟨m.shardNum.getD 0, m.realmNum.getD 0, accountNum, []⟩
  | none, some bytes => .ok ⟨m.shardNum.getD 0, m.realmNum.getD 0, 0, bytes⟩
  | none, none => .error (.deserialize
      (.missingMember "either accountNum or alias must be set" "hiero::AccountId"))

/-- `deserialize::HieroTopicIdRole`, with the message of the other role. -/
def HieroTopicIdMessage.read (m : HieroTopicIdMessage) : Except RoleException Hiero.TopicId :=
  match m.topicNum with
  | some topicNum => .ok ⟨m.shardNum.getD 0, m.realmNum.getD 0, topicNum⟩
  | none => .error (.deserialize
      (.missingMember "either accountNum or alias must be set" "hiero::AccountId"))

/-- `deserialize::HieroTransactionIdRole`. -/
def HieroTransactionIdMessage.read (m : HieroTransactionIdMessage) :
    Except RoleException FlaggedTransactionId :=
  match m.transactionValidStart, m.accountID with
  | some transactionValidStart, some accountID =>
    match transactionValidStart.read, accountID.read with
    | .ok start, .ok account =>
      .ok ⟨⟨start, account, m.nonce.getD 0⟩, m.scheduled.getD false⟩
    | .error e, _ => .error (.deserialize e)
    | _, .error e => .error e
  | _, _ => .error (.deserialize
      (.missingMember "transactionValidStart and/or accountID is missing" "hiero::TransactionId"))

/-- The types of an anchor that hold a number of 64 bits. -/
def LedgerAnchorType.withId (id : ℕ) : LedgerAnchorType → Option LedgerAnchor
  | .legacyGradidoDb type => some (.legacyGradidoDb type id)
  | .nodeTrigger => some (.nodeTrigger id)
  | _ => none

/-- All named types of an anchor. -/
def LedgerAnchorType.all : List LedgerAnchorType :=
  [.unspecified, .hieroTransactionId, .legacyGradidoDb .transaction, .legacyGradidoDb .community,
    .legacyGradidoDb .user, .legacyGradidoDb .contribution, .legacyGradidoDb .transactionLink,
    .nodeTrigger]

/-- The constructor `LedgerAnchor(uint64_t, grdt_ledger_anchor)`. -/
def AnchorNumbers.ledgerAnchor (numbers : AnchorNumbers) (transactionId type : ℕ) :
    Except RoleException LedgerAnchor :=
  match (LedgerAnchorType.all.find? (fun t => decide (numbers.number t = type))).bind
      (LedgerAnchorType.withId transactionId) with
  | some anchor => .ok anchor
  | none => .error (.gradido (.gradidoInvalidEnum ("for uint64_t transactionId only types " ++
      "LEGACY_GRADIDO_DB_* and NODE_TRIGGER_TRANSACTION_ID are allowed")))

/-- `deserialize::LedgerAnchorRole`. -/
def LedgerAnchorMessage.read (numbers : AnchorNumbers) (m : LedgerAnchorMessage) :
    Except RoleException LedgerAnchor :=
  match m.hieroTransactionId, m.id with
  | some hieroTransactionId, _ => hieroTransactionId.read.bind FlaggedTransactionId.toCompact
  | none, some id =>
    match m.type with
    | none => .error (.deserialize .badOptionalAccess)
    | some type => numbers.ledgerAnchor id type
  | none, none => .ok .unspecified

/-! ### The contexts -/

/-- `deserialize::Type`. -/
inductive DeserializeType
  | UNKNOWN
  | TRANSACTION_BODY
  | GRADIDO_TRANSACTION
  | CONFIRMED_TRANSACTION
  | CONFIRMED_TRANSACTION_COMPACT
  | TRANSACTION_TRIGGER_EVENT
  | HIERO_ACCOUNT_ID
  | HIERO_TOPIC_ID
  | HIERO_TRANSACTION_ID
  | LEDGER_ANCHOR
deriving DecidableEq

/-- A deserializer after `run`: its type, with the member that the type stands for. -/
inductive Deserialized
  | nothing (mType : DeserializeType)
  | transactionTriggerEvent (e : TransactionTriggerEvent)
  | hieroAccountId (a : Hiero.AccountId)
  | hieroTopicId (t : Hiero.TopicId)
  | hieroTransactionId (id : FlaggedTransactionId)
  | ledgerAnchor (anchor : LedgerAnchor)
deriving DecidableEq

/-- The coders of the messages. -/
structure Coders where
  triggerEvent : MessageCoder Block
  accountId : Coder HieroAccountIdMessage
  topicId : Coder HieroTopicIdMessage
  transactionId : Coder HieroTransactionIdMessage
  ledgerAnchor : Coder LedgerAnchorMessage

/-- The coders are those of the formats; of a trigger event it is enough that fields are empty which
the text does not have. -/
structure Coders.Conform (c : Coders) : Prop where
  accountId : c.accountId.Conforms HieroAccountIdMessage.format
  topicId : c.topicId.Conforms HieroTopicIdMessage.format
  transactionId : c.transactionId.Conforms HieroTransactionIdMessage.format
  ledgerAnchor : c.ledgerAnchor.Conforms LedgerAnchorMessage.format
  linkedTransactionNr : ∀ bytes fields m, readFields bytes = some fields →
    lastVarint 1 fields = none → c.triggerEvent.decode bytes = some m → m.linkedTransactionNr = none
  targetDate : ∀ bytes fields m, readFields bytes = some fields →
    lastBytes 2 fields = none → c.triggerEvent.decode bytes = some m → m.targetDate = none

/-- A text decoded, and read by the role of its type; all exceptions end here. -/
def tryRead {M A E : Type} (decode : Block → Option M) (read : M → Except E A) (mData : Block) :
    Option A :=
  (decode mData).bind (fun m => (read m).toOption)

/-- One attempt of `deserialize::Context::run`: it is made for its own type and for none, and
forgets the type when it fails. -/
def attempt (type : DeserializeType) (result : Option Deserialized)
    (next : DeserializeType → Deserialized) (mType : DeserializeType) : Deserialized :=
  if mType = type ∨ mType = .UNKNOWN then
    match result with
    | some d => d
    | none => next .UNKNOWN
  else next mType

namespace Coders

variable (c : Coders) (numbers : AnchorNumbers)

/-- The attempt at a ledger anchor, which needs its type. -/
def runLedgerAnchor (mData : Block) (mType : DeserializeType) : Deserialized :=
  if mType = .LEDGER_ANCHOR then
    match tryRead c.ledgerAnchor.decode (LedgerAnchorMessage.read numbers) mData with
    | some anchor => .ledgerAnchor anchor
    | none => .nothing .UNKNOWN
  else .nothing mType

/-- `deserialize::Context::run` without a community. -/
def run (mData : Block) (mType : DeserializeType) : Deserialized :=
  attempt .TRANSACTION_TRIGGER_EVENT
    ((tryRead c.triggerEvent.decode TransactionTriggerEventMessage.read mData).map
      .transactionTriggerEvent)
    (attempt .HIERO_ACCOUNT_ID
      ((tryRead c.accountId.decode HieroAccountIdMessage.read mData).map .hieroAccountId)
      (attempt .HIERO_TOPIC_ID
        ((tryRead c.topicId.decode HieroTopicIdMessage.read mData).map .hieroTopicId)
        (attempt .HIERO_TRANSACTION_ID
          ((tryRead c.transactionId.decode HieroTransactionIdMessage.read mData).map
            .hieroTransactionId)
          (c.runLedgerAnchor numbers mData)))) mType

/-- `serialize::Context::run` of an account. -/
def serializeAccountId (a : Hiero.AccountId) : Option Block :=
  encode c.accountId a.calculateSerializedSize a.getMessage

/-- `serialize::Context::run` of a topic. -/
def serializeTopicId (t : Hiero.TopicId) : Option Block :=
  encode c.topicId t.calculateSerializedSize t.getMessage

/-- `serialize::Context::run` of a transaction id. -/
def serializeTransactionId (id : FlaggedTransactionId) : Option Block :=
  encode c.transactionId id.calculateSerializedSize id.getMessage

/-- `serialize::Context::run` of a ledger anchor. -/
def serializeLedgerAnchor (anchor : LedgerAnchor) : Option Block :=
  encode c.ledgerAnchor (anchorSerializedSize anchor) (getMessage numbers anchor)

end Coders

end Gradido.Wire
