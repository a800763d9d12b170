import GradidoBlockchain.Wire.Roles

/-!
# Reading ids and ledger anchors back

What the serializers of Hiero ids and ledger anchors write is read back by the
deserializer: with the type as a hint, whenever the estimate of the size is
enough, and up to an alias of zeros.  Without the hint the first type in the
order of the attempts wins whose required fields are there, so a topic is taken
for an account.
-/

namespace Gradido.Wire

open Protobuf

/-! ### What is in range -/

/-- A transaction id of numbers that the fields hold. -/
structure FlaggedTransactionId.InRange (id : FlaggedTransactionId) : Prop where
  seconds : Scan.IsInt64 id.mTransactionValidStart.seconds
  nanos : IsInt32 id.mTransactionValidStart.nanos
  account : id.mAccountId.InRange
  nonce : IsInt32 id.mNonce

/-- An alias of a size that a machine can hold. -/
def Hiero.AccountId.Small (a : Hiero.AccountId) : Prop := a.mAlias.length < 562949953421312

/-- An anchor of numbers that the fields hold. -/
def AnchorInRange : LedgerAnchor → Prop
  | .unspecified => True
  | .hieroTransactionId seconds nanos accountNum =>
    Scan.IsInt64 seconds ∧ IsInt32 nanos ∧ IsInt32 accountNum
  | .legacyGradidoDb _ id => Fits id
  | .nodeTrigger id => Fits id

/-- The account that is written: an alias goes before the number, unless it is all zeros. -/
def Hiero.AccountId.written (a : Hiero.AccountId) : Hiero.AccountId :=
  if isEmpty a.mAlias = false then { a with mAccountNum := 0 } else { a with mAlias := [] }

/-- The transaction id that is written. -/
def FlaggedTransactionId.written (id : FlaggedTransactionId) : FlaggedTransactionId :=
  { id with mAccountId := id.mAccountId.written }

theorem Hiero.AccountId.written_eq_iff (a : Hiero.AccountId) :
    a.written = a ↔ a.mAlias = [] ∨ isEmpty a.mAlias = false ∧ a.mAccountNum = 0 := by
  obtain ⟨shard, realm, num, bytes⟩ := a
  unfold written
  dsimp only
  split_ifs with h
  · have hne : bytes ≠ [] := by
      rintro rfl
      cases h
    simp [hne, h, eq_comm]
  · simp [h, eq_comm]

theorem FlaggedTransactionId.written_eq_iff (id : FlaggedTransactionId) :
    id.written = id ↔ id.mAccountId.written = id.mAccountId := by
  obtain ⟨⟨start, account, nonce⟩, scheduled⟩ := id
  simp [written]

/-! ### Accounts and topics -/

section Attempts

variable {c : Coders}

/-- What a coder of a format writes into a large enough buffer. -/
theorem encode_eq {M : Type} {coder : Coder M} {F : Format M} (h : coder.Conforms F) {m : M}
    (hm : F.Valid m) (hne : F.fields m ≠ []) (size : ℕ) : encode coder size m =
      if (F.encode m).length ≤ size + 10 then some (F.encode m) else none := by
  have hbytes : F.encode m ≠ [] := by
    have hfields := List.length_pos_of_ne_nil hne
    have hlength := length_le_encodeFields (F.fields m)
    exact List.ne_nil_of_length_pos (Nat.lt_of_lt_of_le hfields hlength)
  rw [encode, h.encode _ _ hm]
  split_ifs
  · dsimp only
    rw [if_neg hbytes]
  · rfl

/-- A reader of a format on the text of a message of a format. -/
theorem tryRead_eq {M N A E : Type} {coder : Coder N} {F : Format M} {G : Format N}
    (h : coder.Conforms G) {m : M} (hm : F.Valid m) {n : N} (hn : G.read (F.fields m) = some n)
    (read : N → Except E A) :
    tryRead coder.decode read (F.encode m) = (read n).toOption := by
  have hdecode : coder.decode (F.encode m) = some n :=
    h.decode _ _ ((F.decode_encode_other G hm).trans hn)
  rw [tryRead, hdecode, Option.bind_some]

/-- A text whose fields lack what a trigger event needs is not read as one. -/
theorem tryRead_triggerEvent (h : c.Conform) {M : Type} {F : Format M} {m : M} (hm : F.Valid m)
    (hfields : lastVarint 1 (F.fields m) = none ∨ lastBytes 2 (F.fields m) = none) :
    tryRead c.triggerEvent.decode TransactionTriggerEventMessage.read (F.encode m) = none := by
  have hread : readFields (F.encode m) = some (F.fields m) :=
    readFields_encodeFields (F.valid_fields m hm)
  rw [tryRead]
  cases hdecode : c.triggerEvent.decode (F.encode m) with
  | none => rfl
  | some event =>
    rw [Option.bind_some]
    obtain hnone | hnone := hfields
    · have hnr := h.linkedTransactionNr _ _ _ hread hnone hdecode
      unfold TransactionTriggerEventMessage.read
      rw [hnr]
      rfl
    · have hdate := h.targetDate _ _ _ hread hnone hdecode
      unfold TransactionTriggerEventMessage.read
      rw [hdate]
      cases event.linkedTransactionNr <;> rfl

variable {mType type : DeserializeType} {result : Option Deserialized}
  {next : DeserializeType → Deserialized}

theorem attempt_of_ne (hne : mType ≠ type) (hunknown : mType ≠ .UNKNOWN) :
    attempt type result next mType = next mType :=
  if_neg (not_or.2 ⟨hne, hunknown⟩)

theorem attempt_of_some {d : Deserialized} (htype : mType = type ∨ mType = .UNKNOWN) :
    attempt type (some d) next mType = d := if_pos htype

theorem attempt_of_none (htype : mType = type ∨ mType = .UNKNOWN) :
    attempt type none next mType = next .UNKNOWN := if_pos htype

end Attempts

namespace Hiero.AccountId

variable {a : Hiero.AccountId}

theorem getMessage_valid (ha : a.InRange) (hsmall : a.Small) :
    HieroAccountIdMessage.format.Valid a.getMessage := by
  have hfits : Fits a.mAlias.length := Nat.lt_trans hsmall (by decide)
  unfold getMessage
  split_ifs
  · exact ⟨by rintro z ⟨⟩; exact ha.shard, by rintro z ⟨⟩; exact ha.realm, by rintro z ⟨⟩,
      by rintro l ⟨⟩; exact hfits⟩
  · exact ⟨by rintro z ⟨⟩; exact ha.shard, by rintro z ⟨⟩; exact ha.realm,
      by rintro z ⟨⟩; exact ha.account, by rintro l ⟨⟩⟩

theorem getMessage_read (a : Hiero.AccountId) : a.getMessage.read = .ok a.written := by
  unfold getMessage written
  split_ifs <;> rfl

/-- The bytes of an account without an alias. -/
theorem length_encode_num (hempty : isEmpty a.mAlias = true) :
    (HieroAccountIdMessage.format.encode a.getMessage).length =
      3 + varintSize (ofInt a.mShardNum) + varintSize (ofInt a.mRealmNum) +
        varintSize (ofInt a.mAccountNum) := by
  have hmessage : a.getMessage = ⟨some a.mShardNum, some a.mRealmNum, some a.mAccountNum, none⟩ :=
    if_neg (by rw [hempty]; decide)
  rw [hmessage, Format.encode, HieroAccountIdMessage.format]
  simp
  omega

/-- The bytes of an account with one. -/
theorem length_encode_alias (hempty : isEmpty a.mAlias = false) :
    (HieroAccountIdMessage.format.encode a.getMessage).length =
      3 + varintSize (ofInt a.mShardNum) + varintSize (ofInt a.mRealmNum) +
        varintSize a.mAlias.length + a.mAlias.length := by
  have hmessage : a.getMessage = ⟨some a.mShardNum, some a.mRealmNum, none, some a.mAlias⟩ :=
    if_pos hempty
  rw [hmessage, Format.encode, HieroAccountIdMessage.format]
  simp [length_encode_bytes]
  omega

/-- The estimate is enough for every account. -/
theorem length_encode_le (hsmall : a.Small) :
    (HieroAccountIdMessage.format.encode a.getMessage).length ≤ a.calculateSerializedSize + 10 := by
  have hshard := varintSize_le_ten (ofInt_fits a.mShardNum)
  have hrealm := varintSize_le_ten (ofInt_fits a.mRealmNum)
  unfold calculateSerializedSize
  cases hempty : isEmpty a.mAlias with
  | true =>
    have hnum := varintSize_le_ten (ofInt_fits a.mAccountNum)
    rw [length_encode_num hempty, if_neg (by decide)]
    omega
  | false =>
    have hfits : Fits a.mAlias.length := Nat.lt_trans hsmall (by decide)
    have hlength : varintSize a.mAlias.length ≤ 7 := (varintSize_le_iff hfits 6).2 hsmall
    rw [length_encode_alias hempty, if_pos rfl]
    omega

end Hiero.AccountId

theorem Hiero.TopicId.getMessage_valid {t : Hiero.TopicId} (ht : t.InRange) :
    HieroTopicIdMessage.format.Valid t.getMessage :=
  ⟨by rintro z ⟨⟩; exact ht.shard, by rintro z ⟨⟩; exact ht.realm, by rintro z ⟨⟩; exact ht.topic⟩

/-- The estimate is enough for every topic. -/
theorem Hiero.TopicId.length_encode_le (t : Hiero.TopicId) :
    (HieroTopicIdMessage.format.encode t.getMessage).length ≤ t.calculateSerializedSize + 10 := by
  have hshard := varintSize_le_ten (ofInt_fits t.mShardNum)
  have hrealm := varintSize_le_ten (ofInt_fits t.mRealmNum)
  have htopic := varintSize_le_ten (ofInt_fits t.mTopicNum)
  have hlength : (HieroTopicIdMessage.format.encode t.getMessage).length =
      3 + varintSize (ofInt t.mShardNum) + varintSize (ofInt t.mRealmNum) +
        varintSize (ofInt t.mTopicNum) := by
    rw [Hiero.TopicId.getMessage, Format.encode, HieroTopicIdMessage.format]
    simp
    omega
  rw [hlength, calculateSerializedSize]
  omega

/-! ### Transaction ids -/

namespace FlaggedTransactionId

variable {id : FlaggedTransactionId}

/-- The message of the start of a transaction id. -/
def startMessage (id : FlaggedTransactionId) : TimestampMessage :=
  ⟨some id.mTransactionValidStart.seconds, some id.mTransactionValidStart.nanos⟩

theorem startMessage_valid (hid : id.InRange) : TimestampMessage.format.Valid id.startMessage :=
  ⟨by rintro z ⟨⟩; exact hid.seconds, by rintro z ⟨⟩; exact hid.nanos⟩

theorem length_startMessage (id : FlaggedTransactionId) :
    (TimestampMessage.format.encode id.startMessage).length =
      2 + varintSize (ofInt id.mTransactionValidStart.seconds) +
        varintSize (ofInt id.mTransactionValidStart.nanos) := by
  rw [startMessage, Format.encode, TimestampMessage.format]
  simp
  omega

theorem length_startMessage_le (id : FlaggedTransactionId) :
    (TimestampMessage.format.encode id.startMessage).length ≤ 22 := by
  have hseconds := varintSize_le_ten (ofInt_fits id.mTransactionValidStart.seconds)
  have hnanos := varintSize_le_ten (ofInt_fits id.mTransactionValidStart.nanos)
  rw [length_startMessage]
  omega

theorem getMessage_valid (hid : id.InRange) (hsmall : id.mAccountId.Small) :
    HieroTransactionIdMessage.format.Valid id.getMessage := by
  refine ⟨?_, ?_, ?_⟩
  · rintro z ⟨⟩
    exact ⟨startMessage_valid hid, Nat.lt_of_le_of_lt (length_startMessage_le id) (by decide)⟩
  · rintro z ⟨⟩
    refine ⟨Hiero.AccountId.getMessage_valid hid.account hsmall, ?_⟩
    have hle := Hiero.AccountId.length_encode_le hsmall
    have hsize : id.mAccountId.calculateSerializedSize ≤ 29 + id.mAccountId.mAlias.length := by
      unfold Hiero.AccountId.calculateSerializedSize
      split_ifs <;> omega
    unfold Hiero.AccountId.Small at hsmall
    unfold Fits
    omega
  · intro z hz
    unfold getMessage at hz
    dsimp only at hz
    split_ifs at hz
    · cases hz
      exact hid.nonce
    · cases hz

theorem getMessage_read (id : FlaggedTransactionId) : id.getMessage.read = .ok id.written := by
  obtain ⟨⟨start, account, nonce⟩, scheduled⟩ := id
  unfold HieroTransactionIdMessage.read getMessage written
  dsimp only
  rw [Hiero.AccountId.getMessage_read]
  unfold TimestampMessage.read
  dsimp only
  have hnonce : (if nonce ≠ 0 then some nonce else none).getD 0 = nonce := by
    split_ifs with hzero
    · rfl
    · exact (not_not.1 hzero).symm
  rw [hnonce]
  cases scheduled <;> rfl

/-- A transaction id on the wire. -/
def bytes (id : FlaggedTransactionId) : Block :=
  HieroTransactionIdMessage.format.encode id.getMessage

/-- What the message of a transaction id takes. -/
theorem length_bytes (id : FlaggedTransactionId) :
    let start := (TimestampMessage.format.encode id.startMessage).length
    let account := (HieroAccountIdMessage.format.encode id.mAccountId.getMessage).length
    id.bytes.length = 2 + varintSize start + start + varintSize account + account +
      (if id.mScheduled then 2 else 0) +
      if id.mNonce ≠ 0 then 1 + varintSize (ofInt id.mNonce) else 0 := by
  have hstart := length_message_some TimestampMessage.format (show 1 < 16 by decide)
    id.startMessage
  have haccount := length_message_some HieroAccountIdMessage.format (show 2 < 16 by decide)
    id.mAccountId.getMessage
  have hscheduled : (encodeFields (optionalField 3 (fun b => Value.varint (boolNumber b))
      (if id.mScheduled then some true else none))).length = if id.mScheduled then 2 else 0 := by
    cases id.mScheduled
    · rfl
    · rw [if_pos rfl, if_pos rfl, length_encodeFields_some, length_encode_varint (by decide)]
      rfl
  have hnonce : (encodeFields (signed 4 (if id.mNonce ≠ 0 then some id.mNonce else none))).length =
      if id.mNonce ≠ 0 then 1 + varintSize (ofInt id.mNonce) else 0 := by
    split_ifs
    · exact length_signed_some (by decide) _
    · rfl
  have hbytes : id.bytes = encodeFields (message TimestampMessage.format 1 (some id.startMessage) ++
      message HieroAccountIdMessage.format 2 (some id.mAccountId.getMessage) ++
      optionalField 3 (fun b => .varint (boolNumber b))
        (if id.mScheduled then some true else none) ++
      signed 4 (if id.mNonce ≠ 0 then some id.mNonce else none)) := rfl
  dsimp only
  rw [hbytes, length_encodeFields_append, length_encodeFields_append, length_encodeFields_append,
    hscheduled, hnonce, haccount, hstart]
  omega

/-- The buffer is large enough for a transaction id. -/
def FitsBuffer (id : FlaggedTransactionId) : Prop :=
  id.bytes.length ≤ id.calculateSerializedSize + 10

/-- Numbers without sign, nanoseconds of less than a second, and an alias of less than 16 kB. -/
structure Usual (id : FlaggedTransactionId) : Prop where
  seconds : 0 ≤ id.mTransactionValidStart.seconds
  nanos : 0 ≤ id.mTransactionValidStart.nanos
  shard : 0 ≤ id.mAccountId.mShardNum
  realm : 0 ≤ id.mAccountId.mRealmNum
  account : 0 ≤ id.mAccountId.mAccountNum
  nonce : 0 ≤ id.mNonce
  alias_lt : id.mAccountId.mAlias.length < 16384

/-- The estimate is enough for them. -/
theorem Usual.fitsBuffer (h : id.Usual) (hid : id.InRange) : id.FitsBuffer := by
  have hseconds := varintSize_ofInt_le_nine hid.seconds h.seconds
  have hnanos := varintSize_ofInt_le_five hid.nanos h.nanos
  have hshard := varintSize_ofInt_le_nine hid.account.shard h.shard
  have hrealm := varintSize_ofInt_le_nine hid.account.realm h.realm
  have hnonce := varintSize_ofInt_le_five hid.nonce h.nonce
  have hstart := length_startMessage id
  have hstartSize := varintSize_of_lt (Nat.lt_of_le_of_lt (length_startMessage_le id)
    (show 22 < 128 by decide))
  have hscheduled : (if id.mScheduled then 2 else 0) ≤ 2 := by split_ifs <;> omega
  have hnonceField : (if id.mNonce ≠ 0 then 1 + varintSize (ofInt id.mNonce) else 0) ≤ 6 := by
    split_ifs <;> omega
  have hlength := length_bytes id
  dsimp only at hlength
  unfold FitsBuffer calculateSerializedSize Hiero.AccountId.calculateSerializedSize
  cases hempty : isEmpty id.mAccountId.mAlias with
  | true =>
    have hnum := varintSize_ofInt_le_nine hid.account.account h.account
    have haccount := Hiero.AccountId.length_encode_num hempty
    have haccountSize : varintSize (HieroAccountIdMessage.format.encode
        id.mAccountId.getMessage).length = 1 := varintSize_of_lt (by omega)
    rw [if_neg (by decide)]
    omega
  | false =>
    have halias : varintSize id.mAccountId.mAlias.length ≤ 2 :=
      (varintSize_le_iff (Nat.lt_trans h.alias_lt (by decide)) 1).2 h.alias_lt
    have haccount := Hiero.AccountId.length_encode_alias hempty
    have hlt := h.alias_lt
    have haccountLt : (HieroAccountIdMessage.format.encode id.mAccountId.getMessage).length <
        128 ^ (2 + 1) := by omega
    have haccountSize := (varintSize_le_iff (Nat.lt_trans haccountLt (by decide)) 2).2 haccountLt
    rw [if_pos rfl]
    omega

end FlaggedTransactionId

/-! ### Reading back under the own type -/

namespace Coders

variable {c : Coders} {numbers : AnchorNumbers}

theorem serializeAccountId_eq (h : c.Conform) {a : Hiero.AccountId} (ha : a.InRange)
    (hsmall : a.Small) :
    c.serializeAccountId a = some (HieroAccountIdMessage.format.encode a.getMessage) := by
  have hne : HieroAccountIdMessage.format.fields a.getMessage ≠ [] := by
    unfold Hiero.AccountId.getMessage
    split_ifs <;> exact List.cons_ne_nil _ _
  rw [serializeAccountId, encode_eq h.accountId (Hiero.AccountId.getMessage_valid ha hsmall) hne,
    if_pos (Hiero.AccountId.length_encode_le hsmall)]

theorem serializeTopicId_eq (h : c.Conform) {t : Hiero.TopicId} (ht : t.InRange) :
    c.serializeTopicId t = some (HieroTopicIdMessage.format.encode t.getMessage) := by
  rw [serializeTopicId, encode_eq h.topicId (Hiero.TopicId.getMessage_valid ht)
    (List.cons_ne_nil _ _), if_pos t.length_encode_le]

theorem serializeTransactionId_eq (h : c.Conform) {id : FlaggedTransactionId} (hid : id.InRange)
    (hsmall : id.mAccountId.Small) : c.serializeTransactionId id =
      if id.bytes.length ≤ id.calculateSerializedSize + 10 then some id.bytes else none :=
  encode_eq h.transactionId (FlaggedTransactionId.getMessage_valid hid hsmall)
    (List.cons_ne_nil _ _) _

theorem tryRead_accountId (h : c.Conform) {a : Hiero.AccountId} (ha : a.InRange)
    (hsmall : a.Small) : tryRead c.accountId.decode HieroAccountIdMessage.read
      (HieroAccountIdMessage.format.encode a.getMessage) = some a.written := by
  have hvalid := Hiero.AccountId.getMessage_valid ha hsmall
  rw [tryRead_eq h.accountId hvalid (HieroAccountIdMessage.format.read_fields _ hvalid),
    Hiero.AccountId.getMessage_read]
  rfl

theorem tryRead_topicId (h : c.Conform) {t : Hiero.TopicId} (ht : t.InRange) :
    tryRead c.topicId.decode HieroTopicIdMessage.read
      (HieroTopicIdMessage.format.encode t.getMessage) = some t := by
  have hvalid := Hiero.TopicId.getMessage_valid ht
  rw [tryRead_eq h.topicId hvalid (HieroTopicIdMessage.format.read_fields _ hvalid)]
  rfl

theorem tryRead_transactionId (h : c.Conform) {id : FlaggedTransactionId} (hid : id.InRange)
    (hsmall : id.mAccountId.Small) :
    tryRead c.transactionId.decode HieroTransactionIdMessage.read id.bytes = some id.written := by
  have hvalid := FlaggedTransactionId.getMessage_valid hid hsmall
  rw [FlaggedTransactionId.bytes,
    tryRead_eq h.transactionId hvalid (HieroTransactionIdMessage.format.read_fields _ hvalid),
    FlaggedTransactionId.getMessage_read]
  rfl

variable (mData : Block)

/-- With the type of an account the first attempt is at an account. -/
theorem run_accountId {a : Hiero.AccountId}
    (ha : tryRead c.accountId.decode HieroAccountIdMessage.read mData = some a) :
    c.run numbers mData .HIERO_ACCOUNT_ID = .hieroAccountId a := by
  rw [run, attempt_of_ne (by decide) (by decide), ha]
  exact attempt_of_some (.inl rfl)

theorem run_topicId {t : Hiero.TopicId}
    (ht : tryRead c.topicId.decode HieroTopicIdMessage.read mData = some t) :
    c.run numbers mData .HIERO_TOPIC_ID = .hieroTopicId t := by
  rw [run, attempt_of_ne (by decide) (by decide), attempt_of_ne (by decide) (by decide), ht]
  exact attempt_of_some (.inl rfl)

theorem run_transactionId {id : FlaggedTransactionId}
    (hid : tryRead c.transactionId.decode HieroTransactionIdMessage.read mData = some id) :
    c.run numbers mData .HIERO_TRANSACTION_ID = .hieroTransactionId id := by
  rw [run, attempt_of_ne (by decide) (by decide), attempt_of_ne (by decide) (by decide),
    attempt_of_ne (by decide) (by decide), hid]
  exact attempt_of_some (.inl rfl)

theorem run_ledgerAnchor {anchor : LedgerAnchor} (hanchor : tryRead c.ledgerAnchor.decode
      (LedgerAnchorMessage.read numbers) mData = some anchor) :
    c.run numbers mData .LEDGER_ANCHOR = .ledgerAnchor anchor := by
  rw [run, attempt_of_ne (by decide) (by decide), attempt_of_ne (by decide) (by decide),
    attempt_of_ne (by decide) (by decide), attempt_of_ne (by decide) (by decide),
    runLedgerAnchor, if_pos rfl, hanchor]

/-- Accounts, topics and transaction ids are written and read back.  An account loses an alias of
zeros, and its number to another alias; a transaction id is lost when it does not fit the buffer. -/
theorem ids_readBack (h : c.Conform) (numbers : AnchorNumbers) :
    (∀ a : Hiero.AccountId, a.InRange → a.Small →
      ((c.serializeAccountId a).map (fun bytes => c.run numbers bytes .HIERO_ACCOUNT_ID) =
          some (.hieroAccountId a) ↔
        a.mAlias = [] ∨ isEmpty a.mAlias = false ∧ a.mAccountNum = 0)) ∧
    (∀ t : Hiero.TopicId, t.InRange →
      (c.serializeTopicId t).map (fun bytes => c.run numbers bytes .HIERO_TOPIC_ID) =
        some (.hieroTopicId t)) ∧
    (∀ id : FlaggedTransactionId, id.InRange → id.mAccountId.Small →
      ((c.serializeTransactionId id).map (fun bytes => c.run numbers bytes .HIERO_TRANSACTION_ID) =
          some (.hieroTransactionId id) ↔
        id.FitsBuffer ∧ (id.mAccountId.mAlias = [] ∨
          isEmpty id.mAccountId.mAlias = false ∧ id.mAccountId.mAccountNum = 0))) ∧
    ∀ id : FlaggedTransactionId, id.InRange → id.Usual → id.FitsBuffer := by
  refine ⟨fun a ha hsmall => ?_, fun t ht => ?_, fun id hid hsmall => ?_,
    fun id hid husual => husual.fitsBuffer hid⟩
  · rw [serializeAccountId_eq h ha hsmall, Option.map_some,
      run_accountId _ (tryRead_accountId h ha hsmall), ← a.written_eq_iff, Option.some.injEq,
      Deserialized.hieroAccountId.injEq]
  · rw [serializeTopicId_eq h ht, Option.map_some, run_topicId _ (tryRead_topicId h ht)]
  · rw [serializeTransactionId_eq h hid hsmall, ← id.mAccountId.written_eq_iff,
      ← id.written_eq_iff, FlaggedTransactionId.FitsBuffer]
    split_ifs with hfits
    · rw [Option.map_some, run_transactionId _ (tryRead_transactionId h hid hsmall),
        Option.some.injEq, Deserialized.hieroTransactionId.injEq]
      exact (and_iff_right hfits).symm
    · exact iff_of_false (fun hnone => Option.some_ne_none _ hnone.symm) (fun hand => hfits hand.1)

end Coders

/-! ### Ledger anchors -/

namespace AnchorNumbers

variable (numbers : AnchorNumbers)

/-- The type of an anchor is found by its number. -/
theorem find?_number (t : LedgerAnchorType) :
    LedgerAnchorType.all.find? (fun t' => decide (numbers.number t' = numbers.number t)) =
      some t := by
  have hsame : (fun t' => decide (numbers.number t' = numbers.number t)) =
      fun t' => decide (t' = t) := by
    funext t'
    exact decide_eq_decide.2 numbers.injective.eq_iff
  rw [hsame]
  cases t with
  | legacyGradidoDb type => cases type <;> decide
  | _ => decide

theorem ledgerAnchor_number {t : LedgerAnchorType} {id : ℕ} {anchor : LedgerAnchor}
    (h : t.withId id = some anchor) : numbers.ledgerAnchor id (numbers.number t) = .ok anchor := by
  rw [ledgerAnchor, numbers.find?_number, Option.bind_some, h]

end AnchorNumbers

namespace FlaggedTransactionId

variable {seconds nanos accountNum : ℤ}
  (h : AnchorInRange (.hieroTransactionId seconds nanos accountNum))

include h

theorem fromCompact_inRange : (fromCompact seconds nanos accountNum).InRange :=
  ⟨h.1, h.2.1, ⟨show Scan.IsInt64 0 by decide, show Scan.IsInt64 0 by decide, h.2.2.isInt64⟩,
    show IsInt32 0 by decide⟩

/-- A compact id is printed, read and made compact again. -/
theorem toCompact_fromCompact : (fromCompact seconds nanos accountNum).toCompact =
    .ok (.hieroTransactionId seconds nanos accountNum) := by
  have hnum : Wire.toInt32 accountNum = accountNum := by
    have hrange := h.2.2
    unfold IsInt32 at hrange
    exact Int.bmod_eq_of_le (by omega) (by omega)
  unfold toCompact fromCompact
  dsimp only
  rw [if_neg (by decide), if_neg (by decide), hnum, if_neg (not_not_intro rfl)]

omit h in
theorem length_fromCompact_le (seconds nanos accountNum : ℤ) :
    (fromCompact seconds nanos accountNum).bytes.length ≤ 41 := by
  have hstart := length_startMessage_le (fromCompact seconds nanos accountNum)
  have hstartSize := varintSize_of_lt (Nat.lt_of_le_of_lt hstart (show 22 < 128 by decide))
  have hnum := varintSize_le_ten (ofInt_fits accountNum)
  have hzero : varintSize (ofInt 0) = 1 := rfl
  have haccount : (HieroAccountIdMessage.format.encode
      (fromCompact seconds nanos accountNum).mAccountId.getMessage).length =
        3 + varintSize (ofInt 0) + varintSize (ofInt 0) + varintSize (ofInt accountNum) :=
    Hiero.AccountId.length_encode_num rfl
  have haccountSize : varintSize (HieroAccountIdMessage.format.encode
      (fromCompact seconds nanos accountNum).mAccountId.getMessage).length = 1 :=
    varintSize_of_lt (by omega)
  have hlength := length_bytes (fromCompact seconds nanos accountNum)
  dsimp only at hlength
  rw [if_neg (show ¬ (fromCompact seconds nanos accountNum).mScheduled = true from
      Bool.false_ne_true),
    if_neg (show ¬ (fromCompact seconds nanos accountNum).mNonce ≠ 0 from not_not_intro rfl)]
    at hlength
  omega

end FlaggedTransactionId

theorem getMessage_valid (numbers : AnchorNumbers) {anchor : LedgerAnchor}
    (h : AnchorInRange anchor) : LedgerAnchorMessage.format.Valid (getMessage numbers anchor) := by
  have htype : ∀ n ∈ some (numbers.number (getType anchor)), Fits n := by
    rintro n ⟨⟩
    exact Nat.lt_trans (numbers.lt _) (by decide)
  cases anchor with
  | unspecified => exact ⟨htype, by rintro a ⟨⟩, by rintro n ⟨⟩⟩
  | hieroTransactionId seconds nanos accountNum =>
    refine ⟨htype, ?_, by rintro n ⟨⟩⟩
    rintro a ⟨⟩
    exact ⟨FlaggedTransactionId.getMessage_valid (FlaggedTransactionId.fromCompact_inRange h)
      (show 0 < _ by decide),
      Nat.lt_of_le_of_lt (FlaggedTransactionId.length_fromCompact_le _ _ _) (by decide)⟩
  | legacyGradidoDb type id => exact ⟨htype, by rintro a ⟨⟩, by rintro n ⟨⟩; exact h⟩
  | nodeTrigger id => exact ⟨htype, by rintro a ⟨⟩, by rintro n ⟨⟩; exact h⟩

theorem getMessage_read {numbers : AnchorNumbers} {anchor : LedgerAnchor}
    (h : AnchorInRange anchor) : (getMessage numbers anchor).read numbers = .ok anchor := by
  cases anchor with
  | unspecified => rfl
  | hieroTransactionId seconds nanos accountNum =>
    have hwritten : (FlaggedTransactionId.fromCompact seconds nanos accountNum).written =
        FlaggedTransactionId.fromCompact seconds nanos accountNum :=
      (FlaggedTransactionId.written_eq_iff _).2 rfl
    have hread : (getMessage numbers (.hieroTransactionId seconds nanos accountNum)).read numbers =
        (FlaggedTransactionId.fromCompact seconds nanos accountNum).getMessage.read.bind
          FlaggedTransactionId.toCompact := rfl
    rw [hread, FlaggedTransactionId.getMessage_read, hwritten]
    exact FlaggedTransactionId.toCompact_fromCompact h
  | legacyGradidoDb type id => exact numbers.ledgerAnchor_number rfl
  | nodeTrigger id => exact numbers.ledgerAnchor_number rfl

/-- The bytes of an anchor: two for its type, and those of what it holds. -/
theorem length_encode_anchor (numbers : AnchorNumbers) (anchor : LedgerAnchor) :
    (LedgerAnchorMessage.format.encode (getMessage numbers anchor)).length = 2 +
      match anchor with
      | .hieroTransactionId seconds nanos accountNum =>
        1 + varintSize (FlaggedTransactionId.fromCompact seconds nanos accountNum).bytes.length +
          (FlaggedTransactionId.fromCompact seconds nanos accountNum).bytes.length
      | .legacyGradidoDb _ id => 1 + varintSize id
      | .nodeTrigger id => 1 + varintSize id
      | .unspecified => 0 := by
  have htype : (encodeFields (optionalField 1 Value.varint
      (some (numbers.number (getType anchor))))).length = 2 := by
    rw [length_encodeFields_some, length_encode_varint (by decide),
      varintSize_of_lt (numbers.lt _)]
  have hid (id : ℕ) : (encodeFields (optionalField 4 Value.varint (some id))).length =
      1 + varintSize id := by
    rw [length_encodeFields_some, length_encode_varint (by decide)]
  have hfields : LedgerAnchorMessage.format.encode (getMessage numbers anchor) =
      encodeFields (optionalField 1 Value.varint (some (numbers.number (getType anchor))) ++
        message HieroTransactionIdMessage.format 3 (getMessage numbers anchor).hieroTransactionId ++
        optionalField 4 Value.varint (getMessage numbers anchor).id) := rfl
  rw [hfields, length_encodeFields_append, length_encodeFields_append, htype, Nat.add_assoc]
  refine congrArg (2 + ·) ?_
  cases anchor with
  | unspecified => rfl
  | hieroTransactionId seconds nanos accountNum =>
    simp only [getMessage, length_message_some _ (show 3 < 16 by decide),
      length_encodeFields_none, Nat.add_zero, FlaggedTransactionId.bytes]
  | legacyGradidoDb type id =>
    simp only [getMessage, message, length_encodeFields_none, hid, Nat.zero_add]
  | nodeTrigger id =>
    simp only [getMessage, message, length_encodeFields_none, hid, Nat.zero_add]

/-- The estimate is enough for every anchor, though it leaves most numbers out. -/
theorem length_encode_anchor_le {numbers : AnchorNumbers} {anchor : LedgerAnchor}
    (h : AnchorInRange anchor) :
    (LedgerAnchorMessage.format.encode (getMessage numbers anchor)).length ≤
      anchorSerializedSize anchor + 10 := by
  rw [length_encode_anchor]
  unfold anchorSerializedSize
  cases anchor with
  | unspecified => dsimp only; omega
  | hieroTransactionId seconds nanos accountNum =>
    have hlength := FlaggedTransactionId.length_fromCompact_le seconds nanos accountNum
    have hsize := varintSize_of_lt (Nat.lt_of_le_of_lt hlength (show 41 < 128 by decide))
    dsimp only
    omega
  | legacyGradidoDb type id =>
    have hid : varintSize id ≤ 10 := varintSize_le_ten h
    cases type <;> dsimp only <;> omega
  | nodeTrigger id =>
    have hid : varintSize id ≤ 10 := varintSize_le_ten h
    dsimp only
    omega

namespace Coders

variable {c : Coders} {numbers : AnchorNumbers} {anchor : LedgerAnchor}

theorem serializeLedgerAnchor_eq (h : c.Conform) (hanchor : AnchorInRange anchor) :
    c.serializeLedgerAnchor numbers anchor =
      some (LedgerAnchorMessage.format.encode (getMessage numbers anchor)) := by
  rw [serializeLedgerAnchor, encode_eq h.ledgerAnchor (getMessage_valid numbers hanchor)
    (List.cons_ne_nil _ _), if_pos (length_encode_anchor_le hanchor)]

/-- Every anchor is written, and read back under its type. -/
theorem ledgerAnchor_readsBack (h : c.Conform) (hanchor : AnchorInRange anchor) :
    (c.serializeLedgerAnchor numbers anchor).map
        (fun bytes => c.run numbers bytes .LEDGER_ANCHOR) = some (.ledgerAnchor anchor) := by
  have hvalid := getMessage_valid numbers hanchor
  have hread : tryRead c.ledgerAnchor.decode (LedgerAnchorMessage.read numbers)
      (LedgerAnchorMessage.format.encode (getMessage numbers anchor)) = some anchor := by
    rw [tryRead_eq h.ledgerAnchor hvalid (LedgerAnchorMessage.format.read_fields _ hvalid),
      getMessage_read hanchor]
    rfl
  rw [serializeLedgerAnchor_eq h hanchor, Option.map_some, run_ledgerAnchor _ hread]

/-! ### Reading without a type -/

/-- Without a type, what is no trigger event but an account is taken for one. -/
theorem run_unknown_accountId {mData : Block} {a : Hiero.AccountId}
    (hevent : tryRead c.triggerEvent.decode TransactionTriggerEventMessage.read mData = none)
    (ha : tryRead c.accountId.decode HieroAccountIdMessage.read mData = some a) :
    c.run numbers mData .UNKNOWN = .hieroAccountId a := by
  rw [run, hevent, ha]
  rfl

/-- What is neither that nor a topic may be a transaction id, and is nothing otherwise. -/
theorem run_unknown_transactionId {mData : Block}
    (hevent : tryRead c.triggerEvent.decode TransactionTriggerEventMessage.read mData = none)
    (haccount : tryRead c.accountId.decode HieroAccountIdMessage.read mData = none)
    (htopic : tryRead c.topicId.decode HieroTopicIdMessage.read mData = none) :
    c.run numbers mData .UNKNOWN =
      match tryRead c.transactionId.decode HieroTransactionIdMessage.read mData with
      | some id => .hieroTransactionId id
      | none => .nothing .UNKNOWN := by
  rw [run, hevent, haccount, htopic]
  cases tryRead c.transactionId.decode HieroTransactionIdMessage.read mData <;> rfl

/-- The fields of a topic are those of an account. -/
theorem accountId_read_topicId (t : Hiero.TopicId) (ht : t.InRange) :
    HieroAccountIdMessage.format.read (HieroTopicIdMessage.format.fields t.getMessage) =
      some ⟨some t.mShardNum, some t.mRealmNum, some t.mTopicNum, none⟩ := by
  simp [HieroAccountIdMessage.format, HieroTopicIdMessage.format, Hiero.TopicId.getMessage,
    asInt64_ofInt ht.shard, asInt64_ofInt ht.realm, asInt64_ofInt ht.topic]

/-- Of the fields of a transaction id an account only finds the flag, in the place of its number. -/
theorem accountId_read_transactionId (id : FlaggedTransactionId) :
    HieroAccountIdMessage.format.read (HieroTransactionIdMessage.format.fields id.getMessage) =
      some ⟨none, none, if id.mScheduled then some 1 else none, none⟩ := by
  cases hscheduled : id.mScheduled <;>
    simp [HieroAccountIdMessage.format, HieroTransactionIdMessage.format,
      FlaggedTransactionId.getMessage, hscheduled, boolNumber]
  decide

theorem topicId_read_transactionId (id : FlaggedTransactionId) :
    HieroTopicIdMessage.format.read (HieroTransactionIdMessage.format.fields id.getMessage) =
      some ⟨none, none, if id.mScheduled then some 1 else none⟩ := by
  cases hscheduled : id.mScheduled <;>
    simp [HieroTopicIdMessage.format, HieroTransactionIdMessage.format,
      FlaggedTransactionId.getMessage, hscheduled, boolNumber]
  decide

/-- The reader without a type: a topic is taken for an account, so is a transaction id that is
scheduled, and a ledger anchor for nothing. -/
theorem run_unknown (h : c.Conform) (numbers : AnchorNumbers) :
    (∀ a : Hiero.AccountId, a.InRange → a.Small →
      (c.serializeAccountId a).map (fun bytes => c.run numbers bytes .UNKNOWN) =
        some (.hieroAccountId a.written)) ∧
    (∀ t : Hiero.TopicId, t.InRange →
      (c.serializeTopicId t).map (fun bytes => c.run numbers bytes .UNKNOWN) =
        some (.hieroAccountId ⟨t.mShardNum, t.mRealmNum, t.mTopicNum, []⟩)) ∧
    (∀ id : FlaggedTransactionId, id.InRange → id.mAccountId.Small → id.FitsBuffer →
      (c.serializeTransactionId id).map (fun bytes => c.run numbers bytes .UNKNOWN) =
        some (if id.mScheduled then .hieroAccountId ⟨0, 0, 1, []⟩
          else .hieroTransactionId id.written)) ∧
    ∀ anchor, AnchorInRange anchor →
      (c.serializeLedgerAnchor numbers anchor).map (fun bytes => c.run numbers bytes .UNKNOWN) =
        some (.nothing .UNKNOWN) := by
  refine ⟨fun a ha hsmall => ?_, fun t ht => ?_, fun id hid hsmall hfits => ?_,
    fun anchor hanchor => ?_⟩
  · have hevent := tryRead_triggerEvent h (Hiero.AccountId.getMessage_valid ha hsmall)
      (.inr (by simp [HieroAccountIdMessage.format]))
    rw [serializeAccountId_eq h ha hsmall, Option.map_some,
      run_unknown_accountId hevent (tryRead_accountId h ha hsmall)]
  · have hvalid := Hiero.TopicId.getMessage_valid ht
    have hevent := tryRead_triggerEvent h hvalid (.inr (by simp [HieroTopicIdMessage.format]))
    have haccount := tryRead_eq h.accountId hvalid (accountId_read_topicId t ht)
      HieroAccountIdMessage.read
    rw [serializeTopicId_eq h ht, Option.map_some, run_unknown_accountId hevent haccount]
    rfl
  · have hvalid := FlaggedTransactionId.getMessage_valid hid hsmall
    have hevent := tryRead_triggerEvent h hvalid
      (.inl (by simp [HieroTransactionIdMessage.format]))
    have haccount := tryRead_eq h.accountId hvalid (accountId_read_transactionId id)
      HieroAccountIdMessage.read
    unfold FlaggedTransactionId.FitsBuffer at hfits
    rw [serializeTransactionId_eq h hid hsmall, if_pos hfits, Option.map_some]
    refine congrArg some ?_
    cases hscheduled : id.mScheduled with
    | true =>
      rw [hscheduled] at haccount
      exact run_unknown_accountId hevent haccount
    | false =>
      have htopic := tryRead_eq h.topicId hvalid (topicId_read_transactionId id)
        HieroTopicIdMessage.read
      rw [hscheduled] at haccount htopic
      have hid := tryRead_transactionId h hid hsmall
      refine (run_unknown_transactionId hevent haccount htopic).trans ?_
      rw [FlaggedTransactionId.bytes] at hid
      rw [hid]
      rfl
  · have hvalid := getMessage_valid numbers hanchor
    have hevent := tryRead_triggerEvent h hvalid (.inr (by simp [LedgerAnchorMessage.format]))
    have haccount : HieroAccountIdMessage.format.read
        (LedgerAnchorMessage.format.fields (getMessage numbers anchor)) =
          some ⟨some (asInt64 (numbers.number (getType anchor))), none, none, none⟩ := by
      simp [HieroAccountIdMessage.format, LedgerAnchorMessage.format, getMessage]
    have htopic : HieroTopicIdMessage.format.read
        (LedgerAnchorMessage.format.fields (getMessage numbers anchor)) =
          some ⟨some (asInt64 (numbers.number (getType anchor))), none, none⟩ := by
      simp [HieroTopicIdMessage.format, LedgerAnchorMessage.format, getMessage]
    have hid : HieroTransactionIdMessage.format.read
        (LedgerAnchorMessage.format.fields (getMessage numbers anchor)) =
          some ⟨none, none, none, (getMessage numbers anchor).id.map asInt32⟩ := by
      simp [HieroTransactionIdMessage.format, LedgerAnchorMessage.format,
        Format.lastMessage_of_none]
    rw [serializeLedgerAnchor_eq h hanchor, Option.map_some,
      run_unknown_transactionId hevent
        (tryRead_eq h.accountId hvalid haccount HieroAccountIdMessage.read)
        (tryRead_eq h.topicId hvalid htopic HieroTopicIdMessage.read),
      tryRead_eq h.transactionId hvalid hid HieroTransactionIdMessage.read]
    rfl

end Coders

namespace Sample

/-- A coder of trigger events. -/
def triggerEvent : MessageCoder Block where
  encode m := some (encodeFields (optionalField 1 Value.varint m.linkedTransactionNr ++
    message TimestampMessage.format 2 m.targetDate ++
    optionalField 3 (fun t => .varint (boolNumber (decide (t ≠ TransactionTriggerEventType.NONE))))
      m.type))
  decode bytes :=
    match readFields bytes with
    | none => none
    | some fields => (TimestampMessage.format.lastMessage 2 fields).map (fun targetDate =>
        ⟨lastVarint 1 fields, targetDate, (lastVarint 3 fields).map
          (fun n => if n = 0 then .NONE else .DEFERRED_TIMEOUT_REVERSAL)⟩)

/-- The coders that are nothing but the formats. -/
def coders : Coders where
  triggerEvent := triggerEvent
  accountId := .ofFormat HieroAccountIdMessage.format
  topicId := .ofFormat HieroTopicIdMessage.format
  transactionId := .ofFormat HieroTransactionIdMessage.format
  ledgerAnchor := .ofFormat LedgerAnchorMessage.format

theorem coders_conform : coders.Conform where
  accountId := Coder.ofFormat_conforms _
  topicId := Coder.ofFormat_conforms _
  transactionId := Coder.ofFormat_conforms _
  ledgerAnchor := Coder.ofFormat_conforms _
  linkedTransactionNr bytes fields m hread hnone hdecode := by
    simp only [coders, triggerEvent, hread, Option.map_eq_some_iff] at hdecode
    obtain ⟨targetDate, -, rfl⟩ := hdecode
    exact hnone
  targetDate bytes fields m hread hnone hdecode := by
    simp only [coders, triggerEvent, hread, Option.map_eq_some_iff] at hdecode
    obtain ⟨targetDate, hdate, rfl⟩ := hdecode
    rw [Format.lastMessage_of_none _ hnone] at hdate
    exact (Option.some.inj hdate).symm

/-- The types of an anchor in their order. -/
def numbers : AnchorNumbers where
  number
    | .unspecified => 0
    | .hieroTransactionId => 1
    | .legacyGradidoDb .transaction => 2
    | .legacyGradidoDb .community => 3
    | .legacyGradidoDb .user => 4
    | .legacyGradidoDb .contribution => 5
    | .legacyGradidoDb .transactionLink => 6
    | .nodeTrigger => 7
  injective t t' h := by
    cases t with
    | legacyGradidoDb type => cases type <;> cases t' with
      | legacyGradidoDb type' => cases type' <;> first | rfl | cases h
      | _ => cases h
    | _ => cases t' with
      | legacyGradidoDb type' => cases type' <;> cases h
      | _ => first | rfl | cases h
  lt t := by
    cases t with
    | legacyGradidoDb type => cases type <;> decide
    | _ => decide

/-- A transaction id of the public ledger. -/
def transactionId : FlaggedTransactionId := ⟨⟨⟨1755503343, 736000193⟩, ⟨0, 0, 256009, []⟩, 0⟩, true⟩

theorem transactionId_inRange : transactionId.InRange :=
  ⟨by decide, by decide, ⟨by decide, by decide, by decide⟩, by decide⟩

theorem transactionId_fitsBuffer : transactionId.FitsBuffer :=
  FlaggedTransactionId.Usual.fitsBuffer (by constructor <;> decide) transactionId_inRange

end Sample

theorem Coders.ids_readBack_sample :
    (Sample.coders.serializeTransactionId Sample.transactionId).map
        (fun bytes => Sample.coders.run Sample.numbers bytes .HIERO_TRANSACTION_ID) =
      some (.hieroTransactionId Sample.transactionId) :=
  ((ids_readBack Sample.coders_conform Sample.numbers).2.2.1 Sample.transactionId
    Sample.transactionId_inRange (by show 0 < _; decide)).2
      ⟨Sample.transactionId_fitsBuffer, .inl rfl⟩

theorem Coders.ledgerAnchor_readsBack_sample :
    (Sample.coders.serializeLedgerAnchor Sample.numbers (.nodeTrigger 5)).map
        (fun bytes => Sample.coders.run Sample.numbers bytes .LEDGER_ANCHOR) =
      some (.ledgerAnchor (.nodeTrigger 5)) :=
  ledgerAnchor_readsBack Sample.coders_conform (show Fits 5 by decide)

/-- A transaction id that is scheduled is taken for the first account. -/
theorem Coders.run_unknown_sample :
    (Sample.coders.serializeTransactionId Sample.transactionId).map
        (fun bytes => Sample.coders.run Sample.numbers bytes .UNKNOWN) =
      some (.hieroAccountId ⟨0, 0, 1, []⟩) :=
  (run_unknown Sample.coders_conform Sample.numbers).2.2.1 Sample.transactionId
    Sample.transactionId_inRange (by show 0 < _; decide) Sample.transactionId_fitsBuffer

end Gradido.Wire
