import GradidoBlockchain.Lib.Protobuf
import GradidoBlockchain.Wire.TriggerEvent
import GradidoBlockchain.Wire.HieroId

/-!
# Hiero ids and ledger anchors as messages

The messages of `serialize/Protopuf.h` and their fields.  All fields are
optional there, so a value of zero is written like any other.
-/

namespace Gradido.Wire

open Protobuf

/-! ### Messages -/

/-- `HieroAccountIdMessage`. -/
structure HieroAccountIdMessage where
  shardNum : Option ℤ
  realmNum : Option ℤ
  accountNum : Option ℤ
  mAlias : Option Block
deriving DecidableEq

/-- `HieroTopicIdMessage`. -/
structure HieroTopicIdMessage where
  shardNum : Option ℤ
  realmNum : Option ℤ
  topicNum : Option ℤ
deriving DecidableEq

/-- `HieroTransactionIdMessage`. -/
structure HieroTransactionIdMessage where
  transactionValidStart : Option TimestampMessage
  accountID : Option HieroAccountIdMessage
  scheduled : Option Bool
  nonce : Option ℤ

/-- `LedgerAnchorMessage`; the type is the number of a `grdt_ledger_anchor`. -/
structure LedgerAnchorMessage where
  type : Option ℕ
  hieroTransactionId : Option HieroTransactionIdMessage
  id : Option ℕ

/-- An `int64` or `int32` field. -/
def signed (number : ℕ) : Option ℤ → List Field := optionalField number (fun z => .varint (ofInt z))

/-- A field that holds a message. -/
def message {M : Type} (F : Format M) (number : ℕ) : Option M → List Field :=
  optionalField number (fun m => .bytes (F.encode m))

theorem valid_signed {number : ℕ} (hnumber : number < 16) {z : Option ℤ} {f : Field}
    (hf : f ∈ signed number z) : f.Valid := by
  obtain ⟨a, -, rfl⟩ := mem_optionalField.1 hf
  exact ⟨hnumber, ofInt_fits a⟩

theorem valid_message {M : Type} {F : Format M} {number : ℕ} (hnumber : number < 16)
    {m : Option M} (hm : ∀ a ∈ m, Fits (F.encode a).length) {f : Field}
    (hf : f ∈ message F number m) : f.Valid := by
  obtain ⟨a, ha, rfl⟩ := mem_optionalField.1 hf
  exact ⟨hnumber, hm a ha⟩

section Fields

variable {number other : ℕ} (z : Option ℤ) {M : Type} (F : Format M) (m : Option M)

@[simp] theorem lastVarint_signed :
    lastVarint number (signed other z) = if other = number then z.map ofInt else none :=
  lastVarint_optionalField _

@[simp] theorem lastBytes_signed : lastBytes number (signed other z) = none :=
  lastBytes_optionalField_varint _

@[simp] theorem lastVarint_message : lastVarint number (message F other m) = none :=
  lastVarint_optionalField_bytes _

@[simp] theorem lastBytes_message :
    lastBytes number (message F other m) = if other = number then m.map F.encode else none :=
  lastBytes_optionalField _

theorem map_asInt64 {z : Option ℤ} (h : ∀ a ∈ z, Scan.IsInt64 a) :
    (z.map ofInt).map asInt64 = z := by
  cases z with
  | none => rfl
  | some a => exact congrArg some (asInt64_ofInt (h a rfl))

theorem map_asInt32 {z : Option ℤ} (h : ∀ a ∈ z, IsInt32 a) : (z.map ofInt).map asInt32 = z := by
  cases z with
  | none => rfl
  | some a => exact congrArg some (asInt32_ofInt (h a rfl))

/-- The bytes of a signed field: its key and the number. -/
@[simp] theorem length_signed_some (hnumber : number < 16) (a : ℤ) :
    (encodeFields (signed number (some a))).length = 1 + varintSize (ofInt a) := by
  rw [signed, length_encodeFields_some, length_encode_varint hnumber]

@[simp] theorem length_signed_none : (encodeFields (signed number none)).length = 0 := rfl

/-- The bytes of a message in a field: its key, its length and the message. -/
theorem length_message_some (hnumber : number < 16) (a : M) :
    (encodeFields (message F number (some a))).length =
      1 + varintSize (F.encode a).length + (F.encode a).length := by
  rw [message, length_encodeFields_some, length_encode_bytes hnumber]

end Fields

/-! ### Their formats -/

/-- The fields of `TimestampMessage`. -/
def TimestampMessage.format : Format TimestampMessage where
  fields m := signed 1 m.seconds ++ signed 2 m.nanos
  read fs := some ⟨(lastVarint 1 fs).map asInt64, (lastVarint 2 fs).map asInt32⟩
  Valid m := (∀ z ∈ m.seconds, Scan.IsInt64 z) ∧ ∀ z ∈ m.nanos, IsInt32 z
  valid_fields m _ f hf := by
    rw [List.mem_append] at hf
    exact hf.elim (valid_signed (by decide)) (valid_signed (by decide))
  read_fields m h := by
    simp [map_asInt64 h.1, map_asInt32 h.2]

/-- The fields of `HieroAccountIdMessage`. -/
def HieroAccountIdMessage.format : Format HieroAccountIdMessage where
  fields m := signed 1 m.shardNum ++ signed 2 m.realmNum ++ signed 3 m.accountNum ++
    optionalField 4 Value.bytes m.mAlias
  read fs := some ⟨(lastVarint 1 fs).map asInt64, (lastVarint 2 fs).map asInt64,
    (lastVarint 3 fs).map asInt64, lastBytes 4 fs⟩
  Valid m := (∀ z ∈ m.shardNum, Scan.IsInt64 z) ∧ (∀ z ∈ m.realmNum, Scan.IsInt64 z) ∧
    (∀ z ∈ m.accountNum, Scan.IsInt64 z) ∧ ∀ l ∈ m.mAlias, Fits l.length
  valid_fields m h f hf := by
    simp only [List.mem_append] at hf
    obtain ((hf | hf) | hf) | hf := hf
    · exact valid_signed (by decide) hf
    · exact valid_signed (by decide) hf
    · exact valid_signed (by decide) hf
    · obtain ⟨l, hl, rfl⟩ := mem_optionalField.1 hf
      exact Field.valid_bytes (by decide) (h.2.2.2 l hl)
  read_fields m h := by
    simp [map_asInt64 h.1, map_asInt64 h.2.1, map_asInt64 h.2.2.1]

/-- The fields of `HieroTopicIdMessage`. -/
def HieroTopicIdMessage.format : Format HieroTopicIdMessage where
  fields m := signed 1 m.shardNum ++ signed 2 m.realmNum ++ signed 3 m.topicNum
  read fs := some ⟨(lastVarint 1 fs).map asInt64, (lastVarint 2 fs).map asInt64,
    (lastVarint 3 fs).map asInt64⟩
  Valid m := (∀ z ∈ m.shardNum, Scan.IsInt64 z) ∧ (∀ z ∈ m.realmNum, Scan.IsInt64 z) ∧
    ∀ z ∈ m.topicNum, Scan.IsInt64 z
  valid_fields m _ f hf := by
    simp only [List.mem_append] at hf
    obtain (hf | hf) | hf := hf <;> exact valid_signed (by decide) hf
  read_fields m h := by
    simp [map_asInt64 h.1, map_asInt64 h.2.1, map_asInt64 h.2.2]

/-- The number of a Boolean field. -/
def boolNumber (b : Bool) : ℕ := if b then 1 else 0

/-- The fields of `HieroTransactionIdMessage`. -/
def HieroTransactionIdMessage.format : Format HieroTransactionIdMessage where
  fields m := message TimestampMessage.format 1 m.transactionValidStart ++
    message HieroAccountIdMessage.format 2 m.accountID ++
    optionalField 3 (fun b => .varint (boolNumber b)) m.scheduled ++ signed 4 m.nonce
  read fs :=
    match TimestampMessage.format.lastMessage 1 fs, HieroAccountIdMessage.format.lastMessage 2 fs
    with
    | some transactionValidStart, some accountID => some ⟨transactionValidStart, accountID,
        (lastVarint 3 fs).map (fun n => decide (n ≠ 0)), (lastVarint 4 fs).map asInt32⟩
    | _, _ => none
  Valid m := (∀ a ∈ m.transactionValidStart, TimestampMessage.format.Valid a ∧
      Fits (TimestampMessage.format.encode a).length) ∧
    (∀ a ∈ m.accountID, HieroAccountIdMessage.format.Valid a ∧
      Fits (HieroAccountIdMessage.format.encode a).length) ∧ ∀ z ∈ m.nonce, IsInt32 z
  valid_fields m h f hf := by
    simp only [List.mem_append] at hf
    obtain ((hf | hf) | hf) | hf := hf
    · exact valid_message (by decide) (fun a ha => (h.1 a ha).2) hf
    · exact valid_message (by decide) (fun a ha => (h.2.1 a ha).2) hf
    · obtain ⟨b, -, rfl⟩ := mem_optionalField.1 hf
      exact Field.valid_varint (by decide) (by cases b <;> decide)
    · exact valid_signed (by decide) hf
  read_fields m h := by
    rw [TimestampMessage.format.lastMessage_of_optionalField (fun a ha => (h.1 a ha).1) (by simp),
      HieroAccountIdMessage.format.lastMessage_of_optionalField (fun a ha => (h.2.1 a ha).1)
        (by simp)]
    have hscheduled : m.scheduled.map ((fun n => !decide (n = 0)) ∘ boolNumber) = m.scheduled := by
      cases m.scheduled with
      | none => rfl
      | some b => cases b <;> rfl
    simp [hscheduled, map_asInt32 h.2.2]

/-- The fields of `LedgerAnchorMessage`. -/
def LedgerAnchorMessage.format : Format LedgerAnchorMessage where
  fields m := optionalField 1 Value.varint m.type ++
    message HieroTransactionIdMessage.format 3 m.hieroTransactionId ++
    optionalField 4 Value.varint m.id
  read fs :=
    (HieroTransactionIdMessage.format.lastMessage 3 fs).map
      (fun hieroTransactionId => ⟨lastVarint 1 fs, hieroTransactionId, lastVarint 4 fs⟩)
  Valid m := (∀ n ∈ m.type, Fits n) ∧ (∀ a ∈ m.hieroTransactionId,
      HieroTransactionIdMessage.format.Valid a ∧
        Fits (HieroTransactionIdMessage.format.encode a).length) ∧ ∀ n ∈ m.id, Fits n
  valid_fields m h f hf := by
    simp only [List.mem_append] at hf
    obtain (hf | hf) | hf := hf
    · obtain ⟨n, hn, rfl⟩ := mem_optionalField.1 hf
      exact Field.valid_varint (by decide) (h.1 n hn)
    · exact valid_message (by decide) (fun a ha => (h.2.1 a ha).2) hf
    · obtain ⟨n, hn, rfl⟩ := mem_optionalField.1 hf
      exact Field.valid_varint (by decide) (h.2.2 n hn)
  read_fields m h := by
    rw [HieroTransactionIdMessage.format.lastMessage_of_optionalField
      (fun a ha => (h.2.1 a ha).1) (by simp)]
    simp

end Gradido.Wire
