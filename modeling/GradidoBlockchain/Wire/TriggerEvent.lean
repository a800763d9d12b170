import GradidoBlockchain.Blockchain.InMemory

/-!
# Trigger events on the wire

The serialization of a trigger event writes the seconds and the nanoseconds of
its target date.  Its reader makes a time point of them, and the event a
timestamp of the time point, so what is read is the date in whole microseconds.
-/

namespace Gradido.Wire

/-- `data::TransactionTriggerEventType`. -/
inductive TransactionTriggerEventType
  | NONE
  | DEFERRED_TIMEOUT_REVERSAL
deriving DecidableEq, Repr

/-- `data::TransactionTriggerEvent` with its type; a chain keeps events of one type only. -/
structure TransactionTriggerEvent extends Gradido.TransactionTriggerEvent where
  type : TransactionTriggerEventType
deriving DecidableEq, Repr

/-- `TransactionTriggerEvent::isTheSame`. -/
def TransactionTriggerEvent.isTheSame (e : TransactionTriggerEvent) :
    Option TransactionTriggerEvent → Bool
  | none => false
  | some other => decide (other.linkedTransactionId = e.linkedTransactionId) &&
      decide (other.targetDate = e.targetDate) && decide (other.type = e.type)

/-- `TimestampMessage`. -/
structure TimestampMessage where
  seconds : Option ℤ
  nanos : Option ℤ

/-- `TransactionTriggerEventMessage`. -/
structure TransactionTriggerEventMessage where
  linkedTransactionNr : Option ℕ
  targetDate : Option TimestampMessage
  type : Option TransactionTriggerEventType

/-- The exceptions of the reader. -/
inductive DeserializeException
  | missingMember (what memberName : String)
  | badOptionalAccess
deriving DecidableEq, Repr

/-- `serialize::TransactionTriggerEventRole::getMessage`. -/
def TransactionTriggerEvent.getMessage (e : TransactionTriggerEvent) :
    TransactionTriggerEventMessage :=
  ⟨some e.linkedTransactionId, some ⟨some e.targetDate.seconds, some e.targetDate.nanos⟩,
    some e.type⟩

/-- `deserialize::TimestampRole`. -/
def TimestampMessage.read (m : TimestampMessage) : Except DeserializeException Timestamp :=
  match m.seconds, m.nanos with
  | none, _ => .error (.missingMember "missing member on deserialize timestamp seconds" "seconds")
  | _, none => .error (.missingMember "missing member on deserialize timestamp seconds" "nanos")
  | some seconds, some nanos => .ok ⟨seconds, nanos⟩

/-- `deserialize::TransactionTriggerEventRole`. -/
def TransactionTriggerEventMessage.read (m : TransactionTriggerEventMessage) :
    Except DeserializeException TransactionTriggerEvent :=
  match m.linkedTransactionNr, m.targetDate, m.type with
  | some linkedTransactionNr, some targetDate, some type =>
    match targetDate.read with
    | .error e => .error e
    | .ok date => .ok ⟨⟨linkedTransactionNr, .ofTimepoint date.getAsTimepoint⟩, type⟩
  | _, _, _ => .error .badOptionalAccess

/-- The protobuf coder of `TransactionTriggerEventMessage`: writing may fail, and the text may not
be that of a message. -/
structure MessageCoder (Bytes : Type) where
  encode : TransactionTriggerEventMessage → Option Bytes
  decode : Bytes → Option TransactionTriggerEventMessage

namespace MessageCoder

variable {Bytes : Type} (coder : MessageCoder Bytes)

/-- Field values are read back as they were written. -/
def RoundTrips : Prop := ∀ m, ∃ bytes, coder.encode m = some bytes ∧ coder.decode bytes = some m

/-- `serialize::TransactionTriggerEventRole::run`. -/
def serialize (e : TransactionTriggerEvent) : Option Bytes := coder.encode e.getMessage

/-- `deserialize::Context::run` for a trigger event; an exception leaves the context without one. -/
def deserialize (bytes : Bytes) : Option TransactionTriggerEvent :=
  (coder.decode bytes).bind (fun m => m.read.toOption)

/-- The event that is read is the same, has the same key among the events of a chain, and removes
the event there. -/
def ReadsBack (e : TransactionTriggerEvent) : Prop :=
  ∃ read, (coder.serialize e).bind coder.deserialize = some read ∧
    e.isTheSame (some read) = true ∧ read.targetDate = e.targetDate ∧
    ∀ s : InMemory, e.toTransactionTriggerEvent ∉
      (s.removeTransactionTriggerEvent read.toTransactionTriggerEvent).mTransactionTriggerEvents

theorem deserialize_serialize {coder : MessageCoder Bytes} (h : coder.RoundTrips)
    (e : TransactionTriggerEvent) :
    (coder.serialize e).bind coder.deserialize =
      some { e with targetDate := .ofTimepoint e.targetDate.getAsTimepoint } := by
  obtain ⟨bytes, hencode, hdecode⟩ := h e.getMessage
  unfold serialize deserialize
  rw [hencode, Option.bind_some, hdecode]
  rfl

/-- An event is read back when its date survives the way over a time point: a date of whole
microseconds, and one of whole seconds before 1970. -/
theorem readsBack_iff {coder : MessageCoder Bytes} (h : coder.RoundTrips)
    {e : TransactionTriggerEvent} (hdate : e.targetDate.Normal) :
    coder.ReadsBack e ↔
      e.targetDate.nanos % 1000 = 0 ∧ (0 ≤ e.targetDate.seconds ∨ e.targetDate.nanos = 0) := by
  rw [← Timestamp.survives_iff_of_normal hdate]
  unfold ReadsBack
  rw [deserialize_serialize h]
  constructor
  · rintro ⟨read, hread, -, hkey, -⟩
    cases hread
    exact hkey
  · intro hsurvives
    have hsame : { e with targetDate := .ofTimepoint e.targetDate.getAsTimepoint } = e := by
      rw [hsurvives]
    rw [hsame]
    refine ⟨e, rfl, by simp [TransactionTriggerEvent.isTheSame], rfl, fun s hmem => ?_⟩
    simp [InMemory.removeTransactionTriggerEvent] at hmem

/-- A coder that keeps the message itself. -/
def plain : MessageCoder TransactionTriggerEventMessage := ⟨some, some⟩

/-- A timeout in the first second of 2025. -/
def timeoutInNanos (nanos : ℤ) : TransactionTriggerEvent :=
  ⟨⟨1, ⟨1735689600, nanos⟩⟩, .DEFERRED_TIMEOUT_REVERSAL⟩

theorem timeoutInNanos_not_readsBack : ¬ plain.ReadsBack (timeoutInNanos 1) := by
  rintro ⟨read, hread, -, hkey, -⟩
  have hdate : read.targetDate = ⟨1735689600, 0⟩ := by
    cases hread
    decide
  rw [hdate] at hkey
  exact absurd hkey (by decide)

theorem timeoutInNanos_readsBack : plain.ReadsBack (timeoutInNanos 1000) :=
  (readsBack_iff (fun m => ⟨m, rfl, rfl⟩) (by decide)).2 (by decide)

end MessageCoder

end Gradido.Wire
