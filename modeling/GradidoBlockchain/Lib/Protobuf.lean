import GradidoBlockchain.Lib.Scan

/-!
# The wire format of protocol buffers

A message is a sequence of fields.  A field is its key, a number of seven bits a
byte that holds the number of the field and the kind of its value, and the value:
again such a number, or a length and as many bytes.  Fields of one message are
bytes of another.  A reader takes the fields it knows and passes the others.
-/

namespace Protobuf

open Scan (IsInt64)

/-! ### Numbers of seven bits a byte -/

/-- A number in at most `k + 1` bytes, the lowest bits first; all bytes but the last have their high
bit set. -/
def groups : ℕ → ℕ → List UInt8
  | 0, n => [UInt8.ofNat (n % 128)]
  | k + 1, n =>
    if n < 128 then [UInt8.ofNat n] else UInt8.ofNat (n % 128 + 128) :: groups k (n / 128)

/-- The number at the start of a text, of at most `k + 1` bytes, and what stands behind it. -/
def readGroups : ℕ → List UInt8 → Option (ℕ × List UInt8)
  | _, [] => none
  | 0, b :: rest => if b.toNat < 128 then some (b.toNat, rest) else none
  | k + 1, b :: rest =>
    if b.toNat < 128 then some (b.toNat, rest)
    else (readGroups k rest).map (fun p => (b.toNat - 128 + 128 * p.1, p.2))

/-- Ten bytes are enough for 64 bits. -/
def varint (n : ℕ) : List UInt8 := groups 9 n

/-- `varint` read back. -/
def readVarint (bytes : List UInt8) : Option (ℕ × List UInt8) := readGroups 9 bytes

theorem toNat_ofNat {n : ℕ} (h : n < 256) : (UInt8.ofNat n).toNat = n := by
  rw [UInt8.toNat_ofNat']
  exact Nat.mod_eq_of_lt h

theorem readGroups_groups {k n : ℕ} (h : n < 128 ^ (k + 1)) (rest : List UInt8) :
    readGroups k (groups k n ++ rest) = some (n, rest) := by
  induction k generalizing n with
  | zero =>
    have hn : n < 128 := by simpa using h
    rw [groups, Nat.mod_eq_of_lt hn, List.cons_append, List.nil_append, readGroups,
      toNat_ofNat (by omega), if_pos hn]
  | succ k ih =>
    rw [groups]
    split_ifs with hn
    · rw [List.cons_append, List.nil_append, readGroups, toNat_ofNat (by omega), if_pos hn]
    · have hdiv : n / 128 < 128 ^ (k + 1) := by
        rw [Nat.div_lt_iff_lt_mul (by decide), ← pow_succ]
        exact h
      rw [List.cons_append, readGroups, toNat_ofNat (by omega), if_neg (by omega), ih hdiv,
        Option.map_some]
      congr 2
      omega

theorem length_groups_pos (k n : ℕ) : 0 < (groups k n).length := by
  cases k with
  | zero => exact Nat.one_pos
  | succ k =>
    rw [groups]
    split_ifs
    · exact Nat.one_pos
    · exact Nat.succ_pos _

/-- As many bytes as the number needs. -/
theorem length_groups_le_iff {k n m : ℕ} (hn : n < 128 ^ (k + 1)) :
    (groups k n).length ≤ m + 1 ↔ n < 128 ^ (m + 1) := by
  induction k generalizing n m with
  | zero =>
    have hle : 128 ^ (0 + 1) ≤ 128 ^ (m + 1) := Nat.pow_le_pow_right (by decide) (by omega)
    exact iff_of_true (by rw [groups, List.length_singleton]; omega) (by omega)
  | succ k ih =>
    rw [groups]
    split_ifs with hsmall
    · have hle : 128 ^ 1 ≤ 128 ^ (m + 1) := Nat.pow_le_pow_right (by decide) (by omega)
      exact iff_of_true (by rw [List.length_singleton]; omega) (by omega)
    · have hdiv : n / 128 < 128 ^ (k + 1) := by
        rw [Nat.div_lt_iff_lt_mul (by decide), ← pow_succ]
        exact hn
      cases m with
      | zero =>
        have hpos := length_groups_pos k (n / 128)
        rw [List.length_cons]
        constructor <;> intro h
        · omega
        · rw [zero_add, pow_one] at h
          omega
      | succ m =>
        rw [List.length_cons, Nat.add_le_add_iff_right, ih hdiv,
          Nat.div_lt_iff_lt_mul (by decide), ← pow_succ]

/-- The bytes a number takes. -/
def varintSize (n : ℕ) : ℕ := (varint n).length

/-- A number of 64 bits. -/
def Fits (n : ℕ) : Prop := n < 18446744073709551616

instance (n : ℕ) : Decidable (Fits n) := inferInstanceAs (Decidable (_ < _))

theorem Fits.lt_pow {n : ℕ} (h : Fits n) : n < 128 ^ (9 + 1) :=
  Nat.lt_of_lt_of_le h (by decide)

theorem readVarint_varint {n : ℕ} (h : Fits n) (rest : List UInt8) :
    readVarint (varint n ++ rest) = some (n, rest) :=
  readGroups_groups h.lt_pow rest

theorem varintSize_pos (n : ℕ) : 0 < varintSize n := length_groups_pos 9 n

theorem varintSize_le_iff {n : ℕ} (h : Fits n) (m : ℕ) :
    varintSize n ≤ m + 1 ↔ n < 128 ^ (m + 1) :=
  length_groups_le_iff h.lt_pow

theorem varintSize_le_ten {n : ℕ} (h : Fits n) : varintSize n ≤ 10 :=
  (varintSize_le_iff h 9).2 h.lt_pow

theorem varintSize_of_lt {n : ℕ} (h : n < 128) : varintSize n = 1 := by
  have hle := (varintSize_le_iff (Nat.lt_trans h (by decide)) 0).2 (by simpa using h)
  have hpos := varintSize_pos n
  omega

/-! ### Signed numbers -/

/-- A signed number as 64 bits in two's complement. -/
def ofInt (z : ℤ) : ℕ := (z % 18446744073709551616).toNat

/-- The lowest 64 bits as a signed number. -/
def asInt64 (n : ℕ) : ℤ := (n : ℤ).bmod 18446744073709551616

/-- The lowest 32 bits as a signed number. -/
def asInt32 (n : ℕ) : ℤ := (n : ℤ).bmod 4294967296

/-- The numbers of 32 bits with a sign. -/
def IsInt32 (z : ℤ) : Prop := -2147483648 ≤ z ∧ z ≤ 2147483647

instance (z : ℤ) : Decidable (IsInt32 z) := inferInstanceAs (Decidable (_ ∧ _))

theorem IsInt32.isInt64 {z : ℤ} (h : IsInt32 z) : IsInt64 z := by
  unfold IsInt32 at h
  unfold IsInt64
  omega

theorem ofInt_fits (z : ℤ) : Fits (ofInt z) := by
  unfold Fits ofInt
  omega

theorem ofInt_of_nonneg {z : ℤ} (h : IsInt64 z) (hz : 0 ≤ z) : (ofInt z : ℤ) = z := by
  unfold IsInt64 at h
  unfold ofInt
  omega

theorem asInt64_ofInt {z : ℤ} (h : IsInt64 z) : asInt64 (ofInt z) = z := by
  unfold IsInt64 at h
  unfold asInt64 ofInt
  rw [Int.toNat_of_nonneg (Int.emod_nonneg _ (by decide)), Int.bmod_def]
  split_ifs <;> omega

theorem asInt32_ofInt {z : ℤ} (h : IsInt32 z) : asInt32 (ofInt z) = z := by
  unfold IsInt32 at h
  unfold asInt32 ofInt
  rw [Int.toNat_of_nonneg (Int.emod_nonneg _ (by decide)), Int.bmod_def]
  split_ifs <;> omega

/-- A number without sign takes at most nine bytes. -/
theorem varintSize_ofInt_le_nine {z : ℤ} (h : IsInt64 z) (hz : 0 ≤ z) :
    varintSize (ofInt z) ≤ 9 := by
  have hof := ofInt_of_nonneg h hz
  unfold IsInt64 at h
  exact (varintSize_le_iff (ofInt_fits z) 8).2 (by omega)

/-- One of 31 bits takes at most five. -/
theorem varintSize_ofInt_le_five {z : ℤ} (h : IsInt32 z) (hz : 0 ≤ z) :
    varintSize (ofInt z) ≤ 5 := by
  have hof := ofInt_of_nonneg h.isInt64 hz
  unfold IsInt32 at h
  exact (varintSize_le_iff (ofInt_fits z) 4).2 (by omega)

/-! ### Fields -/

/-- The value of a field. -/
inductive Value
  | varint (n : ℕ)
  | bytes (l : List UInt8)
deriving DecidableEq

/-- A field of a message. -/
structure Field where
  number : ℕ
  value : Value
deriving DecidableEq

/-- The kind of a value, as keys have it. -/
def Value.wireType : Value → ℕ
  | .varint _ => 0
  | .bytes _ => 2

/-- A value on the wire. -/
def Value.encode : Value → List UInt8
  | .varint n => Protobuf.varint n
  | .bytes l => Protobuf.varint l.length ++ l

/-- What a value must hold to be read back. -/
def Value.Fits : Value → Prop
  | .varint n => Protobuf.Fits n
  | .bytes l => Protobuf.Fits l.length

/-- A field on the wire. -/
def Field.encode (f : Field) : List UInt8 :=
  varint (8 * f.number + f.value.wireType) ++ f.value.encode

/-- A field whose key is a single byte. -/
structure Field.Valid (f : Field) : Prop where
  number : f.number < 16
  value : f.value.Fits

theorem Field.valid_varint {number n : ℕ} (hnumber : number < 16) (h : Protobuf.Fits n) :
    (⟨number, .varint n⟩ : Field).Valid := ⟨hnumber, h⟩

theorem Field.valid_bytes {number : ℕ} {l : List UInt8} (hnumber : number < 16)
    (h : Protobuf.Fits l.length) : (⟨number, .bytes l⟩ : Field).Valid := ⟨hnumber, h⟩

/-- The field at the start of a text, and what stands behind it.  Values of a fixed width are not
read. -/
def readField (bytes : List UInt8) : Option (Field × List UInt8) :=
  match readVarint bytes with
  | none => none
  | some (key, rest) =>
    if key % 8 = 0 then (readVarint rest).map (fun p => (⟨key / 8, .varint p.1⟩, p.2))
    else if key % 8 = 2 then
      match readVarint rest with
      | none => none
      | some (length, behind) =>
        if length ≤ behind.length then
          some (⟨key / 8, .bytes (behind.take length)⟩, behind.drop length)
        else none
    else none

/-- At most `k` fields, up to the end of the text. -/
def readUpTo : ℕ → List UInt8 → Option (List Field)
  | _, [] => some []
  | 0, _ :: _ => none
  | k + 1, b :: bytes =>
    match readField (b :: bytes) with
    | none => none
    | some (f, rest) => (readUpTo k rest).map (f :: ·)

/-- The fields of a text; each takes a byte at least. -/
def readFields (bytes : List UInt8) : Option (List Field) := readUpTo bytes.length bytes

/-- Fields on the wire. -/
def encodeFields (fs : List Field) : List UInt8 := fs.flatMap Field.encode

theorem readField_encode {f : Field} (h : f.Valid) (rest : List UInt8) :
    readField (f.encode ++ rest) = some (f, rest) := by
  obtain ⟨number, value⟩ := f
  obtain ⟨hnumber, hvalue⟩ := h
  have hkey : Fits (8 * number + value.wireType) := by
    unfold Fits
    cases value <;> simp only [Value.wireType] <;> dsimp only at hnumber <;> omega
  unfold readField Field.encode
  rw [List.append_assoc, readVarint_varint hkey]
  cases value with
  | varint n =>
    dsimp only [Value.wireType, Value.encode]
    rw [if_pos (by omega), readVarint_varint hvalue, Option.map_some]
    congr 3
    omega
  | bytes l =>
    dsimp only [Value.wireType, Value.encode]
    rw [if_neg (by omega), if_pos (by omega), List.append_assoc, readVarint_varint hvalue]
    dsimp only
    rw [if_pos (by simp), List.take_left, List.drop_left]
    congr 3
    omega

theorem Field.length_encode_pos (f : Field) : 0 < f.encode.length := by
  rw [Field.encode, List.length_append]
  have := varintSize_pos (8 * f.number + f.value.wireType)
  unfold varintSize at this
  omega

theorem readUpTo_encodeFields {fs : List Field} (h : ∀ f ∈ fs, f.Valid) {k : ℕ}
    (hk : fs.length ≤ k) : readUpTo k (encodeFields fs) = some fs := by
  induction fs generalizing k with
  | nil => rw [encodeFields, List.flatMap_nil, readUpTo]
  | cons f fs ih =>
    obtain ⟨k, rfl⟩ : ∃ k', k = k' + 1 := ⟨k - 1, by rw [List.length_cons] at hk; omega⟩
    have hread := readField_encode (h f (List.mem_cons_self ..)) (encodeFields fs)
    have hcons : encodeFields (f :: fs) = f.encode ++ encodeFields fs := List.flatMap_cons ..
    obtain ⟨b, bytes, hbytes⟩ : ∃ b bytes, f.encode ++ encodeFields fs = b :: bytes :=
      List.exists_cons_of_length_pos (by
        rw [List.length_append]
        exact Nat.add_pos_left f.length_encode_pos _)
    rw [hcons, hbytes, readUpTo, ← hbytes, hread]
    dsimp only
    rw [ih (fun f hf => h f (List.mem_cons_of_mem _ hf)) (by simpa using hk), Option.map_some]

theorem length_le_encodeFields (fs : List Field) : fs.length ≤ (encodeFields fs).length := by
  induction fs with
  | nil => exact Nat.zero_le _
  | cons f fs ih =>
    have hcons : encodeFields (f :: fs) = f.encode ++ encodeFields fs := List.flatMap_cons ..
    rw [hcons, List.length_append, List.length_cons]
    have := f.length_encode_pos
    omega

theorem readFields_encodeFields {fs : List Field} (h : ∀ f ∈ fs, f.Valid) :
    readFields (encodeFields fs) = some fs :=
  readUpTo_encodeFields h (length_le_encodeFields fs)

/-! ### Optional fields -/

/-- A field that a message may lack. -/
def optionalField {α : Type} (number : ℕ) (value : α → Value) (a : Option α) : List Field :=
  (a.map (fun a => ⟨number, value a⟩)).toList

/-- The number in a field. -/
def Field.varint? (number : ℕ) (f : Field) : Option ℕ :=
  match f.value with
  | .varint n => if f.number = number then some n else none
  | .bytes _ => none

/-- The bytes in a field. -/
def Field.bytes? (number : ℕ) (f : Field) : Option (List UInt8) :=
  match f.value with
  | .varint _ => none
  | .bytes l => if f.number = number then some l else none

/-- The number in the last field of its name. -/
def lastVarint (number : ℕ) (fs : List Field) : Option ℕ :=
  (fs.filterMap (Field.varint? number)).getLast?

/-- The bytes in the last field of their name. -/
def lastBytes (number : ℕ) (fs : List Field) : Option (List UInt8) :=
  (fs.filterMap (Field.bytes? number)).getLast?

section Optional

variable {α : Type} {number other : ℕ} {a : Option α}

@[simp] theorem lastVarint_nil : lastVarint number [] = none := rfl

@[simp] theorem lastBytes_nil : lastBytes number [] = none := rfl

@[simp] theorem lastVarint_append (fs gs : List Field) :
    lastVarint number (fs ++ gs) = (lastVarint number gs).or (lastVarint number fs) := by
  rw [lastVarint, List.filterMap_append, List.getLast?_append]
  rfl

@[simp] theorem lastBytes_append (fs gs : List Field) :
    lastBytes number (fs ++ gs) = (lastBytes number gs).or (lastBytes number fs) := by
  rw [lastBytes, List.filterMap_append, List.getLast?_append]
  rfl

@[simp] theorem lastVarint_optionalField (g : α → ℕ) :
    lastVarint number (optionalField other (fun a => .varint (g a)) a) =
      if other = number then a.map g else none := by
  cases a with
  | none => simp [optionalField]
  | some a =>
    split_ifs with h <;> simp [optionalField, lastVarint, Field.varint?, h]

@[simp] theorem lastBytes_optionalField (g : α → List UInt8) :
    lastBytes number (optionalField other (fun a => .bytes (g a)) a) =
      if other = number then a.map g else none := by
  cases a with
  | none => simp [optionalField]
  | some a =>
    split_ifs with h <;> simp [optionalField, lastBytes, Field.bytes?, h]

@[simp] theorem lastVarint_optionalField_bytes (g : α → List UInt8) :
    lastVarint number (optionalField other (fun a => .bytes (g a)) a) = none := by
  cases a <;> rfl

@[simp] theorem lastBytes_optionalField_varint (g : α → ℕ) :
    lastBytes number (optionalField other (fun a => .varint (g a)) a) = none := by
  cases a <;> rfl

@[simp] theorem lastVarint_varint (a : Option ℕ) :
    lastVarint number (optionalField other Value.varint a) = if other = number then a else none :=
  (lastVarint_optionalField id).trans (by rw [Option.map_id]; rfl)

@[simp] theorem lastBytes_varint (a : Option ℕ) :
    lastBytes number (optionalField other Value.varint a) = none :=
  lastBytes_optionalField_varint id

@[simp] theorem lastVarint_bytes (a : Option (List UInt8)) :
    lastVarint number (optionalField other Value.bytes a) = none :=
  lastVarint_optionalField_bytes id

@[simp] theorem lastBytes_bytes (a : Option (List UInt8)) :
    lastBytes number (optionalField other Value.bytes a) = if other = number then a else none :=
  (lastBytes_optionalField id).trans (by rw [Option.map_id]; rfl)

theorem mem_optionalField {value : α → Value} {f : Field} :
    f ∈ optionalField number value a ↔ ∃ b, a = some b ∧ f = ⟨number, value b⟩ := by
  cases a <;> simp [optionalField]

theorem length_encode_varint (hnumber : number < 16) (n : ℕ) :
    (Field.encode ⟨number, .varint n⟩).length = 1 + varintSize n := by
  have hkey : varintSize (8 * number + 0) = 1 := varintSize_of_lt (by omega)
  rw [Field.encode, List.length_append]
  exact congrArg (· + varintSize n) hkey

theorem length_encode_bytes (hnumber : number < 16) (l : List UInt8) :
    (Field.encode ⟨number, .bytes l⟩).length = 1 + varintSize l.length + l.length := by
  have hkey : varintSize (8 * number + 2) = 1 := varintSize_of_lt (by omega)
  have hvalue : (Value.bytes l).encode.length = varintSize l.length + l.length := by
    rw [Value.encode, List.length_append]
    rfl
  rw [Field.encode, List.length_append, hvalue, Nat.add_assoc]
  exact congrArg (· + _) hkey

end Optional

theorem encodeFields_append (fs gs : List Field) :
    encodeFields (fs ++ gs) = encodeFields fs ++ encodeFields gs := List.flatMap_append ..

@[simp] theorem length_encodeFields_append (fs gs : List Field) :
    (encodeFields (fs ++ gs)).length = (encodeFields fs).length + (encodeFields gs).length := by
  rw [encodeFields_append, List.length_append]

@[simp] theorem length_encodeFields_none {α : Type} (number : ℕ) (value : α → Value) :
    (encodeFields (optionalField number value none)).length = 0 := rfl

@[simp] theorem length_encodeFields_some {α : Type} (number : ℕ) (value : α → Value) (a : α) :
    (encodeFields (optionalField number value (some a))).length =
      (Field.encode ⟨number, value a⟩).length := by
  simp [optionalField, encodeFields]

/-! ### Messages -/

/-- A type of messages: the fields of a message, and the message that fields make up. -/
structure Format (M : Type) where
  fields : M → List Field
  read : List Field → Option M
  Valid : M → Prop
  valid_fields : ∀ m, Valid m → ∀ f ∈ fields m, f.Valid
  read_fields : ∀ m, Valid m → read (fields m) = some m

namespace Format

variable {M N : Type} (F : Format M) (G : Format N)

/-- A message on the wire. -/
def encode (m : M) : List UInt8 := encodeFields (F.fields m)

/-- A message read from the wire. -/
def decode (bytes : List UInt8) : Option M := (readFields bytes).bind F.read

/-- What a reader of another type of messages makes of a message. -/
theorem decode_encode_other {m : M} (h : F.Valid m) :
    G.decode (F.encode m) = G.read (F.fields m) := by
  rw [decode, encode, readFields_encodeFields (F.valid_fields m h), Option.bind_some]

theorem decode_encode {m : M} (h : F.Valid m) : F.decode (F.encode m) = some m := by
  rw [decode_encode_other F F h, F.read_fields m h]

/-- A message in the last field of its name. -/
def lastMessage (number : ℕ) (fs : List Field) : Option (Option M) :=
  match lastBytes number fs with
  | none => some none
  | some bytes => (F.decode bytes).map some

theorem lastMessage_of_none {number : ℕ} {fs : List Field} (h : lastBytes number fs = none) :
    F.lastMessage number fs = some none := by
  rw [lastMessage, h]

/-- A message is read from the field that holds it. -/
theorem lastMessage_of_optionalField {number : ℕ} {fs : List Field} {m : Option M}
    (hm : ∀ a ∈ m, F.Valid a) (h : lastBytes number fs = m.map F.encode) :
    F.lastMessage number fs = some m := by
  cases m with
  | none => exact F.lastMessage_of_none h
  | some m =>
    rw [lastMessage, h]
    exact congrArg (Option.map some) (F.decode_encode (hm m rfl))

end Format

/-- A coder: writing is into a buffer of some size, and fails when it is too small. -/
structure Coder (M : Type) where
  encode : ℕ → M → Option (List UInt8)
  decode : List UInt8 → Option M

namespace Coder

variable {M : Type}

/-- A coder writes a format, and reads what the format says. -/
structure Conforms (coder : Coder M) (F : Format M) : Prop where
  encode : ∀ size m, F.Valid m → coder.encode size m =
    if (F.encode m).length ≤ size then some (F.encode m) else none
  decode : ∀ bytes m, F.decode bytes = some m → coder.decode bytes = some m

/-- The coder that is nothing but a format. -/
def ofFormat (F : Format M) : Coder M where
  encode size m := if (F.encode m).length ≤ size then some (F.encode m) else none
  decode := F.decode

theorem ofFormat_conforms (F : Format M) : (ofFormat F).Conforms F :=
  ⟨fun _ _ _ => rfl, fun _ _ h => h⟩

end Coder

end Protobuf
