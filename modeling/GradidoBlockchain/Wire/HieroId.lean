import GradidoBlockchain.Lib.Scan
import GradidoBlockchain.Wire.ConfirmedTransaction

/-!
# Hiero ids as texts

Accounts and topics are printed as three numbers with points between them, and
a transaction id as the account that pays for it and the start of its validity.
The printer of a transaction id is code of another library; the parser knows two
styles, `0.0.2-17281772-21022` and `0.0.256009@1755503343.736000193`.
-/

namespace Gradido.Wire.Hiero

open Concat Scan

/-! ### Accounts and topics -/

/-- The three numbers of an id. -/
structure EntityNumbers where
  shardNum : ℤ
  realmNum : ℤ
  num : ℤ
deriving DecidableEq, Repr

/-- What the constructors of `AccountId` and `TopicId` read from a string: numbers that are missing
are zero, and one character between two of them is passed whatever it is. -/
def EntityNumbers.ofText (text : List Char) : EntityNumbers :=
  match strtoll text with
  | (shardNum, []) => ⟨shardNum, 0, 0⟩
  | (shardNum, _ :: behindShard) =>
    match strtoll behindShard with
    | (realmNum, []) => ⟨shardNum, realmNum, 0⟩
    | (realmNum, _ :: behindRealm) => ⟨shardNum, realmNum, (strtoll behindRealm).1⟩

/-- `std::to_string`, and the text `0` that stands for a zero without it. -/
def numberText (n : ℤ) : List Char := if n ≠ 0 then n.repr.toList else ['0']

/-- `AccountId`. -/
structure AccountId where
  mShardNum : ℤ
  mRealmNum : ℤ
  mAccountNum : ℤ
  mAlias : List UInt8 := []
deriving DecidableEq, Repr

/-- `TopicId`. -/
structure TopicId where
  mShardNum : ℤ
  mRealmNum : ℤ
  mTopicNum : ℤ
deriving DecidableEq, Repr

/-- The constructor of `AccountId` from a string. -/
def AccountId.ofText (accountIdString : List Char) : AccountId :=
  let numbers := EntityNumbers.ofText accountIdString
  ⟨numbers.shardNum, numbers.realmNum, numbers.num, []⟩

/-- `AccountId::toString`. -/
def AccountId.toText (a : AccountId) : List Char :=
  if a.mAlias ≠ [] then
    numberText a.mShardNum ++ '.' :: numberText a.mRealmNum ++ '.' :: (convertToHex a.mAlias).toList
  else
    numberText a.mShardNum ++ '.' :: numberText a.mRealmNum ++ '.' :: a.mAccountNum.repr.toList

/-- The constructor of `TopicId` from a string. -/
def TopicId.ofText (topicIdString : List Char) : TopicId :=
  let numbers := EntityNumbers.ofText topicIdString
  ⟨numbers.shardNum, numbers.realmNum, numbers.num⟩

/-- `TopicId::toString`. -/
def TopicId.toText (t : TopicId) : List Char :=
  numberText t.mShardNum ++ '.' :: numberText t.mRealmNum ++ '.' :: t.mTopicNum.repr.toList

/-- Numbers that an `int64_t` holds. -/
structure AccountId.InRange (a : AccountId) : Prop where
  shard : IsInt64 a.mShardNum
  realm : IsInt64 a.mRealmNum
  account : IsInt64 a.mAccountNum

/-- Numbers that an `int64_t` holds. -/
structure TopicId.InRange (t : TopicId) : Prop where
  shard : IsInt64 t.mShardNum
  realm : IsInt64 t.mRealmNum
  topic : IsInt64 t.mTopicNum

theorem numberText_eq (n : ℤ) : numberText n = n.repr.toList := by
  unfold numberText
  split_ifs with h
  · rfl
  · rw [not_ne_iff.1 h]
    decide

/-- Three numbers are read from what they are printed to, whatever follows but a digit. -/
theorem EntityNumbers.ofText_repr {shardNum realmNum num : ℤ} (hshard : IsInt64 shardNum)
    (hrealm : IsInt64 realmNum) (hnum : IsInt64 num) {rest : List Char} (hrest : NoDigit rest) :
    EntityNumbers.ofText (shardNum.repr.toList ++
      '.' :: (realmNum.repr.toList ++ '.' :: (num.repr.toList ++ rest))) =
        ⟨shardNum, realmNum, num⟩ := by
  unfold EntityNumbers.ofText
  rw [strtoll_repr hshard (noDigit_cons (by decide) _)]
  dsimp only
  rw [strtoll_repr hrealm (noDigit_cons (by decide) _)]
  dsimp only
  rw [strtoll_repr hnum hrest]

theorem AccountId.ofText_toText {a : AccountId} (ha : a.InRange) (halias : a.mAlias = []) :
    AccountId.ofText a.toText = a := by
  have htext : a.toText = a.mShardNum.repr.toList ++
      '.' :: (a.mRealmNum.repr.toList ++ '.' :: (a.mAccountNum.repr.toList ++ [])) := by
    unfold AccountId.toText
    rw [if_neg (not_not_intro halias), numberText_eq, numberText_eq, List.append_assoc,
      List.cons_append, List.append_nil]
  rw [AccountId.ofText, htext, EntityNumbers.ofText_repr ha.shard ha.realm ha.account noDigit_nil]
  cases a
  cases halias
  rfl

theorem TopicId.ofText_toText {t : TopicId} (ht : t.InRange) : TopicId.ofText t.toText = t := by
  have htext : t.toText = t.mShardNum.repr.toList ++
      '.' :: (t.mRealmNum.repr.toList ++ '.' :: (t.mTopicNum.repr.toList ++ [])) := by
    unfold TopicId.toText
    rw [numberText_eq, numberText_eq, List.append_assoc, List.cons_append, List.append_nil]
  rw [TopicId.ofText, htext, EntityNumbers.ofText_repr ht.shard ht.realm ht.topic noDigit_nil]

/-! ### Transaction ids -/

/-- `TransactionId`; whether it is scheduled is not compared. -/
structure TransactionId where
  mTransactionValidStart : Timestamp
  mAccountId : AccountId
  mNonce : ℤ := 0
deriving DecidableEq, Repr

/-- The functions of the core library that print a transaction id: the size of the text, and what
stands in a buffer of some size afterwards, with the number of characters written. -/
structure GrdwHiero where
  transactionIdCalculateStringSize : GrdwHieroTransactionId → ℕ
  transactionIdToString : ℕ → GrdwHieroTransactionId → List Char × ℕ

/-- The text of a transaction id. -/
def grdwText (id : GrdwHieroTransactionId) : List Char :=
  id.shardNum.repr.toList ++ '.' :: (id.realmNum.repr.toList ++ '.' :: (id.accountNum.repr.toList ++
    '@' :: (id.seconds.repr.toList ++ '.' :: padded 9 id.nanos)))

/-- Nanoseconds of less than a second. -/
def IsNanos (nanos : ℤ) : Prop := 0 ≤ nanos ∧ nanos ≤ 999999999

/-- Both functions are about this text, and a zero ends it. -/
structure GrdwHiero.Prints (grdw : GrdwHiero) : Prop where
  size : ∀ id, IsNanos id.nanos → grdw.transactionIdCalculateStringSize id = (grdwText id).length
  text : ∀ n id, IsNanos id.nanos → (grdwText id).length < n → ∃ behind,
    grdw.transactionIdToString n id = (grdwText id ++ '\x00' :: behind, (grdwText id).length)

namespace TransactionId

/-- The id as the core library takes it. -/
def toGrdw (id : TransactionId) : GrdwHieroTransactionId :=
  { seconds := id.mTransactionValidStart.seconds
    nanos := id.mTransactionValidStart.nanos
    shardNum := id.mAccountId.mShardNum
    realmNum := id.mAccountId.mRealmNum
    accountNum := id.mAccountId.mAccountNum }

/-- `TransactionId::toString`. -/
def toText (grdw : GrdwHiero) (id : TransactionId) : Except Exception (List Char) :=
  let bufferSize := grdw.transactionIdCalculateStringSize id.toGrdw + 1
  if bufferSize < 64 then
    let printed := grdw.transactionIdToString 64 id.toGrdw
    if 64 ≤ printed.2 then
      .error (.gradidoNodeInvalidData ("grdw_hiero_transaction_id_calculate_string_size and " ++
        "grdw_hiero_transaction_id_to_string don't calculate same string size"))
    else .ok (printed.1.take printed.2)
  else if 1024 < bufferSize then
    .error (.gradidoNodeInvalidData "hiero transaction id is calculated way to big (> 1 kbyte)")
  else .ok (grdw.transactionIdToString bufferSize id.toGrdw).1

/-- The constructor of `TransactionId` from a string. -/
def ofText (transactionIdString : List Char) : TransactionId :=
  let mAccountId := AccountId.ofText transactionIdString
  match (strchr transactionIdString '-').or (strchr transactionIdString '@') with
  | none => ⟨⟨0, 0⟩, mAccountId, 0⟩
  | some separator =>
    let (seconds, behind) := strtoll separator.tail
    if behind.head? = some '-' ∨ behind.head? = some '.' then
      ⟨⟨seconds, toInt32 (strtoll behind.tail).1⟩, mAccountId, 0⟩
    else ⟨⟨0, 0⟩, mAccountId, 0⟩

/-- Numbers that the fields hold, with nanoseconds of less than a second. -/
structure InRange (id : TransactionId) : Prop where
  account : id.mAccountId.InRange
  seconds : IsInt64 id.mTransactionValidStart.seconds
  nanos : IsNanos id.mTransactionValidStart.nanos

/-- Numbers of an account without a sign. -/
structure NonnegAccount (id : TransactionId) : Prop where
  shard : 0 ≤ id.mAccountId.mShardNum
  realm : 0 ≤ id.mAccountId.mRealmNum
  account : 0 ≤ id.mAccountId.mAccountNum

/-- What stands before the `@` of a text. -/
def accountText (a : AccountId) : List Char :=
  a.mShardNum.repr.toList ++ '.' :: (a.mRealmNum.repr.toList ++ '.' :: a.mAccountNum.repr.toList)

/-- What stands behind it. -/
def startText (t : Timestamp) : List Char := t.seconds.repr.toList ++ '.' :: padded 9 t.nanos

theorem grdwText_eq (id : TransactionId) : grdwText id.toGrdw =
    accountText id.mAccountId ++ '@' :: startText id.mTransactionValidStart := by
  simp [grdwText, toGrdw, accountText, startText]

/-- The end of a C string. -/
def IsEnd (behind : List Char) : Prop := behind.head? = none ∨ behind.head? = some '\x00'

theorem IsEnd.noDigit {behind : List Char} (h : IsEnd behind) : NoDigit behind := by
  intro c hc
  rw [Option.mem_def] at hc
  obtain h | h := h
  · rw [h] at hc
    cases hc
  · rw [h, Option.some.injEq] at hc
    rw [← hc]
    decide

theorem length_grdwText_le {id : TransactionId} (hid : id.InRange) :
    (grdwText id.toGrdw).length ≤ 93 := by
  have hshard := length_repr_le hid.account.shard
  have hrealm := length_repr_le hid.account.realm
  have haccount := length_repr_le hid.account.account
  have hseconds := length_repr_le hid.seconds
  have hnanos : (padded 9 id.mTransactionValidStart.nanos).length = 9 := by
    obtain ⟨hnonneg, hlimit⟩ := hid.nanos
    refine length_padded ((length_repr_le_iff (by decide)).2 ?_)
    rw [if_neg (by omega)]
    omega
  simp only [grdwText_eq, accountText, startText, List.length_append, List.length_cons]
  omega

/-- The text, and nothing behind it or a zero. -/
theorem toText_eq {grdw : GrdwHiero} (hgrdw : grdw.Prints) {id : TransactionId}
    (hid : id.InRange) :
    ∃ behind, id.toText grdw = .ok (grdwText id.toGrdw ++ behind) ∧ IsEnd behind := by
  have hlength := length_grdwText_le hid
  have hsize := hgrdw.size id.toGrdw hid.nanos
  unfold toText
  dsimp only
  rw [hsize]
  by_cases hsmall : (grdwText id.toGrdw).length + 1 < 64
  · obtain ⟨behind, htext⟩ := hgrdw.text 64 id.toGrdw hid.nanos (by omega)
    rw [if_pos hsmall, htext]
    dsimp only
    rw [if_neg (by omega), List.take_left]
    exact ⟨[], by rw [List.append_nil], .inl rfl⟩
  · obtain ⟨behind, htext⟩ := hgrdw.text _ id.toGrdw hid.nanos (Nat.lt_succ_self _)
    rw [if_neg hsmall, if_neg (by omega), htext]
    exact ⟨_, rfl, .inr rfl⟩

theorem not_mem_repr {c : Char} (hc : c.isDigit = false) {n : ℤ} (hn : 0 ≤ n) :
    c ∉ n.repr.toList := by
  rw [toList_repr_int, if_neg (by omega), List.nil_append]
  exact not_mem_repr_nat hc _

theorem not_mem_accountText {c : Char} (hc : c.isDigit = false) (hpoint : c ≠ '.')
    {id : TransactionId} (hnonneg : id.NonnegAccount) : c ∉ accountText id.mAccountId := by
  simp only [accountText, List.mem_append, List.mem_cons, not_or]
  exact ⟨not_mem_repr hc hnonneg.shard, hpoint, not_mem_repr hc hnonneg.realm, hpoint,
    not_mem_repr hc hnonneg.account⟩

/-- The account is read from the text of a transaction id. -/
theorem accountId_ofText {id : TransactionId} (hid : id.InRange) (behind : List Char) :
    AccountId.ofText (grdwText id.toGrdw ++ behind) = { id.mAccountId with mAlias := [] } := by
  have htext : grdwText id.toGrdw ++ behind = id.mAccountId.mShardNum.repr.toList ++
      '.' :: (id.mAccountId.mRealmNum.repr.toList ++
        '.' :: (id.mAccountId.mAccountNum.repr.toList ++
          '@' :: (startText id.mTransactionValidStart ++ behind))) := by
    simp [grdwText_eq, accountText]
  rw [AccountId.ofText, htext, EntityNumbers.ofText_repr hid.account.shard hid.account.realm
    hid.account.account (noDigit_cons (by decide) _)]

/-- Where a number is read before a point, and the nanoseconds behind it. -/
theorem strtoll_nanos {id : TransactionId} (hid : id.InRange) {behind : List Char}
    (hbehind : IsEnd behind) :
    toInt32 (strtoll (padded 9 id.mTransactionValidStart.nanos ++ behind)).1 =
      id.mTransactionValidStart.nanos := by
  obtain ⟨hnonneg, hlimit⟩ := hid.nanos
  have hrange : IsInt64 id.mTransactionValidStart.nanos := ⟨by omega, by omega⟩
  rw [strtoll_padded hrange hnonneg hbehind.noDigit, toInt32,
    Int.bmod_eq_of_le (by omega) (by omega)]

/-- Seconds without a sign stand behind the `@`. -/
theorem ofText_of_nonneg {id : TransactionId} (hid : id.InRange) (hnonneg : id.NonnegAccount)
    (hseconds : 0 ≤ id.mTransactionValidStart.seconds) {behind : List Char}
    (hbehind : IsEnd behind) : ofText (grdwText id.toGrdw ++ behind) =
      ⟨id.mTransactionValidStart, { id.mAccountId with mAlias := [] }, 0⟩ := by
  have hnotSign : '-' ∉ grdwText id.toGrdw := by
    have haccount := not_mem_accountText (c := '-') (by decide) (by decide) hnonneg
    have hsec := not_mem_repr (c := '-') (by decide) hseconds
    have hnanos : '-' ∉ padded 9 id.mTransactionValidStart.nanos := by
      rw [sign_mem_padded]
      exact not_lt.2 hid.nanos.1
    simp only [grdwText_eq, startText, List.mem_append, List.mem_cons, not_or]
    exact ⟨haccount, by decide, hsec, by decide, hnanos⟩
  have hsign : strchr (grdwText id.toGrdw ++ behind) '-' = none :=
    strchr_eq_none hnotSign (by decide) hbehind
  have hat : strchr (grdwText id.toGrdw ++ behind) '@' =
      some ('@' :: (startText id.mTransactionValidStart ++ behind)) := by
    rw [grdwText_eq, List.append_assoc, List.cons_append]
    exact strchr_append (not_mem_accountText (by decide) (by decide) hnonneg)
      (not_mem_accountText (by decide) (by decide) hnonneg) _
  have hscan : strtoll (startText id.mTransactionValidStart ++ behind) =
      (id.mTransactionValidStart.seconds,
        '.' :: (padded 9 id.mTransactionValidStart.nanos ++ behind)) := by
    rw [startText, List.append_assoc, List.cons_append]
    exact strtoll_repr hid.seconds (noDigit_cons (by decide) _)
  unfold ofText
  rw [hsign, hat, Option.none_or, accountId_ofText hid]
  dsimp only
  rw [List.tail_cons, hscan]
  dsimp only
  rw [if_pos (.inr rfl), List.tail_cons, strtoll_nanos hid hbehind]

/-- The sign of the seconds is taken for the separator. -/
theorem ofText_of_neg {id : TransactionId} (hnonneg : id.NonnegAccount)
    (hseconds : id.mTransactionValidStart.seconds < 0) (behind : List Char) :
    0 ≤ (ofText (grdwText id.toGrdw ++ behind)).mTransactionValidStart.seconds := by
  obtain ⟨digits, hdigits⟩ : ∃ digits : ℕ, digits = id.mTransactionValidStart.seconds.natAbs :=
    ⟨_, rfl⟩
  have hsign : strchr (grdwText id.toGrdw ++ behind) '-' = some ('-' :: (digits.repr.toList ++
      '.' :: (padded 9 id.mTransactionValidStart.nanos ++ behind))) := by
    have htext : grdwText id.toGrdw ++ behind = (accountText id.mAccountId ++ ['@']) ++
        '-' :: (digits.repr.toList ++
          '.' :: (padded 9 id.mTransactionValidStart.nanos ++ behind)) := by
      simp [grdwText_eq, startText, toList_repr_int id.mTransactionValidStart.seconds, hseconds,
        hdigits]
    rw [htext]
    refine strchr_append ?_ ?_ _ <;>
      simp only [List.mem_append, List.mem_singleton, not_or] <;>
      exact ⟨not_mem_accountText (by decide) (by decide) hnonneg, by decide⟩
  unfold ofText
  rw [hsign, Option.some_or]
  dsimp only
  rw [List.tail_cons, strtoll_natAbs _ (noDigit_cons (by decide) _)]
  dsimp only
  rw [if_pos (.inr rfl)]
  exact clamp_nonneg (Int.natCast_nonneg _)

end TransactionId

/-- A text that stands for its id. -/
def ReadsBack (grdw : GrdwHiero) (id : TransactionId) : Prop :=
  ∃ text, id.toText grdw = .ok text ∧ TransactionId.ofText text = id

/-- Accounts without an alias and topics are read back from their texts; and transaction ids exactly
when their seconds have no sign, and there is neither a nonce nor an alias. -/
theorem hieroIds_readBack {grdw : GrdwHiero} (hgrdw : grdw.Prints) :
    (∀ a : AccountId, a.InRange → a.mAlias = [] → AccountId.ofText a.toText = a) ∧
    (∀ t : TopicId, t.InRange → TopicId.ofText t.toText = t) ∧
    ∀ id : TransactionId, id.InRange → id.NonnegAccount →
      (ReadsBack grdw id ↔ 0 ≤ id.mTransactionValidStart.seconds ∧ id.mNonce = 0 ∧
        id.mAccountId.mAlias = []) := by
  refine ⟨fun a ha halias => AccountId.ofText_toText ha halias,
    fun t ht => TopicId.ofText_toText ht, fun id hid hnonneg => ?_⟩
  obtain ⟨behind, htext, hbehind⟩ := TransactionId.toText_eq hgrdw hid
  constructor
  · rintro ⟨text, htext', hread⟩
    rw [htext, Except.ok.injEq] at htext'
    rw [← htext'] at hread
    have hseconds : 0 ≤ id.mTransactionValidStart.seconds := by
      by_contra hneg
      have hsign := TransactionId.ofText_of_neg hnonneg (by omega) behind
      rw [hread] at hsign
      omega
    rw [TransactionId.ofText_of_nonneg hid hnonneg hseconds hbehind] at hread
    refine ⟨hseconds, ?_, ?_⟩
    · rw [← hread]
    · rw [← hread]
  · rintro ⟨hseconds, hnonce, halias⟩
    refine ⟨_, htext, ?_⟩
    rw [TransactionId.ofText_of_nonneg hid hnonneg hseconds hbehind]
    cases id with
    | mk start account nonce =>
      cases account
      cases hnonce
      cases halias
      rfl

/-- Printers that write the text and a zero into any buffer. -/
def printer : GrdwHiero where
  transactionIdCalculateStringSize id := (grdwText id).length
  transactionIdToString _ id := (grdwText id ++ ['\x00'], (grdwText id).length)

theorem printer_prints : printer.Prints where
  size _ _ := rfl
  text _ _ _ _ := ⟨[], rfl⟩

/-- The id `0.0.1233` with a start of so many seconds and 2912 nanoseconds. -/
def startedAt (seconds : ℤ) : TransactionId := ⟨⟨seconds, 2912⟩, ⟨0, 0, 1233, []⟩, 0⟩

theorem startedAt_inRange {seconds : ℤ} (h : IsInt64 seconds) : (startedAt seconds).InRange where
  account := ⟨(by decide : IsInt64 0), (by decide : IsInt64 0), (by decide : IsInt64 1233)⟩
  seconds := h
  nanos := ⟨(by decide : (0 : ℤ) ≤ 2912), (by decide : (2912 : ℤ) ≤ 999999999)⟩

theorem startedAt_nonneg (seconds : ℤ) : (startedAt seconds).NonnegAccount :=
  ⟨Int.le_refl 0, Int.le_refl 0, (by decide : (0 : ℤ) ≤ 1233)⟩

theorem afterEpoch_readsBack : ReadsBack printer (startedAt 171627121) :=
  ((hieroIds_readBack printer_prints).2.2 _ (startedAt_inRange (by decide)) (startedAt_nonneg _)).2
    ⟨by decide, rfl, rfl⟩

theorem beforeEpoch_not_readsBack : printer.Prints ∧ (startedAt (-1)).InRange ∧
    (startedAt (-1)).NonnegAccount ∧ (startedAt (-1)).mAccountId.mAlias = [] ∧
    (startedAt (-1)).mNonce = 0 ∧ ¬ ReadsBack printer (startedAt (-1)) := by
  have hrange : (startedAt (-1)).InRange := startedAt_inRange (by decide)
  refine ⟨printer_prints, hrange, startedAt_nonneg _, rfl, rfl, ?_⟩
  rintro ⟨text, htext, hread⟩
  obtain ⟨behind, htext', -⟩ := TransactionId.toText_eq printer_prints hrange
  rw [htext, Except.ok.injEq] at htext'
  have hsign := TransactionId.ofText_of_neg (startedAt_nonneg (-1)) (by decide) behind
  rw [← htext', hread] at hsign
  exact absurd hsign (by decide)

end Gradido.Wire.Hiero
