import GradidoBlockchain.System
import GradidoBlockchain.Data.TimestampText

/-!
# What the running hash binds

`calculateRunningHash` writes the number, the date, the ledger anchor, the
signatures and the balances of a transaction one after another into the hash.
Nothing separates them, and of a balance only the amount is written.

`ConfirmedTransaction.binds_iff` says when two transactions can be told apart by
what is written: no field that is left out may make the difference (`LeftOut`),
and no boundary between two fields may have moved (`Shifted`).
-/

namespace Gradido

open Concat

/-! ### Texts and blocks -/

theorem asciiBytes_append (s t : String) : asciiBytes (s ++ t) = asciiBytes s ++ asciiBytes t := by
  rw [asciiBytes, String.toList_append, List.map_append]
  rfl

/-- An ASCII text can be read back from its bytes. -/
theorem map_ascii_inj {l l' : List Char} (hl : ∀ c ∈ l, c.toNat < 256)
    (hl' : ∀ c ∈ l', c.toNat < 256)
    (h : l.map (fun c => UInt8.ofNat c.toNat) = l'.map (fun c => UInt8.ofNat c.toNat)) :
    l = l' := by
  induction l generalizing l' with
  | nil => simpa using h
  | cons c l ih =>
    cases l' with
    | nil => simp at h
    | cons d l' =>
      rw [List.map_cons, List.map_cons, List.cons.injEq] at h
      have hc := hl c List.mem_cons_self
      have hd := hl' d List.mem_cons_self
      have hnat := congrArg UInt8.toNat h.1
      rw [UInt8.toNat_ofNat', UInt8.toNat_ofNat', Nat.mod_eq_of_lt hc, Nat.mod_eq_of_lt hd] at hnat
      rw [Char.toNat_inj.1 hnat, ih (fun x hx => hl x (List.mem_cons_of_mem c hx))
        (fun x hx => hl' x (List.mem_cons_of_mem d hx)) h.2]

namespace ConfirmedTransaction

/-! ### What is written -/

/-- The bytes of the signature pairs. -/
def pairBytes (tx : ConfirmedTransaction) : List UInt8 :=
  tx.gradidoTransaction.signatureMap.signaturePairs.flatMap
    (fun p => littleEndian p.publicKey 32 ++ littleEndian p.signature 64)

/-- The bytes of the balances: their amounts. -/
def amountBytes (tx : ConfirmedTransaction) : List UInt8 :=
  tx.accountBalances.flatMap (fun b => littleEndian (b.balance % 2 ^ 64).toNat 8)

/-- The bytes behind the date: ledger anchor, signatures, balances, and where these come from. -/
def tailBytes (env : Env) (tx : ConfirmedTransaction) : List UInt8 :=
  asciiBytes (tx.ledgerAnchor.toString env) ++ tx.pairBytes ++ tx.amountBytes ++
    [tx.balanceDerivationType.toByte]

/-- The values have the sizes of their types, and the text of the nanoseconds is not longer than
the nine characters that it is padded to; the loop that pads it does not end otherwise. -/
structure Writable (tx : ConfirmedTransaction) : Prop where
  nanos : tx.confirmedAt.nanos.repr.length ≤ 9
  pairs : ∀ p ∈ tx.gradidoTransaction.signatureMap.signaturePairs,
    p.publicKey < 256 ^ 32 ∧ p.signature < 256 ^ 64
  balances : ∀ b ∈ tx.accountBalances, -2 ^ 63 ≤ b.balance ∧ b.balance < 2 ^ 63

/-- The fields that the chain relies on are the same. -/
structure SameFields (t t' : ConfirmedTransaction) : Prop where
  id : t.id = t'.id
  confirmedAt : t.confirmedAt = t'.confirmedAt
  ledgerAnchor : t.ledgerAnchor = t'.ledgerAnchor
  pairs : t.gradidoTransaction.signatureMap.signaturePairs =
    t'.gradidoTransaction.signatureMap.signaturePairs
  accountBalances : t.accountBalances = t'.accountBalances

/-- Two transactions with these predecessors that are the same to the hash are the same. -/
def Binds (env : Env) (t t' : ConfirmedTransaction)
    (previous previous' : Option ConfirmedTransaction) : Prop :=
  t.runningHashInput env previous = t'.runningHashInput env previous' → SameFields t t'

/-- All that is written is the same, and the rest is not: anchors with the same text, or balances
of other accounts or in other coins. -/
structure LeftOut (env : Env) (t t' : ConfirmedTransaction) : Prop where
  id : t.id = t'.id
  confirmedAt : t.confirmedAt = t'.confirmedAt
  anchor : asciiBytes (t.ledgerAnchor.toString env) = asciiBytes (t'.ledgerAnchor.toString env)
  pairs : t.gradidoTransaction.signatureMap.signaturePairs =
    t'.gradidoTransaction.signatureMap.signaturePairs
  amounts : t.accountBalances.map AccountBalance.balance =
    t'.accountBalances.map AccountBalance.balance
  derivation : t.balanceDerivationType = t'.balanceDerivationType
  differ : t.ledgerAnchor ≠ t'.ledgerAnchor ∨ t.accountBalances ≠ t'.accountBalances

/-- A boundary has moved: digits of the number became digits of the seconds, or there are other
numbers of signatures and balances in the same bytes. -/
structure Shifted (env : Env) (t t' : ConfirmedTransaction) : Prop where
  digits : t.id.repr ++ t.confirmedAt.seconds.repr = t'.id.repr ++ t'.confirmedAt.seconds.repr
  nanos : t.confirmedAt.nanos = t'.confirmedAt.nanos
  tail : t.tailBytes env = t'.tailBytes env
  moved : t.id ≠ t'.id ∨
    t.gradidoTransaction.signatureMap.signaturePairs.length ≠
      t'.gradidoTransaction.signatureMap.signaturePairs.length ∨
    t.accountBalances.length ≠ t'.accountBalances.length

section Parse

variable {env : Env} {t t' : ConfirmedTransaction}
variable {previous previous' : Option ConfirmedTransaction}

/-- What is written for the predecessor. -/
def previousBytes (previous : Option ConfirmedTransaction) : List UInt8 :=
  match previous with
  | some p => asciiBytes (convertToHex p.runningHash)
  | none => []

/-- The parts of the input, at the point behind the seconds. -/
theorem runningHashInput_eq (tx : ConfirmedTransaction) : tx.runningHashInput env previous =
    previousBytes previous ++ (asciiBytes (tx.id.repr ++ tx.confirmedAt.seconds.repr) ++
      UInt8.ofNat '.'.toNat ::
        ((padded 9 tx.confirmedAt.nanos).map (fun c => UInt8.ofNat c.toNat) ++
          tx.tailBytes env)) := by
  have hdate : asciiBytes tx.confirmedAt.toString =
      asciiBytes tx.confirmedAt.seconds.repr ++ UInt8.ofNat '.'.toNat ::
        (padded 9 tx.confirmedAt.nanos).map (fun c => UInt8.ofNat c.toNat) := by
    rw [asciiBytes, Timestamp.toList_toString, List.map_append, List.map_cons]
    rfl
  unfold runningHashInput
  rw [hdate, asciiBytes_append]
  simp only [List.append_assoc, List.cons_append, tailBytes, pairBytes, amountBytes]
  rfl

theorem previousBytes_eq (h : previous.map runningHash = previous'.map runningHash) :
    previousBytes previous = previousBytes previous' := by
  cases previous with
  | none =>
    cases previous' with
    | none => rfl
    | some p' => simp at h
  | some p =>
    cases previous' with
    | none => simp at h
    | some p' =>
      rw [Option.map_some, Option.map_some, Option.some.injEq] at h
      rw [previousBytes, previousBytes, h]

/-- The digits before the point, as bytes. -/
theorem point_not_mem (tx : ConfirmedTransaction) :
    UInt8.ofNat '.'.toNat ∉ asciiBytes (tx.id.repr ++ tx.confirmedAt.seconds.repr) := by
  intro hmem
  obtain ⟨c, hc, heq⟩ := List.mem_map.1 hmem
  have hnumeric : IsNumeric c := by
    rw [String.toList_append] at hc
    rcases List.mem_append.1 hc with hc | hc
    · exact isNumeric_of_mem_nat hc
    · exact isNumeric_of_mem_int hc
  obtain ⟨hlt, hne⟩ := hnumeric.toNat_lt
  have hnat := congrArg UInt8.toNat heq
  rw [UInt8.toNat_ofNat', Nat.mod_eq_of_lt (by omega)] at hnat
  exact hne hnat

/-- **Equal inputs have equal parts**: the digits before the point, the nanoseconds and the rest. -/
theorem runningHashInput_eq_iff (hprevious : previous.map runningHash = previous'.map runningHash)
    (ht : t.Writable) (ht' : t'.Writable) :
    t.runningHashInput env previous = t'.runningHashInput env previous' ↔
      t.id.repr ++ t.confirmedAt.seconds.repr = t'.id.repr ++ t'.confirmedAt.seconds.repr ∧
        t.confirmedAt.nanos = t'.confirmedAt.nanos ∧ t.tailBytes env = t'.tailBytes env := by
  rw [runningHashInput_eq, runningHashInput_eq, previousBytes_eq hprevious,
    List.append_cancel_left_eq]
  constructor
  · intro h
    obtain ⟨hdigits, hrest⟩ := split_separator t.point_not_mem t'.point_not_mem h
    have hpadded := List.append_inj hrest (by
      rw [List.length_map, List.length_map, length_padded ht.nanos, length_padded ht'.nanos])
    refine ⟨?_, ?_, hpadded.2⟩
    · refine String.toList_inj.1 (map_ascii_inj ?_ ?_ hdigits)
      all_goals
        intro c hc
        rw [String.toList_append] at hc
        have hnumeric : IsNumeric c :=
          (List.mem_append.1 hc).elim isNumeric_of_mem_nat isNumeric_of_mem_int
        have := hnumeric.toNat_lt
        omega
    · refine padded_injective (map_ascii_inj ?_ ?_ hpadded.1)
      all_goals
        intro c hc
        have := (isNumeric_of_mem_padded hc).toNat_lt
        omega
  · rintro ⟨hdigits, hnanos, htail⟩
    rw [hdigits, hnanos, htail]

theorem length_pairBytes (tx : ConfirmedTransaction) :
    tx.pairBytes.length = tx.gradidoTransaction.signatureMap.signaturePairs.length * 96 :=
  length_flatMap_of_width (by simp) _

theorem length_amountBytes (tx : ConfirmedTransaction) :
    tx.amountBytes.length = tx.accountBalances.length * 8 :=
  length_flatMap_of_width (by simp) _

/-- Only the amounts of the balances are written. -/
theorem amountBytes_eq (tx : ConfirmedTransaction) : tx.amountBytes =
    (tx.accountBalances.map AccountBalance.balance).flatMap
      (fun b => littleEndian (b % 2 ^ 64).toNat 8) := by
  rw [List.flatMap_map]
  rfl

theorem pairBytes_inj (ht : t.Writable) (ht' : t'.Writable)
    (hpairs : t.gradidoTransaction.signatureMap.signaturePairs.length =
      t'.gradidoTransaction.signatureMap.signaturePairs.length)
    (h : t.pairBytes = t'.pairBytes) : t.gradidoTransaction.signatureMap.signaturePairs =
      t'.gradidoTransaction.signatureMap.signaturePairs := by
  refine flatMap_inj (w := 96) (by simp) hpairs ?_ h
  intro p hp p' hp' heq
  obtain ⟨hkey, hsignature⟩ := List.append_inj heq (by simp)
  obtain ⟨hkeyLt, hsignatureLt⟩ := ht.pairs p hp
  obtain ⟨hkeyLt', hsignatureLt'⟩ := ht'.pairs p' hp'
  have hkeys := littleEndian_inj hkeyLt hkeyLt' hkey
  have hsignatures := littleEndian_inj hsignatureLt hsignatureLt' hsignature
  cases p
  cases p'
  simp_all

theorem amountBytes_inj (ht : t.Writable) (ht' : t'.Writable)
    (hbalances : t.accountBalances.length = t'.accountBalances.length)
    (h : t.amountBytes = t'.amountBytes) :
    t.accountBalances.map AccountBalance.balance =
      t'.accountBalances.map AccountBalance.balance := by
  rw [amountBytes_eq, amountBytes_eq] at h
  refine flatMap_inj (w := 8) (by simp) (by simpa using hbalances) ?_ h
  intro a ha a' ha' heq
  obtain ⟨b, hb, rfl⟩ := List.mem_map.1 ha
  obtain ⟨b', hb', rfl⟩ := List.mem_map.1 ha'
  have hrange := ht.balances b hb
  have hrange' := ht'.balances b' hb'
  have hmod := littleEndian_inj (by omega) (by omega) heq
  omega

/-- What is behind the date is made of its parts, when no boundary moved. -/
theorem tailBytes_eq_iff (ht : t.Writable) (ht' : t'.Writable)
    (hpairs : t.gradidoTransaction.signatureMap.signaturePairs.length =
      t'.gradidoTransaction.signatureMap.signaturePairs.length)
    (hbalances : t.accountBalances.length = t'.accountBalances.length) :
    t.tailBytes env = t'.tailBytes env ↔
      asciiBytes (t.ledgerAnchor.toString env) = asciiBytes (t'.ledgerAnchor.toString env) ∧
      t.gradidoTransaction.signatureMap.signaturePairs =
        t'.gradidoTransaction.signatureMap.signaturePairs ∧
      t.accountBalances.map AccountBalance.balance =
        t'.accountBalances.map AccountBalance.balance ∧
      t.balanceDerivationType = t'.balanceDerivationType := by
  have hpairLength : t.pairBytes.length = t'.pairBytes.length := by
    rw [length_pairBytes, length_pairBytes, hpairs]
  have hamountLength : t.amountBytes.length = t'.amountBytes.length := by
    rw [length_amountBytes, length_amountBytes, hbalances]
  constructor
  · intro h
    unfold tailBytes at h
    obtain ⟨h, hderivation⟩ := List.append_inj' h rfl
    obtain ⟨h, hamounts⟩ := List.append_inj' h hamountLength
    obtain ⟨hanchor, hpairBytes⟩ := List.append_inj' h hpairLength
    refine ⟨hanchor, pairBytes_inj ht ht' hpairs hpairBytes,
      amountBytes_inj ht ht' hbalances hamounts, ?_⟩
    have hbyte := (List.cons.inj hderivation).1
    cases hd : t.balanceDerivationType <;> cases hd' : t'.balanceDerivationType <;>
      simp_all [BalanceDerivation.toByte]
  · rintro ⟨hanchor, hpairBytes, hamounts, hderivation⟩
    rw [tailBytes, tailBytes, hanchor, hderivation, pairBytes, pairBytes, hpairBytes,
      amountBytes_eq, amountBytes_eq, hamounts]

/-- **What the running hash binds.**  Two transactions with the same predecessor hash can be told
apart exactly when no field that is left out makes the difference and no boundary has moved. -/
theorem binds_iff (env : Env) (hprevious : previous.map runningHash = previous'.map runningHash)
    (ht : t.Writable) (ht' : t'.Writable) :
    Binds env t t' previous previous' ↔ ¬ LeftOut env t t' ∧ ¬ Shifted env t t' := by
  have hparts := @runningHashInput_eq_iff env _ _ _ _ hprevious ht ht'
  constructor
  · intro h
    refine ⟨?_, ?_⟩
    · -- nothing that differs is written
      intro hleft
      have hpairs := congrArg List.length hleft.pairs
      have hbalances : t.accountBalances.length = t'.accountBalances.length := by
        simpa using congrArg List.length hleft.amounts
      have hsame := h (hparts.2 ⟨by rw [hleft.id, hleft.confirmedAt], by rw [hleft.confirmedAt],
        (tailBytes_eq_iff ht ht' hpairs hbalances).2
          ⟨hleft.anchor, hleft.pairs, hleft.amounts, hleft.derivation⟩⟩)
      exact hleft.differ.elim (fun hne => hne hsame.ledgerAnchor)
        (fun hne => hne hsame.accountBalances)
    · -- what is written is the same, but not where a field ends
      intro hshifted
      have hsame := h (hparts.2 ⟨hshifted.digits, hshifted.nanos, hshifted.tail⟩)
      rcases hshifted.moved with hid | hpairs | hbalances
      · exact hid hsame.id
      · exact hpairs (by rw [hsame.pairs])
      · exact hbalances (by rw [hsame.accountBalances])
  · rintro ⟨hleft, hshifted⟩ h
    obtain ⟨hdigits, hnanos, htail⟩ := hparts.1 h
    have hmoved : ¬ (t.id ≠ t'.id ∨
        t.gradidoTransaction.signatureMap.signaturePairs.length ≠
          t'.gradidoTransaction.signatureMap.signaturePairs.length ∨
        t.accountBalances.length ≠ t'.accountBalances.length) :=
      fun hmoved => hshifted ⟨hdigits, hnanos, htail, hmoved⟩
    simp only [not_or, not_not] at hmoved
    obtain ⟨hid, hpairs, hbalances⟩ := hmoved
    obtain ⟨hanchor, hpairsEq, hamounts, hderivation⟩ :=
      (tailBytes_eq_iff ht ht' hpairs hbalances).1 htail
    have hconfirmedAt : t.confirmedAt = t'.confirmedAt := by
      rw [hid] at hdigits
      have hchars := congrArg String.toList hdigits
      rw [String.toList_append, String.toList_append, List.append_cancel_left_eq] at hchars
      have hseconds := toList_repr_injective hchars
      generalize t.confirmedAt = d at hseconds hnanos ⊢
      generalize t'.confirmedAt = d' at hseconds hnanos ⊢
      cases d
      cases d'
      simp_all
    by_contra hdiffer
    refine hleft ⟨hid, hconfirmedAt, hanchor, hpairsEq, hamounts, hderivation, ?_⟩
    by_contra hsame
    simp only [not_or, not_not] at hsame
    exact hdiffer ⟨hid, hconfirmedAt, hsame.1, hpairsEq, hsame.2⟩

end Parse

end ConfirmedTransaction

namespace Sample

/-- A confirmed registration without signatures. -/
def confirmed (id : ℕ) (seconds : ℤ) (ledgerAnchor : LedgerAnchor)
    (accountBalances : List AccountBalance) : ConfirmedTransaction where
  id := id
  gradidoTransaction := { transaction 0 (signedBy [] List.nodup_nil) []
      (.registerAddress ⟨.communityHuman, 1, 1, 10, 11⟩) with encoding := 0 }
  confirmedAt := ⟨seconds, 0⟩
  runningHash := []
  ledgerAnchor := ledgerAnchor
  accountBalances := accountBalances
  balanceDerivationType := .nodeComputed

/-- A balance of another account, the anchor of another user, and digits of the seconds that have
become digits of the number: the hash is the same. -/
theorem confirmed_not_binds :
    ¬ ConfirmedTransaction.Binds env
        (confirmed 2 midnight (.legacyGradidoDb .transaction 2) [⟨11, 100, 1⟩])
        (confirmed 2 midnight (.legacyGradidoDb .transaction 2) [⟨21, 100, 1⟩]) none none ∧
      ¬ ConfirmedTransaction.Binds env (confirmed 2 midnight (.legacyGradidoDb .user 5) [])
        (confirmed 2 midnight (.legacyGradidoDb .user 6) []) none none ∧
      ¬ ConfirmedTransaction.Binds env
        (confirmed 1 1704067200 (.legacyGradidoDb .transaction 2) [])
        (confirmed 1170 4067200 (.legacyGradidoDb .transaction 2) []) none none := by
  refine ⟨fun h => ?_, fun h => ?_, fun h => ?_⟩
  · have hsame := (h rfl).accountBalances
    simp [confirmed] at hsame
  · have hsame := (h rfl).ledgerAnchor
    simp [confirmed] at hsame
  · have hsame := (h (by decide +kernel)).id
    simp [confirmed] at hsame

/-- The anchors of two transactions of the legacy database are told apart. -/
theorem confirmed_binds :
    ConfirmedTransaction.Binds env
      (confirmed 2 midnight (.legacyGradidoDb .transaction 2) [⟨11, 100, 1⟩])
      (confirmed 2 midnight (.legacyGradidoDb .transaction 3) [⟨21, 100, 1⟩]) none none := by
  refine (ConfirmedTransaction.binds_iff env rfl ⟨by decide +kernel, by decide +kernel,
    by decide +kernel⟩ ⟨by decide +kernel, by decide +kernel, by decide +kernel⟩).2 ⟨?_, ?_⟩
  · intro hleft
    exact absurd hleft.anchor (by decide +kernel)
  · intro hshifted
    exact absurd hshifted.tail (by decide +kernel)

end Sample

end Gradido
