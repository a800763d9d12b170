import GradidoBlockchain.Chain.RunningHash
import GradidoBlockchain.Chain.WellFormed
import GradidoBlockchain.Lib.HashChain

/-!
# What the last running hash fixes

The running hash of a transaction is computed over what is written for it and the
running hash before.  The last one of a blockchain therefore fixes all that was
written since the community root: two nodes whose blockchains end with the same
running hash have confirmed chains of the same length, with the same numbers and
dates and the same bytes behind the dates, as long as nothing that was hashed
collides.  The numbers need not be told apart by their digits here, as two single
transactions would have to be: they are positions.
-/

namespace Gradido

open Concat ConfirmTransaction

/-! ### Hexadecimal texts -/

/-- The two digits of a byte, as bytes. -/
def hexBytes (b : UInt8) : List UInt8 :=
  [UInt8.ofNat (Nat.digitChar (b.toNat / 16)).toNat,
    UInt8.ofNat (Nat.digitChar (b.toNat % 16)).toNat]

theorem asciiBytes_convertToHex (bytes : List UInt8) :
    asciiBytes (convertToHex bytes) = bytes.flatMap hexBytes := by
  rw [asciiBytes, convertToHex, String.toList_ofList, List.map_flatMap]
  rfl

theorem length_asciiBytes_convertToHex (bytes : List UInt8) :
    (asciiBytes (convertToHex bytes)).length = bytes.length * 2 := by
  rw [asciiBytes_convertToHex]
  exact length_flatMap_of_width (f := hexBytes) (fun _ => rfl) bytes

/-- A digit is told by its character, which is not the point. -/
theorem digitChar_facts : ∀ n < 16, UInt8.ofNat (Nat.digitChar n).toNat ≠ UInt8.ofNat '.'.toNat ∧
    ∀ m < 16, UInt8.ofNat (Nat.digitChar n).toNat = UInt8.ofNat (Nat.digitChar m).toNat →
      n = m := by
  decide

theorem hexBytes_injective : Function.Injective hexBytes := by
  intro b c h
  rw [hexBytes, hexBytes, List.cons.injEq, List.cons.injEq] at h
  have hb := b.toNat_lt
  have hc := c.toNat_lt
  have hhigh := (digitChar_facts _ (by omega)).2 _ (by omega) h.1
  have hlow := (digitChar_facts _ (Nat.mod_lt _ (by omega))).2 _ (Nat.mod_lt _ (by omega)) h.2.1
  exact UInt8.toNat_inj.1 (by omega)

/-- Two hashes of the same length are told by their hexadecimal texts. -/
theorem convertToHex_inj {bytes bytes' : List UInt8} (hlength : bytes.length = bytes'.length)
    (h : asciiBytes (convertToHex bytes) = asciiBytes (convertToHex bytes')) : bytes = bytes' := by
  rw [asciiBytes_convertToHex, asciiBytes_convertToHex] at h
  exact flatMap_inj (f := hexBytes) (w := 2) (fun _ => rfl) hlength
    (fun _ _ _ _ heq => hexBytes_injective heq) h

theorem point_not_mem_convertToHex (bytes : List UInt8) :
    UInt8.ofNat '.'.toNat ∉ asciiBytes (convertToHex bytes) := by
  rw [asciiBytes_convertToHex]
  intro hmem
  obtain ⟨b, -, hb⟩ := List.mem_flatMap.1 hmem
  have hlt := b.toNat_lt
  rw [hexBytes, List.mem_cons, List.mem_singleton] at hb
  rcases hb with hb | hb
  · exact (digitChar_facts _ (by omega)).1 hb.symm
  · exact (digitChar_facts _ (Nat.mod_lt _ (by omega))).1 hb.symm

namespace ConfirmedTransaction

/-! ### What is written tells the hash before -/

/-- As `Writable`, with the sizes of the number and of the seconds. -/
structure Sized (tx : ConfirmedTransaction) : Prop extends Writable tx where
  id : tx.id < 2 ^ 64
  seconds : -2 ^ 63 ≤ tx.confirmedAt.seconds ∧ tx.confirmedAt.seconds < 2 ^ 63

instance (tx : ConfirmedTransaction) : Decidable tx.Writable :=
  decidable_of_iff (tx.confirmedAt.nanos.repr.length ≤ 9 ∧
      (∀ p ∈ tx.gradidoTransaction.signatureMap.signaturePairs,
        p.publicKey < 256 ^ 32 ∧ p.signature < 256 ^ 64) ∧
      ∀ b ∈ tx.accountBalances, -2 ^ 63 ≤ b.balance ∧ b.balance < 2 ^ 63)
    ⟨fun h => ⟨h.1, h.2.1, h.2.2⟩, fun h => ⟨h.nanos, h.pairs, h.balances⟩⟩

instance (tx : ConfirmedTransaction) : Decidable tx.Sized :=
  decidable_of_iff (tx.Writable ∧ tx.id < 2 ^ 64 ∧
      -2 ^ 63 ≤ tx.confirmedAt.seconds ∧ tx.confirmedAt.seconds < 2 ^ 63)
    ⟨fun h => ⟨h.1, h.2.1, h.2.2⟩, fun h => ⟨h.toWritable, h.id, h.seconds⟩⟩

/-- The digits before the point are fewer than those of a hash. -/
theorem Sized.length_digits_lt {tx : ConfirmedTransaction} (h : tx.Sized) :
    (asciiBytes (tx.id.repr ++ tx.confirmedAt.seconds.repr)).length < 64 := by
  have hid : tx.id.repr.length ≤ 20 := by
    rw [Nat.length_repr_le_iff (by omega)]
    have := h.id
    omega
  have hseconds : tx.confirmedAt.seconds.repr.length ≤ 20 := by
    rw [length_repr_le_iff (by omega)]
    have := h.seconds
    split_ifs <;> omega
  rw [asciiBytes, List.length_map, String.toList_append, List.length_append, String.length_toList,
    String.length_toList]
  omega

/-- **The hash before is told** by what is written: nothing stands before the digits of the first
transaction, and a hash of 32 bytes, which is longer than all digits, before those of any other. -/
theorem tellsPrevious (env : Env) : HashChain.TellsPrevious (runningHashInput env) runningHash
    (fun tx => tx.Sized ∧ tx.runningHash.length = 32) := by
  have hlength : ∀ previous : Option ConfirmedTransaction,
      (∀ b ∈ previous, b.Sized ∧ b.runningHash.length = 32) →
      UInt8.ofNat '.'.toNat ∉ previousBytes previous ∧
        (previousBytes previous).length = if previous.isSome then 64 else 0 := by
    rintro (_ | p) hp
    · exact ⟨List.not_mem_nil, rfl⟩
    · refine ⟨point_not_mem_convertToHex _, ?_⟩
      rw [previousBytes, length_asciiBytes_convertToHex, (hp p rfl).2]
      rfl
  intro tx tx' previous previous' htx htx' hprevious hprevious' h
  obtain ⟨hpoint, hbytes⟩ := hlength previous hprevious
  obtain ⟨hpoint', hbytes'⟩ := hlength previous' hprevious'
  have hdigits := htx.1.length_digits_lt
  have hdigits' := htx'.1.length_digits_lt
  rw [runningHashInput_eq, runningHashInput_eq, ← List.append_assoc, ← List.append_assoc] at h
  obtain ⟨hbefore, -⟩ := split_separator
    (fun hmem => (List.mem_append.1 hmem).elim hpoint tx.point_not_mem)
    (fun hmem => (List.mem_append.1 hmem).elim hpoint' tx'.point_not_mem) h
  have hsum := congrArg List.length hbefore
  rw [List.length_append, List.length_append, hbytes, hbytes'] at hsum
  cases previous with
  | none =>
    cases previous' with
    | none => rfl
    | some p' =>
      simp only [Option.isSome_none, Option.isSome_some, if_true, Bool.false_eq_true, if_false]
        at hsum
      omega
  | some p =>
    cases previous' with
    | none =>
      simp only [Option.isSome_none, Option.isSome_some, if_true, Bool.false_eq_true, if_false]
        at hsum
      omega
    | some p' =>
      have hhex := (List.append_inj hbefore (by rw [hbytes, hbytes']; rfl)).1
      rw [Option.map_some, Option.map_some, convertToHex_inj
        (by rw [(hprevious p rfl).2, (hprevious' p' rfl).2]) hhex]

end ConfirmedTransaction

/-! ### Two nodes -/

/-- Two nodes hash with the same functions; their dictionaries are their own. -/
structure SameHashing (env env' : Env) : Prop where
  generichash : env.generichash = env'.generichash
  hieroTransactionIdToString : env.hieroTransactionIdToString = env'.hieroTransactionIdToString

/-- What the running hashes of two chains fix of their transactions with one number: all that is
written, and the fields themselves where the numbers of signatures and balances agree. -/
structure SameWritten (env : Env) (t t' : ConfirmedTransaction) : Prop where
  id : t.id = t'.id
  confirmedAt : t.confirmedAt = t'.confirmedAt
  runningHash : t.runningHash = t'.runningHash
  tailBytes : t.tailBytes env = t'.tailBytes env
  fields : t.gradidoTransaction.signatureMap.signaturePairs.length =
      t'.gradidoTransaction.signatureMap.signaturePairs.length →
    t.accountBalances.length = t'.accountBalances.length →
    t.gradidoTransaction.signatureMap.signaturePairs =
        t'.gradidoTransaction.signatureMap.signaturePairs ∧
      t.accountBalances.map AccountBalance.balance =
        t'.accountBalances.map AccountBalance.balance ∧
      t.balanceDerivationType = t'.balanceDerivationType

/-- Nothing that went into the running hashes of one chain collides with anything that went into
those of the other one. -/
abbrev NoCollision (env : Env) (h h' : List ConfirmedTransaction) : Prop :=
  HashChain.CollisionFree (ConfirmedTransaction.runningHashInput env) env.generichash h h'

theorem SameHashing.runningHashInput_eq {env env' : Env} (h : SameHashing env env') :
    ConfirmedTransaction.runningHashInput env' = ConfirmedTransaction.runningHashInput env := by
  funext tx previous
  have htext : tx.ledgerAnchor.toString env' = tx.ledgerAnchor.toString env := by
    unfold LedgerAnchor.toString
    rw [h.hieroTransactionIdToString]
  unfold ConfirmedTransaction.runningHashInput
  rw [htext]

/-- A log whose running hashes are computed over what is written. -/
abbrev Hashed (env : Env) (h : List ConfirmedTransaction) : Prop :=
  HashChain.Linked (ConfirmedTransaction.runningHashInput env) env.generichash
    ConfirmedTransaction.runningHash h

namespace ConfirmTransaction

/-- The running hashes of all reachable logs are computed over what is written. -/
theorem Reachable.hashed {env : Env} {direct : ℕ → Role → Prop} {p : InMemoryProvider}
    (h : Reachable env direct p) : ∀ i, Hashed env (p.findBlockchain i).history := by
  refine h.chain_invariant (P := fun p => ∀ i, Hashed env (p.findBlockchain i).history) ?_ ?_ ?_
  · intro i
    exact HashChain.linked_nil
  · intro community endDate event p hreach hp _ i
    rw [hreach.logged.history_dropEvent]
    exact hp i
  · intro community role p q tx _ _ hreach hq _ _ hb _ i
    by_cases hi : i = community
    · subst hi
      have hlast := hb.runningHash
      rw [(hreach.logged.represents i).last] at hlast
      rw [hreach.logged.history_added hb, Hashed, HashChain.linked_concat]
      exact ⟨hq i, hlast⟩
    · rw [findBlockchain_added_of_ne _ _ _ hi]
      exact hq i

end ConfirmTransaction

section Agree

variable {env : Env} {h h' : List ConfirmedTransaction}

/-- What is written at a position, with the hashes before, is the same: so are its parts. -/
theorem sameWritten_of_inputs {t t' previous previous'}
    (ht : t.Sized) (ht' : ConfirmedTransaction.Sized t') (hid : t.id = t'.id)
    (hhash : t.runningHash = t'.runningHash)
    (hprevious : Option.map ConfirmedTransaction.runningHash previous =
      Option.map ConfirmedTransaction.runningHash previous')
    (hinput : t.runningHashInput env previous = t'.runningHashInput env previous') :
    SameWritten env t t' := by
  obtain ⟨hdigits, hnanos, htail⟩ := (ConfirmedTransaction.runningHashInput_eq_iff hprevious
    ht.toWritable ht'.toWritable).1 hinput
  have hseconds : t.confirmedAt.seconds = t'.confirmedAt.seconds := by
    have hchars := congrArg String.toList hdigits
    rw [hid, String.toList_append, String.toList_append, List.append_cancel_left_eq] at hchars
    exact toList_repr_injective hchars
  refine ⟨hid, Timestamp.eq_iff.2 ⟨hseconds, hnanos⟩, hhash, htail, ?_⟩
  intro hpairs hbalances
  exact ((ConfirmedTransaction.tailBytes_eq_iff ht.toWritable ht'.toWritable hpairs hbalances).1
    htail).2

/-- Two logs of which the same is written. -/
theorem forall₂_sameWritten (hhashed : Hashed env h) (hhashed' : Hashed env h')
    (hinputs : HashChain.inputs (ConfirmedTransaction.runningHashInput env) h =
      HashChain.inputs (ConfirmedTransaction.runningHashInput env) h')
    (hid : ∀ k t, h[k]? = some t → t.id = k + 1) (hid' : ∀ k t, h'[k]? = some t → t.id = k + 1)
    (hsized : ∀ t ∈ h, t.Sized) (hsized' : ∀ t ∈ h', t.Sized) :
    List.Forall₂ (SameWritten env) h h' := by
  have hlength : h.length = h'.length := by
    have hwritten := congrArg List.length hinputs
    rwa [HashChain.length_inputs, HashChain.length_inputs] at hwritten
  have hdigests : h.map ConfirmedTransaction.runningHash =
      h'.map ConfirmedTransaction.runningHash := by
    rw [hhashed, hhashed', hinputs]
  refine List.forall₂_iff_get.2 ⟨hlength, ?_⟩
  intro k hk hk'
  have ht : h[k]? = some (h.get ⟨k, hk⟩) := List.getElem?_eq_getElem hk
  have ht' : h'[k]? = some (h'.get ⟨k, hk'⟩) := List.getElem?_eq_getElem hk'
  have hinput := congrArg (fun l => l[k]?) hinputs
  simp only [HashChain.getElem?_inputs, ht, ht', Option.map_some, Option.some.injEq] at hinput
  have hhash := congrArg (fun l => l[k]?) hdigests
  simp only [List.getElem?_map, ht, ht', Option.map_some, Option.some.injEq] at hhash
  have hprevious : (h.take k).getLast?.map ConfirmedTransaction.runningHash =
      (h'.take k).getLast?.map ConfirmedTransaction.runningHash := by
    rw [← List.getLast?_map, ← List.getLast?_map, List.map_take, List.map_take, hdigests]
  exact sameWritten_of_inputs (hsized _ (List.mem_of_getElem? ht))
    (hsized' _ (List.mem_of_getElem? ht')) (by rw [hid k _ ht, hid' k _ ht']) hhash hprevious hinput

end Agree

/-- **The last running hash fixes the chain.**  Two nodes hash with the same functions.  When the
blockchains that they reach by any calls end with the same running hash, and nothing that was
hashed collides, then the chains have the same length, and their transactions the same numbers,
dates and running hashes and the same bytes behind the dates. -/
theorem runAdd_sameWritten {env env' : Env} (hsame : SameHashing env env')
    (hsize : ∀ bytes, (env.generichash bytes).length = 32) (calls calls' : List AddCall)
    (community community' : ℕ)
    (hsized : ∀ tx ∈ ((runAdd env calls).findBlockchain community).history, tx.Sized)
    (hsized' : ∀ tx ∈ ((runAdd env' calls').findBlockchain community').history, tx.Sized)
    (hfree : NoCollision env ((runAdd env calls).findBlockchain community).history
      ((runAdd env' calls').findBlockchain community').history)
    (hlast : ((runAdd env calls).findBlockchain community).mLastTransaction.map
        ConfirmedTransaction.runningHash =
      ((runAdd env' calls').findBlockchain community').mLastTransaction.map
        ConfirmedTransaction.runningHash) :
    List.Forall₂ (SameWritten env) ((runAdd env calls).findBlockchain community).history
      ((runAdd env' calls').findBlockchain community').history := by
  have hreach := reachable_runAdd env calls
  have hreach' := reachable_runAdd env' calls'
  have hs := hreach.logged.represents community
  have hs' := hreach'.logged.represents community'
  have hhashed := hreach.hashed community
  have hhashed' := hreach'.hashed community'
  generalize (runAdd env calls).findBlockchain community = s at *
  generalize (runAdd env' calls').findBlockchain community' = s' at *
  rw [Hashed, ← hsame.generichash, hsame.runningHashInput_eq] at hhashed'
  rw [hs.last, hs'.last] at hlast
  have hlength : ∀ {h : List ConfirmedTransaction}, Hashed env h → ∀ tx ∈ h,
      tx.runningHash.length = 32 := by
    intro h hh tx htx
    have hmem : tx.runningHash ∈ h.map ConfirmedTransaction.runningHash :=
      List.mem_map_of_mem htx
    rw [hh] at hmem
    obtain ⟨bytes, -, heq⟩ := List.mem_map.1 hmem
    rw [← heq, hsize]
  have hinputs := HashChain.inputs_eq (ConfirmedTransaction.tellsPrevious env) hhashed hhashed'
    (fun tx htx => ⟨hsized tx htx, hlength hhashed tx htx⟩)
    (fun tx htx => ⟨hsized' tx htx, hlength hhashed' tx htx⟩) hfree hlast
  exact forall₂_sameWritten hhashed hhashed' hinputs hs.id hs'.id hsized hsized'

namespace Sample

/-- A hash of 32 bytes: a number to the base 257, cut. -/
def longHash (bytes : List UInt8) : List UInt8 :=
  littleEndian (bytes.foldl (fun acc b => (acc * 257 + b.toNat + 1) % (2 ^ 255 - 19)) 1) 32

/-- The libraries with this hash. -/
def hashingEnv : Env := { env with generichash := longHash }

/-- A second node that was given the last registration twice. -/
theorem setup_sameWritten :
    ((runAdd hashingEnv (setup.map .node)).findBlockchain 1).history.length = 3 ∧
    List.Forall₂ (SameWritten hashingEnv)
      ((runAdd hashingEnv (setup.map .node)).findBlockchain 1).history
      ((runAdd hashingEnv ((setup ++ setup.drop 2).map .node)).findBlockchain 1).history :=
  ⟨by decide +kernel,
    runAdd_sameWritten (show SameHashing hashingEnv hashingEnv from ⟨rfl, rfl⟩)
      (fun bytes => length_littleEndian _ 32) (setup.map .node)
      ((setup ++ setup.drop 2).map .node) 1 1 (by decide +kernel) (by decide +kernel)
      (by decide +kernel) (by decide +kernel)⟩

end Sample

end Gradido
