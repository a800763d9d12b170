import GradidoBlockchain.Chain.Window
import Mathlib.Data.Set.Function

/-!
# Transactions across communities

An inbound transaction names the outbound transaction it completes by a ledger
anchor.  The chain of the other community finds the first transaction with that
anchor (`Anchored`), and the pairing check compares it with the inbound one:
sender, recipient, amount, memos and date, but neither the coin community nor
the direction.  Nothing records that an outbound transaction was used.

`run_crossCommunitySound` says what is missing for the transfers of all
communities to match one to one.
-/

namespace Gradido

open Checked ConfirmTransaction

/-! ### Looking up by ledger anchor -/

/-- The first transaction of a log with a ledger anchor. -/
def firstWithAnchor (h : List ConfirmedTransaction) (a : LedgerAnchor) :
    Option ConfirmedTransaction :=
  h.find? (fun tx => decide (tx.ledgerAnchor = a))

theorem firstWithAnchor_append_singleton (h : List ConfirmedTransaction)
    (tx : ConfirmedTransaction) (a : LedgerAnchor) :
    firstWithAnchor (h ++ [tx]) a =
      (firstWithAnchor h a).or (if tx.ledgerAnchor = a then some tx else none) := by
  unfold firstWithAnchor
  rw [List.find?_append, List.find?_singleton]
  simp

/-- A longer log finds the same transaction. -/
theorem firstWithAnchor_of_prefix {h h' : List ConfirmedTransaction} (hh : h <+: h')
    {a : LedgerAnchor} {tx : ConfirmedTransaction} (htx : firstWithAnchor h a = some tx) :
    firstWithAnchor h' a = some tx := by
  obtain ⟨l, rfl⟩ := hh
  unfold firstWithAnchor at htx ⊢
  rw [List.find?_append, htx, Option.some_or]

/-- The map of ledger anchors holds the first transaction of each anchor. -/
def Anchored (s : InMemory) : Prop :=
  ∀ a, s.mLedgerAnchorTransactionNrs a =
    (firstWithAnchor s.history a).map ConfirmedTransaction.id

theorem Anchored.findByLedgerAnchor {s : InMemory} (hs : Anchored s) {community : ℕ}
    (hrep : s.Represents community s.history) (a : LedgerAnchor) :
    s.findByLedgerAnchor a = firstWithAnchor s.history a := by
  unfold InMemory.findByLedgerAnchor
  rw [hs a]
  cases hfirst : firstWithAnchor s.history a with
  | none => rfl
  | some tx =>
    rw [Option.map_some, Option.bind_some]
    exact hrep.byNr_id (List.mem_of_find?_eq_some hfirst)

/-- A new entry of the map is the first transaction with its anchor. -/
theorem Anchored.insertNew {s : InMemory} (hs : Anchored s) (tx : ConfirmedTransaction)
    (a : LedgerAnchor) :
    InMemory.insertNew s.mLedgerAnchorTransactionNrs tx.ledgerAnchor tx.id a =
      (firstWithAnchor (s.history ++ [tx]) a).map ConfirmedTransaction.id := by
  rw [firstWithAnchor_append_singleton]
  by_cases ha : tx.ledgerAnchor = a
  · subst ha
    cases hfirst : firstWithAnchor s.history tx.ledgerAnchor with
    | none =>
      rw [InMemory.insertNew_self (by rw [hs, hfirst]; rfl)]
      simp
    | some t =>
      rw [InMemory.insertNew_of_some (w := t.id) (by rw [hs, hfirst]; rfl)]
      simp
  · rw [InMemory.insertNew_of_ne _ _ (Ne.symm ha), hs, if_neg ha, Option.or_none]

namespace ConfirmTransaction

/-- Every reachable chain finds the first transaction of each ledger anchor. -/
theorem Reachable.anchored {env : Env} {direct : ℕ → Role → Prop} {p : InMemoryProvider}
    (h : Reachable env direct p) : ∀ i, Anchored (p.findBlockchain i) := by
  refine h.chain_invariant (P := fun p => ∀ i, Anchored (p.findBlockchain i)) ?_ ?_ ?_
  · intro i a
    rfl
  · intro community endDate event p hreach hp _ i a
    rw [hreach.logged.history_dropEvent, ← hp i a]
    by_cases hi : i = community
    · subst hi
      rw [findBlockchain_dropEvent]
      rfl
    · rw [findBlockchain_dropEvent_of_ne _ _ hi]
  · intro community role p q tx _ _ hreach hq _ _ hb _ i a
    by_cases hi : i = community
    · subst hi
      rw [hreach.logged.history_added hb, findBlockchain_added,
        InMemory.addToBlockchain_mLedgerAnchorTransactionNrs]
      exact (hq i).insertNew tx a
    · rw [findBlockchain_added_of_ne _ _ _ hi]
      exact hq i a

end ConfirmTransaction

/-! ### Pairing -/

/-- The transfer in a body: sender, recipient, amount and coin community. -/
def transferOf (body : TransactionBody) : Option GradidoTransfer :=
  match body.specific with
  | .transfer t => some t
  | .deferredTransfer d => some d.transfer
  | .redeemDeferredTransfer r => some r.transfer
  | _ => none

/-- The coin community of the transfer in a body. -/
def coinOf (body : TransactionBody) : Option ℕ :=
  (transferOf body).map (fun t => t.sender.coinCommunityIdIndex)

/-- Transfers that pair are equal up to the coin community. -/
theorem GradidoTransfer.eq_of_isPairing {a b : GradidoTransfer} (h : a.isPairing b = true)
    (hcoin : a.sender.coinCommunityIdIndex = b.sender.coinCommunityIdIndex) : a = b := by
  obtain ⟨⟨ka, va, ca⟩, ra⟩ := a
  obtain ⟨⟨kb, vb, cb⟩, rb⟩ := b
  simp only [isPairing, TransferAmount.isPairing, Bool.and_eq_true, decide_eq_true_eq] at h
  simp_all

theorem GradidoTransaction.transferOf_eq_of_isPairing {env : Env} {a b : GradidoTransaction}
    (h : a.isPairing env b = true) (hcoin : coinOf a.body = coinOf b.body) :
    transferOf a.body = transferOf b.body := by
  unfold GradidoTransaction.isPairing at h
  unfold coinOf at hcoin
  split_ifs at h
  cases ha : a.body.specific <;> cases hb : b.body.specific <;>
    simp only [transferOf, ha, hb, Option.map_some, Option.some.injEq, Bool.false_eq_true,
      decide_eq_true_eq] at h hcoin ⊢
  · exact GradidoTransfer.eq_of_isPairing h hcoin
  · rw [h]
  · simp only [GradidoRedeemDeferredTransfer.isPairing, Bool.and_eq_true] at h
    exact GradidoTransfer.eq_of_isPairing h.1 hcoin

/-- An inbound transaction of a community found its pair: the transaction `t` of the other
community. -/
def PairedWith (env : Env) (p : InMemoryProvider) (tx : ConfirmedTransaction) (other : ℕ)
    (t : ConfirmedTransaction) : Prop :=
  tx.body.otherCommunityIdIndex = some other ∧
    firstWithAnchor (p.findBlockchain other).history
      tx.gradidoTransaction.pairingLedgerAnchor = some t ∧
    tx.gradidoTransaction.isPairing env t.gradidoTransaction = true

namespace ConfirmTransaction

/-- A confirmed inbound transaction passed the pairing check. -/
theorem Confirms.paired {env : Env} {community : ℕ} {role : Role} {p q : InMemoryProvider}
    {tx : ConfirmedTransaction} (h : Confirms env community role p q tx)
    (hb : Built env q community role tx) (hq : Logged env q)
    (hanchored : ∀ i, Anchored (q.findBlockchain i)) (hinbound : tx.body.type = .inbound) :
    ∃ other t, PairedWith env q tx other t := by
  have hbody := hb.body_eq
  have hsome : tx.gradidoTransaction.body.otherCommunityIdIndex ≠ none := by
    have hother := h.otherCommunityIdIndex (by rw [hbody, hinbound]; decide)
    rwa [hbody] at hother
  have hinbound' : tx.gradidoTransaction.body.type = .inbound := hinbound
  obtain ⟨c, hc⟩ := hb.accepted
  rcases Validate.prepareContext_spec hc.context with
    ⟨hnone, -⟩ | ⟨other, hother, hpairing, -, hlast, hcase⟩
  · exact absurd hnone hsome
  · have hrecipient : c.recipientBlockchain = q.findBlockchain community := by
      rcases hcase with ⟨-, -, hrec, -⟩ | ⟨hout, -⟩ | ⟨hnot, -⟩
      · exact hrec
      · rw [hinbound'] at hout
        exact absurd hout (by decide)
      · exact absurd hinbound' hnot
    have hroot : tx.body.transactionType ≠ .communityRoot := by
      rw [hrecipient] at hlast
      rw [Ne, hb.root_iff (hq.represents community)]
      intro hnil
      rw [(hq.represents community).last, hnil] at hlast
      simp at hlast
    have hpaired : (validationType role
        (q.findBlockchain community).mLastTransaction).paired = true := by
      simp [validationType, hbody, hroot, hinbound]
    have hvalid := hc.pairing hpaired hsome
    simp only [Validate.validatePairing, hinbound', bind_eq_ok, exists_unit, throwIf_eq_ok,
      orThrow_eq_ok, Bool.not_eq_false'] at hvalid
    obtain ⟨hempty, t, ht, hpairs⟩ := hvalid
    rw [hpairing, Validate.findPairingTx, hempty, if_neg (by decide),
      (hanchored other).findByLedgerAnchor (hq.represents other)] at ht
    exact ⟨other, t, hother, ht, hpairs⟩

/-- Every inbound transaction of a reachable chain found its pair. -/
theorem Reachable.paired {env : Env} {direct : ℕ → Role → Prop} {p : InMemoryProvider}
    (h : Reachable env direct p) :
    ∀ i, ∀ tx ∈ (p.findBlockchain i).history, tx.body.type = .inbound →
      ∃ other t, PairedWith env p tx other t := by
  refine h.forall_confirmed (Q := fun p _ tx => tx.body.type = .inbound →
    ∃ other t, PairedWith env p tx other t) ?_ ?_
  · intro p q _ tx hpq hp hinbound
    obtain ⟨other, t, hother, ht, hpairs⟩ := hp hinbound
    exact ⟨other, t, hother, firstWithAnchor_of_prefix (hpq other) ht, hpairs⟩
  · intro community role p q tx hreach hconfirms hb _ hinbound
    exact hconfirms.paired hb hreach.logged hreach.anchored hinbound

end ConfirmTransaction

/-! ### Main results -/

/-- **Cross-community soundness** of a state: the inbound transactions of all communities, given by
community and number, are assigned one to one to outbound transactions of the communities they
name, with the same transfer and the directions reversed. -/
def CrossCommunitySound (p : InMemoryProvider) : Prop :=
  ∃ f : ℕ × ℕ → ℕ × ℕ,
    Set.InjOn f {x | ∃ tx, (p.findBlockchain x.1).mTransactionsByNr x.2 = some tx ∧
      tx.body.type = .inbound} ∧
    ∀ x tx, (p.findBlockchain x.1).mTransactionsByNr x.2 = some tx → tx.body.type = .inbound →
      tx.body.otherCommunityIdIndex = some (f x).1 ∧
      ∃ t, (p.findBlockchain (f x).1).mTransactionsByNr (f x).2 = some t ∧
        t.body.type = .outbound ∧ t.body.otherCommunityIdIndex = some x.1 ∧
        transferOf t.body = transferOf tx.body

/-- What the pairing check leaves open: every inbound transaction carries the anchor of an outbound
transaction to its own community in the same coin, and no two of them the same anchor of the same
community. -/
structure PairedOnce (p : InMemoryProvider) : Prop where
  outbound : ∀ community other, ∀ tx ∈ (p.findBlockchain community).history,
    tx.body.type = .inbound → tx.body.otherCommunityIdIndex = some other →
    ∀ t, (p.findBlockchain other).findByLedgerAnchor
        tx.gradidoTransaction.pairingLedgerAnchor = some t →
      t.body.type = .outbound ∧ t.body.otherCommunityIdIndex = some community ∧
        coinOf t.body = coinOf tx.body
  distinct : ∀ community community', ∀ tx ∈ (p.findBlockchain community).history,
    ∀ tx' ∈ (p.findBlockchain community').history,
    tx.body.type = .inbound → tx'.body.type = .inbound →
    tx.body.otherCommunityIdIndex = tx'.body.otherCommunityIdIndex →
    tx.gradidoTransaction.pairingLedgerAnchor = tx'.gradidoTransaction.pairingLedgerAnchor →
    community = community' ∧ tx.id = tx'.id

/-- The outbound transaction that the pairing check found for an inbound one. -/
def pairOf (p : InMemoryProvider) (x : ℕ × ℕ) : ℕ × ℕ :=
  match (p.findBlockchain x.1).mTransactionsByNr x.2 with
  | none => (0, 0)
  | some tx =>
    let other := tx.body.otherCommunityIdIndex.getD 0
    (other, ((p.findBlockchain other).mLedgerAnchorTransactionNrs
      tx.gradidoTransaction.pairingLedgerAnchor).getD 0)

/-- **Cross-community soundness.**  When every inbound transaction of a run carries the anchor of an
outbound transaction to its community in the same coin, and no anchor is used twice, the inbound
transactions match outbound ones one to one. -/
theorem run_crossCommunitySound (env : Env) (calls : List Call)
    (honce : PairedOnce (run env calls)) : CrossCommunitySound (run env calls) := by
  have hreach := reachable_run env calls
  have hlogged := hreach.logged
  -- the pair that the check found, and where `pairOf` sends the inbound transaction
  have hpair : ∀ x tx, ((run env calls).findBlockchain x.1).mTransactionsByNr x.2 = some tx →
      tx.body.type = .inbound → ∃ other t, PairedWith env (run env calls) tx other t ∧
        t ∈ ((run env calls).findBlockchain other).history ∧
        t.ledgerAnchor = tx.gradidoTransaction.pairingLedgerAnchor ∧
        pairOf (run env calls) x = (other, t.id) := by
    intro x tx htx hinbound
    have hmem := ((hlogged.represents x.1).mem_of_byNr htx).1
    obtain ⟨other, t, hpaired⟩ := hreach.paired x.1 tx hmem hinbound
    obtain ⟨hother, hfirst, -⟩ := id hpaired
    refine ⟨other, t, hpaired, List.mem_of_find?_eq_some hfirst,
      by simpa using List.find?_some hfirst, ?_⟩
    simp only [pairOf, htx, hother, Option.getD_some, hreach.anchored other _, hfirst,
      Option.map_some]
  refine ⟨pairOf (run env calls), ?_, ?_⟩
  · rintro x ⟨tx, htx, hinbound⟩ y ⟨ty, hty, hinboundy⟩ hxy
    obtain ⟨other, t, ⟨hother, -⟩, ht, hanchor, hx⟩ := hpair x tx htx hinbound
    obtain ⟨other', t', ⟨hother', -⟩, ht', hanchor', hy⟩ := hpair y ty hty hinboundy
    rw [hx, hy, Prod.mk.injEq] at hxy
    obtain ⟨rfl, hid⟩ := hxy
    have heq : t = t' := by
      have hbyNr := (hlogged.represents other).byNr_id ht
      rw [hid, (hlogged.represents other).byNr_id ht'] at hbyNr
      exact (Option.some.inj hbyNr).symm
    obtain ⟨hmem, hidx⟩ := (hlogged.represents x.1).mem_of_byNr htx
    obtain ⟨hmemy, hidy⟩ := (hlogged.represents y.1).mem_of_byNr hty
    obtain ⟨hcommunity, hnr⟩ := honce.distinct x.1 y.1 tx hmem ty hmemy hinbound hinboundy
      (hother.trans hother'.symm) (by rw [← hanchor, ← hanchor', heq])
    exact Prod.ext hcommunity (by rw [← hidx, ← hidy, hnr])
  · intro x tx htx hinbound
    obtain ⟨other, t, ⟨hother, hfirst, hpairs⟩, ht, -, hx⟩ := hpair x tx htx hinbound
    rw [hx]
    have hmem := ((hlogged.represents x.1).mem_of_byNr htx).1
    have hfind : ((run env calls).findBlockchain other).findByLedgerAnchor
        tx.gradidoTransaction.pairingLedgerAnchor = some t := by
      rw [(hreach.anchored other).findByLedgerAnchor (hlogged.represents other), hfirst]
    obtain ⟨houtbound, hback, hcoin⟩ := honce.outbound x.1 other tx hmem hinbound hother t hfind
    refine ⟨hother, t, (hlogged.represents other).byNr_id ht, houtbound, hback, ?_⟩
    exact (GradidoTransaction.transferOf_eq_of_isPairing hpairs hcoin.symm).symm

namespace Sample

/-- Community two, with account `41`. -/
def secondSetup : List Call :=
  [{ call 1 0 { transaction 0 (signedByKey 4) [] (.communityRoot ⟨4, 5, 6⟩) with
        communityIdIndex := 2 } with community := 2 },
    { call 2 0 { transaction 0 (signedBy [4, 40, 41] (by decide)) []
        (.registerAddress ⟨.communityHuman, 1, 1, 40, 41⟩) with
        communityIdIndex := 2 } with community := 2 }]

/-- A transfer of a hundred cents from account `11` to account `41` of community two. -/
def outbound : GradidoTransaction :=
  let tx := transaction 60 (signedByKey 11) [memo] (.transfer ⟨⟨11, 100, 1⟩, 41⟩)
  { tx with body := { tx.body with type := .outbound, otherCommunityIdIndex := some 2 } }

/-- Its other half, when the outbound transaction has ledger anchor four. -/
def inbound : GradidoTransaction :=
  { outbound with
    body := { outbound.body with type := .inbound, otherCommunityIdIndex := some 1 }
    communityIdIndex := 2
    pairingLedgerAnchor := .legacyGradidoDb .transaction 4 }

/-- The inbound transaction, submitted with an offset in seconds. -/
def inboundCall (id : ℕ) (offset : ℤ) : Call := { call id offset inbound with community := 2 }

/-- The transfer with its two halves. -/
def transferRun : List Call := setup ++ secondSetup ++ [call 4 0 outbound, inboundCall 3 0]

/-- The same, with the inbound half submitted again a second later. -/
def doubleRun : List Call := transferRun ++ [inboundCall 4 1]

end Sample

/-- Both inbound transactions are confirmed, but there is only one outbound transaction. -/
theorem doubleRun_not_crossCommunitySound :
    ¬ CrossCommunitySound (run Sample.env Sample.doubleRun) := by
  have hrep := (reachable_run Sample.env Sample.doubleRun).logged.represents 1
  have houtbound : (((run Sample.env Sample.doubleRun).findBlockchain 1).history.map
      (fun t => (t.id, t.body.type))) =
      [(1, .localGroup), (2, .localGroup), (3, .localGroup), (4, .outbound)] := by
    decide +kernel
  have hthree : (((run Sample.env Sample.doubleRun).findBlockchain 2).mTransactionsByNr 3).map
      (fun tx => (tx.body.type, tx.body.otherCommunityIdIndex)) = some (.inbound, some 1) := by
    decide +kernel
  have hfour : (((run Sample.env Sample.doubleRun).findBlockchain 2).mTransactionsByNr 4).map
      (fun tx => (tx.body.type, tx.body.otherCommunityIdIndex)) = some (.inbound, some 1) := by
    decide +kernel
  generalize run Sample.env Sample.doubleRun = p at *
  rintro ⟨f, hinj, hf⟩
  have hpair : ∀ nr, ((p.findBlockchain 2).mTransactionsByNr nr).map
      (fun tx => (tx.body.type, tx.body.otherCommunityIdIndex)) = some (.inbound, some 1) →
      f (2, nr) = (1, 4) ∧
        ∃ tx, (p.findBlockchain 2).mTransactionsByNr nr = some tx ∧ tx.body.type = .inbound := by
    intro nr hnr
    obtain ⟨tx, htx, hfacts⟩ := Option.map_eq_some_iff.1 hnr
    simp only [Prod.mk.injEq] at hfacts
    obtain ⟨hother, t, ht, hout, -⟩ := hf (2, nr) tx htx hfacts.1
    rw [hfacts.2, Option.some.injEq] at hother
    rw [← hother] at ht
    obtain ⟨hmem, hid⟩ := hrep.mem_of_byNr ht
    have hin := List.mem_map_of_mem (f := fun t => (t.id, t.body.type)) hmem
    rw [houtbound, hid, hout] at hin
    have hnr4 : (f (2, nr)).2 = 4 := by simpa using hin
    exact ⟨Prod.ext hother.symm hnr4, tx, htx, hfacts.1⟩
  obtain ⟨hf3, hin3⟩ := hpair 3 hthree
  obtain ⟨hf4, hin4⟩ := hpair 4 hfour
  have heq : ((2, 3) : ℕ × ℕ) = (2, 4) := hinj hin3 hin4 (hf3.trans hf4.symm)
  simp at heq

/-- The transfer with one inbound half is sound. -/
theorem transferRun_crossCommunitySound :
    CrossCommunitySound (run Sample.env Sample.transferRun) := by
  have hone : (((run Sample.env Sample.transferRun).findBlockchain 1).history.map
      (fun t => t.body.type)) = [.localGroup, .localGroup, .localGroup, .outbound] := by
    decide +kernel
  have htwo : (((run Sample.env Sample.transferRun).findBlockchain 2).history.map
      (fun t => (t.id, t.body.type, t.body.otherCommunityIdIndex, coinOf t.body,
        t.gradidoTransaction.pairingLedgerAnchor))) =
      [(1, .localGroup, none, none, .unspecified), (2, .localGroup, none, none, .unspecified),
        (3, .inbound, some 1, some 1, .legacyGradidoDb .transaction 4)] := by
    decide +kernel
  have hpair : (((run Sample.env Sample.transferRun).findBlockchain 1).findByLedgerAnchor
      (.legacyGradidoDb .transaction 4)).map (fun t => (t.body.type, t.body.otherCommunityIdIndex,
        coinOf t.body)) = some (.outbound, some 2, some 1) := by
    decide +kernel
  -- an inbound transaction is number three of community two
  have hinbound : ∀ i, ∀ tx ∈ ((run Sample.env Sample.transferRun).findBlockchain i).history,
      tx.body.type = .inbound → i = 2 ∧ tx.id = 3 ∧ tx.body.otherCommunityIdIndex = some 1 ∧
        coinOf tx.body = some 1 ∧
        tx.gradidoTransaction.pairingLedgerAnchor = .legacyGradidoDb .transaction 4 := by
    intro i tx htx htype
    have hcalled := (reachable_run Sample.env Sample.transferRun).called i
      (List.ne_nil_of_mem htx)
    have hi : i = 1 ∨ i = 2 := by
      obtain ⟨c, hc, rfl⟩ := hcalled
      have hall : ∀ c ∈ Sample.transferRun, c.community = 1 ∨ c.community = 2 := by decide
      exact hall c hc
    rcases hi with rfl | rfl
    · have hin := List.mem_map_of_mem (f := fun t : ConfirmedTransaction => t.body.type) htx
      rw [hone, htype] at hin
      simp at hin
    · have hin := List.mem_map_of_mem (f := fun t : ConfirmedTransaction => (t.id, t.body.type,
        t.body.otherCommunityIdIndex, coinOf t.body,
        t.gradidoTransaction.pairingLedgerAnchor)) htx
      rw [htwo, htype] at hin
      simpa using hin
  refine run_crossCommunitySound _ _ ⟨?_, ?_⟩
  · intro i other tx htx htype hother t ht
    obtain ⟨rfl, -, hother', hcoin, hanchor⟩ := hinbound i tx htx htype
    rw [hother', Option.some.injEq] at hother
    rw [← hother, hanchor] at ht
    rw [ht, Option.map_some, Option.some.injEq, Prod.mk.injEq, Prod.mk.injEq] at hpair
    exact ⟨hpair.1, hpair.2.1, hpair.2.2.trans hcoin.symm⟩
  · intro i j tx htx tx' htx' htype htype' _ _
    obtain ⟨rfl, hid, -⟩ := hinbound i tx htx htype
    obtain ⟨rfl, hid', -⟩ := hinbound j tx' htx' htype'
    exact ⟨rfl, hid.trans hid'.symm⟩

end Gradido
