import GradidoBlockchain.Chain.WellFormed

/-!
# Clearing a blockchain

`InMemory::clear` is documented to remove all transactions and to start over,
but it only resets the transaction index and the dictionary.  The transactions
themselves, the last one, the ledger anchors, the trigger events and the
address index stay.  What a blockchain answers is compared here over whole
sequences of requests, with any dictionary in use after the reset.
-/

namespace Gradido

open Checked ConfirmTransaction

/-- A request to the blockchain of a community. -/
inductive Request
  | createAndAdd (call : AddCall)
  | findAll (f : Filter)
  | findOne (f : Filter)
  | findLast
  | findAllCompact (f : CompactFilter)
  | findAllElements (f : CompactFilter) (elementFilter : ConfirmedGradidoTx → FilterResult)
  | countAll (f : CompactFilter)
  | getAddressType (f : Filter)
  | getTransactionForId (nr : ℕ)
  | getConfirmedTxForId (nr : ℕ)
  | findByLedgerAnchor (ledgerAnchor : LedgerAnchor)
  | addTransactionTriggerEvent (event : TransactionTriggerEvent)
  | removeTransactionTriggerEvent (event : TransactionTriggerEvent)
  | findTransactionTriggerEventsInRange (startDate endDate : Timestamp)
  | findNextTransactionTriggerEventInRange (startDate endDate : Timestamp)

/-- What a request returns or throws. -/
inductive Reply
  | done (outcome : Except Exception Unit)
  | entries (result : Except Exception (List ConfirmedTransaction))
  | entry (result : Except Exception (Option ConfirmedTransaction))
  | compact (result : Except Exception (List (Option ConfirmedGradidoTx)))
  | count (n : ℕ)
  | addressType (result : Except Exception AddressType)
  | events (result : List TransactionTriggerEvent)

/-- What a call of one of the three functions that add a transaction returns or throws. -/
def AddCall.outcome (env : Env) (p : InMemoryProvider) : AddCall → Except Exception Unit
  | .node c => (InMemory.createAndAddConfirmedTransaction env p c.community c.gradidoTransaction
      c.ledgerAnchor c.confirmedAt).2
  | .given disableVerify community gradidoTransaction ledgerAnchor accountBalances =>
    (InMemory.createAndAddConfirmedTransactionExtern env disableVerify p community
      gradidoTransaction ledgerAnchor accountBalances).2

namespace Request

/-- A request to the blockchain of a community: the blockchains afterwards and the reply. -/
def answer (env : Env) (community : ℕ) (p : InMemoryProvider) : Request → InMemoryProvider × Reply
  | .createAndAdd call => (call.exec env p, .done (call.outcome env p))
  | .findAll f => (p, .entries ((p.findBlockchain community).findAll env f))
  | .findOne f => (p, .entry ((p.findBlockchain community).findOne env f))
  | .findLast => (p, .entry (.ok (p.findBlockchain community).mLastTransaction))
  | .findAllCompact f => (p, .compact (.ok ((p.findBlockchain community).findAllCompact f)))
  | .findAllElements f elementFilter =>
    (p, .compact (((p.findBlockchain community).findAllElements f elementFilter).map
      (List.map some)))
  | .countAll f => (p, .count ((p.findBlockchain community).countAll f))
  | .getAddressType f => (p, .addressType ((p.findBlockchain community).getAddressType env f))
  | .getTransactionForId nr => (p, .entry (.ok ((p.findBlockchain community).mTransactionsByNr nr)))
  | .getConfirmedTxForId nr =>
    (p, .compact (.ok [(p.findBlockchain community).mConfirmedTxByNr nr]))
  | .findByLedgerAnchor ledgerAnchor =>
    (p, .entry (.ok ((p.findBlockchain community).findByLedgerAnchor ledgerAnchor)))
  | .addTransactionTriggerEvent event =>
    match (p.findBlockchain community).addTransactionTriggerEvent event with
    | .ok s => (p.set community s, .done (.ok ()))
    | .error e => (p, .done (.error e))
  | .removeTransactionTriggerEvent event => (dropEvent p community event, .done (.ok ()))
  | .findTransactionTriggerEventsInRange startDate endDate =>
    (p, .events ((p.findBlockchain community).findTransactionTriggerEventsInRange startDate
      endDate))
  | .findNextTransactionTriggerEventInRange startDate endDate =>
    (p, .events ((p.findBlockchain community).findNextTransactionTriggerEventInRange startDate
      endDate).toList)

/-- The replies to a sequence of requests. -/
def replies (env : Env) (community : ℕ) : InMemoryProvider → List Request → List Reply
  | _, [] => []
  | p, r :: rs =>
    (r.answer env community p).2 :: replies env community (r.answer env community p).1 rs

end Request

/-- A blockchain answers every sequence of requests like a new one after it was cleared. -/
def StartsOver (p : InMemoryProvider) (community : ℕ) : Prop :=
  ∀ (env : Env) (rs : List Request),
    Request.replies env community (p.set community (p.findBlockchain community).clear) rs =
      Request.replies env community (p.set community (.empty community)) rs

namespace ConfirmTransaction

/-- A reachable blockchain without transactions is a new one. -/
theorem Reachable.eq_empty {env : Env} {direct : ℕ → Role → Prop} {p : InMemoryProvider}
    (h : Reachable env direct p) :
    ∀ i, (p.findBlockchain i).history = [] → p.findBlockchain i = .empty i := by
  refine h.chain_invariant (P := fun p => ∀ i, (p.findBlockchain i).history = [] →
    p.findBlockchain i = .empty i) ?_ ?_ ?_
  · intro i _
    rfl
  · intro community endDate event p hreach hp hevent i hnil
    rw [hreach.logged.history_dropEvent] at hnil
    by_cases hi : i = community
    · subst hi
      exact absurd hnil (history_ne_nil_of_nextEvent hreach.logged hevent)
    · rw [findBlockchain_dropEvent_of_ne _ _ hi]
      exact hp i hnil
  · intro community role p q tx _ _ hreach hq _ _ hb _ i hnil
    by_cases hi : i = community
    · subst hi
      rw [hreach.logged.history_added hb] at hnil
      simp at hnil
    · rw [findBlockchain_added_of_ne _ _ _ hi] at hnil ⊢
      exact hq i hnil

end ConfirmTransaction

/-- **Starting over.**  A blockchain starts over when it is cleared only if it has no transactions
anyway: the cleared blockchain still returns its first transaction. -/
theorem runAdd_startsOver_iff (env : Env) (calls : List AddCall) (community : ℕ) :
    StartsOver (runAdd env calls) community ↔
      ((runAdd env calls).findBlockchain community).history = [] := by
  have hreach := reachable_runAdd env calls
  have hs := hreach.logged.represents community
  have hempty := hreach.eq_empty community
  generalize runAdd env calls = p at *
  constructor
  · intro hover
    have hfirst := hover env [.getTransactionForId 1]
    simp only [Request.replies, Request.answer, InMemoryProvider.findBlockchain_set_self,
      List.cons.injEq, Reply.entry.injEq, Except.ok.injEq, and_true] at hfirst
    have hnone : (p.findBlockchain community).history[0]? = none := by
      rw [← hs.byNr 0]
      exact hfirst
    exact List.eq_nil_of_length_eq_zero (by simpa using hnone)
  · intro hnil env' rs
    rw [hempty hnil]
    rfl

namespace Sample

/-- The community root is still found after the blockchain was cleared. -/
theorem setup_not_startsOver : ¬ StartsOver (runAdd env (setup.map .node)) 1 := by
  intro hover
  have hfirst := hover env [.getTransactionForId 1]
  simp only [Request.replies, Request.answer, InMemoryProvider.findBlockchain_set_self,
    List.cons.injEq, Reply.entry.injEq, Except.ok.injEq, and_true] at hfirst
  have hsome : (((runAdd env (setup.map .node)).findBlockchain 1).mTransactionsByNr 1).isSome =
      true := by
    decide +kernel
  rw [show ((runAdd env (setup.map .node)).findBlockchain 1).mTransactionsByNr 1 = none from hfirst]
    at hsome
  simp at hsome

end Sample

end Gradido
