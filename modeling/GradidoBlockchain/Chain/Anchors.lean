import GradidoBlockchain.Chain.Atomic
import GradidoBlockchain.Chain.CrossCommunity
import GradidoBlockchain.Lib.Tickets

/-!
# Ledger anchors

A ledger anchor comes from the caller, or, for the timeout of a deferred
transfer, from the trigger event.  That a confirmed transaction has one is
checked under `SINGLE` only, which `Context::run` takes out, and that no two have
the same one is not checked at all: `pushTransactionEntry` keeps the first.

The events never use a number twice (`Tickets`).  So it is up to the callers
that every transaction is found by its ledger anchor: `run_anchorLookup` says
what they have to see to.
-/

namespace Gradido

open ConfirmTransaction

/-- The number in a ledger anchor of a transaction that the node triggered. -/
def LedgerAnchor.nodeTriggerNr : LedgerAnchor → Option ℕ
  | .nodeTrigger nr => some nr
  | _ => none

theorem LedgerAnchor.nodeTriggerNr_eq_some {a : LedgerAnchor} {nr : ℕ} :
    a.nodeTriggerNr = some nr ↔ a = .nodeTrigger nr := by
  cases a <;> simp [nodeTriggerNr]

/-! ### Anchors of a log -/

/-- The ledger anchors of a log are distinct, and none is reserved for a pending event. -/
structure AnchorsFresh (es : List TransactionTriggerEvent) (h : List ConfirmedTransaction) :
    Prop where
  tickets : Tickets h.length (es.map TransactionTriggerEvent.linkedTransactionId)
    ((h.map ConfirmedTransaction.ledgerAnchor).filterMap LedgerAnchor.nodeTriggerNr)
  distinct : (h.map ConfirmedTransaction.ledgerAnchor).Nodup
  nonempty : ∀ tx ∈ h, tx.ledgerAnchor.empty = false

namespace AnchorsFresh

variable {es es' : List TransactionTriggerEvent} {h : List ConfirmedTransaction}
  {tx : ConfirmedTransaction}

theorem nil : AnchorsFresh [] [] where
  tickets := .none 0
  distinct := List.nodup_nil
  nonempty := by simp

theorem sublist (hes : AnchorsFresh es h) (hsub : List.Sublist es' es) : AnchorsFresh es' h where
  tickets := hes.tickets.sublist (hsub.map _)
  distinct := hes.distinct
  nonempty := hes.nonempty

/-- A new anchor that is not reserved. -/
theorem append (hes : AnchorsFresh es h) (hne : tx.ledgerAnchor.empty = false)
    (hnew : ∀ t ∈ h, t.ledgerAnchor ≠ tx.ledgerAnchor)
    (hfree : ∀ nr, tx.ledgerAnchor = .nodeTrigger nr → nr ≤ h.length ∧
      ∀ e ∈ es, e.linkedTransactionId ≠ nr) : AnchorsFresh es (h ++ [tx]) where
  tickets := by
    rw [List.length_append, List.length_singleton, List.map_append, List.map_singleton,
      List.filterMap_append]
    cases hnr : tx.ledgerAnchor.nodeTriggerNr with
    | none =>
      rw [List.filterMap_cons_none hnr, List.filterMap_nil, List.append_nil]
      exact hes.tickets.issue
    | some nr =>
      obtain ⟨hle, hpending⟩ := hfree nr (LedgerAnchor.nodeTriggerNr_eq_some.1 hnr)
      rw [List.filterMap_cons_some hnr, List.filterMap_nil]
      refine (hes.tickets.use hle (fun hmem => ?_)).issue
      obtain ⟨e, he, heq⟩ := List.mem_map.1 hmem
      exact hpending e he heq
  distinct := by
    rw [List.map_append, List.nodup_append]
    refine ⟨hes.distinct, List.nodup_singleton _, ?_⟩
    intro a ha b hb
    obtain ⟨t, ht, rfl⟩ := List.mem_map.1 ha
    rw [List.map_singleton, List.mem_singleton] at hb
    rw [hb]
    exact hnew t ht
  nonempty := by
    intro t ht
    rcases List.mem_append.1 ht with ht | ht
    · exact hes.nonempty t ht
    · rwa [List.mem_singleton.1 ht]

/-- The event of the last transaction is new. -/
theorem insertEvent (hes : AnchorsFresh es h) (happend : AnchorsFresh es (h ++ [tx]))
    {event : TransactionTriggerEvent} (hevent : event.linkedTransactionId = h.length + 1)
    (hfree : ∀ nr, tx.ledgerAnchor = .nodeTrigger nr → nr ≤ h.length) :
    AnchorsFresh (InMemory.insertEvent event es) (h ++ [tx]) where
  tickets := by
    refine happend.tickets.book (k := h.length + 1) (by simp) ?_ ?_ ?_
    · intro hmem
      have hle := hes.tickets.pending_le _ hmem
      omega
    · intro hmem
      rw [List.map_append, List.filterMap_append] at hmem
      rcases List.mem_append.1 hmem with hmem | hmem
      · have hle := hes.tickets.used_le _ hmem
        omega
      · obtain ⟨a, ha, hnr⟩ := List.mem_filterMap.1 hmem
        rw [List.map_singleton, List.mem_singleton] at ha
        rw [ha, LedgerAnchor.nodeTriggerNr_eq_some] at hnr
        have hle := hfree _ hnr
        omega
    · rw [← hevent]
      exact (InMemory.perm_insertEvent event es).map _
  distinct := happend.distinct
  nonempty := happend.nonempty

end AnchorsFresh

/-! ### What a call does to the anchors -/

namespace ConfirmTransaction

variable {env : Env} {community : ℕ} {p q : InMemoryProvider}

/-- The anchors of a blockchain and its events. -/
def Fresh (p : InMemoryProvider) (community : ℕ) : Prop :=
  AnchorsFresh (events p community) (p.findBlockchain community).history

/-- **Trigger events keep the anchors distinct**: they only use numbers that are reserved for
them. -/
theorem Triggered.fresh (h : Triggered env community p q) (hp : Logged env p)
    (hfresh : Fresh p community) :
    Fresh q community ∧ ∃ l, (q.findBlockchain community).history =
        (p.findBlockchain community).history ++ l ∧
      ∀ tx ∈ l, ∃ e ∈ events p community, tx.ledgerAnchor = .nodeTrigger e.linkedTransactionId := by
  induction h with
  | refl => exact ⟨hfresh, [], by simp, by simp⟩
  | @drop p q _ event h _ ih =>
    obtain ⟨hq, l, hl, hanchors⟩ := ih hp hfresh
    have hlogged := (h.fired hp).1
    refine ⟨?_, l, by rw [hlogged.history_dropEvent, hl], hanchors⟩
    unfold Fresh
    rw [hlogged.history_dropEvent]
    exact AnchorsFresh.sublist hq (fired_dropEvent hlogged event).events
  | @fire p q r _ event tx h hevent hnested htx ih ihnested =>
    obtain ⟨hq, l, hl, hanchors⟩ := ih hp hfresh
    obtain ⟨hqlogged, hqfired⟩ := h.fired hp
    have hdropped := hqlogged.dropEvent community event
    have hdroppedFresh : Fresh (dropEvent q community event) community := by
      unfold Fresh
      rw [hqlogged.history_dropEvent]
      exact AnchorsFresh.sublist hq (fired_dropEvent hqlogged event).events
    obtain ⟨hr, l', hl', hanchors'⟩ := ihnested hdropped hdroppedFresh
    obtain ⟨hrlogged, hrfired⟩ := hnested.fired hdropped
    have hb := confirm_spec htx.confirm
    have hspecific : tx.body.specific = .timeoutDeferredTransfer event.linkedTransactionId := by
      rw [← hb.body_eq]
      rfl
    have hanchor : tx.ledgerAnchor = .nodeTrigger event.linkedTransactionId := hb.ledgerAnchor
    have hmem := mem_events_of_nextEvent hevent
    -- the events that are left have other numbers
    have hothers : ∀ e ∈ events (dropEvent q community event) community,
        e.linkedTransactionId ≠ event.linkedTransactionId := by
      intro e he heq
      rw [events_dropEvent, List.mem_filter] at he
      have hsame := List.inj_on_of_nodup_map hq.tickets.nodup he.1 hmem heq
      simp [hsame] at he
    rw [hqlogged.history_dropEvent] at hl'
    refine ⟨?_, l ++ l' ++ [tx], ?_, ?_⟩
    · unfold Fresh
      rw [hrlogged.history_added hb, events_added_timeout hspecific]
      refine hr.append (by rw [hanchor]; rfl) ?_ ?_
      · intro t ht heq
        rw [hanchor] at heq
        rw [hl'] at ht
        rcases List.mem_append.1 ht with ht | ht
        · refine hq.tickets.disjoint _ (List.mem_map_of_mem hmem) (List.mem_filterMap.2
            ⟨t.ledgerAnchor, List.mem_map_of_mem ht, ?_⟩)
          rw [heq]
          rfl
        · obtain ⟨e, he, hnr⟩ := hanchors' t ht
          rw [heq, LedgerAnchor.nodeTrigger.injEq] at hnr
          exact hothers e he hnr.symm
      · intro nr hnr
        rw [hanchor, LedgerAnchor.nodeTrigger.injEq] at hnr
        subst hnr
        refine ⟨?_, fun e he => hothers e (hrfired.events.subset he)⟩
        have hle := hq.tickets.pending_le _ (List.mem_map_of_mem hmem)
        rw [hl', List.length_append]
        omega
    · rw [hrlogged.history_added hb, hl', hl]
      simp only [List.append_assoc]
    · intro t ht
      rw [List.append_assoc, List.mem_append, List.mem_append, List.mem_singleton] at ht
      rcases ht with ht | ht | rfl
      · exact hanchors t ht
      · obtain ⟨e, he, hnr⟩ := hanchors' t ht
        exact ⟨e, hqfired.events.subset ((fired_dropEvent hqlogged event).events.subset he), hnr⟩
      · exact ⟨event, hqfired.events.subset hmem, hanchor⟩

/-- A ledger anchor that a call may use: it is not empty, no transaction has it, and when it is that
of a transaction that the node triggered, it is the one of a stored transaction without a pending
event. -/
def AnchorFree (p : InMemoryProvider) (community : ℕ) (a : LedgerAnchor) : Prop :=
  a.empty = false ∧
    (∀ tx ∈ (p.findBlockchain community).history, tx.ledgerAnchor ≠ a) ∧
    ∀ nr ∈ a.nodeTriggerNr, nr ≤ (p.findBlockchain community).history.length ∧
      ∀ e ∈ events p community, e.linkedTransactionId ≠ nr

instance {a : LedgerAnchor} : Decidable (AnchorFree p community a) :=
  inferInstanceAs (Decidable (_ ∧ _ ∧ _))

/-- A free anchor is still free after the trigger events of the call. -/
theorem AnchorFree.triggered {a : LedgerAnchor} (ha : AnchorFree p community a)
    (h : Triggered env community p q) (hp : Logged env p) (hfresh : Fresh p community) :
    AnchorFree q community a := by
  obtain ⟨hne, hnew, hfree⟩ := ha
  obtain ⟨-, l, hl, hanchors⟩ := h.fresh hp hfresh
  refine ⟨hne, ?_, ?_⟩
  · intro tx htx heq
    rw [hl] at htx
    rcases List.mem_append.1 htx with htx | htx
    · exact hnew tx htx heq
    · obtain ⟨e, he, hnr⟩ := hanchors tx htx
      rw [heq] at hnr
      exact (hfree _ (LedgerAnchor.nodeTriggerNr_eq_some.2 hnr)).2 e he rfl
  · intro nr hnr
    obtain ⟨hle, hpending⟩ := hfree nr hnr
    refine ⟨?_, fun e he => hpending e ((h.fired hp).2.events.subset he)⟩
    rw [hl, List.length_append]
    omega

/-- A transaction with a free anchor keeps the anchors distinct. -/
theorem Fresh.added (hfresh : Fresh q community) (hq : Logged env q) {role : Role}
    {tx : ConfirmedTransaction} (hb : Built env q community role tx)
    (ha : AnchorFree q community tx.ledgerAnchor) : Fresh (added env q community tx) community := by
  obtain ⟨hne, hnew, hfree⟩ := ha
  have hnode : ∀ nr, tx.ledgerAnchor = .nodeTrigger nr → _ := fun nr hnr =>
    hfree nr (LedgerAnchor.nodeTriggerNr_eq_some.2 hnr)
  have happend := AnchorsFresh.append hfresh hne hnew hnode
  unfold Fresh
  rw [hq.history_added hb, events, findBlockchain_added]
  obtain ⟨es, heq, hcases⟩ := InMemory.addToBlockchain_cases env (q.findBlockchain community) tx
  rw [heq]
  rcases hcases with rfl | ⟨d, -, rfl⟩ | ⟨r, event, -, -, rfl⟩
  · exact happend
  · exact AnchorsFresh.insertEvent hfresh happend (hq.id_eq hb) (fun nr hnr => (hnode nr hnr).1)
  · exact happend.sublist List.filter_sublist

end ConfirmTransaction

/-! ### Main results -/

/-- The call adds its transaction. -/
def Call.Accepted (env : Env) (p : InMemoryProvider) (c : Call) : Prop :=
  (InMemory.createAndAddConfirmedTransaction env p c.community c.gradidoTransaction
    c.ledgerAnchor c.confirmedAt).2 = .ok ()

instance {env : Env} {p : InMemoryProvider} {c : Call} : Decidable (c.Accepted env p) :=
  inferInstanceAs (Decidable (_ = _))

/-- Every call of a run that adds a transaction to the blockchain of a community gives it a free
anchor. -/
def AnchorsGiven (env : Env) (community : ℕ) : InMemoryProvider → List Call → Prop
  | _, [] => True
  | p, c :: calls =>
    (c.community = community → c.Accepted env p → AnchorFree p community c.ledgerAnchor) ∧
      AnchorsGiven env community (c.exec env p) calls

instance AnchorsGiven.decidable {env : Env} {community : ℕ} :
    ∀ {p : InMemoryProvider} {calls : List Call}, Decidable (AnchorsGiven env community p calls)
  | _, [] => inferInstanceAs (Decidable True)
  | _, _ :: _ => @instDecidableAnd _ _ inferInstance AnchorsGiven.decidable

/-- Every transaction is found by its ledger anchor, which is not empty and which no other
transaction has. -/
def AnchorLookup (s : InMemory) : Prop :=
  ∀ nr tx, s.mTransactionsByNr nr = some tx →
    s.findByLedgerAnchor tx.ledgerAnchor = some tx ∧ tx.ledgerAnchor.empty = false ∧
      ∀ nr' tx', s.mTransactionsByNr nr' = some tx' → tx'.ledgerAnchor = tx.ledgerAnchor → nr' = nr

/-- A call keeps the anchors of a community distinct. -/
theorem Call.fresh_exec {env : Env} {community : ℕ} {p : InMemoryProvider} (hp : Logged env p)
    (hfresh : Fresh p community) {c : Call}
    (hc : c.community = community → c.Accepted env p →
      AnchorFree p community c.ledgerAnchor) : Fresh (c.exec env p) community := by
  obtain ⟨q, hq, ⟨e, heq⟩ | ⟨tx, htx, heq⟩⟩ :=
    createAndAdd_eq env (depthBound p c.community) false p c.community c.role
  all_goals
    have hexec : c.exec env p = _ := congrArg Prod.fst heq
    obtain ⟨hqlogged, hfired⟩ := hq.fired hp
    rw [hexec]
  · by_cases hcommunity : community = c.community
    · subst hcommunity
      exact (hq.fresh hp hfresh).1
    · unfold Fresh events
      rw [hfired.others community hcommunity]
      exact hfresh
  · have hb := confirm_spec htx.confirm
    by_cases hcommunity : community = c.community
    · subst hcommunity
      have haccepted : c.Accepted env p := by
        rw [Call.Accepted, InMemory.createAndAddConfirmedTransaction]
        change (createAndAdd env _ false p c.community c.role).2 = _
        rw [heq]
        exact hb.addToBlockchain_ok hqlogged rfl
      refine (hq.fresh hp hfresh).1.added hqlogged hb ?_
      rw [hb.ledgerAnchor]
      exact (hc rfl haccepted).triggered hq hp hfresh
    · unfold Fresh events
      rw [findBlockchain_added_of_ne _ _ _ hcommunity, hfired.others community hcommunity]
      exact hfresh

/-- Every transaction of a chain with distinct anchors is found by its anchor. -/
theorem ConfirmTransaction.Fresh.anchorLookup {p : InMemoryProvider} {community : ℕ}
    (hfresh : Fresh p community)
    (hs : (p.findBlockchain community).Represents community (p.findBlockchain community).history)
    (hanchored : Anchored (p.findBlockchain community)) :
    AnchorLookup (p.findBlockchain community) := by
  intro nr tx htx
  obtain ⟨hmem, rfl⟩ := hs.mem_of_byNr htx
  refine ⟨?_, hfresh.nonempty tx hmem, ?_⟩
  · rw [hanchored.findByLedgerAnchor hs]
    cases hfirst : firstWithAnchor (p.findBlockchain community).history tx.ledgerAnchor with
    | none =>
      have hnone := List.find?_eq_none.1 hfirst tx hmem
      simp at hnone
    | some t =>
      have hsame : t.ledgerAnchor = tx.ledgerAnchor := by simpa using List.find?_some hfirst
      rw [List.inj_on_of_nodup_map hfresh.distinct (List.mem_of_find?_eq_some hfirst) hmem hsame]
  · intro nr' tx' htx' hsame
    obtain ⟨hmem', rfl⟩ := hs.mem_of_byNr htx'
    rw [List.inj_on_of_nodup_map hfresh.distinct hmem' hmem hsame]

/-- **Ledger anchors.**  In every chain that a run leads to whose calls use free anchors, every
transaction is found by its ledger anchor. -/
theorem run_anchorLookup (env : Env) (calls : List Call) (community : ℕ)
    (hcalls : AnchorsGiven env community .empty calls) :
    AnchorLookup ((run env calls).findBlockchain community) := by
  suffices hfold : ∀ p, Reachable env (fun _ _ => True) p → Fresh p community →
      AnchorsGiven env community p calls →
      AnchorLookup ((calls.foldl (Call.exec env) p).findBlockchain community) from
    hfold .empty .empty .nil hcalls
  clear hcalls
  induction calls with
  | nil =>
    intro p hp hfresh _
    exact hfresh.anchorLookup (hp.logged.represents community) (hp.anchored community)
  | cons c calls ih =>
    intro p hp hfresh hcalls
    exact ih _ (hp.createAndAdd trivial _ _) (c.fresh_exec hp.logged hfresh hcalls.1) hcalls.2

namespace Sample

theorem nodup_secondSigners : [1, 20, 21].Nodup := by decide

/-- The second registration with the ledger anchor of the first one. -/
def sameAnchor : Call := { call 3 0 (transaction 0 (signedBy [1, 20, 21] nodup_secondSigners) []
    (.registerAddress ⟨.communityHuman, 1, 1, 20, 21⟩)) with
  ledgerAnchor := .legacyGradidoDb .transaction 2 }

/-- The second registration without a ledger anchor. -/
def noAnchor : Call := { sameAnchor with ledgerAnchor := .unspecified }

/-- Both are confirmed: the one is not found by its anchor, the other one has none. -/
theorem sameAnchor_not_anchorLookup :
    ¬ AnchorLookup ((run env (setup.take 2 ++ [sameAnchor])).findBlockchain 1) ∧
      ¬ AnchorLookup ((run env (setup.take 2 ++ [noAnchor])).findBlockchain 1) := by
  constructor
  · intro h
    have hfound : (((run env (setup.take 2 ++ [sameAnchor])).findBlockchain 1).mTransactionsByNr
        3).map (fun tx => (((run env (setup.take 2 ++ [sameAnchor])).findBlockchain
          1).findByLedgerAnchor tx.ledgerAnchor).map ConfirmedTransaction.id) = some (some 2) := by
      decide +kernel
    obtain ⟨tx, htx, hid⟩ := Option.map_eq_some_iff.1 hfound
    rw [(h 3 tx htx).1] at hid
    have hnr : (((run env (setup.take 2 ++ [sameAnchor])).findBlockchain 1).mTransactionsByNr
        3).map ConfirmedTransaction.id = some 3 := by
      decide +kernel
    rw [htx] at hnr
    simp_all
  · intro h
    have hempty : (((run env (setup.take 2 ++ [noAnchor])).findBlockchain 1).mTransactionsByNr
        3).map (fun tx => tx.ledgerAnchor.empty) = some true := by
      decide +kernel
    obtain ⟨tx, htx, hempty⟩ := Option.map_eq_some_iff.1 hempty
    rw [(h 3 tx htx).2.1] at hempty
    simp at hempty

/-- A deferred transfer that times out, with anchors of the callers that are free. -/
theorem dueAtOne_anchorLookup :
    ((run env (setup ++ [deferredAfterNoon, registerAtOne 1000000])).findBlockchain
        1).history.length = 6 ∧
      AnchorLookup ((run env (setup ++ [deferredAfterNoon, registerAtOne 1000000])).findBlockchain
        1) :=
  ⟨by decide +kernel, run_anchorLookup env _ 1 (by decide +kernel)⟩

end Sample

end Gradido
