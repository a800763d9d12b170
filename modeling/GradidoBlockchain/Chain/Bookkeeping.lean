import GradidoBlockchain.Chain.Atomic

/-!
# The list of trigger events

Which events a blockchain holds, after any run of
`createAndAddConfirmedTransaction`.  A deferred transfer enters its event under
the exact date `confirmedAt + timeoutDuration`.  A redeem removes the event
under a date that it computes again by way of a time point, and a time point
has only whole microseconds.  So the event of a redeemed deferred transfer goes
away exactly when its date survives the conversion (`Booked`).
-/

namespace Gradido

open Checked ConfirmTransaction

/-- The event that a deferred transfer enters. -/
def timeoutEvent (tx : ConfirmedTransaction) (d : GradidoDeferredTransfer) :
    TransactionTriggerEvent :=
  ⟨tx.id, tx.confirmedAt.addSeconds d.timeoutDuration⟩

/-- A redeem of the chain names the transaction. -/
def Redeemed (h : List ConfirmedTransaction) (nr : ℕ) : Prop :=
  ∃ tx ∈ h, ∃ r, tx.body.specific = .redeemDeferredTransfer r ∧
    r.deferredTransferTransactionNr = nr

theorem redeemed_append {h l : List ConfirmedTransaction} {nr : ℕ} :
    Redeemed (h ++ l) nr ↔ Redeemed h nr ∨ Redeemed l nr := by
  unfold Redeemed
  simp only [List.mem_append, or_and_right, exists_or]

/-! ### Events that are handled -/

namespace Call

/-- The events that `processTransactionTrigger` takes up in a call. -/
def handled (env : Env) (p : InMemoryProvider) (c : Call) : List TransactionTriggerEvent :=
  match createRole c.role.mBody, validateSingle env p c.community false c.role with
  | .ok (), .ok () => (events p c.community).filter
      (fun e => decide (e ∉ events (c.triggered env p) c.community))
  | _, _ => []

/-- They are the events of the run of the loop. -/
theorem handled_eq {env : Env} {p : InMemoryProvider} {c : Call}
    (hpending : Pending (p.findBlockchain c.community))
    (hrole : createRole c.role.mBody = .ok ())
    (hsingle : validateSingle env p c.community false c.role = .ok ())
    {es : List TransactionTriggerEvent}
    (hes : Swept env c.community c.confirmedAt p es (c.triggered env p)) :
    c.handled env p = es := by
  have hnodup : (es ++ events (c.triggered env p) c.community).Nodup := by
    rw [← hes.events]
    exact hpending.nodup.of_map
  obtain ⟨-, -, hdisjoint⟩ := List.nodup_append.1 hnodup
  have hleft : es.filter (fun e => decide (e ∉ events (c.triggered env p) c.community)) = es := by
    rw [List.filter_eq_self]
    intro e he
    rw [decide_eq_true_eq]
    exact fun hmem => hdisjoint e he e hmem rfl
  have hright : (events (c.triggered env p) c.community).filter
      (fun e => decide (e ∉ events (c.triggered env p) c.community)) = [] := by
    rw [List.filter_eq_nil_iff]
    intro e he
    simpa using he
  unfold handled
  rw [hrole, hsingle]
  dsimp only
  rw [hes.events, List.filter_append, hleft, hright, List.append_nil]

end Call

/-- The events of a community that are taken up in a list of calls. -/
def handledFrom (env : Env) (community : ℕ) : InMemoryProvider → List Call →
    List TransactionTriggerEvent
  | _, [] => []
  | p, c :: calls =>
    (if c.community = community then c.handled env p else []) ++
      handledFrom env community (c.exec env p) calls

/-! ### Which events there are -/

/-- What the events of a blockchain are, after some events were handled: those of the deferred
transfers that were neither handled nor removed by a redeem. -/
structure Booked (s : InMemory) (handled : List TransactionTriggerEvent) : Prop where
  mem_iff : ∀ e, e ∈ s.mTransactionTriggerEvents ↔ ∃ tx ∈ s.history, ∃ d,
    tx.body.specific = .deferredTransfer d ∧ e = timeoutEvent tx d ∧ e ∉ handled ∧
      ¬ (Redeemed s.history tx.id ∧ e.targetDate.Survives)
  handled : ∀ e ∈ handled, ∃ tx ∈ s.history, tx.id = e.linkedTransactionId
  redeemed : ∀ nr, Redeemed s.history nr → ∃ tx ∈ s.history, tx.id = nr

theorem booked_empty (community : ℕ) : Booked (.empty community) [] where
  mem_iff := by
    intro e
    simp [InMemory.empty, InMemory.history]
  handled := by
    intro e he
    exact absurd he List.not_mem_nil
  redeemed := by
    rintro nr ⟨tx, htx, -⟩
    simp [InMemory.empty, InMemory.history] at htx

namespace Booked

variable {env : Env} {community : ℕ} {p q : InMemoryProvider} {endDate : Timestamp}
  {es handled : List TransactionTriggerEvent}

/-- Timeouts neither defer nor redeem anything. -/
theorem not_redeemed_of_timeouts {l : List ConfirmedTransaction}
    (hl : ∀ tx ∈ l, ∃ nr, tx.body.specific = .timeoutDeferredTransfer nr) (nr : ℕ) :
    ¬ Redeemed l nr := by
  rintro ⟨tx, htx, r, hr, -⟩
  obtain ⟨nr', hnr'⟩ := hl tx htx
  rw [hnr'] at hr
  simp at hr

/-- The loop. -/
theorem swept (h : Booked (p.findBlockchain community) handled)
    (hpending : Pending (p.findBlockchain community))
    (hes : Swept env community endDate p es q) :
    Booked (q.findBlockchain community) (handled ++ es) := by
  obtain ⟨l, hl, htimeouts⟩ := hes.history
  have htimeouts' : ∀ tx ∈ l, ∃ nr, tx.body.specific = .timeoutDeferredTransfer nr := by
    intro tx htx
    obtain ⟨e, -, hspecific, -⟩ := htimeouts tx htx
    exact ⟨_, hspecific⟩
  have hredeemed : ∀ nr, Redeemed (q.findBlockchain community).history nr ↔
      Redeemed (p.findBlockchain community).history nr := by
    intro nr
    rw [hl, redeemed_append]
    exact or_iff_left (not_redeemed_of_timeouts htimeouts' nr)
  have hnodup : (es ++ events q community).Nodup := by
    rw [← hes.events]
    exact hpending.nodup.of_map
  have hevents : ∀ e, e ∈ (q.findBlockchain community).mTransactionTriggerEvents ↔
      e ∈ (p.findBlockchain community).mTransactionTriggerEvents ∧ e ∉ es := by
    intro e
    change e ∈ events q community ↔ e ∈ events p community ∧ e ∉ es
    rw [hes.events, List.mem_append]
    have hdisjoint := (List.nodup_append.1 hnodup).2.2
    constructor
    · intro he
      exact ⟨.inr he, fun hmem => hdisjoint e hmem e he rfl⟩
    · rintro ⟨he | he, hnot⟩
      · exact absurd he hnot
      · exact he
  have hold : ∀ tx ∈ (p.findBlockchain community).history,
      tx ∈ (q.findBlockchain community).history := by
    intro tx htx
    rw [hl]
    exact List.mem_append_left _ htx
  constructor
  · intro e
    rw [hevents, h.mem_iff]
    constructor
    · rintro ⟨⟨tx, htx, d, hd, rfl, hnot, hkept⟩, hes'⟩
      refine ⟨tx, hold tx htx, d, hd, rfl, ?_, ?_⟩
      · rw [List.mem_append]
        exact not_or.2 ⟨hnot, hes'⟩
      · rwa [hredeemed]
    · rintro ⟨tx, htx, d, hd, rfl, hnot, hkept⟩
      rw [List.mem_append, not_or] at hnot
      rw [hl, List.mem_append] at htx
      rw [hredeemed] at hkept
      rcases htx with htx | htx
      · exact ⟨⟨tx, htx, d, hd, rfl, hnot.1, hkept⟩, hnot.2⟩
      · obtain ⟨nr, hnr⟩ := htimeouts' tx htx
        rw [hnr] at hd
        simp at hd
  · intro e he
    rcases List.mem_append.1 he with he | he
    · obtain ⟨tx, htx, hid⟩ := h.handled e he
      exact ⟨tx, hold tx htx, hid⟩
    · obtain ⟨tx, htx, hid⟩ := hpending.known e (by
        change e ∈ events p community
        rw [hes.events]
        exact List.mem_append_left _ he)
      exact ⟨tx, hold tx htx, hid⟩
  · intro nr hnr
    obtain ⟨tx, htx, hid⟩ := h.redeemed nr ((hredeemed nr).1 hnr)
    exact ⟨tx, hold tx htx, hid⟩

theorem redeemed_singleton {tx : ConfirmedTransaction} {nr : ℕ} :
    Redeemed [tx] nr ↔ ∃ r, tx.body.specific = .redeemDeferredTransfer r ∧
      r.deferredTransferTransactionNr = nr := by
  simp [Redeemed]

/-- The events after a transaction was added: a deferred transfer enters its own, a redeem removes
the one of its deferred transfer when its date survives. -/
theorem mem_events_added (h : Booked (q.findBlockchain community) handled) (hq : Logged env q)
    {role : Role} {tx : ConfirmedTransaction} (hb : Built env q community role tx)
    (hnode : role.mAccountBalances = none) (e : TransactionTriggerEvent) :
    e ∈ (addToBlockchain env (q.findBlockchain community) tx).1.mTransactionTriggerEvents ↔
      (∃ d, tx.body.specific = .deferredTransfer d ∧ e = timeoutEvent tx d) ∨
        e ∈ (q.findBlockchain community).mTransactionTriggerEvents ∧
          ¬ (Redeemed [tx] e.linkedTransactionId ∧ e.targetDate.Survives) := by
  have hpushed : ((q.findBlockchain community).pushTransactionEntry env
      tx).mTransactionTriggerEvents = (q.findBlockchain community).mTransactionTriggerEvents := by
    simp [InMemory.pushTransactionEntry]
  rw [redeemed_singleton]
  cases hspecific : tx.body.specific with
  | deferredTransfer d =>
    have hperm := InMemory.perm_insertEvent (timeoutEvent tx d)
      (q.findBlockchain community).mTransactionTriggerEvents
    simp only [addToBlockchain, hb.runPast_deferred hq hspecific, hpushed]
    rw [show (⟨tx.id, tx.confirmedAt.addSeconds d.timeoutDuration⟩ : TransactionTriggerEvent) =
      timeoutEvent tx d from rfl, hperm.mem_iff, List.mem_cons]
    simp
  | redeemDeferredTransfer r =>
    obtain ⟨entry, d, hentry, hd, hpast⟩ := hb.runPast_redeem hnode hspecific
    obtain ⟨hmem, hid⟩ := (hq.represents community).mem_of_byNr hentry
    rw [TransactionBody.getDeferredTransfer_eq_some] at hd
    simp only [addToBlockchain, hpast, InMemory.removeTransactionTriggerEvent, hpushed,
      List.mem_filter, decide_eq_true_eq, ← Timestamp.getAsTimepoint_addSeconds]
    have hkept : ∀ e ∈ (q.findBlockchain community).mTransactionTriggerEvents,
        e = ⟨r.deferredTransferTransactionNr,
          .ofTimepoint (entry.confirmedAt.addSeconds d.timeoutDuration).getAsTimepoint⟩ ↔
        r.deferredTransferTransactionNr = e.linkedTransactionId ∧ e.targetDate.Survives := by
      intro e he
      obtain ⟨t, ht, d', hd', rfl, -⟩ := (h.mem_iff e).1 he
      by_cases hnr : r.deferredTransferTransactionNr = t.id
      · -- the event belongs to the deferred transfer that the redeem names
        obtain rfl : t = entry := by
          have hbyNr := (hq.represents community).byNr_id ht
          rw [← hnr, hentry, Option.some.injEq] at hbyNr
          exact hbyNr.symm
        obtain rfl : d' = d := by
          rw [hd, Specific.deferredTransfer.injEq] at hd'
          exact hd'.symm
        simp only [timeoutEvent, TransactionTriggerEvent.mk.injEq, hnr, true_and,
          Timestamp.Survives]
        exact eq_comm
      · simp only [timeoutEvent, TransactionTriggerEvent.mk.injEq, hnr, false_and, iff_false]
        exact fun heq => hnr heq.1.symm
    constructor
    · rintro ⟨he, hne⟩
      refine .inr ⟨he, ?_⟩
      rintro ⟨⟨r', hr', hnr⟩, hsurvives⟩
      obtain rfl : r = r' := by simpa using hr'
      exact hne ((hkept e he).2 ⟨hnr, hsurvives⟩)
    · rintro (⟨d', hd', -⟩ | ⟨he, hnot⟩)
      · simp at hd'
      · refine ⟨he, ?_⟩
        intro heq
        obtain ⟨hnr, hsurvives⟩ := (hkept e he).1 heq
        exact hnot ⟨⟨r, rfl, hnr⟩, hsurvives⟩
  | _ =>
    simp only [addToBlockchain, runPastAddToBlockchain, hspecific]
    simp [hpushed, pure, Except.pure]

/-- A confirmed transaction. -/
theorem added (h : Booked (q.findBlockchain community) handled) (hq : Logged env q)
    {role : Role} {tx : ConfirmedTransaction} (hb : Built env q community role tx)
    (hnode : role.mAccountBalances = none) :
    Booked ((ConfirmTransaction.added env q community tx).findBlockchain community) handled := by
  have hhistory := hq.history_added hb
  have hfresh : ∀ t ∈ (q.findBlockchain community).history, t.id ≠ tx.id := by
    intro t ht
    have hle := ((hq.represents community).id_le_length ht).2
    have hnew := hq.id_eq hb
    omega
  constructor
  · intro e
    rw [hhistory, findBlockchain_added, h.mem_events_added hq hb hnode]
    constructor
    · rintro (⟨d, hd, rfl⟩ | ⟨he, hnot⟩)
      · refine ⟨tx, by simp, d, hd, rfl, ?_, ?_⟩
        · intro hmem
          obtain ⟨t, ht, hid⟩ := h.handled _ hmem
          exact hfresh t ht hid
        · rintro ⟨hredeemed, -⟩
          rcases redeemed_append.1 hredeemed with hold | hown
          · obtain ⟨t, ht, hid⟩ := h.redeemed _ hold
            exact hfresh t ht hid
          · obtain ⟨r, hr, -⟩ := redeemed_singleton.1 hown
            rw [hd] at hr
            simp at hr
      · obtain ⟨t, ht, d, hd, rfl, hhandled, hkept⟩ := (h.mem_iff e).1 he
        refine ⟨t, List.mem_append_left _ ht, d, hd, rfl, hhandled, ?_⟩
        rintro ⟨hredeemed, hsurvives⟩
        rcases redeemed_append.1 hredeemed with hold | hown
        · exact hkept ⟨hold, hsurvives⟩
        · exact hnot ⟨hown, hsurvives⟩
    · rintro ⟨t, ht, d, hd, rfl, hhandled, hkept⟩
      rcases List.mem_append.1 ht with ht | ht
      · refine .inr ⟨(h.mem_iff _).2 ⟨t, ht, d, hd, rfl, hhandled, ?_⟩, ?_⟩
        · rintro ⟨hold, hsurvives⟩
          exact hkept ⟨redeemed_append.2 (.inl hold), hsurvives⟩
        · rintro ⟨hown, hsurvives⟩
          exact hkept ⟨redeemed_append.2 (.inr hown), hsurvives⟩
      · rw [List.mem_singleton.1 ht] at hd ⊢
        exact .inl ⟨d, hd, rfl⟩
  · intro e he
    obtain ⟨t, ht, hid⟩ := h.handled e he
    rw [hhistory]
    exact ⟨t, List.mem_append_left _ ht, hid⟩
  · intro nr hnr
    rw [hhistory] at hnr ⊢
    rcases redeemed_append.1 hnr with hold | hown
    · obtain ⟨t, ht, hid⟩ := h.redeemed nr hold
      exact ⟨t, List.mem_append_left _ ht, hid⟩
    · obtain ⟨r, hr, rfl⟩ := redeemed_singleton.1 hown
      obtain ⟨entry, _, hentry, -, -⟩ := hb.runPast_redeem hnode hr
      obtain ⟨hmem, hid⟩ := (hq.represents community).mem_of_byNr hentry
      exact ⟨entry, List.mem_append_left _ hmem, hid⟩

/-- A call. -/
theorem exec (h : Booked (p.findBlockchain community) handled) (hp : Logged env p)
    (hpending : ∀ i, Pending (p.findBlockchain i)) (c : Call) :
    Booked ((c.exec env p).findBlockchain community)
      (handled ++ if c.community = community then c.handled env p else []) := by
  have hexec : c.exec env p = (createAndAdd env ((events p c.community).length + 1) false p
    c.community c.role).1 := rfl
  rw [hexec]
  cases hrole : createRole c.role.mBody with
  | error e =>
    have hnone : c.handled env p = [] := by
      unfold Call.handled
      rw [hrole]
    simp only [createAndAdd, hrole, hnone, ite_self, List.append_nil]
    exact h
  | ok _ =>
    cases hsingle : validateSingle env p c.community false c.role with
    | error e =>
      have hnone : c.handled env p = [] := by
        unfold Call.handled
        rw [hrole, hsingle]
      rw [createAndAdd_of_single hrole hsingle, hnone, ite_self, List.append_nil]
      exact h
    | ok _ =>
      obtain ⟨es, hes⟩ := handled_processTransactionTriggers hp c.community
        c.confirmedAt le_rfl
      have hswept := hes.swept hp (hpending c.community)
      rw [c.handled_eq (hpending c.community) hrole hsingle hswept,
        createAndAdd_of_ok hrole hsingle]
      unfold finish
      by_cases hcommunity : c.community = community
      · subst hcommunity
        rw [if_pos rfl]
        have hbooked := h.swept (hpending c.community) hswept
        split
        · exact hbooked
        · next tx hconfirm => exact hbooked.added hswept.logged (confirm_spec hconfirm) rfl
      · rw [if_neg hcommunity, List.append_nil]
        have hother := hswept.others community (Ne.symm hcommunity)
        split
        · dsimp only
          rw [show (processTransactionTriggers env (events p c.community).length c.community
            c.role.mConfirmedAt p).findBlockchain community = _ from hother]
          exact h
        · next tx hconfirm =>
          rw [findBlockchain_added_of_ne _ _ _ (Ne.symm hcommunity),
            show (processTransactionTriggers env (events p c.community).length c.community
              c.role.mConfirmedAt p).findBlockchain community = _ from hother]
          exact h

end Booked

/-- What calls lead to keeps its events pending. -/
theorem run_pending (env : Env) (calls : List Call) (i : ℕ) :
    Pending ((run env calls).findBlockchain i) := by
  have hrun : run env calls = runAdd env (calls.map .node) := by
    rw [run, runAdd, List.foldl_map]
    rfl
  rw [hrun]
  exact runAdd_pending env _ i

theorem handledFrom_concat (env : Env) (community : ℕ) (p : InMemoryProvider) (calls : List Call)
    (c : Call) :
    handledFrom env community p (calls ++ [c]) = handledFrom env community p calls ++
      if c.community = community then c.handled env (calls.foldl (Call.exec env) p) else [] := by
  induction calls generalizing p with
  | nil => simp [handledFrom]
  | cons c' calls ih =>
    rw [List.cons_append, handledFrom, ih, handledFrom, List.foldl_cons, List.append_assoc]

/-- **The events of a run.** -/
theorem run_booked (env : Env) (calls : List Call) (community : ℕ) :
    Booked ((run env calls).findBlockchain community)
      (handledFrom env community .empty calls) := by
  induction calls using List.reverseRecOn with
  | nil => exact booked_empty community
  | append_singleton calls c ih =>
    have hexec := ih.exec (reachable_run env calls).logged (run_pending env calls) c
    rw [run, List.foldl_append, handledFrom_concat]
    exact hexec

/-- The events of a blockchain are those of its deferred transfers that were neither redeemed nor
handled, one for each. -/
structure Bookkeeping (s : InMemory) (handled : List TransactionTriggerEvent) : Prop where
  mem_iff : ∀ e, e ∈ s.mTransactionTriggerEvents ↔ ∃ tx ∈ s.history, ∃ d,
    tx.body.specific = .deferredTransfer d ∧ ¬ Redeemed s.history tx.id ∧ e ∉ handled ∧
      e.linkedTransactionId = tx.id ∧
      e.targetDate = tx.confirmedAt.addSeconds d.timeoutDuration
  nodup : (s.mTransactionTriggerEvents.map TransactionTriggerEvent.linkedTransactionId).Nodup

namespace Sample

/-- Transaction four once more, confirmed half a microsecond after noon. -/
def deferredHalfMicrosecond : Call :=
  { deferredAfterNoon with confirmedAt := ⟨midnight + 43200, 500⟩ }

/-- Address `30` redeems fifty cents for account `21`, a minute after noon. -/
def redeemSoon : Call :=
  call 5 60 (transaction 60 (signedByKey 30) []
    (.redeemDeferredTransfer ⟨4, ⟨⟨30, 50, 1⟩, 21⟩⟩))

end Sample

end Gradido
