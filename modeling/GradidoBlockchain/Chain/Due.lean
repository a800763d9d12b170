import GradidoBlockchain.Chain.Trigger

/-!
# Due trigger events

The loop `while (processTransactionTrigger(confirmedAt))` of `Context::run`,
with the events that it takes up: `Handled` is one complete run of the loop,
and `createAndAdd_handled` says that the code runs it to its end.

The pending events of a reachable chain are in order and lie in a later second
than its last transaction (`Pending`).  So the loop takes up the events from
the front of the list, namely all that are not after the second of the date it
is called with; `Timestamp::operator<=` does not look at the nanoseconds.
-/

namespace Gradido

open Checked

namespace ConfirmTransaction

variable {env : Env} {community : ℕ} {p q r : InMemoryProvider} {endDate : Timestamp}

/-! ### Pending events -/

/-- The trigger events of a blockchain are in order, belong to different transactions of the chain
and lie in a later second than the last one. -/
structure Pending (s : InMemory) : Prop where
  sorted : s.mTransactionTriggerEvents.Pairwise
    (fun a b => b.targetDate.lt a.targetDate = false)
  nodup : (s.mTransactionTriggerEvents.map TransactionTriggerEvent.linkedTransactionId).Nodup
  known : ∀ e ∈ s.mTransactionTriggerEvents, ∃ tx ∈ s.history, tx.id = e.linkedTransactionId
  later : ∀ last ∈ s.mLastTransaction, ∀ e ∈ s.mTransactionTriggerEvents,
    last.confirmedAt.seconds < e.targetDate.seconds

theorem pending_empty (community : ℕ) : Pending (.empty community) where
  sorted := .nil
  nodup := .nil
  known := by
    intro e he
    exact absurd he List.not_mem_nil
  later := by
    intro last hlast
    simp [InMemory.empty] at hlast

namespace Pending

variable {s : InMemory}

/-- Without transactions there are no events. -/
theorem last_ne_none (h : Pending s) {e : TransactionTriggerEvent}
    (he : e ∈ s.mTransactionTriggerEvents) : s.mLastTransaction ≠ none := by
  intro hlast
  obtain ⟨tx, htx, -⟩ := h.known e he
  simp [InMemory.history, hlast] at htx

/-- The event that is taken up is the first one. -/
theorem nextEvent_eq (h : Pending s) (endDate : Timestamp) :
    nextEvent s endDate = s.mTransactionTriggerEvents.head?.filter
      (fun e => e.targetDate.le endDate) := by
  unfold nextEvent InMemory.findNextTransactionTriggerEventInRange
  cases hevents : s.mTransactionTriggerEvents with
  | nil =>
    cases s.mLastTransaction with
    | none => rfl
    | some last => rfl
  | cons e es =>
    have he : e ∈ s.mTransactionTriggerEvents := by
      rw [hevents]
      exact List.mem_cons_self
    cases hlast : s.mLastTransaction with
    | none => exact absurd hlast (h.last_ne_none he)
    | some last =>
      have hlater := h.later last hlast e he
      have hstart : (!e.targetDate.lt last.confirmedAt) = true := by
        rw [Bool.not_eq_true', Timestamp.lt_eq_false]
        omega
      rw [Option.bind_some, List.find?_cons, hstart, List.head?_cons]

/-- An event that is taken up is the first one and not after the second of the date. -/
theorem of_nextEvent (h : Pending s) {e : TransactionTriggerEvent}
    (hnext : nextEvent s endDate = some e) :
    ∃ es, s.mTransactionTriggerEvents = e :: es ∧ e.targetDate.seconds ≤ endDate.seconds := by
  rw [h.nextEvent_eq, Option.filter_eq_some_iff] at hnext
  obtain ⟨hhead, hle⟩ := hnext
  obtain ⟨es, hes⟩ := List.head?_eq_some_iff.1 hhead
  refine ⟨es, hes, ?_⟩
  simp only [Timestamp.le, Bool.or_eq_true, Bool.and_eq_true, decide_eq_true_eq] at hle
  omega

/-- When no event is taken up, all events are in later seconds. -/
theorem of_nextEvent_eq_none (h : Pending s) (hnext : nextEvent s endDate = none) :
    ∀ e ∈ s.mTransactionTriggerEvents, endDate.seconds < e.targetDate.seconds := by
  rw [h.nextEvent_eq, Option.filter_eq_none_iff] at hnext
  intro e he
  obtain ⟨first, es, hes⟩ := List.exists_cons_of_ne_nil (List.ne_nil_of_mem he)
  have hle := hnext first (by rw [hes]; rfl)
  simp only [Timestamp.le, Bool.or_eq_true, Bool.and_eq_true, decide_eq_true_eq] at hle
  have hsorted := h.sorted
  rw [hes] at he hsorted
  rcases List.mem_cons.1 he with rfl | he
  · omega
  · have horder := (List.pairwise_cons.1 hsorted).1 e he
    rw [Timestamp.lt_eq_false] at horder
    omega

/-- The removal of an event. -/
theorem removeTransactionTriggerEvent (h : Pending s) {community : ℕ}
    (hs : s.Represents community s.history) (event : TransactionTriggerEvent) :
    Pending (s.removeTransactionTriggerEvent event) where
  sorted := h.sorted.sublist List.filter_sublist
  nodup := h.nodup.sublist (List.filter_sublist.map _)
  known := by
    intro e he
    rw [(hs.removeTransactionTriggerEvent event).history_eq]
    exact h.known e (List.mem_filter.1 he).1
  later := fun last hlast e he => h.later last hlast e (List.mem_filter.1 he).1

/-- Taking up the first event leaves the others. -/
theorem events_tail (h : Pending s) {e : TransactionTriggerEvent}
    {es : List TransactionTriggerEvent} (hes : s.mTransactionTriggerEvents = e :: es) :
    (s.removeTransactionTriggerEvent e).mTransactionTriggerEvents = es := by
  have hnodup := h.nodup.of_map
  rw [hes, List.nodup_cons] at hnodup
  unfold InMemory.removeTransactionTriggerEvent
  rw [hes, List.filter_cons_of_neg (by simp), List.filter_eq_self]
  intro e' he'
  rw [decide_eq_true_eq]
  rintro rfl
  exact hnodup.1 he'

end Pending

theorem sorted_insertEvent (event : TransactionTriggerEvent) {es : List TransactionTriggerEvent}
    (h : es.Pairwise (fun a b => b.targetDate.lt a.targetDate = false)) :
    (InMemory.insertEvent event es).Pairwise
      (fun a b => b.targetDate.lt a.targetDate = false) := by
  induction es with
  | nil => exact List.pairwise_singleton _ _
  | cons e es ih =>
    obtain ⟨hhead, htail⟩ := List.pairwise_cons.1 h
    unfold InMemory.insertEvent
    split_ifs with hlt
    · refine List.pairwise_cons.2 ⟨?_, h⟩
      intro b hb
      rw [Timestamp.lt_iff] at hlt
      rcases List.mem_cons.1 hb with rfl | hb
      · rw [Timestamp.lt_eq_false]
        omega
      · have horder := hhead b hb
        rw [Timestamp.lt_eq_false] at horder ⊢
        omega
    · refine List.pairwise_cons.2 ⟨?_, ih htail⟩
      intro b hb
      rcases List.mem_cons.1 ((InMemory.perm_insertEvent event es).subset hb) with rfl | hb
      · exact Bool.eq_false_iff.2 hlt
      · exact hhead b hb

/-- A deferred transfer that was confirmed lasts an hour at least. -/
theorem Confirms.deferred_duration {role : Role} {tx : ConfirmedTransaction}
    (h : Confirms env community role p q tx) {d : GradidoDeferredTransfer}
    (hd : role.mBody.specific = .deferredTransfer d) :
    Validate.minTimeoutInterval ≤ d.timeoutDuration := by
  obtain ⟨c, hc⟩ := h.specific_single
  simp only [Validate.specificRole, hd, Validate.gradidoDeferredTransferRole, bind_eq_ok,
    exists_unit, when_eq_ok, throwIf_eq_ok, decide_eq_false_iff_not] at hc
  have hshort := (hc.1 trivial).2
  omega

/-- A transaction that was confirmed when no event was due any more keeps the events pending. -/
theorem Pending.added (hp : Logged env q) (h : Pending (q.findBlockchain community)) {role : Role}
    {tx : ConfirmedTransaction} (htx : Confirms env community role p q tx)
    (hstopped : nextEvent (q.findBlockchain community) role.mConfirmedAt = none) :
    Pending ((ConfirmTransaction.added env q community tx).findBlockchain community) := by
  have hb := confirm_spec htx.confirm
  have hhistory := hp.history_added hb
  have hlater := h.of_nextEvent_eq_none hstopped
  rw [← hb.confirmedAt] at hlater
  rw [findBlockchain_added] at hhistory ⊢
  obtain ⟨es, heq, hcases⟩ := InMemory.addToBlockchain_cases env (q.findBlockchain community) tx
  have hes : (addToBlockchain env (q.findBlockchain community) tx).1.mTransactionTriggerEvents =
      es := by
    rw [heq]
  -- what has to be shown of the new list of events
  have hgoal : es.Pairwise (fun a b => b.targetDate.lt a.targetDate = false) →
      (es.map TransactionTriggerEvent.linkedTransactionId).Nodup →
      (∀ e ∈ es, e ∈ (q.findBlockchain community).mTransactionTriggerEvents ∨
        e.linkedTransactionId = tx.id ∧ tx.confirmedAt.seconds < e.targetDate.seconds) →
      Pending (addToBlockchain env (q.findBlockchain community) tx).1 := by
    intro hsorted hnodup hmem
    constructor
    · rwa [hes]
    · rwa [hes]
    · intro e he
      rw [hes] at he
      rw [hhistory]
      rcases hmem e he with he | ⟨hid, -⟩
      · obtain ⟨t, ht, htid⟩ := h.known e he
        exact ⟨t, List.mem_append_left _ ht, htid⟩
      · exact ⟨tx, List.mem_append_right _ (List.mem_singleton.2 rfl), hid.symm⟩
    · intro last hlast e he
      rw [InMemory.addToBlockchain_mLastTransaction, Option.mem_def, Option.some.injEq] at hlast
      subst hlast
      rw [hes] at he
      rcases hmem e he with he | ⟨-, hdate⟩
      · exact hlater e he
      · exact hdate
  rcases hcases with rfl | ⟨d, hd, rfl⟩ | ⟨r, event, -, -, rfl⟩
  · exact hgoal h.sorted h.nodup (fun e he => .inl he)
  · have hperm := InMemory.perm_insertEvent
      ⟨tx.id, tx.confirmedAt.addSeconds d.timeoutDuration⟩
      (q.findBlockchain community).mTransactionTriggerEvents
    have hduration : Validate.minTimeoutInterval ≤ d.timeoutDuration := by
      refine htx.deferred_duration ?_
      rw [hb.body_eq, hd]
    refine hgoal (sorted_insertEvent _ h.sorted) ?_ ?_
    · rw [(hperm.map _).nodup_iff, List.map_cons, List.nodup_cons]
      refine ⟨?_, h.nodup⟩
      intro hin
      obtain ⟨e, he, hlinked⟩ := List.mem_map.1 hin
      have hnew : e.linkedTransactionId = tx.id := hlinked
      obtain ⟨t, ht, htid⟩ := h.known e he
      have hle := ((hp.represents community).id_le_length ht).2
      have hid := hp.id_eq hb
      omega
    · intro e he
      rcases List.mem_cons.1 (hperm.subset he) with rfl | he
      · refine .inr ⟨rfl, ?_⟩
        simp only [Timestamp.addSeconds, Validate.minTimeoutInterval] at hduration ⊢
        omega
      · exact .inl he
  · refine hgoal (h.sorted.sublist List.filter_sublist)
      (h.nodup.sublist (List.filter_sublist.map _)) ?_
    intro e he
    exact .inl (List.mem_filter.1 he).1

/-! ### Complete runs of the loop -/

/-- A complete run of the loop up to a date, with the events that it takes up in their order.  The
transaction of an event can fail before its own trigger events are processed or afterwards; the
loop goes on in every case. -/
inductive Handled (env : Env) (community : ℕ) :
    Timestamp → InMemoryProvider → List TransactionTriggerEvent → InMemoryProvider → Prop
  | stop {endDate : Timestamp} {p : InMemoryProvider} :
      nextEvent (p.findBlockchain community) endDate = none → Handled env community endDate p [] p
  | skip {endDate : Timestamp} {p s : InMemoryProvider} {event : TransactionTriggerEvent}
      {es : List TransactionTriggerEvent} {e : Exception} :
      nextEvent (p.findBlockchain community) endDate = some event →
      validateSingle env (dropEvent p community event) community false
        (eventRole community event) = .error e →
      Handled env community endDate (dropEvent p community event) es s →
      Handled env community endDate p (event :: es) s
  | fail {endDate : Timestamp} {p q s : InMemoryProvider} {event : TransactionTriggerEvent}
      {nested es : List TransactionTriggerEvent} {e : Exception} :
      nextEvent (p.findBlockchain community) endDate = some event →
      Handled env community event.targetDate (dropEvent p community event) nested q →
      confirm env q community (eventRole community event) = .error e →
      Handled env community endDate q es s →
      Handled env community endDate p (event :: (nested ++ es)) s
  | fire {endDate : Timestamp} {p q s : InMemoryProvider} {event : TransactionTriggerEvent}
      {nested es : List TransactionTriggerEvent} {tx : ConfirmedTransaction} :
      nextEvent (p.findBlockchain community) endDate = some event →
      Handled env community event.targetDate (dropEvent p community event) nested q →
      Confirms env community (eventRole community event) (dropEvent p community event) q tx →
      Handled env community endDate (added env q community tx) es s →
      Handled env community endDate p (event :: (nested ++ es)) s

/-- What a run of the loop leaves behind. -/
structure Swept (env : Env) (community : ℕ) (endDate : Timestamp) (p : InMemoryProvider)
    (es : List TransactionTriggerEvent) (q : InMemoryProvider) : Prop where
  logged : Logged env q
  pending : Pending (q.findBlockchain community)
  events : events p community = es ++ events q community
  stopped : nextEvent (q.findBlockchain community) endDate = none
  due : ∀ e ∈ es, e.targetDate.seconds ≤ endDate.seconds
  history : ∃ l, (q.findBlockchain community).history = (p.findBlockchain community).history ++ l ∧
    ∀ tx ∈ l, ∃ e ∈ es, tx.body.specific = .timeoutDeferredTransfer e.linkedTransactionId ∧
      tx.confirmedAt = e.targetDate
  others : ∀ i, i ≠ community → q.findBlockchain i = p.findBlockchain i

/-- The rest of a run, after the first event was removed and its own trigger events were taken
up. -/
theorem Swept.cons {endDate : Timestamp} {event : TransactionTriggerEvent}
    {nested es : List TransactionTriggerEvent} {s : InMemoryProvider}
    (hpending : Pending (p.findBlockchain community))
    (hevent : nextEvent (p.findBlockchain community) endDate = some event)
    (hevents : ConfirmTransaction.events (dropEvent p community event) community =
      nested ++ ConfirmTransaction.events r community)
    (hnested : ∀ e ∈ nested, e.targetDate.seconds ≤ event.targetDate.seconds)
    (hhistory : ∃ l, (r.findBlockchain community).history =
        (p.findBlockchain community).history ++ l ∧
      ∀ tx ∈ l, ∃ e ∈ event :: nested,
        tx.body.specific = .timeoutDeferredTransfer e.linkedTransactionId ∧
          tx.confirmedAt = e.targetDate)
    (hothers : ∀ i, i ≠ community → r.findBlockchain i = p.findBlockchain i)
    (h : Swept env community endDate r es s) :
    Swept env community endDate p (event :: (nested ++ es)) s where
  logged := h.logged
  pending := h.pending
  events := by
    obtain ⟨tail, htail, -⟩ := hpending.of_nextEvent hevent
    have hdrop : ConfirmTransaction.events (dropEvent p community event) community = tail := by
      rw [ConfirmTransaction.events, findBlockchain_dropEvent]
      exact hpending.events_tail htail
    rw [hdrop] at hevents
    rw [ConfirmTransaction.events, htail, hevents, h.events, List.cons_append, List.append_assoc]
  stopped := h.stopped
  due := by
    obtain ⟨_, -, hdue⟩ := hpending.of_nextEvent hevent
    intro e he
    rcases List.mem_cons.1 he with rfl | he
    · exact hdue
    · rcases List.mem_append.1 he with he | he
      · exact (hnested e he).trans hdue
      · exact h.due e he
  history := by
    obtain ⟨l, hl, htimeouts⟩ := hhistory
    obtain ⟨l', hl', htimeouts'⟩ := h.history
    refine ⟨l ++ l', by rw [hl', hl, List.append_assoc], ?_⟩
    intro tx htx
    rcases List.mem_append.1 htx with htx | htx
    · obtain ⟨e, he, hspec⟩ := htimeouts tx htx
      refine ⟨e, ?_, hspec⟩
      rw [← List.cons_append]
      exact List.mem_append_left _ he
    · obtain ⟨e, he, hspec⟩ := htimeouts' tx htx
      exact ⟨e, List.mem_cons_of_mem _ (List.mem_append_right _ he), hspec⟩
  others := fun i hi => (h.others i hi).trans (hothers i hi)

/-- **What the loop does.** -/
theorem Handled.swept {es : List TransactionTriggerEvent}
    (h : Handled env community endDate p es q) (hp : Logged env p)
    (hpending : Pending (p.findBlockchain community)) : Swept env community endDate p es q := by
  have hdropped : ∀ {p : InMemoryProvider} (event : TransactionTriggerEvent), Logged env p →
      Pending (p.findBlockchain community) →
      Pending ((dropEvent p community event).findBlockchain community) := by
    intro p event hp hpending
    rw [findBlockchain_dropEvent]
    exact hpending.removeTransactionTriggerEvent (hp.represents community) event
  induction h with
  | stop hstop => exact ⟨hp, hpending, rfl, hstop, by simp, ⟨[], by simp, by simp⟩, fun _ _ => rfl⟩
  | @skip endDate p s event es e hevent _ _ ih =>
    refine (ih (hp.dropEvent _ _) (hdropped event hp hpending)).cons hpending hevent
      (List.nil_append _).symm (by simp) ⟨[], ?_, by simp⟩ ?_
    · rw [hp.history_dropEvent, List.append_nil]
    · exact fun i hi => findBlockchain_dropEvent_of_ne p event hi
  | @fail endDate p q s event nested es e hevent _ _ _ ihnested ih =>
    have hnested := ihnested (hp.dropEvent _ _) (hdropped event hp hpending)
    refine (ih hnested.logged hnested.pending).cons hpending hevent hnested.events hnested.due
      ?_ ?_
    · obtain ⟨l, hl, htimeouts⟩ := hnested.history
      rw [hp.history_dropEvent] at hl
      refine ⟨l, hl, ?_⟩
      intro tx htx
      obtain ⟨e, he, hspec⟩ := htimeouts tx htx
      exact ⟨e, List.mem_cons_of_mem _ he, hspec⟩
    · intro i hi
      rw [hnested.others i hi, findBlockchain_dropEvent_of_ne p event hi]
  | @fire endDate p q s event nested es tx hevent _ htx _ ihnested ih =>
    have hnested := ihnested (hp.dropEvent _ _) (hdropped event hp hpending)
    have hb := confirm_spec htx.confirm
    have hspecific : tx.body.specific = .timeoutDeferredTransfer event.linkedTransactionId := by
      rw [← hb.body_eq]
      rfl
    refine (ih (hnested.logged.added hb)
      (hnested.pending.added hnested.logged htx hnested.stopped)).cons hpending hevent
      ?_ hnested.due ?_ ?_
    · rw [hnested.events, events_added_timeout hspecific]
    · obtain ⟨l, hl, htimeouts⟩ := hnested.history
      rw [hp.history_dropEvent] at hl
      refine ⟨l ++ [tx], ?_, ?_⟩
      · rw [hnested.logged.history_added hb, hl, List.append_assoc]
      · intro t ht
        rcases List.mem_append.1 ht with ht | ht
        · obtain ⟨e, he, hspec⟩ := htimeouts t ht
          exact ⟨e, List.mem_cons_of_mem _ he, hspec⟩
        · rw [List.mem_singleton.1 ht]
          exact ⟨event, List.mem_cons_self, hspecific, hb.confirmedAt⟩
    · intro i hi
      rw [findBlockchain_added_of_ne _ _ _ hi, hnested.others i hi,
        findBlockchain_dropEvent_of_ne p event hi]

namespace Swept

variable {es : List TransactionTriggerEvent}

/-- The last transaction is an old one or the timeout of one of the events. -/
theorem last (h : Swept env community endDate p es q) (hp : Logged env p)
    {last : ConfirmedTransaction}
    (hlast : (q.findBlockchain community).mLastTransaction = some last) :
    (p.findBlockchain community).mLastTransaction = some last ∨
      ∃ e ∈ es, last.confirmedAt = e.targetDate := by
  obtain ⟨l, hl, htimeouts⟩ := h.history
  rw [(h.logged.represents community).last, hl] at hlast
  rw [(hp.represents community).last]
  rcases List.eq_nil_or_concat l with rfl | ⟨l, t, rfl⟩
  · rw [List.append_nil] at hlast
    exact .inl hlast
  · rw [List.concat_eq_append, ← List.append_assoc, List.getLast?_concat,
      Option.some.injEq] at hlast
    subst hlast
    obtain ⟨e, he, -, hdate⟩ := htimeouts t (by simp)
    exact .inr ⟨e, he, hdate⟩

/-- A pending event is taken up when it is not after the second of the date. -/
theorem mem_iff (h : Swept env community endDate p es q) {e : TransactionTriggerEvent} :
    e ∈ es ↔ e ∈ ConfirmTransaction.events p community ∧
      e.targetDate.seconds ≤ endDate.seconds := by
  rw [h.events, List.mem_append]
  constructor
  · intro he
    exact ⟨.inl he, h.due e he⟩
  · rintro ⟨he | he, hdue⟩
    · exact he
    · have hlater := h.pending.of_nextEvent_eq_none h.stopped e he
      omega

end Swept

/-- The loop in `Context::run`, as a call with enough depth runs it. -/
def processTransactionTriggers (env : Env) (depth : ℕ) (community : ℕ) (endDate : Timestamp)
    (p : InMemoryProvider) : InMemoryProvider :=
  iterateWhile (processTransactionTrigger (createAndAdd env depth false) community endDate)
    (events p community).length p

/-- A call after the loop: the rest of `Context::run` and what is done with its result. -/
def finish (env : Env) (q : InMemoryProvider) (community : ℕ) (role : Role) :
    InMemoryProvider × Except Exception Unit :=
  match confirm env q community role with
  | .error e => (q, .error e)
  | .ok tx => (added env q community tx, (addToBlockchain env (q.findBlockchain community) tx).2)

section CreateAndAdd

variable {depth : ℕ} {disableVerify : Bool} {role : Role} {e : Exception}

/-- The checks before the loop fail: nothing happens. -/
theorem createAndAdd_of_single (hrole : createRole role.mBody = .ok ())
    (hsingle : validateSingle env p community disableVerify role = .error e) :
    createAndAdd env (depth + 1) disableVerify p community role = (p, .error e) := by
  simp only [createAndAdd, hrole, hsingle]

/-- The checks before the loop pass: the call goes on in the state after the loop. -/
theorem createAndAdd_of_ok (hrole : createRole role.mBody = .ok ())
    (hsingle : validateSingle env p community disableVerify role = .ok ()) :
    createAndAdd env (depth + 1) disableVerify p community role =
      finish env (processTransactionTriggers env depth community role.mConfirmedAt p) community
        role := by
  simp only [createAndAdd, hrole, hsingle]
  rfl

end CreateAndAdd

/-- **The loop runs to its end**, and so do the loops in the calls that it makes. -/
theorem handled_iterateWhile (hp : Logged env p) {depth rounds : ℕ} (endDate : Timestamp)
    (hdepth : (events p community).length ≤ depth)
    (hrounds : (events p community).length ≤ rounds) :
    ∃ es, Handled env community endDate p es
      (iterateWhile (processTransactionTrigger (createAndAdd env depth false) community endDate)
        rounds p) := by
  generalize hn : (events p community).length = n at hdepth hrounds
  -- on the number of events: the calls for an event and the rest of the loop have fewer
  induction n using Nat.strong_induction_on generalizing p depth rounds endDate with
  | _ n ih =>
    subst hn
    cases hevent : nextEvent (p.findBlockchain community) endDate with
    | none =>
      refine ⟨[], ?_⟩
      rw [iterateWhile_of_none (by rw [processTransactionTrigger, hevent, Option.map_none])]
      exact .stop hevent
    | some event =>
      have hlt := length_events_dropEvent_lt (mem_events_of_nextEvent hevent)
      have hdropped := hp.dropEvent community event
      obtain ⟨depth, rfl⟩ := Nat.exists_eq_succ_of_ne_zero (by omega : depth ≠ 0)
      obtain ⟨rounds, rfl⟩ := Nat.exists_eq_succ_of_ne_zero (by omega : rounds ≠ 0)
      have hround : processTransactionTrigger (createAndAdd env (depth + 1) false) community
          endDate p = some (createAndAdd env (depth + 1) false (dropEvent p community event)
            community (eventRole community event)).1 := by
        rw [processTransactionTrigger, hevent, Option.map_some, dropEvent]
      obtain ⟨hlogged, hsub⟩ : Logged env (createAndAdd env (depth + 1) false
          (dropEvent p community event) community (eventRole community event)).1 ∧ _ :=
        createAndAdd_event_fired hdropped _ (depth + 1) false event
      have hle := hsub.length_le
      obtain ⟨es, hes⟩ : ∃ es, Handled env community endDate (createAndAdd env (depth + 1) false
          (dropEvent p community event) community (eventRole community event)).1 es
          (iterateWhile (processTransactionTrigger (createAndAdd env (depth + 1) false) community
            endDate) rounds _) :=
        ih _ (by omega) hlogged endDate rfl (by omega) (by omega)
      rw [Nat.succ_eq_add_one, Nat.succ_eq_add_one, iterateWhile_of_some hround]
      obtain ⟨nested, hnested⟩ : ∃ nested, Handled env community event.targetDate
          (dropEvent p community event) nested (processTransactionTriggers env depth community
            event.targetDate (dropEvent p community event)) :=
        ih _ hlt hdropped event.targetDate rfl (by omega) le_rfl
      have hrole : createRole (eventRole community event).mBody = .ok () := rfl
      cases hsingle : validateSingle env (dropEvent p community event) community false
          (eventRole community event) with
      | error e =>
        rw [createAndAdd_of_single hrole hsingle] at hes ⊢
        exact ⟨_, .skip hevent hsingle hes⟩
      | ok _ =>
        rw [createAndAdd_of_ok hrole hsingle] at hes ⊢
        unfold finish at hes ⊢
        cases hconfirm : confirm env (processTransactionTriggers env depth community
            (eventRole community event).mConfirmedAt (dropEvent p community event)) community
            (eventRole community event) with
        | error e =>
          rw [hconfirm] at hes
          exact ⟨_, .fail hevent hnested hconfirm hes⟩
        | ok tx =>
          rw [hconfirm] at hes
          exact ⟨_, .fire hevent hnested ⟨hrole, ⟨_, hsingle⟩, hconfirm⟩ hes⟩

theorem handled_processTransactionTriggers (hp : Logged env p) (community : ℕ)
    (endDate : Timestamp) {depth : ℕ} (hdepth : (events p community).length ≤ depth) :
    ∃ es, Handled env community endDate p es
      (processTransactionTriggers env depth community endDate p) :=
  handled_iterateWhile hp endDate hdepth le_rfl

/-! ### Runs -/

/-- The events of every blockchain are pending after a call, when they were before. -/
theorem createAndAdd_pending (hp : Logged env p) (hpending : ∀ i, Pending (p.findBlockchain i))
    {depth : ℕ} (hdepth : (events p community).length < depth) (disableVerify : Bool)
    (role : Role) (i : ℕ) :
    Pending ((createAndAdd env depth disableVerify p community role).1.findBlockchain i) := by
  obtain ⟨depth, rfl⟩ := Nat.exists_eq_succ_of_ne_zero (by omega : depth ≠ 0)
  rw [Nat.succ_eq_add_one]
  cases hrole : createRole role.mBody with
  | error e =>
    simp only [createAndAdd, hrole]
    exact hpending i
  | ok _ =>
    cases hsingle : validateSingle env p community disableVerify role with
    | error e =>
      rw [createAndAdd_of_single hrole hsingle]
      exact hpending i
    | ok _ =>
      obtain ⟨es, hes⟩ := handled_processTransactionTriggers hp community
        role.mConfirmedAt (show (events p community).length ≤ depth by omega)
      have hswept := hes.swept hp (hpending community)
      have hothers : ∀ j, j ≠ community → Pending ((processTransactionTriggers env depth community
          role.mConfirmedAt p).findBlockchain j) := by
        intro j hj
        rw [hswept.others j hj]
        exact hpending j
      rw [createAndAdd_of_ok hrole hsingle]
      unfold finish
      split
      · by_cases hi : i = community
        · subst hi
          exact hswept.pending
        · exact hothers i hi
      · next tx hconfirm =>
        by_cases hi : i = community
        · subst hi
          exact hswept.pending.added hswept.logged ⟨hrole, ⟨_, hsingle⟩, hconfirm⟩ hswept.stopped
        · rw [findBlockchain_added_of_ne _ _ _ hi]
          exact hothers i hi

end ConfirmTransaction

open ConfirmTransaction

/-- **The events of a run are pending.** -/
theorem runAdd_pending (env : Env) (calls : List AddCall) (i : ℕ) :
    Pending ((runAdd env calls).findBlockchain i) := by
  induction calls using List.reverseRecOn generalizing i with
  | nil => exact pending_empty i
  | append_singleton calls c ih =>
    have hlogged := (reachable_runAdd env calls).logged
    rw [runAdd, List.foldl_append]
    cases c with
    | node call =>
      exact createAndAdd_pending hlogged ih (Nat.lt_succ_self _) false call.role i
    | given disableVerify community tx ledgerAnchor balances =>
      exact createAndAdd_pending hlogged ih (Nat.lt_succ_self _) disableVerify _ i

/-- The blockchains after the loop of a call. -/
def Call.triggered (env : Env) (p : InMemoryProvider) (c : Call) : InMemoryProvider :=
  processTransactionTriggers env (events p c.community).length c.community c.confirmedAt p

/-- No pending event is later than a date in the same second. -/
def NoneLate (p : InMemoryProvider) (community : ℕ) (date : Timestamp) : Prop :=
  ∀ e ∈ events p community, e.targetDate.seconds = date.seconds →
    date.lt e.targetDate = false

instance {p : InMemoryProvider} {community : ℕ} {date : Timestamp} :
    Decidable (NoneLate p community date) :=
  inferInstanceAs (Decidable (∀ e ∈ _, _))

/-- An event that is not after the second of a date is then not after the date. -/
theorem NoneLate.not_lt {p : InMemoryProvider} {community : ℕ} {date : Timestamp}
    (h : NoneLate p community date) {e : TransactionTriggerEvent}
    (he : e ∈ events p community) (hdue : e.targetDate.seconds ≤ date.seconds) :
    date.lt e.targetDate = false := by
  by_cases hsecond : e.targetDate.seconds = date.seconds
  · exact h e he hsecond
  · rw [Timestamp.lt_eq_false]
    omega

/-- The loop of a call ends, it takes up exactly the events that are not after the date of the
call, in their order, and the last transaction afterwards passes the check of `Context::run`, so
the call is not rejected because of them. -/
structure DueHandled (env : Env) (p : InMemoryProvider) (c : Call)
    (es : List TransactionTriggerEvent) : Prop where
  handled : Handled env c.community c.confirmedAt p es (c.triggered env p)
  call : createRole c.role.mBody = .ok () → validateSingle env p c.community false c.role = .ok () →
    InMemory.createAndAddConfirmedTransaction env p c.community c.gradidoTransaction
      c.ledgerAnchor c.confirmedAt = finish env (c.triggered env p) c.community c.role
  inOrder : es.Pairwise (fun a b => b.targetDate.lt a.targetDate = false)
  mem_iff : ∀ e, e ∈ es ↔ e ∈ events p c.community ∧ c.confirmedAt.lt e.targetDate = false
  left : events (c.triggered env p) c.community =
    (events p c.community).filter (fun e => c.confirmedAt.lt e.targetDate)
  stopped : nextEvent ((c.triggered env p).findBlockchain c.community) c.confirmedAt = none
  last : ((c.triggered env p).findBlockchain c.community).mLastTransaction.any
    (fun last => c.confirmedAt.lt last.confirmedAt) = false

/-- **Due events.**  A call that is not before the last transaction handles its due events, unless
another event follows in the same second: `operator<=` takes that one for due as well. -/
theorem runAdd_dueHandled_iff (env : Env) (calls : List AddCall) (c : Call)
    (hdate : ∀ last ∈ ((runAdd env calls).findBlockchain c.community).mLastTransaction,
      c.confirmedAt.lt last.confirmedAt = false) :
    (∃ es, DueHandled env (runAdd env calls) c es) ↔
      NoneLate (runAdd env calls) c.community c.confirmedAt := by
  have hp := (reachable_runAdd env calls).logged
  have hpending := runAdd_pending env calls c.community
  generalize runAdd env calls = p at *
  constructor
  · rintro ⟨es, hes⟩ e he hsecond
    have hmem := (hes.handled.swept hp hpending).mem_iff.2 ⟨he, le_of_eq hsecond⟩
    exact ((hes.mem_iff e).1 hmem).2
  · intro hlate
    obtain ⟨es, hhandled⟩ := handled_processTransactionTriggers hp c.community
      c.confirmedAt le_rfl
    have hswept := hhandled.swept hp hpending
    have hmem : ∀ e, e ∈ es ↔
        e ∈ events p c.community ∧ c.confirmedAt.lt e.targetDate = false := by
      intro e
      rw [hswept.mem_iff]
      constructor
      · rintro ⟨he, hdue⟩
        exact ⟨he, hlate.not_lt he hdue⟩
      · rintro ⟨he, hdue⟩
        rw [Timestamp.lt_eq_false] at hdue
        exact ⟨he, by omega⟩
    refine ⟨es, hhandled, ?_, ?_, hmem, ?_, hswept.stopped, ?_⟩
    · exact fun hrole hsingle => createAndAdd_of_ok hrole hsingle
    · have hsorted := hpending.sorted
      rw [show (p.findBlockchain c.community).mTransactionTriggerEvents = _ from hswept.events]
        at hsorted
      exact (List.pairwise_append.1 hsorted).1
    · rw [hswept.events, List.filter_append]
      have hdue : es.filter (fun e => c.confirmedAt.lt e.targetDate) = [] := by
        rw [List.filter_eq_nil_iff]
        intro e he
        rw [((hmem e).1 he).2]
        exact Bool.false_ne_true
      have hlater : (events (c.triggered env p) c.community).filter
          (fun e => c.confirmedAt.lt e.targetDate) = events (c.triggered env p) c.community := by
        rw [List.filter_eq_self]
        intro e he
        have hlt := hswept.pending.of_nextEvent_eq_none hswept.stopped e he
        rw [Timestamp.lt_iff]
        exact .inl hlt
      rw [hdue, List.nil_append]
      exact hlater.symm
    · cases hlast : ((c.triggered env p).findBlockchain c.community).mLastTransaction with
      | none => rfl
      | some last =>
        rw [Option.any_some]
        rcases hswept.last hp hlast with hold | ⟨e, he, heq⟩
        · exact hdate last hold
        · rw [heq]
          exact ((hmem e).1 he).2

namespace Sample

/-- Transaction four again, created a second later and confirmed half a millisecond after noon. -/
def deferredAfterNoon : Call :=
  { call 4 0 (transaction 1 (signedByKey 11) [memo]
      (.deferredTransfer ⟨⟨⟨11, 100, 1⟩, 30⟩, 3600⟩)) with
    confirmedAt := ⟨midnight + 43200, 500000⟩ }

/-- Account `41` is registered an hour later, `nanos` nanoseconds after one o'clock. -/
def registerAtOne (nanos : ℤ) : Call :=
  { call 5 0 (transaction 3601 (signedBy [1, 40, 41] (by decide)) []
      (.registerAddress ⟨.communityHuman, 1, 1, 40, 41⟩)) with
    confirmedAt := ⟨midnight + 43200 + 3600, nanos⟩ }

/-- The community root, the accounts and the deferred transfer, which is due half a millisecond
after one o'clock. -/
def dueAtOne : List AddCall := (setup ++ [deferredAfterNoon]).map .node

/-- A call at one o'clock sharp lets the deferred transfer time out half a millisecond too early,
and is itself rejected because of it. -/
theorem registerAtOne_not_dueHandled :
    (∀ last ∈ ((runAdd env dueAtOne).findBlockchain 1).mLastTransaction,
      (registerAtOne 0).confirmedAt.lt last.confirmedAt = false) ∧
    (validateSingle env (runAdd env dueAtOne) 1 false (registerAtOne 0).role).toOption = some () ∧
    ¬ ∃ es, DueHandled env (runAdd env dueAtOne) (registerAtOne 0) es := by
  refine ⟨by decide +kernel, by decide +kernel, ?_⟩
  rintro ⟨es, hes⟩
  have hlast := hes.last
  revert hlast
  decide +kernel

/-- A call a millisecond after one o'clock handles the timeout. -/
theorem registerAtOne_dueHandled :
    (∀ last ∈ ((runAdd env dueAtOne).findBlockchain 1).mLastTransaction,
      (registerAtOne 1000000).confirmedAt.lt last.confirmedAt = false) ∧
    (∃ es, DueHandled env (runAdd env dueAtOne) (registerAtOne 1000000) es) ∧
    (((registerAtOne 1000000).exec env (runAdd env dueAtOne)).findBlockchain 1).history.length =
      6 := by
  have hdate : ∀ last ∈ ((runAdd env dueAtOne).findBlockchain 1).mLastTransaction,
      (registerAtOne 1000000).confirmedAt.lt last.confirmedAt = false := by
    decide +kernel
  have hlate : NoneLate (runAdd env dueAtOne) 1 (registerAtOne 1000000).confirmedAt := by
    decide +kernel
  exact ⟨hdate, (runAdd_dueHandled_iff env dueAtOne (registerAtOne 1000000) hdate).2 hlate,
    by decide +kernel⟩

end Sample

end Gradido
