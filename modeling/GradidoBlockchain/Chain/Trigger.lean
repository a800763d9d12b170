import GradidoBlockchain.Chain.WellFormed

/-!
# Trigger events

What the trigger events of a call can do: they only take events away, and the
transactions that they add are timeouts of the deferred transfers that those
events belong to (`Triggered.fired`).  From that follows that the bounds on the
loop and on the depth of the recursion are never reached: `createAndAdd_depth`.
-/

namespace Gradido

open Checked

theorem InMemory.perm_insertEvent (event : TransactionTriggerEvent)
    (es : List TransactionTriggerEvent) : (insertEvent event es).Perm (event :: es) := by
  induction es with
  | nil => exact List.Perm.refl _
  | cons e es ih =>
    unfold insertEvent
    split_ifs
    · exact List.Perm.refl _
    · exact (ih.cons e).trans (List.Perm.swap event e es)

namespace ConfirmTransaction

variable {env : Env} {community : ℕ} {p q r : InMemoryProvider}

/-- The trigger events of a community. -/
def events (p : InMemoryProvider) (community : ℕ) : List TransactionTriggerEvent :=
  (p.findBlockchain community).mTransactionTriggerEvents

/-- The difference between two states that trigger events can make. -/
structure Fired (community : ℕ) (p q : InMemoryProvider) : Prop where
  events : List.Sublist (events q community) (events p community)
  history : ∃ l, (q.findBlockchain community).history = (p.findBlockchain community).history ++ l ∧
    ∀ tx ∈ l, ∃ event ∈ ConfirmTransaction.events p community,
      tx.body.specific = .timeoutDeferredTransfer event.linkedTransactionId
  others : ∀ i, i ≠ community → q.findBlockchain i = p.findBlockchain i

theorem fired_refl (community : ℕ) (p : InMemoryProvider) : Fired community p p where
  events := List.Sublist.refl _
  history := ⟨[], by simp, by simp⟩
  others := fun _ _ => rfl

theorem Fired.trans (hpq : Fired community p q) (hqr : Fired community q r) :
    Fired community p r where
  events := hqr.events.trans hpq.events
  history := by
    obtain ⟨l, hl, htimeouts⟩ := hpq.history
    obtain ⟨l', hl', htimeouts'⟩ := hqr.history
    refine ⟨l ++ l', by rw [hl', hl, List.append_assoc], ?_⟩
    intro tx htx
    rcases List.mem_append.1 htx with htx | htx
    · exact htimeouts tx htx
    · obtain ⟨event, hevent, hspecific⟩ := htimeouts' tx htx
      exact ⟨event, hpq.events.subset hevent, hspecific⟩
  others := fun i hi => (hqr.others i hi).trans (hpq.others i hi)

theorem events_dropEvent (p : InMemoryProvider) (community : ℕ)
    (event : TransactionTriggerEvent) :
    events (dropEvent p community event) community =
      (events p community).filter (fun e => decide (e ≠ event)) := by
  rw [events, findBlockchain_dropEvent]
  rfl

theorem fired_dropEvent (hp : Logged env p) (event : TransactionTriggerEvent) :
    Fired community p (dropEvent p community event) where
  events := by
    rw [events_dropEvent]
    exact List.filter_sublist
  history := ⟨[], by rw [hp.history_dropEvent]; simp, by simp⟩
  others := fun _ hi => findBlockchain_dropEvent_of_ne p event hi

/-- A timeout leaves the events alone. -/
theorem events_added_timeout {tx : ConfirmedTransaction} {nr : ℕ}
    (htx : tx.body.specific = .timeoutDeferredTransfer nr) :
    events (added env p community tx) community = events p community := by
  rw [events, findBlockchain_added]
  obtain ⟨es, heq, hcases⟩ :=
    InMemory.addToBlockchain_cases env (p.findBlockchain community) tx
  rw [heq]
  rcases hcases with rfl | ⟨d, hd, -⟩ | ⟨d, _, hd, -⟩
  · rfl
  · rw [htx] at hd
    simp at hd
  · rw [htx] at hd
    simp at hd

theorem mem_events_of_nextEvent {endDate : Timestamp} {event : TransactionTriggerEvent}
    (h : nextEvent (p.findBlockchain community) endDate = some event) :
    event ∈ events p community := by
  obtain ⟨last, -, hfind⟩ := Option.bind_eq_some_iff.1 h
  exact List.mem_of_find?_eq_some (Option.filter_eq_some_iff.1 hfind).1

/-- **What trigger events do.** -/
theorem Triggered.fired (h : Triggered env community p q) (hp : Logged env p) :
    Logged env q ∧ Fired community p q := by
  induction h with
  | refl => exact ⟨hp, fired_refl _ _⟩
  | drop _ _ ih =>
    obtain ⟨hq, hfired⟩ := ih hp
    exact ⟨hq.dropEvent _ _, hfired.trans (fired_dropEvent hq _)⟩
  | @fire p q r endDate event tx _ hevent _ htx ih ihnested =>
    obtain ⟨hq, hfired⟩ := ih hp
    obtain ⟨hr, hnested⟩ := ihnested (hq.dropEvent _ _)
    have hb := confirm_spec htx.confirm
    have hspecific : tx.body.specific = .timeoutDeferredTransfer event.linkedTransactionId := by
      rw [← hb.body_eq]
      rfl
    have hq' := hfired.trans ((fired_dropEvent hq event).trans hnested)
    refine ⟨hr.added hb, ?_, ?_, ?_⟩
    · rw [events_added_timeout hspecific]
      exact hq'.events
    · obtain ⟨l, hl, htimeouts⟩ := hq'.history
      refine ⟨l ++ [tx], by rw [hr.history_added hb, hl, List.append_assoc], ?_⟩
      intro t ht
      rcases List.mem_append.1 ht with ht | ht
      · exact htimeouts t ht
      · rw [List.mem_singleton.1 ht]
        exact ⟨event, hfired.events.subset (mem_events_of_nextEvent hevent), hspecific⟩
    · intro i hi
      rw [findBlockchain_added_of_ne _ _ _ hi, hq'.others i hi]

/-! ### Bounds -/

theorem length_events_dropEvent_lt {event : TransactionTriggerEvent}
    (h : event ∈ events p community) :
    (events (dropEvent p community event) community).length < (events p community).length := by
  rw [events_dropEvent]
  exact List.length_filter_lt_length_iff_exists.2 ⟨event, h, by simp⟩

/-- A call for an event leaves fewer events behind. -/
theorem createAndAdd_event_fired (hp : Logged env p) (community depth : ℕ) (disableVerify : Bool)
    (event : TransactionTriggerEvent) :
    Logged env (createAndAdd env depth disableVerify p community (eventRole community event)).1 ∧
      List.Sublist (events
        (createAndAdd env depth disableVerify p community (eventRole community event)).1 community)
        (events p community) := by
  obtain ⟨q, hq, heq | ⟨tx, htx, heq⟩⟩ :=
    createAndAdd_cases env depth disableVerify p community (eventRole community event)
  · rw [heq]
    exact ⟨(hq.fired hp).1, (hq.fired hp).2.events⟩
  · have hb := confirm_spec htx.confirm
    have hspecific : tx.body.specific = .timeoutDeferredTransfer event.linkedTransactionId := by
      rw [← hb.body_eq]
      rfl
    rw [heq, events_added_timeout hspecific]
    exact ⟨(hq.fired hp).1.added hb, (hq.fired hp).2.events⟩

/-- Every round of the loop takes an event away. -/
theorem processTransactionTrigger_events (hq : Logged env q) {depth : ℕ} {endDate : Timestamp}
    (h : processTransactionTrigger (createAndAdd env depth false) community endDate q = some r) :
    Logged env r ∧ (events r community).length < (events q community).length := by
  obtain ⟨event, hevent, rfl⟩ := Option.map_eq_some_iff.1 h
  obtain ⟨hlogged, hsub⟩ := createAndAdd_event_fired (hq.dropEvent community event) community
    depth false event
  exact ⟨hlogged, lt_of_le_of_lt hsub.length_le
    (length_events_dropEvent_lt (mem_events_of_nextEvent hevent))⟩

/-- **The loop ends by itself**: after as many rounds as there are events, no event is left that
is due. -/
theorem processTransactionTrigger_stopped (hp : Logged env p) (depth : ℕ) (endDate : Timestamp) :
    processTransactionTrigger (createAndAdd env depth false) community endDate
      (iterateWhile (processTransactionTrigger (createAndAdd env depth false) community endDate)
        (events p community).length p) = none :=
  iterateWhile_stopped (Logged env) (fun q => (events q community).length)
    (fun _ _ hq h => processTransactionTrigger_events hq h) _ hp le_rfl

/-- **The depth is enough**: beyond the number of events it does not matter. -/
theorem createAndAdd_depth (hp : Logged env p) (disableVerify : Bool) (role : Role)
    {depth depth' : ℕ} (hdepth : (events p community).length < depth)
    (hdepth' : (events p community).length < depth') :
    createAndAdd env depth disableVerify p community role =
      createAndAdd env depth' disableVerify p community role := by
  generalize hn : (events p community).length = n at hdepth hdepth'
  have hle : (events p community).length ≤ n := le_of_eq hn
  clear hn
  induction n generalizing p disableVerify role depth depth' with
  | zero =>
    obtain ⟨depth, rfl⟩ := Nat.exists_eq_succ_of_ne_zero (by omega : depth ≠ 0)
    obtain ⟨depth', rfl⟩ := Nat.exists_eq_succ_of_ne_zero (by omega : depth' ≠ 0)
    have hrounds : (p.findBlockchain community).mTransactionTriggerEvents.length = 0 := by
      exact Nat.le_zero.1 hle
    unfold createAndAdd
    simp only [hrounds, iterateWhile]
  | succ n ih =>
    obtain ⟨depth, rfl⟩ := Nat.exists_eq_succ_of_ne_zero (by omega : depth ≠ 0)
    obtain ⟨depth', rfl⟩ := Nat.exists_eq_succ_of_ne_zero (by omega : depth' ≠ 0)
    have hloop : ∀ rounds, iterateWhile (processTransactionTrigger (createAndAdd env depth false)
        community role.mConfirmedAt) rounds p =
        iterateWhile (processTransactionTrigger (createAndAdd env depth' false) community
          role.mConfirmedAt) rounds p := by
      intro rounds
      refine iterateWhile_congr
        (fun q => Logged env q ∧ (events q community).length ≤ n + 1) ?_ ?_ rounds ⟨hp, hle⟩
      · rintro q ⟨hq, hqle⟩
        unfold processTransactionTrigger
        cases hevent : nextEvent (q.findBlockchain community) role.mConfirmedAt with
        | none => rfl
        | some event =>
          have hlt := length_events_dropEvent_lt (mem_events_of_nextEvent hevent)
          have hsame := ih (hq.dropEvent community event) false (eventRole community event)
            (show n < depth by omega) (show n < depth' by omega) (by omega)
          simp only [Option.map_some]
          exact congrArg (fun result => some result.1) hsame
      · rintro q q' ⟨hq, hqle⟩ hstep
        obtain ⟨hq', hlt⟩ := processTransactionTrigger_events hq hstep
        exact ⟨hq', by omega⟩
    unfold createAndAdd
    simp only [hloop]

end ConfirmTransaction

end Gradido
