import GradidoBlockchain.Chain.Due

/-!
# Calls that fail

What a call leaves behind that throws.  The checks before the loop leave the
blockchains as they were, and the checks after it leave the events that the
loop took up.  Once a transaction is stored nothing can fail any more: the
event that `runPastAddToBlockchain` adds belongs to the transaction itself, and
the deferred transfer of a redeem was already looked up for the balances.
-/

namespace Gradido

open Checked

namespace ConfirmTransaction

variable {env : Env} {community : ℕ} {p q : InMemoryProvider} {role : Role}
  {tx : ConfirmedTransaction}

/-- A transaction that was just stored is found under its number. -/
theorem Logged.byNr_pushed (hq : Logged env q) (hb : Built env q community role tx) :
    ((q.findBlockchain community).pushTransactionEntry env tx).mTransactionsByNr tx.id =
      some tx := by
  have hnone : (q.findBlockchain community).mTransactionsByNr tx.id = none := by
    cases hold : (q.findBlockchain community).mTransactionsByNr tx.id with
    | none => rfl
    | some t =>
      obtain ⟨ht, hid⟩ := (hq.represents community).mem_of_byNr hold
      have hle := ((hq.represents community).id_le_length ht).2
      have hnew := hq.id_eq hb
      omega
  simp [InMemory.pushTransactionEntry, hnone]

/-- A deferred transfer that was stored plans its timeout. -/
theorem Built.runPast_deferred (hb : Built env q community role tx) (hq : Logged env q)
    {d : GradidoDeferredTransfer} (hd : tx.body.specific = .deferredTransfer d) :
    runPastAddToBlockchain ((q.findBlockchain community).pushTransactionEntry env tx) tx =
      .ok { (q.findBlockchain community).pushTransactionEntry env tx with
        mTransactionTriggerEvents := InMemory.insertEvent
          ⟨tx.id, tx.confirmedAt.addSeconds d.timeoutDuration⟩
          ((q.findBlockchain community).pushTransactionEntry env tx).mTransactionTriggerEvents } := by
  simp only [runPastAddToBlockchain, hd]
  refine bind_eq_ok.2 ⟨tx, orThrow_eq_ok.2 (hq.byNr_pushed hb),
    bind_eq_ok.2 ⟨(), throwIf_eq_ok.2 ?_, rfl⟩⟩
  simp [TransactionBody.transactionType, hd]

/-- A redeem that was stored takes the timeout of its deferred transfer back; the node has looked
the deferred transfer up for the balances. -/
theorem Built.runPast_redeem (hb : Built env q community role tx)
    (hnode : role.mAccountBalances = none) {r : GradidoRedeemDeferredTransfer}
    (hr : tx.body.specific = .redeemDeferredTransfer r) :
    ∃ entry d, (q.findBlockchain community).mTransactionsByNr r.deferredTransferTransactionNr =
        some entry ∧ entry.body.getDeferredTransfer = some d ∧
      runPastAddToBlockchain ((q.findBlockchain community).pushTransactionEntry env tx) tx =
        .ok (((q.findBlockchain community).pushTransactionEntry env
          tx).removeTransactionTriggerEvent ⟨r.deferredTransferTransactionNr,
            .ofTimepoint (entry.confirmedAt.getAsTimepoint +
              d.timeoutDuration * microsecondsPerSecond)⟩) := by
  have hbalances := hb.accountBalances
  simp only [roleAccountBalances, hnode, calculateAccountBalances, hb.body_eq, hr,
    redeemDeferredTransferBalances, bind_eq_ok, orThrow_eq_ok] at hbalances
  obtain ⟨entry, hentry, d, hd, -⟩ := hbalances
  have hstored : ((q.findBlockchain community).pushTransactionEntry env tx).mTransactionsByNr
      r.deferredTransferTransactionNr = some entry := by
    simp only [InMemory.pushTransactionEntry, InMemory.pushCompact_mTransactionsByNr]
    exact InMemory.insertNew_of_some hentry
  refine ⟨entry, d, hentry, hd, ?_⟩
  simp only [runPastAddToBlockchain, hr]
  exact bind_eq_ok.2 ⟨entry, orThrow_eq_ok.2 hstored, bind_eq_ok.2 ⟨d, orThrow_eq_ok.2 hd, rfl⟩⟩

/-- **Nothing fails after a transaction was stored**, when the node computed its balances. -/
theorem Built.addToBlockchain_ok (hb : Built env q community role tx) (hq : Logged env q)
    (hnode : role.mAccountBalances = none) :
    (addToBlockchain env (q.findBlockchain community) tx).2 = .ok () := by
  have hpast : ∃ s, runPastAddToBlockchain
      ((q.findBlockchain community).pushTransactionEntry env tx) tx = .ok s := by
    cases hspecific : tx.body.specific with
    | deferredTransfer d => exact ⟨_, hb.runPast_deferred hq hspecific⟩
    | redeemDeferredTransfer r =>
      obtain ⟨_, _, -, -, hpast⟩ := hb.runPast_redeem hnode hspecific
      exact ⟨_, hpast⟩
    | _ =>
      simp only [runPastAddToBlockchain, hspecific]
      exact ⟨_, rfl⟩
  obtain ⟨s, hs⟩ := hpast
  simp only [addToBlockchain, hs]

/-- The call that a trigger event would make passes the checks before the loop. -/
theorem validateSingle_eventRole {event : TransactionTriggerEvent}
    (hnr : 3 < event.linkedTransactionId)
    (hlast : ∀ last ∈ (p.findBlockchain community).mLastTransaction,
      last.confirmedAt.lt event.targetDate = true) (disableVerify : Bool) :
    validateSingle env p community disableVerify (eventRole community event) = .ok () := by
  have hexist : (p.findBlockchain community).isTransactionExist env
      (eventRole community event).mGradidoTransaction (eventRole community event).mConfirmedAt =
      .ok false := by
    unfold InMemory.isTransactionExist
    split
    · rfl
    · next last hl => exact if_pos (hlast last hl)
  have hshort : decide (event.linkedTransactionId ≤ 3) = false := by
    rw [decide_eq_false_iff_not]
    omega
  simp only [validateSingle, hexist]
  simp only [eventRole, createTransactionByEvent, Validate.gradidoTransactionRole,
    Validate.prepareContext, Validate.specificRole, Validate.gradidoTimeoutDeferredTransferRole,
    hshort]
  rfl

/-- A timeout of a transaction that does not exist is not confirmed. -/
theorem confirm_eventRole_ne_ok {event : TransactionTriggerEvent}
    (hnone : (q.findBlockchain community).mTransactionsByNr event.linkedTransactionId = none) :
    confirm env q community (eventRole community event) ≠ .ok tx := by
  intro hconfirm
  have hbalances := (confirm_spec hconfirm).accountBalances
  simp only [roleAccountBalances, eventRole, Role.mBody, createTransactionByEvent,
    calculateAccountBalances, timeoutDeferredTransferBalances, bind_eq_ok, orThrow_eq_ok, hnone]
    at hbalances
  obtain ⟨entry, hentry, -⟩ := hbalances
  simp at hentry

end ConfirmTransaction

open ConfirmTransaction

/-- When a call throws, the blockchains are as before, but for trigger events that are not after
the date of the call and the timeouts that they produced. -/
def AtomicOnError (env : Env) (p : InMemoryProvider) (c : Call) : Prop :=
  (InMemory.createAndAddConfirmedTransaction env p c.community c.gradidoTransaction
    c.ledgerAnchor c.confirmedAt).2 ≠ .ok () →
  c.exec env p = p ∨
    ∃ es, Handled env c.community c.confirmedAt p es (c.exec env p) ∧
      ∀ e ∈ es, c.confirmedAt.lt e.targetDate = false

namespace Call

variable {env : Env} {p : InMemoryProvider} {c : Call}

/-- **A call that throws** did nothing or stopped after the loop. -/
theorem exec_of_error (hp : Logged env p) (hpending : Pending (p.findBlockchain c.community))
    (herror : (InMemory.createAndAddConfirmedTransaction env p c.community c.gradidoTransaction
      c.ledgerAnchor c.confirmedAt).2 ≠ .ok ()) :
    c.exec env p = p ∨
      ∃ es, Handled env c.community c.confirmedAt p es (c.exec env p) := by
  unfold exec
  unfold InMemory.createAndAddConfirmedTransaction depthBound at herror ⊢
  change (createAndAdd env _ false p c.community c.role).2 ≠ _ at herror
  change (createAndAdd env _ false p c.community c.role).1 = p ∨ ∃ es, Handled env c.community
    c.confirmedAt p es (createAndAdd env _ false p c.community c.role).1
  cases hrole : createRole c.role.mBody with
  | error e =>
    refine .inl ?_
    simp only [createAndAdd, hrole]
  | ok _ =>
    cases hsingle : validateSingle env p c.community false c.role with
    | error e =>
      rw [createAndAdd_of_single hrole hsingle]
      exact .inl rfl
    | ok _ =>
      obtain ⟨es, hes⟩ := handled_processTransactionTriggers hp c.community
        c.confirmedAt le_rfl
      have hlogged := (hes.swept hp hpending).logged
      rw [createAndAdd_of_ok hrole hsingle] at herror ⊢
      unfold finish at herror ⊢
      cases hconfirm : confirm env (processTransactionTriggers env
          (p.findBlockchain c.community).mTransactionTriggerEvents.length c.community
          c.role.mConfirmedAt p) c.community c.role with
      | error e => exact .inr ⟨es, hes⟩
      | ok tx =>
        rw [hconfirm] at herror
        exact absurd ((confirm_spec hconfirm).addToBlockchain_ok hlogged rfl) herror

end Call

section Error

variable {env : Env} {p : InMemoryProvider} {community : ℕ} {confirmedAt : Timestamp}

/-- A timeout of a transaction that does not exist fails after the loop, which also takes the later
events of the same second. -/
theorem noneLate_of_atomicOnError (hp : Logged env p)
    (hpending : Pending (p.findBlockchain community))
    (hatomic : ∀ tx ledgerAnchor,
      AtomicOnError env p ⟨community, tx, ledgerAnchor, confirmedAt⟩) :
    NoneLate p community confirmedAt := by
  intro e he hsecond
  obtain ⟨es, hes⟩ := handled_processTransactionTriggers hp community
    confirmedAt le_rfl
  have hswept := hes.swept hp hpending
  generalize hq : processTransactionTriggers env (events p community).length community
    confirmedAt p = q at hes hswept
  obtain ⟨event, rfl, hnr⟩ : ∃ event : TransactionTriggerEvent,
      event.targetDate = confirmedAt ∧
        event.linkedTransactionId = (q.findBlockchain community).history.length + 4 :=
    ⟨⟨_, confirmedAt⟩, rfl, rfl⟩
  have hsingle : validateSingle env p community false (eventRole community event) = .ok () := by
    refine validateSingle_eventRole (by omega) ?_ false
    intro last hlast
    have hlater := hpending.later last hlast e he
    rw [Timestamp.lt_iff]
    omega
  have hnone : (q.findBlockchain community).mTransactionsByNr event.linkedTransactionId =
      none := by
    cases hold : (q.findBlockchain community).mTransactionsByNr event.linkedTransactionId with
    | none => rfl
    | some t =>
      obtain ⟨ht, hid⟩ := (hswept.logged.represents community).mem_of_byNr hold
      have hle := ((hswept.logged.represents community).id_le_length ht).2
      omega
  have hresult : ∃ e', createAndAdd env (depthBound p community) false p community
      (eventRole community event) = (q, .error e') := by
    unfold depthBound
    have hq' : processTransactionTriggers env
        (p.findBlockchain community).mTransactionTriggerEvents.length community
        (eventRole community event).mConfirmedAt p = q := hq
    rw [createAndAdd_of_ok rfl hsingle, hq', finish]
    cases hconfirm : confirm env q community (eventRole community event) with
    | error e' => exact ⟨e', rfl⟩
    | ok tx => exact absurd hconfirm (confirm_eventRole_ne_ok hnone)
  obtain ⟨e', he'⟩ := hresult
  have hexec : Call.exec env p ⟨community, createTransactionByEvent community event,
      .nodeTrigger event.linkedTransactionId, event.targetDate⟩ = q :=
    congrArg Prod.fst he'
  have hcall := hatomic (createTransactionByEvent community event)
    (.nodeTrigger event.linkedTransactionId) (by
      rw [show (InMemory.createAndAddConfirmedTransaction env p community _ _ _).2 = .error e'
        from congrArg Prod.snd he']
      simp)
  rw [hexec] at hcall
  rcases hcall with rfl | ⟨es', hes', hdue⟩
  · -- the late event is still there, so the loop has not ended
    have hlater := hpending.of_nextEvent_eq_none hswept.stopped e he
    omega
  · exact hdue e ((hes'.swept hp hpending).mem_iff.2 ⟨he, le_of_eq hsecond⟩)

theorem NoneLate.atomicOnError (hlate : NoneLate p community confirmedAt) (hp : Logged env p)
    (hpending : Pending (p.findBlockchain community)) (tx : GradidoTransaction)
    (ledgerAnchor : LedgerAnchor) :
    AtomicOnError env p ⟨community, tx, ledgerAnchor, confirmedAt⟩ := by
  intro herror
  refine (Call.exec_of_error hp hpending herror).imp_right ?_
  rintro ⟨es, hes⟩
  refine ⟨es, hes, ?_⟩
  intro e he
  obtain ⟨hmem, hdue⟩ := (hes.swept hp hpending).mem_iff.1 he
  exact hlate.not_lt hmem hdue

end Error

namespace Sample

/-- Account `11` pays account `21` more than it has, at one o'clock sharp. -/
def overdraftAtOne : Call :=
  { call 5 0 (transaction 3601 (signedByKey 11) [memo]
      (.transfer ⟨⟨11, 1000, 1⟩, 21⟩)) with
    confirmedAt := ⟨midnight + 43200 + 3600, 0⟩ }

end Sample

end Gradido
