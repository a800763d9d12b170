import GradidoBlockchain.Chain.Balance
import GradidoBlockchain.Chain.Trigger
import GradidoBlockchain.Chain.Window

/-!
# Replay

`isTransactionExist` compares a transaction only with those that were confirmed
at the same date, so a transaction that is submitted again with a later date is
confirmed again.  What it does exclude is proved here: when all submissions of a
transaction to a blockchain carry one date, the chain holds it at most once.
Timeouts are left to the trigger events, which fire once.
-/

namespace Gradido

open Checked ConfirmTransaction TransactionsIndex

/-! ### Equal transactions -/

theorem SignatureMap.isTheSame_symm {shorthash : SignaturePair → ℤ} {a b : SignatureMap}
    (h : a.isTheSame shorthash b = true) : b.isTheSame shorthash a = true := by
  obtain ⟨ps, hps⟩ := a
  obtain ⟨qs, hqs⟩ := b
  unfold isTheSame at h ⊢
  dsimp only at h ⊢
  by_cases hlength : ps.length = qs.length
  swap
  · simp [hlength] at h
  rw [if_neg (not_not.2 hlength)] at h
  rw [if_neg (not_not.2 hlength.symm)]
  split at h
  · simpa [eq_comm] using h
  · next hps' hqs' hsingle =>
    simp only [List.all_eq_true, decide_eq_true_eq] at h
    -- the pairs are the same, and no two have one hash
    have hsub : qs ⊆ ps := fun q hq => List.mem_of_find?_eq_some (h q hq)
    have hperm : qs.Perm ps :=
      (List.subperm_of_subset (List.Nodup.of_map _ hqs) hsub).perm_of_length_le (by omega)
    have hinj : ∀ p ∈ ps, ∀ q ∈ ps, shorthash p = shorthash q → p = q := by
      intro p hp q hq heq
      have hfindp := h p (hperm.mem_iff.2 hp)
      have hfindq := h q (hperm.mem_iff.2 hq)
      rw [heq, hfindq, Option.some.injEq] at hfindp
      exact hfindp.symm
    have hall : ∀ p ∈ ps, ownHash shorthash qs (shorthash p) = some p := by
      intro p hp
      cases hfind : ownHash shorthash qs (shorthash p) with
      | none =>
        unfold ownHash at hfind
        have hnone := List.find?_eq_none.1 hfind p (hperm.mem_iff.2 hp)
        simp at hnone
      | some q =>
        have hhash := List.find?_some hfind
        rw [hinj q (hsub (List.mem_of_find?_eq_some hfind)) p hp (by simpa using hhash)]
    split
    · next p q =>
      exact absurd rfl (hsingle _ _ rfl)
    · simpa using hall

namespace GradidoTransaction

variable {env : Env} {a b : GradidoTransaction}

theorem isTheSame_symm (h : a.isTheSame env b = true) : b.isTheSame env a = true := by
  simp only [isTheSame, Bool.and_eq_true, decide_eq_true_eq] at h ⊢
  exact ⟨SignatureMap.isTheSame_symm h.1, h.2.1.symm, h.2.2.symm⟩

theorem body_eq_of_isTheSame (h : a.isTheSame env b = true) : a.body = b.body := by
  simp only [isTheSame, Bool.and_eq_true, decide_eq_true_eq] at h
  exact h.2.1

end GradidoTransaction

/-! ### The search for a duplicate -/

namespace InMemory

variable {s : InMemory}

/-- A search from the end that only dismisses later transactions does not miss one that it
accepts. -/
theorem collect_eq_singleton {f : Filter} (hsize : f.pagination.size = 0)
    {e : ConfirmedTransaction} (he : s.mTransactionsByNr e.id = some e)
    (haccept : f.matchesFound e = .USE_STOP)
    (hlater : ∀ nr tx, s.mTransactionsByNr nr = some tx → e.id < nr →
      f.matchesFound tx = .USE_STOP ∨ f.matchesFound tx = .DISMISS)
    {nrs : List ℕ} (hsorted : nrs.Pairwise (· > ·)) (hmem : e.id ∈ nrs)
    (hstored : ∀ nr ∈ nrs, ∃ tx, s.mTransactionsByNr nr = some tx) :
    ∃ tx, s.collect f nrs [] = .ok [tx] := by
  induction nrs with
  | nil => simp at hmem
  | cons nr nrs ih =>
    obtain ⟨hgt, hsorted⟩ := List.pairwise_cons.1 hsorted
    obtain ⟨tx, htx⟩ := hstored nr List.mem_cons_self
    have hcapacity : f.pagination.hasCapacityLeft 0 = true := by
      simp [Pagination.hasCapacityLeft, hsize]
    by_cases hnr : nr = e.id
    · subst hnr
      refine ⟨e, ?_⟩
      simp [collect, hcapacity, he, haccept, FilterResult.USE_STOP]
    · have hrest : e.id ∈ nrs := by
        rcases List.mem_cons.1 hmem with heq | hrest
        · exact absurd heq.symm hnr
        · exact hrest
      rcases hlater nr tx htx (hgt e.id hrest) with hstop | hdismiss
      · refine ⟨tx, ?_⟩
        simp [collect, hcapacity, htx, hstop, FilterResult.USE_STOP]
      · obtain ⟨found, hfound⟩ :=
          ih hsorted hrest (fun n hn => hstored n (List.mem_cons_of_mem _ hn))
        refine ⟨found, ?_⟩
        rw [← hfound]
        simp [collect, hcapacity, htx, hdismiss, FilterResult.DISMISS]

/-- Of the transactions of a date, the search for a duplicate takes the same ones. -/
theorem matchesFound_sameTransaction {env : Env} (tx : GradidoTransaction) {date : Timestamp}
    (hpos : 0 < date.getAsTimepoint) {t : ConfirmedTransaction} (ht : t.confirmedAt = date) :
    Filter.matchesFound
      { timepointInterval := ⟨date.getAsTimepoint, date.getAsTimepoint⟩
        filterFunction := some (sameTransactionFilter env tx date) } t =
      if tx.isTheSame env t.gradidoTransaction = true then .USE_STOP else .DISMISS := by
  rw [Filter.matchesFound, if_pos]
  · simp only [Filter.applyFilterFunction, sameTransactionFilter, ht, Timestamp.lt_irrefl,
      true_and]
    simp
  · simp [Filter.matchesTimepointInterval, TimepointInterval.isInsideInterval,
      TimepointInterval.isInsideIntervalMonth, ht, timepointAsYearMonthDay, hpos.ne']

/-- **The search for a duplicate** finds a transaction that was confirmed at the date of the last
one. -/
theorem isTransactionExist_of_same {env : Env} {own : ℕ} (h : Indexed env own s)
    (hs : s.Represents own s.history) (hchained : Chained env s.history)
    (hdated : Dated s.history) {e : ConfirmedTransaction} (he : e ∈ s.history)
    (hlast : ∀ last ∈ s.mLastTransaction, last.confirmedAt = e.confirmedAt)
    (tx : GradidoTransaction) (hsame : tx.isTheSame env e.gradidoTransaction = true) :
    s.isTransactionExist env tx e.confirmedAt ≠ .ok false := by
  obtain ⟨cs, hcs⟩ := h
  obtain ⟨last, hlast'⟩ : ∃ last, s.mLastTransaction = some last := by
    rw [← Option.isSome_iff_exists, hs.last, List.getLast?_isSome]
    exact List.ne_nil_of_mem he
  have hdate := hlast last hlast'
  unfold isTransactionExist
  rw [hlast']
  dsimp only
  rw [hdate, Timestamp.lt_irrefl, if_neg (by simp)]
  split_ifs with hsameLast
  · simp
  -- the index finds the transaction among those of its day
  have hpos := (hdated e he).2
  have horder := hcs.inOrder hchained hdated
  obtain ⟨c, hc, hcompact⟩ := hcs.exists_compact he
  have hcdate : c.date = timepointAsYearMonthDay e.confirmedAt.getAsTimepoint := by
    rw [hcompact.date_eq]
    rfl
  set f : Filter :=
    { timepointInterval := ⟨e.confirmedAt.getAsTimepoint, e.confirmedAt.getAsTimepoint⟩
      filterFunction := some (sameTransactionFilter env tx e.confirmedAt) } with hf
  have hmem : ∀ nr, nr ∈ s.mTransactionsIndex.findTransactions
      (.ofFilter (env.dict.index s.mCommunityIdIndex) f s.mCommunityIdIndex) ↔ _ :=
    hcs.index.mem_findTransactions_between horder
      (f := .ofFilter (env.dict.index s.mCommunityIdIndex) f s.mCommunityIdIndex)
      (by simp [f, CompactFilter.ofFilter, Plain]) rfl rfl hpos le_rfl
      rfl (by rw [← hcdate]; exact horder.firstDate_le hc)
  have hstored : ∀ nr ∈ s.mTransactionsIndex.findTransactions
      (.ofFilter (env.dict.index s.mCommunityIdIndex) f s.mCommunityIdIndex),
      ∃ t, s.mTransactionsByNr nr = some t := by
    intro nr hnr
    obtain ⟨c', hc', rfl, -⟩ := (hmem nr).1 hnr
    obtain ⟨t, ht, hcompact'⟩ := hcs.exists_rich hc'
    exact ⟨t, hs.byNr_iff.2 ⟨ht, hcompact'.fields.1.symm⟩⟩
  have hin : e.id ∈ s.mTransactionsIndex.findTransactions
      (.ofFilter (env.dict.index s.mCommunityIdIndex) f s.mCommunityIdIndex) := by
    refine (hmem _).2 ⟨c, hc, hcompact.fields.1, ⟨.inl rfl,
      by simp [f, CompactFilter.ofFilter, WantedKey],
      .inl rfl⟩, .inl rfl, ?_⟩
    rw [hcdate, YearMonthDay.lt_def]
    omega
  have hmatches := fun t ht => @matchesFound_sameTransaction env tx _ hpos t ht
  obtain ⟨found, hfound⟩ := collect_eq_singleton (f := f) rfl (hs.byNr_id he)
    (by rw [hmatches e rfl, if_pos hsame]) (by
      intro nr t ht hgt
      obtain ⟨hmem', rfl⟩ := hs.mem_of_byNr ht
      have hnotlt := hchained.not_lt_of_id_le hs he hmem' hgt.le
      have hnotgt := hchained.not_lt_of_getLast (by rw [← hs.last]; exact hlast') hmem'
      rw [hdate] at hnotgt
      rw [hmatches t (Timestamp.eq_of_not_lt hnotlt hnotgt)]
      split_ifs
      · exact .inl rfl
      · exact .inr rfl)
    (findTransactions_sorted _ rfl rfl) hin hstored
  have hfindOne : s.findOne env f = .ok (some found) := by
    unfold findOne findAll findAllWith
    rw [hfound, ok_bind]
    rfl
  rw [hfindOne, ok_bind]
  simp [pure, Except.pure]

end InMemory

/-! ### Events fire once -/

/-- No call submits a timeout; that is left to the trigger events. -/
def NoTimeouts (calls : List Call) : Prop :=
  ∀ c ∈ calls, c.gradidoTransaction.body.transactionType ≠ .timeoutDeferredTransfer

instance {calls : List Call} : Decidable (NoTimeouts calls) :=
  inferInstanceAs (Decidable (∀ c ∈ calls, _))

namespace ConfirmTransaction

/-- Every pending event belongs to a transaction of its own, which has no timeout yet. -/
structure EventsFresh (events : List TransactionTriggerEvent) (h : List ConfirmedTransaction) :
    Prop where
  nodup : (events.map TransactionTriggerEvent.linkedTransactionId).Nodup
  known : ∀ event ∈ events, event.linkedTransactionId ≤ h.length
  pending : ∀ event ∈ events, ∀ tx ∈ h,
    tx.body.specific ≠ .timeoutDeferredTransfer event.linkedTransactionId
  settled : ∀ tx ∈ h, ∀ nr, tx.body.specific = .timeoutDeferredTransfer nr → nr ≤ h.length

namespace EventsFresh

variable {es es' : List TransactionTriggerEvent} {h : List ConfirmedTransaction}
  {tx : ConfirmedTransaction}

theorem sublist (hes : EventsFresh es h) (hsub : List.Sublist es' es) : EventsFresh es' h where
  nodup := hes.nodup.sublist (hsub.map _)
  known := fun event hevent => hes.known event (hsub.subset hevent)
  pending := fun event hevent => hes.pending event (hsub.subset hevent)
  settled := hes.settled

/-- A transaction that is no timeout of a pending event leaves the events fresh. -/
theorem append (hes : EventsFresh es h)
    (hpending : ∀ event ∈ es, tx.body.specific ≠
      .timeoutDeferredTransfer event.linkedTransactionId)
    (hsettled : ∀ nr, tx.body.specific = .timeoutDeferredTransfer nr → nr ≤ h.length) :
    EventsFresh es (h ++ [tx]) where
  nodup := hes.nodup
  known := by
    intro event hevent
    have hle := hes.known event hevent
    rw [List.length_append]
    omega
  pending := by
    intro event hevent t ht
    rcases List.mem_append.1 ht with ht | ht
    · exact hes.pending event hevent t ht
    · rw [List.mem_singleton.1 ht]
      exact hpending event hevent
  settled := by
    intro t ht nr hnr
    rw [List.length_append]
    rcases List.mem_append.1 ht with ht | ht
    · have hle := hes.settled t ht nr hnr
      omega
    · rw [List.mem_singleton.1 ht] at hnr
      have hle := hsettled nr hnr
      omega

/-- The event of the last transaction is new. -/
theorem insertEvent (hes : EventsFresh es h) {event : TransactionTriggerEvent}
    (htx : ∀ nr, tx.body.specific ≠ .timeoutDeferredTransfer nr)
    (hevent : event.linkedTransactionId = h.length + 1) :
    EventsFresh (InMemory.insertEvent event es) (h ++ [tx]) := by
  have happend := hes.append (fun e _ => htx _) (fun nr hnr => absurd hnr (htx nr))
  have hperm := InMemory.perm_insertEvent event es
  have hmem : ∀ e ∈ InMemory.insertEvent event es, e = event ∨ e ∈ es := fun e he =>
    List.mem_cons.1 (hperm.subset he)
  refine ⟨?_, ?_, ?_, happend.settled⟩
  · rw [(hperm.map _).nodup_iff, List.map_cons, List.nodup_cons]
    refine ⟨?_, hes.nodup⟩
    intro hin
    obtain ⟨e, he, heq⟩ := List.mem_map.1 hin
    have hle := hes.known e he
    omega
  · intro e he
    rcases hmem e he with rfl | he
    · rw [hevent]
      simp
    · exact happend.known e he
  · intro e he t ht
    rcases hmem e he with rfl | he
    · rcases List.mem_append.1 ht with ht | ht
      · intro hnr
        have hle := hes.settled t ht _ hnr
        omega
      · rw [List.mem_singleton.1 ht]
        exact htx _
    · exact happend.pending e he t ht

end EventsFresh

/-- A role that a call submits is no timeout. -/
theorem specific_ne_timeout {calls : List Call} (hcalls : NoTimeouts calls) {community : ℕ}
    {role : Role} (h : CalledRole calls community role) (nr : ℕ) :
    role.mBody.specific ≠ .timeoutDeferredTransfer nr := by
  obtain ⟨c, hc, -, rfl⟩ := h
  intro hnr
  refine hcalls c hc ?_
  have hspecific : c.gradidoTransaction.body.specific = .timeoutDeferredTransfer nr := hnr
  rw [TransactionBody.transactionType, hspecific]

/-- The events that are left when an event is taken up belong to other transactions. -/
theorem EventsFresh.linked_ne {p : InMemoryProvider} {community : ℕ}
    {h : List ConfirmedTransaction} (hes : EventsFresh (events p community) h)
    {event : TransactionTriggerEvent} (hevent : event ∈ events p community) :
    ∀ e ∈ events (dropEvent p community event) community,
      e.linkedTransactionId ≠ event.linkedTransactionId := by
  intro e he heq
  rw [events_dropEvent, List.mem_filter] at he
  have hsame := List.inj_on_of_nodup_map hes.nodup he.1 hevent heq
  simp [hsame] at he

/-- **Every event fires at most once.** -/
theorem Reachable.eventsFresh {env : Env} {calls : List Call} (hcalls : NoTimeouts calls)
    {p : InMemoryProvider} (h : Reachable env (CalledRole calls) p) :
    ∀ i, EventsFresh (events p i) (p.findBlockchain i).history := by
  refine h.chain_invariant
    (P := fun p => ∀ i, EventsFresh (events p i) (p.findBlockchain i).history) ?_ ?_ ?_
  · intro i
    refine ⟨List.nodup_nil, ?_, ?_, ?_⟩
    · intro event hevent
      exact absurd hevent List.not_mem_nil
    · intro event hevent
      exact absurd hevent List.not_mem_nil
    · intro tx htx
      exact absurd htx List.not_mem_nil
  · intro community endDate event p hreach hp _ i
    rw [hreach.logged.history_dropEvent]
    by_cases hi : i = community
    · subst hi
      rw [events_dropEvent]
      exact (hp i).sublist List.filter_sublist
    · rw [events, findBlockchain_dropEvent_of_ne _ _ hi]
      exact hp i
  · intro community role p q tx hreachp hp hreach hq htriggered htx hb horigin i
    by_cases hi : i ≠ community
    · rw [events, findBlockchain_added_of_ne _ _ _ hi]
      exact hq i
    rw [not_not] at hi
    subst hi
    have hid := hreach.logged.id_eq hb
    rw [hreach.logged.history_added hb]
    cases horigin with
    | call hrole =>
      have hno : ∀ nr, tx.body.specific ≠ .timeoutDeferredTransfer nr := by
        rw [← hb.body_eq]
        exact specific_ne_timeout hcalls hrole
      have happend := (hq i).append (fun event _ => hno _) (fun nr hnr => absurd hnr (hno nr))
      rw [events, findBlockchain_added]
      obtain ⟨es, heq, hcases⟩ := InMemory.addToBlockchain_cases env (q.findBlockchain i) tx
      rw [heq]
      rcases hcases with rfl | ⟨d, -, rfl⟩ | ⟨r, event, -, -, rfl⟩
      · exact happend
      · exact (hq i).insertEvent hno hid
      · exact happend.sublist List.filter_sublist
    | @event p₀ endDate event hp₀ hevent =>
      obtain ⟨-, hfired⟩ := htriggered.fired hreachp.logged
      have hspecific : tx.body.specific =
          .timeoutDeferredTransfer event.linkedTransactionId := by
        rw [← hb.body_eq]
        rfl
      have hmem := mem_events_of_nextEvent hevent
      have hne := (hp₀.2 i).linked_ne hmem
      rw [events_added_timeout hspecific]
      refine (hq i).append ?_ ?_
      · intro e he hnr
        rw [hspecific, Specific.timeoutDeferredTransfer.injEq] at hnr
        exact hne e (hfired.events.subset he) hnr.symm
      · intro nr hnr
        rw [hspecific, Specific.timeoutDeferredTransfer.injEq] at hnr
        have hle := (hp₀.2 i).known event hmem
        obtain ⟨l, hl, -⟩ := hfired.history
        rw [hp₀.1.logged.history_dropEvent] at hl
        rw [hl, List.length_append]
        omega

end ConfirmTransaction

/-! ### Main results -/

/-- All submissions of a transaction to a blockchain carry one date. -/
def OneDate (env : Env) (calls : List Call) : Prop :=
  ∀ c ∈ calls, ∀ c' ∈ calls, c.community = c'.community →
    c.gradidoTransaction.isTheSame env c'.gradidoTransaction = true →
    c.confirmedAt = c'.confirmedAt

instance {env : Env} {calls : List Call} : Decidable (OneDate env calls) :=
  inferInstanceAs (Decidable (∀ c ∈ calls, ∀ c' ∈ calls, _))

/-- A transaction is none of those before it. -/
def NotRepeated (env : Env) (pre : List ConfirmedTransaction) (tx : ConfirmedTransaction) : Prop :=
  ∀ e ∈ pre, tx.gradidoTransaction.isTheSame env e.gradidoTransaction = false

/-- No two transactions of a blockchain carry the same Gradido transaction. -/
def NoReplay (env : Env) (s : InMemory) : Prop :=
  ∀ nr nr' tx tx', s.mTransactionsByNr nr = some tx → s.mTransactionsByNr nr' = some tx' →
    tx.gradidoTransaction.isTheSame env tx'.gradidoTransaction = true → nr = nr'

namespace ConfirmTransaction

variable {env : Env} {calls : List Call}

/-- A transaction of a run that is no timeout was submitted by a call. -/
theorem Reachable.submitted {p : InMemoryProvider} (h : Reachable env (CalledRole calls) p) :
    ∀ i, ∀ tx ∈ (p.findBlockchain i).history,
      (∃ c ∈ calls, c.community = i ∧ tx.gradidoTransaction = c.gradidoTransaction ∧
        tx.confirmedAt = c.confirmedAt) ∨
      ∃ nr, tx.body.specific = .timeoutDeferredTransfer nr := by
  refine h.forall_confirmed (Q := fun _ i tx =>
    (∃ c ∈ calls, c.community = i ∧ tx.gradidoTransaction = c.gradidoTransaction ∧
      tx.confirmedAt = c.confirmedAt) ∨
    ∃ nr, tx.body.specific = .timeoutDeferredTransfer nr) (fun _ _ _ _ _ hq => hq) ?_
  intro community role p q tx _ _ hb horigin
  cases horigin with
  | call hrole =>
    obtain ⟨c, hc, hcommunity, rfl⟩ := hrole
    exact .inl ⟨c, hc, hcommunity, hb.gradidoTransaction, hb.confirmedAt⟩
  | @event p₀ endDate event _ _ =>
    refine .inr ⟨event.linkedTransactionId, ?_⟩
    rw [← hb.body_eq]
    rfl

/-- A transaction that a call submits is not repeated. -/
theorem Confirms.notRepeated_call (honce : OneDate env calls) (htimeouts : NoTimeouts calls)
    {community : ℕ} {role : Role} {p q : InMemoryProvider} {tx : ConfirmedTransaction}
    (h : Confirms env community role p q tx) (hb : Built env q community role tx)
    (hrole : CalledRole calls community role) (hp : Reachable env (CalledRole calls) p)
    (htriggered : Triggered env community p q)
    (hlog : IndexableLog env community (p.findBlockchain community).history)
    (hdated : Dated (p.findBlockchain community).history) :
    NotRepeated env (q.findBlockchain community).history tx := by
  have hno := specific_ne_timeout htimeouts hrole
  obtain ⟨c, hc, hcommunity, rfl⟩ := hrole
  have hs := hp.logged.represents community
  have hchained := hp.logged.chained community
  obtain ⟨hlogged, hfired⟩ := htriggered.fired hp.logged
  obtain ⟨l, hl, htimeout⟩ := hfired.history
  intro e he
  by_contra hsame
  rw [Bool.not_eq_false] at hsame
  have hbody := GradidoTransaction.body_eq_of_isTheSame hsame
  rw [hb.gradidoTransaction] at hsame
  -- the duplicate is no timeout, so it was there before the trigger events
  have he' : e ∈ (p.findBlockchain community).history := by
    rw [hl] at he
    rcases List.mem_append.1 he with he | he
    · exact he
    · obtain ⟨event, -, hspecific⟩ := htimeout e he
      refine absurd ?_ (hno event.linkedTransactionId)
      rw [hb.body_eq, ← hspecific, ConfirmedTransaction.body, hbody]
      rfl
  obtain ⟨c', hc', hcommunity', hgtx, hdate⟩ | ⟨nr, hnr⟩ := hp.submitted community e he'
  · rw [hgtx] at hsame
    have hsameDate : c.confirmedAt = c'.confirmedAt :=
      honce c hc c' hc' (hcommunity.trans hcommunity'.symm) hsame
    have htxDate : tx.confirmedAt = e.confirmedAt := by
      rw [hdate, ← hsameDate, hb.confirmedAt]
      rfl
    -- so the last transaction has the date of the duplicate
    have hlast : ∀ last ∈ (p.findBlockchain community).mLastTransaction,
        last.confirmedAt = e.confirmedAt := by
      intro last hlast
      have hmem := hs.last_mem hlast
      have hafter : last.confirmedAt.lt e.confirmedAt = false := by
        refine hchained.not_lt_of_getLast ?_ he'
        rw [← hs.last]
        exact hlast
      have hbefore : tx.confirmedAt.lt last.confirmedAt = false := by
        have hq := hlogged.represents community
        have hmemq : last ∈ (q.findBlockchain community).history := by
          rw [hl]
          exact List.mem_append_left _ hmem
        obtain ⟨lastq, hlastq⟩ : ∃ t, (q.findBlockchain community).mLastTransaction = some t := by
          rw [← Option.isSome_iff_exists, hq.last, List.getLast?_isSome]
          exact List.ne_nil_of_mem hmemq
        refine Timestamp.le_trans_of_not_lt ?_ (hb.order lastq hlastq)
        refine (hlogged.chained community).not_lt_of_getLast ?_ hmemq
        rw [← hq.last]
        exact hlastq
      rw [htxDate] at hbefore
      exact Timestamp.eq_of_not_lt hafter hbefore
    obtain ⟨disableVerify, hsingle⟩ := h.single
    simp only [validateSingle, bind_eq_ok, exists_unit, throwIf_eq_ok] at hsingle
    obtain ⟨-, exist, hexist, rfl⟩ := hsingle
    refine InMemory.isTransactionExist_of_same (hp.indexed community hlog) hs hchained hdated he'
      hlast c.gradidoTransaction (by rw [hgtx]; exact hsame) ?_
    rw [← hexist, ← htxDate, hb.confirmedAt]
    rfl
  · refine hno nr ?_
    rw [hb.body_eq, ← hnr, ConfirmedTransaction.body, hbody]
    rfl

/-- The timeout of an event is not repeated. -/
theorem Built.notRepeated_event {community : ℕ} {p₀ q : InMemoryProvider}
    {event : TransactionTriggerEvent} {tx : ConfirmedTransaction}
    (hb : Built env q community (eventRole community event) tx)
    (hp₀ : Logged env p₀) (hmem : event ∈ events p₀ community)
    (hfresh : EventsFresh (events p₀ community) (p₀.findBlockchain community).history)
    (htriggered : Triggered env community (dropEvent p₀ community event) q) :
    NotRepeated env (q.findBlockchain community).history tx := by
  obtain ⟨-, hfired⟩ := htriggered.fired (hp₀.dropEvent community event)
  obtain ⟨l, hl, htimeout⟩ := hfired.history
  rw [hp₀.history_dropEvent] at hl
  have hspecific : tx.body.specific = .timeoutDeferredTransfer event.linkedTransactionId := by
    rw [← hb.body_eq]
    rfl
  intro e he
  by_contra hsame
  rw [Bool.not_eq_false] at hsame
  have hbody : e.body.specific = .timeoutDeferredTransfer event.linkedTransactionId := by
    rw [← hspecific, ConfirmedTransaction.body, ConfirmedTransaction.body,
      GradidoTransaction.body_eq_of_isTheSame hsame]
  rw [hl] at he
  rcases List.mem_append.1 he with he | he
  · exact hfresh.pending event hmem e he hbody
  · obtain ⟨event', hevent', hspecific'⟩ := htimeout e he
    rw [hspecific', Specific.timeoutDeferredTransfer.injEq] at hbody
    exact hfresh.linked_ne hmem event' hevent' hbody

/-- No transaction of a run is repeated. -/
theorem Reachable.notRepeated (honce : OneDate env calls) (htimeouts : NoTimeouts calls)
    {p : InMemoryProvider} (h : Reachable env (CalledRole calls) p) :
    ∀ i, IndexableLog env i (p.findBlockchain i).history → Dated (p.findBlockchain i).history →
      AlongPrefixes (NotRepeated env) (p.findBlockchain i).history := by
  refine h.chain_invariant (P := fun p => ∀ i, IndexableLog env i (p.findBlockchain i).history →
    Dated (p.findBlockchain i).history →
    AlongPrefixes (NotRepeated env) (p.findBlockchain i).history) ?_ ?_ ?_
  · intro i _ _
    exact alongPrefixes_nil _
  · intro community endDate event p hreach hp _ i
    rw [hreach.logged.history_dropEvent]
    exact hp i
  · intro community role p q tx hreachp _ hreach hq htriggered htx hb horigin i hlog hdated
    by_cases hi : i ≠ community
    · rw [findBlockchain_added_of_ne _ _ _ hi] at hlog hdated ⊢
      exact hq i hlog hdated
    rw [not_not] at hi
    subst hi
    rw [hreach.logged.history_added hb] at hlog hdated ⊢
    have hdatedq : Dated (q.findBlockchain i).history := fun t ht =>
      hdated t (List.mem_append_left _ ht)
    refine alongPrefixes_concat.2 ⟨hq i hlog.of_append hdatedq, ?_⟩
    cases horigin with
    | call hrole =>
      obtain ⟨l, hl, -⟩ := (htriggered.fired hreachp.logged).2.history
      refine htx.notRepeated_call honce htimeouts hb hrole hreachp htriggered ?_ ?_
      · rw [hl] at hlog
        exact hlog.of_append.of_append
      · intro t ht
        refine hdatedq t ?_
        rw [hl]
        exact List.mem_append_left _ ht
    | event hp₀ hevent =>
      exact hb.notRepeated_event hp₀.1.logged (mem_events_of_nextEvent hevent)
        (hp₀.1.eventsFresh htimeouts i) htriggered

end ConfirmTransaction

/-- **No replay.**  When all submissions of a transaction to a blockchain carry one date and
timeouts are left to the trigger events, a blockchain whose transactions are within the limits of
the index and properly dated holds no transaction twice. -/
theorem run_noReplay (env : Env) (calls : List Call) (honce : OneDate env calls)
    (htimeouts : NoTimeouts calls) (community : ℕ)
    (hlog : IndexableLog env community ((run env calls).findBlockchain community).history)
    (hdated : Dated ((run env calls).findBlockchain community).history) :
    NoReplay env ((run env calls).findBlockchain community) := by
  have hreach := reachable_run env calls
  have hs := hreach.logged.represents community
  have hall := hreach.notRepeated honce htimeouts community hlog hdated
  intro nr nr' tx tx' htx htx' hsame
  obtain ⟨hmem, rfl⟩ := hs.mem_of_byNr htx
  obtain ⟨hmem', rfl⟩ := hs.mem_of_byNr htx'
  -- the later one of two equal transactions would be repeated
  have hlater : ∀ a ∈ ((run env calls).findBlockchain community).history,
      ∀ b ∈ ((run env calls).findBlockchain community).history,
      b.gradidoTransaction.isTheSame env a.gradidoTransaction = true → ¬ a.id < b.id := by
    intro a ha b hb hab hlt
    obtain ⟨k, hk⟩ := List.getElem?_of_mem ha
    obtain ⟨l, hl⟩ := List.getElem?_of_mem hb
    have hidk := hs.id k a hk
    have hidl := hs.id l b hl
    have hin : a ∈ (((run env calls).findBlockchain community).history).take l := by
      refine List.mem_of_getElem? (i := k) ?_
      rw [List.getElem?_take_of_lt (by omega), hk]
    rw [hall.getElem? hl a hin] at hab
    simp at hab
  have h1 := hlater tx hmem tx' hmem' (GradidoTransaction.isTheSame_symm hsame)
  have h2 := hlater tx' hmem' tx hmem hsame
  omega

namespace Sample

/-- A transfer of ten cents, created a minute before noon. -/
def smallTransfer : GradidoTransaction :=
  transaction 60 (signedByKey 11) [memo] (.transfer ⟨⟨11, 10, 1⟩, 21⟩)

/-- The transfer is submitted at noon and a second later. -/
def replayed : List Call :=
  setup ++ [call 4 0 smallTransfer, call 5 1 smallTransfer]

/-- The transfer is submitted at noon, twice. -/
def submittedTwice : List Call :=
  setup ++ [call 4 0 smallTransfer, call 5 0 smallTransfer]

end Sample

/-- The transfer that is submitted again a second later is confirmed again. -/
theorem replayed_not_noReplay :
    ¬ NoReplay Sample.env ((run Sample.env Sample.replayed).findBlockchain 1) := by
  have hsame : ((((run Sample.env Sample.replayed).findBlockchain 1).mTransactionsByNr 4).bind
      (fun tx => (((run Sample.env Sample.replayed).findBlockchain 1).mTransactionsByNr 5).map
        (fun tx' => tx.gradidoTransaction.isTheSame Sample.env tx'.gradidoTransaction))) =
      some true := by
    decide +kernel
  generalize run Sample.env Sample.replayed = p at *
  intro h
  obtain ⟨tx, htx, hsame⟩ := Option.bind_eq_some_iff.1 hsame
  obtain ⟨tx', htx', hsame⟩ := Option.map_eq_some_iff.1 hsame
  have heq := h 4 5 tx tx' htx htx' hsame
  omega

/-- The transfer that is submitted again with the same date is not. -/
theorem submittedTwice_noReplay :
    ((run Sample.env Sample.submittedTwice).findBlockchain 1).history.length = 4 ∧
      NoReplay Sample.env ((run Sample.env Sample.submittedTwice).findBlockchain 1) :=
  ⟨by decide +kernel, run_noReplay _ _ (by decide +kernel) (by decide) 1 (by decide +kernel)
    (by decide +kernel)⟩

end Gradido
