import GradidoBlockchain.Chain.WellFormed

/-!
# The settlement window

A deferred transfer is due `timeoutDuration` after its confirmation.  A redeem
is confirmed by then, because it has to be created two minutes before and
confirmed within two minutes.  A timeout has to be created exactly at the due
date, but nothing keeps its confirmation from coming before its creation: a
timeout that is submitted by a call, instead of being created by its trigger
event, can be confirmed early.
-/

namespace Gradido

open Checked ConfirmTransaction

/-- The blockchain that a settlement looks its deferred transfer up in: an inbound transaction
names a transaction of the other community. -/
def settledCommunity (community : ℕ) (body : TransactionBody) : ℕ :=
  if body.type = .inbound then body.otherCommunityIdIndex.getD community else community

/-- The number of the deferred transfer that a redeem or a timeout settles. -/
def settledNr (body : TransactionBody) : Option ℕ :=
  match body.specific with
  | .redeemDeferredTransfer r => some r.deferredTransferTransactionNr
  | .timeoutDeferredTransfer nr => some nr
  | _ => none

/-- When a deferred transfer is due, as a time point. -/
def dueDate (entry : ConfirmedTransaction) (d : GradidoDeferredTransfer) : ℤ :=
  entry.confirmedAt.getAsTimepoint + d.timeoutDuration * microsecondsPerSecond

/-- A settlement is confirmed on its side of the due date. -/
def InWindow (due : ℤ) (tx : ConfirmedTransaction) : Prop :=
  (tx.body.transactionType = .redeemDeferredTransfer → tx.confirmedAt.getAsTimepoint ≤ due) ∧
    (tx.body.transactionType = .timeoutDeferredTransfer → due ≤ tx.confirmedAt.getAsTimepoint)

/-- Every settlement of every chain settles a deferred transfer, and within its window. -/
def SettlementWindow (p : InMemoryProvider) : Prop :=
  ∀ community nr tx, (p.findBlockchain community).mTransactionsByNr nr = some tx →
    ∀ nrDeferred, settledNr tx.body = some nrDeferred →
      ∃ entry d, (p.findBlockchain (settledCommunity community tx.body)).mTransactionsByNr
          nrDeferred = some entry ∧
        entry.body.getDeferredTransfer = some d ∧ InWindow (dueDate entry d) tx

/-- A call submits no timeout, or one that is not created after its confirmation. -/
def TimeoutNotEarly (c : Call) : Prop :=
  c.gradidoTransaction.body.transactionType = .timeoutDeferredTransfer →
    c.gradidoTransaction.body.createdAt.getAsTimepoint ≤ c.confirmedAt.getAsTimepoint

namespace Validate

/-- The sender's blockchain is the one that a settlement refers to. -/
theorem prepareContext_senderBlockchain {p : InMemoryProvider} {tx : GradidoTransaction}
    {community : ℕ} {c : ContextData} {previous : Option ConfirmedTransaction}
    (h : prepareContext p tx (.ofSender (p.findBlockchain community) previous) = .ok c)
    (hother : tx.body.type ≠ .localGroup → tx.body.otherCommunityIdIndex ≠ none) :
    c.senderBlockchain = p.findBlockchain (settledCommunity community tx.body) := by
  unfold settledCommunity
  rcases prepareContext_spec h with ⟨hnone, rfl⟩ | ⟨other, hsome, -, -, -, hcase⟩
  · rw [if_neg]
    · rfl
    · intro hinbound
      exact hother (by simp [hinbound]) hnone
  · rcases hcase with ⟨htype, hsender, -, -⟩ | ⟨htype, hsender, -, -⟩ | ⟨htype, -, hsender, -, -⟩
    · rw [if_pos htype, hsome, hsender, Option.getD_some]
    · rw [hsender, htype, if_neg (by decide)]
      rfl
    · rw [hsender, if_neg htype]
      rfl

end Validate

namespace ConfirmTransaction

variable {env : Env} {community : ℕ} {role : Role} {p q : InMemoryProvider}
  {tx : ConfirmedTransaction}

/-- Only a community root is confirmed on an empty blockchain. -/
theorem Built.last_ne_none (hb : Built env q community role tx) (hq : Logged env q)
    (htype : tx.body.transactionType ≠ .communityRoot) :
    (q.findBlockchain community).mLastTransaction ≠ none := by
  rw [Ne, hb.root_iff (hq.represents community)] at htype
  rw [(hq.represents community).last, Ne, List.getLast?_eq_none_iff]
  exact htype

/-- A transaction that is not the first one is confirmed at most two minutes after its
creation. -/
theorem Built.confirmedAt_le (hb : Built env q community role tx) (hq : Logged env q)
    (htype : tx.body.transactionType ≠ .communityRoot) :
    tx.confirmedAt.getAsTimepoint - tx.body.createdAt.getAsTimepoint ≤
      Validate.maxTimespan * microsecondsPerSecond := by
  have hlast := hb.last_ne_none hq htype
  have hid : 1 < tx.id := by
    have hne : (q.findBlockchain community).history ≠ [] := by
      rwa [(hq.represents community).last, Ne, List.getLast?_eq_none_iff] at hlast
    have hpos := List.length_pos_of_ne_nil hne
    rw [hq.id_eq hb]
    omega
  have hprevious := hb.previous hlast
  simp only [Validate.confirmedPrevious, when_eq_ok, bind_eq_ok, exists_unit, throwIf_eq_ok,
    decide_eq_true_eq, decide_eq_false_iff_not, orThrow_eq_ok] at hprevious
  obtain ⟨_, _, _, htimespan, -⟩ := hprevious hid
  omega

/-- The blockchain that a confirmed settlement was checked against. -/
theorem Confirms.senderBlockchain (h : Confirms env community role p q tx)
    (hb : Built env q community role tx) {c : Validate.ContextData}
    (hc : Validate.Accepted env q
      (validationType role (q.findBlockchain community).mLastTransaction)
      (.ofSender (q.findBlockchain community) (q.findBlockchain community).mLastTransaction)
      tx.gradidoTransaction c) :
    c.senderBlockchain = q.findBlockchain (settledCommunity community tx.body) := by
  refine Validate.prepareContext_senderBlockchain hc.context ?_
  rw [hb.gradidoTransaction]
  exact h.otherCommunityIdIndex

/-- A confirmed redeem settles a deferred transfer to its sender that is not due yet. -/
theorem Confirms.redeem (h : Confirms env community role p q tx)
    (hb : Built env q community role tx) (hq : Logged env q)
    {r : GradidoRedeemDeferredTransfer} (hr : tx.body.specific = .redeemDeferredTransfer r) :
    ∃ entry d, (q.findBlockchain (settledCommunity community tx.body)).mTransactionsByNr
        r.deferredTransferTransactionNr = some entry ∧
      entry.body.getDeferredTransfer = some d ∧
      d.transfer.recipient = r.transfer.sender.publicKey ∧
      tx.confirmedAt.getAsTimepoint ≤ dueDate entry d := by
  have htype : tx.body.transactionType ≠ .communityRoot := by
    simp [TransactionBody.transactionType, hr]
  have hspan := hb.confirmedAt_le hq htype
  have hlast := Option.isSome_iff_ne_none.2 (hb.last_ne_none hq htype)
  obtain ⟨c, hc⟩ := hb.accepted
  have hspecific := hc.specific
  have hr' : tx.gradidoTransaction.body.specific = .redeemDeferredTransfer r := hr
  simp only [Validate.specificRole, hr', Validate.gradidoRedeemDeferredTransferRole, bind_eq_ok,
    exists_unit, when_eq_ok] at hspecific
  have hprevious := hspecific.2.1 hlast
  simp only [Validate.redeemPrevious, bind_eq_ok, orThrow_eq_ok, exists_unit, throwIf_eq_ok,
    decide_eq_false_iff_not, h.senderBlockchain hb hc] at hprevious
  obtain ⟨entry, hentry, d, hd, hrecipient, hdue⟩ := hprevious
  refine ⟨entry, d, hentry, hd, not_not.1 hrecipient, ?_⟩
  simp only [ConfirmedTransaction.body] at hspan
  unfold dueDate
  omega

/-- A confirmed timeout settles a deferred transfer, and was created at its due date. -/
theorem Confirms.timeout (h : Confirms env community role p q tx)
    (hb : Built env q community role tx) (hq : Logged env q) {nr : ℕ}
    (hnr : tx.body.specific = .timeoutDeferredTransfer nr) :
    ∃ entry d, (q.findBlockchain (settledCommunity community tx.body)).mTransactionsByNr nr =
        some entry ∧
      entry.body.getDeferredTransfer = some d ∧
      tx.body.createdAt.getAsTimepoint = dueDate entry d := by
  have htype : tx.body.transactionType ≠ .communityRoot := by
    simp [TransactionBody.transactionType, hnr]
  have hlast := Option.isSome_iff_ne_none.2 (hb.last_ne_none hq htype)
  obtain ⟨c, hc⟩ := hb.accepted
  have hspecific := hc.specific
  have hnr' : tx.gradidoTransaction.body.specific = .timeoutDeferredTransfer nr := hnr
  simp only [Validate.specificRole, hnr', Validate.gradidoTimeoutDeferredTransferRole, bind_eq_ok,
    exists_unit, when_eq_ok, orThrow_eq_ok, throwIf_eq_ok, decide_eq_false_iff_not, not_not,
    h.senderBlockchain hb hc] at hspecific
  obtain ⟨entry, hentry, d, hd, hdue⟩ := hspecific.2.1 hlast
  exact ⟨entry, d, hentry, hd, hdue⟩

/-- A confirmed timeout was not created after its confirmation, when calls do not submit such
timeouts: a trigger event creates and confirms it at the same time. -/
theorem Origin.timeout_createdAt_le {P : InMemoryProvider → Prop} {calls : List Call}
    (hcalls : ∀ c ∈ calls, TimeoutNotEarly c)
    (h : Origin (CalledRole calls) P community p role)
    (htype : role.mBody.transactionType = .timeoutDeferredTransfer) :
    role.mBody.createdAt.getAsTimepoint ≤ role.mConfirmedAt.getAsTimepoint := by
  cases h with
  | call hrole =>
    obtain ⟨c, hc, -, rfl⟩ := hrole
    exact hcalls c hc htype
  | event _ _ =>
    simp [eventRole, createTransactionByEvent, Role.mBody]

end ConfirmTransaction

/-! ### Main results -/

/-- **The settlement window.**  When no call submits a timeout that is created after its
confirmation, every redeem of every chain is confirmed by the due date of its deferred transfer,
and every timeout not before. -/
theorem run_settlementWindow (env : Env) (calls : List Call)
    (hcalls : ∀ c ∈ calls, TimeoutNotEarly c) : SettlementWindow (run env calls) := by
  have hreach := reachable_run env calls
  have hlogged := hreach.logged
  have hall := hreach.forall_confirmed (Q := fun p i tx =>
    ∀ k, settledNr tx.body = some k → ∃ entry d,
      entry ∈ (p.findBlockchain (settledCommunity i tx.body)).history ∧ entry.id = k ∧
        entry.body.getDeferredTransfer = some d ∧ InWindow (dueDate entry d) tx) ?_ ?_
  · intro community nr tx htx k hk
    obtain ⟨entry, d, hentry, hid, hd, hwindow⟩ :=
      hall community tx ((hlogged.represents community).mem_of_byNr htx).1 k hk
    exact ⟨entry, d, (hlogged.represents _).byNr_iff.2 ⟨hentry, hid⟩, hd, hwindow⟩
  · intro p q i tx hpq hp k hk
    obtain ⟨entry, d, hentry, hrest⟩ := hp k hk
    exact ⟨entry, d, (hpq _).subset hentry, hrest⟩
  · intro community role p q tx hreach' hconfirms hb horigin k hk
    have hq := hreach'.logged
    unfold settledNr at hk
    split at hk
    · next r hr =>
      obtain ⟨entry, d, hentry, hd, -, hdue⟩ := hconfirms.redeem hb hq hr
      obtain ⟨hmem, hid⟩ := (hq.represents _).mem_of_byNr hentry
      refine ⟨entry, d, hmem, hid.trans (Option.some.inj hk), hd, fun _ => hdue, ?_⟩
      intro htimeout
      simp [TransactionBody.transactionType, hr] at htimeout
    · next nr hnr =>
      obtain ⟨entry, d, hentry, hd, hcreated⟩ := hconfirms.timeout hb hq hnr
      obtain ⟨hmem, hid⟩ := (hq.represents _).mem_of_byNr hentry
      refine ⟨entry, d, hmem, hid.trans (Option.some.inj hk), hd, ?_, ?_⟩
      · intro hredeem
        simp [TransactionBody.transactionType, hnr] at hredeem
      · intro htimeout
        have hbody := hb.body_eq
        have hle := horigin.timeout_createdAt_le hcalls (by rw [hbody]; exact htimeout)
        rwa [hbody, hcreated, ← hb.confirmedAt] at hle
    · simp at hk

namespace Sample

/-- A timeout of the deferred transfer, dated to its due date but submitted an hour before. -/
def earlyTimeout : Call :=
  call 5 0 (transaction 3720 (signedBy [] (by decide)) [] (.timeoutDeferredTransfer 4))

/-- The same timeout, submitted at the due date. -/
def punctualTimeout : Call :=
  call 5 3600 (transaction 3720 (signedBy [] (by decide)) [] (.timeoutDeferredTransfer 4))

end Sample

/-- The early timeout is confirmed an hour before the deferred transfer is due. -/
theorem earlyTimeout_not_settlementWindow :
    ¬ SettlementWindow
      (run Sample.env (Sample.setup ++ [Sample.deferred, Sample.earlyTimeout])) := by
  intro hwindow
  have htx : ((((run Sample.env (Sample.setup ++ [Sample.deferred, Sample.earlyTimeout])
      ).findBlockchain 1).mTransactionsByNr 5).map (fun tx => (settledNr tx.body,
        tx.body.transactionType, settledCommunity 1 tx.body, tx.confirmedAt.getAsTimepoint))) =
      some (some 4, .timeoutDeferredTransfer, 1, 1704110400000000) := by
    decide +kernel
  have hentry : ((((run Sample.env (Sample.setup ++ [Sample.deferred, Sample.earlyTimeout])
      ).findBlockchain 1).mTransactionsByNr 4).bind (fun entry =>
        entry.body.getDeferredTransfer.map (dueDate entry))) = some 1704114000000000 := by
    decide +kernel
  obtain ⟨tx, htx, hfacts⟩ := Option.map_eq_some_iff.1 htx
  simp only [Prod.mk.injEq] at hfacts
  obtain ⟨hnr, htype, hcommunity, hconfirmedAt⟩ := hfacts
  obtain ⟨entry, d, hbyNr, hd, -, hdue⟩ := hwindow 1 5 tx htx 4 hnr
  rw [hcommunity] at hbyNr
  rw [hbyNr, Option.bind_some, hd, Option.map_some, Option.some.injEq] at hentry
  have hle := hdue htype
  rw [hentry, hconfirmedAt] at hle
  omega

/-- The punctual timeout settles the deferred transfer within its window. -/
theorem punctualTimeout_settlementWindow :
    ((((run Sample.env (Sample.setup ++ [Sample.deferred, Sample.punctualTimeout])
      ).findBlockchain 1).mTransactionsByNr 5).map (fun tx => tx.body.transactionType)) =
        some .timeoutDeferredTransfer ∧
      SettlementWindow
        (run Sample.env (Sample.setup ++ [Sample.deferred, Sample.punctualTimeout])) := by
  refine ⟨by decide +kernel, run_settlementWindow _ _ ?_⟩
  intro c hc
  simp only [Sample.setup, List.cons_append, List.nil_append, List.mem_cons, List.not_mem_nil,
    or_false] at hc
  rcases hc with rfl | rfl | rfl | rfl | rfl <;> intro htype
  all_goals first | (exact absurd htype (by decide)) | decide

end Gradido
