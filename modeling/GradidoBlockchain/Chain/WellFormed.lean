import GradidoBlockchain.Chain.Confirmed
import GradidoBlockchain.Lib.AppendLog

/-!
# Well-formed chains

The log of every reachable blockchain is a chain: the dates of confirmation do
not decrease, every running hash is computed over the transaction before, and
the community root is the first transaction and no other one.

`Reachable.chain_invariant` is the invariant rule for everything that is proved
later: it hands out reachability of all states together with what `Context::run`
guarantees.
-/

namespace Gradido

open Checked ConfirmTransaction

/-! ### Chains -/

/-- A log is a chain. -/
structure Chained (env : Env) (h : List ConfirmedTransaction) : Prop where
  order : h.Pairwise (fun a b => b.confirmedAt.lt a.confirmedAt = false)
  runningHash : ∀ k a b, h[k]? = some a → h[k + 1]? = some b →
    b.runningHash = b.calculateRunningHash env (some a)
  root : ∀ k tx, h[k]? = some tx → (tx.body.transactionType = .communityRoot ↔ k = 0)

theorem chained_nil (env : Env) : Chained env [] where
  order := .nil
  runningHash := by
    intro k a b ha
    simp at ha
  root := by
    intro k tx hk
    simp at hk

namespace Chained

variable {env : Env} {h : List ConfirmedTransaction}

/-- A chain begins with a community root. -/
theorem exists_root (hc : Chained env h) {first : ConfirmedTransaction}
    (hfirst : h.head? = some first) : ∃ r, first.body.specific = .communityRoot r := by
  rw [List.head?_eq_getElem?] at hfirst
  exact TransactionBody.exists_communityRoot ((hc.root 0 first hfirst).2 rfl)

/-- There is no other community root. -/
theorem eq_first (hc : Chained env h) {first tx : ConfirmedTransaction}
    (hfirst : h.head? = some first) (htx : tx ∈ h)
    (htype : tx.body.transactionType = .communityRoot) : tx = first := by
  obtain ⟨k, hk⟩ := List.getElem?_of_mem htx
  rw [(hc.root k tx hk).1 htype, ← List.head?_eq_getElem?, hfirst, Option.some.injEq] at hk
  exact hk.symm

/-- The last transaction is the latest one. -/
theorem not_lt_of_getLast (hc : Chained env h) {last tx : ConfirmedTransaction}
    (hlast : h.getLast? = some last) (htx : tx ∈ h) :
    last.confirmedAt.lt tx.confirmedAt = false := by
  obtain ⟨l, rfl⟩ := List.getLast?_eq_some_iff.1 hlast
  rcases List.mem_append.1 htx with hl | hl
  · exact (List.pairwise_append.1 hc.order).2.2 tx hl last (List.mem_singleton.2 rfl)
  · rw [List.mem_singleton.1 hl]
    exact Timestamp.lt_irrefl _

/-- A transaction with a larger number is not before one with a smaller number. -/
theorem not_lt_of_id_le (hc : Chained env h) {s : InMemory} {community : ℕ}
    (hs : s.Represents community h) {a b : ConfirmedTransaction} (ha : a ∈ h) (hb : b ∈ h)
    (hab : a.id ≤ b.id) : b.confirmedAt.lt a.confirmedAt = false := by
  obtain ⟨k, hk⟩ := List.getElem?_of_mem ha
  obtain ⟨l, hl⟩ := List.getElem?_of_mem hb
  have hidk := hs.id k a hk
  have hidl := hs.id l b hl
  rcases Nat.lt_or_eq_of_le (show k ≤ l by omega) with hlt | rfl
  · obtain ⟨hklt, rfl⟩ := List.getElem?_eq_some_iff.1 hk
    obtain ⟨hllt, rfl⟩ := List.getElem?_eq_some_iff.1 hl
    exact List.pairwise_iff_getElem.1 hc.order k l hklt hllt hlt
  · rw [hk, Option.some.injEq] at hl
    rw [hl]
    exact Timestamp.lt_irrefl _

/-- A chain grows by a transaction that is not before its last one, is hashed over it and is a
community root exactly when the chain is empty. -/
theorem append (hc : Chained env h) {tx : ConfirmedTransaction}
    (horder : ∀ last, h.getLast? = some last → tx.confirmedAt.lt last.confirmedAt = false)
    (hhash : tx.runningHash = tx.calculateRunningHash env h.getLast?)
    (hroot : tx.body.transactionType = .communityRoot ↔ h = []) : Chained env (h ++ [tx]) where
  order := by
    refine List.pairwise_append.2 ⟨hc.order, List.pairwise_singleton _ _, ?_⟩
    intro a ha b hb
    rw [List.mem_singleton.1 hb]
    obtain ⟨last, hlast⟩ : ∃ last, h.getLast? = some last := by
      rw [← Option.isSome_iff_exists, List.getLast?_isSome]
      exact List.ne_nil_of_mem ha
    exact Timestamp.le_trans_of_not_lt (hc.not_lt_of_getLast hlast ha) (horder last hlast)
  runningHash := by
    intro k a b ha hb
    rcases Nat.lt_trichotomy (k + 1) h.length with hlt | heq | hgt
    · rw [List.getElem?_append_left hlt] at hb
      rw [List.getElem?_append_left (by omega)] at ha
      exact hc.runningHash k a b ha hb
    · rw [List.getElem?_append_left (by omega)] at ha
      rw [heq, List.getElem?_concat_length, Option.some.injEq] at hb
      subst hb
      rw [hhash, List.getLast?_eq_getElem?, ← heq, Nat.add_sub_cancel, ha]
    · rw [List.getElem?_eq_none (by simp; omega)] at hb
      simp at hb
  root := by
    intro k t hk
    rcases Nat.lt_trichotomy k h.length with hlt | heq | hgt
    · rw [List.getElem?_append_left hlt] at hk
      exact hc.root k t hk
    · rw [heq, List.getElem?_concat_length, Option.some.injEq] at hk
      rw [← hk, hroot, heq, List.length_eq_zero_iff]
    · rw [List.getElem?_eq_none (by simp; omega)] at hk
      simp at hk

end Chained

/-! ### The community root comes first -/

namespace Validate

/-- The preparations keep a previous transaction. -/
theorem prepareContext_senderPrevious {p : InMemoryProvider} {tx : GradidoTransaction}
    {c₀ c : ContextData} (h : prepareContext p tx c₀ = .ok c) (h₀ : c₀.senderPrevious.isSome) :
    c.senderPrevious.isSome := by
  rcases prepareContext_spec h with ⟨-, rfl⟩ | ⟨other, -, -, -, -, hcase⟩
  · exact h₀
  · rcases hcase with ⟨-, -, -, hprevious⟩ | ⟨-, -, -, hprevious⟩ | ⟨-, -, -, -, hprevious⟩ <;>
      simp [hprevious, h₀]

/-- On an empty blockchain the sender stays without a previous transaction. -/
theorem prepareContext_of_empty {p : InMemoryProvider} {tx : GradidoTransaction} {s : InMemory}
    {c : ContextData} (h : prepareContext p tx (.ofSender s none) = .ok c)
    (hs : s.mLastTransaction = none) : c.senderBlockchain = s ∧ c.senderPrevious = none := by
  rcases prepareContext_spec h with ⟨-, rfl⟩ | ⟨other, -, -, -, hlast, hcase⟩
  · exact ⟨rfl, rfl⟩
  · rcases hcase with ⟨-, -, hrecipient, -⟩ | ⟨-, hsender, -, hprevious⟩ |
      ⟨-, -, -, hrecipient, -⟩
    · rw [hrecipient] at hlast
      exact absurd hs hlast
    · exact ⟨hsender, hprevious⟩
    · rw [hrecipient] at hlast
      exact absurd hs hlast

/-- Without a previous transaction every content but a community root is refused. -/
theorem specificRole_of_empty {env : Env} {type : ValidationType} {c : ContextData}
    {body : TransactionBody} (h : specificRole env type c body = .ok ())
    (haccount : type.account = true)
    (hcreation : body.transactionType = .creation → type.monthRange = true)
    (hprevious : c.senderPrevious = none)
    (hempty : ∀ nr, c.senderBlockchain.mTransactionsByNr nr = none) :
    body.transactionType = .communityRoot := by
  unfold specificRole at h
  unfold TransactionBody.transactionType at hcreation ⊢
  cases hspecific : body.specific <;>
    simp_all [gradidoTransferRole, gradidoCreationRole, registerAddressRole,
      gradidoDeferredTransferRole, gradidoRedeemDeferredTransferRole,
      gradidoTimeoutDeferredTransferRole]

end Validate

namespace ConfirmTransaction

/-- A confirmed transaction is a community root exactly when it is the first one. -/
theorem Built.root_iff {env : Env} {p : InMemoryProvider} {community : ℕ} {role : Role}
    {tx : ConfirmedTransaction} (hb : Built env p community role tx)
    {h : List ConfirmedTransaction} (hs : (p.findBlockchain community).Represents community h) :
    tx.body.transactionType = .communityRoot ↔ h = [] := by
  have hbody := hb.body_eq
  obtain ⟨c, hc⟩ := hb.accepted
  have hspecific := hc.specific
  constructor
  · intro hroot
    by_contra hne
    have hlast : (p.findBlockchain community).mLastTransaction.isSome := by
      rw [hs.last, List.getLast?_isSome]
      exact hne
    have hprevious := Validate.prepareContext_senderPrevious hc.context hlast
    obtain ⟨r, hr⟩ : ∃ r, tx.gradidoTransaction.body.specific = .communityRoot r :=
      TransactionBody.exists_communityRoot hroot
    simp only [Validate.specificRole, hr, Validate.communityRootRole, bind_eq_ok, exists_unit,
      when_eq_ok, throwIf_eq_ok, validationType, hlast, hprevious] at hspecific
    simp at hspecific
  · rintro rfl
    have hlast : (p.findBlockchain community).mLastTransaction = none := by
      rw [hs.last, List.getLast?_nil]
    by_contra hroot
    have hcontext := hc.context
    rw [hlast] at hcontext
    obtain ⟨hsender, hprevious⟩ := Validate.prepareContext_of_empty hcontext hlast
    refine hroot (Validate.specificRole_of_empty hspecific ?_ ?_ hprevious ?_)
    · simp [validationType, hbody, hroot]
    · intro hcreation
      simpa [validationType, hbody] using hcreation
    · intro nr
      rw [hsender]
      cases nr with
      | zero => exact hs.byNr_zero
      | succ k => simp [hs.byNr]

/-! ### Reachable chains -/

/-- Every blockchain stores its log, and the log is a chain. -/
structure Logged (env : Env) (p : InMemoryProvider) : Prop where
  represents : ∀ i, (p.findBlockchain i).Represents i (p.findBlockchain i).history
  chained : ∀ i, Chained env (p.findBlockchain i).history

/-- It is enough to know some log of each blockchain. -/
theorem Logged.of_represents {env : Env} {p : InMemoryProvider}
    (h : ∀ i, ∃ l, (p.findBlockchain i).Represents i l ∧ Chained env l) : Logged env p where
  represents := by
    intro i
    obtain ⟨l, hl, -⟩ := h i
    rwa [hl.history_eq]
  chained := by
    intro i
    obtain ⟨l, hl, hc⟩ := h i
    rwa [hl.history_eq]

theorem logged_empty (env : Env) : Logged env .empty :=
  .of_represents (fun i => ⟨[], InMemory.represents_empty i, chained_nil env⟩)

namespace Logged

variable {env : Env} {p : InMemoryProvider}

theorem dropEvent (hp : Logged env p) (community : ℕ) (event : TransactionTriggerEvent) :
    Logged env (dropEvent p community event) := by
  refine .of_represents ?_
  intro i
  refine ⟨_, ?_, hp.chained i⟩
  by_cases hi : i = community
  · subst hi
    rw [findBlockchain_dropEvent]
    exact (hp.represents i).removeTransactionTriggerEvent event
  · rw [findBlockchain_dropEvent_of_ne _ _ hi]
    exact hp.represents i

/-- The removal of an event changes no log. -/
theorem history_dropEvent (hp : Logged env p) (community i : ℕ)
    (event : TransactionTriggerEvent) :
    ((ConfirmTransaction.dropEvent p community event).findBlockchain i).history =
      (p.findBlockchain i).history := by
  by_cases hi : i = community
  · subst hi
    rw [findBlockchain_dropEvent]
    exact ((hp.represents i).removeTransactionTriggerEvent event).history_eq
  · rw [findBlockchain_dropEvent_of_ne _ _ hi]

/-- The number of a confirmed transaction is the next one. -/
theorem id_eq (hp : Logged env p) {community : ℕ} {role : Role} {tx : ConfirmedTransaction}
    (hb : Built env p community role tx) :
    tx.id = (p.findBlockchain community).history.length + 1 := by
  rw [hb.id, nextTransactionNr]
  cases hlast : (p.findBlockchain community).mLastTransaction with
  | none => simp [InMemory.history, hlast]
  | some last => simp [(hp.represents community).last_id hlast]

/-- A confirmed transaction extends the log of its community. -/
theorem represents_added (hp : Logged env p) {community : ℕ} {role : Role}
    {tx : ConfirmedTransaction} (hb : Built env p community role tx) :
    ((ConfirmTransaction.added env p community tx).findBlockchain community).Represents community
      ((p.findBlockchain community).history ++ [tx]) := by
  rw [findBlockchain_added]
  exact (hp.represents community).addToBlockchain env (hp.id_eq hb)

theorem history_added (hp : Logged env p) {community : ℕ} {role : Role}
    {tx : ConfirmedTransaction} (hb : Built env p community role tx) :
    ((ConfirmTransaction.added env p community tx).findBlockchain community).history =
      (p.findBlockchain community).history ++ [tx] :=
  (hp.represents_added hb).history_eq

theorem added (hp : Logged env p) {community : ℕ} {role : Role} {tx : ConfirmedTransaction}
    (hb : Built env p community role tx) : Logged env (added env p community tx) := by
  refine .of_represents ?_
  intro i
  by_cases hi : i = community
  · subst hi
    refine ⟨_, hp.represents_added hb, (hp.chained i).append ?_ ?_ ?_⟩
    · rw [← (hp.represents i).last]
      exact hb.order
    · rw [← (hp.represents i).last]
      exact hb.runningHash
    · exact hb.root_iff (hp.represents i)
  · rw [findBlockchain_added_of_ne _ _ _ hi]
    exact ⟨_, hp.represents i, hp.chained i⟩

end Logged

/-- Every reachable blockchain stores a chain. -/
theorem Reachable.logged {env : Env} {direct : ℕ → Role → Prop} {p : InMemoryProvider}
    (h : Reachable env direct p) : Logged env p := by
  refine h.invariant (logged_empty env) ?_ ?_
  · intro community endDate event p hp _
    exact hp.dropEvent community event
  · intro community role p q tx _ hq _ htx _
    exact hq.added (confirm_spec htx.confirm)

/-- **Invariant rule for chains.**  As `Reachable.invariant`, with the knowledge that all states
are reachable and with what `Context::run` guarantees. -/
theorem Reachable.chain_invariant {env : Env} {direct : ℕ → Role → Prop}
    {P : InMemoryProvider → Prop}
    (hempty : P .empty)
    (hdrop : ∀ community endDate event p, Reachable env direct p → P p →
      nextEvent (p.findBlockchain community) endDate = some event →
      P (dropEvent p community event))
    (hadd : ∀ community role p q tx, Reachable env direct p → P p → Reachable env direct q →
      P q → Triggered env community p q → Confirms env community role p q tx →
      Built env q community role tx →
      Origin direct (fun p => Reachable env direct p ∧ P p) community p role →
      P (added env q community tx))
    {p : InMemoryProvider} (h : Reachable env direct p) : P p := by
  suffices hboth : Reachable env direct p ∧ P p from hboth.2
  refine h.invariant (P := fun p => Reachable env direct p ∧ P p) ⟨.empty, hempty⟩ ?_ ?_
  · intro community endDate event p hp hevent
    exact ⟨.failed hp.1 (.drop (.refl p) hevent),
      hdrop community endDate event p hp.1 hp.2 hevent⟩
  · intro community role p q tx hp hq htriggered htx horigin
    refine ⟨?_, hadd community role p q tx hp.1 hp.2 hq.1 hq.2 htriggered htx
      (confirm_spec htx.confirm) horigin⟩
    cases horigin with
    | call hrole => exact .confirmed hp.1 hrole htriggered htx
    | event hp₁ hevent => exact .failed hp₁.1 (.fire (.refl _) hevent htriggered htx)

/-- All logs of the second state extend those of the first one. -/
def Extends (p q : InMemoryProvider) : Prop :=
  ∀ i, (p.findBlockchain i).history <+: (q.findBlockchain i).history

theorem Logged.extends_dropEvent {env : Env} {p : InMemoryProvider} (hp : Logged env p)
    (community : ℕ) (event : TransactionTriggerEvent) :
    Extends p (ConfirmTransaction.dropEvent p community event) := by
  intro i
  have heq := hp.history_dropEvent community i event
  exact ⟨[], by rw [heq, List.append_nil]⟩

theorem Logged.extends_added {env : Env} {p : InMemoryProvider} (hp : Logged env p)
    {community : ℕ} {role : Role} {tx : ConfirmedTransaction}
    (hb : Built env p community role tx) :
    Extends p (ConfirmTransaction.added env p community tx) := by
  intro i
  by_cases hi : i = community
  · subst hi
    rw [hp.history_added hb]
    exact List.prefix_append _ _
  · exact ⟨[], by rw [findBlockchain_added_of_ne _ _ _ hi, List.append_nil]⟩

/-- **Rule for the transactions of a run.**  What holds of a transaction when it is confirmed, and
does not depend on later transactions, holds of all transactions of all reachable chains. -/
theorem Reachable.forall_confirmed {env : Env} {direct : ℕ → Role → Prop}
    {Q : InMemoryProvider → ℕ → ConfirmedTransaction → Prop}
    (hmono : ∀ p q i tx, Extends p q → Q p i tx → Q q i tx)
    (hnew : ∀ community role p q tx, Reachable env direct q → Confirms env community role p q tx →
      Built env q community role tx → Origin direct (Reachable env direct) community p role →
      Q q community tx)
    {p : InMemoryProvider} (h : Reachable env direct p) :
    ∀ i, ∀ tx ∈ (p.findBlockchain i).history, Q p i tx := by
  refine h.chain_invariant (P := fun p => ∀ i, ∀ tx ∈ (p.findBlockchain i).history, Q p i tx)
    ?_ ?_ ?_
  · intro i tx htx
    simp [InMemoryProvider.empty, InMemoryProvider.findBlockchain, InMemory.empty,
      InMemory.history] at htx
  · intro community endDate event p hreach hp _ i tx htx
    rw [hreach.logged.history_dropEvent] at htx
    exact hmono _ _ _ _ (hreach.logged.extends_dropEvent community event) (hp i tx htx)
  · intro community role p q tx _ _ hreach hq _ htx hb horigin i t ht
    refine hmono _ _ _ _ (hreach.logged.extends_added hb) ?_
    have horigin' : Origin direct (Reachable env direct) community p role := by
      cases horigin with
      | call hrole => exact .call hrole
      | event hp hevent => exact .event hp.1 hevent
    by_cases hi : i = community
    · subst hi
      rw [hreach.logged.history_added hb] at ht
      rcases List.mem_append.1 ht with ht | ht
      · exact hq i t ht
      · rw [List.mem_singleton.1 ht]
        exact hnew i role p q tx hreach htx hb horigin'
    · rw [findBlockchain_added_of_ne _ _ _ hi] at ht
      exact hq i t ht

/-- **Rule for the logs of a run.**  What holds of a transaction and the log before it, when the
transaction is confirmed, holds along all logs. -/
theorem Reachable.alongPrefixes {env : Env} {direct : ℕ → Role → Prop}
    {Q : ℕ → List ConfirmedTransaction → ConfirmedTransaction → Prop}
    (hnew : ∀ community role p q tx, Reachable env direct q → Confirms env community role p q tx →
      Built env q community role tx → Origin direct (Reachable env direct) community p role →
      Q community (q.findBlockchain community).history tx)
    {p : InMemoryProvider} (h : Reachable env direct p) :
    ∀ i, AlongPrefixes (Q i) (p.findBlockchain i).history := by
  refine h.chain_invariant (P := fun p => ∀ i, AlongPrefixes (Q i) (p.findBlockchain i).history)
    ?_ ?_ ?_
  · intro i
    exact alongPrefixes_nil _
  · intro community endDate event p hreach hp _ i
    rw [hreach.logged.history_dropEvent]
    exact hp i
  · intro community role p q tx _ _ hreach hq _ htx hb horigin i
    have horigin' : Origin direct (Reachable env direct) community p role := by
      cases horigin with
      | call hrole => exact .call hrole
      | event hp hevent => exact .event hp.1 hevent
    by_cases hi : i = community
    · subst hi
      rw [hreach.logged.history_added hb, alongPrefixes_concat]
      exact ⟨hq i, hnew i role p q tx hreach htx hb horigin'⟩
    · rw [findBlockchain_added_of_ne _ _ _ hi]
      exact hq i

/-- A trigger event is only taken up on a blockchain with transactions. -/
theorem history_ne_nil_of_nextEvent {env : Env} {p : InMemoryProvider} (hp : Logged env p)
    {community : ℕ} {endDate : Timestamp} {event : TransactionTriggerEvent}
    (h : nextEvent (p.findBlockchain community) endDate = some event) :
    (p.findBlockchain community).history ≠ [] := by
  obtain ⟨last, hlast, -⟩ := Option.bind_eq_some_iff.1 h
  exact List.ne_nil_of_mem ((hp.represents community).last_mem hlast)

/-- Only blockchains that were called have transactions. -/
theorem Reachable.called {env : Env} {calls : List Call} {p : InMemoryProvider}
    (h : Reachable env (CalledRole calls) p) :
    ∀ i, (p.findBlockchain i).history ≠ [] → ∃ c ∈ calls, c.community = i := by
  refine h.chain_invariant (P := fun p => ∀ i, (p.findBlockchain i).history ≠ [] →
    ∃ c ∈ calls, c.community = i) ?_ ?_ ?_
  · intro i hne
    exact absurd rfl hne
  · intro community endDate event p hreach hp _ i hne
    rw [hreach.logged.history_dropEvent] at hne
    exact hp i hne
  · intro community role p q tx _ _ _ hq _ _ _ horigin i hne
    by_cases hi : i = community
    · subst hi
      cases horigin with
      | call hrole =>
        obtain ⟨c, hc, hcommunity, -⟩ := hrole
        exact ⟨c, hc, hcommunity⟩
      | event hp₁ hevent =>
        exact hp₁.2 i (history_ne_nil_of_nextEvent hp₁.1.logged hevent)
    · rw [findBlockchain_added_of_ne _ _ _ hi] at hne
      exact hq i hne

end ConfirmTransaction

/-! ### The main result -/

/-- **Chain well-formedness.**  After every run of calls, successful or not, the numbers of a
blockchain are `1` to `n`, the dates do not decrease, every running hash is computed over the
transaction before, the last transaction is the one with number `n`, and the community root is
transaction one and no other. -/
theorem run_wellFormed (env : Env) (calls : List Call) (community : ℕ) :
    ∃ n, (∀ nr, (((run env calls).findBlockchain community).mTransactionsByNr nr).isSome = true ↔
        1 ≤ nr ∧ nr ≤ n) ∧
      (∀ nr tx, ((run env calls).findBlockchain community).mTransactionsByNr nr = some tx →
        tx.id = nr) ∧
      (∀ nr nr' tx tx', nr ≤ nr' →
        ((run env calls).findBlockchain community).mTransactionsByNr nr = some tx →
        ((run env calls).findBlockchain community).mTransactionsByNr nr' = some tx' →
        tx'.confirmedAt.lt tx.confirmedAt = false) ∧
      (∀ nr tx tx', ((run env calls).findBlockchain community).mTransactionsByNr nr = some tx →
        ((run env calls).findBlockchain community).mTransactionsByNr (nr + 1) = some tx' →
        tx'.runningHash = tx'.calculateRunningHash env (some tx)) ∧
      ((run env calls).findBlockchain community).mLastTransaction =
        ((run env calls).findBlockchain community).mTransactionsByNr n ∧
      (∀ nr tx, ((run env calls).findBlockchain community).mTransactionsByNr nr = some tx →
        (tx.body.transactionType = .communityRoot ↔ nr = 1)) := by
  have hlogged := (reachable_run env calls).logged
  have hs := hlogged.represents community
  have hc := hlogged.chained community
  set s := (run env calls).findBlockchain community
  refine ⟨s.history.length, ?_, ?_, ?_, ?_, ?_, ?_⟩
  · intro nr
    cases nr with
    | zero => simp [hs.byNr_zero]
    | succ k =>
      have hsome : s.history[k]?.isSome = true ↔ k < s.history.length := by simp
      rw [hs.byNr, hsome]
      omega
  · intro nr tx htx
    exact (hs.mem_of_byNr htx).2
  · intro nr nr' tx tx' hle htx htx'
    obtain ⟨hmem, rfl⟩ := hs.mem_of_byNr htx
    obtain ⟨hmem', rfl⟩ := hs.mem_of_byNr htx'
    exact hc.not_lt_of_id_le hs hmem hmem' hle
  · intro nr tx tx' htx htx'
    cases nr with
    | zero =>
      rw [hs.byNr_zero] at htx
      simp at htx
    | succ k =>
      rw [hs.byNr] at htx htx'
      exact hc.runningHash k tx tx' htx htx'
  · cases hn : s.history.length with
    | zero =>
      rw [hs.last, hs.byNr_zero, List.getLast?_eq_none_iff, ← List.length_eq_zero_iff, hn]
    | succ k => rw [hs.last, hs.byNr, List.getLast?_eq_getElem?, hn, Nat.add_sub_cancel]
  · intro nr tx htx
    cases nr with
    | zero =>
      rw [hs.byNr_zero] at htx
      simp at htx
    | succ k =>
      rw [hs.byNr] at htx
      rw [hc.root k tx htx]
      omega

end Gradido
