import GradidoBlockchain.System
import Mathlib.Data.List.Induction

/-!
# The log of a blockchain

Seen from outside, a blockchain is its log: the list of its transactions in the
order of their numbers.  `history` reads the log off the map of transactions,
`Represents` says that the map and the last transaction agree with it, and
`Reachable.represents` that they always do.  A confirmed transaction appends
itself to the log of its community and leaves all other logs alone.

`confirm_spec` takes a successful `Context::run` apart; everything that is
known about a confirmed transaction comes from there.
-/

namespace Gradido

open Checked ConfirmTransaction

namespace InMemory

/-! ### Logs -/

/-- The transactions of a blockchain in the order of their numbers. -/
def history (s : InMemory) : List ConfirmedTransaction :=
  match s.mLastTransaction with
  | none => []
  | some last => (List.range last.id).filterMap (fun k => s.mTransactionsByNr (k + 1))

/-- The blockchain of a community stores exactly a log, numbered from one on. -/
structure Represents (s : InMemory) (community : ℕ) (h : List ConfirmedTransaction) : Prop where
  community : s.mCommunityIdIndex = community
  byNr_zero : s.mTransactionsByNr 0 = none
  byNr : ∀ k, s.mTransactionsByNr (k + 1) = h[k]?
  last : s.mLastTransaction = h.getLast?
  id : ∀ k tx, h[k]? = some tx → tx.id = k + 1

theorem filterMap_getElem? {α : Type} (l : List α) :
    (List.range l.length).filterMap (fun k => l[k]?) = l := by
  induction l using List.reverseRecOn with
  | nil => rfl
  | append_singleton l a ih =>
    rw [List.length_append, List.length_singleton, List.range_succ, List.filterMap_append]
    have hcongr : (List.range l.length).filterMap (fun k => (l ++ [a])[k]?) =
        (List.range l.length).filterMap (fun k => l[k]?) := by
      refine List.filterMap_congr ?_
      intro k hk
      rw [List.getElem?_append_left (List.mem_range.1 hk)]
    rw [hcongr, ih]
    simp

namespace Represents

variable {s : InMemory} {community : ℕ} {h : List ConfirmedTransaction}

/-- The number of the last transaction is the length of the log. -/
theorem last_id (hs : s.Represents community h) {tx : ConfirmedTransaction}
    (hlast : s.mLastTransaction = some tx) : tx.id = h.length := by
  rw [hs.last, List.getLast?_eq_getElem?] at hlast
  have hid := hs.id _ _ hlast
  have hlt := (List.getElem?_eq_some_iff.1 hlast).1
  omega

theorem history_eq (hs : s.Represents community h) : s.history = h := by
  unfold history
  cases hlast : s.mLastTransaction with
  | none =>
    rw [hs.last] at hlast
    exact (List.getLast?_eq_none_iff.1 hlast).symm
  | some last =>
    simp only [hs.last_id hlast, hs.byNr]
    exact filterMap_getElem? h

/-- A transaction of the log is stored under its own number. -/
theorem byNr_id (hs : s.Represents community h) {tx : ConfirmedTransaction} (htx : tx ∈ h) :
    s.mTransactionsByNr tx.id = some tx := by
  obtain ⟨k, hk⟩ := List.getElem?_of_mem htx
  rw [hs.id k tx hk, hs.byNr, hk]

/-- What is stored under a number belongs to the log and has that number. -/
theorem mem_of_byNr (hs : s.Represents community h) {nr : ℕ} {tx : ConfirmedTransaction}
    (htx : s.mTransactionsByNr nr = some tx) : tx ∈ h ∧ tx.id = nr := by
  cases nr with
  | zero =>
    rw [hs.byNr_zero] at htx
    simp at htx
  | succ k =>
    rw [hs.byNr] at htx
    exact ⟨List.mem_of_getElem? htx, hs.id k tx htx⟩

theorem byNr_iff (hs : s.Represents community h) {nr : ℕ} {tx : ConfirmedTransaction} :
    s.mTransactionsByNr nr = some tx ↔ tx ∈ h ∧ tx.id = nr := by
  refine ⟨hs.mem_of_byNr, ?_⟩
  rintro ⟨htx, rfl⟩
  exact hs.byNr_id htx

theorem id_le_length (hs : s.Represents community h) {tx : ConfirmedTransaction} (htx : tx ∈ h) :
    1 ≤ tx.id ∧ tx.id ≤ h.length := by
  obtain ⟨k, hk⟩ := List.getElem?_of_mem htx
  have hid := hs.id k tx hk
  have hlt := (List.getElem?_eq_some_iff.1 hk).1
  omega

/-- A log is numbered upwards. -/
theorem numbered (hs : s.Represents community h) : h.Pairwise (fun a b => a.id < b.id) := by
  rw [List.pairwise_iff_getElem]
  intro i j hi hj hij
  have hidi := hs.id i _ (List.getElem?_eq_getElem hi)
  have hidj := hs.id j _ (List.getElem?_eq_getElem hj)
  omega

theorem last_mem (hs : s.Represents community h) {tx : ConfirmedTransaction}
    (hlast : s.mLastTransaction = some tx) : tx ∈ h := by
  rw [hs.last] at hlast
  exact List.mem_of_getLast? hlast

end Represents

theorem represents_empty (community : ℕ) : (empty community).Represents community [] where
  community := rfl
  byNr_zero := rfl
  byNr := fun _ => rfl
  last := rfl
  id := by
    intro k tx hk
    simp at hk

/-! ### What storing a transaction changes -/

@[simp] theorem insertNew_self {K V : Type} [DecidableEq K] {m : K → Option V} {k : K} {v : V}
    (h : m k = none) : insertNew m k v k = some v := by
  simp [insertNew, h]

theorem insertNew_of_ne {K V : Type} [DecidableEq K] (m : K → Option V) {k l : K} (v : V)
    (h : l ≠ k) : insertNew m k v l = m l := by
  unfold insertNew
  split_ifs with hk
  · rfl
  · exact Function.update_of_ne h _ _

/-- An entry of a map survives an insertion. -/
theorem insertNew_of_some {K V : Type} [DecidableEq K] {m : K → Option V} {k l : K} {v w : V}
    (h : m l = some w) : insertNew m k v l = some w := by
  unfold insertNew
  split_ifs with hk
  · exact h
  · rw [Function.update_of_ne ?_, h]
    rintro rfl
    simp [h] at hk

section Push

variable (env : Env) (s : InMemory) (tx : ConfirmedTransaction)

/-- The compact form only touches the index and the map of compact transactions. -/
theorem pushCompact_eq : ∃ idx confirmedTxByNr, s.pushCompact env tx =
    { s with mTransactionsIndex := idx, mConfirmedTxByNr := confirmedTxByNr } := by
  unfold pushCompact
  split
  · exact ⟨_, _, rfl⟩
  · split <;> exact ⟨_, _, rfl⟩

@[simp] theorem pushCompact_mCommunityIdIndex :
    (s.pushCompact env tx).mCommunityIdIndex = s.mCommunityIdIndex := by
  obtain ⟨idx, m, heq⟩ := pushCompact_eq env s tx
  rw [heq]

@[simp] theorem pushCompact_mTransactionsByNr :
    (s.pushCompact env tx).mTransactionsByNr = s.mTransactionsByNr := by
  obtain ⟨idx, m, heq⟩ := pushCompact_eq env s tx
  rw [heq]

@[simp] theorem pushCompact_mLastTransaction :
    (s.pushCompact env tx).mLastTransaction = s.mLastTransaction := by
  obtain ⟨idx, m, heq⟩ := pushCompact_eq env s tx
  rw [heq]

@[simp] theorem pushCompact_mLedgerAnchorTransactionNrs :
    (s.pushCompact env tx).mLedgerAnchorTransactionNrs = s.mLedgerAnchorTransactionNrs := by
  obtain ⟨idx, m, heq⟩ := pushCompact_eq env s tx
  rw [heq]

@[simp] theorem pushCompact_mTransactionTriggerEvents :
    (s.pushCompact env tx).mTransactionTriggerEvents = s.mTransactionTriggerEvents := by
  obtain ⟨idx, m, heq⟩ := pushCompact_eq env s tx
  rw [heq]

/-- **What `runPastAddToBlockchain` does**: only the trigger events change.  A deferred transfer
adds its own, a redeem removes at most the one of its deferred transfer. -/
theorem addToBlockchain_cases :
    ∃ events, (addToBlockchain env s tx).1 =
        { s.pushTransactionEntry env tx with mTransactionTriggerEvents := events } ∧
      (events = s.mTransactionTriggerEvents ∨
        (∃ d, tx.body.specific = .deferredTransfer d ∧
          events = insertEvent ⟨tx.id, tx.confirmedAt.addSeconds d.timeoutDuration⟩
            s.mTransactionTriggerEvents) ∨
        ∃ r event, tx.body.specific = .redeemDeferredTransfer r ∧
          event.linkedTransactionId = r.deferredTransferTransactionNr ∧
          events = s.mTransactionTriggerEvents.filter (fun e => decide (e ≠ event))) := by
  have hpushed : (s.pushTransactionEntry env tx).mTransactionTriggerEvents =
      s.mTransactionTriggerEvents := by
    simp [pushTransactionEntry]
  unfold addToBlockchain
  dsimp only
  cases hpast : runPastAddToBlockchain (s.pushTransactionEntry env tx) tx with
  | error e => exact ⟨_, rfl, .inl hpushed⟩
  | ok s' =>
    unfold runPastAddToBlockchain at hpast
    split at hpast
    · next d hd =>
      simp only [addTransactionTriggerEvent, bind_eq_ok, pure_eq_ok] at hpast
      obtain ⟨_, -, _, -, rfl⟩ := hpast
      exact ⟨_, rfl, .inr (.inl ⟨d, hd, by rw [hpushed]⟩)⟩
    · next r hr =>
      simp only [bind_eq_ok, pure_eq_ok] at hpast
      obtain ⟨_, -, _, -, rfl⟩ := hpast
      exact ⟨_, rfl, .inr (.inr ⟨r, _, hr, rfl, by rw [hpushed]⟩)⟩
    · simp only [pure_eq_ok] at hpast
      subst hpast
      exact ⟨_, rfl, .inl hpushed⟩

@[simp] theorem addToBlockchain_mTransactionsByNr :
    (addToBlockchain env s tx).1.mTransactionsByNr = insertNew s.mTransactionsByNr tx.id tx := by
  obtain ⟨events, heq, -⟩ := addToBlockchain_cases env s tx
  simp [heq, pushTransactionEntry]

@[simp] theorem addToBlockchain_mLastTransaction :
    (addToBlockchain env s tx).1.mLastTransaction = some tx := by
  obtain ⟨events, heq, -⟩ := addToBlockchain_cases env s tx
  simp [heq, pushTransactionEntry]

@[simp] theorem addToBlockchain_mCommunityIdIndex :
    (addToBlockchain env s tx).1.mCommunityIdIndex = s.mCommunityIdIndex := by
  obtain ⟨events, heq, -⟩ := addToBlockchain_cases env s tx
  simp [heq, pushTransactionEntry]

@[simp] theorem addToBlockchain_mLedgerAnchorTransactionNrs :
    (addToBlockchain env s tx).1.mLedgerAnchorTransactionNrs =
      insertNew s.mLedgerAnchorTransactionNrs tx.ledgerAnchor tx.id := by
  obtain ⟨events, heq, -⟩ := addToBlockchain_cases env s tx
  simp [heq, pushTransactionEntry]

@[simp] theorem addToBlockchain_mTransactionsIndex :
    (addToBlockchain env s tx).1.mTransactionsIndex =
      (s.pushTransactionEntry env tx).mTransactionsIndex := by
  obtain ⟨events, heq, -⟩ := addToBlockchain_cases env s tx
  simp [heq]

@[simp] theorem addToBlockchain_mConfirmedTxByNr :
    (addToBlockchain env s tx).1.mConfirmedTxByNr =
      (s.pushTransactionEntry env tx).mConfirmedTxByNr := by
  obtain ⟨events, heq, -⟩ := addToBlockchain_cases env s tx
  simp [heq]

end Push

/-- A transaction with the next number extends the log by itself. -/
theorem Represents.addToBlockchain {s : InMemory} {community : ℕ} {h : List ConfirmedTransaction}
    (hs : s.Represents community h) (env : Env) {tx : ConfirmedTransaction}
    (hid : tx.id = h.length + 1) :
    (addToBlockchain env s tx).1.Represents community (h ++ [tx]) where
  community := by
    rw [addToBlockchain_mCommunityIdIndex, hs.community]
  byNr_zero := by
    rw [addToBlockchain_mTransactionsByNr, insertNew_of_ne _ _ (by omega), hs.byNr_zero]
  byNr := by
    intro k
    rw [addToBlockchain_mTransactionsByNr, hid]
    by_cases hk : k = h.length
    · subst hk
      rw [insertNew_self (by rw [hs.byNr]; simp)]
      simp
    · rw [insertNew_of_ne _ _ (by omega), hs.byNr]
      rcases Nat.lt_or_ge k h.length with hlt | hge
      · rw [List.getElem?_append_left hlt]
      · rw [List.getElem?_eq_none (by omega), List.getElem?_eq_none]
        simp
        omega
  last := by
    rw [addToBlockchain_mLastTransaction]
    simp
  id := by
    intro k t hk
    rcases Nat.lt_or_ge k h.length with hlt | hge
    · rw [List.getElem?_append_left hlt] at hk
      exact hs.id k t hk
    · have hlt := (List.getElem?_eq_some_iff.1 hk).1
      rw [List.length_append, List.length_singleton] at hlt
      obtain rfl : k = h.length := by omega
      simp only [List.getElem?_concat_length, Option.some.injEq] at hk
      rw [← hk, hid]

/-- What the search for transactions collects is stored. -/
theorem collect_mem {s : InMemory} {f : Filter} {nrs : List ℕ}
    {acc result : List ConfirmedTransaction} (h : s.collect f nrs acc = .ok result)
    {tx : ConfirmedTransaction} (htx : tx ∈ result) :
    tx ∈ acc ∨ ∃ nr, s.mTransactionsByNr nr = some tx := by
  induction nrs generalizing acc with
  | nil =>
    simp only [collect, Except.ok.injEq] at h
    exact .inl (h ▸ htx)
  | cons nr nrs ih =>
    unfold collect at h
    split_ifs at h with hcapacity
    · simp only [Except.ok.injEq] at h
      exact .inl (h ▸ htx)
    · split at h
      · simp at h
      · next t ht =>
        have hacc : ∀ acc', (if (f.matchesFound t).use then acc ++ [t] else acc) = acc' →
            tx ∈ acc' → tx ∈ acc ∨ ∃ nr, s.mTransactionsByNr nr = some tx := by
          rintro acc' rfl hin
          split_ifs at hin
          · rcases List.mem_append.1 hin with hin | hin
            · exact .inl hin
            · rw [List.mem_singleton.1 hin]
              exact .inr ⟨nr, ht⟩
          · exact .inl hin
        dsimp only at h
        split at h
        · simp only [Except.ok.injEq] at h
          exact hacc _ h htx
        · rcases ih h with hin | hstored
          · exact hacc _ rfl hin
          · exact .inr hstored

/-- What `findOne` returns is stored. -/
theorem exists_of_findOne {s : InMemory} {env : Env} {f : Filter} {tx : ConfirmedTransaction}
    (hfound : s.findOne env f = .ok (some tx)) : ∃ nr, s.mTransactionsByNr nr = some tx := by
  simp only [findOne, findAll, findAllWith, bind_eq_ok] at hfound
  obtain ⟨result, hresult, hone⟩ := hfound
  unfold exactlyOne at hone
  split at hone
  · simp at hone
  · next t =>
    simp only [Except.ok.injEq, Option.some.injEq] at hone
    subst hone
    rcases collect_mem hresult (List.mem_singleton.2 rfl) with hin | hstored
    · exact absurd hin List.not_mem_nil
    · exact hstored
  · simp at hone

theorem Represents.mem_of_findOne {s : InMemory} {community : ℕ} {h : List ConfirmedTransaction}
    (hs : s.Represents community h) {env : Env} {f : Filter} {tx : ConfirmedTransaction}
    (hfound : s.findOne env f = .ok (some tx)) : tx ∈ h := by
  obtain ⟨nr, hnr⟩ := exists_of_findOne hfound
  exact (hs.mem_of_byNr hnr).1

theorem Represents.removeTransactionTriggerEvent {s : InMemory} {community : ℕ}
    {h : List ConfirmedTransaction} (hs : s.Represents community h)
    (event : TransactionTriggerEvent) :
    (s.removeTransactionTriggerEvent event).Represents community h :=
  ⟨hs.community, hs.byNr_zero, hs.byNr, hs.last, hs.id⟩

end InMemory

end Gradido
