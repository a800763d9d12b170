import GradidoBlockchain.Concurrent.SignaturesVerify
import GradidoBlockchain.Chain.Find
import GradidoBlockchain.Chain.Elements

/-!
# What is verified

Whatever the order of the steps, the workers take together exactly the
transactions of the pages before the first empty one, each once, and note those
with an invalid signature (`Inv`).  These are all the transactions that match the
filter only if every page before the last match brings something
(`run_verified_iff`).
-/

namespace Gradido

namespace Concurrent

open Steps

namespace Verification

variable {v : Verification} {s s' : VerifyState}

/-! ### The invariant -/

/-- What a page brings. -/
def pageTxs (v : Verification) (page : ℕ) : List ConfirmedTransaction :=
  match v.findPage page with
  | .ok txs => txs
  | .error _ => []

/-- What the first `k` pages bring. -/
def drained (v : Verification) (k : ℕ) : List ConfirmedTransaction :=
  (List.range k).flatMap (fun i => v.pageTxs (v.startPage + i))

theorem drained_succ (k : ℕ) : v.drained (k + 1) = v.drained k ++ v.pageTxs (v.startPage + k) := by
  simp [drained, List.range_succ]

/-- The numbers of the transactions with an invalid signature. -/
def invalidNrs (v : Verification) (txs : List ConfirmedTransaction) : List ℕ :=
  (txs.filter v.hasInvalidSignature).map ConfirmedTransaction.id

theorem invalidNrs_append (txs txs' : List ConfirmedTransaction) :
    v.invalidNrs (txs ++ txs') = v.invalidNrs txs ++ v.invalidNrs txs' := by
  simp [invalidNrs]

theorem invalidNrs_cons (tx : ConfirmedTransaction) (txs : List ConfirmedTransaction) :
    v.invalidNrs (tx :: txs) =
      (if v.hasInvalidSignature tx = true then [tx.id] else []) ++ v.invalidNrs txs := by
  unfold invalidNrs
  cases htx : v.hasInvalidSignature tx <;> simp [htx]

theorem perm_invalidNrs {txs txs' : List ConfirmedTransaction} (h : txs.Perm txs') :
    (v.invalidNrs txs).Perm (v.invalidNrs txs') :=
  (h.filter _).map _

/-- The transactions that the workers hold and have not verified yet. -/
def pending (v : Verification) (s : VerifyState) : List ConfirmedTransaction :=
  held v.threadCount (fun w => (s.workers w).batch)

/-- What holds in every state.

* What was taken and what is in the queue are the pages that were read, in order.
* A page that is being pushed is not empty; after the end the page was empty.
* A worker ends when all is read and the queue is empty.
* What was noted, and what will be noted of the batches, are the invalid ones that were taken. -/
structure Inv (v : Verification) (s : VerifyState) : Prop where
  read : ∃ k, s.page = v.startPage + k ∧ (∀ i < k, v.pageTxs (v.startPage + i) ≠ []) ∧
    s.taken.map Prod.snd ++ s.transactionQueue = v.drained k
  pushing : ∀ txs, s.master = .pushing txs → v.findPage s.page = .ok txs ∧ txs ≠ []
  ended : s.done = true ↔ s.master = .joining ∨ s.master = .returned
  last : s.done = true → v.findPage s.page = .ok []
  finished : ∀ w, (s.workers w).isFinished = true → s.done = true ∧ s.transactionQueue = []
  returned : s.master = .returned → ∀ w < v.threadCount, (s.workers w).isFinished = true
  noted : (s.invalidTxNrs ++ v.invalidNrs (v.pending s)).Perm
    (v.invalidNrs (s.taken.map Prod.snd))

theorem inv_start (v : Verification) : Inv v v.start where
  read := ⟨0, rfl, by simp, rfl⟩
  pushing txs h := by cases h
  ended := by simp [start]
  last h := by cases h
  finished w h := by cases h
  returned h := by cases h
  noted := by
    have hnone : v.pending v.start = [] := held_eq_nil (fun w _ => rfl)
    rw [hnone]
    rfl

/-! ### Steps of the master -/

theorem Inv.masterStep (hs : Inv v s) {e : VerifyEvent} (h : v.masterStep s e = some s') :
    Inv v s' := by
  have hnotdone : ∀ {phase}, s.master = phase → phase ≠ .joining → phase ≠ .returned →
      s.done = false := by
    intro phase hphase hj hr
    rw [← Bool.not_eq_true, hs.ended, hphase]
    exact fun h => h.elim hj hr
  cases e with
  | check =>
    cases hphase : s.master <;> simp only [Verification.masterStep, hphase] at h <;> try cases h
    have hdone := hnotdone hphase (by simp) (by simp)
    split_ifs at h
    all_goals
      cases h
      exact ⟨hs.read, fun txs h => by simp at h, by simp [hdone],
        hs.last, hs.finished, fun h => by simp at h, hs.noted⟩
  | fetch =>
    cases hphase : s.master <;> simp only [Verification.masterStep, hphase] at h <;> try cases h
    have hdone := hnotdone hphase (by simp) (by simp)
    cases hpage : v.findPage s.page with
    | error e => simp [hpage] at h
    | ok txs =>
      cases txs with
      | nil =>
        simp only [hpage, Option.some.injEq] at h
        subst h
        refine ⟨hs.read, fun txs h => by simp at h, by simp, fun _ => hpage, fun w hw => ?_,
          fun h => by simp at h, hs.noted⟩
        exact ⟨rfl, (hs.finished w hw).2⟩
      | cons tx txs =>
        simp only [hpage, Option.some.injEq] at h
        subst h
        refine ⟨hs.read, fun txs' h => ?_, by simp [hdone], hs.last, hs.finished,
          fun h => by simp at h, hs.noted⟩
        cases h
        exact ⟨hpage, by simp⟩
  | push =>
    cases hphase : s.master <;> simp only [Verification.masterStep, hphase] at h <;> try cases h
    next txs =>
    have hdone := hnotdone hphase (by simp) (by simp)
    obtain ⟨hpage, hne⟩ := hs.pushing txs hphase
    have hpageTxs : v.pageTxs s.page = txs := by
      rw [pageTxs, hpage]
    obtain ⟨k, hk, hread, hqueue⟩ := hs.read
    refine ⟨⟨k + 1, ?_, fun i hi => ?_, ?_⟩, fun txs h => by simp at h, by simp [hdone],
      fun h => by simp [hdone] at h, fun w hw => ?_, fun h => by simp at h, hs.noted⟩
    · dsimp only
      omega
    · rcases Nat.lt_succ_iff_lt_or_eq.1 hi with hlt | rfl
      · exact hread i hlt
      · rwa [← hk, hpageTxs]
    · rw [drained_succ, ← hqueue, ← hk, hpageTxs, List.append_assoc]
    · -- no worker has ended yet
      exact absurd (hs.finished w hw).1 (by simp [hdone])
  | wake =>
    cases hphase : s.master <;> simp only [Verification.masterStep, hphase] at h <;> try cases h
    have hdone := hnotdone hphase (by simp) (by simp)
    split_ifs at h
    cases h
    exact ⟨hs.read, fun txs h => by simp at h, by simp [hdone], hs.last, hs.finished,
      fun h => by simp at h, hs.noted⟩
  | join =>
    cases hphase : s.master <;> simp only [Verification.masterStep, hphase] at h <;> try cases h
    have hdone : s.done = true := hs.ended.2 (.inl hphase)
    split_ifs at h with hall
    cases h
    refine ⟨hs.read, fun txs h => by simp at h, by simp [hdone], hs.last, hs.finished,
      fun _ w hw => ?_, hs.noted⟩
    exact List.all_eq_true.1 hall w (List.mem_range.2 hw)
  | take worker => simp [Verification.masterStep] at h
  | verify worker => simp [Verification.masterStep] at h

/-! ### Steps of a worker -/

/-- What the workers hold when one of them goes on. -/
theorem pending_goTo {w : ℕ} (hw : w < v.threadCount) (phase : WorkerPhase) :
    ∃ others, (v.pending s).Perm ((s.workers w).batch ++ others) ∧
      (v.pending (goTo s w phase)).Perm (phase.batch ++ others) := by
  obtain ⟨others, hbefore, hafter⟩ :=
    @held_update _ _ (fun w => (s.workers w).batch) w hw phase.batch
  refine ⟨others, hbefore, ?_⟩
  have hsame : (fun u => ((goTo s w phase).workers u).batch) =
      Function.update (fun u => (s.workers u).batch) w phase.batch := by
    funext u
    by_cases hu : u = w
    · subst hu
      simp [goTo]
    · simp [goTo, hu]
  rwa [pending, hsame]

theorem isFinished_goTo {w u : ℕ} {phase : WorkerPhase}
    (h : ((goTo s w phase).workers u).isFinished = true) :
    u = w ∧ phase.isFinished = true ∨ u ≠ w ∧ (s.workers u).isFinished = true := by
  by_cases hu : u = w
  · subst hu
    exact .inl ⟨rfl, by simpa [goTo] using h⟩
  · exact .inr ⟨hu, by simpa [goTo, hu] using h⟩

theorem Inv.take (hs : Inv v s) {w : ℕ} (hw : w < v.threadCount) (h : take s w = some s') :
    Inv v s' := by
  unfold Verification.take at h
  cases hphase : s.workers w <;> simp only [hphase] at h <;> try cases h
  have hbatch : (s.workers w).batch = [] := by
    rw [hphase]
    rfl
  split_ifs at h with hempty hdone
  · -- all is done
    cases h
    obtain ⟨others, hbefore, hafter⟩ := pending_goTo (s := s) hw .finished
    rw [hbatch] at hbefore
    refine ⟨hs.read, hs.pushing, hs.ended, hs.last, fun u hu => ?_, fun hreturned u hu => ?_, ?_⟩
    · exact ⟨hdone, hempty⟩
    · by_cases hu' : u = w
      · subst hu'
        simp [goTo, WorkerPhase.isFinished]
      · simpa [goTo, hu'] using hs.returned hreturned u hu
    · exact ((perm_invalidNrs (hafter.trans hbefore.symm)).append_left _).trans hs.noted
  · -- a batch
    cases h
    obtain ⟨others, hbefore, hafter⟩ := pending_goTo (s := { s with
      transactionQueue := s.transactionQueue.drop batchSize
      taken := s.taken ++ (s.transactionQueue.take batchSize).map (fun tx => (w, tx)) }) hw
      (.verifying (s.transactionQueue.take batchSize))
    have hnotfinished : ∀ u, ¬ (s.workers u).isFinished = true :=
      fun u hu => hempty (hs.finished u hu).2
    obtain ⟨k, hk, hread, hqueue⟩ := hs.read
    refine ⟨⟨k, hk, hread, ?_⟩, hs.pushing, hs.ended, hs.last, fun u hu => ?_,
      fun hreturned u hu => absurd (hs.returned hreturned u hu) (hnotfinished u), ?_⟩
    · rw [← hqueue]
      simp [goTo, Function.comp_def]
    · rcases isFinished_goTo hu with ⟨-, hfinished⟩ | ⟨-, hfinished⟩
      · cases hfinished
      · exact absurd hfinished (hnotfinished u)
    · -- what is taken is pending now
      rw [hbatch, List.nil_append] at hbefore
      have hpending := perm_invalidNrs (v := v) (hafter.trans (hbefore.symm.append_left _))
      rw [invalidNrs_append] at hpending
      have htaken : (goTo { s with
          transactionQueue := s.transactionQueue.drop batchSize
          taken := s.taken ++ (s.transactionQueue.take batchSize).map (fun tx => (w, tx)) } w
          (.verifying (s.transactionQueue.take batchSize))).taken.map Prod.snd =
          s.taken.map Prod.snd ++ s.transactionQueue.take batchSize := by
        simp [goTo, Function.comp_def]
      rw [htaken, invalidNrs_append]
      refine (hpending.append_left _).trans ?_
      refine (List.perm_append_comm.append_left _).trans ?_
      rw [← List.append_assoc]
      exact hs.noted.append_right _

theorem Inv.verify (hs : Inv v s) {w : ℕ} (hw : w < v.threadCount) (h : v.verify s w = some s') :
    Inv v s' := by
  unfold Verification.verify at h
  cases hphase : s.workers w with
  | waiting => simp [hphase] at h
  | finished => simp [hphase] at h
  | verifying batch =>
    have hbatch : (s.workers w).batch = batch := by
      rw [hphase]
      rfl
    have hw' : ¬ (s.workers w).isFinished = true := by
      rw [hphase]
      simp [WorkerPhase.isFinished]
    have hfinished : ∀ {t : VerifyState} {phase : WorkerPhase}, t.workers = s.workers →
        phase.isFinished = false → ∀ u, ((goTo t w phase).workers u).isFinished = true →
          (s.workers u).isFinished = true := by
      intro t phase ht hphase' u hu
      rcases isFinished_goTo hu with ⟨-, hf⟩ | ⟨-, hf⟩
      · simp [hphase'] at hf
      · rwa [ht] at hf
    cases batch with
    | nil =>
      simp only [hphase, Option.some.injEq] at h
      subst h
      obtain ⟨others, hbefore, hafter⟩ := pending_goTo (s := s) hw .waiting
      rw [hbatch] at hbefore
      refine ⟨hs.read, hs.pushing, hs.ended, hs.last,
        fun u hu => hs.finished u (hfinished rfl rfl u hu),
        fun hreturned => absurd (hs.returned hreturned w hw) hw', ?_⟩
      exact ((perm_invalidNrs (hafter.trans hbefore.symm)).append_left _).trans hs.noted
    | cons tx batch =>
      simp only [hphase, Option.some.injEq] at h
      subst h
      obtain ⟨others, hbefore, hafter⟩ := pending_goTo (s := { s with
        invalidTxNrs :=
          if v.hasInvalidSignature tx = true then s.invalidTxNrs ++ [tx.id] else s.invalidTxNrs })
        hw (.verifying batch)
      refine ⟨hs.read, hs.pushing, hs.ended, hs.last,
        fun u hu => hs.finished u (hfinished rfl rfl u hu),
        fun hreturned => absurd (hs.returned hreturned w hw) hw', ?_⟩
      -- the first one is noted now, or it was not pending
      have hnrs : (if v.hasInvalidSignature tx = true then s.invalidTxNrs ++ [tx.id]
          else s.invalidTxNrs) =
          s.invalidTxNrs ++ (if v.hasInvalidSignature tx = true then [tx.id] else []) := by
        split_ifs <;> simp
      have hpending := perm_invalidNrs (v := v) hbefore
      dsimp only at hpending
      rw [hbatch, List.cons_append, invalidNrs_cons] at hpending
      refine List.Perm.trans ?_ hs.noted
      refine ((perm_invalidNrs hafter).append_left _).trans (List.Perm.trans ?_
        (hpending.symm.append_left _))
      simp only [goTo, hnrs, WorkerPhase.batch, List.append_assoc]
      exact List.Perm.refl _

theorem Inv.step (hs : Inv v s) {e : VerifyEvent} (h : v.step s e = some s') : Inv v s' := by
  cases e with
  | take w =>
    simp only [Verification.step] at h
    split_ifs at h with hw
    exact hs.take hw h
  | verify w =>
    simp only [Verification.step] at h
    split_ifs at h with hw
    exact hs.verify hw h
  | check => exact hs.masterStep (e := .check) h
  | fetch => exact hs.masterStep (e := .fetch) h
  | push => exact hs.masterStep (e := .push) h
  | wake => exact hs.masterStep (e := .wake) h
  | join => exact hs.masterStep (e := .join) h

/-- **Draining.**  Whatever the order of the steps, when `verifySignatures` returns, the workers
have taken the transactions of the pages before the first empty one, each of them once and in
order, and the result are the numbers of those with an invalid signature. -/
theorem run_drained {es : List VerifyEvent} (hrun : Steps.run v.step v.start es = some s)
    (hreturned : s.master = .returned) (hworkers : 0 < v.threadCount) :
    ∃ k, (∀ i < k, v.pageTxs (v.startPage + i) ≠ []) ∧ v.findPage (v.startPage + k) = .ok [] ∧
      s.taken.map Prod.snd = v.drained k ∧ s.invalidTxNrs.Perm (v.invalidNrs (v.drained k)) := by
  have hinv : Inv v s := invariant (fun _ _ _ h hstep => h.step hstep) (inv_start v) hrun
  obtain ⟨k, hk, hread, hqueue⟩ := hinv.read
  have hdone : s.done = true := hinv.ended.2 (.inr hreturned)
  obtain ⟨-, hempty⟩ := hinv.finished 0 (hinv.returned hreturned 0 hworkers)
  rw [hempty, List.append_nil] at hqueue
  have hpending : v.pending s = [] := by
    refine held_eq_nil (fun w hw => ?_)
    have hfinished := hinv.returned hreturned w hw
    cases hphase : s.workers w <;> simp [hphase, WorkerPhase.isFinished] at hfinished ⊢
    rfl
  refine ⟨k, hread, hk ▸ hinv.last hdone, hqueue, ?_⟩
  have hnoted := hinv.noted
  rwa [hpending, hqueue, show v.invalidNrs [] = [] from rfl, List.append_nil] at hnoted

/-- Until it returns, someone can move, unless the search throws. -/
theorem exists_step {es : List VerifyEvent} (hrun : Steps.run v.step v.start es = some s)
    (hreturned : s.master ≠ .returned) (hworkers : 0 < v.threadCount)
    (hsearch : ∀ page, ∃ txs, v.findPage page = .ok txs) : ∃ e s', v.step s e = some s' := by
  have hinv : Inv v s := invariant (fun _ _ _ h hstep => h.step hstep) (inv_start v) hrun
  -- a worker can move when there is something for it to do
  have hworker : ∀ w < v.threadCount, ¬ (s.workers w).isFinished = true →
      (s.done = true ∨ s.transactionQueue ≠ []) → ∃ e s', v.step s e = some s' := by
    intro w hw hnot hwork
    cases hphase : s.workers w with
    | finished => simp [hphase, WorkerPhase.isFinished] at hnot
    | verifying batch =>
      refine ⟨.verify w, ?_⟩
      cases batch <;> simp [Verification.step, Verification.verify, hw, hphase]
    | waiting =>
      refine ⟨.take w, ?_⟩
      by_cases hempty : s.transactionQueue = []
      · simp [Verification.step, Verification.take, hw, hphase, hempty,
          hwork.resolve_right (not_not_intro hempty)]
      · simp [Verification.step, Verification.take, hw, hphase, hempty]
  cases hphase : s.master with
  | returned => exact absurd hphase hreturned
  | checking =>
    refine ⟨.check, ?_⟩
    simp only [Verification.step, Verification.masterStep, hphase]
    split_ifs <;> exact ⟨_, rfl⟩
  | fetching =>
    refine ⟨.fetch, ?_⟩
    obtain ⟨txs, htxs⟩ := hsearch s.page
    cases txs <;> simp [Verification.step, Verification.masterStep, hphase, htxs]
  | pushing txs => exact ⟨.push, by simp [Verification.step, Verification.masterStep, hphase]⟩
  | waiting =>
    by_cases hroom : s.transactionQueue.length < v.queueSize
    · exact ⟨.wake, by simp [Verification.step, Verification.masterStep, hphase, hroom]⟩
    · -- the queue is full, and no worker has ended
      have hne : s.transactionQueue ≠ [] := by
        rintro hempty
        rw [hempty, List.length_nil, queueSize] at hroom
        omega
      exact hworker 0 hworkers (fun h => hne (hinv.finished 0 h).2) (.inr hne)
  | joining =>
    have hdone : s.done = true := hinv.ended.2 (.inl hphase)
    by_cases hall : (List.range v.threadCount).all (fun w => (s.workers w).isFinished) = true
    · refine ⟨.join, ?_⟩
      simp only [Verification.step, Verification.masterStep, hphase, hall, if_true]
      exact ⟨_, rfl⟩
    · obtain ⟨w, hw, hnot⟩ : ∃ w, w < v.threadCount ∧ ¬ (s.workers w).isFinished = true := by
        simpa using hall
      exact hworker w hw hnot (.inl hdone)

/-! ### Pages -/

/-- The filter as the index gets it. -/
def compactFilter (v : Verification) : CompactFilter :=
  .ofFilter v.getIndexForData v.filter v.blockchain.mCommunityIdIndex

/-- The numbers that the index finds for the filter, in search order, from the start page on. -/
def candidates (v : Verification) : List ℕ :=
  (v.blockchain.mTransactionsIndex.findPage v.compactFilter 0 0).drop
    ((v.startPage - 1) * v.pageSize)

/-- The transactions of the `i`-th block of candidates. -/
def block (v : Verification) (i : ℕ) : List ConfirmedTransaction :=
  (Paging.blockAt v.candidates v.pageSize i).filterMap v.blockchain.mTransactionsByNr

/-- What the exact interval and the filter function accept from a block, up to the first one that
stops. -/
def acceptedOn (v : Verification) (i : ℕ) : List ConfirmedTransaction :=
  takeAccepted v.filter.matchesFound (v.block i)

/-- The last page that is read does not start beyond the numbers of 32 bits, in which the number of
skipped entries is computed. -/
def FitsPages (v : Verification) : Prop :=
  (v.startPage - 1) * v.pageSize + v.candidates.length + v.pageSize ≤ 2 ^ 32

instance instDecidableFitsPages : Decidable v.FitsPages := inferInstanceAs (Decidable (_ ≤ _))

/-- The loop over the numbers of a page, when the page is not larger than it should be. -/
theorem collect_eq_ok {s : InMemory} {f : Filter} {nrs : List ℕ}
    {acc r : List ConfirmedTransaction} (h : s.collect f nrs acc = .ok r)
    (hroom : acc.length + nrs.length ≤ f.pagination.size) :
    r = acc ++ takeAccepted f.matchesFound (nrs.filterMap s.mTransactionsByNr) := by
  induction nrs generalizing acc with
  | nil =>
    rw [InMemory.collect, Except.ok.injEq] at h
    simp [h, takeAccepted]
  | cons nr nrs ih =>
    rw [List.length_cons] at hroom
    have hcapacity : f.pagination.hasCapacityLeft acc.length = true := by
      simp only [Pagination.hasCapacityLeft, Bool.or_eq_true, decide_eq_true_eq]
      omega
    rw [InMemory.collect, hcapacity, Bool.not_true, if_neg (by simp)] at h
    cases htx : s.mTransactionsByNr nr with
    | none => simp [htx] at h
    | some tx =>
      rw [List.filterMap_cons_some htx, takeAccepted]
      simp only [htx] at h
      cases huse : (f.matchesFound tx).use <;> cases hstop : (f.matchesFound tx).stop <;>
        simp only [huse, hstop, Bool.false_eq_true, if_true, if_false] at h ⊢
      · simpa using ih h (by omega)
      · simpa using h.symm
      · simpa using ih h (by simp; omega)
      · simpa using h.symm

theorem takeAccepted_sublist {α : Type} (m : α → FilterResult) (l : List α) :
    (takeAccepted m l).Sublist l := by
  induction l with
  | nil => exact List.Sublist.slnil
  | cons a l ih =>
    rw [takeAccepted]
    split_ifs
    · exact (List.nil_sublist l).cons_cons a
    · exact ih.cons_cons a
    · exact List.nil_sublist _
    · exact ih.cons a

/-- **A page** brings what is accepted from its block. -/
theorem findPage_eq_ok (hsize : v.filter.pagination.size = 0) {i : ℕ}
    (hfits : (v.startPage - 1 + i) * v.pageSize < 2 ^ 32) {txs : List ConfirmedTransaction}
    (h : v.findPage (v.startPage + i) = .ok txs) : txs = v.acceptedOn i := by
  have hpageSize : v.pageSize = 100 := if_pos hsize
  have hstart : 1 ≤ v.startPage := by
    unfold startPage
    split_ifs <;> omega
  have hskip : v.startPage + i - 1 = v.startPage - 1 + i := by omega
  have hpagination : ∀ page, CompactFilter.ofFilter v.getIndexForData
      { v.filter with pagination := ⟨v.pageSize, page⟩ } v.blockchain.mCommunityIdIndex =
      { v.compactFilter with pagination := ⟨v.pageSize, page⟩ } := by
    intro page
    unfold compactFilter CompactFilter.ofFilter CompactFilter.searchFor
    dsimp only
    split
    · split_ifs <;> rfl
    · split_ifs <;> rfl
    · rfl
  have hblock : v.blockchain.mTransactionsIndex.findPage v.compactFilter v.pageSize
      (v.startPage + i) = Paging.blockAt v.candidates v.pageSize i := by
    rw [TransactionsIndex.findPage_eq _ _ (by omega) (by omega) (by rwa [hskip]), if_neg (by omega),
      TransactionsIndex.block, Paging.blockAt, candidates, List.drop_drop, hskip, Nat.add_mul]
  have hlength : (Paging.blockAt v.candidates v.pageSize i).length ≤ v.pageSize := by
    simp [Paging.blockAt]
  unfold findPage InMemory.findAllWith at h
  rw [hpagination, show v.blockchain.mTransactionsIndex.findTransactions
    { v.compactFilter with pagination := ⟨v.pageSize, v.startPage + i⟩ } = _ from hblock] at h
  exact collect_eq_ok h (by simpa using hlength)

/-- A block from which something is accepted is not behind the last candidate. -/
theorem lt_of_acceptedOn (hpageSize : 0 < v.pageSize) {i : ℕ} (h : v.acceptedOn i ≠ []) :
    i * v.pageSize < v.candidates.length := by
  by_contra hge
  have hnil : Paging.blockAt v.candidates v.pageSize i = [] :=
    (Paging.blockAt_eq_nil hpageSize).2 (Nat.le_of_not_lt hge)
  exact h (by rw [acceptedOn, block, hnil]; rfl)

/-- The pages that were read are the blocks, and the last one was empty. -/
theorem acceptedOn_of_drained (hsize : v.filter.pagination.size = 0) (hfits : v.FitsPages) {k : ℕ}
    (hread : ∀ i < k, v.pageTxs (v.startPage + i) ≠ [])
    (hlast : v.findPage (v.startPage + k) = .ok []) :
    (∀ i < k, v.pageTxs (v.startPage + i) = v.acceptedOn i) ∧ v.acceptedOn k = [] := by
  have hpageSize : v.pageSize = 100 := if_pos hsize
  unfold FitsPages at hfits
  have hfits' : ∀ {i}, i * v.pageSize < v.candidates.length + v.pageSize →
      (v.startPage - 1 + i) * v.pageSize < 2 ^ 32 := by
    intro i hi
    rw [Nat.add_mul]
    omega
  have hpage : ∀ {i}, i * v.pageSize < v.candidates.length + v.pageSize → i < k →
      v.pageTxs (v.startPage + i) = v.acceptedOn i := by
    intro i hi hik
    have hne := hread i hik
    unfold pageTxs at hne ⊢
    cases hfound : v.findPage (v.startPage + i) with
    | error e => simp [hfound] at hne
    | ok txs => exact findPage_eq_ok hsize (hfits' hi) hfound
  -- something was accepted from the page before, so there are candidates up to here
  have hbound : ∀ i ≤ k, i * v.pageSize < v.candidates.length + v.pageSize := by
    intro i hi
    induction i with
    | zero => omega
    | succ i ih =>
      have hprevious := ih (by omega)
      have hne : v.acceptedOn i ≠ [] := hpage hprevious (by omega) ▸ hread i (by omega)
      have hlt := lt_of_acceptedOn (by omega) hne
      rw [Nat.add_mul]
      omega
  refine ⟨fun i hi => hpage (hbound i (Nat.le_of_lt hi)) hi, ?_⟩
  exact (findPage_eq_ok hsize (hfits' (hbound k (Nat.le_refl k))) hlast).symm

theorem drained_sublist {k : ℕ} (hpages : ∀ i < k, v.pageTxs (v.startPage + i) = v.acceptedOn i) :
    (v.drained k).Sublist
      ((v.candidates.take (k * v.pageSize)).filterMap v.blockchain.mTransactionsByNr) := by
  induction k with
  | zero => exact List.nil_sublist _
  | succ k ih =>
    rw [drained_succ, hpages k (Nat.lt_succ_self k), Paging.take_succ_block, List.filterMap_append]
    exact (ih (fun i hi => hpages i (Nat.lt_succ_of_lt hi))).append (takeAccepted_sublist _ _)

/-- What was drained is stored, and every number comes once. -/
theorem stored_drained {community k : ℕ} {h : List ConfirmedTransaction}
    (hs : v.blockchain.Represents community h)
    (hpages : ∀ i < k, v.pageTxs (v.startPage + i) = v.acceptedOn i) :
    (∀ tx ∈ v.drained k, tx ∈ h) ∧ ((v.drained k).map ConfirmedTransaction.id).Nodup := by
  have hsub := drained_sublist hpages
  have hnrs : ((v.candidates.take (k * v.pageSize)).filterMap
      v.blockchain.mTransactionsByNr).map ConfirmedTransaction.id =
      (v.candidates.take (k * v.pageSize)).filter
        (fun n => (v.blockchain.mTransactionsByNr n).isSome) := by
    induction v.candidates.take (k * v.pageSize) with
    | nil => rfl
    | cons n nrs ih =>
      cases hn : v.blockchain.mTransactionsByNr n with
      | none => simpa [hn] using ih
      | some tx => simpa [hn, (hs.mem_of_byNr hn).2] using ih
  have hnodup : v.candidates.Nodup := by
    obtain ⟨b, hb⟩ := v.blockchain.mTransactionsIndex.exists_findPage v.compactFilter
    unfold candidates
    rw [hb, TransactionsIndex.pageOf_size_zero]
    exact (TransactionsIndex.nodup_inDirection _ b).sublist (List.drop_sublist _ _)
  constructor
  · intro tx htx
    obtain ⟨n, -, hn⟩ := List.mem_filterMap.1 (hsub.subset htx)
    exact (hs.mem_of_byNr hn).1
  · refine List.Nodup.sublist (hsub.map _) ?_
    rw [hnrs]
    exact hnodup.sublist (List.filter_sublist.trans (List.take_sublist _ _))

theorem mem_drained {k : ℕ} (hread : ∀ i < k, v.pageTxs (v.startPage + i) ≠ [])
    (hpages : ∀ i < k, v.pageTxs (v.startPage + i) = v.acceptedOn i) (hend : v.acceptedOn k = [])
    {tx : ConfirmedTransaction} :
    tx ∈ v.drained k ↔ ∃ i, tx ∈ v.acceptedOn i ∧ ∀ j ≤ i, v.acceptedOn j ≠ [] := by
  simp only [drained, List.mem_flatMap, List.mem_range]
  constructor
  · rintro ⟨i, hi, htx⟩
    rw [hpages i hi] at htx
    refine ⟨i, htx, fun j hj => ?_⟩
    have hlt := Nat.lt_of_le_of_lt hj hi
    exact hpages j hlt ▸ hread j hlt
  · rintro ⟨i, htx, hbefore⟩
    have hi : i < k := by
      by_contra hge
      exact hbefore k (Nat.le_of_not_lt hge) hend
    exact ⟨i, hi, by rwa [hpages i hi]⟩

/-! ### Matching transactions -/

/-- Exactly one worker took the transaction, and took it once. -/
def TakenOnce (s : VerifyState) (tx : ConfirmedTransaction) : Prop :=
  ∃ pre w post, s.taken = pre ++ (w, tx) :: post ∧ tx ∉ (pre ++ post).map Prod.snd

theorem takenOnce_iff (h : (s.taken.map Prod.snd).Nodup) {tx : ConfirmedTransaction} :
    TakenOnce s tx ↔ tx ∈ s.taken.map Prod.snd := by
  constructor
  · rintro ⟨pre, w, post, htaken, -⟩
    rw [htaken]
    simp
  · intro htx
    obtain ⟨⟨w, tx'⟩, hmem, rfl⟩ := List.mem_map.1 htx
    obtain ⟨pre, post, htaken⟩ := List.append_of_mem hmem
    refine ⟨pre, w, post, htaken, ?_⟩
    rw [htaken, List.map_append, List.map_cons] at h
    rw [List.map_append, List.mem_append]
    have hdisjoint := List.nodup_append.1 h
    rintro (hpre | hpost)
    · exact hdisjoint.2.2 _ hpre _ List.mem_cons_self rfl
    · exact (List.nodup_cons.1 hdisjoint.2.1).1 hpost

/-- The transactions of the blockchain that meet every criterion of the filter. -/
def matching (v : Verification) (community : ℕ) : List ConfirmedTransaction :=
  v.blockchain.history.filter (fun tx =>
    (v.filter.matchesEntry v.env community tx (fun _ => true)).use)

/-- What the caller of `verifySignatures` can expect: every matching transaction was taken by one
worker, and the numbers of those with an invalid signature are returned, each once. -/
structure VerifiedAll (v : Verification) (community : ℕ) (s : VerifyState) : Prop where
  taken : ∀ tx ∈ v.matching community, TakenOnce s tx
  nodup : s.invalidTxNrs.Nodup
  reported : ∀ n, n ∈ s.invalidTxNrs ↔
    ∃ tx ∈ v.matching community, tx.id = n ∧ v.hasInvalidSignature tx = true

/-- The pages cover what they should.

* Every matching transaction is accepted on a page, and something is accepted on every page
  before.
* What is accepted on the pages before the first empty one matches, or its signatures are valid. -/
structure Covers (v : Verification) (community : ℕ) : Prop where
  reached : ∀ tx ∈ v.matching community, ∃ i, tx ∈ v.acceptedOn i ∧ ∀ j < i, v.acceptedOn j ≠ []
  others : ∀ i, (∀ j ≤ i, v.acceptedOn j ≠ []) → ∀ tx ∈ v.acceptedOn i,
    v.hasInvalidSignature tx = true → tx ∈ v.matching community

end Verification

/-- **Batch verification.**  In every chain that a run leads to, for every filter without
pagination and every order of the steps of the master and the workers: when `verifySignatures`
returns, all matching transactions are verified and exactly the invalid ones reported, if and only
if the pages cover them. -/
theorem run_verified_iff (calls : List AddCall) (community : ℕ) {v : Verification}
    (hchain : v.blockchain = (runAdd v.env calls).findBlockchain community)
    (hworkers : 0 < v.threadCount) (hsize : v.filter.pagination.size = 0) (hfits : v.FitsPages)
    {es : List VerifyEvent} {s : VerifyState} (hrun : Steps.run v.step v.start es = some s)
    (hreturned : s.master = .returned) :
    v.VerifiedAll community s ↔ v.Covers community := by
  have hs : v.blockchain.Represents community v.blockchain.history := by
    rw [hchain]
    exact (reachable_runAdd v.env calls).logged.represents community
  obtain ⟨k, hread, hlast, htaken, hinvalid⟩ := Verification.run_drained hrun hreturned hworkers
  obtain ⟨hpages, hend⟩ := Verification.acceptedOn_of_drained hsize hfits hread hlast
  obtain ⟨hstored, hnodup⟩ := Verification.stored_drained hs hpages
  have hmem := fun tx => @Verification.mem_drained v k hread hpages hend tx
  have hmatching : ∀ tx ∈ v.matching community, tx ∈ v.blockchain.history :=
    fun tx htx => (List.mem_filter.1 htx).1
  have htakenOnce : ∀ tx, Verification.TakenOnce s tx ↔ tx ∈ v.drained k := by
    intro tx
    rw [← htaken]
    exact Verification.takenOnce_iff (htaken ▸ hnodup.of_map _)
  have hreported : ∀ n, n ∈ s.invalidTxNrs ↔
      ∃ tx ∈ v.drained k, tx.id = n ∧ v.hasInvalidSignature tx = true := by
    intro n
    rw [hinvalid.mem_iff, Verification.invalidNrs, List.mem_map]
    constructor
    · rintro ⟨tx, htx, hid⟩
      exact ⟨tx, (List.mem_filter.1 htx).1, hid, (List.mem_filter.1 htx).2⟩
    · rintro ⟨tx, htx, hid, hinv⟩
      exact ⟨tx, List.mem_filter.2 ⟨htx, hinv⟩, hid⟩
  constructor
  · intro h
    refine ⟨fun tx htx => ?_, fun i hi tx htx hinv => ?_⟩
    · obtain ⟨i, htx', hbefore⟩ := (hmem tx).1 ((htakenOnce tx).1 (h.taken tx htx))
      exact ⟨i, htx', fun j hj => hbefore j (Nat.le_of_lt hj)⟩
    · -- a reported number belongs to one stored transaction only
      have hdrained := (hmem tx).2 ⟨i, htx, hi⟩
      obtain ⟨tx', htx', hid, -⟩ := (h.reported tx.id).1
        ((hreported tx.id).2 ⟨tx, hdrained, rfl, hinv⟩)
      have hbyNr := hs.byNr_id (hmatching tx' htx')
      rw [hid, hs.byNr_id (hstored tx hdrained), Option.some.injEq] at hbyNr
      rwa [hbyNr]
  · intro h
    have hreached : ∀ tx ∈ v.matching community, tx ∈ v.drained k := by
      intro tx htx
      obtain ⟨i, htx', hbefore⟩ := h.reached tx htx
      refine (hmem tx).2 ⟨i, htx', fun j hj => ?_⟩
      rcases Nat.lt_or_eq_of_le hj with hlt | rfl
      · exact hbefore j hlt
      · exact List.ne_nil_of_mem htx'
    refine ⟨fun tx htx => (htakenOnce tx).2 (hreached tx htx), ?_, fun n => ?_⟩
    · refine hinvalid.nodup_iff.2 (hnodup.sublist ?_)
      exact List.filter_sublist.map _
    · rw [hreported]
      constructor
      · rintro ⟨tx, htx, hid, hinv⟩
        obtain ⟨i, htx', hbefore⟩ := (hmem tx).1 htx
        exact ⟨tx, h.others i hbefore tx htx' hinv, hid, hinv⟩
      · rintro ⟨tx, htx, hid, hinv⟩
        exact ⟨tx, hreached tx htx, hid, hinv⟩

/-! ### Runs -/

namespace Sample

open Gradido.Sample

/-- A community root, two registrations and 98 transfers. -/
def manyTransfers : List AddCall :=
  setup.map .node ++ (List.range 98).map (fun i : ℕ => .given true 1
    (transaction (240 + i) (signedByKey 11) [memo] (.transfer ⟨⟨11, 50, 1⟩, 21⟩))
    (.legacyGradidoDb .transaction (i + 4)) [⟨11, 0, 1⟩, ⟨21, 50, 1⟩])

/-- The roots among them, verified by one worker. -/
def rootsOfMany : Verification where
  env := env
  blockchain := (runAdd env manyTransfers).findBlockchain 1
  getIndexForData := fun k => k
  filter :=
    { filterFunction := some (fun tx =>
        if tx.body.transactionType = .communityRoot then .USE else .DISMISS) }
  threadCount := 1

/-- The master finds nothing on its first page, and everyone ends. -/
def firstPageEmpty : List VerifyEvent := [.check, .fetch, .take 0, .join]

/-- Then nothing was taken. -/
theorem run_firstPageEmpty {v : Verification} (hthreads : v.threadCount = 1)
    (hpage : v.findPage v.startPage = .ok []) :
    ∃ s, Steps.run v.step v.start firstPageEmpty = some s ∧ s.master = .returned ∧
      s.taken = [] := by
  simp [firstPageEmpty, Steps.run, Verification.step, Verification.masterStep, Verification.start,
    Verification.take, Verification.goTo, Verification.queueSize, WorkerPhase.isFinished, hthreads,
    hpage]

/-- The root is on the second page, and nobody verifies it. -/
theorem rootsOfMany_not_verifiedAll :
    ∃ s, Steps.run rootsOfMany.step rootsOfMany.start firstPageEmpty = some s ∧
      s.master = .returned ∧ ¬ rootsOfMany.VerifiedAll 1 s := by
  have heval : (rootsOfMany.findPage 1).map List.length = .ok 0 ∧
      (rootsOfMany.matching 1).length = 1 := by
    decide +kernel
  obtain ⟨hlength, hmatching⟩ := heval
  have hpage : rootsOfMany.findPage 1 = .ok [] := by
    cases hfound : rootsOfMany.findPage 1 with
    | error e => simp [hfound, Except.map] at hlength
    | ok txs =>
      rw [hfound] at hlength
      obtain rfl : txs = [] := List.length_eq_zero_iff.1 (Except.ok.inj hlength)
      rfl
  obtain ⟨s, hrun, hreturned, htaken⟩ := run_firstPageEmpty (v := rootsOfMany) rfl hpage
  refine ⟨s, hrun, hreturned, fun h => ?_⟩
  obtain ⟨tx, htx⟩ := List.length_pos_iff_exists_mem.1 (hmatching ▸ Nat.one_pos)
  obtain ⟨pre, w, post, hsplit, -⟩ := h.taken tx htx
  exact absurd (htaken.symm.trans hsplit) (by simp)

/-- The three transactions of the set-up, verified by one worker. -/
def allOfSetup : Verification where
  env := env
  blockchain := (runAdd env (setup.map .node)).findBlockchain 1
  getIndexForData := fun k => k
  filter := {}
  threadCount := 1

/-- One page of three, and an empty one. -/
def onePage : List VerifyEvent :=
  [.check, .fetch, .push, .check, .fetch, .take 0, .verify 0, .verify 0, .verify 0, .verify 0,
    .take 0, .join]

theorem run_onePage {v : Verification} (hthreads : v.threadCount = 1)
    {txs : List ConfirmedTransaction} (hlength : txs.length = 3)
    (hpage : v.findPage v.startPage = .ok txs) (hnext : v.findPage (v.startPage + 1) = .ok []) :
    ∃ s, Steps.run v.step v.start onePage = some s ∧ s.master = .returned := by
  obtain ⟨a, b, c, rfl⟩ := List.length_eq_three.1 hlength
  simp [onePage, Steps.run, Verification.step, Verification.masterStep, Verification.start,
    Verification.take, Verification.verify, Verification.goTo, Verification.queueSize,
    Verification.batchSize, WorkerPhase.isFinished, hthreads, hpage, hnext]

theorem allOfSetup_verifiedAll :
    ∃ s, Steps.run allOfSetup.step allOfSetup.start onePage = some s ∧ s.master = .returned ∧
      allOfSetup.VerifiedAll 1 s := by
  have hpages : (allOfSetup.findPage 1).map List.length = .ok 3 ∧
      (allOfSetup.findPage 2).map List.length = .ok 0 ∧ allOfSetup.candidates = [3, 2, 1] ∧
      allOfSetup.blockchain.history.length = 3 := by
    decide +kernel
  obtain ⟨hone, htwo, hcandidates, hlength⟩ := hpages
  cases hfound : allOfSetup.findPage 1 with
  | error e => simp [hfound, Except.map] at hone
  | ok txs =>
    cases hnext : allOfSetup.findPage 2 with
    | error e => simp [hnext, Except.map] at htwo
    | ok rest =>
      rw [hfound] at hone
      rw [hnext] at htwo
      obtain rfl : rest = [] := List.length_eq_zero_iff.1 (Except.ok.inj htwo)
      obtain ⟨s, hrun, hreturned⟩ := run_onePage (v := allOfSetup) rfl (Except.ok.inj hone)
        hfound hnext
      refine ⟨s, hrun, hreturned, (run_verified_iff (setup.map .node) 1 rfl (by decide) rfl
        (by unfold Verification.FitsPages; rw [hcandidates]; decide) hrun hreturned).2 ?_⟩
      have hs := (reachable_runAdd env (setup.map .node)).logged.represents 1
      constructor
      · intro tx htx
        have hmem : tx ∈ allOfSetup.blockchain.history := (List.mem_filter.1 htx).1
        refine ⟨0, ?_, fun j hj => absurd hj (Nat.not_lt_zero j)⟩
        rw [Verification.acceptedOn, takeAccepted_all (m := allOfSetup.filter.matchesFound)
          (fun tx _ => rfl), Verification.block, hcandidates]
        refine List.mem_filterMap.2 ⟨tx.id, ?_, hs.byNr_id hmem⟩
        obtain ⟨hlow, hhigh⟩ := hs.id_le_length hmem
        have hthree : tx.id ≤ 3 := hlength ▸ hhigh
        have hblock : Paging.blockAt [3, 2, 1] allOfSetup.pageSize 0 = [3, 2, 1] := rfl
        rw [hblock]
        simp only [List.mem_cons, List.not_mem_nil, or_false]
        omega
      · intro i _ tx _ hinv
        simp [Verification.hasInvalidSignature, allOfSetup, env] at hinv

end Sample

end Concurrent

end Gradido
