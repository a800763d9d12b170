import GradidoBlockchain.Concurrent.Wakeups
import Mathlib.Algebra.Order.BigOperators.Group.Finset

/-!
# Batch verification ends

Every step lowers the number of steps that are left (`rank_next`): a place is paid
for by the page or the batch that led there, and a wake-up by who notifies.  Only
spurious wake-ups are free, so they are counted.
-/

namespace Gradido

namespace Concurrent

open Steps

/-! ### The number of steps that are left -/

/-- What a worker can still do without a new batch.  It pays for waking the master. -/
def WorkerPlace.rank : WorkerPlace → ℕ
  | .entering => 6
  | .notifying => 5
  | .waiting => 2
  | .drowsy => 1
  | .asleep => 0
  | .verifying batch => 7 + batch.length
  | .finished => 0

/-- What the master can still do without a new page, when `n` workers have to be woken at most and
the queue is full or not. -/
def MasterPlace.rank (n : ℕ) (done full : Bool) : MasterPlace → ℕ
  | .checking => if full = true then 4 * n + 10 else 2 * n + 5
  | .fetching => 2 * n + 4
  | .pushing _ => 2 * n + 3
  | .pushed => 4 * n + 13
  | .breaking => 2 * n + 3
  | .filled => if done = true then 2 * n + 2 else 4 * n + 9
  | .waiting => 2 * n + 8
  | .drowsy => 2 * n + 7
  | .asleep => 2 * n + 6
  | .joining => 1
  | .returned => 0

/-- A spurious wake-up costs the steps that lead back to sleep. -/
def BatchEvent.cost (e : BatchEvent) : ℕ := if e.isSpurious = true then 3 else 0

namespace Verification

variable {v : Verification} {s s' : BatchState}

/-- The queue is full. -/
def full (v : Verification) (s : BatchState) : Bool :=
  decide (v.queueSize ≤ s.transactionQueue.length)

def workersRank (v : Verification) (s : BatchState) : ℕ :=
  ∑ w ∈ Finset.range v.threadCount, (s.workers w).rank

/-- The steps that are left, when `k` pages bring something: those for the pages that are not read
yet, for the place of the master, for those of the workers, and for what is not taken yet. -/
def rank (v : Verification) (k : ℕ) (s : BatchState) : ℕ :=
  (2 * v.threadCount + 11) * (v.startPage + k - s.nextPage) +
    s.master.rank v.threadCount s.done (v.full s) + v.workersRank s +
    8 * ((v.drained k).length - s.taken.length)

/-- When a worker goes on, the others keep their rank. -/
theorem workersRank_moveTo {w : ℕ} (hw : w < v.threadCount) (s : BatchState) (place : WorkerPlace) :
    v.workersRank (moveTo s w place) + (s.workers w).rank = v.workersRank s + place.rank := by
  have hmem : w ∈ Finset.range v.threadCount := Finset.mem_range.2 hw
  have hothers : ∑ u ∈ (Finset.range v.threadCount).erase w, ((moveTo s w place).workers u).rank =
      ∑ u ∈ (Finset.range v.threadCount).erase w, (s.workers u).rank := by
    refine Finset.sum_congr rfl (fun u hu => ?_)
    rw [workers_moveTo_of_ne s place (Finset.ne_of_mem_erase hu)]
  have hbefore := Finset.sum_erase_add _ (fun u => (s.workers u).rank) hmem
  have hafter := Finset.sum_erase_add _ (fun u => ((moveTo s w place).workers u).rank) hmem
  simp only [workers_moveTo_self] at hafter
  unfold workersRank
  omega

/-- Waking all workers costs two steps for each of them. -/
theorem workersRank_notified (v : Verification) (s : BatchState) (t : BatchState)
    (h : t.workers = fun w => (s.workers w).notified) :
    v.workersRank t ≤ v.workersRank s + 2 * v.threadCount := by
  have hone : ∀ place : WorkerPlace, place.notified.rank ≤ place.rank + 2 := by
    intro place
    cases place <;> simp [WorkerPlace.notified, WorkerPlace.rank]
  have hsum : v.workersRank t ≤ ∑ w ∈ Finset.range v.threadCount, ((s.workers w).rank + 2) := by
    unfold workersRank
    rw [h]
    exact Finset.sum_le_sum (fun w _ => hone (s.workers w))
  rw [Finset.sum_add_distrib, Finset.sum_const_nat (fun _ _ => rfl), Finset.card_range] at hsum
  unfold workersRank at hsum ⊢
  omega

/-- When a worker goes on, only its own rank changes. -/
theorem rank_moveTo {w : ℕ} (hw : w < v.threadCount) (k : ℕ) (s : BatchState)
    (place : WorkerPlace) :
    v.rank k (moveTo s w place) + (s.workers w).rank = v.rank k s + place.rank := by
  have hworkers := workersRank_moveTo hw s place
  have hpage : (moveTo s w place).nextPage = s.nextPage := rfl
  have hmaster : (moveTo s w place).master.rank v.threadCount (moveTo s w place).done
      (v.full (moveTo s w place)) = s.master.rank v.threadCount s.done (v.full s) := rfl
  have htaken : (moveTo s w place).taken = s.taken := rfl
  unfold rank
  rw [hpage, hmaster, htaken]
  omega

/-- When the master goes on and reads no page, only its own rank changes. -/
theorem rank_of_master (k : ℕ) {t : BatchState} {a c : ℕ} (hpage : t.nextPage = s.nextPage)
    (hworkers : t.workers = s.workers) (htaken : t.taken = s.taken)
    (hrank : t.master.rank v.threadCount t.done (v.full t) + a ≤
      s.master.rank v.threadCount s.done (v.full s) + c) : v.rank k t + a ≤ v.rank k s + c := by
  have hsame : v.workersRank t = v.workersRank s := by
    unfold workersRank
    rw [hworkers]
  unfold rank
  rw [hpage, hsame, htaken]
  omega

/-- With a queue that is less full, the master has less to do. -/
theorem rank_le_of_full (n : ℕ) (done : Bool) {a b : Bool} (h : a = true → b = true)
    (place : MasterPlace) : place.rank n done a ≤ place.rank n done b := by
  cases place <;> simp only [MasterPlace.rank, Nat.le_refl]
  cases a <;> cases b <;> simp at h ⊢
  omega

theorem rank_notified (n : ℕ) (done full : Bool) (place : MasterPlace) :
    place.notified.rank n done full ≤ place.rank n done full + 2 := by
  cases place <;> simp [MasterPlace.notified, MasterPlace.rank]

/-- What was taken, and what is in the queue, was drained. -/
theorem taken_le (hinv : Inv v s.blur) {k : ℕ} (hsearches : v.Searches k) :
    s.taken.length + s.transactionQueue.length ≤ (v.drained k).length := by
  obtain ⟨j, -, hread, hqueue⟩ := hinv.read
  have hlength := congrArg List.length hqueue
  rw [List.length_append, List.length_map] at hlength
  have hprefix : v.drained j <+: v.drained k := by
    obtain ⟨d, rfl⟩ := Nat.exists_eq_add_of_le (hsearches.read_le hread)
    rw [drained, drained, List.range_add, List.flatMap_append]
    exact List.prefix_append _ _
  have hle := hprefix.length_le
  change s.taken.length + s.transactionQueue.length = _ at hlength
  omega

/-- A batch pays for everything that its worker does until the next one. -/
theorem rank_takeBatch (hinv : Inv v s.blur) {k : ℕ} (hsearches : v.Searches k) {w : ℕ}
    (hw : w < v.threadCount) (hne : s.transactionQueue ≠ []) :
    v.rank k (takeBatch s w) + (s.workers w).rank ≤ v.rank k s := by
  have hpos := List.length_pos_iff.2 hne
  have hbound := taken_le hinv hsearches
  set batch := s.transactionQueue.take batchSize with hbatch
  set t : BatchState := { s with
    transactionQueue := s.transactionQueue.drop batchSize
    taken := s.taken ++ batch.map (fun tx => (w, tx)) } with ht
  have hlength : batch.length = min batchSize s.transactionQueue.length := by
    rw [hbatch, List.length_take]
  have hmoved := rank_moveTo hw k t (.verifying batch)
  have hfull : v.full t = true → v.full s = true := by
    simp only [full, ht, List.length_drop, decide_eq_true_eq]
    omega
  have hmaster := rank_le_of_full v.threadCount s.done hfull s.master
  have htaken : t.taken.length = s.taken.length + batch.length := by
    simp [ht]
  -- with eight steps each, even a batch of one pays for the way to the next one
  have hrank : v.rank k t + 8 * batch.length ≤ v.rank k s := by
    unfold rank
    have hpage : t.nextPage = s.nextPage := rfl
    have hworkers : v.workersRank t = v.workersRank s := rfl
    rw [hpage, hworkers, htaken]
    change _ + s.master.rank v.threadCount s.done (v.full t) + _ + _ + _ ≤ _
    omega
  have hworkers : t.workers w = s.workers w := rfl
  change v.rank k (moveTo t w (.verifying batch)) + _ ≤ _
  have hverifying : (WorkerPlace.verifying batch).rank = 7 + batch.length := rfl
  rw [hworkers, hverifying] at hmoved
  simp only [batchSize] at hlength
  omega

/-- A page pays for itself, and for the check that follows it. -/
theorem rank_push (hinv : Inv v s.blur) {k : ℕ} (hsearches : v.Searches k)
    {transactions : List ConfirmedTransaction} (hplace : s.master = .pushing transactions) :
    v.rank k { s with
      transactionQueue := s.transactionQueue ++ transactions, master := .pushed } + 1 ≤
      v.rank k s := by
  -- the page brought something, so it is before the first empty one
  obtain ⟨hpage, hne⟩ := hinv.pushing transactions (by simp [BatchState.blur, hplace]; rfl)
  obtain ⟨j, hj, hread, -⟩ := hinv.read
  have hlt : j < k := by
    refine Nat.lt_of_le_of_ne (hsearches.read_le hread) ?_
    rintro rfl
    rw [hj, hsearches.last, Except.ok.injEq] at hpage
    exact hne hpage.symm
  have hnext : s.nextPage = v.startPage + j := hj
  have hpage' : s.page = v.startPage + j := by
    rw [← hnext, BatchState.nextPage, hplace]
  obtain ⟨m, hm⟩ : ∃ m, v.startPage + k - (v.startPage + j) = m + 1 := ⟨k - j - 1, by omega⟩
  have hm' : v.startPage + k - (v.startPage + j + 1) = m := by
    omega
  unfold rank
  simp only [BatchState.nextPage, hpage', hm, hm', hplace, MasterPlace.rank, workersRank,
    Nat.mul_succ]
  omega

/-- The place of the master pays for waking all workers. -/
theorem rank_notifyAll (k : ℕ) (hplace : s.master = .filled) :
    v.rank k { s with
      workers := fun w => (s.workers w).notified
      master := if s.done = true then .joining else .waiting } + 1 ≤ v.rank k s := by
  set t : BatchState := { s with
    workers := fun w => (s.workers w).notified
    master := if s.done = true then .joining else .waiting } with ht
  have hworkers := workersRank_notified v s t rfl
  have hpage : t.nextPage = s.nextPage := by
    simp only [ht, BatchState.nextPage, hplace]
    split_ifs <;> rfl
  have hmaster : t.master.rank v.threadCount t.done (v.full t) + 2 * v.threadCount + 1 ≤
      s.master.rank v.threadCount s.done (v.full s) := by
    simp only [ht, hplace]
    cases s.done <;> simp [MasterPlace.rank] <;> omega
  unfold rank
  rw [hpage]
  change _ + _ + _ + 8 * ((v.drained k).length - s.taken.length) + 1 ≤ _
  omega

theorem MasterMoves.rank_lt (h : MasterMoves v s s') (hinv : Inv v s.blur) {k : ℕ}
    (hsearches : v.Searches k) : v.rank k s' + 1 ≤ v.rank k s := by
  -- `done` is set before the master breaks, and not while it checks the queue
  have hended : s.done = true ↔ s.master.phase s.done = .joining ∨
      s.master.phase s.done = .returned := hinv.ended
  cases h with
  | room hplace _ hroom =>
    refine rank_of_master (c := 0) k (by simp [BatchState.nextPage, hplace]) rfl rfl ?_
    simp [hplace, MasterPlace.rank, Verification.full, Nat.not_le_of_lt hroom]
  | full hplace _ hfull =>
    have hdone : s.done = false := by
      rw [hplace] at hended
      simpa [MasterPlace.phase] using hended
    refine rank_of_master (c := 0) k (by simp [BatchState.nextPage, hplace]) rfl rfl ?_
    simp [hplace, MasterPlace.rank, Verification.full, hdone, hfull]
  | last hplace _ =>
    refine rank_of_master (c := 0) k (by simp [BatchState.nextPage, hplace]) rfl rfl ?_
    simp [hplace, MasterPlace.rank]
  | page hplace _ _ =>
    refine rank_of_master (c := 0) k (by simp [BatchState.nextPage, hplace]) rfl rfl ?_
    simp [hplace, MasterPlace.rank]
  | push hplace _ => exact rank_push hinv hsearches hplace
  | leave hplace _ =>
    have hdone : s.done = true := by
      rw [hplace] at hended
      simpa [MasterPlace.phase] using hended
    refine rank_of_master (c := 0) k (by simp [BatchState.nextPage, hplace]) rfl rfl ?_
    simp [hplace, MasterPlace.rank, hdone]
  | notifyAll hplace => exact rank_notifyAll k hplace
  | go hplace _ hroom =>
    refine rank_of_master (c := 0) k (by simp [BatchState.nextPage, hplace]) rfl rfl ?_
    simp [hplace, MasterPlace.rank, Verification.full, Nat.not_le_of_lt hroom]
  | wait hplace _ _ =>
    refine rank_of_master (c := 0) k (by simp [BatchState.nextPage, hplace]) rfl rfl ?_
    simp [hplace, MasterPlace.rank]
  | sleep hplace =>
    refine rank_of_master (c := 0) k (by simp [BatchState.nextPage, hplace]) rfl rfl ?_
    simp [hplace, MasterPlace.rank]
  | join hplace _ =>
    refine rank_of_master (c := 0) k (by simp [BatchState.nextPage, hplace]) rfl rfl ?_
    simp [hplace, MasterPlace.rank]

/-- A worker that goes on to a place of lower rank, when nothing else that counts changes. -/
theorem rank_moveTo_lt {w : ℕ} (hw : w < v.threadCount) (k : ℕ) {place : WorkerPlace}
    (hlt : place.rank < (s.workers w).rank) : v.rank k (moveTo s w place) + 1 ≤ v.rank k s := by
  have hmoved := rank_moveTo hw k s place
  omega

theorem WorkerMoves.rank_lt {w : ℕ} (h : WorkerMoves v s w s') (hw : w < v.threadCount)
    (hinv : Inv v s.blur) {k : ℕ} (hsearches : v.Searches k) : v.rank k s' + 1 ≤ v.rank k s := by
  -- the mutex and the reported numbers have no rank
  have hmtx : ∀ b, v.rank k { s with mtx := b } = v.rank k s := fun _ => rfl
  have hnrs : ∀ nrs, v.rank k { s with invalidTxNrs := nrs } = v.rank k s := fun _ => rfl
  cases h with
  | empty hplace _ _ => exact rank_moveTo_lt hw k (by simp [hplace, WorkerPlace.rank])
  | take hplace _ hne =>
    have hbatch := rank_takeBatch hinv hsearches hw hne
    have hpos : 0 < (s.workers w).rank := by
      rcases hplace with hplace | hplace <;> simp [hplace, WorkerPlace.rank]
    omega
  | notify hplace =>
    -- the master may be woken
    set t : BatchState := { s with master := s.master.notified } with ht
    have hpage : t.nextPage = s.nextPage := by
      cases hmaster : s.master <;>
        simp [ht, BatchState.nextPage, hmaster, MasterPlace.notified]
    have hnotified := rank_notified v.threadCount s.done (v.full s) s.master
    have hmaster : v.rank k t + 1 ≤ v.rank k s + 3 :=
      rank_of_master k hpage rfl rfl (Nat.succ_le_succ hnotified)
    have hmoved := rank_moveTo hw k t .waiting
    have hworker : t.workers w = .notifying := hplace
    simp only [hworker, WorkerPlace.rank] at hmoved
    omega
  | finish hplace _ _ _ => exact rank_moveTo_lt hw k (by simp [hplace, WorkerPlace.rank])
  | wait hplace _ _ _ =>
    rw [← hmtx true]
    exact rank_moveTo_lt hw k (by simp [hplace, WorkerPlace.rank])
  | sleep hplace =>
    rw [← hmtx false]
    exact rank_moveTo_lt hw k (by simp [hplace, WorkerPlace.rank])
  | again hplace => exact rank_moveTo_lt hw k (by simp [hplace, WorkerPlace.rank])
  | valid hplace _ => exact rank_moveTo_lt hw k (by simp [hplace, WorkerPlace.rank])
  | @invalid tx _ hplace _ _ =>
    rw [← hnrs (s.invalidTxNrs ++ [tx.id])]
    exact rank_moveTo_lt hw k (by simp [hplace, WorkerPlace.rank])

/-- The master has notified a worker, and checks the queue again. -/
theorem rank_checks (k : ℕ) (hplace : s.master = .pushed) :
    v.rank k { s with page := s.page + 1, master := .checking } + 3 ≤ v.rank k s := by
  refine rank_of_master (c := 0) k (by simp [BatchState.nextPage, hplace]) rfl rfl ?_
  simp only [hplace, MasterPlace.rank]
  split_ifs <;> omega

/-- A worker that wakes has two steps to go back to sleep. -/
theorem rank_wakes {w : ℕ} (hw : w < v.threadCount) (k : ℕ) (s : BatchState) :
    v.rank k (moveTo s w .waiting) ≤ v.rank k s + 2 := by
  have hmoved := rank_moveTo hw k s .waiting
  have hwaiting : WorkerPlace.waiting.rank = 2 := rfl
  omega

/-- **Every step counts.** -/
theorem rank_next (hinv : Inv v s.blur) {k : ℕ} (hsearches : v.Searches k) {e : BatchEvent}
    (h : v.next s e = some s') : v.rank k s' + 1 ≤ v.rank k s + e.cost := by
  cases moves h with
  | master hmoves => exact hmoves.rank_lt hinv hsearches
  | notifies hplace hw _ =>
    have hchecks := rank_checks (v := v) k hplace
    have hwakes := rank_wakes hw k { s with page := s.page + 1, master := .checking }
    exact (Nat.succ_le_succ hwakes).trans hchecks
  | notifiesNobody hplace _ =>
    have hchecks := rank_checks (v := v) k hplace
    omega
  | worker hw hmoves => exact hmoves.rank_lt hw hinv hsearches
  | masterWakes hplace =>
    refine rank_of_master k (by simp [BatchState.nextPage, hplace]) rfl rfl ?_
    simp [hplace, MasterPlace.rank, BatchEvent.cost, BatchEvent.isSpurious]
  | workerWakes hw _ => exact Nat.succ_le_succ (rank_wakes hw k s)

/-! ### Runs -/

theorem rank_begin (k : ℕ) : v.rank k v.begin =
    (2 * v.threadCount + 11) * k + (8 * v.threadCount + 5) + 8 * (v.drained k).length := by
  have hfull : v.full v.begin = false := by
    simp [full, begin, queueSize]
  have hworkers : v.workersRank v.begin = 6 * v.threadCount := by
    have hsum := Finset.sum_const_nat (s := Finset.range v.threadCount) (m := 6)
      (f := fun w => (v.begin.workers w).rank) (fun _ _ => rfl)
    rw [Finset.card_range, Nat.mul_comm] at hsum
    exact hsum
  have hpage : v.startPage + k - v.begin.nextPage = k := Nat.add_sub_cancel_left ..
  have hmaster : v.begin.master.rank v.threadCount v.begin.done (v.full v.begin) =
      2 * v.threadCount + 5 := by
    rw [hfull]
    rfl
  have htaken : v.begin.taken.length = 0 := rfl
  unfold rank
  rw [hworkers, hpage, hmaster, htaken]
  omega

/-- **Every run ends**: spurious wake-ups apart, the number of its steps is bounded by the numbers
of workers, pages and transactions. -/
theorem length_run_le {k : ℕ} (hsearches : v.Searches k) {es : List BatchEvent}
    (hrun : Steps.run v.next v.begin es = some s) :
    es.length ≤ (2 * v.threadCount + 11) * k + (8 * v.threadCount + 5) +
      8 * (v.drained k).length + 3 * es.countP BatchEvent.isSpurious := by
  have hfirst : Inv v v.begin.blur := inv_start v
  have hlength : es.length + v.rank k s ≤
      v.rank k v.begin + 3 * es.countP BatchEvent.isSpurious :=
    length_add_le (I := fun s => Inv v s.blur) (fun _ _ _ h hstep => inv_next h hstep)
      (fun _ _ _ h hstep => rank_next h hsearches hstep) hfirst hrun
  rw [rank_begin] at hlength
  omega

end Verification

end Concurrent

end Gradido
