import GradidoBlockchain.Concurrent.SignaturesVerify

/-!
# The mutex and the condition variables of the batch verification

The steps of `SignaturesVerify` are taken apart: who holds `mtx`, who sleeps on
`cvMasterWorker` or `cvWorkerMaster`, and which notification wakes whom.  A wait
ends when it is notified, or spuriously.

What is done under the mutex is one step, which needs the mutex to be free.  Only
a wait is two: a thread whose predicate was false keeps the mutex until it sleeps,
and in between the master may set `done`, for which it does not take the mutex.
-/

namespace Gradido

namespace Concurrent

/-- The place of the master in `verifySignatures`.

* `checking`, `breaking`, `waiting`: before `lock.lock()` and what follows, the check of the inner
  loop, its `break`, or `cvWorkerMaster.wait`;
* `pushed` and `filled`: without the mutex, before `notify_one` or `notify_all`;
* `drowsy`: its predicate was false, and it holds the mutex. -/
inductive MasterPlace
  | checking
  | fetching
  | pushing (transactions : List ConfirmedTransaction)
  | pushed
  | breaking
  | filled
  | waiting
  | drowsy
  | asleep
  | joining
  | returned

/-- The place of a worker.

* `entering` and `waiting`: before the mutex is locked and the queue or the predicate is checked;
* `notifying`: the queue was empty, before `cvWorkerMaster.notify_one`;
* `drowsy`: its predicate was false, and it holds the mutex. -/
inductive WorkerPlace
  | entering
  | notifying
  | waiting
  | drowsy
  | asleep
  | verifying (batch : List ConfirmedTransaction)
  | finished

namespace MasterPlace

def isReturned : MasterPlace → Bool
  | .returned => true
  | _ => false

/-- What `cvWorkerMaster.notify_one` does to the master. -/
def notified : MasterPlace → MasterPlace
  | .asleep => .waiting
  | place => place

end MasterPlace

namespace WorkerPlace

def isAsleep : WorkerPlace → Bool
  | .asleep => true
  | _ => false

def isFinished : WorkerPlace → Bool
  | .finished => true
  | _ => false

/-- What a notification of `cvMasterWorker` does to a worker. -/
def notified : WorkerPlace → WorkerPlace
  | .asleep => .waiting
  | place => place

end WorkerPlace

/-- The shared state, the page of the master, and the places.  The mutex is locked between two steps
only by who is about to sleep. -/
structure BatchState where
  mtx : Bool
  transactionQueue : List ConfirmedTransaction
  invalidTxNrs : List ℕ
  done : Bool
  page : ℕ
  master : MasterPlace
  workers : ℕ → WorkerPlace
  taken : List (ℕ × ConfirmedTransaction)

/-- Who is next.  `notifyOne` names the worker that `cvMasterWorker.notify_one` wakes, if there is
one; the last two are spurious wake-ups. -/
inductive BatchEvent
  | master
  | notifyOne (woken : Option ℕ)
  | worker (w : ℕ)
  | masterWakes
  | workerWakes (w : ℕ)
deriving DecidableEq, Repr

namespace BatchEvent

def isSpurious : BatchEvent → Bool
  | .masterWakes => true
  | .workerWakes _ => true
  | _ => false

end BatchEvent

namespace Verification

variable (v : Verification)

/-- A worker goes on. -/
def moveTo (s : BatchState) (w : ℕ) (place : WorkerPlace) : BatchState :=
  { s with workers := Function.update s.workers w place }

/-- A step of the master other than `cvMasterWorker.notify_one`. -/
def masterNext (s : BatchState) : Option BatchState :=
  match s.master with
  | .checking =>
    if s.mtx = true then none
    else if s.transactionQueue.length < v.queueSize then some { s with master := .fetching }
    else some { s with master := .filled }
  | .fetching =>
    match v.findPage s.page with
    | .error _ => none
    -- `done` is set without the mutex
    | .ok [] => some { s with done := true, master := .breaking }
    | .ok (tx :: txs) => some { s with master := .pushing (tx :: txs) }
  | .pushing transactions =>
    if s.mtx = true then none
    else some { s with transactionQueue := s.transactionQueue ++ transactions, master := .pushed }
  | .pushed => none
  | .breaking => if s.mtx = true then none else some { s with master := .filled }
  | .filled =>
    -- `cvMasterWorker.notify_all`, and `done` is read without the mutex
    some { s with
      workers := fun w => (s.workers w).notified
      master := if s.done = true then .joining else .waiting }
  | .waiting =>
    if s.mtx = true then none
    -- the wait ends, and the outer loop locks the mutex again
    else if s.transactionQueue.length < v.queueSize then some { s with master := .checking }
    else some { s with mtx := true, master := .drowsy }
  | .drowsy => some { s with mtx := false, master := .asleep }
  | .asleep => none
  | .joining =>
    if (List.range v.threadCount).all (fun w => (s.workers w).isFinished) = true then
      some { s with master := .returned }
    else none
  | .returned => none

/-- `cvMasterWorker.notify_one` and `pagination.page++`: when workers sleep, one of them wakes. -/
def notifyOne (s : BatchState) (woken : Option ℕ) : Option BatchState :=
  match s.master, woken with
  | .pushed, some w =>
    if w < v.threadCount ∧ (s.workers w).isAsleep = true then
      some (moveTo { s with page := s.page + 1, master := .checking } w .waiting)
    else none
  | .pushed, none =>
    if (List.range v.threadCount).any (fun w => (s.workers w).isAsleep) = true then none
    else some { s with page := s.page + 1, master := .checking }
  | _, _ => none

/-- The worker takes a batch. -/
def takeBatch (s : BatchState) (w : ℕ) : BatchState :=
  let batch := s.transactionQueue.take batchSize
  moveTo { s with
    transactionQueue := s.transactionQueue.drop batchSize
    taken := s.taken ++ batch.map (fun tx => (w, tx)) } w (.verifying batch)

/-- A step of a worker. -/
def workerNext (s : BatchState) (w : ℕ) : Option BatchState :=
  match s.workers w with
  | .entering =>
    if s.mtx = true then none
    -- `lock.unlock()` comes before the notification
    else if s.transactionQueue = [] then some (moveTo s w .notifying)
    else some (takeBatch s w)
  | .notifying => some (moveTo { s with master := s.master.notified } w .waiting)
  | .waiting =>
    if s.mtx = true then none
    else if s.transactionQueue ≠ [] then some (takeBatch s w)
    else if s.done = true then some (moveTo s w .finished)
    else some (moveTo { s with mtx := true } w .drowsy)
  | .drowsy => some (moveTo { s with mtx := false } w .asleep)
  | .asleep => none
  | .verifying [] => some (moveTo s w .entering)
  | .verifying (tx :: batch) =>
    -- only a number that is reported needs the mutex
    if v.hasInvalidSignature tx = true then
      if s.mtx = true then none
      else some (moveTo { s with invalidTxNrs := s.invalidTxNrs ++ [tx.id] } w (.verifying batch))
    else some (moveTo s w (.verifying batch))
  | .finished => none

/-- The step of whoever is next, when it can be taken. -/
def next (s : BatchState) : BatchEvent → Option BatchState
  | .master => v.masterNext s
  | .notifyOne woken => v.notifyOne s woken
  | .worker w => if w < v.threadCount then v.workerNext s w else none
  | .masterWakes =>
    match s.master with
    | .asleep => some { s with master := .waiting }
    | _ => none
  | .workerWakes w =>
    if w < v.threadCount ∧ (s.workers w).isAsleep = true then some (moveTo s w .waiting) else none

/-- The state after the workers are started. -/
def begin : BatchState where
  mtx := false
  transactionQueue := []
  invalidTxNrs := []
  done := false
  page := v.startPage
  master := .checking
  workers := fun _ => .entering
  taken := []

end Verification

end Concurrent

end Gradido
