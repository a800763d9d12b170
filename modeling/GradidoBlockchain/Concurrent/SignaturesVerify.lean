import GradidoBlockchain.Blockchain.InMemory
import GradidoBlockchain.Lib.Steps

/-!
# Batch verification of signatures

`verifySignatures` starts workers and fills a queue for them, page by page, from
the search results of a blockchain; the first empty page is the sign that all is
read.  The workers take batches from the queue and note the numbers of the
transactions with an invalid signature.

A step is what the master or a worker does under the lock, or between two locks.
A wait ends when its condition holds; who was notified is left out, since a wait
may end without a notification.
-/

namespace Gradido

namespace Concurrent

/-- What a call of `verifySignatures` works on: the libraries, the blockchain with the keys that its
dictionary knows, the filter, and the number of workers. -/
structure Verification where
  env : Env
  blockchain : InMemory
  getIndexForData : ℕ → ℕ
  filter : Filter
  threadCount : ℕ

/-- Where the master is. -/
inductive MasterPhase
  | checking
  | fetching
  | pushing (transactions : List ConfirmedTransaction)
  | waiting
  | joining
  | returned

/-- Where a worker is, with the batch that is left to verify. -/
inductive WorkerPhase
  | waiting
  | verifying (batch : List ConfirmedTransaction)
  | finished

namespace WorkerPhase

def batch : WorkerPhase → List ConfirmedTransaction
  | .verifying batch => batch
  | _ => []

def isFinished : WorkerPhase → Bool
  | .finished => true
  | _ => false

end WorkerPhase

/-- The shared state, the page of the master, and where everyone is.  `taken` records which worker
took which transaction. -/
structure VerifyState where
  transactionQueue : List ConfirmedTransaction
  invalidTxNrs : List ℕ
  done : Bool
  page : ℕ
  master : MasterPhase
  workers : ℕ → WorkerPhase
  taken : List (ℕ × ConfirmedTransaction)

/-- The steps of the master, and those of a worker. -/
inductive VerifyEvent
  | check
  | fetch
  | push
  | wake
  | join
  | take (worker : ℕ)
  | verify (worker : ℕ)
deriving DecidableEq, Repr

namespace Verification

variable (v : Verification)

/-- The size of the pages that the master requests. -/
def pageSize : ℕ := if v.filter.pagination.size = 0 then 100 else v.filter.pagination.size

/-- The page that the master requests first. -/
def startPage : ℕ := if v.filter.pagination.page = 0 then 1 else v.filter.pagination.page

def queueSize : ℕ := 500 * (v.threadCount + 1)

/-- The largest batch of a worker. -/
def batchSize : ℕ := 500

/-- `blockchain->findAll` for one page. -/
def findPage (page : ℕ) : Except Exception (List ConfirmedTransaction) :=
  v.blockchain.findAllWith v.getIndexForData { v.filter with pagination := ⟨v.pageSize, page⟩ }

/-- The inner loop of a worker: some signature of the transaction is invalid. -/
def hasInvalidSignature (tx : ConfirmedTransaction) : Bool :=
  tx.gradidoTransaction.signatureMap.signaturePairs.any (fun p =>
    !v.env.verify p.publicKey tx.gradidoTransaction.body tx.gradidoTransaction.encoding p.signature)

/-- A worker goes on. -/
def goTo (s : VerifyState) (worker : ℕ) (phase : WorkerPhase) : VerifyState :=
  { s with workers := Function.update s.workers worker phase }

/-- A step of the master. -/
def masterStep (s : VerifyState) : VerifyEvent → Option VerifyState
  | .check =>
    match s.master with
    | .checking =>
      if s.transactionQueue.length < v.queueSize then some { s with master := .fetching }
      else some { s with master := .waiting }
    | _ => none
  | .fetch =>
    match s.master with
    | .fetching =>
      match v.findPage s.page with
      | .error _ => none
      | .ok [] => some { s with done := true, master := .joining }
      | .ok (tx :: txs) => some { s with master := .pushing (tx :: txs) }
    | _ => none
  | .push =>
    match s.master with
    | .pushing transactions =>
      some { s with
        transactionQueue := s.transactionQueue ++ transactions
        page := s.page + 1
        master := .checking }
    | _ => none
  | .wake =>
    match s.master with
    | .waiting =>
      if s.transactionQueue.length < v.queueSize then some { s with master := .checking } else none
    | _ => none
  | .join =>
    match s.master with
    | .joining =>
      if (List.range v.threadCount).all (fun w => (s.workers w).isFinished) = true then
        some { s with master := .returned }
      else none
    | _ => none
  | _ => none

/-- The worker takes a batch, or ends when all is done. -/
def take (s : VerifyState) (worker : ℕ) : Option VerifyState :=
  match s.workers worker with
  | .waiting =>
    if s.transactionQueue = [] then
      if s.done = true then some (goTo s worker .finished) else none
    else
      let batch := s.transactionQueue.take batchSize
      some (goTo { s with
        transactionQueue := s.transactionQueue.drop batchSize
        taken := s.taken ++ batch.map (fun tx => (worker, tx)) } worker (.verifying batch))
  | _ => none

/-- The worker verifies the next transaction of its batch. -/
def verify (s : VerifyState) (worker : ℕ) : Option VerifyState :=
  match s.workers worker with
  | .verifying [] => some (goTo s worker .waiting)
  | .verifying (tx :: batch) =>
    some (goTo { s with
      invalidTxNrs :=
        if v.hasInvalidSignature tx = true then s.invalidTxNrs ++ [tx.id] else s.invalidTxNrs }
      worker (.verifying batch))
  | _ => none

/-- The step of the master or of a worker, when it can take this one. -/
def step (s : VerifyState) : VerifyEvent → Option VerifyState
  | .take worker => if worker < v.threadCount then take s worker else none
  | .verify worker => if worker < v.threadCount then v.verify s worker else none
  | e => v.masterStep s e

/-- The state after the workers are started. -/
def start : VerifyState where
  transactionQueue := []
  invalidTxNrs := []
  done := false
  page := v.startPage
  master := .checking
  workers := fun _ => .waiting
  taken := []

end Verification

end Concurrent

end Gradido
