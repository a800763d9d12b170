import GradidoBlockchain.Lib.Steps
import Mathlib.Data.Fin.VecNotation
import Mathlib.Order.Basic

/-!
# Blocks of memory

`memory::Block` owns a byte buffer that the singleton `memory::Manager` hands out
and takes back.  Small sizes are rounded up to a bucket with a stack of released
buffers; a mutex protects each stack, but the buffer is allocated and zeroed
outside of it.

Several threads work with blocks of their own.  An operation on a block starts
with what the thread does by itself (`begin`); when it needs a buffer, it goes on
with a look at the stack under its mutex, perhaps with `malloc`, with `memset` and
with the rest of the operation, and other threads may take steps in between.  A
read or write through an address that is not allocated is undefined: there is no
next state.
-/

namespace Gradido

namespace Memory

/-- The address of a buffer that is not the null pointer. -/
abbrev Address := ℕ

/-! ### The manager -/

/-- `kBuckets`, which are also the sizes that the constructor of `Manager` gives its stacks. -/
def kBuckets : Fin 8 → ℕ := ![16, 32, 64, 128, 256, 512, 1024, 2048]

/-- `Manager::roundUpToBucket`; `-1` is no bucket. -/
def roundUpToBucket (size : ℕ) : Option (Fin 8) :=
  if size ≤ 16 then some 0
  else if size ≤ 32 then some 1
  else if size ≤ 64 then some 2
  else if size ≤ 128 then some 3
  else if size ≤ 256 then some 4
  else if size ≤ 512 then some 5
  else if size ≤ 1024 then some 6
  else if size ≤ 2048 then some 7
  else none

/-- The size of the buffer that `Manager::getBlock` returns for a size. -/
def capacity (size : ℕ) : ℕ :=
  match roundUpToBucket size with
  | some i => kBuckets i
  | none => size

theorem le_capacity (size : ℕ) : size ≤ capacity size := by
  unfold capacity roundUpToBucket
  split_ifs <;> simp [kBuckets] <;> omega

/-- The test of `BlockStack::releaseBlock`: a released buffer does not go back onto the stack. -/
def isFull (mSize count : ℕ) : Bool :=
  decide (mSize < 128) && decide (256 < count) || decide (mSize < 512) && decide (32 < count) ||
    decide (512 ≤ mSize) && decide (8 < count)

/-! ### Threads and their blocks -/

/-- The members of `memory::Block`. -/
structure Block where
  mSize : ℕ
  mData : Option Address
deriving DecidableEq

/-- What a thread does with the buffer that it is about to get. -/
inductive Goal
  /-- `Block(size)`, or `Block(size, data)` with data from outside. -/
  | construct (x : ℕ) (data : Option (List UInt8))
  /-- `Block(const Block& other)`. -/
  | copyConstruct (x other : ℕ)
  /-- `operator=(const Block& other)`, behind `clear`. -/
  | copyAssign (x other : ℕ)
deriving DecidableEq

/-- Where a thread stands in `Manager::getBlock`. -/
inductive Control
  | idle
  | pop (size : ℕ) (goal : Goal)
  | malloc (size : ℕ) (goal : Goal)
  | memset (size : ℕ) (goal : Goal) (block : Address)
  | finish (size : ℕ) (goal : Goal) (block : Address)
deriving DecidableEq

/-- A thread: its variables of type `memory::Block` that are alive, and where it stands. -/
structure Thread where
  blocks : ℕ → Option Block
  control : Control

/-- The allocated buffers with their bytes, the stacks of the manager with the top at the end, and
the threads. -/
structure State where
  allocated : Address → Option (List UInt8)
  mBlockStacks : Fin 8 → List Address
  threads : ℕ → Thread

/-- The start of the program. -/
def State.initial : State where
  allocated := fun _ => none
  mBlockStacks := fun _ => []
  threads := fun _ => ⟨fun _ => none, .idle⟩

namespace State

/-! ### Single accesses -/

/-- `free`. -/
def free (s : State) (a : Address) : Option State :=
  (s.allocated a).map (fun _ => { s with allocated := Function.update s.allocated a none })

/-- A write of bytes from a position on. -/
def write (s : State) (a : Address) (pos : ℕ) (bytes : List UInt8) : Option State :=
  (s.allocated a).bind (fun l =>
    if pos + bytes.length ≤ l.length then
      some { s with
        allocated := Function.update s.allocated a
          (some (l.take pos ++ bytes ++ l.drop (pos + bytes.length))) }
    else none)

/-- A read of the first bytes. -/
def read (s : State) (a : Address) (size : ℕ) : Option (List UInt8) :=
  (s.allocated a).bind (fun l => if size ≤ l.length then some (l.take size) else none)

/-- The state after a change to a variable of a thread. -/
def setBlock (s : State) (t x : ℕ) (b : Option Block) : State :=
  { s with
    threads := Function.update s.threads t
      { s.threads t with blocks := Function.update (s.threads t).blocks x b } }

/-- The state after a thread went on. -/
def setControl (s : State) (t : ℕ) (c : Control) : State :=
  { s with threads := Function.update s.threads t { s.threads t with control := c } }

/-- `BlockStack::releaseBlock`, under the mutex of the stack. -/
def releaseToStack (s : State) (i : Fin 8) (memory : Address) : Option State :=
  if isFull (kBuckets i) (s.mBlockStacks i).length then s.free memory
  else some { s with
    mBlockStacks := Function.update s.mBlockStacks i (s.mBlockStacks i ++ [memory]) }

/-- `Manager::releaseBlock`. -/
def releaseBlock (s : State) (size : ℕ) (data : Address) : Option State :=
  if size = 0 then some s
  else
    match roundUpToBucket size with
    | none => s.free data
    | some i => s.releaseToStack i data

/-- `Block::clear`. -/
def clear (s : State) (t x : ℕ) (b : Block) : Option State :=
  match b.mData with
  | none => some s
  | some data => (s.releaseBlock b.mSize data).map (fun s => s.setBlock t x (some ⟨0, none⟩))

/-- `Manager::getBlock` is entered: no size, no buffer; a size without bucket goes to `malloc`. -/
def getBlock (s : State) (t size : ℕ) (goal : Goal) : State :=
  match roundUpToBucket size with
  | some _ => s.setControl t (.pop size goal)
  | none => s.setControl t (.malloc size goal)

end State

/-! ### Operations -/

/-- What a thread does with its blocks. -/
inductive Operation
  | construct (x size : ℕ)
  | constructFrom (x : ℕ) (data : List UInt8)
  | copyConstruct (x other : ℕ)
  | moveConstruct (x other : ℕ)
  | copyAssign (x other : ℕ)
  | moveAssign (x other : ℕ)
  /-- `block[idx] = value`. -/
  | setByte (x idx : ℕ) (value : UInt8)
  | destroy (x : ℕ)

namespace State

/-- A constructor that calls `getBlock` for a new variable. -/
def construct (s : State) (t x size : ℕ) (goal : Goal) : Option State :=
  match (s.threads t).blocks x with
  | some _ => none
  | none =>
    if size = 0 then some (s.setBlock t x (some ⟨0, none⟩)) else some (s.getBlock t size goal)

/-- What an operation does up to `Manager::getBlock`, or to its end.  Operations on variables that
are not alive are no program. -/
def begin (s : State) (t : ℕ) : Operation → Option State
  | .construct x size => s.construct t x size (.construct x none)
  | .constructFrom x data => s.construct t x data.length (.construct x (some data))
  | .copyConstruct x other => do
    let b ← (s.threads t).blocks other
    s.construct t x b.mSize (.copyConstruct x other)
  | .moveConstruct x other => do
    let b ← (s.threads t).blocks other
    if ((s.threads t).blocks x).isSome then none
    else some ((s.setBlock t other (some ⟨0, none⟩)).setBlock t x (some b))
  | .copyAssign x other => do
    let s ← s.clear t x (← (s.threads t).blocks x)
    let b ← (s.threads t).blocks x
    let o ← (s.threads t).blocks other
    let s := s.setBlock t x (some { b with mSize := o.mSize })
    if o.mSize = 0 then some s else some (s.getBlock t o.mSize (.copyAssign x other))
  | .moveAssign x other => do
    let s ← s.clear t x (← (s.threads t).blocks x)
    let o ← (s.threads t).blocks other
    some ((s.setBlock t x (some o)).setBlock t other (some ⟨0, none⟩))
  | .setByte x idx value => do
    let b ← (s.threads t).blocks x
    let data ← b.mData
    if idx < b.mSize then s.write data idx [value] else none
  | .destroy x => do
    let s ← s.clear t x (← (s.threads t).blocks x)
    some (s.setBlock t x none)

/-- The rest of an operation, with the zeroed buffer. -/
def complete (s : State) (t size : ℕ) (goal : Goal) (block : Address) : Option State :=
  match goal with
  | .construct x none => some (s.setBlock t x (some ⟨size, some block⟩))
  | .construct x (some data) => (s.setBlock t x (some ⟨size, some block⟩)).write block 0 data
  | .copyConstruct x other => do
    let o ← (s.threads t).blocks other
    let s := s.setBlock t x (some ⟨size, some block⟩)
    match o.mData with
    | none => some s
    | some data => s.write block 0 (← s.read data size)
  | .copyAssign x other => do
    let b ← (s.threads t).blocks x
    let s := s.setBlock t x (some { b with mData := some block })
    let o ← (s.threads t).blocks other
    s.write block 0 (← s.read (← o.mData) b.mSize)

end State

/-! ### Steps -/

/-- A step of a thread.  What `malloc` returns is part of the event: the null pointer, or a new
buffer with any bytes. -/
inductive Event
  | call (t : ℕ) (op : Operation)
  | pop (t : ℕ)
  | malloc (t : ℕ) (answer : Option (Address × List UInt8))
  | memset (t : ℕ)
  | finish (t : ℕ)

/-- One step. -/
def step (s : State) : Event → Option State
  | .call t op =>
    match (s.threads t).control with
    | .idle => s.begin t op
    | _ => none
  | .pop t =>
    match (s.threads t).control with
    | .pop size goal => do
      let i ← roundUpToBucket size
      match (s.mBlockStacks i).getLast? with
      | none => some (s.setControl t (.malloc size goal))
      | some block =>
        some (({ s with
          mBlockStacks := Function.update s.mBlockStacks i (s.mBlockStacks i).dropLast } :
            State).setControl t (.memset size goal block))
    | _ => none
  | .malloc t answer =>
    match (s.threads t).control with
    | .malloc size goal =>
      match answer with
      -- `GradidoMemoryAllocationFailed` ends the operation
      | none => some (s.setControl t .idle)
      | some (block, bytes) =>
        if s.allocated block = none ∧ bytes.length = capacity size then
          some (({ s with allocated := Function.update s.allocated block (some bytes) } :
            State).setControl t (.memset size goal block))
        else none
    | _ => none
  | .memset t =>
    match (s.threads t).control with
    | .memset size goal block =>
      (s.write block 0 (List.replicate (capacity size) 0)).map
        (fun s => s.setControl t (.finish size goal block))
    | _ => none
  | .finish t =>
    match (s.threads t).control with
    | .finish size goal block =>
      (s.complete t size goal block).map (fun s => s.setControl t .idle)
    | _ => none

/-! ### A concrete run -/

namespace Sample

/-- Thread zero makes a block of five bytes and destroys it; thread one gets the released buffer for
three bytes. -/
def reuse : List Event :=
  [.call 0 (.construct 0 5), .pop 0, .malloc 0 (some (7, List.replicate 16 255)), .memset 0,
    .finish 0, .call 0 (.destroy 0), .call 1 (.constructFrom 0 [1, 2, 3]), .pop 1, .memset 1,
    .finish 1]

/-- Both blocks are destroyed. -/
def released : List Event := reuse ++ [.call 1 (.destroy 0)]

end Sample

end Memory

end Gradido
