import GradidoBlockchain.Lib.Ownership
import GradidoBlockchain.Memory.Block

/-!
# Who owns a buffer

The places that hold buffers are the positions of the stacks, the local variable
of a thread inside `getBlock`, and the member `mData` of every block.  Each
elementary change of the state is one move, allocation, release or write of the
store that these places form; `Effect` says what it does to the thread that takes
the step and that it leaves the others alone.
-/

namespace Gradido

namespace Memory

open Ownership

/-! ### Places -/

/-- Where an address is held. -/
inductive Place
  | stack (i : Fin 8) (k : ℕ)
  | buffer (t : ℕ)
  | data (t x : ℕ)
deriving DecidableEq

/-- The local variable of `getBlock`. -/
def Control.buffer : Control → Option Address
  | .memset _ _ block => some block
  | .finish _ _ block => some block
  | _ => none

namespace State

/-- The address that a place holds. -/
def held (s : State) : Place → Option Address
  | .stack i k => (s.mBlockStacks i)[k]?
  | .buffer t => (s.threads t).control.buffer
  | .data t x => ((s.threads t).blocks x).bind Block.mData

/-- The buffers behind the places. -/
def store (s : State) : Store Place Address (List UInt8) := ⟨s.held, s.allocated⟩

/-- The bytes behind a place. -/
def view (s : State) (p : Place) : Option (List UInt8) := s.store.view p

@[simp] theorem store_view (s : State) (p : Place) : s.store.view p = s.view p := rfl

theorem held_initial (p : Place) : State.initial.store.held p = none := by
  cases p <;> rfl

theorem owned_initial : State.initial.store.Owned where
  exclusive := by
    intro p q a hp
    rw [held_initial] at hp
    exact absurd hp (Option.some_ne_none a).symm
  allocated := by
    intro a
    refine iff_of_false (fun h => h rfl) ?_
    rintro ⟨p, hp⟩
    rw [held_initial] at hp
    exact absurd hp (Option.some_ne_none a).symm

/-! ### Elementary changes -/

theorem store_setBlock (s : State) (t x : ℕ) (b : Option Block) :
    (s.setBlock t x b).store =
      { s.store with held := Function.update s.store.held (.data t x) (b.bind Block.mData) } := by
  refine congrArg₂ Store.mk (funext fun p => ?_) rfl
  cases p with
  | stack i k => rfl
  | buffer t' =>
    by_cases ht : t' = t
    · subst ht
      simp [held, store, setBlock]
    · simp [held, store, setBlock, ht]
  | data t' x' =>
    by_cases ht : t' = t
    · subst ht
      by_cases hx : x' = x
      · subst hx
        simp [held, store, setBlock]
      · simp [held, store, setBlock, hx]
    · simp [held, store, setBlock, ht]

theorem store_setControl (s : State) (t : ℕ) (c : Control) :
    (s.setControl t c).store =
      { s.store with held := Function.update s.store.held (.buffer t) c.buffer } := by
  refine congrArg₂ Store.mk (funext fun p => ?_) rfl
  cases p with
  | stack i k => rfl
  | buffer t' =>
    by_cases ht : t' = t
    · subst ht
      simp [held, setControl]
    · simp [held, store, setControl, ht]
  | data t' x' =>
    by_cases ht : t' = t
    · subst ht
      simp [held, store, setControl]
    · simp [held, store, setControl, ht]

/-- A stack that gets one more buffer. -/
theorem store_push (s : State) (i : Fin 8) (a : Address) :
    ({ s with mBlockStacks := Function.update s.mBlockStacks i (s.mBlockStacks i ++ [a]) } :
        State).store =
      { s.store with
        held := Function.update s.store.held (.stack i (s.mBlockStacks i).length) (some a) } := by
  refine congrArg₂ Store.mk (funext fun p => ?_) rfl
  cases p with
  | stack j k =>
    by_cases hj : j = i
    · subst hj
      by_cases hk : k = (s.mBlockStacks j).length
      · subst hk
        simp [held]
      · have hne : Place.stack j k ≠ .stack j (s.mBlockStacks j).length := by simpa using hk
        rw [Function.update_of_ne hne]
        simp only [held, store, Function.update_self, List.getElem?_append, List.getElem?_singleton]
        split_ifs with hlt hzero
        · rfl
        · omega
        · exact (List.getElem?_eq_none (by omega)).symm
    · simp [held, store, hj]
  | buffer t => rfl
  | data t x => rfl

/-- A stack that loses its top. -/
theorem store_pop (s : State) (i : Fin 8) :
    ({ s with mBlockStacks := Function.update s.mBlockStacks i (s.mBlockStacks i).dropLast } :
        State).store =
      { s.store with
        held := Function.update s.store.held (.stack i ((s.mBlockStacks i).length - 1)) none } := by
  refine congrArg₂ Store.mk (funext fun p => ?_) rfl
  cases p with
  | stack j k =>
    by_cases hj : j = i
    · subst hj
      by_cases hk : k = (s.mBlockStacks j).length - 1
      · subst hk
        simp [held]
      · have hne : Place.stack j k ≠ .stack j ((s.mBlockStacks j).length - 1) := by simpa using hk
        rw [Function.update_of_ne hne]
        simp only [held, store, Function.update_self, List.getElem?_dropLast]
        split_ifs with hlt
        · rfl
        · exact (List.getElem?_eq_none (by omega)).symm
    · simp [held, store, hj]
  | buffer t => rfl
  | data t x => rfl

theorem store_allocated (s : State) (f : Address → Option (List UInt8)) :
    ({ s with allocated := f } : State).store = { s.store with cell := f } := by
  refine congrArg₂ Store.mk (funext fun p => ?_) rfl
  cases p <;> rfl

end State

/-! ### The stacks -/

/-- The most buffers that a stack keeps: one more than the count that still lets a buffer in. -/
def stackLimit (i : Fin 8) : ℕ := if kBuckets i < 512 then 33 else 9

/-- The limit of 256 for small buffers never matters, since the next one is lower. -/
theorem lt_stackLimit {i : Fin 8} {count : ℕ} (h : isFull (kBuckets i) count = false) :
    count < stackLimit i := by
  simp only [isFull, Bool.or_eq_false_iff, Bool.and_eq_false_iff, decide_eq_false_iff_not] at h
  unfold stackLimit
  split_ifs <;> omega

/-! ### The effect of a step -/

/-- What holds of the stacks. -/
structure State.StacksOk (s : State) : Prop where
  owned : s.store.Owned
  size : ∀ i k l, s.view (.stack i k) = some l → l.length = kBuckets i
  count : ∀ i, (s.mBlockStacks i).length ≤ stackLimit i

/-- A step of thread `t` left it as `th`, with the given bytes in the buffer of `getBlock` and
behind its variables, and changed nothing of the other threads. -/
structure Effect (s s' : State) (t : ℕ) (th : Thread) (buffer : Option (List UInt8))
    (data : ℕ → Option (List UInt8)) : Prop where
  stacksOk : s'.StacksOk
  thread : s'.threads t = th
  buffer : s'.view (.buffer t) = buffer
  data : ∀ x, s'.view (.data t x) = data x
  others : ∀ t', t' ≠ t → s'.threads t' = s.threads t' ∧
    s'.view (.buffer t') = s.view (.buffer t') ∧ ∀ x, s'.view (.data t' x) = s.view (.data t' x)

namespace Effect

variable {s s' s'' : State} {t : ℕ} {th th' : Thread} {buffer buffer' : Option (List UInt8)}
  {data data' : ℕ → Option (List UInt8)}

theorem refl (h : s.StacksOk) (t : ℕ) :
    Effect s s t (s.threads t) (s.view (.buffer t)) (fun x => s.view (.data t x)) where
  stacksOk := h
  thread := rfl
  buffer := rfl
  data := fun _ => rfl
  others := fun _ _ => ⟨rfl, rfl, fun _ => rfl⟩

theorem trans (h : Effect s s' t th buffer data) (h' : Effect s' s'' t th' buffer' data') :
    Effect s s'' t th' buffer' data' where
  stacksOk := h'.stacksOk
  thread := h'.thread
  buffer := h'.buffer
  data := h'.data
  others := by
    intro t' ht'
    obtain ⟨hthread, hbuffer, hdata⟩ := h.others t' ht'
    obtain ⟨hthread', hbuffer', hdata'⟩ := h'.others t' ht'
    exact ⟨hthread'.trans hthread, hbuffer'.trans hbuffer, fun x => (hdata' x).trans (hdata x)⟩

end Effect

/-- An effect from the store afterwards and what its places show. -/
theorem Effect.of_store {s s' : State} {t : ℕ} {th : Thread} {buffer : Option (List UInt8)}
    {data : ℕ → Option (List UInt8)} {S : Store Place Address (List UInt8)}
    {V : Place → Option (List UInt8)} (hstore : s'.store = S) (howned : S.Owned)
    (hview : S.view = V) (hthreads : s'.threads = Function.update s.threads t th)
    (hsize : ∀ i k l, V (.stack i k) = some l → l.length = kBuckets i)
    (hcount : ∀ i, (s'.mBlockStacks i).length ≤ stackLimit i)
    (hbuffer : V (.buffer t) = buffer) (hdata : ∀ x, V (.data t x) = data x)
    (hothers : ∀ t', t' ≠ t → V (.buffer t') = s.view (.buffer t') ∧
      ∀ x, V (.data t' x) = s.view (.data t' x)) :
    Effect s s' t th buffer data := by
  have hV : s'.view = V := by
    rw [← hview, ← hstore]
    rfl
  refine ⟨⟨hstore ▸ howned, hV ▸ hsize, hcount⟩, ?_, hV ▸ hbuffer, hV ▸ hdata, ?_⟩
  · rw [hthreads, Function.update_self]
  · intro t' ht'
    refine ⟨?_, hV ▸ hothers t' ht'⟩
    rw [hthreads, Function.update_of_ne ht']

/-- `clear` leaves an empty block, or a block without memory as it is. -/
def Block.cleared (b : Block) : Block := if b.mData.isSome then ⟨0, none⟩ else b

namespace State

variable {s : State} (h : s.StacksOk) (t : ℕ)

include h

/-- A change of a variable that keeps its address. -/
theorem effect_setBlock (x : ℕ) (b : Option Block)
    (hb : b.bind Block.mData = ((s.threads t).blocks x).bind Block.mData) :
    Effect s (s.setBlock t x b) t
      { s.threads t with blocks := Function.update (s.threads t).blocks x b }
      (s.view (.buffer t)) (fun x => s.view (.data t x)) := by
  have hstore : (s.setBlock t x b).store = s.store := by
    rw [store_setBlock, hb]
    exact congrArg₂ Store.mk (Function.update_eq_self (Place.data t x) s.store.held) rfl
  exact .of_store hstore h.owned rfl rfl h.size h.count rfl (fun _ => rfl)
    (fun _ _ => ⟨rfl, fun _ => rfl⟩)

/-- A thread that goes on with the same buffer. -/
theorem effect_setControl (c : Control) (hc : c.buffer = (s.threads t).control.buffer) :
    Effect s (s.setControl t c) t { s.threads t with control := c }
      (s.view (.buffer t)) (fun x => s.view (.data t x)) := by
  have hstore : (s.setControl t c).store = s.store := by
    rw [store_setControl, hc]
    exact congrArg₂ Store.mk (Function.update_eq_self (Place.buffer t) s.store.held) rfl
  exact .of_store hstore h.owned rfl rfl h.size h.count rfl (fun _ => rfl)
    (fun _ _ => ⟨rfl, fun _ => rfl⟩)

/-- The buffer of a block goes back to the C library. -/
theorem effect_free {x n : ℕ} {a : Address} (hb : (s.threads t).blocks x = some ⟨n, some a⟩) :
    ∃ s', (s.free a).map (fun s => s.setBlock t x (some ⟨0, none⟩)) = some s' ∧
      Effect s s' t
        { s.threads t with blocks := Function.update (s.threads t).blocks x (some ⟨0, none⟩) }
        (s.view (.buffer t)) (Function.update (fun x => s.view (.data t x)) x none) := by
  have hheld : s.store.held (.data t x) = some a := by simp [store, held, hb]
  obtain ⟨l, hl⟩ := h.owned.isSome_cell hheld
  refine ⟨_, by
    rw [free, show s.allocated a = some l from hl, Option.map_some, Option.map_some], ?_⟩
  have hstore : (({ s with allocated := Function.update s.allocated a none } : State).setBlock t x
      (some ⟨0, none⟩)).store = s.store.free (.data t x) a := by
    rw [store_setBlock, store_allocated]
    rfl
  refine .of_store hstore (h.owned.free hheld) (h.owned.view_free hheld) rfl
    (fun i k l hl => h.size i k l (by simpa using hl)) h.count (by simp) ?_ ?_
  · intro x'
    by_cases hx : x' = x
    · subst hx
      simp
    · simp [hx]
  · intro t' ht'
    exact ⟨by simp, fun x' => by simp [ht']⟩

/-- The buffer of a block goes onto a stack. -/
theorem effect_push {x n : ℕ} {a : Address} (hb : (s.threads t).blocks x = some ⟨n, some a⟩)
    {i : Fin 8} (hsize : ∀ l, s.view (.data t x) = some l → l.length = kBuckets i)
    (hfull : isFull (kBuckets i) (s.mBlockStacks i).length = false) :
    Effect s
      (({ s with mBlockStacks := Function.update s.mBlockStacks i (s.mBlockStacks i ++ [a]) } :
        State).setBlock t x (some ⟨0, none⟩)) t
      { s.threads t with blocks := Function.update (s.threads t).blocks x (some ⟨0, none⟩) }
      (s.view (.buffer t)) (Function.update (fun x => s.view (.data t x)) x none) := by
  have hheld : s.store.held (.data t x) = some a := by simp [store, held, hb]
  have htop : s.store.held (.stack i (s.mBlockStacks i).length) = none := by simp [store, held]
  have hstore : (({ s with
      mBlockStacks := Function.update s.mBlockStacks i (s.mBlockStacks i ++ [a]) } :
        State).setBlock t x (some ⟨0, none⟩)).store =
      s.store.move (.data t x) (.stack i (s.mBlockStacks i).length) := by
    rw [store_setBlock, store_push, Store.move, hheld,
      Function.update_comm (by simp : Place.data t x ≠ .stack i (s.mBlockStacks i).length)]
    rfl
  refine .of_store hstore (h.owned.move htop) (Store.view_move _ _ _) rfl ?_ ?_ (by simp) ?_ ?_
  · intro j k l hl
    by_cases hplace : Place.stack j k = .stack i (s.mBlockStacks i).length
    · obtain ⟨rfl, rfl⟩ := Place.stack.inj hplace
      rw [Function.update_self] at hl
      exact hsize l hl
    · rw [Function.update_of_ne hplace, Function.update_of_ne (by simp)] at hl
      exact h.size j k l hl
  · intro j
    by_cases hj : j = i
    · subst hj
      have hlt := lt_stackLimit hfull
      simpa [setBlock, Nat.succ_le_iff] using hlt
    · simpa [setBlock, hj] using h.count j
  · intro x'
    by_cases hx : x' = x
    · subst hx
      simp
    · simp [hx]
  · intro t' ht'
    exact ⟨by simp, fun x' => by simp [ht']⟩

/-- `Block::clear`. -/
theorem effect_clear {x : ℕ} {b : Block} (hb : (s.threads t).blocks x = some b)
    (hsize : ∀ l, s.view (.data t x) = some l → l.length = capacity b.mSize ∧ b.mSize ≠ 0) :
    ∃ s', s.clear t x b = some s' ∧
      Effect s s' t
        { s.threads t with blocks := Function.update (s.threads t).blocks x (some b.cleared) }
        (s.view (.buffer t)) (Function.update (fun x => s.view (.data t x)) x none) := by
  obtain ⟨n, data⟩ := b
  cases data with
  | none =>
    have hnone : s.view (.data t x) = none := Store.view_of_none (by simp [store, held, hb])
    refine ⟨s, rfl, ?_⟩
    have heffect := Effect.refl h t
    rw [show (⟨n, none⟩ : Block).cleared = ⟨n, none⟩ from rfl, ← hb, Function.update_eq_self,
      ← hnone, Function.update_eq_self]
    exact heffect
  | some a =>
    have hheld : s.store.held (.data t x) = some a := by simp [store, held, hb]
    obtain ⟨l, hl⟩ := h.owned.isSome_cell hheld
    obtain ⟨hlength, hne⟩ := hsize l ((Store.view_of_held hheld).trans hl)
    simp only [clear, releaseBlock, if_neg hne, Block.cleared, Option.isSome_some, if_true]
    cases hbucket : roundUpToBucket n with
    | none => exact effect_free h t hb
    | some i =>
      simp only [releaseToStack]
      split_ifs with hfull
      · exact effect_free h t hb
      · refine ⟨_, rfl, effect_push h t hb ?_ (by simpa using hfull)⟩
        intro l' hl'
        obtain rfl : l' = l :=
          Option.some.inj (hl'.symm.trans ((Store.view_of_held hheld).trans hl))
        rw [hlength, capacity, hbucket]

/-- A write through a variable. -/
theorem effect_write {x n pos : ℕ} {a : Address} {l bytes : List UInt8}
    (hb : (s.threads t).blocks x = some ⟨n, some a⟩) (hl : s.view (.data t x) = some l)
    (hpos : pos + bytes.length ≤ l.length) :
    ∃ s', s.write a pos bytes = some s' ∧
      Effect s s' t (s.threads t) (s.view (.buffer t))
        (Function.update (fun x => s.view (.data t x)) x
          (some (l.take pos ++ bytes ++ l.drop (pos + bytes.length)))) := by
  have hheld : s.store.held (.data t x) = some a := by simp [store, held, hb]
  have hcell : s.allocated a = some l := (Store.view_of_held hheld).symm.trans hl
  refine ⟨_, by rw [write, hcell, Option.bind_some, if_pos hpos], ?_⟩
  refine .of_store (store_allocated s _) (h.owned.put hheld _) (h.owned.view_put hheld _)
    (Function.update_eq_self t s.threads).symm ?_ h.count (by simp) ?_ ?_
  · intro i k l' hl'
    exact h.size i k l' (by simpa using hl')
  · intro x'
    by_cases hx : x' = x
    · subst hx
      simp
    · simp [hx]
  · intro t' ht'
    exact ⟨by simp, fun x' => by simp [ht']⟩

/-- `memset` of the buffer of `getBlock`. -/
theorem effect_memset {size : ℕ} {goal : Goal} {a : Address} {l : List UInt8}
    (hc : (s.threads t).control = .memset size goal a) (hl : s.view (.buffer t) = some l)
    (hlength : l.length = capacity size) :
    ∃ s', (s.write a 0 (List.replicate (capacity size) 0)).map
        (fun s => s.setControl t (.finish size goal a)) = some s' ∧
      Effect s s' t { s.threads t with control := .finish size goal a }
        (some (List.replicate (capacity size) 0)) (fun x => s.view (.data t x)) := by
  have hheld : s.store.held (.buffer t) = some a := by simp [store, held, hc, Control.buffer]
  have hcell : s.allocated a = some l := (Store.view_of_held hheld).symm.trans hl
  have hbytes : l.take 0 ++ List.replicate (capacity size) 0 ++
      l.drop (0 + (List.replicate (capacity size) (0 : UInt8)).length) =
      List.replicate (capacity size) 0 := by
    simp [← hlength]
  refine ⟨_, by
    rw [write, hcell, Option.bind_some, if_pos (by simp [hlength]), Option.map_some], ?_⟩
  rw [hbytes]
  have hstore : (({ s with
      allocated := Function.update s.allocated a (some (List.replicate (capacity size) 0)) } :
        State).setControl t (.finish size goal a)).store =
      s.store.put a (List.replicate (capacity size) 0) := by
    rw [store_setControl, store_allocated]
    refine congrArg₂ Store.mk ?_ rfl
    rw [show (Control.finish size goal a).buffer = s.store.held (.buffer t) from hheld.symm]
    exact Function.update_eq_self _ _
  refine .of_store hstore (h.owned.put hheld _) (h.owned.view_put hheld _) rfl ?_ h.count (by simp)
    (by simp) ?_
  · intro i k l' hl'
    exact h.size i k l' (by simpa using hl')
  · intro t' ht'
    exact ⟨by simp [ht'], fun x' => by simp⟩

/-- `malloc` with a new buffer. -/
theorem effect_malloc {size : ℕ} {goal : Goal} {a : Address} {bytes : List UInt8}
    (hc : (s.threads t).control = .malloc size goal) (ha : s.allocated a = none) :
    Effect s (({ s with allocated := Function.update s.allocated a (some bytes) } :
        State).setControl t (.memset size goal a)) t
      { s.threads t with control := .memset size goal a } (some bytes)
      (fun x => s.view (.data t x)) := by
  have hheld : s.store.held (.buffer t) = none := by simp [store, held, hc, Control.buffer]
  have hstore : (({ s with allocated := Function.update s.allocated a (some bytes) } :
      State).setControl t (.memset size goal a)).store = s.store.allocate (.buffer t) a bytes := by
    rw [store_setControl, store_allocated]
    rfl
  refine .of_store hstore (h.owned.allocate hheld ha _) (h.owned.view_allocate _ ha _) rfl ?_
    h.count (by simp) (by simp) ?_
  · intro i k l' hl'
    exact h.size i k l' (by simpa using hl')
  · intro t' ht'
    exact ⟨by simp [ht'], fun x' => by simp⟩

/-- The top of a stack goes to `getBlock`. -/
theorem effect_pop {size : ℕ} {goal : Goal} {a : Address} {i : Fin 8}
    (hc : (s.threads t).control = .pop size goal) (ha : (s.mBlockStacks i).getLast? = some a) :
    ∃ l, l.length = kBuckets i ∧
      Effect s (({ s with
          mBlockStacks := Function.update s.mBlockStacks i (s.mBlockStacks i).dropLast } :
            State).setControl t (.memset size goal a)) t
        { s.threads t with control := .memset size goal a } (some l)
        (fun x => s.view (.data t x)) := by
  have hheld : s.store.held (.buffer t) = none := by simp [store, held, hc, Control.buffer]
  have htop : s.store.held (.stack i ((s.mBlockStacks i).length - 1)) = some a := by
    rw [List.getLast?_eq_getElem?] at ha
    exact ha
  obtain ⟨l, hl⟩ := h.owned.isSome_cell htop
  have hview : s.view (.stack i ((s.mBlockStacks i).length - 1)) = some l :=
    (Store.view_of_held htop).trans hl
  refine ⟨l, h.size _ _ _ hview, ?_⟩
  have hstore : (({ s with
      mBlockStacks := Function.update s.mBlockStacks i (s.mBlockStacks i).dropLast } :
        State).setControl t (.memset size goal a)).store =
      s.store.move (.stack i ((s.mBlockStacks i).length - 1)) (.buffer t) := by
    rw [store_setControl, store_pop, Store.move, htop]
    rfl
  refine .of_store hstore (h.owned.move hheld) (Store.view_move _ _ _) rfl ?_ ?_ (by simp [hview])
    (by simp) ?_
  · intro j k l' hl'
    rw [Function.update_of_ne (by simp)] at hl'
    by_cases hplace : Place.stack j k = .stack i ((s.mBlockStacks i).length - 1)
    · rw [hplace, Function.update_self] at hl'
      exact absurd hl' (Option.some_ne_none l').symm
    · rw [Function.update_of_ne hplace] at hl'
      exact h.size j k l' hl'
  · intro j
    by_cases hj : j = i
    · subst hj
      have hcount := h.count j
      simp only [setControl, Function.update_self, List.length_dropLast]
      omega
    · simpa [setControl, hj] using h.count j
  · intro t' ht'
    exact ⟨by simp [ht'], fun x' => by simp⟩

/-- A variable takes over the zeroed buffer of `getBlock`. -/
theorem effect_bind {size n x : ℕ} {goal : Goal} {a : Address} {l : List UInt8}
    (hc : (s.threads t).control = .finish size goal a) (hl : s.view (.buffer t) = some l)
    (hx : s.view (.data t x) = none) :
    Effect s ((s.setBlock t x (some ⟨n, some a⟩)).setControl t .idle) t
      ⟨Function.update (s.threads t).blocks x (some ⟨n, some a⟩), .idle⟩ none
      (Function.update (fun x => s.view (.data t x)) x (some l)) := by
  have hheld : s.store.held (.buffer t) = some a := by simp [store, held, hc, Control.buffer]
  have hfree : s.store.held (.data t x) = none := h.owned.view_eq_none.1 hx
  have hstore : ((s.setBlock t x (some ⟨n, some a⟩)).setControl t .idle).store =
      s.store.move (.buffer t) (.data t x) := by
    rw [store_setControl, store_setBlock, Store.move, hheld,
      Function.update_comm (by simp : Place.data t x ≠ .buffer t)]
    rfl
  refine .of_store hstore (h.owned.move hfree) (Store.view_move _ _ _) ?_ ?_ h.count (by simp) ?_ ?_
  · simp [setControl, setBlock]
  · intro i k l' hl'
    exact h.size i k l' (by simpa using hl')
  · intro x'
    by_cases hx' : x' = x
    · subst hx'
      simp [hl]
    · simp [hx']
  · intro t' ht'
    exact ⟨by simp [ht'], fun x' => by simp [ht']⟩

/-- The buffer of one variable goes to another one. -/
theorem effect_moveBlock {x other : ℕ} {o : Block} (hne : x ≠ other)
    (ho : (s.threads t).blocks other = some o) (hx : s.view (.data t x) = none) :
    Effect s ((s.setBlock t other (some ⟨0, none⟩)).setBlock t x (some o)) t
      { s.threads t with
        blocks := Function.update (Function.update (s.threads t).blocks other (some ⟨0, none⟩)) x
          (some o) }
      (s.view (.buffer t))
      (Function.update (Function.update (fun x => s.view (.data t x)) other none) x
        (s.view (.data t other))) := by
  have hheld : s.store.held (.data t other) = o.mData := by simp [store, held, ho]
  have hfree : s.store.held (.data t x) = none := h.owned.view_eq_none.1 hx
  have hstore : ((s.setBlock t other (some ⟨0, none⟩)).setBlock t x (some o)).store =
      s.store.move (.data t other) (.data t x) := by
    rw [store_setBlock, store_setBlock, Store.move, hheld]
    rfl
  refine .of_store hstore (h.owned.move hfree) (Store.view_move _ _ _) ?_ ?_ h.count (by simp) ?_ ?_
  · simp [setBlock]
  · intro i k l' hl'
    exact h.size i k l' (by simpa using hl')
  · intro x'
    by_cases hx' : x' = x
    · subst hx'
      simp
    · by_cases ho' : x' = other
      · subst ho'
        simp [hx']
      · simp [hx', ho']
  · intro t' ht'
    exact ⟨by simp, fun x' => by simp [ht']⟩

end State

end Memory

end Gradido
