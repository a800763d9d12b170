import GradidoBlockchain.Memory.Ownership

/-!
# Blocks as byte strings

What the blocks of one thread are for, without addresses: every variable holds a
size and its bytes.  `Values.step` is the meaning of the operations on them, and
`run_values` says that in every run of all threads, however their steps
interleave and whatever `malloc` returns, the variables of a thread hold what its
own operations say; `step_isSome_iff` that a step is undefined only where the
operation has no meaning.

Two operations do not keep the value of their source: a block that is assigned to
itself, by copy or by move, is empty afterwards.
-/

namespace Gradido

namespace Memory

open Ownership

/-! ### Values -/

/-- The value of a block: the bytes are missing in an empty block, and in a block whose copy
assignment found no memory. -/
structure Value where
  size : ℕ
  bytes : Option (List UInt8)
deriving DecidableEq

/-- The value after `clear`. -/
def Value.cleared (v : Value) : Value := if v.bytes.isSome then ⟨0, none⟩ else v

/-- The values of the variables of a thread, and the operation that waits for a buffer of a
size. -/
structure Values where
  blocks : ℕ → Option Value
  pending : Option (ℕ × Goal)

/-- No variables. -/
def Values.initial : Values := ⟨fun _ => none, none⟩

/-- What a thread does, as its variables see it: an operation begins, `malloc` fails, or the
operation is completed. -/
inductive Label
  | call (op : Operation)
  | failed
  | completed

namespace Values

/-- The state after a change to a variable. -/
def set (v : Values) (x : ℕ) (b : Option Value) : Values :=
  { v with blocks := Function.update v.blocks x b }

theorem set_comm (v : Values) {x y : ℕ} (hne : x ≠ y) (b b' : Option Value) :
    (v.set x b).set y b' = (v.set y b').set x b := by
  simp [set, Function.update_comm hne]

/-- A constructor for a new variable. -/
def construct (v : Values) (x size : ℕ) (goal : Goal) : Option Values :=
  match v.blocks x with
  | some _ => none
  | none =>
    if size = 0 then some (v.set x (some ⟨0, none⟩))
    else some { v with pending := some (size, goal) }

/-- The begin of an operation. -/
def begin (v : Values) : Operation → Option Values
  | .construct x size => v.construct x size (.construct x none)
  | .constructFrom x data => v.construct x data.length (.construct x (some data))
  | .copyConstruct x other => do
    let b ← v.blocks other
    v.construct x b.size (.copyConstruct x other)
  | .moveConstruct x other => do
    let b ← v.blocks other
    if (v.blocks x).isSome then none else some ((v.set other (some ⟨0, none⟩)).set x (some b))
  | .copyAssign x other => do
    let b ← v.blocks x
    let v := v.set x (some b.cleared)
    let o ← v.blocks other
    let v := v.set x (some ⟨o.size, none⟩)
    if o.size = 0 then some v else some { v with pending := some (o.size, .copyAssign x other) }
  | .moveAssign x other => do
    let b ← v.blocks x
    let v := v.set x (some b.cleared)
    let o ← v.blocks other
    some ((v.set x (some o)).set other (some ⟨0, none⟩))
  | .setByte x idx value => do
    let b ← v.blocks x
    let bytes ← b.bytes
    if idx < b.size then some (v.set x (some ⟨b.size, some (bytes.set idx value)⟩)) else none
  | .destroy x => do
    let _ ← v.blocks x
    some (v.set x none)

/-- The rest of an operation. -/
def complete (v : Values) (size : ℕ) : Goal → Option Values
  | .construct x none => some (v.set x (some ⟨size, some (List.replicate size 0)⟩))
  | .construct x (some data) => some (v.set x (some ⟨size, some data⟩))
  | .copyConstruct x other => do
    let o ← v.blocks other
    some (v.set x (some ⟨size, some (o.bytes.getD (List.replicate size 0))⟩))
  | .copyAssign x other =>
    if x = other then some (v.set x (some ⟨size, some (List.replicate size 0)⟩))
    else do
      let o ← v.blocks other
      let bytes ← o.bytes
      some (v.set x (some ⟨size, some bytes⟩))

/-- One step of the thread. -/
def step (v : Values) : Label → Option Values
  | .call op =>
    match v.pending with
    | none => v.begin op
    | some _ => none
  | .failed => v.pending.map (fun _ => { v with pending := none })
  | .completed => do
    let (size, goal) ← v.pending
    let v ← v.complete size goal
    some { v with pending := none }

end Values

/-! ### The values of the blocks -/

/-- The operation that a thread is in. -/
def Control.pending : Control → Option (ℕ × Goal)
  | .idle => none
  | .pop size goal => some (size, goal)
  | .malloc size goal => some (size, goal)
  | .memset size goal _ => some (size, goal)
  | .finish size goal _ => some (size, goal)

/-- The value of a block with the given bytes behind its address. -/
def Block.value (b : Block) (bytes : Option (List UInt8)) : Value :=
  ⟨b.mSize, bytes.map (List.take b.mSize)⟩

/-- The values of the variables of a thread, with the given bytes behind them. -/
def Thread.values (th : Thread) (data : ℕ → Option (List UInt8)) : Values where
  blocks := fun x => (th.blocks x).map (fun b => b.value (data x))
  pending := th.control.pending

/-- The values of the variables of a thread. -/
def State.values (s : State) (t : ℕ) : Values :=
  (s.threads t).values (fun x => s.view (.data t x))

/-- What a thread sees of a step. -/
def label (t : ℕ) : Event → Option Label
  | .call t' op => if t' = t then some (.call op) else none
  | .malloc t' none => if t' = t then some .failed else none
  | .finish t' => if t' = t then some .completed else none
  | _ => none

/-! ### What holds of a thread -/

/-- Every buffer behind a variable has the capacity of its size. -/
def DataOk (blocks : ℕ → Option Block) (data : ℕ → Option (List UInt8)) : Prop :=
  ∀ x b l, blocks x = some b → data x = some l → l.length = capacity b.mSize ∧ b.mSize ≠ 0

theorem DataOk.update {blocks : ℕ → Option Block} {data : ℕ → Option (List UInt8)}
    (h : DataOk blocks data) (x : ℕ) (b : Option Block) (bytes : Option (List UInt8))
    (hx : ∀ b' l, b = some b' → bytes = some l → l.length = capacity b'.mSize ∧ b'.mSize ≠ 0) :
    DataOk (Function.update blocks x b) (Function.update data x bytes) := by
  intro x' b' l hb hl
  by_cases hx' : x' = x
  · subst hx'
    rw [Function.update_self] at hb hl
    exact hx b' l hb hl
  · rw [Function.update_of_ne hx'] at hb hl
    exact h x' b' l hb hl

/-- The variables of an operation that waits for a buffer. -/
def GoalOk (blocks : ℕ → Option Block) (size : ℕ) : Goal → Prop
  | .construct x data => blocks x = none ∧ ∀ bytes, data = some bytes → bytes.length = size
  | .copyConstruct x other => blocks x = none ∧ ∃ o, blocks other = some o ∧ o.mSize = size
  | .copyAssign x other =>
    blocks x = some ⟨size, none⟩ ∧ ∃ o, blocks other = some o ∧ o.mSize = size

/-- What holds of a thread, with the given bytes in the buffer of `getBlock` and behind its
variables. -/
structure ThreadOk (th : Thread) (buffer : Option (List UInt8))
    (data : ℕ → Option (List UInt8)) : Prop where
  data : DataOk th.blocks data
  goal : ∀ size goal, th.control.pending = some (size, goal) →
    size ≠ 0 ∧ GoalOk th.blocks size goal
  bucket : ∀ size goal, th.control = .pop size goal → ∃ i, roundUpToBucket size = some i
  bufferSize : ∀ size goal l, th.control.pending = some (size, goal) → buffer = some l →
    l.length = capacity size
  zero : ∀ size goal a, th.control = .finish size goal a →
    buffer = some (List.replicate (capacity size) 0)

theorem ThreadOk.of_idle {th : Thread} {buffer : Option (List UInt8)}
    {data : ℕ → Option (List UInt8)} (hidle : th.control = .idle) (hdata : DataOk th.blocks data) :
    ThreadOk th buffer data where
  data := hdata
  goal := by simp [hidle, Control.pending]
  bucket := by simp [hidle]
  bufferSize := by simp [hidle, Control.pending]
  zero := by simp [hidle]

/-- A thread that goes on inside `getBlock`. -/
theorem ThreadOk.inside {th : Thread} {buffer buffer' : Option (List UInt8)}
    {data : ℕ → Option (List UInt8)} (h : ThreadOk th buffer data) {size : ℕ} {goal : Goal}
    (hpending : th.control.pending = some (size, goal)) {c : Control}
    (hc : c.pending = some (size, goal)) (hpop : ∀ size goal, c ≠ .pop size goal)
    (hbuffer : ∀ l, buffer' = some l → l.length = capacity size)
    (hzero : ∀ size goal a, c = .finish size goal a →
      buffer' = some (List.replicate (capacity size) 0)) :
    ThreadOk { th with control := c } buffer' data where
  data := h.data
  goal := by
    intro size' goal' hp
    obtain ⟨rfl, rfl⟩ : size = size' ∧ goal = goal' := by simpa [hc] using hp
    exact h.goal size goal hpending
  bucket := fun size' goal' hpop' => absurd hpop' (hpop size' goal')
  bufferSize := by
    intro size' goal' l hp hl
    obtain ⟨rfl, rfl⟩ : size = size' ∧ goal = goal' := by simpa [hc] using hp
    exact hbuffer l hl
  zero := hzero

/-- What holds in every state. -/
structure State.Invariant (s : State) : Prop where
  stacksOk : s.StacksOk
  thread : ∀ t, ThreadOk (s.threads t) (s.view (.buffer t)) (fun x => s.view (.data t x))

theorem State.invariant_initial : State.initial.Invariant where
  stacksOk :=
    { owned := owned_initial
      size := by
        intro i k l hl
        rw [State.view, Store.view_of_none (held_initial _)] at hl
        exact absurd hl (Option.some_ne_none l).symm
      count := fun i => Nat.zero_le _ }
  thread := fun t => .of_idle rfl (fun x b l hb => absurd hb (Option.some_ne_none b).symm)

/-- The state after a step of a thread, and the values that the thread sees. -/
def Matches (s : State) (t : ℕ) (s' : State) (v : Values) : Prop :=
  ∃ th buffer data, Effect s s' t th buffer data ∧ ThreadOk th buffer data ∧ th.values data = v

theorem Matches.invariant {s s' : State} {t : ℕ} {v : Values} (h : Matches s t s' v)
    (hs : s.Invariant) :
    s'.Invariant ∧ s'.values t = v ∧ ∀ t', t' ≠ t → s'.values t' = s.values t' := by
  obtain ⟨th, buffer, data, heffect, hok, rfl⟩ := h
  have hdata : (fun x => s'.view (.data t x)) = data := funext heffect.data
  refine ⟨⟨heffect.stacksOk, ?_⟩, ?_, ?_⟩
  · intro t'
    by_cases ht : t' = t
    · subst ht
      rw [heffect.thread, heffect.buffer, hdata]
      exact hok
    · obtain ⟨hthread, hbuffer, hdata'⟩ := heffect.others t' ht
      rw [hthread, hbuffer, funext hdata']
      exact hs.thread t'
  · rw [State.values, heffect.thread, hdata]
  · intro t' ht
    obtain ⟨hthread, -, hdata'⟩ := heffect.others t' ht
    rw [State.values, hthread, funext hdata']
    rfl

theorem Matches.trans {s s' s'' : State} {t : ℕ} {v v' : Values} (h : Matches s t s' v)
    (h' : Matches s' t s'' v') : Matches s t s'' v' := by
  obtain ⟨th, buffer, data, heffect, -, -⟩ := h
  obtain ⟨th', buffer', data', heffect', hok, hv⟩ := h'
  exact ⟨th', buffer', data', heffect.trans heffect', hok, hv⟩

theorem Block.mData_cleared (b : Block) : b.cleared.mData = none := by
  obtain ⟨n, data⟩ := b
  cases data <;> rfl

/-! ### Values of changed threads -/

theorem Thread.values_update (th : Thread) (data : ℕ → Option (List UInt8)) (x : ℕ)
    (b : Option Block) (bytes : Option (List UInt8)) :
    ({ th with blocks := Function.update th.blocks x b } : Thread).values
        (Function.update data x bytes) =
      (th.values data).set x (b.map (fun b => b.value bytes)) := by
  refine congrArg₂ Values.mk (funext fun x' => ?_) rfl
  by_cases hx : x' = x
  · subst hx
    simp
  · simp [Thread.values, hx]

theorem Thread.values_setBlock (th : Thread) (data : ℕ → Option (List UInt8)) (x : ℕ)
    (b : Option Block) :
    ({ th with blocks := Function.update th.blocks x b } : Thread).values data =
      (th.values data).set x (b.map (fun b => b.value (data x))) := by
  have h := th.values_update data x b (data x)
  rwa [Function.update_eq_self] at h

namespace State

variable {s : State} (h : s.Invariant) {t : ℕ}

theorem values_blocks (s : State) (t x : ℕ) :
    (s.values t).blocks x =
      ((s.threads t).blocks x).map (fun b => b.value (s.view (.data t x))) := rfl

theorem write_setControl (s : State) (t : ℕ) (c : Control) (a : Address) (pos : ℕ)
    (bytes : List UInt8) :
    (s.write a pos bytes).map (fun s => s.setControl t c) =
      (s.setControl t c).write a pos bytes := by
  unfold write
  rw [show (s.setControl t c).allocated = s.allocated from rfl]
  cases s.allocated a with
  | none => rfl
  | some l =>
    dsimp only [Option.bind_some]
    split_ifs <;> rfl

/-- Two variables that change in either order. -/
theorem setBlock_comm (s : State) (t : ℕ) {x y : ℕ} (hne : x ≠ y) (b b' : Option Block) :
    (s.setBlock t x b).setBlock t y b' = (s.setBlock t y b').setBlock t x b := by
  simp [setBlock, Function.update_comm hne]

theorem view_of_dead {x : ℕ} (hx : (s.threads t).blocks x = none) :
    s.view (.data t x) = none :=
  Store.view_of_none (by simp [store, held, hx])

theorem view_buffer_of_none (hc : (s.threads t).control.buffer = none) :
    s.view (.buffer t) = none :=
  Store.view_of_none hc

include h

/-- A block has bytes when it has an address. -/
theorem Invariant.view_eq_none {x : ℕ} {b : Block} (hb : (s.threads t).blocks x = some b) :
    s.view (.data t x) = none ↔ b.mData = none := by
  have hheld : s.store.held (.data t x) = b.mData := by simp [store, held, hb]
  rw [← hheld]
  exact h.stacksOk.owned.view_eq_none

theorem Invariant.cleared_value {x : ℕ} {b : Block} (hb : (s.threads t).blocks x = some b) :
    (b.value (s.view (.data t x))).cleared = b.cleared.value none := by
  cases hdata : b.mData with
  | none =>
    have hnone := (h.view_eq_none hb).2 hdata
    simp [hnone, Value.cleared, Block.value, Block.cleared, hdata]
  | some a =>
    obtain ⟨l, hl⟩ : ∃ l, s.view (.data t x) = some l := by
      refine Option.ne_none_iff_exists'.1 (fun hnone => ?_)
      rw [h.view_eq_none hb, hdata] at hnone
      exact absurd hnone (Option.some_ne_none a)
    simp [hl, Value.cleared, Block.value, Block.cleared, hdata]

/-! ### Operations that begin -/

/-- A constructor enters `getBlock`. -/
theorem Invariant.matches_getBlock (hidle : (s.threads t).control = .idle) {size : ℕ} {goal : Goal}
    (hsize : size ≠ 0) (hgoal : GoalOk (s.threads t).blocks size goal) :
    Matches s t (s.getBlock t size goal) { s.values t with pending := some (size, goal) } := by
  have hnone : s.view (.buffer t) = none := view_buffer_of_none (by rw [hidle]; rfl)
  have hcontrol : ∀ c : Control, c.buffer = none → c.pending = some (size, goal) →
      (∀ size goal, c = .pop size goal → ∃ i, roundUpToBucket size = some i) →
      Matches s t (s.setControl t c) { s.values t with pending := some (size, goal) } := by
    intro c hbuffer hpending hbucket
    refine ⟨_, _, _, effect_setControl h.stacksOk t c (by rw [hbuffer, hidle]; rfl), ?_, ?_⟩
    · refine ⟨(h.thread t).data, ?_, hbucket, ?_, ?_⟩
      · intro size' goal' hp
        obtain ⟨rfl, rfl⟩ : size = size' ∧ goal = goal' := by simpa [hpending] using hp
        exact ⟨hsize, hgoal⟩
      · intro size' goal' l _ hl
        rw [hnone] at hl
        exact absurd hl (Option.some_ne_none l).symm
      · intro size' goal' a hc
        rw [show c = .finish size' goal' a from hc] at hbuffer
        exact absurd hbuffer (Option.some_ne_none a)
    · exact congrArg (Values.mk _) hpending
  unfold getBlock
  cases hbucket : roundUpToBucket size with
  | none => exact hcontrol (.malloc size goal) rfl rfl (by simp)
  | some i =>
    refine hcontrol (.pop size goal) rfl rfl ?_
    rintro size' goal' hpop
    obtain ⟨rfl, rfl⟩ := Control.pop.inj hpop
    exact ⟨i, hbucket⟩

/-- A change of a variable without memory. -/
theorem Invariant.matches_setBlock (hidle : (s.threads t).control = .idle) {x : ℕ}
    (hx : ((s.threads t).blocks x).bind Block.mData = none) {b : Option Block}
    (hb : b.bind Block.mData = none) :
    Matches s t (s.setBlock t x b) ((s.values t).set x (b.map (fun b => b.value none))) := by
  have hnone : s.view (.data t x) = none := Store.view_of_none hx
  refine ⟨_, _, _, effect_setBlock h.stacksOk t x b (by rw [hb, hx]), ?_, ?_⟩
  · refine .of_idle hidle ?_
    have hdata := (h.thread t).data.update x b none
      (fun b' l _ hl => absurd hl (Option.some_ne_none l).symm)
    rwa [← hnone, Function.update_eq_self (f := fun x => s.view (.data t x))] at hdata
  · rw [Thread.values_setBlock, hnone]
    rfl

/-- `Block::clear`, which never fails. -/
theorem Invariant.matches_clear (hidle : (s.threads t).control = .idle) {x : ℕ} {b : Block}
    (hb : (s.threads t).blocks x = some b) :
    ∃ s', s.clear t x b = some s' ∧
      s'.threads t =
        { s.threads t with blocks := Function.update (s.threads t).blocks x (some b.cleared) } ∧
      Matches s t s' ((s.values t).set x (some (b.value (s.view (.data t x))).cleared)) := by
  obtain ⟨s', hs', heffect⟩ := effect_clear h.stacksOk t hb
    (fun l hl => (h.thread t).data x b l hb hl)
  refine ⟨s', hs', heffect.thread, _, _, _, heffect, ?_, ?_⟩
  · exact .of_idle hidle ((h.thread t).data.update x _ _
      (fun b' l _ hl => absurd hl (Option.some_ne_none l).symm))
  · rw [Thread.values_update, h.cleared_value hb]
    rfl

/-- A constructor begins. -/
theorem Invariant.matches_construct (hidle : (s.threads t).control = .idle) {x size : ℕ}
    {goal : Goal} (hgoal : (s.threads t).blocks x = none → GoalOk (s.threads t).blocks size goal) :
    Option.Rel (Matches s t) (s.construct t x size goal) ((s.values t).construct x size goal) := by
  unfold construct Values.construct
  rw [values_blocks]
  cases hx : (s.threads t).blocks x with
  | some b => exact .none
  | none =>
    dsimp only [Option.map_none]
    split_ifs with hsize
    · exact .some (h.matches_setBlock hidle (by rw [hx]; rfl) rfl)
    · exact .some (h.matches_getBlock hidle hsize (hgoal hx))

theorem Invariant.matches_moveConstruct (hidle : (s.threads t).control = .idle) (x other : ℕ) :
    Option.Rel (Matches s t) (s.begin t (.moveConstruct x other))
      ((s.values t).begin (.moveConstruct x other)) := by
  simp only [begin, Values.begin, values_blocks, Option.bind_eq_bind]
  cases ho : (s.threads t).blocks other with
  | none => exact .none
  | some o =>
    rcases Option.eq_none_or_eq_some ((s.threads t).blocks x) with hx | ⟨b, hx⟩
    · have hne : x ≠ other := by
        rintro rfl
        rw [hx] at ho
        exact absurd ho (Option.some_ne_none o).symm
      have hdead : s.view (.data t x) = none := view_of_dead hx
      simp only [hx, Option.bind_some, Option.map_some, Option.map_none, Option.isSome_none,
        Bool.false_eq_true, if_false]
      refine .some ⟨_, _, _, effect_moveBlock h.stacksOk t hne ho hdead, ?_, ?_⟩
      · refine .of_idle hidle (((h.thread t).data.update other _ _
          (fun b' l _ hl => absurd hl (Option.some_ne_none l).symm)).update x _ _ ?_)
        rintro b' l hb hl
        obtain rfl := Option.some.inj hb
        exact (h.thread t).data other o l ho hl
      · rw [Thread.values_update { s.threads t with
          blocks := Function.update (s.threads t).blocks other (some ⟨0, none⟩) },
          Thread.values_update]
        rfl
    · simp only [hx, Option.bind_some, Option.map_some, Option.isSome_some, if_true]
      exact .none

theorem Invariant.matches_copyAssign (hidle : (s.threads t).control = .idle) (x other : ℕ) :
    Option.Rel (Matches s t) (s.begin t (.copyAssign x other))
      ((s.values t).begin (.copyAssign x other)) := by
  simp only [begin, Values.begin, Option.bind_eq_bind]
  rw [values_blocks]
  cases hb : (s.threads t).blocks x with
  | none => exact .none
  | some b =>
    obtain ⟨s₁, hs₁, hthread₁, hmatches₁⟩ := h.matches_clear hidle hb
    obtain ⟨hinv₁, hvalues₁, -⟩ := hmatches₁.invariant h
    have hidle₁ : (s₁.threads t).control = .idle := by
      rw [hthread₁]
      exact hidle
    have hx₁ : (s₁.threads t).blocks x = some b.cleared := by
      rw [hthread₁]
      exact Function.update_self ..
    simp only [Option.bind_some, Option.map_some, hs₁, hx₁]
    rw [← hvalues₁, values_blocks]
    cases ho : (s₁.threads t).blocks other with
    | none => exact .none
    | some o =>
      dsimp only [Option.bind_some, Option.map_some]
      have hblock : ({ b.cleared with mSize := o.mSize } : Block) = ⟨o.mSize, none⟩ :=
        congrArg (Block.mk o.mSize) b.mData_cleared
      rw [hblock]
      have hmatches₂ : Matches s t (s₁.setBlock t x (some ⟨o.mSize, none⟩))
          ((s₁.values t).set x (some ⟨o.mSize, none⟩)) :=
        hmatches₁.trans (hinv₁.matches_setBlock hidle₁ (by rw [hx₁]; exact b.mData_cleared) rfl)
      rw [show (o.value (s₁.view (.data t other))).size = o.mSize from rfl]
      split_ifs with hsize
      · exact .some hmatches₂
      · obtain ⟨hinv₂, hvalues₂, -⟩ := hmatches₂.invariant h
        have hthread₂ : (s₁.setBlock t x (some ⟨o.mSize, none⟩)).threads t =
            { s₁.threads t with
              blocks := Function.update (s₁.threads t).blocks x (some ⟨o.mSize, none⟩) } := by
          simp [setBlock]
        rw [← hvalues₂]
        refine .some (hmatches₂.trans (hinv₂.matches_getBlock (by rw [hthread₂]; exact hidle₁)
          hsize ?_))
        rw [hthread₂]
        refine ⟨Function.update_self .., ?_⟩
        by_cases hne : other = x
        · subst hne
          exact ⟨_, Function.update_self .., rfl⟩
        · exact ⟨o, (Function.update_of_ne hne ..).trans ho, rfl⟩

theorem Invariant.matches_moveAssign (hidle : (s.threads t).control = .idle) (x other : ℕ) :
    Option.Rel (Matches s t) (s.begin t (.moveAssign x other))
      ((s.values t).begin (.moveAssign x other)) := by
  simp only [begin, Values.begin, Option.bind_eq_bind]
  rw [values_blocks]
  cases hb : (s.threads t).blocks x with
  | none => exact .none
  | some b =>
    obtain ⟨s₁, hs₁, hthread₁, hmatches₁⟩ := h.matches_clear hidle hb
    obtain ⟨hinv₁, hvalues₁, -⟩ := hmatches₁.invariant h
    have hidle₁ : (s₁.threads t).control = .idle := by
      rw [hthread₁]
      exact hidle
    have hx₁ : (s₁.threads t).blocks x = some b.cleared := by
      rw [hthread₁]
      exact Function.update_self ..
    simp only [Option.bind_some, Option.map_some, hs₁]
    rw [← hvalues₁, values_blocks]
    cases ho : (s₁.threads t).blocks other with
    | none => exact .none
    | some o =>
      dsimp only [Option.bind_some, Option.map_some]
      refine .some (hmatches₁.trans ?_)
      by_cases hne : x = other
      · -- a block that is moved to itself
        subst hne
        have hnone : o.mData = none := by
          rw [Option.some.inj (ho.symm.trans hx₁)]
          exact b.mData_cleared
        have hset : (s₁.setBlock t x (some o)).setBlock t x (some ⟨0, none⟩) =
            s₁.setBlock t x (some ⟨0, none⟩) := by
          simp [setBlock]
        have hvalue : ((s₁.values t).set x (some (o.value (s₁.view (.data t x))))).set x
            (some ⟨0, none⟩) = (s₁.values t).set x (some ⟨0, none⟩) := by
          simp [Values.set]
        rw [hset, hvalue]
        exact hinv₁.matches_setBlock hidle₁ (by rw [ho]; exact hnone) rfl
      · rw [setBlock_comm s₁ t hne]
        have hdead : s₁.view (.data t x) = none :=
          (hinv₁.view_eq_none hx₁).2 b.mData_cleared
        refine ⟨_, _, _, effect_moveBlock hinv₁.stacksOk t hne ho hdead, ?_, ?_⟩
        · refine .of_idle hidle₁ (((hinv₁.thread t).data.update other _ _
            (fun b' l _ hl => absurd hl (Option.some_ne_none l).symm)).update x _ _ ?_)
          rintro b' l hb' hl
          obtain rfl := Option.some.inj hb'
          exact (hinv₁.thread t).data other o l ho hl
        · rw [Thread.values_update { s₁.threads t with
            blocks := Function.update (s₁.threads t).blocks other (some ⟨0, none⟩) },
            Thread.values_update]
          exact (Values.set_comm _ hne _ _).symm

/-- A write of one byte within a block. -/
theorem Invariant.matches_setByte (hidle : (s.threads t).control = .idle) (x idx : ℕ)
    (value : UInt8) :
    Option.Rel (Matches s t) (s.begin t (.setByte x idx value))
      ((s.values t).begin (.setByte x idx value)) := by
  simp only [begin, Values.begin, Option.bind_eq_bind]
  rw [values_blocks]
  cases hb : (s.threads t).blocks x with
  | none => exact .none
  | some b =>
    obtain ⟨n, data⟩ := b
    cases data with
    | none =>
      rw [(h.view_eq_none hb).2 rfl]
      exact .none
    | some a =>
      obtain ⟨l, hl⟩ : ∃ l, s.view (.data t x) = some l := by
        refine Option.ne_none_iff_exists'.1 (fun hnone => ?_)
        exact absurd ((h.view_eq_none hb).1 hnone) (Option.some_ne_none a)
      obtain ⟨hlength, -⟩ := (h.thread t).data x ⟨n, some a⟩ l hb hl
      simp only [Option.bind_some, Option.map_some, Block.value, hl]
      split_ifs with hidx
      · have hpos : idx + [value].length ≤ l.length := by
          rw [hlength, List.length_singleton]
          exact le_trans hidx (le_capacity n)
        obtain ⟨s', hs', heffect⟩ := effect_write h.stacksOk t hb hl hpos
        have hset : l.take idx ++ [value] ++ l.drop (idx + [value].length) = l.set idx value := by
          rw [List.length_singleton] at hpos
          rw [List.set_eq_take_append_cons_drop, if_pos (show idx < l.length from hpos),
            List.append_assoc]
          rfl
        rw [hset] at heffect
        rw [hs']
        refine .some ⟨_, _, _, heffect, .of_idle hidle ?_, ?_⟩
        · have hdata := (h.thread t).data.update x (some ⟨n, some a⟩)
            (some (l.set idx value)) ?_
          · rwa [← hb, Function.update_eq_self] at hdata
          · rintro b' l' hb' hl'
            obtain rfl := Option.some.inj hb'
            obtain rfl := Option.some.inj hl'
            rw [List.length_set]
            exact (h.thread t).data x _ l hb hl
        · have hvalues := (s.threads t).values_update (fun x => s.view (.data t x)) x
            (some ⟨n, some a⟩) (some (l.set idx value))
          rw [← hb, Function.update_eq_self, hb] at hvalues
          rw [hvalues, Option.map_some, Block.value, Option.map_some, List.take_set]
          rfl
      · exact .none

theorem Invariant.matches_destroy (hidle : (s.threads t).control = .idle) (x : ℕ) :
    Option.Rel (Matches s t) (s.begin t (.destroy x)) ((s.values t).begin (.destroy x)) := by
  simp only [begin, Values.begin, Option.bind_eq_bind]
  rw [values_blocks]
  cases hb : (s.threads t).blocks x with
  | none => exact .none
  | some b =>
    obtain ⟨s₁, hs₁, hthread₁, hmatches₁⟩ := h.matches_clear hidle hb
    obtain ⟨hinv₁, hvalues₁, -⟩ := hmatches₁.invariant h
    have hx₁ : (s₁.threads t).blocks x = some b.cleared := by
      rw [hthread₁]
      exact Function.update_self ..
    simp only [Option.bind_some, Option.map_some, hs₁]
    have hset : (s.values t).set x none = (s₁.values t).set x none := by
      rw [hvalues₁]
      simp [Values.set]
    rw [hset]
    refine .some (hmatches₁.trans (hinv₁.matches_setBlock ?_ ?_ rfl))
    · rw [hthread₁]
      exact hidle
    · rw [hx₁]
      exact b.mData_cleared

/-- **Operations that begin.**  What a thread does by itself has a meaning exactly when it is
defined, and then it is what happens to the values. -/
theorem Invariant.matches_begin (hidle : (s.threads t).control = .idle) (op : Operation) :
    Option.Rel (Matches s t) (s.begin t op) ((s.values t).begin op) := by
  cases op with
  | construct x size =>
    exact h.matches_construct hidle (fun hx => ⟨hx, by simp⟩)
  | constructFrom x data =>
    refine h.matches_construct hidle (fun hx => ⟨hx, ?_⟩)
    rintro bytes hbytes
    rw [Option.some.inj hbytes]
  | copyConstruct x other =>
    simp only [begin, Values.begin, Option.bind_eq_bind]
    rw [values_blocks]
    cases ho : (s.threads t).blocks other with
    | none => exact .none
    | some o => exact h.matches_construct hidle (fun hx => ⟨hx, o, ho, rfl⟩)
  | moveConstruct x other => exact h.matches_moveConstruct hidle x other
  | copyAssign x other => exact h.matches_copyAssign hidle x other
  | moveAssign x other => exact h.matches_moveAssign hidle x other
  | setByte x idx value => exact h.matches_setByte hidle x idx value
  | destroy x => exact h.matches_destroy hidle x

/-! ### Inside `getBlock` -/

/-- The stack of a bucket is looked at: the thread sees nothing of it. -/
theorem Invariant.matches_pop {size : ℕ} {goal : Goal}
    (hc : (s.threads t).control = .pop size goal) :
    ∃ s', step s (.pop t) = some s' ∧ Matches s t s' (s.values t) := by
  obtain ⟨i, hi⟩ := (h.thread t).bucket size goal hc
  have hpending : (s.threads t).control.pending = some (size, goal) := by
    rw [hc]
    rfl
  have hnone : s.view (.buffer t) = none := view_buffer_of_none (by rw [hc]; rfl)
  simp only [step, hc, hi, Option.bind_eq_bind, Option.bind_some]
  cases htop : (s.mBlockStacks i).getLast? with
  | none =>
    refine ⟨_, rfl, _, _, _, effect_setControl h.stacksOk t _ (by rw [hc]; rfl), ?_,
      congrArg (Values.mk _) hpending.symm⟩
    refine (h.thread t).inside hpending rfl (by simp) ?_ (by simp)
    intro l hl
    rw [hnone] at hl
    exact absurd hl (Option.some_ne_none l).symm
  | some a =>
    obtain ⟨l, hl, heffect⟩ := effect_pop h.stacksOk t hc htop
    refine ⟨_, rfl, _, _, _, heffect, ?_, congrArg (Values.mk _) hpending.symm⟩
    refine (h.thread t).inside hpending rfl (by simp) ?_ (by simp)
    rintro l' hl'
    rw [← Option.some.inj hl', hl, capacity, hi]

theorem Invariant.matches_malloc {size : ℕ} {goal : Goal} {a : Address} {bytes : List UInt8}
    (hc : (s.threads t).control = .malloc size goal) (ha : s.allocated a = none)
    (hlength : bytes.length = capacity size) :
    ∃ s', step s (.malloc t (some (a, bytes))) = some s' ∧ Matches s t s' (s.values t) := by
  have hpending : (s.threads t).control.pending = some (size, goal) := by
    rw [hc]
    rfl
  simp only [step, hc]
  rw [if_pos ⟨ha, hlength⟩]
  refine ⟨_, rfl, _, _, _, effect_malloc h.stacksOk t hc ha, ?_,
    congrArg (Values.mk _) hpending.symm⟩
  refine (h.thread t).inside hpending rfl (by simp) ?_ (by simp)
  rintro l hl
  rw [← Option.some.inj hl, hlength]

/-- `malloc` without memory: the exception ends the operation. -/
theorem Invariant.matches_failed {size : ℕ} {goal : Goal}
    (hc : (s.threads t).control = .malloc size goal) :
    ∃ s', step s (.malloc t none) = some s' ∧
      Matches s t s' { s.values t with pending := none } := by
  simp only [step, hc]
  exact ⟨_, rfl, _, _, _, effect_setControl h.stacksOk t _ (by rw [hc]; rfl),
    .of_idle rfl (h.thread t).data, rfl⟩

theorem Invariant.matches_memset {size : ℕ} {goal : Goal} {a : Address}
    (hc : (s.threads t).control = .memset size goal a) :
    ∃ s', step s (.memset t) = some s' ∧ Matches s t s' (s.values t) := by
  have hpending : (s.threads t).control.pending = some (size, goal) := by
    rw [hc]
    rfl
  have hheld : s.store.held (.buffer t) = some a := by simp [store, held, hc, Control.buffer]
  obtain ⟨l, hl⟩ := h.stacksOk.owned.isSome_cell hheld
  have hview : s.view (.buffer t) = some l := (Store.view_of_held hheld).trans hl
  obtain ⟨s', hs', heffect⟩ := effect_memset h.stacksOk t hc hview
    ((h.thread t).bufferSize size goal l hpending hview)
  simp only [step, hc]
  refine ⟨s', hs', _, _, _, heffect, ?_, congrArg (Values.mk _) hpending.symm⟩
  refine (h.thread t).inside hpending rfl (by simp) ?_ ?_
  · rintro l' hl'
    rw [← Option.some.inj hl', List.length_replicate]
  · rintro size' goal' a' hfinish
    obtain ⟨rfl, -, -⟩ := Control.finish.inj hfinish
    rfl

/-! ### Operations that end -/

/-- The bytes of a block can be read. -/
theorem Invariant.read_block {x n : ℕ} {a : Address}
    (hb : (s.threads t).blocks x = some ⟨n, some a⟩) :
    ∃ l, s.view (.data t x) = some l ∧ s.read a n = some (l.take n) ∧ (l.take n).length = n := by
  have hheld : s.store.held (.data t x) = some a := by simp [store, held, hb]
  obtain ⟨l, hl⟩ := h.stacksOk.owned.isSome_cell hheld
  have hview : s.view (.data t x) = some l := (Store.view_of_held hheld).trans hl
  have hle : n ≤ l.length := by
    rw [((h.thread t).data x _ l hb hview).1]
    exact le_capacity n
  refine ⟨l, hview, ?_, List.length_take_of_le hle⟩
  rw [read, show s.allocated a = some l from hl, Option.bind_some, if_pos hle]

section Finish

variable {size x : ℕ} {goal : Goal} {a : Address}

/-- A variable takes over the zeroed buffer. -/
theorem Invariant.matches_bind (hc : (s.threads t).control = .finish size goal a)
    (hx : s.view (.data t x) = none) :
    Matches s t ((s.setBlock t x (some ⟨size, some a⟩)).setControl t .idle)
      { (s.values t).set x (some ⟨size, some (List.replicate size 0)⟩) with pending := none } := by
  have hzero := (h.thread t).zero size goal a hc
  have hne := ((h.thread t).goal size goal (by rw [hc]; rfl)).1
  refine ⟨_, _, _, effect_bind h.stacksOk t hc hzero hx, .of_idle rfl ?_, ?_⟩
  · refine (h.thread t).data.update x _ _ ?_
    rintro b l hb hl
    rw [← Option.some.inj hb, ← Option.some.inj hl]
    exact ⟨List.length_replicate, hne⟩
  · have hvalues := (⟨(s.threads t).blocks, .idle⟩ : Thread).values_update
      (fun x => s.view (.data t x)) x (some ⟨size, some a⟩)
      (some (List.replicate (capacity size) 0))
    refine hvalues.trans ?_
    rw [Option.map_some, Block.value, Option.map_some, List.take_replicate,
      Nat.min_eq_left (le_capacity size)]
    rfl

/-- A variable takes over the zeroed buffer, and bytes are copied into it. -/
theorem Invariant.matches_fill (hc : (s.threads t).control = .finish size goal a)
    (hx : s.view (.data t x) = none) {bytes : List UInt8} (hlength : bytes.length = size) :
    Option.Rel (Matches s t)
      (((s.setBlock t x (some ⟨size, some a⟩)).write a 0 bytes).map
        (fun s => s.setControl t .idle))
      (some { (s.values t).set x (some ⟨size, some bytes⟩) with pending := none }) := by
  have hmatches := h.matches_bind hc hx
  have hbind := effect_bind (n := size) h.stacksOk t hc ((h.thread t).zero size goal a hc) hx
  obtain ⟨hinv, hvalues, -⟩ := hmatches.invariant h
  rw [write_setControl]
  generalize (s.setBlock t x (some ⟨size, some a⟩)).setControl t .idle = s₁ at *
  have hb : (s₁.threads t).blocks x = some ⟨size, some a⟩ := by
    rw [hbind.thread]
    exact Function.update_self ..
  have hview : s₁.view (.data t x) = some (List.replicate (capacity size) 0) := by
    rw [hbind.data, Function.update_self]
  obtain ⟨s', hs', heffect⟩ := effect_write hinv.stacksOk t hb hview
    (show 0 + bytes.length ≤ (List.replicate (capacity size) (0 : UInt8)).length by
      rw [List.length_replicate, hlength, Nat.zero_add]; exact le_capacity size)
  rw [List.take_zero, List.nil_append, Nat.zero_add] at heffect
  rw [hs']
  refine .some (hmatches.trans ⟨_, _, _, heffect, .of_idle (by rw [hbind.thread]) ?_, ?_⟩)
  · have hdata := (hinv.thread t).data.update x (some ⟨size, some a⟩)
      (some (bytes ++ (List.replicate (capacity size) 0).drop bytes.length)) ?_
    · rwa [← hb, Function.update_eq_self] at hdata
    · rintro b l hb' hl
      obtain rfl := Option.some.inj hb'
      rw [← Option.some.inj hl, List.length_append, List.length_drop, List.length_replicate,
        hlength, Nat.add_sub_cancel' (le_capacity size)]
      exact ⟨rfl, ((h.thread t).goal size goal (by rw [hc]; rfl)).1⟩
  · have hset := (s₁.threads t).values_update (fun x => s₁.view (.data t x)) x
      (some ⟨size, some a⟩) (some (bytes ++ (List.replicate (capacity size) 0).drop bytes.length))
    rw [← hb, Function.update_eq_self, hb] at hset
    rw [hset, Option.map_some, Block.value, Option.map_some, List.take_left' hlength]
    refine (congrArg (fun v => v.set x (some ⟨size, some bytes⟩)) hvalues).trans ?_
    simp [Values.set]

/-- **Operations that end.**  The rest of an operation has a meaning exactly when it is defined. -/
theorem Invariant.matches_complete (hc : (s.threads t).control = .finish size goal a) :
    Option.Rel (Matches s t) ((s.complete t size goal a).map (fun s => s.setControl t .idle))
      ((s.values t).step .completed) := by
  have hgoal := ((h.thread t).goal size goal (by rw [hc]; rfl)).2
  have hpending : (s.values t).pending = some (size, goal) := by
    show (s.threads t).control.pending = _
    rw [hc]
    rfl
  simp only [Values.step, hpending, Option.bind_eq_bind, Option.bind_some]
  cases goal with
  | construct x data =>
    have hx : s.view (.data t x) = none := view_of_dead hgoal.1
    cases data with
    | none => exact .some (h.matches_bind hc hx)
    | some data => exact h.matches_fill hc hx (hgoal.2 data rfl)
  | copyConstruct x other =>
    obtain ⟨hdead, o, ho, rfl⟩ := hgoal
    have hx : s.view (.data t x) = none := view_of_dead hdead
    simp only [complete, Values.complete, values_blocks, ho, Option.bind_eq_bind, Option.bind_some,
      Option.map_some]
    obtain ⟨n, data⟩ := o
    cases data with
    | none =>
      rw [(h.view_eq_none ho).2 rfl]
      exact .some (h.matches_bind hc hx)
    | some b =>
      obtain ⟨l, hl, hread, hlength⟩ := h.read_block ho
      dsimp only
      rw [show (s.setBlock t x (some ⟨n, some a⟩)).read b n = some (l.take n) from hread]
      simpa [hl, Block.value] using h.matches_fill hc hx hlength
  | copyAssign x other =>
    obtain ⟨hx', o, ho, rfl⟩ := hgoal
    have hx : s.view (.data t x) = none := (h.view_eq_none hx').2 rfl
    simp only [complete, Values.complete, values_blocks, hx', Option.bind_eq_bind,
      Option.bind_some]
    by_cases hne : x = other
    · -- a block without memory that is assigned to itself: the zeroed buffer is copied onto itself
      subst hne
      have hheld : s.store.held (.buffer t) = some a := by simp [store, held, hc, Control.buffer]
      have hcell : s.allocated a = some (List.replicate (capacity o.mSize) 0) :=
        (Store.view_of_held hheld).symm.trans ((h.thread t).zero _ _ _ hc)
      have hread : (s.setBlock t x (some ⟨o.mSize, some a⟩)).read a o.mSize =
          some (List.replicate o.mSize 0) := by
        rw [read, show (s.setBlock t x (some ⟨o.mSize, some a⟩)).allocated = s.allocated from rfl,
          hcell, Option.bind_some, if_pos (by simpa using le_capacity o.mSize), List.take_replicate,
          Nat.min_eq_left (le_capacity o.mSize)]
      have hself : ((s.setBlock t x (some ⟨o.mSize, some a⟩)).threads t).blocks x =
          some ⟨o.mSize, some a⟩ := by
        simp [setBlock]
      rw [hself, if_pos rfl]
      dsimp only [Option.bind_some]
      rw [hread]
      exact h.matches_fill hc hx List.length_replicate
    · have ho' : ((s.setBlock t x (some ⟨o.mSize, some a⟩)).threads t).blocks other = some o := by
        simp [setBlock, Ne.symm hne, ho]
      rw [ho', if_neg hne, ho]
      obtain ⟨n, data⟩ := o
      cases data with
      | none =>
        simp only [Option.bind_some, Option.map_some, Option.bind_none, Block.value,
          (h.view_eq_none ho).2 rfl, Option.map_none]
        exact .none
      | some b =>
        obtain ⟨l, hl, hread, hlength⟩ := h.read_block ho
        simp only [Option.bind_some]
        rw [show (s.setBlock t x (some ⟨n, some a⟩)).read b n = some (l.take n) from hread]
        simpa [hl, Block.value] using h.matches_fill hc hx hlength

end Finish

end State

/-! ### Every step -/

/-- The thread that takes a step. -/
def Event.thread : Event → ℕ
  | .call t _ => t
  | .pop t => t
  | .malloc t _ => t
  | .memset t => t
  | .finish t => t

/-- A thread stands where a step can be taken, and `malloc` returns what it may. -/
def Ready (s : State) : Event → Prop
  | .call t _ => (s.threads t).control = .idle
  | .pop t => ∃ size goal, (s.threads t).control = .pop size goal
  | .malloc t answer => ∃ size goal, (s.threads t).control = .malloc size goal ∧
      ∀ a bytes, answer = some (a, bytes) → s.allocated a = none ∧ bytes.length = capacity size
  | .memset t => ∃ size goal a, (s.threads t).control = .memset size goal a
  | .finish t => ∃ size goal a, (s.threads t).control = .finish size goal a

/-- The values of the thread that takes a step, after it. -/
def Values.after (v : Values) (t : ℕ) (e : Event) : Option Values :=
  match label t e with
  | none => some v
  | some l => v.step l

/-- Without the right place or the right answer there is no step. -/
theorem ready_of_step {s s' : State} {e : Event} (hs : step s e = some s') : Ready s e := by
  cases e with
  | call t op =>
    cases hc : (s.threads t).control <;> simp [step, hc] at hs
    exact hc
  | pop t =>
    cases hc : (s.threads t).control <;> simp only [step, hc, reduceCtorEq] at hs
    exact ⟨_, _, hc⟩
  | malloc t answer =>
    cases hc : (s.threads t).control <;> simp only [step, hc, reduceCtorEq] at hs
    refine ⟨_, _, hc, ?_⟩
    rintro a bytes rfl
    dsimp only at hs
    split_ifs at hs with hfresh
    exact hfresh
  | memset t =>
    cases hc : (s.threads t).control <;> simp only [step, hc, reduceCtorEq] at hs
    exact ⟨_, _, _, hc⟩
  | finish t =>
    cases hc : (s.threads t).control <;> simp only [step, hc, reduceCtorEq] at hs
    exact ⟨_, _, _, hc⟩

/-- **One step.**  Where a step can be taken, it is defined exactly when it has a meaning, and then
it leaves the thread with the values that it means. -/
theorem State.Invariant.matches_step {s : State} (h : s.Invariant) {e : Event} (he : Ready s e) :
    Option.Rel (Matches s e.thread) (step s e) ((s.values e.thread).after e.thread e) := by
  cases e with
  | call t op =>
    have hpending : (s.values t).pending = none := by
      show (s.threads t).control.pending = none
      rw [show (s.threads t).control = .idle from he]
      rfl
    simpa [Values.after, label, Event.thread, step, Values.step, hpending,
      show (s.threads t).control = .idle from he] using h.matches_begin he op
  | pop t =>
    obtain ⟨size, goal, hc⟩ := he
    obtain ⟨s', hs', hmatches⟩ := h.matches_pop hc
    rw [hs']
    exact .some hmatches
  | malloc t answer =>
    obtain ⟨size, goal, hc, hanswer⟩ := he
    cases answer with
    | none =>
      obtain ⟨s', hs', hmatches⟩ := h.matches_failed hc
      have hpending : (s.values t).pending = some (size, goal) := by
        show (s.threads t).control.pending = _
        rw [hc]
        rfl
      rw [hs']
      simpa [Values.after, label, Event.thread, Values.step, hpending] using
        Option.Rel.some hmatches
    | some answer =>
      obtain ⟨a, bytes⟩ := answer
      obtain ⟨ha, hlength⟩ := hanswer a bytes rfl
      obtain ⟨s', hs', hmatches⟩ := h.matches_malloc hc ha hlength
      rw [hs']
      exact .some hmatches
  | memset t =>
    obtain ⟨size, goal, a, hc⟩ := he
    obtain ⟨s', hs', hmatches⟩ := h.matches_memset hc
    rw [hs']
    exact .some hmatches
  | finish t =>
    obtain ⟨size, goal, a, hc⟩ := he
    simpa [Values.after, label, Event.thread, step, hc] using h.matches_complete hc

theorem label_of_ne {t : ℕ} {e : Event} (ht : t ≠ e.thread) : label t e = none := by
  cases e with
  | call t' op => exact if_neg (Ne.symm ht)
  | malloc t' answer =>
    cases answer with
    | none => exact if_neg (Ne.symm ht)
    | some answer => rfl
  | finish t' => exact if_neg (Ne.symm ht)
  | _ => rfl

/-- A step keeps the invariant, and every thread has the values that its own part of the step
means. -/
theorem State.Invariant.step {s s' : State} (h : s.Invariant) {e : Event}
    (hs : step s e = some s') :
    s'.Invariant ∧ ∀ t, (s.values t).after t e = some (s'.values t) := by
  have hrel := h.matches_step (ready_of_step hs)
  rw [hs] at hrel
  generalize hv : (s.values e.thread).after e.thread e = v at hrel
  cases hrel with
  | some hmatches =>
    obtain ⟨hinv, hvalues, hothers⟩ := hmatches.invariant h
    refine ⟨hinv, ?_⟩
    intro t
    by_cases ht : t = e.thread
    · rw [ht, hv, hvalues]
    · rw [Values.after, label_of_ne ht, hothers t ht]

/-! ### Runs -/

theorem values_initial (t : ℕ) : State.initial.values t = Values.initial := rfl

theorem State.Invariant.run {s u : State} (h : s.Invariant) {es : List Event}
    (hrun : Steps.run Memory.step s es = some u) :
    u.Invariant ∧
      ∀ t, Steps.run Values.step (s.values t) (es.filterMap (label t)) = some (u.values t) := by
  induction es generalizing s with
  | nil =>
    obtain rfl := Option.some.inj hrun
    exact ⟨h, fun t => rfl⟩
  | cons e es ih =>
    obtain ⟨s', hs', hrun⟩ := Steps.run_cons_eq_some.1 hrun
    obtain ⟨hinv, hvalues⟩ := h.step hs'
    obtain ⟨hu, hlabels⟩ := ih hinv hrun
    refine ⟨hu, ?_⟩
    intro t
    have hafter := hvalues t
    unfold Values.after at hafter
    cases hl : label t e with
    | none =>
      rw [hl] at hafter
      rw [List.filterMap_cons_none hl, Option.some.inj hafter]
      exact hlabels t
    | some l =>
      rw [hl] at hafter
      rw [List.filterMap_cons_some hl]
      exact Steps.run_cons_eq_some.2 ⟨_, hafter, hlabels t⟩

theorem invariant_run {u : State} {es : List Event}
    (hrun : Steps.run step .initial es = some u) : u.Invariant :=
  (State.invariant_initial.run hrun).1

/-- **Blocks are byte strings.**  In every run of all threads, the variables of a thread hold what
the operations of this thread alone say, whatever the other threads do in between and whichever
buffers the manager hands out again. -/
theorem run_values {u : State} {es : List Event} (hrun : Steps.run step .initial es = some u)
    (t : ℕ) :
    Steps.run Values.step Values.initial (es.filterMap (label t)) = some (u.values t) :=
  (State.invariant_initial.run hrun).2 t

theorem run_values_sample :
    ∃ u, Steps.run step .initial Sample.reuse = some u ∧
      Steps.run Values.step Values.initial (Sample.reuse.filterMap (label 1)) =
        some (u.values 1) := by
  obtain ⟨u, hu⟩ := Option.isSome_iff_exists.1
    (show (Steps.run step .initial Sample.reuse).isSome = true by decide)
  exact ⟨u, hu, run_values hu 1⟩

/-- **No access goes wrong.**  After every run a step that a thread can take is defined exactly when
it has a meaning for the values of that thread: no buffer is read, written or freed that is not
allocated. -/
theorem step_isSome_iff {u : State} {es : List Event}
    (hrun : Steps.run step .initial es = some u) (e : Event) :
    (step u e).isSome ↔ Ready u e ∧ ((u.values e.thread).after e.thread e).isSome := by
  constructor
  · intro hs
    obtain ⟨s', hs'⟩ := Option.isSome_iff_exists.1 hs
    refine ⟨ready_of_step hs', ?_⟩
    rw [((invariant_run hrun).step hs').2 e.thread]
    rfl
  · rintro ⟨hready, hmeaning⟩
    have hrel := (invariant_run hrun).matches_step hready
    generalize step u e = s' at hrel
    generalize (u.values e.thread).after e.thread e = v at hrel hmeaning
    cases hrel with
    | some _ => rfl
    | none => exact absurd hmeaning Bool.false_ne_true

theorem step_isSome_iff_sample :
    ∃ u, Steps.run step .initial Sample.reuse = some u ∧
      ((step u (.call 1 (.setByte 0 2 9))).isSome ↔ Ready u (.call 1 (.setByte 0 2 9)) ∧
        ((u.values 1).after 1 (.call 1 (.setByte 0 2 9))).isSome) := by
  obtain ⟨u, hu⟩ := Option.isSome_iff_exists.1
    (show (Steps.run step .initial Sample.reuse).isSome = true by decide)
  exact ⟨u, hu, step_isSome_iff hu _⟩

/-- **Exclusive ownership.**  After every run no buffer is held at two places, the allocated buffers
are exactly the held ones, and the stacks keep at most 33 small and 9 big buffers each. -/
theorem run_owned {u : State} {es : List Event} (hrun : Steps.run step .initial es = some u) :
    (∀ p q a, u.held p = some a → u.held q = some a → p = q) ∧
      (∀ a, u.allocated a ≠ none ↔ ∃ p, u.held p = some a) ∧
      ∀ i, (u.mBlockStacks i).length ≤ if kBuckets i < 512 then 33 else 9 :=
  ⟨(invariant_run hrun).stacksOk.owned.exclusive, (invariant_run hrun).stacksOk.owned.allocated,
    (invariant_run hrun).stacksOk.count⟩

theorem run_owned_sample :
    ∃ u, Steps.run step .initial Sample.reuse = some u ∧
      ∀ p q, u.held p = some 7 → u.held q = some 7 → p = q := by
  obtain ⟨u, hu⟩ := Option.isSome_iff_exists.1
    (show (Steps.run step .initial Sample.reuse).isSome = true by decide)
  exact ⟨u, hu, fun p q => (run_owned hu).1 p q 7⟩

end Memory

end Gradido
