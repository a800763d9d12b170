import Mathlib.Data.Nat.Basic

/-!
# Checked computations and bounded loops

Two general tools for programs that throw and that loop.

* `throwIf` is the statement `if (b) throw e;` of a checked computation, `when`
  the statement `if (b) { .. }`, and `bind_eq_ok` takes a successful sequence of
  statements apart.
* `iterateWhile` is `while (step(s));` with an explicit bound on the number of
  rounds; `iterateWhile_induction` is its invariant rule and
  `iterateWhile_stopped` says that a measure that the step decreases is bound
  enough.
-/

namespace Checked

universe u v

/-- The largest signed number of 32 bits; to count beyond it is undefined. -/
def intMax : ℕ := 2147483647

variable {ε : Type u} {α β : Type v}

/-- The statement `if (b) throw e;`. -/
def throwIf (b : Bool) (e : ε) : Except ε Unit :=
  if b then .error e else .ok ()

@[simp] theorem throwIf_eq_ok {b : Bool} {e : ε} {u : Unit} :
    throwIf b e = .ok u ↔ b = false := by
  cases b <;> simp [throwIf]

theorem throwIf_false (e : ε) : throwIf false e = .ok () := rfl

/-- A successful statement before another one. -/
theorem ok_bind (a : α) (f : α → Except ε β) : ((.ok a : Except ε α) >>= f) = f a := rfl

@[simp] theorem bind_eq_ok {x : Except ε α} {f : α → Except ε β} {b : β} :
    (x >>= f) = .ok b ↔ ∃ a, x = .ok a ∧ f a = .ok b := by
  cases x with
  | error e => simp [bind, Except.bind]
  | ok a => simp [bind, Except.bind]

/-- What follows a statement only matters for the values that it returns. -/
theorem bind_congr_ok {x : Except ε α} {f g : α → Except ε β} (h : ∀ a, x = .ok a → f a = g a) :
    (x >>= f) = (x >>= g) := by
  cases x with
  | error e => rfl
  | ok a => exact h a rfl

@[simp] theorem pure_eq_ok {a b : α} : (pure a : Except ε α) = .ok b ↔ a = b := by
  simp [pure, Except.pure]

@[simp] theorem throw_ne_ok {e : ε} {b : α} : (throw e : Except ε α) = .ok b ↔ False := by
  simp [throw, throwThe, MonadExceptOf.throw]

/-- The value of an optional lookup, or the exception thrown when it is missing. -/
def orThrow (x : Option α) (e : ε) : Except ε α :=
  match x with
  | some a => .ok a
  | none => .error e

@[simp] theorem orThrow_eq_ok {x : Option α} {e : ε} {a : α} :
    orThrow x e = .ok a ↔ x = some a := by
  cases x <;> simp [orThrow]

/-- The statement `if (b) { x }`. -/
def when (b : Bool) (x : Except ε PUnit) : Except ε PUnit :=
  if b then x else .ok ⟨⟩

@[simp] theorem when_eq_ok {b : Bool} {x : Except ε PUnit} {u : PUnit} :
    when b x = .ok u ↔ (b = true → x = .ok ⟨⟩) := by
  cases b <;> simp [when]

@[simp] theorem exists_unit {P : PUnit → Prop} : (∃ u, P u) ↔ P ⟨⟩ :=
  ⟨fun ⟨_, h⟩ => h, fun h => ⟨_, h⟩⟩

/-! ### State that survives an exception -/

/-- A statement after another one: an exception skips it, but keeps what was already changed. -/
def andThen {σ : Type v} (r : σ × Except ε Unit) (f : σ → σ × Except ε Unit) :
    σ × Except ε Unit :=
  match r with
  | (s, .ok ()) => f s
  | (s, .error e) => (s, .error e)

theorem andThen_pure {σ : Type v} (r : σ × Except ε Unit) :
    andThen r (fun s => (s, .ok ())) = r := by
  obtain ⟨s, e | u⟩ := r <;> rfl

theorem andThen_of_ok {σ : Type v} {r : σ × Except ε Unit} (f : σ → σ × Except ε Unit)
    (h : r.2 = .ok ()) : andThen r f = f r.1 := by
  obtain ⟨s, x⟩ := r
  dsimp only at h
  rw [h]
  rfl

theorem andThen_of_error {σ : Type v} {r : σ × Except ε Unit} (f : σ → σ × Except ε Unit) {e : ε}
    (h : r.2 = .error e) : andThen r f = r := by
  obtain ⟨s, x⟩ := r
  dsimp only at h
  rw [h]
  rfl

theorem andThen_eq_ok {σ : Type v} {r : σ × Except ε Unit} {f : σ → σ × Except ε Unit} {s : σ} :
    andThen r f = (s, .ok ()) ↔ r.2 = .ok () ∧ f r.1 = (s, .ok ()) := by
  cases h : r.2 with
  | ok u => simp [andThen_of_ok f h]
  | error e =>
    rw [andThen_of_error f h]
    simp [Prod.ext_iff, h]

/-- An exception leaves the state as it was. -/
def KeepsState {σ : Type v} (s : σ) (r : σ × Except ε Unit) : Prop := r.2 ≠ .ok () → r.1 = s

theorem keepsState_of_ok {σ : Type v} {s : σ} {r : σ × Except ε Unit} (h : r.2 = .ok ()) :
    KeepsState s r :=
  fun hne => absurd h hne

theorem keepsState_of_error {σ : Type v} {s : σ} {r : σ × Except ε Unit} {e : ε}
    (h : r.2 = .error e) : KeepsState s r ↔ r.1 = s := by
  simp [KeepsState, h]

/-! ### Loops -/

/-- `while (step(s));` with at most `n` rounds: `step s = none` ends the loop. -/
def iterateWhile (step : α → Option α) : ℕ → α → α
  | 0, s => s
  | n + 1, s =>
    match step s with
    | none => s
    | some s' => iterateWhile step n s'

theorem iterateWhile_of_none {step : α → Option α} {s : α} (h : step s = none) (n : ℕ) :
    iterateWhile step n s = s := by
  cases n with
  | zero => rfl
  | succ n => simp only [iterateWhile, h]

theorem iterateWhile_of_some {step : α → Option α} {s s' : α} (h : step s = some s') (n : ℕ) :
    iterateWhile step (n + 1) s = iterateWhile step n s' := by
  simp only [iterateWhile, h]

/-- **Invariant rule.**  What every round preserves holds after the loop. -/
theorem iterateWhile_induction {step : α → Option α} (P : α → Prop)
    (hstep : ∀ s s', P s → step s = some s' → P s') (n : ℕ) {s : α} (hs : P s) :
    P (iterateWhile step n s) := by
  induction n generalizing s with
  | zero => exact hs
  | succ n ih =>
    unfold iterateWhile
    cases h : step s with
    | none => exact hs
    | some s' => exact ih (hstep s s' hs h)

/-- With as many rounds as a measure that the step decreases, the loop has ended. -/
theorem iterateWhile_stopped {step : α → Option α} (P : α → Prop) (μ : α → ℕ)
    (hstep : ∀ s s', P s → step s = some s' → P s' ∧ μ s' < μ s) (n : ℕ) {s : α} (hs : P s)
    (hn : μ s ≤ n) : step (iterateWhile step n s) = none := by
  induction n generalizing s with
  | zero =>
    cases h : step s with
    | none => exact h
    | some s' =>
      have hlt := (hstep s s' hs h).2
      omega
  | succ n ih =>
    unfold iterateWhile
    cases h : step s with
    | none => exact h
    | some s' =>
      obtain ⟨hs', hlt⟩ := hstep s s' hs h
      exact ih hs' (by omega)

/-- Loops whose steps agree on the states that occur are equal. -/
theorem iterateWhile_congr {step step' : α → Option α} (P : α → Prop)
    (heq : ∀ s, P s → step s = step' s) (hstep : ∀ s s', P s → step s = some s' → P s') (n : ℕ)
    {s : α} (hs : P s) : iterateWhile step n s = iterateWhile step' n s := by
  induction n generalizing s with
  | zero => rfl
  | succ n ih =>
    unfold iterateWhile
    rw [← heq s hs]
    cases h : step s with
    | none => rfl
    | some s' => exact ih (hstep s s' hs h)

/-- Loops whose rounds keep a relation between their states keep it as a whole. -/
theorem iterateWhile_rel {step step' : α → Option α} {R : α → α → Prop}
    (hstep : ∀ s t, R s t → Option.Rel R (step s) (step' t)) (n : ℕ) {s t : α} (hst : R s t) :
    R (iterateWhile step n s) (iterateWhile step' n t) := by
  induction n generalizing s t with
  | zero => exact hst
  | succ n ih =>
    unfold iterateWhile
    have h := hstep s t hst
    generalize step s = a at h
    generalize step' t = b at h
    cases h with
    | none => exact hst
    | some hst' => exact ih hst'

end Checked
