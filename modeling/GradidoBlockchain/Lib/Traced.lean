import GradidoBlockchain.Lib.Checked

/-!
# Checked computations that keep a record

A `Traced` computation throws or returns like a checked one, and besides it
records values on the way, also before an exception.

* `noted a` records a value and returns it, `lift x` records nothing;
* `result_bind` says that the record does not change what is computed;
* `Keeps P`: every recorded value has a property; `keeps_bind` takes a sequence
  of statements apart.
-/

namespace Checked

variable {ε ω α β : Type}

/-- A computation with what it recorded. -/
structure Traced (ε ω α : Type) where
  trace : List ω
  result : Except ε α

namespace Traced

/-- A checked computation that records nothing. -/
def lift (x : Except ε α) : Traced ε ω α := ⟨[], x⟩

/-- A value that is recorded and returned. -/
def noted (a : ω) : Traced ε ω ω := ⟨[a], .ok a⟩

/-- A statement before another one. -/
def andThen (x : Traced ε ω α) (f : α → Traced ε ω β) : Traced ε ω β :=
  match x.result with
  | .ok a => ⟨x.trace ++ (f a).trace, (f a).result⟩
  | .error e => ⟨x.trace, .error e⟩

instance instMonad : Monad (Traced ε ω) where
  pure a := ⟨[], .ok a⟩
  bind := andThen

@[simp] theorem result_lift (x : Except ε α) : (lift x : Traced ε ω α).result = x := rfl

@[simp] theorem result_noted (a : ω) : (noted a : Traced ε ω ω).result = .ok a := rfl

@[simp] theorem result_pure (a : α) : (pure a : Traced ε ω α).result = .ok a := rfl

/-- **The result** is the one of the computation without a record. -/
@[simp] theorem result_bind (x : Traced ε ω α) (f : α → Traced ε ω β) :
    (x >>= f).result = x.result >>= fun a => (f a).result := by
  change (andThen x f).result = _
  unfold andThen
  cases x.result with
  | ok a => rfl
  | error e => rfl

/-- Every recorded value has a property. -/
def Keeps (P : ω → Prop) (x : Traced ε ω α) : Prop := ∀ a ∈ x.trace, P a

instance decidableKeeps (P : ω → Prop) [DecidablePred P] (x : Traced ε ω α) :
    Decidable (Keeps P x) :=
  inferInstanceAs (Decidable (∀ a ∈ x.trace, P a))

variable {P : ω → Prop}

@[simp] theorem keeps_lift (x : Except ε α) : Keeps P (lift x : Traced ε ω α) := by
  simp [Keeps, lift]

@[simp] theorem keeps_noted (a : ω) : Keeps P (noted a : Traced ε ω ω) ↔ P a := by
  simp [Keeps, noted]

@[simp] theorem keeps_pure (a : α) : Keeps P (pure a : Traced ε ω α) := by
  intro b hb
  cases hb

/-- **A sequence of statements** keeps to a property when each of them does that is reached. -/
@[simp] theorem keeps_bind (x : Traced ε ω α) (f : α → Traced ε ω β) :
    Keeps P (x >>= f) ↔ Keeps P x ∧ ∀ a, x.result = .ok a → Keeps P (f a) := by
  change Keeps P (andThen x f) ↔ _
  unfold andThen
  cases hx : x.result with
  | ok a => simp [Keeps, or_imp, forall_and]
  | error e => simp [Keeps]

/-- A checked computation before another one. -/
theorem keeps_lift_bind (x : Except ε α) (f : α → Traced ε ω β) :
    Keeps P (lift x >>= f) ↔ ∀ a, x = .ok a → Keeps P (f a) := by
  rw [keeps_bind, and_iff_right (keeps_lift x), result_lift]

end Traced

end Checked
