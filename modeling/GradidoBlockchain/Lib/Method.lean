import Mathlib.Logic.Basic

/-!
# Methods: computations on a state that may throw

A `Method` reads and changes a state and returns or throws; what it did before
an exception stays done.  `Returns m s a s'` says that `m`, started on `s`,
returns `a` and leaves `s'`.

`Settled` is for methods that look values up and add the missing ones.  Once such
a method has returned, it returns the same in every later state, and changes
nothing.  The property is closed under sequencing, so it holds of a whole reader
as soon as it holds of its look-ups.
-/

/-- A computation on a state `σ` that returns a value or throws. -/
def Method (ε σ α : Type) : Type := σ → Except ε α × σ

namespace Method

variable {ε σ α β : Type}

/-- One method after the other. -/
def andThen (m : Method ε σ α) (f : α → Method ε σ β) : Method ε σ β := fun s =>
  match m s with
  | (.ok a, s') => f a s'
  | (.error e, s') => (.error e, s')

instance instMonad : Monad (Method ε σ) where
  pure a := fun s => (.ok a, s)
  bind := andThen

/-- A look at the state, which may throw. -/
def read (f : σ → Except ε α) : Method ε σ α := fun s => (f s, s)

/-- A new state. -/
def write (s : σ) : Method ε σ Unit := fun _ => (.ok (), s)

/-- The statement `throw e;`. -/
def raise (e : ε) : Method ε σ α := fun s => (.error e, s)

/-- The statement `try { m } catch (..) { throw e; }`. -/
def orRaise (m : Method ε σ α) (e : ε) : Method ε σ α := fun s =>
  match m s with
  | (.ok a, s') => (.ok a, s')
  | (.error _, s') => (.error e, s')

/-- The method on every element of a list. -/
def forEach (f : α → Method ε σ β) : List α → Method ε σ (List β)
  | [] => pure []
  | a :: as => do
    let b ← f a
    let bs ← forEach f as
    return b :: bs

/-- Started on `s`, the method returns `a` and leaves `s'`. -/
def Returns (m : Method ε σ α) (s : σ) (a : α) (s' : σ) : Prop := m s = (.ok a, s')

section Returns

variable {m : Method ε σ α} {f : α → Method ε σ β} {s s' s'' : σ} {a : α} {b : β}

@[simp] theorem returns_pure {a' : α} :
    Returns (pure a : Method ε σ α) s a' s' ↔ a = a' ∧ s = s' := by
  simp [Returns, pure]

@[simp] theorem returns_read {g : σ → Except ε α} :
    Returns (read g) s a s' ↔ g s = .ok a ∧ s = s' := by
  simp [Returns, read]

@[simp] theorem returns_write {t : σ} {u : Unit} :
    Returns (write t : Method ε σ Unit) s u s' ↔ t = s' := by
  simp [Returns, write]

@[simp] theorem not_returns_raise {e : ε} : ¬Returns (raise e : Method ε σ α) s a s' := by
  simp [Returns, raise]

/-- A sequence returns when its parts do. -/
theorem returns_bind :
    Returns (m >>= f) s b s'' ↔ ∃ a s', Returns m s a s' ∧ Returns (f a) s' b s'' := by
  change andThen m f s = (.ok b, s'') ↔ ∃ a s', m s = (.ok a, s') ∧ f a s' = (.ok b, s'')
  unfold andThen
  cases m s with
  | mk r s₁ =>
    cases r with
    | error e => simp
    | ok a =>
      constructor
      · exact fun h => ⟨a, s₁, rfl, h⟩
      · rintro ⟨a', s', heq, h⟩
        cases heq
        exact h

theorem Returns.bind (hm : Returns m s a s') (hf : Returns (f a) s' b s'') :
    Returns (m >>= f) s b s'' :=
  returns_bind.2 ⟨a, s', hm, hf⟩

theorem Returns.pure (a : α) (s : σ) : Returns (Pure.pure a : Method ε σ α) s a s :=
  returns_pure.2 ⟨rfl, rfl⟩

theorem Returns.readBind {g : σ → Except ε α} (hg : g s = .ok a) (hf : Returns (f a) s b s'') :
    Returns (read g >>= f) s b s'' :=
  (returns_read.2 ⟨hg, rfl⟩).bind hf

theorem Returns.writeBind {t : σ} {f : Unit → Method ε σ β} (hf : Returns (f ()) t b s'') :
    Returns (write t >>= f) s b s'' :=
  returns_bind.2 ⟨(), t, returns_write.2 rfl, hf⟩

@[simp] theorem returns_orRaise {e : ε} : Returns (m.orRaise e) s a s' ↔ Returns m s a s' := by
  unfold Returns orRaise
  cases m s with
  | mk r s₁ => cases r <;> simp

/-- A loop over a list whose elements all leave the state alone. -/
theorem Returns.forEach {g : α → β} {l : List α} (h : ∀ a ∈ l, Returns (f a) s (g a) s) :
    Returns (forEach f l) s (l.map g) s := by
  induction l with
  | nil => exact .pure [] s
  | cons a as ih =>
    have hhead := h a List.mem_cons_self
    have htail := ih (fun c hc => h c (List.mem_cons_of_mem a hc))
    exact hhead.bind (htail.bind (.pure _ s))

end Returns

/-! ### Look-ups that add what is missing -/

section Settled

variable (Later : σ → σ → Prop)

/-- Once it has returned, the method returns the same in every later state, and changes
nothing. -/
def Settled (m : Method ε σ α) : Prop :=
  ∀ s a s', Returns m s a s' → Later s s' ∧ ∀ u, Later s' u → Returns m u a u

variable {Later} {m : Method ε σ α} {f : α → Method ε σ β}

theorem Settled.pure (hrefl : ∀ s, Later s s) (a : α) :
    Settled Later (Pure.pure a : Method ε σ α) := by
  intro s b s' h
  obtain ⟨rfl, rfl⟩ := returns_pure.1 h
  exact ⟨hrefl s, fun u _ => .pure a u⟩

theorem Settled.raise (e : ε) : Settled Later (raise e : Method ε σ α) :=
  fun _ _ _ h => absurd h not_returns_raise

/-- A look at something that a later state still has. -/
theorem Settled.read (hrefl : ∀ s, Later s s) {g : σ → Except ε α}
    (h : ∀ s a u, g s = .ok a → Later s u → g u = .ok a) : Settled Later (read g) := by
  intro s a s' hs
  obtain ⟨hg, rfl⟩ := returns_read.1 hs
  exact ⟨hrefl s, fun u hu => returns_read.2 ⟨h s a u hg hu, rfl⟩⟩

theorem Settled.bind (htrans : ∀ s t u, Later s t → Later t u → Later s u)
    (hm : Settled Later m) (hf : ∀ a, Settled Later (f a)) : Settled Later (m >>= f) := by
  intro s b s'' h
  obtain ⟨a, s', hma, hfb⟩ := returns_bind.1 h
  obtain ⟨hlater, hagain⟩ := hm s a s' hma
  obtain ⟨hlater', hagain'⟩ := hf a s' b s'' hfb
  exact ⟨htrans s s' s'' hlater hlater',
    fun u hu => (hagain u (htrans s' s'' u hlater' hu)).bind (hagain' u hu)⟩

theorem Settled.orRaise (hm : Settled Later m) (e : ε) : Settled Later (m.orRaise e) := by
  intro s a s' h
  obtain ⟨hlater, hagain⟩ := hm s a s' (returns_orRaise.1 h)
  exact ⟨hlater, fun u hu => returns_orRaise.2 (hagain u hu)⟩

theorem Settled.forEach (hrefl : ∀ s, Later s s)
    (htrans : ∀ s t u, Later s t → Later t u → Later s u) (hf : ∀ a, Settled Later (f a))
    (l : List α) : Settled Later (forEach f l) := by
  induction l with
  | nil => exact .pure hrefl []
  | cons a as ih => exact .bind htrans (hf a) (fun b => .bind htrans ih (fun bs => .pure hrefl _))

end Settled

end Method
