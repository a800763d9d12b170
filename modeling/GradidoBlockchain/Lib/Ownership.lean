import Mathlib.Logic.Function.Basic

/-!
# Places that own memory

A place of a program may hold the address of a cell.  When no address is held at
two places and the allocated cells are exactly the held ones, a program that only
moves addresses between places, allocates, frees and writes through them cannot
tell its cells from values that are stored in the places themselves.

* `Store`, `Store.view`: addresses at places, and what is stored behind them;
* `Store.Owned`: every allocated cell is held at exactly one place;
* `move`, `allocate`, `free`, `put` keep `Owned`, and change `view` as if the
  places were independent variables.
-/

namespace Ownership

/-- The addresses that places hold, and the cells that are allocated. -/
structure Store (P A C : Type) where
  held : P → Option A
  cell : A → Option C

namespace Store

variable {P A C : Type}

/-- What is stored behind the address at a place. -/
def view (s : Store P A C) (p : P) : Option C := (s.held p).bind s.cell

/-- Every allocated cell is held at exactly one place. -/
structure Owned (s : Store P A C) : Prop where
  exclusive : ∀ p q a, s.held p = some a → s.held q = some a → p = q
  allocated : ∀ a, s.cell a ≠ none ↔ ∃ p, s.held p = some a

/-! ### Addresses that are held -/

theorem Owned.isSome_cell {s : Store P A C} (h : s.Owned) {p : P} {a : A}
    (hp : s.held p = some a) : ∃ c, s.cell a = some c :=
  Option.ne_none_iff_exists'.1 ((h.allocated a).2 ⟨p, hp⟩)

theorem view_of_held {s : Store P A C} {p : P} {a : A} (hp : s.held p = some a) :
    s.view p = s.cell a := by
  rw [view, hp, Option.bind_some]

theorem view_of_none {s : Store P A C} {p : P} (hp : s.held p = none) : s.view p = none := by
  rw [view, hp, Option.bind_none]

/-- A place that holds an address shows something. -/
theorem Owned.view_eq_none {s : Store P A C} (h : s.Owned) {p : P} :
    s.view p = none ↔ s.held p = none := by
  cases hp : s.held p with
  | none => simp [view_of_none hp]
  | some a =>
    obtain ⟨c, hc⟩ := h.isSome_cell hp
    simp [view_of_held hp, hc]

/-! ### Moving -/

section Move

variable [DecidableEq P]

/-- The address at `p` goes to `q`. -/
def move (s : Store P A C) (p q : P) : Store P A C :=
  { s with held := Function.update (Function.update s.held p none) q (s.held p) }

theorem Owned.move {s : Store P A C} (h : s.Owned) {p q : P} (hq : s.held q = none) :
    (s.move p q).Owned := by
  have hheld : ∀ r a, (s.move p q).held r = some a →
      (r = q ∧ s.held p = some a) ∨ (r ≠ p ∧ r ≠ q ∧ s.held r = some a) := by
    intro r a hr
    by_cases hrq : r = q
    · subst hrq
      exact .inl ⟨rfl, by simpa [Store.move] using hr⟩
    · by_cases hrp : r = p
      · subst hrp
        simp [Store.move, hrq] at hr
      · exact .inr ⟨hrp, hrq, by simpa [Store.move, hrq, hrp] using hr⟩
  refine ⟨?_, ?_⟩
  · intro r r' a hr hr'
    rcases hheld r a hr with ⟨hrq, hp⟩ | ⟨hne, -, hold⟩ <;>
      rcases hheld r' a hr' with ⟨hrq', hp'⟩ | ⟨hne', -, hold'⟩
    · rw [hrq, hrq']
    · exact absurd (h.exclusive _ _ _ hold' hp) hne'
    · exact absurd (h.exclusive _ _ _ hold hp') hne
    · exact h.exclusive _ _ _ hold hold'
  · intro a
    show s.cell a ≠ none ↔ _
    rw [h.allocated a]
    constructor
    · rintro ⟨r, hr⟩
      by_cases hrp : r = p
      · exact ⟨q, by simp [Store.move, ← hrp, hr]⟩
      · have hrq : r ≠ q := fun heq => by simp [heq, hq] at hr
        exact ⟨r, by simp [Store.move, hrp, hrq, hr]⟩
    · rintro ⟨r, hr⟩
      rcases hheld r a hr with ⟨-, hp⟩ | ⟨-, -, hr⟩
      · exact ⟨p, hp⟩
      · exact ⟨r, hr⟩

theorem view_move (s : Store P A C) (p q : P) :
    (s.move p q).view = Function.update (Function.update s.view p none) q (s.view p) := by
  funext r
  by_cases hq : r = q
  · subst hq
    simp [view, move]
  · by_cases hp : r = p
    · subst hp
      simp [view, move, hq]
    · simp [view, move, hq, hp]

end Move

/-! ### Allocating and freeing -/

variable [DecidableEq A]

section Allocate

variable [DecidableEq P]

/-- A new cell at `p`. -/
def allocate (s : Store P A C) (p : P) (a : A) (c : C) : Store P A C where
  held := Function.update s.held p (some a)
  cell := Function.update s.cell a (some c)

/-- The cell at `p` is given back. -/
def free (s : Store P A C) (p : P) (a : A) : Store P A C where
  held := Function.update s.held p none
  cell := Function.update s.cell a none

theorem Owned.allocate {s : Store P A C} (h : s.Owned) {p : P} (hp : s.held p = none) {a : A}
    (ha : s.cell a = none) (c : C) : (s.allocate p a c).Owned := by
  have hfresh : ∀ r, s.held r ≠ some a := fun r hr => (h.allocated a).2 ⟨r, hr⟩ ha
  have hheld : ∀ r b, (s.allocate p a c).held r = some b →
      (r = p ∧ b = a) ∨ (r ≠ p ∧ b ≠ a ∧ s.held r = some b) := by
    intro r b hr
    by_cases hrp : r = p
    · subst hrp
      exact .inl ⟨rfl, by simpa [Store.allocate, eq_comm] using hr⟩
    · have hr' : s.held r = some b := by simpa [Store.allocate, hrp] using hr
      exact .inr ⟨hrp, fun hb => hfresh r (hb ▸ hr'), hr'⟩
  refine ⟨?_, ?_⟩
  · intro r r' b hr hr'
    rcases hheld r b hr with ⟨hrp, hb⟩ | ⟨-, hb, hold⟩ <;>
      rcases hheld r' b hr' with ⟨hrp', hb'⟩ | ⟨-, hb', hold'⟩
    · rw [hrp, hrp']
    · exact absurd hb hb'
    · exact absurd hb' hb
    · exact h.exclusive _ _ _ hold hold'
  · intro b
    by_cases hb : b = a
    · subst hb
      exact iff_of_true (by simp [Store.allocate]) ⟨p, by simp [Store.allocate]⟩
    · have hcell : (s.allocate p a c).cell b = s.cell b := by simp [Store.allocate, hb]
      rw [hcell, h.allocated b]
      constructor
      · rintro ⟨r, hr⟩
        have hrp : r ≠ p := fun heq => by simp [heq, hp] at hr
        exact ⟨r, by simp [Store.allocate, hrp, hr]⟩
      · rintro ⟨r, hr⟩
        rcases hheld r b hr with ⟨-, heq⟩ | ⟨-, -, hr⟩
        · exact absurd heq hb
        · exact ⟨r, hr⟩

theorem Owned.view_allocate {s : Store P A C} (h : s.Owned) (p : P) {a : A}
    (ha : s.cell a = none) (c : C) :
    (s.allocate p a c).view = Function.update s.view p (some c) := by
  have hfresh : ∀ r, s.held r ≠ some a := fun r hr => (h.allocated a).2 ⟨r, hr⟩ ha
  funext r
  by_cases hp : r = p
  · subst hp
    simp [view, Store.allocate]
  · rw [Function.update_of_ne hp, view, view]
    simp only [Store.allocate, Function.update_of_ne hp]
    cases hr : s.held r with
    | none => rfl
    | some b =>
      have hb : b ≠ a := fun heq => hfresh r (heq ▸ hr)
      simp [hb]

theorem Owned.free {s : Store P A C} (h : s.Owned) {p : P} {a : A} (hp : s.held p = some a) :
    (s.free p a).Owned := by
  have hheld : ∀ r b, (s.free p a).held r = some b → r ≠ p ∧ s.held r = some b := by
    intro r b hr
    by_cases hrp : r = p
    · subst hrp
      simp [Store.free] at hr
    · exact ⟨hrp, by simpa [Store.free, hrp] using hr⟩
  refine ⟨?_, ?_⟩
  · intro r r' b hr hr'
    exact h.exclusive _ _ _ (hheld r b hr).2 (hheld r' b hr').2
  · intro b
    by_cases hb : b = a
    · subst hb
      refine iff_of_false (by simp [Store.free]) ?_
      rintro ⟨r, hr⟩
      obtain ⟨hne, hr⟩ := hheld r b hr
      exact hne (h.exclusive _ _ _ hr hp)
    · have hcell : (s.free p a).cell b = s.cell b := by simp [Store.free, hb]
      rw [hcell, h.allocated b]
      constructor
      · rintro ⟨r, hr⟩
        have hrp : r ≠ p := by
          rintro rfl
          exact hb (Option.some.inj (hr.symm.trans hp))
        exact ⟨r, by simp [Store.free, hrp, hr]⟩
      · rintro ⟨r, hr⟩
        exact ⟨r, (hheld r b hr).2⟩

theorem Owned.view_free {s : Store P A C} (h : s.Owned) {p : P} {a : A}
    (hp : s.held p = some a) : (s.free p a).view = Function.update s.view p none := by
  funext r
  by_cases hrp : r = p
  · subst hrp
    simp [view, Store.free]
  · rw [Function.update_of_ne hrp, view, view]
    simp only [Store.free, Function.update_of_ne hrp]
    cases hr : s.held r with
    | none => rfl
    | some b =>
      have hb : b ≠ a := by
        rintro rfl
        exact hrp (h.exclusive _ _ _ hr hp)
      simp [hb]

end Allocate

/-! ### Writing -/

/-- A write through the address at a place. -/
def put (s : Store P A C) (a : A) (c : C) : Store P A C :=
  { s with cell := Function.update s.cell a (some c) }

theorem Owned.put {s : Store P A C} (h : s.Owned) {p : P} {a : A} (hp : s.held p = some a)
    (c : C) : (s.put a c).Owned := by
  refine ⟨h.exclusive, ?_⟩
  intro b
  show Function.update s.cell a (some c) b ≠ none ↔ ∃ r, s.held r = some b
  by_cases hb : b = a
  · subst hb
    exact iff_of_true (by simp) ⟨p, hp⟩
  · rw [Function.update_of_ne hb]
    exact h.allocated b

theorem Owned.view_put [DecidableEq P] {s : Store P A C} (h : s.Owned) {p : P} {a : A}
    (hp : s.held p = some a) (c : C) :
    (s.put a c).view = Function.update s.view p (some c) := by
  funext r
  by_cases hrp : r = p
  · subst hrp
    simp [view, Store.put, hp]
  · rw [Function.update_of_ne hrp, view, view]
    simp only [Store.put]
    cases hr : s.held r with
    | none => rfl
    | some b =>
      have hb : b ≠ a := by
        rintro rfl
        exact hrp (h.exclusive _ _ _ hr hp)
      simp [hb]

end Store

end Ownership
