import Mathlib.Data.List.Basic
import Mathlib.Data.List.Induction

/-!
# Hash chains

Every element of a chain has a digest: the hash of what is written for it, which
depends on the element before it.  `inputs` is the list of what is written.

`inputs_eq`: when nothing that was written collides, and what is written for an
element tells the digest of the one before it, two chains that end with the same
digest have had the same written, from their first elements on.
-/

namespace HashChain

universe u v w

variable {α : Type u} {β : Type v} {δ : Type w}
variable (input : α → Option α → β) (hash : β → δ) (digest : α → δ)

/-- What is written for a list of elements, the first of which has this predecessor. -/
def inputsFrom : Option α → List α → List β
  | _, [] => []
  | previous, a :: l => input a previous :: inputsFrom (some a) l

/-- What is written for all elements of a chain. -/
def inputs (l : List α) : List β := inputsFrom input none l

/-- Every digest is the hash of what is written for the element. -/
def Linked (l : List α) : Prop := l.map digest = (inputs input l).map hash

instance [DecidableEq δ] (l : List α) : Decidable (Linked input hash digest l) :=
  inferInstanceAs (Decidable (_ = _))

section Inputs

variable {input : α → Option α → β} {hash : β → δ} {digest : α → δ} {l l' : List α} {a : α}

theorem inputsFrom_concat (previous : Option α) (l : List α) (a : α) :
    inputsFrom input previous (l ++ [a]) =
      inputsFrom input previous l ++ [input a (l.getLast?.or previous)] := by
  induction l generalizing previous with
  | nil => rfl
  | cons b l ih =>
    have hlast : (b :: l).getLast?.or previous = l.getLast?.or (some b) := by
      rw [List.getLast?_cons, Option.some_or]
      cases l.getLast? <;> rfl
    rw [hlast, List.cons_append, inputsFrom, ih, inputsFrom, List.cons_append]

@[simp] theorem inputs_nil : inputs input [] = [] := rfl

@[simp] theorem inputs_concat (l : List α) (a : α) :
    inputs input (l ++ [a]) = inputs input l ++ [input a l.getLast?] := by
  rw [inputs, inputsFrom_concat, Option.or_none]
  rfl

theorem length_inputs (l : List α) : (inputs input l).length = l.length := by
  induction l using List.reverseRecOn with
  | nil => rfl
  | append_singleton l a ih =>
    rw [inputs_concat, List.length_append, List.length_append, ih]
    rfl

theorem linked_nil : Linked input hash digest [] := rfl

theorem linked_concat : Linked input hash digest (l ++ [a]) ↔
    Linked input hash digest l ∧ digest a = hash (input a l.getLast?) := by
  unfold Linked
  rw [inputs_concat, List.map_append, List.map_append, List.map_singleton, List.map_singleton]
  constructor
  · intro h
    obtain ⟨hl, ha⟩ := List.append_inj' h rfl
    exact ⟨hl, (List.cons.inj ha).1⟩
  · rintro ⟨hl, ha⟩
    rw [hl, ha]

/-- Nothing that is written in one of the chains collides with anything in the other one. -/
def CollisionFree (input : α → Option α → β) (hash : β → δ) (l l' : List α) : Prop :=
  ∀ x ∈ inputs input l, ∀ y ∈ inputs input l', hash x = hash y → x = y

instance [DecidableEq β] [DecidableEq δ] (l l' : List α) :
    Decidable (CollisionFree input hash l l') :=
  inferInstanceAs (Decidable (∀ x ∈ _, ∀ y ∈ _, _ → _))

/-- What is written for an element tells the digest of the element before it, and whether there is
one. -/
def TellsPrevious (input : α → Option α → β) (digest : α → δ) (P : α → Prop) : Prop :=
  ∀ a a' previous previous', P a → P a' → (∀ b ∈ previous, P b) → (∀ b ∈ previous', P b) →
    input a previous = input a' previous' → previous.map digest = previous'.map digest

/-- **Chains with the same end.**  By induction from the end: the digests at the end are hashes of
the same, which tells that the digests before it are the same too. -/
theorem inputs_eq {P : α → Prop} (htells : TellsPrevious input digest P)
    (hl : Linked input hash digest l) (hl' : Linked input hash digest l')
    (hP : ∀ b ∈ l, P b) (hP' : ∀ b ∈ l', P b) (hfree : CollisionFree input hash l l')
    (hlast : l.getLast?.map digest = l'.getLast?.map digest) :
    inputs input l = inputs input l' := by
  induction l using List.reverseRecOn generalizing l' with
  | nil =>
    rw [List.getLast?_nil, Option.map_none, eq_comm, Option.map_eq_none_iff,
      List.getLast?_eq_none_iff] at hlast
    rw [hlast]
  | append_singleton l a ih =>
    rcases List.eq_nil_or_concat l' with rfl | ⟨l', a', rfl⟩
    · rw [List.getLast?_concat, List.getLast?_nil, Option.map_some, Option.map_none] at hlast
      exact absurd hlast (Option.some_ne_none _)
    · rw [List.concat_eq_append] at hl' hP' hfree hlast ⊢
      rw [List.getLast?_concat, List.getLast?_concat, Option.map_some, Option.map_some,
        Option.some.injEq] at hlast
      obtain ⟨hl, ha⟩ := linked_concat.1 hl
      obtain ⟨hl', ha'⟩ := linked_concat.1 hl'
      have hwritten : input a l.getLast? = input a' l'.getLast? := by
        refine hfree _ (by simp) _ (by simp) ?_
        rw [← ha, ← ha', hlast]
      have hbefore : ∀ b ∈ l, P b := fun b hb => hP b (List.mem_append_left _ hb)
      have hbefore' : ∀ b ∈ l', P b := fun b hb => hP' b (List.mem_append_left _ hb)
      have hdigests := htells a a' l.getLast? l'.getLast? (hP a (by simp)) (hP' a' (by simp))
        (fun b hb => hbefore b (List.mem_of_getLast? hb))
        (fun b hb => hbefore' b (List.mem_of_getLast? hb)) hwritten
      have hrest := ih hl hl' hbefore hbefore'
        (fun x hx y hy => hfree x (by simp [hx]) y (by simp [hy])) hdigests
      rw [inputs_concat, inputs_concat, hrest, hwritten]

/-- What is written for the element at a position. -/
theorem getElem?_inputs (l : List α) (k : ℕ) :
    (inputs input l)[k]? = l[k]?.map (fun a => input a (l.take k).getLast?) := by
  induction l using List.reverseRecOn generalizing k with
  | nil => rfl
  | append_singleton l a ih =>
    rw [inputs_concat]
    rcases Nat.lt_trichotomy k l.length with hlt | rfl | hgt
    · rw [List.getElem?_append_left (by rwa [length_inputs]), List.getElem?_append_left hlt, ih,
        List.take_append_of_le_length (Nat.le_of_lt hlt)]
    · rw [List.getElem?_append_right (Nat.le_of_eq (length_inputs l)),
        List.getElem?_append_right (Nat.le_refl _), length_inputs, Nat.sub_self, List.take_left]
      rfl
    · rw [List.getElem?_eq_none (by simp [length_inputs]; omega),
        List.getElem?_eq_none (by simp; omega)]
      rfl

end Inputs

end HashChain
