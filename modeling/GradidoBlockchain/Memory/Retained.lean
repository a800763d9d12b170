import GradidoBlockchain.Memory.Values
import Mathlib.Algebra.BigOperators.Group.List.Basic
import Mathlib.Algebra.Order.BigOperators.Group.List
import Mathlib.Algebra.Order.Group.Nat
import Mathlib.Algebra.Ring.Nat
import Mathlib.Data.List.FinRange
import Mathlib.Data.List.Nodup

/-!
# What the manager keeps

Released buffers stay on the stacks of the manager.  Together they are never more
than 48624 bytes, and when no block is alive and no thread waits for a buffer,
they are all that is allocated.
-/

namespace Gradido

namespace Memory

open Ownership

namespace State

/-- The buffers on the stacks. -/
def retained (s : State) : List Address := (List.finRange 8).flatMap s.mBlockStacks

/-- The bytes of a buffer. -/
def bytesAt (s : State) (a : Address) : ℕ := ((s.allocated a).getD []).length

variable {s : State} (h : s.Invariant)

theorem mem_retained {a : Address} :
    a ∈ s.retained ↔ ∃ i k, s.held (.stack i k) = some a := by
  rw [retained, List.mem_flatMap]
  constructor
  · rintro ⟨i, -, hi⟩
    exact ⟨i, List.mem_iff_getElem?.1 hi⟩
  · rintro ⟨i, k, hk⟩
    exact ⟨i, List.mem_finRange i, List.mem_iff_getElem?.2 ⟨k, hk⟩⟩

include h

/-- A stack holds every buffer once, and buffers of its size only. -/
theorem Invariant.bytesAt_stack {i : Fin 8} {a : Address} (ha : a ∈ s.mBlockStacks i) :
    s.bytesAt a = kBuckets i := by
  obtain ⟨k, hk⟩ := List.mem_iff_getElem?.1 ha
  obtain ⟨l, hl⟩ := h.stacksOk.owned.isSome_cell (show s.store.held (.stack i k) = some a from hk)
  have hview : s.view (.stack i k) = some l := (Store.view_of_held hk).trans hl
  rw [bytesAt, show s.allocated a = some l from hl, Option.getD_some]
  exact h.stacksOk.size i k l hview

theorem Invariant.nodup_retained : s.retained.Nodup := by
  have hexclusive : ∀ (i j : Fin 8) (k k' : ℕ) (a : Address), (s.mBlockStacks i)[k]? = some a →
      (s.mBlockStacks j)[k']? = some a → i = j ∧ k = k' := by
    intro i j k k' a hk hk'
    exact Place.stack.inj (h.stacksOk.owned.exclusive (.stack i k) (.stack j k') a hk hk')
  refine List.nodup_flatMap.2 ⟨?_, ?_⟩
  · intro i _
    refine List.nodup_iff_getElem?_ne_getElem?.2 (fun k k' hlt hk' => ?_)
    intro heq
    have hsome := List.getElem?_eq_getElem hk'
    exact absurd (hexclusive i i k k' _ (heq.trans hsome) hsome).2 hlt.ne
  · refine (List.nodup_finRange 8).imp (fun {i j} hij a hi hj => hij ?_)
    obtain ⟨k, hk⟩ := List.mem_iff_getElem?.1 hi
    obtain ⟨k', hk'⟩ := List.mem_iff_getElem?.1 hj
    exact (hexclusive i j k k' a hk hk').1

theorem Invariant.sum_retained_le : (s.retained.map s.bytesAt).sum ≤ 48624 := by
  have hstack : ∀ i, ((s.mBlockStacks i).map s.bytesAt).sum ≤ stackLimit i * kBuckets i := by
    intro i
    rw [List.map_congr_left (g := fun _ => kBuckets i) (fun a ha => h.bytesAt_stack ha),
      List.map_const', List.sum_replicate_nat]
    exact Nat.mul_le_mul_right _ (h.stacksOk.count i)
  calc (s.retained.map s.bytesAt).sum
      = ((List.finRange 8).map (fun i => ((s.mBlockStacks i).map s.bytesAt).sum)).sum := by
        rw [retained, List.map_flatMap, List.flatMap_def, List.sum_flatten, List.map_map]
        rfl
    _ ≤ ((List.finRange 8).map (fun i => stackLimit i * kBuckets i)).sum :=
        List.sum_le_sum (fun i _ => hstack i)
    _ = 48624 := by decide

end State

/-- **What stays allocated.**  After every run the stacks hold different buffers of 48624 bytes at
most; when no block is alive and no thread has a buffer in its hands, nothing else is allocated. -/
theorem run_retained {u : State} {es : List Event}
    (hrun : Steps.run step .initial es = some u) :
    u.retained.Nodup ∧ (u.retained.map u.bytesAt).sum ≤ 48624 ∧
      ((∀ t x, (u.threads t).blocks x = none) → (∀ t, (u.threads t).control.buffer = none) →
        ∀ a, u.allocated a ≠ none ↔ a ∈ u.retained) := by
  have hinv := invariant_run hrun
  refine ⟨hinv.nodup_retained, hinv.sum_retained_le, ?_⟩
  intro hdead hcontrol a
  rw [State.mem_retained]
  refine (hinv.stacksOk.owned.allocated a).trans ⟨?_, ?_⟩
  · rintro ⟨p, hp⟩
    cases p with
    | stack i k => exact ⟨i, k, hp⟩
    | buffer t =>
      exact absurd ((hcontrol t).symm.trans hp) (Option.some_ne_none a).symm
    | data t x =>
      have hnone : u.store.held (.data t x) = none := by simp [State.store, State.held, hdead]
      exact absurd (hnone.symm.trans hp) (Option.some_ne_none a).symm
  · rintro ⟨i, k, hp⟩
    exact ⟨.stack i k, hp⟩

theorem run_retained_sample :
    ∃ u, Steps.run step .initial Sample.released = some u ∧
      (u.retained.map u.bytesAt).sum ≤ 48624 := by
  obtain ⟨u, hu⟩ := Option.isSome_iff_exists.1
    (show (Steps.run step .initial Sample.released).isSome = true by decide)
  exact ⟨u, hu, (run_retained hu).2.1⟩

end Memory

end Gradido
