import Mathlib.Algebra.Order.Ring.Int
import Mathlib.Data.List.Basic
import Mathlib.Logic.Function.Basic

/-!
# Entries that expire

A multimap from times to keys is a list in the order of the times: an entry goes
behind those of the same time.  From its front the entries are taken that are
older than a timeout, and their keys are erased from a map; in a sorted list
these are all that are too old.
-/

namespace Expiry

universe u v

variable {K : Type u} {W : Type v}
variable {entries : List (ℤ × K)} {p q : ℤ × K}

/-- The entries stand in the order of their times. -/
def Sorted (entries : List (ℤ × K)) : Prop := entries.Pairwise (fun p q => p.1 ≤ q.1)

/-- An entry goes before the first one of a later time. -/
def insertTime (p : ℤ × K) : List (ℤ × K) → List (ℤ × K)
  | [] => [p]
  | q :: entries => if p.1 < q.1 then p :: q :: entries else q :: insertTime p entries

@[simp] theorem mem_insertTime : q ∈ insertTime p entries ↔ q = p ∨ q ∈ entries := by
  induction entries with
  | nil => simp [insertTime]
  | cons r entries ih =>
    rw [insertTime]
    split_ifs
    · rw [List.mem_cons]
    · rw [List.mem_cons, ih, List.mem_cons]
      tauto

theorem Sorted.insertTime (h : Sorted entries) (p : ℤ × K) : Sorted (insertTime p entries) := by
  induction entries with
  | nil => exact List.pairwise_singleton _ _
  | cons r entries ih =>
    obtain ⟨hr, hrest⟩ := List.pairwise_cons.1 h
    rw [Expiry.insertTime]
    split_ifs with hlt
    · refine List.pairwise_cons.2 ⟨fun q hq => ?_, h⟩
      obtain rfl | hq := List.mem_cons.1 hq
      · exact le_of_lt hlt
      · exact (le_of_lt hlt).trans (hr q hq)
    · refine List.pairwise_cons.2 ⟨fun q hq => ?_, ih hrest⟩
      obtain rfl | hq := mem_insertTime.1 hq
      · exact not_lt.1 hlt
      · exact hr q hq

variable [DecidableEq K] {values : K → Option W} {timeout now : ℤ} {k : K}

/-- The entries that are too old are taken from the front, and their keys from the map. -/
def expire (timeout now : ℤ) : List (ℤ × K) → (K → Option W) → (K → Option W) × List (ℤ × K)
  | [], values => (values, [])
  | p :: entries, values =>
    if timeout < now - p.1 then expire timeout now entries (Function.update values p.2 none)
    else (values, p :: entries)

/-- In the order of the times, those that are left are the ones that are not too old. -/
theorem mem_expire (h : Sorted entries) :
    q ∈ (expire timeout now entries values).2 ↔ q ∈ entries ∧ now - q.1 ≤ timeout := by
  induction entries generalizing values with
  | nil => simp [expire]
  | cons p entries ih =>
    obtain ⟨hp, hrest⟩ := List.pairwise_cons.1 h
    rw [expire]
    split_ifs with hold
    · rw [ih hrest, List.mem_cons]
      refine and_congr_left (fun hq => (or_iff_right ?_).symm)
      rintro rfl
      omega
    · refine (and_iff_left_of_imp (fun hq => ?_)).symm
      obtain rfl | hq := List.mem_cons.1 hq
      · exact not_lt.1 hold
      · have hle := hp q hq
        omega

theorem Sorted.expire (h : Sorted entries) : Sorted (expire timeout now entries values).2 := by
  induction entries generalizing values with
  | nil => exact List.Pairwise.nil
  | cons p entries ih =>
    rw [Expiry.expire]
    split_ifs
    · exact ih h.of_cons
    · exact h

/-- A key that has no entry that is too old keeps its value. -/
theorem expire_of_fresh (hfresh : ∀ t, (t, k) ∈ entries → now - t ≤ timeout) :
    (expire timeout now entries values).1 k = values k := by
  induction entries generalizing values with
  | nil => rfl
  | cons p entries ih =>
    rw [expire]
    split_ifs with hold
    · rw [ih (fun t ht => hfresh t (List.mem_cons_of_mem _ ht)), Function.update_of_ne]
      rintro rfl
      exact absurd (hfresh p.1 List.mem_cons_self) (not_le.2 hold)
    · rfl

/-- No value is set. -/
theorem expire_of_none (h : values k = none) :
    (expire timeout now entries values).1 k = none := by
  induction entries generalizing values with
  | nil => exact h
  | cons p entries ih =>
    rw [expire]
    split_ifs
    · refine ih ?_
      by_cases hk : k = p.2
      · rw [hk, Function.update_self]
      · rw [Function.update_of_ne hk, h]
    · exact h

/-- The values of the others are erased. -/
theorem expire_of_old (h : Sorted entries) {t : ℤ} (hmem : (t, k) ∈ entries)
    (hold : timeout < now - t) : (expire timeout now entries values).1 k = none := by
  induction entries generalizing values with
  | nil => exact absurd hmem List.not_mem_nil
  | cons p entries ih =>
    obtain ⟨hp, hrest⟩ := List.pairwise_cons.1 h
    have hfront : timeout < now - p.1 := by
      obtain rfl | hmem := List.mem_cons.1 hmem
      · exact hold
      · have hle := hp _ hmem
        dsimp only at hle
        omega
    rw [expire, if_pos hfront]
    obtain rfl | hmem := List.mem_cons.1 hmem
    · exact expire_of_none (Function.update_self _ _ _)
    · exact ih hrest hmem

end Expiry
