import Mathlib.Data.List.Perm.Basic

/-!
# Tickets

Numbers are issued one after another.  Some of the issued numbers are pending,
and a number that was pending can be used once.  `Tickets` says that no pending
number has been used, and that no number is pending or used before it is issued.
-/

/-- The pending and the used ones of the numbers up to `issued`. -/
structure Tickets (issued : ℕ) (pending used : List ℕ) : Prop where
  nodup : pending.Nodup
  pending_le : ∀ k ∈ pending, k ≤ issued
  used_le : ∀ k ∈ used, k ≤ issued
  disjoint : ∀ k ∈ pending, k ∉ used

namespace Tickets

variable {issued : ℕ} {pending pending' used : List ℕ} {k : ℕ}

theorem none (issued : ℕ) : Tickets issued [] [] where
  nodup := List.nodup_nil
  pending_le := by simp
  used_le := by simp
  disjoint := by simp

/-- A pending number may be given up. -/
theorem sublist (h : Tickets issued pending used) (hsub : List.Sublist pending' pending) :
    Tickets issued pending' used where
  nodup := h.nodup.sublist hsub
  pending_le := fun k hk => h.pending_le k (hsub.subset hk)
  used_le := h.used_le
  disjoint := fun k hk => h.disjoint k (hsub.subset hk)

/-- The next number is issued and not pending. -/
theorem issue (h : Tickets issued pending used) : Tickets (issued + 1) pending used where
  nodup := h.nodup
  pending_le := fun k hk => Nat.le_succ_of_le (h.pending_le k hk)
  used_le := fun k hk => Nat.le_succ_of_le (h.used_le k hk)
  disjoint := h.disjoint

/-- A number that was neither pending nor used becomes pending. -/
theorem book (h : Tickets issued pending used) (hle : k ≤ issued) (hk : k ∉ pending)
    (hunused : k ∉ used) (hperm : pending'.Perm (k :: pending)) :
    Tickets issued pending' used where
  nodup := by
    rw [hperm.nodup_iff, List.nodup_cons]
    exact ⟨hk, h.nodup⟩
  pending_le := by
    intro j hj
    rcases List.mem_cons.1 (hperm.subset hj) with rfl | hj
    · exact hle
    · exact h.pending_le j hj
  used_le := h.used_le
  disjoint := by
    intro j hj
    rcases List.mem_cons.1 (hperm.subset hj) with rfl | hj
    · exact hunused
    · exact h.disjoint j hj

/-- A number that is not pending is used. -/
theorem use (h : Tickets issued pending used) (hle : k ≤ issued) (hk : k ∉ pending) :
    Tickets issued pending (used ++ [k]) where
  nodup := h.nodup
  pending_le := h.pending_le
  used_le := by
    intro j hj
    rcases List.mem_append.1 hj with hj | hj
    · exact h.used_le j hj
    · rwa [List.mem_singleton.1 hj]
  disjoint := by
    intro j hj hused
    rcases List.mem_append.1 hused with hused | hused
    · exact h.disjoint j hj hused
    · rw [List.mem_singleton.1 hused] at hj
      exact hk hj

end Tickets
