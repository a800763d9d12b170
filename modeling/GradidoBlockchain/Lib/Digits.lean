import Mathlib.Data.List.Basic
import Mathlib.Data.Int.Notation
import Mathlib.Logic.Function.Basic

/-!
# Digits in a buffer

A number can be written from its end, two digits at a time: the last two digits
are those of the remainder modulo the square of the base, and what stands before
them is the quotient.

A buffer is a function from places to what was written there, as the tape of a
machine is.  `placed` is a buffer with a text in it, which grows to the left as
its characters are written from the last one to the first.
-/

namespace Digits

open Nat (toDigits digitChar)

/-! ### Two digits at a time -/

section Pairs

variable {b n : ℕ}

theorem toDigits_of_lt_sq (hb : 1 < b) (hn : b ≤ n) (hsq : n < b * b) :
    toDigits b n = [digitChar (n / b), digitChar (n % b)] := by
  have hlt : n / b < b := Nat.div_lt_of_lt_mul hsq
  rw [Nat.toDigits_of_base_le hb hn, Nat.toDigits_of_lt_base hlt]
  rfl

theorem toDigits_of_sq_le (hb : 1 < b) (hsq : b * b ≤ n) :
    toDigits b n = toDigits b (n / (b * b)) ++ [digitChar (n / b % b), digitChar (n % b)] := by
  have hdiv : b ≤ n / b := (Nat.le_div_iff_mul_le (by omega)).2 hsq
  have hn : b ≤ n := Nat.le_trans (Nat.le_mul_of_pos_left b (by omega)) hsq
  rw [Nat.toDigits_of_base_le hb hn, Nat.toDigits_of_base_le hb hdiv, Nat.div_div_eq_div_mul,
    List.append_assoc]
  rfl

end Pairs

/-! ### Buffers -/

/-- What was written at each place, counted from the beginning of the buffer. -/
abbrev Buffer (α : Type) := ℤ → Option α

section Buffers

variable {α : Type}

/-- A buffer with a text from a place on. -/
def placed (buffer : Buffer α) (start : ℤ) (text : List α) : Buffer α := fun i =>
  if start ≤ i ∧ i < start + text.length then text[(i - start).toNat]? else buffer i

variable {buffer : Buffer α} {start : ℤ} {a : α} {text : List α}

@[simp] theorem placed_nil : placed buffer start [] = buffer := by
  funext i
  rw [placed, if_neg (by simp only [List.length_nil]; omega)]

/-- What is written before a text belongs to it. -/
theorem update_placed :
    Function.update (placed buffer start text) (start - 1) (some a) =
      placed buffer (start - 1) (a :: text) := by
  funext i
  unfold placed
  rw [List.length_cons]
  by_cases hi : i = start - 1
  · subst hi
    rw [Function.update_self, if_pos (by omega), Int.sub_self]
    rfl
  · rw [Function.update_of_ne hi]
    by_cases hinside : start ≤ i ∧ i < start + text.length
    · obtain ⟨k, rfl⟩ : ∃ k : ℕ, i = start + k := ⟨(i - start).toNat, by omega⟩
      rw [if_pos hinside, if_pos (by omega), show (start + k - start).toNat = k by omega,
        show (start + k - (start - 1)).toNat = k + 1 by omega, List.getElem?_cons_succ]
    · rw [if_neg hinside, if_neg (by omega)]

/-- A single character is a text. -/
theorem update_eq_placed : Function.update buffer start (some a) = placed buffer start [a] := by
  have h := @update_placed _ buffer (start + 1) a []
  rwa [placed_nil, Int.add_sub_cancel] at h

theorem placed_self (h : text ≠ []) : placed buffer start text start = text.head? := by
  have hpos : 0 < text.length := List.length_pos_iff.2 h
  rw [placed, if_pos (by omega), Int.sub_self, List.head?_eq_getElem?]
  rfl

end Buffers

end Digits
