import GradidoBlockchain.Data.Transaction
import GradidoBlockchain.Lib.Concat
import Mathlib.Data.Prod.Lex

/-!
# The text and the order of timestamps

`toString` pads the nanoseconds with zeros to nine characters.  The number of
zeros is an `int` that the loop only compares with zero, so for a longer text it
counts down from below zero until it overflows.

The four comparisons are written by hand.  `operator<=` compares the seconds
with `<=`, where the other ones compare them with `<`, and does not look at the
nanoseconds of two dates of one second.

* `toStringWithin`: the text, with so many steps of the loop;
* `key`: the place of a date in the lexicographic order;
* `asWanted_iff`: when both are as they should be.
-/

namespace Gradido

namespace Timestamp

open Concat

/-! ### The loop -/

/-- `while (zeroLeftPaddingCount--) result.push_back('0')`, in so many steps. -/
def pad : ℕ → ℤ → String → Option String
  | 0, zeroLeftPaddingCount, result => if zeroLeftPaddingCount = 0 then some result else none
  | steps + 1, zeroLeftPaddingCount, result =>
    if zeroLeftPaddingCount = 0 then some result
    else pad steps (zeroLeftPaddingCount - 1) (result.push '0')

/-- `Timestamp::toString`, when its loop ends in so many steps. -/
def toStringWithin (steps : ℕ) (t : Timestamp) : Option String :=
  let nanoString := t.nanos.repr
  (pad steps (9 - nanoString.length) (t.seconds.repr.push '.')).map (· ++ nanoString)

/-- `Timestamp::toString`.  An `int` has as many values below zero: a loop that has not ended by
then has started below zero, and the count overflows. -/
def toString? (t : Timestamp) : Option String := t.toStringWithin 2147483648

/-- The loop ends when the count is not below zero, after as many steps. -/
theorem pad_eq (steps : ℕ) (count : ℤ) (result : String) :
    pad steps count result = if 0 ≤ count ∧ count ≤ steps then
      some (result ++ String.ofList (List.replicate count.toNat '0')) else none := by
  induction steps generalizing count result with
  | zero =>
    unfold pad
    by_cases hcount : count = 0
    · subst hcount
      simp
    · rw [if_neg hcount, if_neg (by omega)]
  | succ steps ih =>
    unfold pad
    by_cases hcount : count = 0
    · subst hcount
      rw [if_pos rfl, if_pos (by omega)]
      simp
    · rw [if_neg hcount, ih]
      by_cases hpos : 0 ≤ count ∧ count ≤ (steps + 1 : ℕ)
      · obtain ⟨n, rfl⟩ : ∃ n : ℕ, count = n + 1 := ⟨(count - 1).toNat, by omega⟩
        rw [if_pos hpos, if_pos (by omega), Option.some.injEq, ← String.toList_inj]
        rw [show ((n : ℤ) + 1 - 1).toNat = n by omega, show ((n : ℤ) + 1).toNat = n + 1 by omega]
        simp [List.replicate_succ]
      · rw [if_neg hpos, if_neg (by omega)]

theorem toStringWithin_eq {steps : ℕ} (hsteps : 9 ≤ steps) (t : Timestamp) :
    t.toStringWithin steps = if t.nanos.repr.length ≤ 9 then some t.toString else none := by
  unfold toStringWithin
  dsimp only
  rw [pad_eq]
  by_cases hlength : t.nanos.repr.length ≤ 9
  · rw [if_pos hlength, if_pos (by omega), Option.map_some, Option.some.injEq, ← String.toList_inj]
    rw [show ((9 : ℤ) - t.nanos.repr.length).toNat = 9 - t.nanos.repr.length by omega]
    simp [toString]
  · rw [if_neg hlength, if_neg (by omega), Option.map_none]

/-- Where the loop ends, it pads to nine characters. -/
theorem toString?_eq_some_iff {t : Timestamp} {s : String} :
    t.toString? = some s ↔ t.nanos.repr.length ≤ 9 ∧ s = t.toString := by
  unfold toString?
  rw [toStringWithin_eq (by decide)]
  split_ifs with hlength
  · rw [Option.some.injEq, and_iff_right hlength, eq_comm]
  · exact iff_of_false (by simp) (fun h => hlength h.1)

theorem toList_toString (t : Timestamp) :
    t.toString.toList = t.seconds.repr.toList ++ '.' :: padded 9 t.nanos := by
  simp [toString, padded]

/-- **A text stands for one date.** -/
theorem toString_injective : Function.Injective toString := by
  intro a b h
  have hsame := congrArg String.toList h
  rw [toList_toString, toList_toString] at hsame
  have hdot : ∀ n : ℤ, '.' ∉ n.repr.toList := not_mem_repr_int (by decide) (by decide)
  obtain ⟨hseconds, hnanos⟩ := split_separator (hdot _) (hdot _) hsame
  exact eq_iff.2 ⟨toList_repr_injective hseconds, padded_injective hnanos⟩

/-! ### The order -/

/-- `Timestamp::operator==`. -/
def equals (a b : Timestamp) : Bool :=
  decide (a.seconds = b.seconds) && decide (a.nanos = b.nanos)

/-- The place of a date in the lexicographic order of seconds and nanoseconds. -/
def key (t : Timestamp) : ℤ ×ₗ ℤ := toLex (t.seconds, t.nanos)

theorem key_injective : Function.Injective key := by
  intro a b h
  have hpair : (a.seconds, a.nanos) = (b.seconds, b.nanos) := toLex_inj.1 h
  exact eq_iff.2 (Prod.mk.inj hpair)

variable {a b : Timestamp}

theorem equals_iff : a.equals b = true ↔ a.key = b.key := by
  rw [key_injective.eq_iff, eq_iff, equals, Bool.and_eq_true, decide_eq_true_iff,
    decide_eq_true_iff]

theorem lt_iff_key : a.lt b = true ↔ a.key < b.key := by
  rw [lt_iff, key, key, Prod.Lex.toLex_lt_toLex]

theorem gt_iff_key : a.gt b = true ↔ b.key < a.key := by
  rw [gt_eq, lt_iff_key]

theorem le_iff_seconds : a.le b = true ↔ a.seconds ≤ b.seconds := by
  simp only [le, Bool.or_eq_true, Bool.and_eq_true, decide_eq_true_eq]
  omega

/-- `operator<=` goes wrong when the nanoseconds decide. -/
theorem le_iff_key : (a.le b = true ↔ a.key ≤ b.key) ↔
    ¬ (a.seconds = b.seconds ∧ b.nanos < a.nanos) := by
  rw [le_iff_seconds, key, key, Prod.Lex.toLex_le_toLex]
  dsimp only
  omega

/-! ### Text and order -/

/-- What is wanted of the text and the order of two dates: the loops end within nine steps,
different dates have different texts, the comparisons are consistent, and they are those of the
lexicographic order. -/
structure AsWanted (a b : Timestamp) : Prop where
  ends : (a.toStringWithin 9).isSome = true ∧ (b.toStringWithin 9).isSome = true
  text : ∀ s, a.toString? = some s → b.toString? = some s → a = b
  le_iff : a.le b = true ↔ a.lt b = true ∨ a.equals b = true
  gt_iff : a.gt b = true ↔ b.lt a = true
  equalsKey : a.equals b = true ↔ a.key = b.key
  ltKey : a.lt b = true ↔ a.key < b.key
  leKey : a.le b = true ↔ a.key ≤ b.key
  gtKey : a.gt b = true ↔ a.key > b.key

/-- The text of the nanoseconds has at most nine characters. -/
def Fits (t : Timestamp) : Prop := -100000000 < t.nanos ∧ t.nanos < 1000000000

instance (t : Timestamp) : Decidable t.Fits :=
  inferInstanceAs (Decidable (_ ∧ _))

theorem isSome_toStringWithin_nine {t : Timestamp} :
    (t.toStringWithin 9).isSome = true ↔ t.Fits := by
  have hlength : t.nanos.repr.length ≤ 9 ↔ t.Fits := by
    rw [length_repr_le_iff (by decide), Fits]
    split_ifs <;> omega
  rw [toStringWithin_eq le_rfl, ← hlength]
  split_ifs with hfits
  · exact iff_of_true rfl hfits
  · exact iff_of_false (by simp) hfits

/-- **Text and order** are as wanted when the nanoseconds fit and do not have to decide against
`operator<=`. -/
theorem asWanted_iff (a b : Timestamp) : AsWanted a b ↔
    a.Fits ∧ b.Fits ∧ (a.seconds = b.seconds → a.nanos ≤ b.nanos) := by
  constructor
  · intro h
    have hdecides := le_iff_key.1 h.leKey
    exact ⟨isSome_toStringWithin_nine.1 h.ends.1, isSome_toStringWithin_nine.1 h.ends.2,
      fun hseconds => not_lt.1 (fun hlt => hdecides ⟨hseconds, hlt⟩)⟩
  · rintro ⟨ha, hb, hdecides⟩
    have hle : a.le b = true ↔ a.key ≤ b.key :=
      le_iff_key.2 (fun hwrong => absurd (hdecides hwrong.1) (not_le.2 hwrong.2))
    refine ⟨⟨isSome_toStringWithin_nine.2 ha, isSome_toStringWithin_nine.2 hb⟩, ?_, ?_, ?_,
      equals_iff, lt_iff_key, hle, gt_iff_key⟩
    · intro s hs ht
      exact toString_injective
        ((toString?_eq_some_iff.1 hs).2.symm.trans (toString?_eq_some_iff.1 ht).2)
    · rw [hle, lt_iff_key, equals_iff]
      exact le_iff_lt_or_eq
    · rw [gt_eq]

/-- The later one of two dates of one second is not after the other one. -/
theorem not_asWanted_sameSecond : ¬ AsWanted ⟨1758460711, 5⟩ ⟨1758460711, 3⟩ := by
  intro h
  exact absurd (h.le_iff.1 (by decide)) (by decide)

end Timestamp

end Gradido
