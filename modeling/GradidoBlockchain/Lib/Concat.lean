import Mathlib.Algebra.Order.Ring.Int
import Mathlib.Data.List.Basic

/-!
# Concatenation without separators

What can be read back from texts and blocks that are written one after another:
what stands before the first occurrence of a separator, blocks of a fixed width,
and decimal numbers that are padded with zeros.
-/

namespace Concat

section Lists

variable {α β : Type}

/-- What stands before the first separator. -/
theorem split_separator {a : α} {x y r s : List α} (hx : a ∉ x) (hy : a ∉ y)
    (h : x ++ a :: r = y ++ a :: s) : x = y ∧ r = s := by
  induction x generalizing y with
  | nil =>
    cases y with
    | nil => exact ⟨rfl, (List.cons.inj h).2⟩
    | cons b y => exact absurd (List.cons.inj h).1 (fun heq => hy (heq ▸ List.mem_cons_self))
  | cons b x ih =>
    cases y with
    | nil => exact absurd (List.cons.inj h).1.symm (fun heq => hx (heq ▸ List.mem_cons_self))
    | cons c y =>
      obtain ⟨rfl, hrest⟩ := List.cons.inj h
      obtain ⟨rfl, rfl⟩ := ih (fun hmem => hx (List.mem_cons_of_mem _ hmem))
        (fun hmem => hy (List.mem_cons_of_mem _ hmem)) hrest
      exact ⟨rfl, rfl⟩

theorem length_flatMap_of_width {f : α → List β} {w : ℕ} (hwidth : ∀ a, (f a).length = w)
    (l : List α) : (l.flatMap f).length = l.length * w := by
  induction l with
  | nil => simp
  | cons a l ih =>
    rw [List.flatMap_cons, List.length_append, ih, hwidth, List.length_cons, Nat.add_mul,
      Nat.one_mul, Nat.add_comm]

/-- Blocks of a fixed width. -/
theorem flatMap_inj {f : α → List β} {w : ℕ} (hwidth : ∀ a, (f a).length = w)
    {l l' : List α} (hlength : l.length = l'.length)
    (hinj : ∀ a ∈ l, ∀ b ∈ l', f a = f b → a = b) (h : l.flatMap f = l'.flatMap f) : l = l' := by
  induction l generalizing l' with
  | nil => exact (List.length_eq_zero_iff.1 hlength.symm).symm
  | cons a l ih =>
    cases l' with
    | nil => simp at hlength
    | cons b l' =>
      rw [List.flatMap_cons, List.flatMap_cons] at h
      obtain ⟨hhead, htail⟩ := List.append_inj h (by rw [hwidth, hwidth])
      rw [hinj a List.mem_cons_self b List.mem_cons_self hhead,
        ih (by simpa using hlength) (fun x hx y hy => hinj x (List.mem_cons_of_mem a hx) y
          (List.mem_cons_of_mem b hy)) htail]

end Lists

/-! ### Decimal numbers -/

theorem not_mem_repr_nat {c : Char} (hc : c.isDigit = false) (n : ℕ) : c ∉ n.repr.toList := by
  rw [Nat.toList_repr]
  intro hmem
  rw [Nat.isDigit_of_mem_toDigits (by decide) (by decide) hmem] at hc
  simp at hc

/-- The text of a number: digits, and a sign before those of a negative one. -/
theorem toList_repr_int (n : ℤ) : n.repr.toList =
    (if n < 0 then ['-'] else []) ++ n.natAbs.repr.toList := by
  rw [Int.repr_eq_if]
  by_cases hn : n < 0
  · rw [if_neg (by omega), if_pos hn, String.toList_append, show (-n).toNat = n.natAbs by omega]
    rfl
  · rw [if_pos (by omega), if_neg hn, show n.toNat = n.natAbs by omega]
    rfl

theorem not_mem_repr_int {c : Char} (hc : c.isDigit = false) (hsign : c ≠ '-') (n : ℤ) :
    c ∉ n.repr.toList := by
  rw [toList_repr_int, List.mem_append, not_or]
  refine ⟨?_, not_mem_repr_nat hc _⟩
  split_ifs
  · rwa [List.mem_singleton]
  · exact List.not_mem_nil

/-- The characters of a number. -/
def IsNumeric (c : Char) : Prop := c.isDigit = true ∨ c = '-'

theorem isNumeric_of_mem_nat {c : Char} {n : ℕ} (h : c ∈ n.repr.toList) : IsNumeric c := by
  by_contra hc
  obtain ⟨hdigit, -⟩ := not_or.1 hc
  exact not_mem_repr_nat (by simpa using hdigit) n h

theorem isNumeric_of_mem_int {c : Char} {n : ℤ} (h : c ∈ n.repr.toList) : IsNumeric c := by
  by_contra hc
  obtain ⟨hdigit, hsign⟩ := not_or.1 hc
  exact not_mem_repr_int (by simpa using hdigit) hsign n h

theorem IsNumeric.toNat_lt {c : Char} (h : IsNumeric c) : c.toNat < 58 ∧ c.toNat ≠ 46 := by
  rcases h with h | rfl
  · rw [Char.isDigit, Bool.and_eq_true, decide_eq_true_eq, decide_eq_true_eq] at h
    have hlow : 48 ≤ c.toNat := h.1
    have hhigh : c.toNat ≤ 57 := h.2
    omega
  · decide

/-- With a sign there is room for one digit less. -/
theorem length_repr_le_iff {n : ℤ} {k : ℕ} (hk : 1 < k) :
    n.repr.length ≤ k ↔ n.natAbs < 10 ^ (if n < 0 then k - 1 else k) := by
  rw [← String.length_toList, toList_repr_int, List.length_append, String.length_toList]
  split_ifs with hn
  · rw [List.length_singleton, ← Nat.length_repr_le_iff (by omega)]
    omega
  · rw [List.length_nil, Nat.zero_add, Nat.length_repr_le_iff (by omega)]

/-- A number padded with zeros. -/
def padded (w : ℕ) (n : ℤ) : List Char :=
  List.replicate (w - n.repr.length) '0' ++ n.repr.toList

theorem length_padded {w : ℕ} {n : ℤ} (h : n.repr.length ≤ w) :
    (padded w n).length = w := by
  rw [padded, List.length_append, List.length_replicate, String.length_toList]
  omega

theorem sign_mem_padded {w : ℕ} {n : ℤ} : '-' ∈ padded w n ↔ n < 0 := by
  rw [padded, toList_repr_int, List.mem_append, List.mem_append]
  have hzero : '-' ∉ List.replicate (w - n.repr.length) '0' := by
    rw [List.mem_replicate, not_and]
    exact fun _ => by decide
  have hdigits := not_mem_repr_nat (c := '-') (by decide) n.natAbs
  by_cases hn : n < 0
  · rw [if_pos hn]
    exact iff_of_true (.inr (.inl List.mem_cons_self)) hn
  · rw [if_neg hn]
    exact iff_of_false (by simp only [List.not_mem_nil, hzero, hdigits, or_self, not_false_eq_true])
      hn

theorem isNumeric_of_mem_padded {w : ℕ} {n : ℤ} {c : Char} (h : c ∈ padded w n) :
    IsNumeric c := by
  rcases List.mem_append.1 h with h | h
  · rw [(List.mem_replicate.1 h).2]
    exact .inl (by decide)
  · exact isNumeric_of_mem_int h

/-- The number can be read back. -/
theorem padded_injective {w : ℕ} {n m : ℤ} (h : padded w n = padded w m) : n = m := by
  have hsign : n < 0 ↔ m < 0 := by
    rw [← sign_mem_padded (w := w), h, sign_mem_padded]
  suffices habs : n.natAbs = m.natAbs by omega
  have hzero : ∀ k, '-' ∉ List.replicate k '0' := by
    intro k
    rw [List.mem_replicate, not_and]
    exact fun _ => by decide
  unfold padded at h
  rw [toList_repr_int, toList_repr_int] at h
  by_cases hn : n < 0
  · rw [if_pos hn, if_pos (hsign.1 hn), List.singleton_append, List.singleton_append] at h
    have hdigits := (split_separator (hzero _) (hzero _) h).2
    rw [Nat.toList_repr, Nat.toList_repr] at hdigits
    rw [← Nat.ofDigitChars_ten_toDigits (n := n.natAbs), hdigits, Nat.ofDigitChars_ten_toDigits]
  · rw [if_neg hn, if_neg (fun hm => hn (hsign.2 hm)), List.nil_append, List.nil_append,
      Nat.toList_repr, Nat.toList_repr] at h
    have hread := congrArg (fun l => Nat.ofDigitChars 10 l 0) h
    simpa [Nat.ofDigitChars_append, Nat.ofDigitChars_replicate_zero] using hread

theorem toList_repr_injective {n m : ℤ} (h : n.repr.toList = m.repr.toList) : n = m := by
  have hrepr : n.repr = m.repr := String.toList_inj.1 h
  exact padded_injective (w := 0) (by rw [padded, padded, hrepr])

end Concat
