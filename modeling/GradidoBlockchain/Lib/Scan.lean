import GradidoBlockchain.Lib.Concat
import Mathlib.Algebra.Order.Ring.Int

/-!
# Numbers at the front of a text

A C string is scanned from a position on, which is the rest of it here:
`strtoll` passes a decimal number with its sign, and `strchr` passes everything
before a character.  What a number was printed to is scanned back, as long as no
digit follows.
-/

namespace Scan

open Concat

/-- The numbers of 64 bits with a sign. -/
def IsInt64 (n : ℤ) : Prop := -2 ^ 63 ≤ n ∧ n < 2 ^ 63

instance (n : ℤ) : Decidable (IsInt64 n) := inferInstanceAs (Decidable (_ ∧ _))

/-- The nearest one of them. -/
def clamp (n : ℤ) : ℤ := if n < -2 ^ 63 then -2 ^ 63 else if 2 ^ 63 ≤ n then 2 ^ 63 - 1 else n

theorem clamp_of_isInt64 {n : ℤ} (h : IsInt64 n) : clamp n = n := by
  unfold IsInt64 at h
  unfold clamp
  rw [if_neg (by omega), if_neg (by omega)]

theorem clamp_nonneg {n : ℤ} (h : 0 ≤ n) : 0 ≤ clamp n := by
  unfold clamp
  split_ifs <;> omega

/-- `isspace`. -/
def isSpace (c : Char) : Bool :=
  decide (c = ' ') || (decide ('\t' ≤ c) && decide (c ≤ '\r'))

/-- `strtoll` to the base 10: the number, and what stands behind it.  Where no digit stands, nothing
is passed. -/
def strtoll (text : List Char) : ℤ × List Char :=
  let signed := text.dropWhile isSpace
  let unsigned := if signed.head? = some '-' ∨ signed.head? = some '+' then signed.tail else signed
  let digits := unsigned.takeWhile Char.isDigit
  if digits = [] then (0, text)
  else
    let n : ℤ := Nat.ofDigitChars 10 digits 0
    (clamp (if signed.head? = some '-' then -n else n), unsigned.dropWhile Char.isDigit)

/-- `strchr`: the string from the first place of a character on. -/
def strchr : List Char → Char → Option (List Char)
  | [], _ => none
  | x :: rest, c =>
    if x = c then some (x :: rest) else if x = '\x00' then none else strchr rest c

/-- No digit at the front. -/
def NoDigit (rest : List Char) : Prop := ∀ c ∈ rest.head?, c.isDigit = false

theorem noDigit_nil : NoDigit [] := fun _ h => absurd h (by simp)

theorem noDigit_cons {c : Char} (h : c.isDigit = false) (rest : List Char) :
    NoDigit (c :: rest) := by
  intro d hd
  rw [List.head?_cons, Option.mem_some_iff] at hd
  rwa [← hd]

variable {digits rest text : List Char} {c : Char} {n : ℤ}

theorem takeWhile_isDigit (hdigits : ∀ c ∈ digits, c.isDigit = true) (hrest : NoDigit rest) :
    (digits ++ rest).takeWhile Char.isDigit = digits ∧
      (digits ++ rest).dropWhile Char.isDigit = rest := by
  induction digits with
  | nil =>
    cases rest with
    | nil => exact ⟨rfl, rfl⟩
    | cons c rest =>
      have hc : c.isDigit = false := hrest c rfl
      rw [List.nil_append, List.takeWhile_cons, List.dropWhile_cons, hc]
      exact ⟨rfl, rfl⟩
  | cons c digits ih =>
    obtain ⟨htake, hdrop⟩ := ih (fun d hd => hdigits d (List.mem_cons_of_mem _ hd))
    rw [List.cons_append, List.takeWhile_cons, List.dropWhile_cons, hdigits c List.mem_cons_self,
      if_pos rfl, if_pos rfl, htake, hdrop]
    exact ⟨rfl, rfl⟩

theorem isSpace_of_isDigit (h : c.isDigit = true) : isSpace c = false := by
  rw [Char.isDigit, Bool.and_eq_true, decide_eq_true_eq, decide_eq_true_eq] at h
  have hlow : 48 ≤ c.toNat := h.1
  have hspace : c ≠ ' ' := by
    rintro rfl
    exact absurd hlow (by decide)
  have hreturn : ¬ c ≤ '\r' := by
    intro hle
    have hle' : c.toNat ≤ 13 := hle
    omega
  simp [isSpace, hspace, hreturn]

/-- Digits, which make up a number. -/
theorem strtoll_digits (hne : digits ≠ []) (hdigits : ∀ c ∈ digits, c.isDigit = true)
    (hrest : NoDigit rest) :
    strtoll (digits ++ rest) = (clamp (Nat.ofDigitChars 10 digits 0), rest) := by
  obtain ⟨htake, hdrop⟩ := takeWhile_isDigit hdigits hrest
  obtain ⟨c, tail, rfl⟩ := List.exists_cons_of_ne_nil hne
  have hc : c.isDigit = true := hdigits c List.mem_cons_self
  have hspaces : (c :: tail ++ rest).dropWhile isSpace = c :: tail ++ rest := by
    rw [List.cons_append, List.dropWhile_cons, isSpace_of_isDigit hc, if_neg Bool.false_ne_true]
  have hminus : c ≠ '-' := by
    rintro rfl
    exact absurd hc (by decide)
  have hplus : c ≠ '+' := by
    rintro rfl
    exact absurd hc (by decide)
  have hhead : (c :: tail ++ rest).head? = some c := rfl
  unfold strtoll
  simp only [hspaces, hhead, Option.some.injEq, hminus, hplus, or_self, if_false, htake, hdrop, hne]

/-- A sign and digits. -/
theorem strtoll_minus (hne : digits ≠ []) (hdigits : ∀ c ∈ digits, c.isDigit = true)
    (hrest : NoDigit rest) :
    strtoll ('-' :: (digits ++ rest)) = (clamp (-Nat.ofDigitChars 10 digits 0), rest) := by
  obtain ⟨htake, hdrop⟩ := takeWhile_isDigit hdigits hrest
  have hspaces : ('-' :: (digits ++ rest)).dropWhile isSpace = '-' :: (digits ++ rest) := rfl
  have hhead : ('-' :: (digits ++ rest)).head? = some '-' := rfl
  unfold strtoll
  simp only [hspaces, hhead, true_or, if_true, List.tail_cons, htake, hdrop, hne, if_false]

theorem isDigit_of_mem_repr {n : ℕ} (h : c ∈ n.repr.toList) : c.isDigit = true := by
  by_contra hc
  exact not_mem_repr_nat (by simpa using hc) n h

theorem toList_repr_ne_nil (n : ℕ) : n.repr.toList ≠ [] := by
  intro h
  have hpos := Nat.length_repr_pos (n := n)
  rw [← String.length_toList, h] at hpos
  exact absurd hpos (Nat.lt_irrefl 0)

theorem ofDigitChars_repr (n : ℕ) : Nat.ofDigitChars 10 n.repr.toList 0 = n := by
  rw [Nat.toList_repr, Nat.ofDigitChars_ten_toDigits]

/-- The digits of a number of which the sign is missing. -/
theorem strtoll_natAbs (n : ℕ) (hrest : NoDigit rest) :
    strtoll (n.repr.toList ++ rest) = (clamp n, rest) := by
  rw [strtoll_digits (toList_repr_ne_nil n) (fun _ hc => isDigit_of_mem_repr hc) hrest,
    ofDigitChars_repr]

/-- What a number is printed to is scanned back. -/
theorem strtoll_repr (hn : IsInt64 n) (hrest : NoDigit rest) :
    strtoll (n.repr.toList ++ rest) = (n, rest) := by
  rw [toList_repr_int]
  by_cases hneg : n < 0
  · rw [if_pos hneg, List.singleton_append, List.cons_append,
      strtoll_minus (toList_repr_ne_nil _) (fun _ hc => isDigit_of_mem_repr hc) hrest,
      ofDigitChars_repr, show -(n.natAbs : ℤ) = n by omega, clamp_of_isInt64 hn]
  · rw [if_neg hneg, List.nil_append, strtoll_natAbs _ hrest, show (n.natAbs : ℤ) = n by omega,
      clamp_of_isInt64 hn]

/-- Also with zeros in front of it. -/
theorem strtoll_padded {w : ℕ} (hn : IsInt64 n) (hnonneg : 0 ≤ n) (hrest : NoDigit rest) :
    strtoll (padded w n ++ rest) = (n, rest) := by
  have hrepr : n.repr.toList = n.natAbs.repr.toList := by
    rw [toList_repr_int, if_neg (by omega), List.nil_append]
  have hdigits : ∀ c ∈ padded w n, c.isDigit = true := by
    intro c hc
    obtain hzero | hc := List.mem_append.1 hc
    · rw [(List.mem_replicate.1 hzero).2]
      decide
    · exact isDigit_of_mem_repr (hrepr ▸ hc)
  have hne : padded w n ≠ [] := by
    unfold padded
    rw [hrepr]
    exact List.append_ne_nil_of_right_ne_nil _ (toList_repr_ne_nil _)
  have hvalue : Nat.ofDigitChars 10 (padded w n) 0 = n.natAbs := by
    unfold padded
    rw [Nat.ofDigitChars_append, Nat.ofDigitChars_replicate_zero, Nat.mul_zero, hrepr,
      ofDigitChars_repr]
  rw [strtoll_digits hne hdigits hrest, hvalue, show (n.natAbs : ℤ) = n by omega,
    clamp_of_isInt64 hn]

/-- The first place of a character. -/
theorem strchr_append (hc : c ∉ text) (hzero : '\x00' ∉ text) (rest : List Char) :
    strchr (text ++ c :: rest) c = some (c :: rest) := by
  induction text with
  | nil => rw [List.nil_append, strchr, if_pos rfl]
  | cons x text ih =>
    rw [List.mem_cons, not_or] at hc hzero
    rw [List.cons_append, strchr, if_neg (Ne.symm hc.1), if_neg (Ne.symm hzero.1), ih hc.2 hzero.2]

/-- A character that does not stand before the end of a string. -/
theorem strchr_eq_none (hc : c ∉ text) (hzero : c ≠ '\x00')
    (hrest : rest.head? = none ∨ rest.head? = some '\x00') : strchr (text ++ rest) c = none := by
  induction text with
  | nil =>
    cases rest with
    | nil => rfl
    | cons x rest =>
      have hx : x = '\x00' := by simpa using hrest
      rw [List.nil_append, strchr, hx, if_neg (Ne.symm hzero), if_pos rfl]
  | cons x text ih =>
    rw [List.mem_cons, not_or] at hc
    rw [List.cons_append, strchr, if_neg (Ne.symm hc.1), ih hc.2, ite_self]

/-- Twenty characters are enough. -/
theorem length_repr_le (hn : IsInt64 n) : n.repr.toList.length ≤ 20 := by
  rw [String.length_toList, length_repr_le_iff (by decide)]
  unfold IsInt64 at hn
  split_ifs <;> omega

end Scan
