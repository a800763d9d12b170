import GradidoBlockchain.Lib.Digits
import Mathlib.Tactic.IntervalCases

/-!
# Numbers in a buffer

`uint64ToString` looks up how many digits a number has, and then writes the
digits from the last one to the first, two at a time from a table, to where the
first one should be.

* `countDigits_eq`: the search in the table ends at nineteen digits;
* `uint64ToString_eq`: the digits end where the zero byte is;
* `uint64ToString_iff`: when they begin at the beginning of the buffer.
-/

namespace Gradido

namespace DataTypeConverter

open Digits
open Nat (toDigits digitChar)

/-! ### The code -/

/-- The table of `count_digits`. -/
def powers : List UInt64 :=
  [10, 100, 1000, 10000, 100000,
    1000000, 10000000, 100000000,
    1000000000, 10000000000, 100000000000,
    1000000000000, 10000000000000, 100000000000000,
    1000000000000000, 10000000000000000, 100000000000000000,
    1000000000000000000, 10000000000000000000]

/-- The loop of `count_digits`: `i` is incremented between the comparison of the number and its
own. -/
def countDigitsFrom (v : UInt64) (i : ℕ) : ℕ :=
  if powers.getD i 0 ≤ v ∧ i + 1 < 19 then countDigitsFrom v (i + 1) else i + 1
termination_by 19 - i

/-- `count_digits`. -/
def countDigits (v : UInt64) : ℕ := countDigitsFrom v 0

/-- `DIGIT_TABLE`. -/
def DIGIT_TABLE : List Char :=
  ("00010203040506070809" ++
    "10111213141516171819" ++
    "20212223242526272829" ++
    "30313233343536373839" ++
    "40414243444546474849" ++
    "50515253545556575859" ++
    "60616263646566676869" ++
    "70717273747576777879" ++
    "80818283848586878889" ++
    "90919293949596979899").toList

/-- A character of the table, behind which is a zero byte. -/
def digitAt (i : UInt64) : Char := DIGIT_TABLE.getD i.toNat '\x00'

/-- The loop of `uint64ToString`, which writes two digits at a time. -/
def writePairs (value : UInt64) (cursor : ℤ) (buffer : Buffer Char) :
    UInt64 × ℤ × Buffer Char :=
  if hvalue : 100 ≤ value then
    let q := value / 100
    let r := value - q * 100
    let buffer := Function.update buffer (cursor - 1) (some (digitAt (r * 2 + 1)))
    let buffer := Function.update buffer (cursor - 2) (some (digitAt (r * 2)))
    writePairs q (cursor - 2) buffer
  else (value, cursor, buffer)
termination_by value.toNat
decreasing_by
  have hle : 100 ≤ value.toNat := UInt64.le_iff_toNat_le.1 hvalue
  rw [UInt64.toNat_div]
  exact Nat.div_lt_self (by omega) (by decide)

/-- The last one or two digits of `uint64ToString`. -/
def writeLast (value : UInt64) (cursor : ℤ) (buffer : Buffer Char) : Buffer Char :=
  if value < 10 then
    Function.update buffer (cursor - 1) (some (Char.ofNat ('0'.toNat + value.toNat)))
  else
    Function.update (Function.update buffer (cursor - 1) (some (digitAt (value * 2 + 1))))
      (cursor - 2) (some (digitAt (value * 2)))

/-- `uint64ToString`: the length that it returns, and the buffer. -/
def uint64ToString (value : UInt64) (buffer : Buffer Char) : ℕ × Buffer Char :=
  if value = 0 then
    (1, Function.update (Function.update buffer 0 (some '0')) 1 (some '\x00'))
  else
    let len := countDigits value
    let buffer := Function.update buffer len (some '\x00')
    let written := writePairs value len buffer
    (len, writeLast written.1 written.2.1 written.2.2)

/-! ### The length -/

theorem toNat_powers {i : ℕ} (hi : i < 19) : (powers.getD i 0).toNat = 10 ^ (i + 1) := by
  interval_cases i <;> rfl

/-- The number of digits of a number. -/
def digits (v : UInt64) : List Char := toDigits 10 v.toNat

theorem powers_le_iff {v : UInt64} {i : ℕ} (hi : i < 19) :
    powers.getD i 0 ≤ v ↔ i + 1 < (digits v).length := by
  have hlength := Nat.length_toDigits_le_iff (b := 10) (n := v.toNat) (by decide) (Nat.succ_pos i)
  rw [UInt64.le_iff_toNat_le, toNat_powers hi, digits, ← not_lt, ← hlength, not_le]

/-- The search goes on while there are more digits, and ends at nineteen. -/
theorem countDigitsFrom_eq {v : UInt64} {i : ℕ} (hi : i < 19) (hlt : i < (digits v).length) :
    countDigitsFrom v i = min 19 (digits v).length := by
  induction hn : 19 - i generalizing i with
  | zero => omega
  | succ n ih =>
    have hpower := powers_le_iff (v := v) hi
    unfold countDigitsFrom
    split_ifs with hnext
    · exact ih hnext.2 (hpower.1 hnext.1) (by omega)
    · rw [hpower] at hnext
      omega

theorem countDigits_eq (v : UInt64) : countDigits v = min 19 (digits v).length :=
  countDigitsFrom_eq (by decide) Nat.length_toDigits_pos

/-! ### The digits -/

theorem digitTable_eq : ∀ r < 100, DIGIT_TABLE.getD (r * 2) '\x00' = digitChar (r / 10) ∧
    DIGIT_TABLE.getD (r * 2 + 1) '\x00' = digitChar (r % 10) := by
  decide +kernel

theorem digitAt_eq {r : UInt64} (hr : r.toNat < 100) :
    digitAt (r * 2) = digitChar (r.toNat / 10) ∧
      digitAt (r * 2 + 1) = digitChar (r.toNat % 10) := by
  have hdouble : (r * 2).toNat = r.toNat * 2 := by
    rw [UInt64.toNat_mul]
    exact Nat.mod_eq_of_lt (by simp; omega)
  have hnext : (r * 2 + 1).toNat = r.toNat * 2 + 1 := by
    rw [UInt64.toNat_add, hdouble]
    exact Nat.mod_eq_of_lt (by simp; omega)
  unfold digitAt
  rw [hdouble, hnext]
  exact digitTable_eq r.toNat hr

theorem digitChar_eq {n : ℕ} (hn : n < 10) : Char.ofNat ('0'.toNat + n) = digitChar n := by
  interval_cases n <;> rfl

theorem toNat_remainder (value : UInt64) :
    (value - value / 100 * 100).toNat = value.toNat % 100 := by
  have hquotient : (value / 100 * 100).toNat = value.toNat / 100 * 100 := by
    rw [UInt64.toNat_mul, UInt64.toNat_div]
    exact Nat.mod_eq_of_lt (Nat.lt_of_le_of_lt (Nat.div_mul_le_self _ _) value.toNat_lt)
  rw [UInt64.toNat_sub_of_le _ _ (by
    rw [UInt64.le_iff_toNat_le, hquotient]
    exact Nat.div_mul_le_self _ _), hquotient]
  omega

theorem digits_of_hundred_le {value : UInt64} (h : 100 ≤ value) :
    digits value = digits (value / 100) ++ [digitAt ((value - value / 100 * 100) * 2),
      digitAt ((value - value / 100 * 100) * 2 + 1)] := by
  have hle : 10 * 10 ≤ value.toNat := UInt64.le_iff_toNat_le.1 h
  have hr := toNat_remainder value
  obtain ⟨htens, hones⟩ := digitAt_eq (r := value - value / 100 * 100) (by omega)
  have hquotient : (value / 100).toNat = value.toNat / (10 * 10) := UInt64.toNat_div value 100
  rw [htens, hones, hr, digits, digits, toDigits_of_sq_le (by decide) hle, hquotient,
    show value.toNat % 100 / 10 = value.toNat / 10 % 10 by omega,
    show value.toNat % 100 % 10 = value.toNat % 10 by omega]

theorem writeLast_placed {value : UInt64} (h : ¬ 100 ≤ value) (cursor : ℤ) (buffer : Buffer Char)
    (text : List Char) :
    writeLast value cursor (placed buffer cursor text) =
      placed buffer (cursor - (digits value).length) (digits value ++ text) := by
  have hlt : value.toNat < 10 * 10 := not_le.1 (fun hle => h (UInt64.le_iff_toNat_le.2 hle))
  unfold writeLast digits
  split_ifs with hone
  · have hten : value.toNat < 10 := UInt64.lt_iff_toNat_lt.1 hone
    rw [update_placed, digitChar_eq hten, Nat.toDigits_of_lt_base hten]
    rfl
  · have hten : 10 ≤ value.toNat := not_lt.1 (fun hlt => hone (UInt64.lt_iff_toNat_lt.2 hlt))
    obtain ⟨htens, hones⟩ := digitAt_eq hlt
    rw [update_placed, show cursor - 2 = cursor - 1 - 1 by omega, update_placed,
      toDigits_of_lt_sq (by decide) hten hlt, htens, hones]
    rw [show cursor - 1 - 1 = cursor - 2 by omega]
    rfl

/-- **The digits** are written before the text that is there already. -/
theorem writeLast_writePairs (value : UInt64) (cursor : ℤ) (buffer : Buffer Char)
    (text : List Char) :
    writeLast (writePairs value cursor (placed buffer cursor text)).1
        (writePairs value cursor (placed buffer cursor text)).2.1
        (writePairs value cursor (placed buffer cursor text)).2.2 =
      placed buffer (cursor - (digits value).length) (digits value ++ text) := by
  induction hn : value.toNat using Nat.strong_induction_on generalizing value cursor text with
  | _ n ih =>
    unfold writePairs
    split_ifs with hvalue
    · have hle : 100 ≤ value.toNat := UInt64.le_iff_toNat_le.1 hvalue
      have hsmaller : (value / 100).toNat < n := by
        rw [UInt64.toNat_div, ← hn]
        exact Nat.div_lt_self (by omega) (by decide)
      dsimp only
      rw [update_placed, show cursor - 2 = cursor - 1 - 1 by omega, update_placed,
        ih _ hsmaller (value / 100) _ _ rfl, digits_of_hundred_le hvalue, List.append_assoc,
        List.length_append]
      congr 1
      simp only [List.length_cons, List.length_nil]
      omega
    · exact writeLast_placed hvalue cursor buffer text

/-! ### The whole function -/

/-- The digits stand before the zero byte, which is written at the length. -/
theorem uint64ToString_eq (value : UInt64) (buffer : Buffer Char) :
    uint64ToString value buffer = (min 19 (digits value).length,
      placed buffer ((min 19 (digits value).length : ℕ) - (digits value).length : ℤ)
        (digits value ++ ['\x00'])) := by
  unfold uint64ToString
  split_ifs with hzero
  · subst hzero
    have hdigits : digits 0 = ['0'] := Nat.toDigits_zero 10
    rw [hdigits, Function.update_comm (by decide), @update_eq_placed _ buffer 1]
    have hwritten := @update_placed _ buffer 1 '0' ['\x00']
    exact Prod.ext rfl hwritten
  · dsimp only
    rw [update_eq_placed, writeLast_writePairs, countDigits_eq]

/-- What is wanted: the digits and a zero byte from the beginning of the buffer on, and the number
of the digits; the rest of the buffer is as it was. -/
def Prints (value : UInt64) (buffer : Buffer Char) : Prop :=
  uint64ToString value buffer =
    ((digits value).length, placed buffer 0 (digits value ++ ['\x00']))

/-- The numbers of at most nineteen digits. -/
theorem length_digits_le_iff {value : UInt64} :
    (digits value).length ≤ 19 ↔ value < 10000000000000000000 := by
  rw [UInt64.lt_iff_toNat_lt]
  exact Nat.length_toDigits_le_iff (by decide) (by decide)

theorem prints_of_lt {value : UInt64} (h : value < 10000000000000000000) (buffer : Buffer Char) :
    Prints value buffer := by
  have hlength : min 19 (digits value).length = (digits value).length :=
    Nat.min_eq_right (length_digits_le_iff.2 h)
  rw [Prints, uint64ToString_eq, hlength, Int.sub_self]

/-- A number of twenty digits begins before the buffer. -/
theorem writes_before {value : UInt64} (h : 10000000000000000000 ≤ value) (buffer : Buffer Char) :
    (uint64ToString value buffer).1 = 19 ∧
      (uint64ToString value buffer).2 (-1) = (digits value).head? := by
  have hlong : 19 < (digits value).length := by
    rw [← not_le, length_digits_le_iff]
    exact UInt64.not_lt.2 h
  have hshort : (digits value).length ≤ 20 :=
    (Nat.length_toDigits_le_iff (by decide) (by decide)).2
      (Nat.lt_of_lt_of_le value.toNat_lt (by decide))
  have hlength : (digits value).length = 20 := by omega
  have hne : digits value ≠ [] := List.ne_nil_of_length_pos (by omega)
  rw [uint64ToString_eq, hlength]
  refine ⟨rfl, ?_⟩
  have hfirst := @placed_self _ buffer (-1) (digits value ++ ['\x00']) (by simp)
  rw [List.head?_append_of_ne_nil _ hne] at hfirst
  exact hfirst

/-- **The whole function** prints the numbers of at most nineteen digits. -/
theorem uint64ToString_iff (value : UInt64) :
    (∀ buffer, Prints value buffer) ↔ value < 10000000000000000000 := by
  refine ⟨fun h => ?_, prints_of_lt⟩
  by_contra hlt
  obtain ⟨hlength, -⟩ := writes_before (UInt64.not_lt.1 hlt) (fun _ => none)
  rw [h (fun _ => none)] at hlength
  exact hlt (length_digits_le_iff.1 (Nat.le_of_eq hlength))

/-- The first digit of the smallest number of twenty digits is written before the buffer. -/
theorem tenQuintillion_writes_before :
    (uint64ToString 10000000000000000000 (fun _ => none)).2 (-1) = some '1' ∧
      ¬ Prints 10000000000000000000 (fun _ => none) := by
  have hbefore : (uint64ToString 10000000000000000000 (fun _ => none)).2 (-1) = some '1' :=
    (writes_before (by decide) (fun _ => none)).2
  refine ⟨hbefore, fun h => ?_⟩
  rw [h] at hbefore
  exact absurd hbefore (by simp [placed])

end DataTypeConverter

end Gradido
