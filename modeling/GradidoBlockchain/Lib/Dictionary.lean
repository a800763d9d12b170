import Mathlib.Data.List.Infix
import Mathlib.Data.List.Nodup
import Mathlib.Data.Set.Function
import Mathlib.Order.Interval.Set.Defs

/-!
# Dictionaries

A dictionary gives the values it meets the numbers `1, 2, 3, …` in the order in
which it meets them; the number `0` is left for "not numbered".  Values are
never taken out again, so what a number stands for never changes: this is
`Extends.data`, and `add_of_data` says that adding a numbered value gives the
old number back and changes nothing.  The values and their numbers are in
bijection (`bijOn_index`).
-/

universe u

/-- A list of different values; the value at position `n` has the number `n + 1`. -/
structure Dictionary (α : Type u) where
  entries : List α
  nodup : entries.Nodup

namespace Dictionary

variable {α : Type u}

/-- The dictionary without values. -/
def empty : Dictionary α := ⟨[], List.nodup_nil⟩

/-- The value with a number. -/
def data (d : Dictionary α) (n : ℕ) : Option α :=
  if n = 0 then none else d.entries[n - 1]?

/-- A dictionary that has more values, after the ones that were there. -/
def Extends (d d' : Dictionary α) : Prop := d.entries <+: d'.entries

variable {d d' d'' : Dictionary α} {n : ℕ} {a : α}

theorem data_eq_some_iff : d.data n = some a ↔ 0 < n ∧ d.entries[n - 1]? = some a := by
  unfold data
  by_cases hn : n = 0
  · simp [hn]
  · simp [hn, Nat.pos_of_ne_zero hn]

theorem mem_of_data (h : d.data n = some a) : a ∈ d.entries :=
  List.mem_of_getElem? (data_eq_some_iff.1 h).2

theorem Extends.refl (d : Dictionary α) : d.Extends d := List.prefix_refl _

theorem Extends.trans (h : d.Extends d') (h' : d'.Extends d'') : d.Extends d'' :=
  List.IsPrefix.trans h h'

/-- What a number stands for does not change. -/
theorem Extends.data (h : d.Extends d') (hn : d.data n = some a) : d'.data n = some a := by
  obtain ⟨hpos, hget⟩ := data_eq_some_iff.1 hn
  refine data_eq_some_iff.2 ⟨hpos, ?_⟩
  obtain ⟨more, hmore⟩ := h
  have hlt : n - 1 < d.entries.length := (List.getElem?_eq_some_iff.1 hget).1
  rw [← hmore, List.getElem?_append_left hlt, hget]

variable [DecidableEq α]

/-- The number of a value, and the dictionary with this value. -/
def add (d : Dictionary α) (a : α) : ℕ × Dictionary α :=
  if h : a ∈ d.entries then (d.entries.idxOf a + 1, d)
  else (d.entries.length + 1,
    ⟨d.entries ++ [a], List.nodup_append.2 ⟨d.nodup, List.nodup_singleton a,
      fun b hb c hc => by
        rw [List.mem_singleton.1 hc]
        exact fun heq => h (heq ▸ hb)⟩⟩)

theorem add_of_mem (h : a ∈ d.entries) : d.add a = (d.entries.idxOf a + 1, d) := by
  unfold add
  rw [dif_pos h]

theorem fst_add_le (h : a ∈ d.entries) : (d.add a).1 ≤ d.entries.length := by
  rw [add_of_mem h]
  exact List.idxOf_lt_length_of_mem h

/-- A numbered value keeps its number, and nothing changes. -/
theorem add_of_data (h : d.data n = some a) : d.add a = (n, d) := by
  obtain ⟨hpos, hget⟩ := data_eq_some_iff.1 h
  obtain ⟨hlt, hval⟩ := List.getElem?_eq_some_iff.1 hget
  rw [add_of_mem (mem_of_data h), ← hval, d.nodup.idxOf_getElem (n - 1) hlt,
    Nat.sub_add_cancel hpos]

/-- The number that `add` gives stands for the value. -/
theorem data_add (d : Dictionary α) (a : α) : (d.add a).2.data (d.add a).1 = some a := by
  by_cases h : a ∈ d.entries
  · rw [add_of_mem h]
    refine data_eq_some_iff.2 ⟨Nat.succ_pos _, ?_⟩
    rw [Nat.add_sub_cancel, List.getElem?_eq_getElem (List.idxOf_lt_length_of_mem h),
      List.getElem_idxOf]
  · unfold add
    rw [dif_neg h]
    refine data_eq_some_iff.2 ⟨Nat.succ_pos _, ?_⟩
    rw [Nat.add_sub_cancel, List.getElem?_concat_length]

theorem extends_add (d : Dictionary α) (a : α) : d.Extends (d.add a).2 := by
  by_cases h : a ∈ d.entries
  · rw [add_of_mem h]
    exact Extends.refl d
  · unfold add
    rw [dif_neg h]
    exact List.prefix_append _ _

theorem mem_entries_add {b : α} : b ∈ (d.add a).2.entries ↔ b ∈ d.entries ∨ b = a := by
  by_cases h : a ∈ d.entries
  · rw [add_of_mem h]
    exact ⟨.inl, fun hb => hb.elim id (fun heq => heq ▸ h)⟩
  · unfold add
    rw [dif_neg h, List.mem_append, List.mem_singleton]

/-! ### The number of a value -/

/-- The number of a value, or zero. -/
def index (d : Dictionary α) (a : α) : ℕ := if a ∈ d.entries then d.entries.idxOf a + 1 else 0

theorem index_eq_zero : d.index a = 0 ↔ a ∉ d.entries := by
  unfold index
  by_cases h : a ∈ d.entries
  · rw [if_pos h]
    exact iff_of_false (Nat.succ_ne_zero _) (not_not_intro h)
  · rw [if_neg h]
    exact iff_of_true rfl h

/-- A number stands for the value whose number it is. -/
theorem data_eq_some_iff_index : d.data n = some a ↔ 0 < n ∧ d.index a = n := by
  rw [data_eq_some_iff]
  refine and_congr_right (fun hpos => ?_)
  unfold index
  constructor
  · intro hget
    obtain ⟨hlt, rfl⟩ := List.getElem?_eq_some_iff.1 hget
    rw [if_pos (List.getElem_mem hlt), d.nodup.idxOf_getElem (n - 1) hlt]
    omega
  · intro hindex
    split_ifs at hindex with h
    · rw [← hindex, Nat.add_sub_cancel, List.getElem?_eq_getElem (List.idxOf_lt_length_of_mem h),
        List.getElem_idxOf]
    · omega

theorem index_of_data (h : d.data n = some a) : d.index a = n := (data_eq_some_iff_index.1 h).2

theorem data_index (h : a ∈ d.entries) : d.data (d.index a) = some a :=
  data_eq_some_iff_index.2 ⟨Nat.pos_of_ne_zero (fun hzero => index_eq_zero.1 hzero h), rfl⟩

/-- The number that `add` gives is the one that the value has from then on. -/
theorem index_add (d : Dictionary α) (a : α) : (d.add a).2.index a = (d.add a).1 :=
  index_of_data (d.data_add a)

/-- A number that was given does not change. -/
theorem Extends.index (h : d.Extends d') (ha : a ∈ d.entries) : d'.index a = d.index a :=
  index_of_data (h.data (data_index ha))

/-- **The values and their numbers.** -/
theorem bijOn_index (d : Dictionary α) :
    Set.BijOn d.index {a | a ∈ d.entries} (Set.Icc 1 d.entries.length) := by
  refine ⟨fun a ha => ?_, fun a ha b hb heq => ?_, fun n hn => ?_⟩
  · have hmem : a ∈ d.entries := ha
    have hlt := List.idxOf_lt_length_of_mem hmem
    rw [Set.mem_Icc, index, if_pos hmem]
    omega
  · have hdata := data_index ha
    rw [heq, data_index hb, Option.some.injEq] at hdata
    exact hdata.symm
  · obtain ⟨hpos, hle⟩ := Set.mem_Icc.1 hn
    have hlt : n - 1 < d.entries.length := by omega
    have hdata : d.data n = some d.entries[n - 1] :=
      data_eq_some_iff.2 ⟨hpos, List.getElem?_eq_getElem hlt⟩
    exact ⟨_, List.getElem_mem hlt, index_of_data hdata⟩

end Dictionary
