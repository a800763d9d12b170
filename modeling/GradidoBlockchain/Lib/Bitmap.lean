import Mathlib.Data.List.Basic
import Mathlib.Data.List.Sort

/-!
# Compressed sets of numbers

A `Bitmap` is what a Roaring bitmap stands for: a finite set of natural
numbers, enumerated in increasing order.  The strictly increasing list is kept
together with the proof that it is one, so membership determines the bitmap
and `select`, `minimum` and `maximum` are the entries of the list.
-/

/-- A finite set of natural numbers as its strictly increasing enumeration. -/
structure Bitmap where
  toList : List ℕ
  sorted : toList.Pairwise (· < ·)

namespace Bitmap

/-- The empty bitmap. -/
def empty : Bitmap := ⟨[], List.Pairwise.nil⟩

instance : Membership ℕ Bitmap := ⟨fun b n => n ∈ b.toList⟩

theorem mem_def {b : Bitmap} {n : ℕ} : n ∈ b ↔ n ∈ b.toList := Iff.rfl

instance (b : Bitmap) (n : ℕ) : Decidable (n ∈ b) :=
  inferInstanceAs (Decidable (n ∈ b.toList))

@[simp] theorem not_mem_empty (n : ℕ) : n ∉ empty := by
  simp [mem_def, empty]

/-- The sorted list with one more number in it. -/
def insertSorted (n : ℕ) : List ℕ → List ℕ
  | [] => [n]
  | a :: l => if n < a then n :: a :: l else if n = a then a :: l else a :: insertSorted n l

theorem mem_insertSorted {n m : ℕ} {l : List ℕ} :
    m ∈ insertSorted n l ↔ m = n ∨ m ∈ l := by
  induction l with
  | nil => simp [insertSorted]
  | cons a l ih =>
    unfold insertSorted
    split_ifs with h1 h2
    · simp
    · subst h2
      simp
    · simp only [List.mem_cons, ih]
      tauto

theorem sorted_insertSorted {n : ℕ} {l : List ℕ} (hl : l.Pairwise (· < ·)) :
    (insertSorted n l).Pairwise (· < ·) := by
  induction l with
  | nil => simp [insertSorted]
  | cons a l ih =>
    rw [List.pairwise_cons] at hl
    unfold insertSorted
    split_ifs with h1 h2
    · refine List.pairwise_cons.2 ⟨?_, List.pairwise_cons.2 hl⟩
      intro b hb
      rcases List.mem_cons.1 hb with rfl | hb
      · exact h1
      · exact h1.trans (hl.1 b hb)
    · exact List.pairwise_cons.2 hl
    · refine List.pairwise_cons.2 ⟨?_, ih hl.2⟩
      intro b hb
      rcases mem_insertSorted.1 hb with rfl | hb
      · omega
      · exact hl.1 b hb

/-- `Roaring64Map::add`. -/
def add (b : Bitmap) (n : ℕ) : Bitmap := ⟨insertSorted n b.toList, sorted_insertSorted b.sorted⟩

@[simp] theorem mem_add {b : Bitmap} {n m : ℕ} : m ∈ b.add n ↔ m = n ∨ m ∈ b :=
  mem_insertSorted

/-- The intersection `a & b`. -/
def inter (a b : Bitmap) : Bitmap :=
  ⟨a.toList.filter (fun n => decide (n ∈ b)), a.sorted.filter _⟩

@[simp] theorem mem_inter {a b : Bitmap} {n : ℕ} : n ∈ a.inter b ↔ n ∈ a ∧ n ∈ b := by
  simp [mem_def, inter]

/-- The difference `a - b`. -/
def diff (a b : Bitmap) : Bitmap :=
  ⟨a.toList.filter (fun n => decide (n ∉ b)), a.sorted.filter _⟩

@[simp] theorem mem_diff {a b : Bitmap} {n : ℕ} : n ∈ a.diff b ↔ n ∈ a ∧ n ∉ b := by
  simp [mem_def, diff]

/-- The union `a | b`. -/
def union (a b : Bitmap) : Bitmap := b.toList.foldl add a

@[simp] theorem mem_union {a b : Bitmap} {n : ℕ} : n ∈ a.union b ↔ n ∈ a ∨ n ∈ b := by
  have key : ∀ (l : List ℕ) (a : Bitmap), n ∈ l.foldl add a ↔ n ∈ a ∨ n ∈ l := by
    intro l
    induction l with
    | nil => simp
    | cons m l ih =>
      intro a
      rw [List.foldl_cons, ih, mem_add, List.mem_cons]
      tauto
  exact key b.toList a

/-- `addRangeClosed` on an empty bitmap: the numbers from `lo` to `hi`. -/
def rangeClosed (lo hi : ℕ) : Bitmap := ⟨List.range' lo (hi + 1 - lo), List.pairwise_lt_range'⟩

@[simp] theorem mem_rangeClosed {lo hi n : ℕ} : n ∈ rangeClosed lo hi ↔ lo ≤ n ∧ n ≤ hi := by
  simp only [mem_def, rangeClosed, List.mem_range'_1]
  omega

/-- `cardinality`. -/
def cardinality (b : Bitmap) : ℕ := b.toList.length

/-- `isEmpty`. -/
def isEmpty (b : Bitmap) : Bool := b.toList.isEmpty

@[simp] theorem isEmpty_iff {b : Bitmap} : b.isEmpty = true ↔ ∀ n, n ∉ b := by
  simp only [isEmpty, List.isEmpty_iff, mem_def]
  exact List.eq_nil_iff_forall_not_mem

/-- `select`: the number of the given rank, counted from zero. -/
def select (b : Bitmap) (rank : ℕ) : Option ℕ := b.toList[rank]?

/-- `minimum`, for a bitmap that is not empty. -/
def minimum (b : Bitmap) : ℕ := b.toList.headD 0

/-- `maximum`, for a bitmap that is not empty. -/
def maximum (b : Bitmap) : ℕ := b.toList.getLastD 0

/-- Two bitmaps with the same elements are equal. -/
@[ext] theorem ext {a b : Bitmap} (h : ∀ n, n ∈ a ↔ n ∈ b) : a = b := by
  obtain ⟨la, ha⟩ := a
  obtain ⟨lb, hb⟩ := b
  have hperm : la.Perm lb :=
    (List.perm_ext_iff_of_nodup (ha.imp (fun h => Nat.ne_of_lt h))
      (hb.imp (fun h => Nat.ne_of_lt h))).2 h
  have hl : la = lb := hperm.eq_of_pairwise (fun a b _ _ h1 h2 => absurd h1 (by omega)) ha hb
  subst hl
  rfl

theorem add_eq_self {b : Bitmap} {n : ℕ} (h : n ∈ b) : b.add n = b := by
  ext m
  rw [mem_add]
  refine ⟨?_, .inr⟩
  rintro (rfl | hm)
  · exact h
  · exact hm

/-- The numbers between two elements are the part of the enumeration between them. -/
theorem toList_inter_rangeClosed {b : Bitmap} {i j lo hi : ℕ} (hij : i ≤ j)
    (hlo : b.toList[i]? = some lo) (hhi : b.toList[j]? = some hi) :
    (b.inter (rangeClosed lo hi)).toList = (b.toList.drop i).take (j + 1 - i) := by
  obtain ⟨l, hl⟩ := b
  dsimp only at hlo hhi ⊢
  obtain ⟨hi', rfl⟩ := List.getElem?_eq_some_iff.1 hlo
  obtain ⟨hj, rfl⟩ := List.getElem?_eq_some_iff.1 hhi
  have hlt := List.pairwise_iff_getElem.1 hl
  have hsplit : l.take i ++ ((l.drop i).take (j + 1 - i) ++ l.drop (j + 1)) = l := by
    have hdrop : l.drop (j + 1) = (l.drop i).drop (j + 1 - i) := by
      rw [List.drop_drop]
      congr 1
      omega
    rw [hdrop, List.take_append_drop, List.take_append_drop]
  generalize hlo' : l[i] = lo at *
  generalize hhi' : l[j] = hi at *
  have hbefore : (l.take i).filter (fun n => decide (n ∈ rangeClosed lo hi)) = [] := by
    rw [List.filter_eq_nil_iff]
    intro n hn
    obtain ⟨m, hm, rfl⟩ := List.getElem_of_mem hn
    rw [List.length_take] at hm
    have hm' := hlt m i (by omega) (by omega) (by omega)
    simp only [List.getElem_take, decide_eq_true_eq, mem_rangeClosed]
    omega
  have hbetween : ((l.drop i).take (j + 1 - i)).filter
      (fun n => decide (n ∈ rangeClosed lo hi)) = (l.drop i).take (j + 1 - i) := by
    rw [List.filter_eq_self]
    intro n hn
    obtain ⟨m, hm, rfl⟩ := List.getElem_of_mem hn
    rw [List.length_take, List.length_drop] at hm
    simp only [List.getElem_take, List.getElem_drop, decide_eq_true_eq, mem_rangeClosed]
    constructor
    · rcases Nat.eq_zero_or_pos m with rfl | hpos
      · exact Nat.le_of_eq hlo'.symm
      · have hm' := hlt i (i + m) (by omega) (by omega) (by omega)
        omega
    · rcases Nat.lt_or_eq_of_le (show i + m ≤ j by omega) with hmj | hmj
      · have hm' := hlt (i + m) j (by omega) (by omega) hmj
        omega
      · simp only [hmj, hhi']
        exact Nat.le_refl _
  have hafter : (l.drop (j + 1)).filter (fun n => decide (n ∈ rangeClosed lo hi)) = [] := by
    rw [List.filter_eq_nil_iff]
    intro n hn
    obtain ⟨m, hm, rfl⟩ := List.getElem_of_mem hn
    rw [List.length_drop] at hm
    have hm' := hlt j (j + 1 + m) (by omega) (by omega) (by omega)
    simp only [List.getElem_drop, decide_eq_true_eq, mem_rangeClosed]
    omega
  unfold inter
  dsimp only
  rw [← hsplit, List.filter_append, List.filter_append, hbefore, hbetween, hafter, hsplit]
  simp

/-! ### First and last elements -/

@[simp] theorem toList_empty : empty.toList = [] := rfl

theorem cardinality_eq_zero {b : Bitmap} : b.cardinality = 0 ↔ b = empty := by
  rw [cardinality, List.length_eq_zero_iff]
  constructor
  · intro h
    ext n
    simp [mem_def, h]
  · rintro rfl
    rfl

/-- The last element of a bitmap is its largest one. -/
theorem getLast?_eq_some_iff {b : Bitmap} {n : ℕ} :
    b.toList.getLast? = some n ↔ n ∈ b ∧ ∀ m ∈ b, m ≤ n := by
  constructor
  · intro h
    obtain ⟨l, hl⟩ := List.getLast?_eq_some_iff.1 h
    refine ⟨List.mem_of_getLast? h, ?_⟩
    intro m hm
    have hsorted := b.sorted
    rw [mem_def, hl, List.mem_append, List.mem_singleton] at hm
    rw [hl, List.pairwise_append] at hsorted
    rcases hm with hm | rfl
    · exact Nat.le_of_lt (hsorted.2.2 m hm n (List.mem_singleton.2 rfl))
    · exact Nat.le_refl m
  · rintro ⟨hn, hmax⟩
    cases h : b.toList.getLast? with
    | none =>
      rw [List.getLast?_eq_none_iff] at h
      rw [mem_def, h] at hn
      simp at hn
    | some m =>
      have hm : m ∈ b := List.mem_of_getLast? h
      obtain ⟨l, hl⟩ := List.getLast?_eq_some_iff.1 h
      have hsorted := b.sorted
      rw [mem_def, hl, List.mem_append, List.mem_singleton] at hn
      rw [hl, List.pairwise_append] at hsorted
      rcases hn with hn | rfl
      · have hlt := hsorted.2.2 n hn m (List.mem_singleton.2 rfl)
        have hle := hmax m hm
        omega
      · rfl

/-- The first element of a bitmap is its smallest one. -/
theorem head?_eq_some_iff {b : Bitmap} {n : ℕ} :
    b.toList.head? = some n ↔ n ∈ b ∧ ∀ m ∈ b, n ≤ m := by
  obtain ⟨l, hl⟩ := b
  cases l with
  | nil => simp [mem_def]
  | cons a l =>
    have hlt := (List.pairwise_cons.1 hl).1
    simp only [List.head?_cons, Option.some.injEq, mem_def, List.mem_cons, forall_eq_or_imp]
    constructor
    · rintro rfl
      exact ⟨.inl rfl, Nat.le_refl a, fun m hm => Nat.le_of_lt (hlt m hm)⟩
    · rintro ⟨rfl | hn, hle, -⟩
      · rfl
      · have h := hlt n hn
        omega

end Bitmap
