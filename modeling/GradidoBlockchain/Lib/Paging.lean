import Mathlib.Data.List.Basic

/-!
# Collecting from pages

A list is read page by page, and elements are taken from each page until one of
them stops the search or enough are taken; whether enough are taken is asked
between pages only.

* `taken` is what is taken from a list, up to the first element that stops;
* `collectPages` reads pages; `collectPages_eq_iff` says that it gives the first
  elements that are taken from the whole list exactly when the pages stand for
  the blocks of the list and fill up evenly (`Even`).
-/

namespace Paging

variable {α : Type} {use stop : α → Bool} {size : ℕ}

/-- A list up to the first element that stops. -/
def untilStop (stop : α → Bool) : List α → List α
  | [] => []
  | a :: l => if stop a then [a] else a :: untilStop stop l

/-- What is taken from a list. -/
def taken (use stop : α → Bool) (l : List α) : List α := (untilStop stop l).filter use

@[simp] theorem taken_nil : taken use stop [] = [] := rfl

theorem taken_sublist (l : List α) : (taken use stop l).Sublist l := by
  have huntil : (untilStop stop l).Sublist l := by
    induction l with
    | nil => exact List.Sublist.slnil
    | cons a l ih =>
      unfold untilStop
      split_ifs
      · exact (List.nil_sublist l).cons_cons a
      · exact ih.cons_cons a
  exact List.filter_sublist.trans huntil

theorem taken_cons (a : α) (l : List α) : taken use stop (a :: l) =
    (if use a then [a] else []) ++ (if stop a then [] else taken use stop l) := by
  rw [taken, untilStop]
  cases stop a <;> cases hu : use a <;> simp [hu, taken]

/-- Behind an element that stops nothing is taken. -/
theorem taken_append (l l' : List α) : taken use stop (l ++ l') =
    taken use stop l ++ (if l.any stop then [] else taken use stop l') := by
  induction l with
  | nil => simp
  | cons a l ih =>
    rw [List.cons_append, taken_cons, taken_cons, ih, List.append_assoc, List.any_cons]
    cases stop a with
    | true => simp
    | false => simp only [Bool.false_eq_true, if_false, Bool.false_or]

/-- The `k`-th block of a list, counted from zero. -/
def blockAt (l : List α) (size k : ℕ) : List α := (l.drop (k * size)).take size

theorem take_succ_block (l : List α) (size k : ℕ) :
    l.take ((k + 1) * size) = l.take (k * size) ++ blockAt l size k := by
  rw [blockAt, Nat.add_mul, Nat.one_mul, List.take_add]

/-- The search goes on after the first `k` blocks. -/
def Open (use stop : α → Bool) (l : List α) (size k : ℕ) : Prop :=
  (l.take (k * size)).any stop = false ∧ (taken use stop (l.take (k * size))).length < size

/-- No block brings more elements than there is room for. -/
def Even (use stop : α → Bool) (l : List α) (size : ℕ) : Prop :=
  ∀ k, Open use stop l size k → (taken use stop (l.take ((k + 1) * size))).length ≤ size

/-- Reading page after page until one is empty, enough is taken, or an element stops.  The bound
is the number of pages. -/
def collectPages (use stop : α → Bool) (pages : ℕ → List α) (size : ℕ) : ℕ → ℕ → List α → List α
  | 0, _, acc => acc
  | bound + 1, page, acc =>
    if pages page = [] then acc
    else
      let acc' := acc ++ taken use stop (pages page)
      if size = 0 ∨ size ≤ acc'.length ∨ (pages page).any stop = true then acc'
      else collectPages use stop pages size bound (page + 1) acc'

/-- A page takes the place of a block. -/
structure Replaces (use stop : α → Bool) (page block : List α) : Prop where
  nil : page = [] ↔ block = []
  taken : taken use stop page = taken use stop block
  stops : page.any stop = block.any stop

/-- A page can be read twice: it brings nothing, or it is the last one that is read. -/
def Passed (use stop : α → Bool) (size : ℕ) (page : List α) : Prop :=
  taken use stop page = [] ∨ size ≤ (taken use stop page).length ∨ page.any stop = true

theorem Replaces.passed_iff {page block : List α} (h : Replaces use stop page block) :
    Passed use stop size page ↔ Passed use stop size block := by
  rw [Passed, Passed, h.taken, h.stops]

theorem Replaces.refl (l : List α) : Replaces use stop l l := ⟨Iff.rfl, rfl, rfl⟩

/-- An element may come twice when it is not used, or when it stops. -/
theorem replaces_twice {a : α} :
    Replaces use stop [a, a] [a] ↔ (use a = true → stop a = true) := by
  have htwice : taken use stop [a, a] = taken use stop [a] ↔ (use a = true → stop a = true) := by
    rw [taken_cons, taken_cons, taken_nil]
    cases hu : use a <;> cases hs : stop a <;> simp
  exact ⟨fun h => htwice.1 h.taken, fun h => ⟨by simp, htwice.2 h, by simp⟩⟩

theorem collectPages_startsWith (pages : ℕ → List α) (bound page : ℕ) (acc : List α) :
    acc <+: collectPages use stop pages size bound page acc := by
  induction bound generalizing page acc with
  | zero => exact List.prefix_refl acc
  | succ bound ih =>
    unfold collectPages
    dsimp only
    split_ifs
    · exact List.prefix_refl acc
    · exact List.prefix_append _ _
    · exact (List.prefix_append _ _).trans (ih _ _)

/-- What a page brings is in the result. -/
theorem collectPages_startsWith_page (pages : ℕ → List α) (bound page : ℕ) (acc : List α) :
    acc ++ taken use stop (pages page) <+:
      collectPages use stop pages size (bound + 1) page acc := by
  unfold collectPages
  dsimp only
  split_ifs with hnil
  · exact ⟨[], by rw [hnil, taken_nil, List.append_nil, List.append_nil]⟩
  · exact List.prefix_refl _
  · exact collectPages_startsWith pages bound _ _

section Blocks

variable {l : List α} {pages : ℕ → List α} {page bound k : ℕ}

theorem Open.of_succ (h : Open use stop l size (k + 1)) : Open use stop l size k := by
  obtain ⟨hstop, hlength⟩ := h
  rw [take_succ_block] at hstop hlength
  rw [List.any_append, Bool.or_eq_false_iff] at hstop
  rw [taken_append, List.length_append] at hlength
  exact ⟨hstop.1, by omega⟩

theorem Open.mono (h : Open use stop l size k) {j : ℕ} (hj : j ≤ k) : Open use stop l size j := by
  induction k with
  | zero => rwa [Nat.le_zero.1 hj]
  | succ k ih =>
    by_cases hlast : j = k + 1
    · rwa [hlast]
    · exact ih h.of_succ (by omega)

theorem blockAt_eq_nil (hsize : 1 ≤ size) : blockAt l size k = [] ↔ l.length ≤ k * size := by
  rw [blockAt, List.take_eq_nil_iff, List.drop_eq_nil_iff]
  omega

/-- What is taken when the block is the last one. -/
theorem Open.taken_of_last (hopen : Open use stop l size k) (hlast : l.length ≤ (k + 1) * size) :
    taken use stop l = taken use stop (l.take (k * size)) ++ taken use stop (blockAt l size k) := by
  conv_lhs => rw [← List.take_of_length_le hlast, take_succ_block]
  rw [taken_append, hopen.1]
  rfl

/-- What is taken after a page that stands for a block. -/
theorem Open.append_page (hopen : Open use stop l size k)
    (hreplaces : Replaces use stop (pages (page + k)) (blockAt l size k)) :
    taken use stop (l.take (k * size)) ++ taken use stop (pages (page + k)) =
        taken use stop (l.take ((k + 1) * size)) ∧
      (l.take ((k + 1) * size)).any stop = (pages (page + k)).any stop := by
  rw [take_succ_block, taken_append, List.any_append, hopen.1, hreplaces.taken, hreplaces.stops]
  simp

/-- The search passes over a block after which it is still open. -/
theorem collectPages_step (hsize : 1 ≤ size) (hopen : Open use stop l size (k + 1))
    (hreplaces : Replaces use stop (pages (page + k)) (blockAt l size k))
    (hk : k * size < l.length) :
    collectPages use stop pages size (bound + 1) (page + k) (taken use stop (l.take (k * size))) =
      collectPages use stop pages size bound (page + (k + 1))
        (taken use stop (l.take ((k + 1) * size))) := by
  obtain ⟨hacc, hstops⟩ := hopen.of_succ.append_page hreplaces
  have hnil : pages (page + k) ≠ [] := by
    rw [Ne, hreplaces.nil, blockAt_eq_nil hsize]
    omega
  rw [collectPages, if_neg hnil]
  dsimp only
  rw [hacc, ← hstops, hopen.1, if_neg, Nat.add_assoc]
  have hlength := hopen.2
  simp only [not_or]
  exact ⟨by omega, by omega, by simp⟩

/-- The search gets to every block that is read. -/
theorem collectPages_reach (hsize : 1 ≤ size) (hopen : Open use stop l size k)
    (hk : k * size < l.length + size)
    (hpages : ∀ j < k, Replaces use stop (pages (page + j)) (blockAt l size j)) :
    collectPages use stop pages size (bound + k) page [] =
      collectPages use stop pages size bound (page + k) (taken use stop (l.take (k * size))) := by
  induction k generalizing bound with
  | zero => simp
  | succ k ih =>
    have hnext : (k + 1) * size = k * size + size := by rw [Nat.add_mul, Nat.one_mul]
    rw [show bound + (k + 1) = bound + 1 + k by omega,
      ih hopen.of_succ (by omega) (fun j hj => hpages j (by omega)),
      collectPages_step hsize hopen (hpages k (by omega)) (by omega)]

/-- **Pages that are blocks and fill up evenly** give the first elements that are taken from the
whole list. -/
theorem collectPages_eq (hsize : 1 ≤ size)
    (hpages : ∀ k, Open use stop l size k → k * size < l.length + size →
      Replaces use stop (pages (page + k)) (blockAt l size k))
    (heven : Even use stop l size) (hopen : Open use stop l size k)
    (hk : k * size < l.length + size) (hbound : l.length < k * size + bound) :
    collectPages use stop pages size bound (page + k) (taken use stop (l.take (k * size))) =
      (taken use stop l).take size := by
  induction bound generalizing k with
  | zero =>
    rw [collectPages, List.take_of_length_le (by omega)]
    rw [List.take_of_length_le]
    have hlength := hopen.2
    rw [List.take_of_length_le (by omega)] at hlength
    omega
  | succ bound ih =>
    have hreplaces := hpages k hopen hk
    obtain ⟨hacc, hstops⟩ := hopen.append_page hreplaces
    by_cases hle : l.length ≤ k * size
    · -- behind the last block
      have hlength := hopen.2
      rw [collectPages, if_pos (hreplaces.nil.2 ((blockAt_eq_nil hsize).2 hle)),
        List.take_of_length_le hle]
      rw [List.take_of_length_le hle] at hlength
      rw [List.take_of_length_le (by omega)]
    by_cases hnext : Open use stop l size (k + 1)
    · have hadd : (k + 1) * size = k * size + size := by rw [Nat.add_mul, Nat.one_mul]
      rw [collectPages_step hsize hnext hreplaces (by omega)]
      exact ih hnext (by omega) (by omega)
    · -- the block is the last one that is read
      have hall : taken use stop l = taken use stop (l.take ((k + 1) * size)) ++
          (if (pages (page + k)).any stop then []
            else taken use stop (l.drop ((k + 1) * size))) := by
        conv_lhs => rw [← List.take_append_drop ((k + 1) * size) l]
        rw [taken_append, hstops]
      have hroom := heven k hopen
      have hends : (pages (page + k)).any stop = true ∨
          size ≤ (taken use stop (l.take ((k + 1) * size))).length := by
        by_contra hcon
        rw [not_or, Bool.not_eq_true, ← hstops, Nat.not_le] at hcon
        exact hnext hcon
      rw [collectPages, if_neg (by rw [hreplaces.nil, blockAt_eq_nil hsize]; exact hle)]
      dsimp only
      rw [hacc, if_pos (.inr hends.symm), hall]
      by_cases hstop : (pages (page + k)).any stop = true
      · rw [if_pos hstop, List.append_nil, List.take_of_length_le hroom]
      · rw [List.take_append_of_le_length (hends.resolve_left hstop),
          List.take_of_length_le hroom]

/-- **Exactly such pages** give it, when a page that does not stand for its block brings more than
there is left. -/
theorem collectPages_eq_iff (hsize : 1 ≤ size)
    (hpages : ∀ k, Open use stop l size k → k * size < l.length + size →
      Replaces use stop (pages (page + k)) (blockAt l size k) ∨
      (taken use stop l).length <
        (taken use stop (l.take (k * size)) ++ taken use stop (pages (page + k))).length)
    (hbound : l.length < bound) :
    collectPages use stop pages size bound page [] = (taken use stop l).take size ↔
      (∀ k, Open use stop l size k → k * size < l.length + size →
        Replaces use stop (pages (page + k)) (blockAt l size k)) ∧ Even use stop l size := by
  have hzero : Open use stop l size 0 := ⟨by simp, by simpa using Nat.pos_of_ne_zero (by omega)⟩
  constructor
  · intro heq
    -- up to the first page that brings too much, the search goes on
    have hgood : ∀ k, Open use stop l size k → k * size < l.length + size →
        Replaces use stop (pages (page + k)) (blockAt l size k) ∧
          (taken use stop (l.take ((k + 1) * size))).length ≤ size := by
      intro k
      induction k using Nat.strongRecOn with
      | ind k ih =>
        intro hopen hk
        have hbefore : ∀ j < k, Replaces use stop (pages (page + j)) (blockAt l size j) := by
          intro j hj
          have hmul : j * size ≤ k * size := Nat.mul_le_mul_right size (Nat.le_of_lt hj)
          exact (ih j hj (hopen.mono (Nat.le_of_lt hj)) (by omega)).1
        have hkl : k ≤ l.length := by
          have hmul : k * 1 ≤ k * size := Nat.mul_le_mul_left k hsize
          by_contra hlt
          have hlast : (l.length + 1) * size ≤ k * size := Nat.mul_le_mul_right size (by omega)
          have hlength : l.length * 1 ≤ l.length * size := Nat.mul_le_mul_left _ hsize
          rw [Nat.add_mul, Nat.one_mul] at hlast
          omega
        obtain ⟨b, rfl⟩ : ∃ b, bound = b + 1 + k := ⟨bound - 1 - k, by omega⟩
        have hinitial := @collectPages_startsWith_page α use stop size pages b (page + k)
          (taken use stop (l.take (k * size)))
        rw [← collectPages_reach hsize hopen hk hbefore, heq] at hinitial
        have hlength := hinitial.length_le
        rw [List.length_take] at hlength
        have hreplaces := (hpages k hopen hk).resolve_right (by omega)
        refine ⟨hreplaces, ?_⟩
        rw [← (hopen.append_page hreplaces).1]
        omega
    refine ⟨fun k hopen hk => (hgood k hopen hk).1, fun k hopen => ?_⟩
    by_cases hk : k * size < l.length + size
    · exact (hgood k hopen hk).2
    · have hlength := hopen.2
      rw [List.take_of_length_le (by omega)] at hlength
      have hnext : (k + 1) * size = k * size + size := by rw [Nat.add_mul, Nat.one_mul]
      rw [List.take_of_length_le (by omega)]
      omega
  · rintro ⟨hreplaces, heven⟩
    have hcollect := @collectPages_eq α use stop size l pages page bound 0 hsize hreplaces heven
      hzero (by omega) (by omega)
    simpa using hcollect

end Blocks

/-- A page zero that is the same as page one does no harm when it can be read twice. -/
theorem collectPages_zero {pages : ℕ → List α} (hsame : pages 0 = pages 1)
    (hfirst : Passed use stop size (pages 1)) (bound : ℕ) :
    collectPages use stop pages size (bound + 2) 0 [] =
      collectPages use stop pages size (bound + 1) 1 [] := by
  rw [collectPages, hsame]
  by_cases hnil : pages 1 = []
  · rw [if_pos hnil, collectPages, if_pos hnil]
  rw [if_neg hnil]
  dsimp only
  rw [List.nil_append]
  by_cases hends : size = 0 ∨ size ≤ (taken use stop (pages 1)).length ∨
      (pages 1).any stop = true
  · rw [if_pos hends, collectPages, if_neg hnil]
    dsimp only
    rw [List.nil_append, if_pos hends]
  · have hnone : taken use stop (pages 1) = [] :=
      hfirst.resolve_right (fun h => hends (.inr h))
    rw [if_neg hends, hnone]

/-- What page zero brings comes again with page one otherwise. -/
theorem collectPages_zero_twice {pages : ℕ → List α} (hsame : pages 0 = pages 1)
    (hsize : 1 ≤ size) (hfirst : ¬ Passed use stop size (pages 1)) (bound : ℕ) :
    taken use stop (pages 1) ++ taken use stop (pages 1) <+:
      collectPages use stop pages size (bound + 2) 0 [] := by
  obtain ⟨hnone, hends⟩ := not_or.1 hfirst
  have hnil : pages 1 ≠ [] := fun h => hnone (by rw [h, taken_nil])
  rw [collectPages, hsame, if_neg hnil]
  dsimp only
  rw [List.nil_append, if_neg (fun h => hends (h.resolve_left (by omega)))]
  exact collectPages_startsWith_page pages bound 1 _

end Paging
