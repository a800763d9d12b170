import GradidoBlockchain.Lib.Paging
import Mathlib.Data.List.Range
import Mathlib.Data.Int.Notation

/-!
# Reading buckets

A list that is sorted by a key is kept in buckets, one for each key, and the
buckets are searched one after the other: a bucket may be skipped, or may end
the search, before its elements are looked at.

* `scan` is the search; `scan_eq` says that it gives the elements that are used
  in the buckets which do not end it;
* `flatten_buckets` puts buckets of a sorted list together again.
-/

namespace Buckets

open Paging

variable {α : Type} {skip ends : List α → Bool} {use stop : α → Bool}

/-- Reading buckets until one of them ends the search or an element stops it. -/
def scan (skip ends : List α → Bool) (use stop : α → Bool) : List (List α) → List α
  | [] => []
  | b :: bs =>
    if b = [] ∨ skip b = true then scan skip ends use stop bs
    else if ends b then []
    else taken use stop b ++ (if b.any stop then [] else scan skip ends use stop bs)

/-- When nothing is used behind an element that stops, stopping does not matter. -/
theorem taken_eq_filter {l : List α}
    (h : l.Pairwise (fun a a' => stop a = true → use a' = false)) :
    taken use stop l = l.filter use := by
  induction l with
  | nil => rfl
  | cons a l ih =>
    rw [List.pairwise_cons] at h
    rw [taken_cons, List.filter_cons, ih h.2]
    cases hstop : stop a with
    | true =>
      have hnone : l.filter use = [] :=
        List.filter_eq_nil_iff.2 (fun a' ha' => by simp [h.1 a' ha' hstop])
      cases use a <;> simp [hnone]
    | false => cases use a <;> simp

/-- What the tests on buckets and elements have to respect: a bucket is skipped when nothing in it
is used, and behind a bucket that ends the search, or an element that stops it, nothing is. -/
structure Sound (skip ends : List α → Bool) (use stop : α → Bool) (bs : List (List α)) : Prop where
  skips : ∀ b ∈ bs, skip b = true → ∀ a ∈ b, use a = false
  ends : bs.Pairwise (fun b b' => ends b = true → ∀ a ∈ b', use a = false)
  stops : bs.flatten.Pairwise (fun a a' => stop a = true → use a' = false)

theorem Sound.of_cons {b : List α} {bs : List (List α)} (h : Sound skip ends use stop (b :: bs)) :
    Sound skip ends use stop bs where
  skips := fun b' hb' => h.skips b' (List.mem_cons_of_mem _ hb')
  ends := (List.pairwise_cons.1 h.ends).2
  stops := (List.pairwise_append.1 (by simpa using h.stops)).2.1

/-- **The search** gives what is used in the buckets that do not end it. -/
theorem scan_eq {bs : List (List α)} (h : Sound skip ends use stop bs) :
    scan skip ends use stop bs = ((bs.filter (fun b => !ends b)).flatten).filter use := by
  induction bs with
  | nil => rfl
  | cons b bs ih =>
    have hrest := ih h.of_cons
    have hstops := List.pairwise_append.1 (by simpa using h.stops)
    have hflatten : ∀ a ∈ (bs.filter (fun b => !ends b)).flatten, a ∈ bs.flatten := by
      intro a ha
      obtain ⟨b', hb', ha'⟩ := List.mem_flatten.1 ha
      exact List.mem_flatten.2 ⟨b', List.mem_of_mem_filter hb', ha'⟩
    rw [scan]
    by_cases hskip : b = [] ∨ skip b = true
    · -- nothing in the bucket is used
      have hnone : b.filter use = [] := by
        rcases hskip with rfl | hskip
        · rfl
        · exact List.filter_eq_nil_iff.2
            (fun a ha => by simp [h.skips b List.mem_cons_self hskip a ha])
      rw [if_pos hskip, hrest, List.filter_cons]
      cases ends b <;> simp [hnone]
    rw [if_neg hskip, List.filter_cons]
    cases hends : ends b with
    | true =>
      have hnone : ((bs.filter (fun b => !ends b)).flatten).filter use = [] := by
        refine List.filter_eq_nil_iff.2 (fun a ha => ?_)
        obtain ⟨b', hb', ha'⟩ := List.mem_flatten.1 ha
        have hunused := (List.pairwise_cons.1 h.ends).1 b' (List.mem_of_mem_filter hb') hends a ha'
        simp [hunused]
      simp [hnone]
    | false =>
      simp only [Bool.false_eq_true, if_false, Bool.not_false, if_true, List.flatten_cons,
        List.filter_append]
      rw [taken_eq_filter hstops.1]
      cases hany : b.any stop with
      | true =>
        obtain ⟨a, ha, hstop⟩ := List.any_eq_true.1 hany
        have hnone : ((bs.filter (fun b => !ends b)).flatten).filter use = [] := by
          refine List.filter_eq_nil_iff.2 (fun a' ha' => ?_)
          have hunused := hstops.2.2 a ha a' (by simpa using hflatten a' ha') hstop
          simp [hunused]
        simp [hnone]
      | false => simp [hrest]

/-- Of two selections, one inside the other, as many are left exactly when they are the same. -/
theorem length_filter_eq_iff {p q : α → Bool} {l : List α}
    (h : ∀ a ∈ l, p a = true → q a = true) :
    (l.filter p).length = (l.filter q).length ↔ ∀ a ∈ l, q a = true → p a = true := by
  constructor
  · intro hlength a ha hq
    have hsublist : (l.filter p).Sublist (l.filter q) := by
      have hboth : l.filter p = (l.filter q).filter p := by
        rw [List.filter_filter]
        refine List.filter_congr (fun a ha => ?_)
        cases hp : p a with
        | false => rfl
        | true => rw [h a ha hp]; rfl
      rw [hboth]
      exact List.filter_sublist
    have hin : a ∈ l.filter p := by
      rw [hsublist.eq_of_length hlength]
      exact List.mem_filter.2 ⟨ha, hq⟩
    exact (List.mem_filter.1 hin).2
  · intro hback
    have hsame : l.filter p = l.filter q :=
      List.filter_congr (fun a ha => Bool.eq_iff_iff.2 ⟨h a ha, hback a ha⟩)
    rw [hsame]

/-- The numbers of a stretch that lie between two bounds. -/
theorem length_filter_range' (lo hi first n : ℕ) :
    ((List.range' first n).filter (fun k => decide (lo ≤ k ∧ k ≤ hi))).length =
      min (hi + 1) (first + n) - max lo first := by
  induction n with
  | zero =>
    simp only [List.range'_zero, List.filter_nil, List.length_nil]
    omega
  | succ n ih =>
    rw [List.range'_concat, List.filter_append, List.length_append, ih]
    simp only [Nat.one_mul, List.filter_cons, List.filter_nil]
    split_ifs with hin
    · simp only [decide_eq_true_eq] at hin
      simp only [List.length_singleton]
      omega
    · simp only [decide_eq_true_eq] at hin
      simp only [List.length_nil]
      omega

/-! ### Buckets of a sorted list -/

/-- Numbers that increase belong to one element each. -/
theorem eq_of_numbered {nr : α → ℕ} {l : List α} (h : l.Pairwise (fun a a' => nr a < nr a'))
    {a a' : α} (ha : a ∈ l) (ha' : a' ∈ l) (heq : nr a = nr a') : a = a' := by
  obtain ⟨k, hk, rfl⟩ := List.getElem_of_mem ha
  obtain ⟨k', hk', rfl⟩ := List.getElem_of_mem ha'
  have hlt := List.pairwise_iff_getElem.1 h
  rcases Nat.lt_trichotomy k k' with hkk | rfl | hkk
  · have hnr := hlt k k' hk hk' hkk
    omega
  · rfl
  · have hnr := hlt k' k hk' hk hkk
    omega

/-- From an element on, the numbers are at least its own. -/
theorem drop_eq_filter {nr : α → ℕ} {l : List α} (h : l.Pairwise (fun a a' => nr a < nr a'))
    {k : ℕ} {a : α} (ha : l[k]? = some a) :
    l.drop k = l.filter (fun a' => decide (nr a ≤ nr a')) := by
  induction l generalizing k with
  | nil => simp at ha
  | cons b l ih =>
    rw [List.pairwise_cons] at h
    cases k with
    | zero =>
      obtain rfl : b = a := by simpa using ha
      have hall : ∀ a' ∈ b :: l, decide (nr b ≤ nr a') = true := by
        intro a' ha'
        rw [decide_eq_true_iff]
        rcases List.mem_cons.1 ha' with rfl | ha'
        · exact Nat.le_refl _
        · exact Nat.le_of_lt (h.1 a' ha')
      rw [List.filter_eq_self.2 hall, List.drop_zero]
    | succ k =>
      have hin : a ∈ l := List.mem_of_getElem? (by simpa using ha)
      have hlt := h.1 a hin
      rw [List.drop_succ_cons, List.filter_cons, if_neg (by simp; omega)]
      exact ih h.2 (by simpa using ha)

/-- Up to an element, the numbers are at most its own. -/
theorem take_eq_filter {nr : α → ℕ} {l : List α} (h : l.Pairwise (fun a a' => nr a < nr a'))
    {k : ℕ} {a : α} (ha : l[k]? = some a) :
    l.take (k + 1) = l.filter (fun a' => decide (nr a' ≤ nr a)) := by
  induction l generalizing k with
  | nil => simp at ha
  | cons b l ih =>
    rw [List.pairwise_cons] at h
    cases k with
    | zero =>
      obtain rfl : b = a := by simpa using ha
      have hnone : l.filter (fun a' => decide (nr a' ≤ nr b)) = [] := by
        refine List.filter_eq_nil_iff.2 (fun a' ha' => ?_)
        have hlt := h.1 a' ha'
        simp only [decide_eq_true_eq]
        omega
      simp [hnone]
    | succ k =>
      have hin : a ∈ l := List.mem_of_getElem? (by simpa using ha)
      have hlt := h.1 a hin
      rw [List.take_succ_cons, List.filter_cons, if_pos (by simp; omega)]
      exact congrArg (b :: ·) (ih h.2 (by simpa using ha))

/-- Numbers that increase tell selections apart. -/
theorem map_filter_eq_iff {nr : α → ℕ} {l : List α}
    (h : l.Pairwise (fun a a' => nr a < nr a')) {p q : α → Bool} :
    (l.filter p).map nr = (l.filter q).map nr ↔ ∀ a ∈ l, p a = q a := by
  constructor
  · intro heq a ha
    have hmem : ∀ r : α → Bool, r a = true ↔ nr a ∈ (l.filter r).map nr := by
      intro r
      rw [List.mem_map]
      constructor
      · intro hr
        exact ⟨a, List.mem_filter.2 ⟨ha, hr⟩, rfl⟩
      · rintro ⟨a', ha', hnr⟩
        rw [List.mem_filter] at ha'
        exact eq_of_numbered h ha'.1 ha hnr ▸ ha'.2
    rw [Bool.eq_iff_iff, hmem p, hmem q, heq]
  · intro hall
    rw [List.filter_congr hall]

/-- Two parts of a list, the first of which stands before the second, put together. -/
theorem filter_append_filter {p q : α → Bool} {l : List α}
    (h : l.Pairwise (fun a a' => q a = true → p a' = false))
    (hdisjoint : ∀ a ∈ l, p a = true → q a = false) :
    l.filter p ++ l.filter q = l.filter (fun a => p a || q a) := by
  induction l with
  | nil => rfl
  | cons a l ih =>
    rw [List.pairwise_cons] at h
    have hrest := ih h.2 (fun a' ha' => hdisjoint a' (List.mem_cons_of_mem _ ha'))
    cases hp : p a with
    | true =>
      have hq := hdisjoint a List.mem_cons_self hp
      simp [hp, hq, hrest]
    | false =>
      cases hq : q a with
      | true =>
        have hnone : l.filter p = [] :=
          List.filter_eq_nil_iff.2 (fun a' ha' => by simp [h.1 a' ha' hq])
        have hall : l.filter q = l.filter (fun a => p a || q a) := by
          rw [← hrest, hnone, List.nil_append]
        simp [hp, hq, hnone, hall]
      | false => simp [hp, hq, hrest]

/-- The elements with a key. -/
def bucket (key : α → ℤ) (l : List α) (k : ℤ) : List α := l.filter (fun a => decide (key a = k))

variable {key : α → ℤ} {l : List α}

/-- Keys one after the other. -/
def keysFrom (k : ℤ) (n : ℕ) : List ℤ := (List.range n).map (fun i : ℕ => k + i)

theorem mem_bucket {a : α} {k : ℤ} : a ∈ bucket key l k ↔ a ∈ l ∧ key a = k := by
  simp [bucket]

/-- **The buckets of a sorted list**, from one key on, put together. -/
theorem flatten_buckets (hsorted : l.Pairwise (fun a a' => key a ≤ key a')) (k : ℤ) (n : ℕ) :
    ((keysFrom k n).map (bucket key l)).flatten =
      l.filter (fun a => decide (k ≤ key a ∧ key a < k + n)) := by
  induction n with
  | zero =>
    refine (List.filter_eq_nil_iff.2 (fun a _ => ?_)).symm
    simp only [decide_eq_true_eq]
    omega
  | succ n ih =>
    rw [keysFrom, List.range_succ, List.map_append, List.map_append, List.flatten_append,
      ← keysFrom, ih, List.map_singleton, List.map_singleton, List.flatten_singleton, bucket,
      filter_append_filter]
    · refine List.filter_congr (fun a _ => ?_)
      rw [← Bool.decide_or, decide_eq_decide]
      omega
    · refine hsorted.imp (fun hle hkey => ?_)
      simp only [decide_eq_true_eq, decide_eq_false_iff_not] at hkey ⊢
      omega
    · intro a _ hbefore
      simp only [decide_eq_true_eq, decide_eq_false_iff_not] at hbefore ⊢
      omega

/-- Buckets that are left out. -/
theorem flatten_filter_map_bucket (P : List α → Bool) (ks : List ℤ) :
    ((ks.map (bucket key l)).filter P).flatten =
      ((ks.map (bucket key l)).flatten).filter (fun a => P (bucket key l (key a))) := by
  induction ks with
  | nil => rfl
  | cons k ks ih =>
    rw [List.map_cons, List.filter_cons, List.flatten_cons, List.filter_append, ← ih]
    have hkey : ∀ a ∈ bucket key l k, P (bucket key l (key a)) = P (bucket key l k) := by
      intro a ha
      rw [(mem_bucket.1 ha).2]
    rw [List.filter_congr hkey]
    cases P (bucket key l k) <;> simp

/-- Buckets that are left out, from the last one back to the first. -/
theorem flatten_filter_reverse (P : List α → Bool) (bs : List (List α)) :
    (((bs.map List.reverse).reverse.filter P).flatten) =
      ((bs.filter (fun b => P b.reverse)).flatten).reverse := by
  rw [← List.map_reverse, List.filter_map, List.filter_reverse, List.map_reverse,
    List.reverse_flatten]
  rfl

end Buckets
