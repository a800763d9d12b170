import Mathlib.Data.List.Forall2
import Mathlib.Data.List.Induction

/-!
# Append-only lists

Two notions for a list that only grows at its end.

* `AlongPrefixes P l` says that every element of `l` has a property that may
  depend on all elements before it; `alongPrefixes_concat` adds one element at
  the end, and the condition can be evaluated.
* `latest P l` is the last element with a property, as a search from the end
  finds it; `rel_latest` carries it over to a list of corresponding
  elements, and `latest_eq_some_iff_of_numbered` describes it by the numbers of
  the elements.
-/

universe u

section Prefixes

variable {α : Type u} {P Q : List α → α → Prop} {l l' : List α} {a : α}

/-- Every element has a property that may depend on the elements before it. -/
def AlongPrefixes (P : List α → α → Prop) (l : List α) : Prop :=
  ∀ pre a post, l = pre ++ a :: post → P pre a

theorem alongPrefixes_nil (P : List α → α → Prop) : AlongPrefixes P [] := by
  intro pre a post h
  simp at h

theorem AlongPrefixes.of_append (h : AlongPrefixes P (l ++ l')) : AlongPrefixes P l := by
  intro pre a post heq
  exact h pre a (post ++ l') (by rw [heq]; simp)

theorem AlongPrefixes.of_prefix (h : AlongPrefixes P l') (hl : l <+: l') : AlongPrefixes P l := by
  obtain ⟨t, rfl⟩ := hl
  exact h.of_append

theorem AlongPrefixes.last (h : AlongPrefixes P (l ++ [a])) : P l a :=
  h l a [] rfl

theorem alongPrefixes_concat :
    AlongPrefixes P (l ++ [a]) ↔ AlongPrefixes P l ∧ P l a := by
  refine ⟨fun h => ⟨h.of_append, h.last⟩, ?_⟩
  rintro ⟨hl, ha⟩ pre b post heq
  rcases List.eq_nil_or_concat post with rfl | ⟨post, c, rfl⟩
  · obtain ⟨rfl, hb⟩ := List.append_inj' heq rfl
    rw [← List.singleton_inj.1 hb]
    exact ha
  · have hinner : l ++ [a] = (pre ++ b :: post) ++ [c] := by rw [heq]; simp
    exact hl pre b post (List.append_inj' hinner rfl).1

theorem AlongPrefixes.imp (h : AlongPrefixes P l) (hPQ : ∀ pre a, P pre a → Q pre a) :
    AlongPrefixes Q l :=
  fun pre a post heq => hPQ pre a (h pre a post heq)

/-- The property of an element, with the part of the list up to it. -/
theorem AlongPrefixes.of_mem (h : AlongPrefixes P l) (ha : a ∈ l) :
    ∃ pre, pre ++ [a] <+: l ∧ P pre a := by
  obtain ⟨pre, post, rfl⟩ := List.append_of_mem ha
  exact ⟨pre, ⟨post, by simp⟩, h pre a post rfl⟩

/-- The property of an element, at its position. -/
theorem AlongPrefixes.getElem? (h : AlongPrefixes P l) {k : ℕ} (hk : l[k]? = some a) :
    P (l.take k) a := by
  obtain ⟨hlt, rfl⟩ := List.getElem?_eq_some_iff.1 hk
  refine h _ _ (l.drop (k + 1)) ?_
  rw [← List.drop_eq_getElem_cons hlt, List.take_append_drop]

/-- It is enough to look at every position. -/
theorem alongPrefixes_iff_forall_lt :
    AlongPrefixes P l ↔ ∀ k ∈ List.range l.length, ∀ a ∈ l[k]?, P (l.take k) a := by
  refine ⟨fun h k _ a ha => h.getElem? ha, ?_⟩
  rintro h pre a post rfl
  have hlt : pre.length ∈ List.range (pre ++ a :: post).length := by simp
  have hP := h pre.length hlt a (by simp)
  rwa [List.take_left] at hP

instance [∀ pre a, Decidable (P pre a)] : Decidable (AlongPrefixes P l) :=
  decidable_of_iff _ alongPrefixes_iff_forall_lt.symm

end Prefixes

/-! ### The latest element -/

section Latest

variable {α β : Type u} {P : α → Prop} [DecidablePred P] {l : List α} {a : α}

/-- The last element of a list with a property. -/
def latest (P : α → Prop) [DecidablePred P] (l : List α) : Option α :=
  l.reverse.find? (fun a => decide (P a))

@[simp] theorem latest_nil : latest P [] = none := rfl

theorem latest_concat : latest P (l ++ [a]) = if P a then some a else latest P l := by
  unfold latest
  rw [List.reverse_concat, List.find?_cons]
  by_cases h : P a <;> simp [h]

theorem latest_eq_none_iff : latest P l = none ↔ ∀ a ∈ l, ¬ P a := by
  simp [latest]

theorem latest_mem (h : latest P l = some a) : a ∈ l :=
  List.mem_reverse.1 (List.mem_of_find?_eq_some h)

theorem latest_prop (h : latest P l = some a) : P a := by
  simpa using List.find?_some h

theorem latest_congr {Q : α → Prop} [DecidablePred Q] (h : ∀ a ∈ l, P a ↔ Q a) :
    latest P l = latest Q l := by
  induction l using List.reverseRecOn with
  | nil => rfl
  | append_singleton l a ih =>
    have ha := h a (by simp)
    rw [latest_concat, latest_concat, ih (fun b hb => h b (by simp [hb]))]
    simp only [ha]

/-- The latest element is the last one of those with the property. -/
theorem latest_eq_getLast?_filter : latest P l = (l.filter (fun a => decide (P a))).getLast? := by
  rw [latest, List.getLast?_eq_head?_reverse, ← List.filter_reverse, List.head?_filter]

/-- In a list whose elements are numbered upwards, the latest element is the one with the largest
number. -/
theorem latest_eq_some_iff_of_numbered {nr : α → ℕ}
    (hnr : l.Pairwise (fun a b => nr a < nr b)) :
    latest P l = some a ↔ a ∈ l ∧ P a ∧ ∀ b ∈ l, P b → nr b ≤ nr a := by
  induction l using List.reverseRecOn with
  | nil => simp
  | append_singleton l c ih =>
    rw [List.pairwise_append] at hnr
    obtain ⟨hl, -, hlt⟩ := hnr
    have hltc : ∀ b ∈ l, nr b < nr c := fun b hb => hlt b hb c (by simp)
    rw [latest_concat]
    by_cases hc : P c
    · rw [if_pos hc, Option.some.injEq]
      constructor
      · rintro rfl
        refine ⟨by simp, hc, ?_⟩
        intro b hb _
        rcases List.mem_append.1 hb with hb | hb
        · exact Nat.le_of_lt (hltc b hb)
        · exact Nat.le_of_eq (congrArg nr (List.mem_singleton.1 hb))
      · rintro ⟨ha, -, hmax⟩
        rcases List.mem_append.1 ha with ha | ha
        · have hle := hmax c (by simp) hc
          have hlt := hltc a ha
          omega
        · exact (List.mem_singleton.1 ha).symm
    · rw [if_neg hc, ih hl]
      constructor
      · rintro ⟨ha, hP, hmax⟩
        refine ⟨by simp [ha], hP, ?_⟩
        intro b hb hPb
        rcases List.mem_append.1 hb with hb | hb
        · exact hmax b hb hPb
        · rw [List.mem_singleton.1 hb] at hPb
          exact absurd hPb hc
      · rintro ⟨ha, hP, hmax⟩
        rcases List.mem_append.1 ha with ha | ha
        · exact ⟨ha, hP, fun b hb => hmax b (by simp [hb])⟩
        · rw [List.mem_singleton.1 ha] at hP
          exact absurd hP hc

/-- Corresponding lists have corresponding latest elements. -/
theorem rel_latest {R : α → β → Prop} {l' : List β} {Q : β → Prop} [DecidablePred Q]
    (h : List.Forall₂ R l l') (hPQ : ∀ a b, R a b → (P a ↔ Q b)) :
    Option.Rel R (latest P l) (latest Q l') := by
  unfold latest
  have hreverse := List.rel_reverse h
  generalize l.reverse = r at hreverse
  generalize l'.reverse = r' at hreverse
  induction hreverse with
  | nil => exact .none
  | @cons a b _ _ hab _ ih =>
    have hiff := hPQ a b hab
    rw [List.find?_cons, List.find?_cons]
    by_cases hP : P a
    · simp only [hP, hiff.1 hP, decide_true]
      exact .some hab
    · simp only [hP, (not_congr hiff).1 hP, decide_false]
      exact ih

end Latest
