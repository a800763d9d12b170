import Mathlib.Data.Finset.Basic
import Mathlib.Data.Finset.Insert

/-!
# Systems of parties

A state gives every party `i` its own part `s i`.  An event has an owner, changes
only the part of its owner, and reads only the parts of the parties that it
names.

* `performed`: the state after a list of events, with the answer to each;
* `Local`: what an event may change and what it may depend on;
* `Local.performed_filter`: a set of parties that only names its own members does
  not notice the events of the others;
* `Local.performed_of_filter_eq`: two orders of events in which every party sees
  the same events lead to the same state and the same answers.
-/

namespace Locality

variable {ι σ ε ρ : Type}

/-- The state after a list of events, with the answer to each event. -/
def performed (step : (ι → σ) → ε → (ι → σ) × ρ) : (ι → σ) → List ε → (ι → σ) × List (ε × ρ)
  | s, [] => (s, [])
  | s, e :: es =>
    ((performed step (step s e).1 es).1, (e, (step s e).2) :: (performed step (step s e).1 es).2)

/-- An event changes only the part of its owner; what it changes and what it answers depends only
on the parts of the parties it names. -/
structure Local (step : (ι → σ) → ε → (ι → σ) × ρ) (owner : ε → ι) (names : ε → Finset ι) :
    Prop where
  owner_mem : ∀ e, owner e ∈ names e
  frame : ∀ s e i, i ≠ owner e → (step s e).1 i = s i
  part : ∀ s t e, (∀ i ∈ names e, s i = t i) → (step s e).1 (owner e) = (step t e).1 (owner e)
  answer : ∀ s t e, (∀ i ∈ names e, s i = t i) → (step s e).2 = (step t e).2

variable {step : (ι → σ) → ε → (ι → σ) × ρ}

theorem performed_append (s : ι → σ) (es es' : List ε) :
    performed step s (es ++ es') =
      ((performed step (performed step s es).1 es').1,
        (performed step s es).2 ++ (performed step (performed step s es).1 es').2) := by
  induction es generalizing s with
  | nil => rfl
  | cons e es ih => simp only [List.cons_append, performed, ih]

/-- Every event gets one answer. -/
theorem map_fst_performed (s : ι → σ) (es : List ε) :
    (performed step s es).2.map Prod.fst = es := by
  induction es generalizing s with
  | nil => rfl
  | cons e es ih => simp only [performed, List.map_cons, ih]

namespace Local

variable {owner : ε → ι} {names : ε → Finset ι} (h : Local step owner names)

include h

/-- An event of a set of parties that names only its members. -/
theorem step_congr {S : Set ι} {s t : ι → σ} (hst : ∀ i ∈ S, s i = t i) {e : ε}
    (he : ∀ i ∈ names e, i ∈ S) :
    (∀ i ∈ S, (step s e).1 i = (step t e).1 i) ∧ (step s e).2 = (step t e).2 := by
  have hnames : ∀ i ∈ names e, s i = t i := fun i hi => hst i (he i hi)
  refine ⟨?_, h.answer s t e hnames⟩
  intro i hi
  by_cases howner : i = owner e
  · rw [howner]
    exact h.part s t e hnames
  · rw [h.frame s e i howner, h.frame t e i howner]
    exact hst i hi

/-- **Closed sets of parties.**  When the events of some parties name only these parties, the run of
their events alone leads to the same parts and the same answers. -/
theorem performed_filter {S : Set ι} [DecidablePred (· ∈ S)] {s t : ι → σ}
    (hst : ∀ i ∈ S, s i = t i) (es : List ε)
    (hclosed : ∀ e ∈ es, owner e ∈ S → ∀ i ∈ names e, i ∈ S) :
    (∀ i ∈ S, (performed step s es).1 i =
        (performed step t (es.filter (fun e => decide (owner e ∈ S)))).1 i) ∧
      (performed step s es).2.filter (fun a => decide (owner a.1 ∈ S)) =
        (performed step t (es.filter (fun e => decide (owner e ∈ S)))).2 := by
  induction es generalizing s t with
  | nil => exact ⟨hst, rfl⟩
  | cons e es ih =>
    have hrest : ∀ e' ∈ es, owner e' ∈ S → ∀ i ∈ names e', i ∈ S :=
      fun e' he' => hclosed e' (List.mem_cons_of_mem e he')
    by_cases he : owner e ∈ S
    · obtain ⟨hparts, hanswer⟩ := h.step_congr hst (hclosed e List.mem_cons_self he)
      obtain ⟨ihparts, ihanswers⟩ := ih hparts hrest
      rw [List.filter_cons_of_pos (by simpa using he)]
      refine ⟨ihparts, ?_⟩
      show List.filter _ ((e, (step s e).2) :: _) = (e, (step t e).2) :: _
      rw [List.filter_cons_of_pos (by simpa using he), ihanswers, hanswer]
    · -- the event of another party is not seen
      have hparts : ∀ i ∈ S, (step s e).1 i = t i := by
        intro i hi
        have hne : i ≠ owner e := fun heq => he (heq ▸ hi)
        rw [h.frame s e i hne, hst i hi]
      obtain ⟨ihparts, ihanswers⟩ := ih hparts hrest
      rw [List.filter_cons_of_neg (by simpa using he)]
      refine ⟨ihparts, ?_⟩
      show List.filter _ ((e, (step s e).2) :: _) = _
      rw [List.filter_cons_of_neg (by simpa using he), ihanswers]

/-- What an event does not change, seen by an event that names none of its parties. -/
theorem eq_of_disjoint {e e' : ε} (hdisjoint : ∀ i ∈ names e, i ∉ names e') (s : ι → σ) :
    ∀ i ∈ names e', (step s e).1 i = s i := by
  intro i hi
  refine h.frame s e i ?_
  rintro rfl
  exact hdisjoint (owner e) (h.owner_mem e) hi

/-- **Two events that share no party commute.** -/
theorem step_comm {e e' : ε} (hdisjoint : ∀ i ∈ names e, i ∉ names e') (s : ι → σ) :
    (step (step s e).1 e').1 = (step (step s e').1 e).1 ∧
      (step (step s e).1 e').2 = (step s e').2 ∧ (step (step s e').1 e).2 = (step s e).2 := by
  have hdisjoint' : ∀ i ∈ names e', i ∉ names e := fun i hi hi' => hdisjoint i hi' hi
  have hsee := h.eq_of_disjoint hdisjoint s
  have hsee' := h.eq_of_disjoint hdisjoint' s
  refine ⟨?_, h.answer _ _ e' hsee, h.answer _ _ e hsee'⟩
  funext i
  by_cases hi : i = owner e
  · have hne : i ≠ owner e' := by
      rintro rfl
      exact hdisjoint _ (hi ▸ h.owner_mem e) (h.owner_mem e')
    rw [h.frame _ e' i hne, hi]
    exact (h.part _ _ e hsee').symm
  · rw [h.frame _ e i hi]
    by_cases hi' : i = owner e'
    · rw [hi']
      exact h.part _ _ e' hsee
    · rw [h.frame _ e' i hi', h.frame _ e i hi, h.frame _ e' i hi']

/-- An event that shares no party with the events before it may go first. -/
theorem performed_append_singleton {e : ε} {es : List ε}
    (hdisjoint : ∀ e' ∈ es, ∀ i ∈ names e, i ∉ names e') (s : ι → σ) :
    (performed step s (es ++ [e])).1 = (performed step s (e :: es)).1 ∧
      (performed step (step s e).1 es).2 = (performed step s es).2 ∧
      (performed step s (es ++ [e])).2 = (performed step s es).2 ++ [(e, (step s e).2)] := by
  induction es generalizing s with
  | nil => exact ⟨rfl, rfl, rfl⟩
  | cons e' es ih =>
    obtain ⟨hstate, hanswer, hanswer'⟩ := h.step_comm (hdisjoint e' List.mem_cons_self) s
    obtain ⟨ihstate, ihanswers, ihanswer⟩ :=
      ih (fun e'' he'' => hdisjoint e'' (List.mem_cons_of_mem e' he'')) (step s e').1
    simp only [List.cons_append, performed] at ihstate ihanswers ihanswer ⊢
    refine ⟨?_, ?_, ?_⟩
    · rw [ihstate, hstate]
    · rw [hstate, ihanswers, hanswer]
    · rw [ihanswer, hanswer']

/-- **Orders of events.**  When every party sees the same events in the same order, the state is the
same and every party sees the same answers. -/
theorem performed_of_filter_eq [DecidableEq ι] (s : ι → σ) {es es' : List ε}
    (hview : ∀ i, es.filter (fun e => decide (i ∈ names e)) =
      es'.filter (fun e => decide (i ∈ names e))) :
    (performed step s es).1 = (performed step s es').1 ∧
      ∀ i, (performed step s es).2.filter (fun a => decide (i ∈ names a.1)) =
        (performed step s es').2.filter (fun a => decide (i ∈ names a.1)) := by
  induction es generalizing s es' with
  | nil =>
    have hnil : es' = [] := by
      refine List.eq_nil_iff_forall_not_mem.2 (fun e he => ?_)
      have hmem : e ∈ es'.filter (fun e' => decide (owner e ∈ names e')) :=
        List.mem_filter.2 ⟨he, by simpa using h.owner_mem e⟩
      rw [← hview (owner e)] at hmem
      exact absurd hmem List.not_mem_nil
    rw [hnil]
    exact ⟨rfl, fun i => rfl⟩
  | cons e es ih =>
    -- the first event is somewhere in the other order, and nothing before it shares a party with it
    have hmem : e ∈ es' := by
      have howner : e ∈ (e :: es).filter (fun e' => decide (owner e ∈ names e')) :=
        List.mem_filter.2 ⟨List.mem_cons_self, by simpa using h.owner_mem e⟩
      rw [hview (owner e)] at howner
      exact (List.mem_filter.1 howner).1
    obtain ⟨pre, post, rfl, hpre⟩ := List.eq_append_cons_of_mem hmem
    have hdisjoint : ∀ e' ∈ pre, ∀ i ∈ names e, i ∉ names e' := by
      intro e' he' i hi hi'
      have hfilter := hview i
      rw [List.filter_cons_of_pos (by simpa using hi), List.filter_append] at hfilter
      cases hseen : pre.filter (fun e => decide (i ∈ names e)) with
      | nil =>
        have : e' ∈ pre.filter (fun e => decide (i ∈ names e)) :=
          List.mem_filter.2 ⟨he', by simpa using hi'⟩
        rw [hseen] at this
        exact absurd this List.not_mem_nil
      | cons x xs =>
        rw [hseen, List.cons_append, List.cons.injEq] at hfilter
        have hx : x ∈ pre.filter (fun e => decide (i ∈ names e)) := hseen ▸ List.mem_cons_self
        exact hpre (hfilter.1 ▸ (List.mem_filter.1 hx).1)
    have hview' : ∀ i, es.filter (fun e => decide (i ∈ names e)) =
        (pre ++ post).filter (fun e => decide (i ∈ names e)) := by
      intro i
      have hfilter := hview i
      rw [List.filter_append] at hfilter ⊢
      by_cases hi : i ∈ names e
      · have hnone : pre.filter (fun e => decide (i ∈ names e)) = [] :=
          List.filter_eq_nil_iff.2 (fun e' he' => by simpa using hdisjoint e' he' i hi)
        rw [hnone, List.nil_append] at hfilter ⊢
        rw [List.filter_cons_of_pos (by simpa using hi),
          List.filter_cons_of_pos (by simpa using hi)] at hfilter
        exact (List.cons.inj hfilter).2
      · rw [List.filter_cons_of_neg (by simpa using hi),
          List.filter_cons_of_neg (by simpa using hi)] at hfilter
        exact hfilter
    obtain ⟨hstate, hanswers, hanswer⟩ := h.performed_append_singleton hdisjoint s
    obtain ⟨ihstate, ihanswers⟩ := ih (step s e).1 hview'
    rw [List.append_cons pre e post, performed_append s (pre ++ [e]) post, hstate, hanswer]
    rw [performed_append] at ihstate ihanswers
    rw [hanswers] at ihanswers
    refine ⟨ihstate, ?_⟩
    intro i
    have hi' := ihanswers i
    simp only [performed, List.filter_append, List.append_assoc, List.filter_cons,
      List.filter_nil] at hi' ⊢
    rw [hi']
    by_cases hi : i ∈ names e
    · have hnone : (performed step s pre).2.filter (fun a => decide (i ∈ names a.1)) = [] := by
        refine List.filter_eq_nil_iff.2 (fun a ha => ?_)
        have hmem : a.1 ∈ pre := map_fst_performed s pre ▸ List.mem_map_of_mem ha
        simpa using hdisjoint a.1 hmem i hi
      simp [hnone, hi]
    · simp [hi]

end Local

end Locality
