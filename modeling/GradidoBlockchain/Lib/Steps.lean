import Mathlib.Data.List.Induction
import Mathlib.Data.List.Infix
import Mathlib.Data.List.Range
import Mathlib.Logic.Function.Basic

/-!
# Runs of a step function

The steps of a system of several parties are numbered by events: an event says
whose step is next, and `step s e` is the state after it, or nothing when that
party cannot move.  A run is a list of events that are all enabled, so a
statement about every run is a statement about every interleaving.

* `Throughout P`: the property holds in every state of a run;
* `Meets G`: every step of a run is taken in a state that allows it;
* `throughout_iff_meets`: a property that holds first, is kept by the steps
  that are allowed and broken by those that are not;
* `held`: what the parties hold together, when each holds a list.
-/

namespace Steps

variable {σ ε : Type} {step : σ → ε → Option σ}

/-- The state after a list of events, when all of them are enabled. -/
def run (step : σ → ε → Option σ) : σ → List ε → Option σ
  | s, [] => some s
  | s, e :: es => (step s e).bind (fun t => run step t es)

@[simp] theorem run_nil (s : σ) : run step s [] = some s := rfl

theorem run_cons_eq_some {s u : σ} {e : ε} {es : List ε} :
    run step s (e :: es) = some u ↔ ∃ t, step s e = some t ∧ run step t es = some u :=
  Option.bind_eq_some_iff

theorem run_append_eq_some {s u : σ} {es es' : List ε} :
    run step s (es ++ es') = some u ↔ ∃ t, run step s es = some t ∧ run step t es' = some u := by
  induction es generalizing s with
  | nil => simp
  | cons e es ih =>
    rw [List.cons_append, run_cons_eq_some]
    constructor
    · rintro ⟨t, ht, hrun⟩
      obtain ⟨t', ht', hrun'⟩ := ih.1 hrun
      exact ⟨t', run_cons_eq_some.2 ⟨t, ht, ht'⟩, hrun'⟩
    · rintro ⟨t', ht', hrun'⟩
      obtain ⟨t, ht, hrun⟩ := run_cons_eq_some.1 ht'
      exact ⟨t, ht, ih.2 ⟨t', hrun, hrun'⟩⟩

theorem run_concat_eq_some {s u : σ} {es : List ε} {e : ε} :
    run step s (es ++ [e]) = some u ↔ ∃ t, run step s es = some t ∧ step t e = some u := by
  rw [run_append_eq_some]
  simp [run_cons_eq_some]

/-- **Invariants.**  What holds first and is kept by every step holds after every run. -/
theorem invariant {I : σ → Prop} (hstep : ∀ t e u, I t → step t e = some u → I u) {s u : σ}
    (hs : I s) {es : List ε} (hrun : run step s es = some u) : I u := by
  induction es generalizing s with
  | nil =>
    obtain rfl := Option.some.inj hrun
    exact hs
  | cons e es ih =>
    obtain ⟨t, ht, hrun⟩ := run_cons_eq_some.1 hrun
    exact ih (hstep s e t hs ht) hrun

/-- **Simulation.**  When every step of a system is a step of another one or changes nothing there,
every run is a run there. -/
theorem run_of_simulates {τ δ : Type} {step' : τ → δ → Option τ} {view : σ → τ} {I : σ → Prop}
    (hstep : ∀ t e u, I t → step t e = some u → I u)
    (hview : ∀ t e u, I t → step t e = some u →
      view u = view t ∨ ∃ e', step' (view t) e' = some (view u)) {s u : σ} (hs : I s)
    {es : List ε} (hrun : run step s es = some u) :
    ∃ es', run step' (view s) es' = some (view u) := by
  induction es generalizing s with
  | nil =>
    obtain rfl := Option.some.inj hrun
    exact ⟨[], rfl⟩
  | cons e es ih =>
    obtain ⟨t, ht, hrun⟩ := run_cons_eq_some.1 hrun
    obtain ⟨es', hes'⟩ := ih (hstep s e t hs ht) hrun
    rcases hview s e t hs ht with hsame | ⟨e', he'⟩
    · exact ⟨es', hsame ▸ hes'⟩
    · exact ⟨e' :: es', run_cons_eq_some.2 ⟨_, he', hes'⟩⟩

/-- **Finite runs.**  A measure that every step lowers bounds the length of every run, when the
events that may raise it, by less than `c` each, are counted apart. -/
theorem length_add_le {m : σ → ℕ} {raises : ε → Bool} {c : ℕ} {I : σ → Prop}
    (hstep : ∀ t e u, I t → step t e = some u → I u)
    (hmeasure : ∀ t e u, I t → step t e = some u →
      m u + 1 ≤ m t + if raises e = true then c else 0) {s u : σ} (hs : I s)
    {es : List ε} (hrun : run step s es = some u) :
    es.length + m u ≤ m s + c * es.countP raises := by
  induction es generalizing s with
  | nil =>
    obtain rfl := Option.some.inj hrun
    simp
  | cons e es ih =>
    obtain ⟨t, ht, hrun⟩ := run_cons_eq_some.1 hrun
    have hlater := ih (hstep s e t hs ht) hrun
    have hfirst := hmeasure s e t hs ht
    rw [List.length_cons, List.countP_cons, Nat.mul_add]
    split_ifs at hfirst ⊢ <;> omega

/-- **Steps without effect.**  A fold over steps that stay done returns the state it started with
exactly when each of them was done before. -/
theorem foldl_eq_self_iff {f : σ → ε → σ} {P : σ → ε → Prop} (hself : ∀ s e, P s e → f s e = s)
    (hdone : ∀ s e, P (f s e) e) (hkeep : ∀ s e e', P s e' → P (f s e) e') (s : σ)
    (es : List ε) : es.foldl f s = s ↔ ∀ e ∈ es, P s e := by
  have hkeeps : ∀ (es : List ε) (s : σ) (e : ε), P s e → P (es.foldl f s) e := by
    intro es
    induction es with
    | nil => exact fun s e h => h
    | cons e' es ih => exact fun s e h => ih _ e (hkeep s e' e h)
  constructor
  · intro hfold e he
    obtain ⟨pre, post, rfl⟩ := List.append_of_mem he
    rw [← hfold, List.foldl_append, List.foldl_cons]
    exact hkeeps post _ e (hdone _ e)
  · intro hall
    induction es with
    | nil => rfl
    | cons e es ih =>
      rw [List.foldl_cons, hself s e (hall e List.mem_cons_self)]
      exact ih (fun e' he' => hall e' (List.mem_cons_of_mem _ he'))

/-- A property of every state of a run. -/
def Throughout (step : σ → ε → Option σ) (P : σ → Prop) (s : σ) (es : List ε) : Prop :=
  ∀ pre, pre <+: es → ∀ t, run step s pre = some t → P t

/-- Every step of a run is taken in a state that allows it. -/
def Meets (step : σ → ε → Option σ) (G : σ → ε → Prop) (s : σ) (es : List ε) : Prop :=
  ∀ pre e, pre ++ [e] <+: es → ∀ t, run step s pre = some t → G t e

theorem meets_nil {G : σ → ε → Prop} {s : σ} : Meets step G s [] := by
  intro pre e hpre
  exact absurd (List.prefix_nil.1 hpre)
    (List.append_ne_nil_of_right_ne_nil _ (List.cons_ne_nil _ _))

/-- Along a run, one step after the other. -/
theorem meets_cons {G : σ → ε → Prop} {s t : σ} {e : ε} {es : List ε} (hG : G s e)
    (hstep : step s e = some t) (hmeets : Meets step G t es) : Meets step G s (e :: es) := by
  intro pre e' hpre u hu
  cases pre with
  | nil =>
    obtain rfl : e' = e := (List.cons_prefix_cons.1 hpre).1
    obtain rfl := Option.some.inj hu
    exact hG
  | cons e'' pre =>
    obtain ⟨rfl, hpre'⟩ := List.cons_prefix_cons.1 hpre
    rw [run_cons_eq_some, hstep] at hu
    obtain ⟨t', ht', hu⟩ := hu
    obtain rfl := Option.some.inj ht'
    exact hmeets pre e' hpre' u hu

theorem Throughout.of_meets {I P : σ → Prop} {G : σ → ε → Prop}
    (hinv : ∀ t e u, I t → step t e = some u → I u)
    (hkeep : ∀ t e u, I t → P t → G t e → step t e = some u → P u) {s : σ} (hI : I s) (hP : P s)
    {es : List ε} (hmeets : Meets step G s es) : Throughout step P s es := by
  intro pre hpre t ht
  induction pre using List.reverseRecOn generalizing t with
  | nil =>
    obtain rfl := Option.some.inj ht
    exact hP
  | append_singleton pre e ih =>
    obtain ⟨t', ht', hstep⟩ := run_concat_eq_some.1 ht
    have hPt := ih ((List.prefix_append pre [e]).trans hpre) t' ht'
    exact hkeep t' e t (invariant hinv hI ht') hPt (hmeets pre e hpre t' ht') hstep

/-- **The exact condition** for a property to hold throughout a run. -/
theorem throughout_iff_meets {I P : σ → Prop} {G : σ → ε → Prop}
    (hinv : ∀ t e u, I t → step t e = some u → I u)
    (hkeep : ∀ t e u, I t → P t → G t e → step t e = some u → P u)
    (hbreak : ∀ t e u, I t → P t → ¬ G t e → step t e = some u → ¬ P u) {s u : σ} (hI : I s)
    (hP : P s) {es : List ε} (hrun : run step s es = some u) :
    Throughout step P s es ↔ Meets step G s es := by
  refine ⟨fun hthroughout pre e hpre t ht => ?_, Throughout.of_meets hinv hkeep hI hP⟩
  by_contra hnot
  -- the step is taken, since the whole run is one
  obtain ⟨post, rfl⟩ := hpre
  obtain ⟨t', ht', -⟩ := run_append_eq_some.1 hrun
  obtain ⟨t'', ht'', hstep⟩ := run_concat_eq_some.1 ht'
  obtain rfl : t = t'' := Option.some.inj (ht.symm.trans ht'')
  have hpre : pre <+: pre ++ [e] ++ post :=
    (List.prefix_append pre [e]).trans (List.prefix_append _ post)
  exact hbreak t e t' (invariant hinv hI ht) (hthroughout pre hpre t ht) hnot hstep
    (hthroughout (pre ++ [e]) (List.prefix_append _ post) t' ht')

/-! ### What the parties hold -/

section Held

variable {α : Type} {n : ℕ} {hold : ℕ → List α}

/-- What the first `n` parties hold together. -/
def held (n : ℕ) (hold : ℕ → List α) : List α := (List.range n).flatMap hold

theorem held_eq_nil (h : ∀ w, w < n → hold w = []) : held n hold = [] :=
  List.flatMap_eq_nil_iff.2 (fun w hw => h w (List.mem_range.1 hw))

/-- When one party changes what it holds, the others keep theirs. -/
theorem held_update {w : ℕ} (hw : w < n) (l : List α) :
    ∃ others, (held n hold).Perm (hold w ++ others) ∧
      (held n (Function.update hold w l)).Perm (l ++ others) := by
  have hperm : (List.range n).Perm (w :: (List.range n).erase w) :=
    List.perm_cons_erase (List.mem_range.2 hw)
  have hothers : ((List.range n).erase w).flatMap (Function.update hold w l) =
      ((List.range n).erase w).flatMap hold := by
    refine List.flatMap_congr (fun v hv => ?_)
    have hne : v ≠ w := ((List.nodup_range.mem_erase_iff).1 hv).1
    rw [Function.update_of_ne hne]
  refine ⟨((List.range n).erase w).flatMap hold, hperm.flatMap_right hold, ?_⟩
  have hupdated := hperm.flatMap_right (Function.update hold w l)
  rwa [List.flatMap_cons, Function.update_self, hothers] at hupdated

end Held

end Steps
