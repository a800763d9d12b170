import Mathlib.Data.List.Basic

/-!
# Machines that answer

A machine takes calls and answers each of them.  When a relation between the
states of two machines is kept by every call, and related states answer alike,
the machines give the same answers to every list of calls.
-/

namespace Answers

variable {σ τ ε ρ : Type}

/-- The state after a list of calls, with the answer to each of them. -/
def run (step : σ → ε → σ × ρ) : σ → List ε → σ × List ρ
  | s, [] => (s, [])
  | s, e :: es => ((run step (step s e).1 es).1, (step s e).2 :: (run step (step s e).1 es).2)

section Run

variable {step : σ → ε → σ × ρ} {step' : τ → ε → τ × ρ} {R : ℕ → σ → τ → Prop} {P : ε → Prop}

@[simp] theorem run_nil (s : σ) : run step s [] = (s, []) := rfl

theorem run_cons (s : σ) (e : ε) (es : List ε) : run step s (e :: es) =
    ((run step (step s e).1 es).1, (step s e).2 :: (run step (step s e).1 es).2) := rfl

/-- States that are related for some more calls answer the next one alike, and stay related for the
others. -/
structure Simulates (step : σ → ε → σ × ρ) (step' : τ → ε → τ × ρ) (R : ℕ → σ → τ → Prop)
    (P : ε → Prop) : Prop where
  answer : ∀ n s t e, P e → R (n + 1) s t → (step s e).2 = (step' t e).2
  next : ∀ n s t e, P e → R (n + 1) s t → R n (step s e).1 (step' t e).1

/-- **The same answers** to every list of calls. -/
theorem Simulates.run_eq (h : Simulates step step' R P) {s : σ} {t : τ} {es : List ε}
    (hst : R es.length s t) (hes : ∀ e ∈ es, P e) :
    (run step s es).2 = (run step' t es).2 ∧ R 0 (run step s es).1 (run step' t es).1 := by
  induction es generalizing s t with
  | nil => exact ⟨rfl, hst⟩
  | cons e es ih =>
    have he := hes e (List.mem_cons_self ..)
    obtain ⟨hanswers, hrel⟩ := ih (h.next es.length s t e he hst)
      (fun e' he' => hes e' (List.mem_cons_of_mem _ he'))
    rw [run_cons, run_cons, h.answer es.length s t e he hst, hanswers]
    exact ⟨rfl, hrel⟩

end Run

end Answers
