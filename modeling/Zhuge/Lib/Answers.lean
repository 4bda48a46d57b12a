-- SUMMARY: What a machine answers to a list of calls, and the states it cannot tell apart.
import Mathlib.Tactic

/-!
# Answers

A machine `step : σ → ε → Option (α × σ)` answers each call or fails, and nothing is
answered after a failure. Two states with the same answers to every list of calls cannot
be told apart from outside.
-/

namespace Answers

variable {σ ε α : Type*}

/-- The answers to the calls in order, up to and including the first failure. -/
def answers (step : σ → ε → Option (α × σ)) (s : σ) : List ε → List (Option α)
  | [] => []
  | e :: es =>
    match step s e with
    | none => [none]
    | some (a, s') => some a :: answers step s' es

/-- The states cannot be told apart by any list of calls. -/
def Same (step : σ → ε → Option (α × σ)) (s t : σ) : Prop :=
  ∀ es, answers step s es = answers step t es

variable {step : σ → ε → Option (α × σ)}

/-- A view of the state that determines every answer, and the view after it: states with the
same view cannot be told apart. -/
theorem same_of_view {β : Type*} {view : σ → β}
    (hview : ∀ s t e, view s = view t →
      (step s e).map (Prod.map id view) = (step t e).map (Prod.map id view))
    {s t : σ} (h : view s = view t) : Same step s t := by
  intro es
  induction es generalizing s t with
  | nil => rfl
  | cons e es ih =>
      have hstep := hview s t e h
      simp only [answers]
      cases hs : step s e with
      | none =>
          rw [hs, Option.map_none, eq_comm, Option.map_eq_none_iff] at hstep
          rw [hstep]
      | some p =>
          rw [hs, Option.map_some, eq_comm, Option.map_eq_some_iff] at hstep
          obtain ⟨q, hq, heq⟩ := hstep
          obtain ⟨hanswer, hrest⟩ := Prod.mk.injEq .. ▸ heq
          rw [hq]
          exact congrArg₂ List.cons (congrArg some hanswer.symm) (ih hrest.symm)

/-- One call with different answers tells the states apart. -/
theorem Same.step_eq {s t : σ} (h : Same step s t) (e : ε) :
    (step s e).map Prod.fst = (step t e).map Prod.fst := by
  have hone := h [e]
  simp only [answers] at hone
  cases hs : step s e <;> cases ht : step t e <;> simp_all

end Answers
