-- SUMMARY: Runs of a partial step function over a list of events, and the rules that carry invariants along them.
import Mathlib.Data.List.Basic
import Mathlib.Data.List.Infix

/-!
# Runs

A machine is a partial step function `step : σ → ε → Option σ`; `none` says that
the program does not return from the step. `exec` runs a list of events, and
the rules below lift what one step preserves to what a run preserves.
-/

namespace Run

variable {σ ε : Type*} (step : σ → ε → Option σ)

/-- Run `step` over the events in order. -/
def exec (s : σ) : List ε → Option σ
  | [] => some s
  | e :: es => (step s e).bind fun s' => exec s' es

/-- Every step of the run meets the condition `C` on the state before it. -/
def Each (C : σ → ε → Prop) (s : σ) : List ε → Prop
  | [] => True
  | e :: es => C s e ∧ ∀ s', step s e = some s' → Each C s' es

/-- `P` holds in every state of the run, the first and the last included. -/
def Always (P : σ → Prop) (s : σ) : List ε → Prop
  | [] => P s
  | e :: es => P s ∧ ∀ s', step s e = some s' → Always P s' es

instance decidableEach {C : σ → ε → Prop} [∀ s e, Decidable (C s e)] :
    (s : σ) → (es : List ε) → Decidable (Each step C s es)
  | _, [] => .isTrue trivial
  | s, e :: es =>
    have : DecidablePred fun s' => Each step C s' es := fun s' => decidableEach s' es
    inferInstanceAs (Decidable (C s e ∧ ∀ s' ∈ step s e, Each step C s' es))

variable {step}

@[simp] theorem exec_nil (s : σ) : exec step s [] = some s := rfl

theorem exec_cons_eq_some {s s' : σ} {e : ε} {es : List ε} :
    exec step s (e :: es) = some s' ↔ ∃ t, step s e = some t ∧ exec step t es = some s' := by
  simp [exec, Option.bind_eq_some_iff]

theorem exec_append {s : σ} {es fs : List ε} :
    exec step s (es ++ fs) = (exec step s es).bind fun t => exec step t fs := by
  induction es generalizing s with
  | nil => rfl
  | cons e es ih =>
      simp only [List.cons_append, exec]
      cases step s e with
      | none => rfl
      | some t => exact ih

theorem exec_append_eq_some {s u : σ} {es fs : List ε} :
    exec step s (es ++ fs) = some u ↔
      ∃ t, exec step s es = some t ∧ exec step t fs = some u := by
  rw [exec_append, Option.bind_eq_some_iff]

/-- What every step preserves, every run preserves. -/
theorem exec_invariant {P : σ → Prop} (hstep : ∀ s e s', P s → step s e = some s' → P s')
    {s s' : σ} {es : List ε} (hs : P s) (h : exec step s es = some s') : P s' := by
  induction es generalizing s with
  | nil => cases h; exact hs
  | cons e es ih =>
      obtain ⟨t, ht, hrest⟩ := exec_cons_eq_some.mp h
      exact ih (hstep s e t hs ht) hrest

/-- An invariant that only some events are known to preserve, carried along a run
of such events. -/
theorem exec_invariant_mem {P : σ → Prop} {es : List ε}
    (hstep : ∀ s s', ∀ e ∈ es, P s → step s e = some s' → P s')
    {s s' : σ} (hs : P s) (h : exec step s es = some s') : P s' := by
  induction es generalizing s with
  | nil => cases h; exact hs
  | cons e es ih =>
      obtain ⟨t, ht, hrest⟩ := exec_cons_eq_some.mp h
      exact ih (fun u u' f hf => hstep u u' f (List.mem_cons_of_mem _ hf))
        (hstep s t e List.mem_cons_self hs ht) hrest

theorem Always.head {P : σ → Prop} {s : σ} {es : List ε} (h : Always step P s es) : P s := by
  cases es with
  | nil => exact h
  | cons e es => exact h.1

theorem Always.exec {P : σ → Prop} {s s' : σ} {es : List ε} (h : Always step P s es)
    (hrun : Run.exec step s es = some s') : P s' := by
  induction es generalizing s with
  | nil => cases hrun; exact h
  | cons e es ih =>
      obtain ⟨t, ht, hrest⟩ := exec_cons_eq_some.mp hrun
      exact ih (h.2 t ht) hrest

/-- What every step preserves holds all along every run. -/
theorem always_of_invariant {P : σ → Prop} (hstep : ∀ s e s', P s → step s e = some s' → P s')
    {s : σ} (hs : P s) (es : List ε) : Always step P s es := by
  induction es generalizing s with
  | nil => exact hs
  | cons e es ih => exact ⟨hs, fun t ht => ih (hstep s e t hs ht)⟩

/-- If the steps that meet `C` preserve `P`, then `P` holds all along a run whose
steps all meet `C`. -/
theorem Each.always {C : σ → ε → Prop} {P : σ → Prop}
    (hstep : ∀ s e s', P s → C s e → step s e = some s' → P s')
    {s : σ} {es : List ε} (hs : P s) (h : Each step C s es) : Always step P s es := by
  induction es generalizing s with
  | nil => exact hs
  | cons e es ih => exact ⟨hs, fun t ht => ih (hstep s e t hs h.1 ht) (h.2 t ht)⟩

/-- If the steps that lead out of `P` are those that break `C`, under an invariant that the others
keep, then a run stays in `P` if and only if all its steps meet `C`. -/
theorem always_iff_each_of_kept {I P : σ → Prop} {C : σ → ε → Prop}
    (hkept : ∀ s e s', I s → P s → C s e → step s e = some s' → I s')
    (hstep : ∀ s e s', I s → P s → step s e = some s' → (P s' ↔ C s e))
    (hreturns : ∀ s e, I s → P s → ¬ C s e → ∃ s', step s e = some s')
    {s : σ} (hI : I s) (hP : P s) (es : List ε) : Always step P s es ↔ Each step C s es := by
  induction es generalizing s with
  | nil => exact ⟨fun _ => trivial, fun _ => hP⟩
  | cons e es ih =>
      constructor
      · intro h
        have hC : C s e := by
          by_contra hC
          obtain ⟨t, ht⟩ := hreturns s e hI hP hC
          exact hC ((hstep s e t hI hP ht).mp (h.2 t ht).head)
        exact ⟨hC, fun t ht => (ih (hkept s e t hI hP hC ht) (h.2 t ht).head).mp (h.2 t ht)⟩
      · intro h
        exact ⟨hP, fun t ht =>
          (ih (hkept s e t hI hP h.1 ht) ((hstep s e t hI hP ht).mpr h.1)).mpr (h.2 t ht)⟩

/-- The same under an invariant that every step keeps. -/
theorem always_iff_each {I P : σ → Prop} {C : σ → ε → Prop}
    (hinv : ∀ s e s', I s → step s e = some s' → I s')
    (hstep : ∀ s e s', I s → P s → step s e = some s' → (P s' ↔ C s e))
    (hreturns : ∀ s e, I s → ¬ C s e → ∃ s', step s e = some s')
    {s : σ} (hI : I s) (hP : P s) (es : List ε) : Always step P s es ↔ Each step C s es :=
  always_iff_each_of_kept (fun s e s' hs _ _ h => hinv s e s' hs h) hstep
    (fun s e hs _ hout => hreturns s e hs hout) hI hP es

/-- The same for a run that returns, whatever the steps that break `C` do. -/
theorem always_iff_each_of_exec {I P : σ → Prop} {C : σ → ε → Prop}
    (hinv : ∀ s e s', I s → step s e = some s' → I s')
    (hstep : ∀ s e s', I s → P s → step s e = some s' → (P s' ↔ C s e))
    {s u : σ} (hI : I s) (hP : P s) {es : List ε} (hrun : exec step s es = some u) :
    Always step P s es ↔ Each step C s es := by
  induction es generalizing s with
  | nil => exact ⟨fun _ => trivial, fun _ => hP⟩
  | cons e es ih =>
      obtain ⟨t, ht, hrest⟩ := exec_cons_eq_some.mp hrun
      have hiff := hstep s e t hI hP ht
      have hnext := fun hPt => ih (hinv s e t hI ht) hPt hrest
      constructor
      · intro h
        refine ⟨hiff.mp (h.2 t ht).head, fun t' ht' => ?_⟩
        cases ht.symm.trans ht'
        exact (hnext (h.2 t ht).head).mp (h.2 t ht)
      · intro h
        refine ⟨hP, fun t' ht' => ?_⟩
        cases ht.symm.trans ht'
        exact (hnext (hiff.mpr h.1)).mpr (h.2 t ht)

/-- Conditions that agree under an invariant hold along the same runs. -/
theorem each_iff {I : σ → Prop} {C D : σ → ε → Prop}
    (hinv : ∀ s e s', I s → step s e = some s' → I s') (hCD : ∀ s e, I s → (C s e ↔ D s e))
    {s : σ} (hI : I s) (es : List ε) : Each step C s es ↔ Each step D s es := by
  induction es generalizing s with
  | nil => exact Iff.rfl
  | cons e es ih =>
      exact and_congr (hCD s e hI)
        (forall₂_congr fun t ht => ih (hinv s e t hI ht))

/-- The same along a run whose steps all meet `A`, under what such steps preserve. -/
theorem Each.iff_of_each {I : σ → Prop} {A C D : σ → ε → Prop}
    (hinv : ∀ s e s', I s → A s e → step s e = some s' → I s')
    (hCD : ∀ s e, I s → A s e → (C s e ↔ D s e)) {s : σ} {es : List ε} (hI : I s)
    (hA : Each step A s es) : Each step C s es ↔ Each step D s es := by
  induction es generalizing s with
  | nil => exact Iff.rfl
  | cons e es ih =>
      exact and_congr (hCD s e hI hA.1)
        (forall₂_congr fun t ht => ih (hinv s e t hI hA.1 ht) (hA.2 t ht))

/-- A condition `D` that is `C` under an invariant that the steps meeting `C` keep: a run has
both the invariant and `D` if and only if all its steps meet `C`. -/
theorem each_and_always_iff {I : σ → Prop} {C D : σ → ε → Prop}
    (hkept : ∀ s e s', I s → C s e → step s e = some s' → I s')
    (hDC : ∀ s e, I s → (D s e ↔ C s e)) {s : σ} (hI : I s) (es : List ε) :
    Each step D s es ∧ Always step I s es ↔ Each step C s es := by
  induction es generalizing s with
  | nil => exact ⟨fun _ => trivial, fun _ => ⟨trivial, hI⟩⟩
  | cons e es ih =>
      constructor
      · rintro ⟨hD, hinv⟩
        exact ⟨(hDC s e hI).mp hD.1, fun t ht =>
          (ih (hinv.2 t ht).head).mp ⟨hD.2 t ht, hinv.2 t ht⟩⟩
      · intro hC
        have hrest := fun t ht => (ih (hkept s e t hI hC.1 ht)).mpr (hC.2 t ht)
        exact ⟨⟨(hDC s e hI).mpr hC.1, fun t ht => (hrest t ht).1⟩, hI,
          fun t ht => (hrest t ht).2⟩

theorem Each.of_append {C : σ → ε → Prop} {s : σ} {es fs : List ε}
    (h : Each step C s (es ++ fs)) : Each step C s es := by
  induction es generalizing s with
  | nil => trivial
  | cons e es ih => exact ⟨h.1, fun t ht => ih (h.2 t ht)⟩

theorem Each.of_append_right {C : σ → ε → Prop} {s t : σ} {es fs : List ε}
    (h : Each step C s (es ++ fs)) (hrun : exec step s es = some t) : Each step C t fs := by
  induction es generalizing s with
  | nil => cases hrun; exact h
  | cons e es ih =>
      obtain ⟨u, hu, hrest⟩ := exec_cons_eq_some.mp hrun
      exact ih (h.2 u hu) hrest

theorem Each.append {C : σ → ε → Prop} {s t : σ} {es fs : List ε} (hrun : exec step s es = some t)
    (hes : Each step C s es) (hfs : Each step C t fs) : Each step C s (es ++ fs) := by
  induction es generalizing s with
  | nil => cases hrun; exact hfs
  | cons e es ih =>
      obtain ⟨u, hu, hrest⟩ := exec_cons_eq_some.mp hrun
      refine ⟨hes.1, fun u' hu' => ?_⟩
      cases hu.symm.trans hu'
      exact ih hrest (hes.2 u hu)

theorem Each.mono {C D : σ → ε → Prop} (hCD : ∀ s e, C s e → D s e) {s : σ} {es : List ε}
    (h : Each step C s es) : Each step D s es := by
  induction es generalizing s with
  | nil => trivial
  | cons e es ih => exact ⟨hCD s e h.1, fun t ht => ih (h.2 t ht)⟩

/-- A run whose steps all meet `C`, where a step out of a good state that meets `C` returns
in a good state, returns and stays good. -/
theorem Each.exec {C : σ → ε → Prop} {P : σ → Prop}
    (hstep : ∀ s e, P s → C s e → ∃ s', step s e = some s' ∧ P s')
    {s : σ} {es : List ε} (hs : P s) (h : Each step C s es) :
    ∃ s', exec step s es = some s' ∧ P s' := by
  induction es generalizing s with
  | nil => exact ⟨s, rfl, hs⟩
  | cons e es ih =>
      obtain ⟨t, ht, hPt⟩ := hstep s e hs h.1
      obtain ⟨s', hs', hP'⟩ := ih hPt (h.2 t ht)
      exact ⟨s', exec_cons_eq_some.mpr ⟨t, ht, hs'⟩, hP'⟩

theorem Each.and {C D : σ → ε → Prop} {s : σ} {es : List ε} (hC : Each step C s es)
    (hD : Each step D s es) : Each step (fun s e => C s e ∧ D s e) s es := by
  induction es generalizing s with
  | nil => trivial
  | cons e es ih => exact ⟨⟨hC.1, hD.1⟩, fun t ht => ih (hC.2 t ht) (hD.2 t ht)⟩

theorem Always.mono {P Q : σ → Prop} (hPQ : ∀ s, P s → Q s) {s : σ} {es : List ε}
    (h : Always step P s es) : Always step Q s es := by
  induction es generalizing s with
  | nil => exact hPQ s h
  | cons e es ih => exact ⟨hPQ s h.1, fun t ht => ih (h.2 t ht)⟩

/-- Two machines over the same events that move together, in states related by `R`, over the
events in `C`, while the first of them stops at any other event: they reach related states
exactly over the lists of events in `C`. -/
theorem exec_lockstep_iff {τ : Type*} {step' : τ → ε → Option τ} {R : σ → τ → Prop}
    {C : ε → Prop}
    (hmove : ∀ s t e, R s t → C e → ∃ s' t', step s e = some s' ∧ step' t e = some t' ∧ R s' t')
    (hstop : ∀ s t e, R s t → ¬ C e → step s e = none)
    {s : σ} {t : τ} (hR : R s t) (es : List ε) {Q : σ → τ → Prop} (hQ : ∀ s t, R s t → Q s t) :
    (∃ s' t', exec step s es = some s' ∧ exec step' t es = some t' ∧ Q s' t') ↔
      ∀ e ∈ es, C e := by
  induction es generalizing s t with
  | nil => exact ⟨fun _ e he => absurd he List.not_mem_nil, fun _ => ⟨s, t, rfl, rfl, hQ s t hR⟩⟩
  | cons e es ih =>
      rw [List.forall_mem_cons]
      by_cases hC : C e
      · obtain ⟨s₁, t₁, hs₁, ht₁, hR₁⟩ := hmove s t e hR hC
        simp only [exec, hs₁, ht₁, Option.bind_some, ih hR₁, hC, true_and]
      · simp [exec, hstop s t e hR hC, hC]

end Run
