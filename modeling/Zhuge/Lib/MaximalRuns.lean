-- SUMMARY: The lengths of the maximal runs of a list, as it grows by one entry at its front.
import Mathlib.Data.List.SplitBy
import Mathlib.Tactic

/-!
# Maximal runs

A list falls into maximal runs of entries in which each is related to the next. A new first
entry lengthens the first run, or is a run of its own.
-/

namespace MaximalRuns

variable {α : Type*} (r : α → α → Bool)

/-- The lengths of the runs, the first run first. -/
def lengths (l : List α) : List ℕ := (l.splitBy r).map List.length

@[simp] theorem lengths_singleton (a : α) : lengths r [a] = [1] := rfl

theorem lengths_eq_nil {l : List α} : lengths r l = [] ↔ l = [] := by
  rw [lengths, List.map_eq_nil_iff, List.splitBy_eq_nil]

variable {r} {a b : α}

/-- An entry that is not related to the next one is a run of its own. -/
theorem lengths_cons_of_not (h : r a b = false) (l : List α) :
    lengths r (a :: b :: l) = 1 :: lengths r (b :: l) := by
  have hsplit : ([a] ++ b :: l).splitBy r = [a].splitBy r ++ (b :: l).splitBy r :=
    List.splitBy_append fun x hx y hy => by cases hx; cases hy; exact h
  exact congrArg (List.map List.length) hsplit

/-- An entry that is related to the next one joins its run. -/
theorem lengths_cons_of_rel (h : r a b) (l : List α) :
    ∃ n ns, lengths r (b :: l) = n :: ns ∧ lengths r (a :: b :: l) = (n + 1) :: ns := by
  obtain ⟨run, runs, hruns⟩ :=
    List.exists_cons_of_ne_nil ((List.splitBy_ne_nil (r := r)).mpr (List.cons_ne_nil b l))
  obtain ⟨hflat, hnil, hchains, hbreaks⟩ := List.splitBy_eq_iff.mp hruns
  obtain ⟨first, rest, rfl⟩ :=
    List.exists_cons_of_ne_nil fun hrun => hnil (hrun ▸ List.mem_cons_self)
  have hfirst : first = b := (List.cons.inj hflat).1.symm
  have hsplit : (a :: b :: l).splitBy r = (a :: first :: rest) :: runs := by
    refine List.splitBy_eq_iff.mpr ⟨by rw [hflat]; rfl, ?_, ?_, ?_⟩
    · exact fun hmem => hnil (List.mem_cons_of_mem _ ((List.mem_cons.mp hmem).resolve_left
      (List.cons_ne_nil _ _).symm))
    · intro run hrun
      rcases List.mem_cons.mp hrun with rfl | hrun
      · exact List.isChain_cons_cons.mpr ⟨hfirst ▸ h, hchains _ List.mem_cons_self⟩
      · exact hchains run (List.mem_cons_of_mem _ hrun)
    · -- the first run still ends with the same entry
      rw [List.isChain_cons] at hbreaks ⊢
      refine ⟨fun next hnext => ?_, hbreaks.2⟩
      obtain ⟨hne, hnext', hbreak⟩ := hbreaks.1 next hnext
      exact ⟨List.cons_ne_nil _ _, hnext', by rwa [List.getLast_cons hne]⟩
  refine ⟨_, runs.map List.length, congrArg (List.map List.length) hruns, ?_⟩
  exact congrArg (List.map List.length) hsplit

/-- As long as no run is added, only the first one grows. -/
theorem lengths_append (more : List α) {l : List α} {n : ℕ} {ns : List ℕ}
    (hl : lengths r l = n :: ns) (hsame : (lengths r (more ++ l)).length = (n :: ns).length) :
    ∃ m, lengths r (more ++ l) = m :: ns ∧ n ≤ m := by
  have hgrow : ∃ m ms, lengths r (more ++ l) = m :: ms ∧ ns.length ≤ ms.length ∧
      (ns.length = ms.length → ms = ns ∧ n ≤ m) := by
    clear hsame
    induction more with
    | nil => exact ⟨n, ns, hl, le_rfl, fun _ => ⟨rfl, le_rfl⟩⟩
    | cons x more ih =>
        obtain ⟨m, ms, hm, hle, hms⟩ := ih
        obtain ⟨y, tail, htail⟩ := List.exists_cons_of_ne_nil fun hnil : more ++ l = [] => by
          rw [hnil] at hm
          cases hm
        rw [List.cons_append, htail]
        rw [htail] at hm
        cases hrel : r x y
        case true =>
          obtain ⟨k, ks, hk, hcons⟩ := lengths_cons_of_rel hrel tail
          obtain ⟨rfl, rfl⟩ := List.cons.inj (hk.symm.trans hm)
          exact ⟨_, _, hcons, hle, fun heq => ⟨(hms heq).1, (hms heq).2.trans (Nat.le_succ _)⟩⟩
        case false =>
          refine ⟨1, m :: ms, ?_, hle.trans (Nat.le_succ _), fun heq => ?_⟩
          · rw [lengths_cons_of_not hrel, hm]
          · rw [List.length_cons] at heq
            omega
  obtain ⟨m, ms, hm, -, hms⟩ := hgrow
  rw [hm, List.length_cons, List.length_cons] at hsame
  obtain ⟨rfl, hle⟩ := hms (by omega)
  exact ⟨m, hm, hle⟩

end MaximalRuns
