-- SUMMARY: Sweeping a queue from its front: when that removes exactly the entries it is meant to.
import Mathlib.Data.List.Basic
import Mathlib.Data.List.Perm.Subperm
import Mathlib.Order.Basic

/-!
# Sweeps from the front

A queue is swept by removing entries from its front while they are expired. The sweep finds
all expired entries if they stand before the others. In a queue whose entries are ordered
they do.
-/

namespace Sweep

open List

variable {α β : Type*} {p : α → Bool}

/-- The entries that meet `p` stand before the others. -/
def ExpiredFirst (p : α → Bool) (q : List α) : Prop := q.Pairwise fun a b => p b → p a

instance (p : α → Bool) (q : List α) : Decidable (ExpiredFirst p q) :=
  inferInstanceAs (Decidable (q.Pairwise fun a b => p b → p a))

theorem dropWhile_eq_filter_of_expiredFirst {q : List α} (h : ExpiredFirst p q) :
    q.dropWhile p = q.filter fun a => ¬ p a := by
  induction q with
  | nil => rfl
  | cons a q ih =>
      obtain ⟨hfirst, hrest⟩ := pairwise_cons.mp h
      by_cases ha : p a
      · simp [ha, ih hrest]
      · have hkeep : ∀ b ∈ q, ¬ p b := fun b hb hpb => ha (hfirst b hb hpb)
        simpa [ha] using (filter_eq_self.mpr (by simpa using hkeep)).symm

theorem takeWhile_eq_filter_of_expiredFirst {q : List α} (h : ExpiredFirst p q) :
    q.takeWhile p = q.filter p := by
  induction q with
  | nil => rfl
  | cons a q ih =>
      obtain ⟨hfirst, hrest⟩ := pairwise_cons.mp h
      by_cases ha : p a
      · simp [ha, ih hrest]
      · have hkeep : ∀ b ∈ q, ¬ p b := fun b hb hpb => ha (hfirst b hb hpb)
        simpa [ha] using hkeep

/-- A sweep leaves no expired entry if and only if these stand before the others. -/
theorem forall_mem_dropWhile_iff {q : List α} :
    (∀ a ∈ q.dropWhile p, ¬ p a) ↔ ExpiredFirst p q := by
  refine ⟨fun h => ?_, fun h a ha => ?_⟩
  · induction q with
    | nil => exact .nil
    | cons a q ih =>
        by_cases ha : p a
        · rw [dropWhile_cons_of_pos ha] at h
          exact pairwise_cons.mpr ⟨fun _ _ _ => ha, ih h⟩
        · rw [dropWhile_cons_of_neg ha] at h
          have hkeep : ∀ b ∈ q, ¬ p b := fun b hb => h b (mem_cons_of_mem a hb)
          exact pairwise_cons.mpr ⟨fun b hb hpb => absurd hpb (hkeep b hb),
            pairwise_of_forall_mem_list fun b _ c hc hpc => absurd hpc (hkeep c hc)⟩
  · rw [dropWhile_eq_filter_of_expiredFirst h] at ha
    simpa using (mem_filter.mp ha).2

/-- Entries in the order of their keys expire in that order. -/
theorem expiredFirst_of_sorted [Preorder β] (key : α → β) {q : List α}
    (hp : ∀ a b, key a ≤ key b → p b → p a) (h : q.Pairwise fun a b => key a ≤ key b) :
    ExpiredFirst p q :=
  h.imp fun hab => hp _ _ hab

/-- A sweep keeps every entry that is not expired. -/
theorem count_dropWhile_of_neg [BEq β] [LawfulBEq β] {key : α → β} {b : β} {q : List α}
    (hb : ∀ a, key a = b → ¬ p a) : ((q.dropWhile p).map key).count b = (q.map key).count b := by
  induction q with
  | nil => rfl
  | cons a q ih =>
      by_cases ha : p a
      · have hne : key a ≠ b := fun heq => hb a heq ha
        rw [dropWhile_cons_of_pos ha, ih, map_cons, count_cons_of_ne hne]
      · rw [dropWhile_cons_of_neg ha]

/-- Counting by key after a filter on the key. -/
theorem count_map_filter [BEq β] [LawfulBEq β] (key : α → β) (r : β → Bool) (b : β) (q : List α) :
    ((q.filter fun a => r (key a)).map key).count b = if r b then (q.map key).count b else 0 := by
  have hcomp : (q.filter fun a => r (key a)).map key = (q.map key).filter r :=
    (filter_map ..).symm
  rw [hcomp]
  split
  case isTrue hb => exact count_filter hb
  case isFalse hb => exact count_eq_zero.mpr fun hmem => hb (mem_filter.mp hmem).2

/-- What a sweep of any kind leaves of a queue without repetition, if it takes nothing from the
end `l₂`, is that end behind what it leaves of the rest. -/
theorem exists_append_of_sublist {k l₁ l₂ : List α} (h : k <+ l₁ ++ l₂)
    (hnodup : (l₁ ++ l₂).Nodup) (hkeep : ∀ a ∈ l₂, a ∈ k) : ∃ k₁, k₁ <+ l₁ ∧ k = k₁ ++ l₂ := by
  obtain ⟨-, hnodup₂, hdisjoint⟩ := nodup_append.mp hnodup
  obtain ⟨k₁, k₂, rfl, hk₁, hk₂⟩ := sublist_append_iff.mp h
  have hsubset : l₂ ⊆ k₂ := by
    intro a ha
    rcases mem_append.mp (hkeep a ha) with hmem | hmem
    · exact absurd rfl (hdisjoint a (hk₁.subset hmem) a ha)
    · exact hmem
  have hlength := (hnodup₂.subperm hsubset).length_le
  exact ⟨k₁, hk₁, by rw [hk₂.eq_of_length_le hlength]⟩

end Sweep
