-- SUMMARY: Walks that are held up by a barrier from below: where such a walk ends.
import Mathlib.Algebra.Order.BigOperators.Group.List
import Mathlib.Algebra.Order.Group.MinMax
import Mathlib.Order.Bounds.Basic
import Mathlib.Tactic

/-!
# Reflected walks

A walk moves by one increment after the other; a move that would end below the barrier ends on
it. Where the walk ends is told by the last time that it was on the barrier.
-/

namespace Reflection

variable {α : Type*} [AddCommGroup α] [LinearOrder α]

/-- One move by `x`, over the barrier `b`. -/
def move (b w x : α) : α := max (w + x) b

/-- The end of the walk from `w`. -/
def walk (b w : α) (xs : List α) : α := xs.foldl (move b) w

/-- The places where the walk would end if it was last held up in front of the moves `post`. -/
def heldUp (b : α) (xs : List α) : Set α := {y | ∃ post, post <:+ xs ∧ y = b + post.sum}

@[simp] theorem walk_nil (b w : α) : walk b w [] = w := rfl

@[simp] theorem walk_cons (b w x : α) (xs : List α) :
    walk b w (x :: xs) = walk b (move b w x) xs := rfl

theorem walk_append (b w : α) (xs ys : List α) :
    walk b w (xs ++ ys) = walk b (walk b w xs) ys := List.foldl_append

theorem walk_concat (b w x : α) (xs : List α) :
    walk b w (xs ++ [x]) = move b (walk b w xs) x := walk_append b w xs [x]

theorem le_move (b w x : α) : b ≤ move b w x := le_max_right _ _

variable [IsOrderedAddMonoid α]

/-- The walk ends at the greatest of the free walk and the places it may have been lifted to. -/
theorem isGreatest_walk {b w : α} (h : b ≤ w) (xs : List α) :
    IsGreatest (insert (w + xs.sum) (heldUp b xs)) (walk b w xs) := by
  induction xs using List.reverseRecOn with
  | nil =>
      refine ⟨by simp, ?_⟩
      rintro y (rfl | ⟨post, hpost, rfl⟩)
      · simp
      · rw [List.suffix_nil.mp hpost]
        simpa using h
  | append_singleton xs x ih =>
      obtain ⟨hmem, hupper⟩ := ih
      rw [walk_concat, move]
      constructor
      · rcases max_choice (walk b w xs + x) b with hmax | hmax <;> rw [hmax]
        · rcases hmem with hfree | ⟨post, hpost, hheld⟩
          · exact .inl (by rw [hfree, List.sum_append, List.sum_singleton, add_assoc])
          · obtain ⟨before, rfl⟩ := hpost
            refine .inr ⟨post ++ [x], ⟨before, (List.append_assoc ..).symm⟩, ?_⟩
            rw [hheld, List.sum_append, List.sum_singleton, add_assoc]
        · exact .inr ⟨[], List.nil_suffix, by simp⟩
      · rintro y (rfl | ⟨post, hpost, rfl⟩)
        · rw [List.sum_append, List.sum_singleton, ← add_assoc]
          exact le_max_of_le_left (add_le_add_left (hupper (.inl rfl)) x)
        · rcases List.suffix_concat_iff.mp hpost with rfl | ⟨before, rfl, hbefore⟩
          · simp
          · rw [List.sum_append, List.sum_singleton, ← add_assoc]
            exact le_max_of_le_left (add_le_add_left (hupper (.inr ⟨before, hbefore, rfl⟩)) x)

/-- A walk of moves that do not go up ends where the free walk ends, or on the barrier. -/
theorem walk_of_nonpos {b w : α} (h : b ≤ w) {xs : List α} (hxs : ∀ x ∈ xs, x ≤ 0) :
    walk b w xs = max (w + xs.sum) b := by
  induction xs generalizing w with
  | nil => simp [h]
  | cons x xs ih =>
      have hrest : xs.sum ≤ 0 := by
        simpa using List.sum_le_card_nsmul xs 0 fun y hy => hxs y (List.mem_cons_of_mem x hy)
      rw [walk_cons, ih (le_move b w x) fun y hy => hxs y (List.mem_cons_of_mem x hy), move,
        List.sum_cons, max_add, ← add_assoc, max_assoc]
      congr 1
      exact max_eq_right (add_le_of_nonpos_right hrest)

end Reflection
