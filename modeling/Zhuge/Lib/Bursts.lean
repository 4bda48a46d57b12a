-- SUMMARY: Cutting a stream into maximal runs of entries near the first one of the run, and integer means.
import Mathlib.Algebra.BigOperators.Group.List.Basic
import Mathlib.Data.List.Chain
import Mathlib.Tactic

/-!
# Bursts

A stream is cut greedily: an entry that is near the first one of the current burst joins it, any
other starts a new burst. The bursts are kept newest first, as they arise.
-/

/-- A run of entries, of which there is at least one. -/
structure Burst (α : Type*) where
  first : α
  more : List α
deriving DecidableEq

namespace Burst

variable {α : Type*} (near : α → α → Bool)

def items (b : Burst α) : List α := b.first :: b.more

/-- The next entry of the stream. -/
def join : List (Burst α) → α → List (Burst α)
  | [], x => [⟨x, []⟩]
  | b :: older, x =>
    if near b.first x then { b with more := b.more ++ [x] } :: older else ⟨x, []⟩ :: b :: older

/-- The bursts of a stream. -/
def cut (stream : List α) : List (Burst α) := stream.foldl (join near) []

@[simp] theorem cut_nil : cut near [] = [] := rfl

theorem cut_concat (stream : List α) (x : α) :
    cut near (stream ++ [x]) = join near (cut near stream) x := by
  rw [cut, List.foldl_append]
  rfl

variable {near}

theorem flatMap_join (bursts : List (Burst α)) (x : α) :
    (join near bursts x).reverse.flatMap items = bursts.reverse.flatMap items ++ [x] := by
  cases bursts with
  | nil => rfl
  | cons b older =>
      rw [join]
      split <;> simp [items]

/-- No entry is lost, repeated or moved. -/
theorem flatMap_cut (stream : List α) : (cut near stream).reverse.flatMap items = stream := by
  induction stream using List.reverseRecOn with
  | nil => rfl
  | append_singleton stream x ih => rw [cut_concat, flatMap_join, ih]

/-- The entries of a burst are near its first one. -/
theorem near_of_mem_cut {stream : List α} {b : Burst α} (hb : b ∈ cut near stream) :
    ∀ x ∈ b.more, near b.first x := by
  induction stream using List.reverseRecOn generalizing b with
  | nil => cases hb
  | append_singleton stream x ih =>
      rw [cut_concat] at hb
      cases hcut : cut near stream with
      | nil =>
          rw [hcut, join, List.mem_singleton] at hb
          rw [hb]
          nofun
      | cons c older =>
          have hold : ∀ b ∈ c :: older, ∀ y ∈ b.more, near b.first y := fun b hb =>
            ih (hcut ▸ hb)
          rw [hcut, join] at hb
          split at hb
          -- `x` joins the burst `c`; only that one changes
          case isTrue hnear =>
            rcases List.mem_cons.mp hb with rfl | hb
            · intro y hy
              rcases List.mem_append.mp hy with hy | hy
              · exact hold c List.mem_cons_self y hy
              · exact List.mem_singleton.mp hy ▸ hnear
            · exact hold b (List.mem_cons_of_mem c hb)
          case isFalse =>
            rcases List.mem_cons.mp hb with rfl | hb
            · nofun
            · exact hold b hb

/-! ## Means -/

/-- The integer mean. -/
def mean (xs : List ℕ) : ℕ := xs.sum / xs.length

theorem le_mean {xs : List ℕ} {a : ℕ} (hne : xs ≠ []) (h : ∀ x ∈ xs, a ≤ x) : a ≤ mean xs := by
  rw [mean, Nat.le_div_iff_mul_le (List.length_pos_iff.mpr hne), Nat.mul_comm]
  exact List.card_nsmul_le_sum xs a h

theorem mean_le {xs : List ℕ} {a : ℕ} (h : ∀ x ∈ xs, x ≤ a) : mean xs ≤ a := by
  apply Nat.div_le_of_le_mul
  exact List.sum_le_card_nsmul xs a h

end Burst
