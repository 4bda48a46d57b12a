-- SUMMARY: Items that are collected in two stages before a batch of them is closed.
import Mathlib.Data.List.Basic

/-!
# Batches

Items come in one after the other and are pending first. From there they move together into the
current batch, and the current batch is closed at times. Every item is in one place.
-/

/-- The closed batches, the current one, and the items that are pending. -/
structure Batches (α : Type*) where
  closed : List (List α)
  current : List α
  pending : List α

namespace Batches

variable {α : Type*}

def empty : Batches α := ⟨[], [], []⟩

/-- All items, in the order in which they came. -/
def items (b : Batches α) : List α := b.closed.flatten ++ b.current ++ b.pending

/-- A new item. -/
def push (x : α) (b : Batches α) : Batches α := { b with pending := b.pending ++ [x] }

/-- The pending items move into the current batch. -/
def flush (b : Batches α) : Batches α := { b with current := b.current ++ b.pending, pending := [] }

/-- The current batch is closed. -/
def close (b : Batches α) : Batches α :=
  { b with closed := b.closed ++ [b.current], current := [] }

@[simp] theorem items_push (x : α) (b : Batches α) : (b.push x).items = b.items ++ [x] := by
  simp only [items, push, List.append_assoc]

@[simp] theorem items_flush (b : Batches α) : b.flush.items = b.items := by
  simp only [items, flush, List.append_assoc, List.append_nil]

@[simp] theorem items_close (b : Batches α) : b.close.items = b.items := by
  simp only [items, close, List.flatten_concat, List.append_nil, List.append_assoc]

end Batches
