-- SUMMARY: Finite dictionaries with unique keys: sizes, key sets, and what insertion and erasure do to them.
import Mathlib.Data.List.AList
import Mathlib.Data.Finset.Card
import Mathlib.Data.Finset.Image
import Mathlib.Tactic

/-!
# Dictionaries

A dictionary is an association list with unique keys. The order of its entries is
one order in which an unordered map might be iterated.
-/

/-- A dictionary from `K` to `V`. -/
abbrev Dict (K V : Type*) := AList fun _ : K => V

namespace Dict

variable {K V : Type*}

/-- The number of entries. -/
def size (d : Dict K V) : ℕ := d.keys.length

@[simp] theorem size_empty : size (∅ : Dict K V) = 0 := rfl

theorem length_entries (d : Dict K V) : d.entries.length = size d := by
  simp [size, AList.keys, List.keys]

variable [DecidableEq K]

/-- The keys as a set. -/
def keySet (d : Dict K V) : Finset K := d.keys.toFinset

/-- `m[k] = f(m[k])`, for a key that is present. -/
def modify (k : K) (f : V → V) (d : Dict K V) : Dict K V :=
  match d.lookup k with
  | none => d
  | some v => d.insert k (f v)

@[simp] theorem mem_keySet {k : K} {d : Dict K V} : k ∈ keySet d ↔ k ∈ d := by
  simp [keySet, AList.mem_keys]

@[simp] theorem keySet_empty : keySet (∅ : Dict K V) = ∅ := rfl

theorem card_keySet (d : Dict K V) : (keySet d).card = size d :=
  List.toFinset_card_of_nodup d.keys_nodup

@[simp] theorem keySet_insert (k : K) (v : V) (d : Dict K V) :
    keySet (d.insert k v) = insert k (keySet d) := by
  ext k'; simp

@[simp] theorem keySet_erase (k : K) (d : Dict K V) : keySet (d.erase k) = (keySet d).erase k := by
  ext k'; simp

theorem size_insert_of_mem {k : K} {v : V} {d : Dict K V} (h : k ∈ d) :
    size (d.insert k v) = size d := by
  rw [← card_keySet, ← card_keySet, keySet_insert, Finset.insert_eq_of_mem (mem_keySet.mpr h)]

theorem size_insert_of_notMem {k : K} {v : V} {d : Dict K V} (h : k ∉ d) :
    size (d.insert k v) = size d + 1 := by
  rw [← card_keySet, ← card_keySet, keySet_insert,
    Finset.card_insert_of_notMem (mt mem_keySet.mp h)]

theorem size_erase_of_mem {k : K} {d : Dict K V} (h : k ∈ d) : size (d.erase k) + 1 = size d := by
  rw [← card_keySet, ← card_keySet, keySet_erase, Finset.card_erase_add_one (mem_keySet.mpr h)]

theorem size_insert_le (k : K) (v : V) (d : Dict K V) : size (d.insert k v) ≤ size d + 1 := by
  by_cases h : k ∈ d
  · exact (size_insert_of_mem h).le.trans (Nat.le_succ _)
  · exact (size_insert_of_notMem h).le

theorem lookup_insert_eq (k k' : K) (v : V) (d : Dict K V) :
    (d.insert k v).lookup k' = if k' = k then some v else d.lookup k' := by
  split
  case isTrue h => rw [h, AList.lookup_insert]
  case isFalse h => rw [AList.lookup_insert_ne h]

theorem lookup_erase_eq (k k' : K) (d : Dict K V) :
    (d.erase k).lookup k' = if k' = k then none else d.lookup k' := by
  split
  case isTrue h => rw [h, AList.lookup_erase]
  case isFalse h => rw [AList.lookup_erase_ne h]

theorem mem_iff_lookup {k : K} {d : Dict K V} : k ∈ d ↔ ∃ v, d.lookup k = some v := by
  rw [← AList.lookup_isSome, Option.isSome_iff_exists]

theorem mem_of_lookup {k : K} {v : V} {d : Dict K V} (h : d.lookup k = some v) : k ∈ d :=
  mem_iff_lookup.mpr ⟨v, h⟩

theorem size_pos_of_lookup {k : K} {v : V} {d : Dict K V} (h : d.lookup k = some v) :
    0 < size d := by
  rw [← card_keySet]
  exact Finset.card_pos.mpr ⟨k, mem_keySet.mpr (mem_of_lookup h)⟩

theorem lookup_of_mem_entries {e : Sigma fun _ : K => V} {d : Dict K V} (h : e ∈ d.entries) :
    d.lookup e.1 = some e.2 :=
  AList.mem_lookup_iff.mpr h

@[simp] theorem mem_modify {k k' : K} {f : V → V} {d : Dict K V} : k' ∈ modify k f d ↔ k' ∈ d := by
  unfold modify
  cases h : d.lookup k with
  | none => rfl
  | some v =>
      simp only [AList.mem_insert]
      constructor
      · rintro (rfl | hmem)
        · exact mem_of_lookup h
        · exact hmem
      · exact .inr

end Dict
