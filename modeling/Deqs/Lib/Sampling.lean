/-
# `Sampling` — drawing until there are enough distinct values

    while set.len() < size { set.insert(draw()); }
    let order: Vec<_> = set.into_iter().collect();

The loop goes on for as long as the draws repeat themselves, so its input is the list of
the draws and its result may be missing: `none` is a loop that is not over yet.  A hash
set promises nothing about the order it is walked in; an `Iteration` is any such order.

    collect_eq_some        what the loop collects: `size` of the values drawn
    exists_collect         it ends once enough different values were drawn
-/
import Mathlib.Data.Finset.Card
import Mathlib.Data.Finset.Dedup
import Mathlib.Data.Finset.Lattice.Basic

namespace Sampling

variable {α : Type} [DecidableEq α]

def collect (size : Nat) : Finset α → List α → Option (Finset α)
  | set, [] => if size ≤ set.card then some set else none
  | set, draw :: draws =>
      if size ≤ set.card then some set else collect size (insert draw set) draws

theorem collect_eq_some {size : Nat} {result : Finset α} : ∀ {draws : List α} {set : Finset α},
    collect size set draws = some result → set.card ≤ size →
    result.card = size ∧ result ⊆ set ∪ draws.toFinset
  | [], set, h, hcard => by
      rw [collect] at h
      split at h
      · next hle =>
          rw [← Option.some.inj h]
          exact ⟨Nat.le_antisymm hcard hle, Finset.subset_union_left⟩
      · cases h
  | draw :: draws, set, h, hcard => by
      rw [collect] at h
      split at h
      · next hle =>
          rw [← Option.some.inj h]
          exact ⟨Nat.le_antisymm hcard hle, Finset.subset_union_left⟩
      · next hlt =>
          have hinsert := Finset.card_insert_le draw set
          obtain ⟨hresult, hsub⟩ := collect_eq_some h (by omega)
          refine ⟨hresult, ?_⟩
          rwa [List.toFinset_cons, Finset.union_insert, ← Finset.insert_union]

theorem exists_collect {size : Nat} : ∀ {draws : List α} {set : Finset α},
    size ≤ (set ∪ draws.toFinset).card → ∃ result, collect size set draws = some result
  | [], set, h => by
      rw [List.toFinset_nil, Finset.union_empty] at h
      exact ⟨set, if_pos h⟩
  | draw :: draws, set, h => by
      rw [collect]
      split
      · exact ⟨set, rfl⟩
      · apply exists_collect
        rwa [Finset.insert_union, ← Finset.union_insert, ← List.toFinset_cons]

/-- An order in which sets are walked. -/
structure Iteration (α : Type) where
  toList : Finset α → List α
  coe_toList : ∀ set, (toList set : Multiset α) = set.val

namespace Iteration

variable {α : Type} (order : Iteration α) (set : Finset α)

theorem nodup_toList : (order.toList set).Nodup := by
  have h := set.nodup
  rwa [← order.coe_toList, Multiset.coe_nodup] at h

theorem mem_toList {x : α} : x ∈ order.toList set ↔ x ∈ set := by
  rw [← Multiset.mem_coe, order.coe_toList, Finset.mem_val]

theorem length_toList : (order.toList set).length = set.card := by
  rw [Finset.card_def, ← order.coe_toList, Multiset.coe_card]

end Iteration

end Sampling
