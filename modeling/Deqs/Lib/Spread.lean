/-
# `Spread` — what every node has, or is owed

A set grows at each of several nodes.  Whatever one node comes to have is sent to all the
others; until it arrives the others are *owed* it.  Nothing is ever taken away.  `Covered`
is the invariant such a system keeps, whatever the order of arrival:

* what one node has, every other node has or is owed;
* what a node is owed, some node has.

There is one rule for a step (`Covered.step`), and one consequence (`Covered.agree`): when
nothing is owed any more, all nodes have the same.  The second half of the invariant is what
makes an arrival harmless: what arrives was somewhere already, so it is covered.

Nothing is said about how many messages there are, or how often one arrives.
-/
import Mathlib.Data.Set.Basic

namespace Spread

variable {ι κ : Type} {has owed has' owed' : ι → Set κ}

/-- What one node has the others have or are owed, and what they are owed some node has. -/
structure Covered (has owed : ι → Set κ) : Prop where
  covered : ∀ {n k}, k ∈ has n → ∀ m, k ∈ has m ∨ k ∈ owed m
  origin : ∀ {m k}, k ∈ owed m → ∃ n, k ∈ has n

theorem covered_of_empty (hhas : ∀ n, has n = ∅) (howed : ∀ n, owed n = ∅) :
    Covered has owed where
  covered {n k} h := by
    rw [hhas n] at h
    exact absurd h (Set.notMem_empty k)
  origin {m k} h := by
    rw [howed m] at h
    exact absurd h (Set.notMem_empty k)

namespace Covered

/-- **The rule for a step.**  Nobody loses anything; what is no longer owed has come; and
what is new at a node was had by some node before, or is owed to all who do not have it. -/
theorem step (h : Covered has owed) (hgrow : ∀ n, has n ⊆ has' n)
    (hkeep : ∀ {n k}, k ∈ owed n → k ∈ has' n ∨ k ∈ owed' n)
    (hnew : ∀ {n k}, k ∈ has' n → (∃ p, k ∈ has p) ∨ ∀ m, k ∈ has' m ∨ k ∈ owed' m)
    (horigin : ∀ {m k}, k ∈ owed' m → ∃ n, k ∈ has' n) : Covered has' owed' where
  covered {n k} hk m := by
    rcases hnew hk with ⟨p, hp⟩ | hall
    · rcases h.covered hp m with hm | hm
      · exact .inl (hgrow m hm)
      · exact hkeep hm
    · exact hall m
  origin := horigin

theorem agree (h : Covered has owed) (hnone : ∀ m, owed m = ∅) (n m : ι) : has n = has m := by
  have hsub : ∀ n m, has n ⊆ has m := by
    intro n m k hk
    rcases h.covered hk m with hm | hm
    · exact hm
    · rw [hnone m] at hm
      exact absurd hm (Set.notMem_empty k)
  exact Set.Subset.antisymm (hsub n m) (hsub m n)

end Covered
end Spread
