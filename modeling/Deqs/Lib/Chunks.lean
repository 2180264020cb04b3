/-
# `Chunks` — a list, cut into pieces of a given length

`xs.chunks(n)` in Rust: pieces of length `n`, one after the other, the last one shorter if
`n` does not divide the length.  Two facts are all that a client needs: the pieces put
together are the list (`flatten_chunks`), and none is longer than `n`
(`length_le_of_mem_chunks`).

The recursion is on a bound for the length, so that it evaluates.
-/
import Mathlib.Tactic.Common

namespace Chunks

variable {α : Type}

/-- At most `fuel` pieces. -/
def go (n : Nat) : Nat → List α → List (List α)
  | 0, _ => []
  | _ + 1, [] => []
  | fuel + 1, x :: xs => (x :: xs).take n :: go n fuel ((x :: xs).drop n)

/-- The pieces.  A piece has an element, so there are no more of them than elements. -/
def chunks (n : Nat) (xs : List α) : List (List α) := go n xs.length xs

theorem flatten_go {n : Nat} (hn : 0 < n) : ∀ {fuel : Nat} {xs : List α}, xs.length ≤ fuel →
    (go n fuel xs).flatten = xs
  | 0, xs, h => (List.length_eq_zero_iff.mp (Nat.le_zero.mp h)).symm
  | fuel + 1, [], _ => rfl
  | fuel + 1, x :: xs, h => by
      have hrest : ((x :: xs).drop n).length ≤ fuel := by
        rw [List.length_drop]
        simp only [List.length_cons] at h ⊢
        omega
      rw [go, List.flatten_cons, flatten_go hn hrest, List.take_append_drop]

theorem flatten_chunks {n : Nat} (hn : 0 < n) (xs : List α) : (chunks n xs).flatten = xs :=
  flatten_go hn (Nat.le_refl _)

theorem length_le_of_mem_go {n : Nat} {c : List α} : ∀ {fuel : Nat} {xs : List α},
    c ∈ go n fuel xs → c.length ≤ n
  | 0, xs, h => absurd h List.not_mem_nil
  | fuel + 1, [], h => absurd h List.not_mem_nil
  | fuel + 1, x :: xs, h => by
      rcases List.mem_cons.mp h with rfl | h
      · rw [List.length_take]
        exact Nat.min_le_left _ _
      · exact length_le_of_mem_go h

theorem length_le_of_mem_chunks {n : Nat} {c xs : List α} (h : c ∈ chunks n xs) :
    c.length ≤ n :=
  length_le_of_mem_go h

end Chunks
