/-
# `CrossRatio` — comparing fractions without dividing

A fraction `b / c` of natural numbers is a pair `(b, c)`, and two of them are compared
by multiplying crosswise, larger fraction first:

    crossCmp (b, c) (b', c')  =  compare (b' · c) (b · c')

A zero denominator is a fraction too — it compares as infinite — and only `0 / 0` is
none: it is level with everything (`crossCmp_indeterminate_left`), so levelness stops being
transitive the moment it takes part.  Away from it `crossCmp` is a total preorder,
which is `crossCmp_trans` with its two strict forms.
-/
import Mathlib.Tactic.Common
import Mathlib.Tactic.Ring
import Mathlib.Algebra.Order.Ring.Nat

/-- Compare two fractions, the larger one first. -/
def crossCmp (x y : Nat × Nat) : Ordering := compare (y.1 * x.2) (x.1 * y.2)

namespace CrossRatio

/-- The pair that is not a fraction. -/
def Indeterminate (x : Nat × Nat) : Prop := x.1 = 0 ∧ x.2 = 0

instance (x : Nat × Nat) : Decidable (Indeterminate x) := inferInstanceAs (Decidable (_ ∧ _))

theorem crossCmp_swap (x y : Nat × Nat) : crossCmp y x = (crossCmp x y).swap := by
  simp only [crossCmp]
  exact Nat.compare_swap _ _ |>.symm

theorem crossCmp_indeterminate_left {x y : Nat × Nat} (h : Indeterminate x) :
    crossCmp x y = .eq := by
  simp [crossCmp, h.1, h.2]

theorem crossCmp_indeterminate_right {x y : Nat × Nat} (h : Indeterminate y) :
    crossCmp x y = .eq := by
  simp [crossCmp, h.1, h.2]

theorem crossCmp_isLE_iff {x y : Nat × Nat} :
    (crossCmp x y).isLE ↔ y.1 * x.2 ≤ x.1 * y.2 := by
  simp [crossCmp, Nat.isLE_compare]

theorem crossCmp_trans {x y z : Nat × Nat} (hy : ¬ Indeterminate y) (hxy : (crossCmp x y).isLE)
    (hyz : (crossCmp y z).isLE) : (crossCmp x z).isLE := by
  rw [crossCmp_isLE_iff] at *
  rcases Nat.eq_zero_or_pos y.1 with h0 | hpos
  · -- `y = 0 / c` with `0 < c`: everything after it is `0 / _` as well
    have hc : 0 < y.2 := Nat.pos_of_ne_zero (fun h => hy ⟨h0, h⟩)
    rw [h0, Nat.zero_mul] at hyz
    have hz : z.1 = 0 := by
      rcases Nat.mul_eq_zero.mp (Nat.le_zero.mp hyz) with h | h
      · exact h
      · omega
    rw [hz, Nat.zero_mul]
    exact Nat.zero_le _
  · refine Nat.le_of_mul_le_mul_left ?_ hpos
    calc y.1 * (z.1 * x.2) = z.1 * (y.1 * x.2) := by ring
      _ ≤ z.1 * (x.1 * y.2) := Nat.mul_le_mul_left _ hxy
      _ = x.1 * (z.1 * y.2) := by ring
      _ ≤ x.1 * (y.1 * z.2) := Nat.mul_le_mul_left _ hyz
      _ = y.1 * (x.1 * z.2) := by ring

/-- Transitivity with one strict half.  The other end has to be a fraction too. -/
theorem crossCmp_lt_trans {x y z : Nat × Nat} (hx : ¬ Indeterminate x)
    (hy : ¬ Indeterminate y) (hz : ¬ Indeterminate z)
    (hxy : (crossCmp x y).isLE) (hyz : (crossCmp y z).isLE)
    (hlt : crossCmp x y = .lt ∨ crossCmp y z = .lt) : crossCmp x z = .lt := by
  have hle := crossCmp_trans hy hxy hyz
  cases hc : crossCmp x z with
  | lt => rfl
  | gt => rw [hc] at hle; exact absurd hle (by decide)
  | eq =>
      -- were `x` and `z` level, either strict half would be undone through the other
      have hzx : (crossCmp z x).isLE := by rw [crossCmp_swap x z, hc]; rfl
      rcases hlt with h | h
      · have hyx := crossCmp_trans hz hyz hzx
        rw [crossCmp_swap x y, h] at hyx
        exact absurd hyx (by decide)
      · have hzy := crossCmp_trans hx hzx hxy
        rw [crossCmp_swap y z, h] at hzy
        exact absurd hzy (by decide)

theorem crossCmp_eq_trans {x y z : Nat × Nat} (hy : ¬ Indeterminate y) (hxy : crossCmp x y = .eq)
    (hyz : crossCmp y z = .eq) : crossCmp x z = .eq := by
  have h₁ : (crossCmp x z).isLE := crossCmp_trans hy (by rw [hxy]; rfl) (by rw [hyz]; rfl)
  have h₂ : (crossCmp z x).isLE :=
    crossCmp_trans hy (by rw [crossCmp_swap y z, hyz]; rfl) (by rw [crossCmp_swap x y, hxy]; rfl)
  rw [crossCmp_swap x z] at h₂
  cases hc : crossCmp x z with
  | eq => rfl
  | lt => rw [hc] at h₂; exact absurd h₂ (by decide)
  | gt => rw [hc] at h₁; exact absurd h₁ (by decide)

end CrossRatio
