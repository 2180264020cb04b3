/-
# `Rounding` — a product kept to as many decimal places as fit, and its ceiling

A fixed-point format holds `m / 10 ^ t` with `m` below a bound.  The fraction `n / 10 ^ s`
may have more digits than that: it is then rounded to nearest at the largest number of
places that fits (`fit`).  Where a tie goes is left open; every rounding to nearest is a
`Rounding`.

Rounding is monotone and fixes integers, so that it stays within the unit interval the
fraction lies in, and a ceiling taken afterwards is the floor or the ceiling of the
fraction:

    round_one                 nothing is rounded at the full number of places
    le_round, round_le        a rounded fraction stays on its side of an integer
    fit_eq_some, fit_full     what `fit` finds, and when it keeps everything
    ceilDiv_eq                the ceiling, by the remainder
    ceilDiv_round             the ceiling of the rounded fraction
    ceilDiv_round_cases       which is one too low if the rounding fell on the integer below
-/
import Mathlib.Algebra.Order.Floor.Div
import Mathlib.Algebra.Order.Ring.Nat
import Mathlib.GroupTheory.GroupAction.Ring
import Mathlib.Tactic.Ring

/-- A rounding of the fractions `n / d` to nearest. -/
structure Rounding where
  round : Nat → Nat → Nat
  round_mul_le : ∀ n d, 0 < d → 2 * (round n d * d) ≤ 2 * n + d
  le_round_mul : ∀ n d, 0 < d → 2 * n ≤ 2 * (round n d * d) + d

namespace Rounding

variable (R : Rounding)

/-- Ties to the even neighbour. -/
def halfEven : Rounding where
  round n d :=
    if 2 * (n % d) < d ∨ 2 * (n % d) = d ∧ n / d % 2 = 0 then n / d else n / d + 1
  round_mul_le n d hd := by
    have hdiv := Nat.div_add_mod' n d
    split
    · omega
    · rw [Nat.add_one_mul (n / d) d]
      omega
  le_round_mul n d hd := by
    have hdiv := Nat.div_add_mod' n d
    have hmod := Nat.mod_lt n hd
    split
    · omega
    · rw [Nat.add_one_mul (n / d) d]
      omega

/-! ## Rounding and integers -/

variable {n d m : Nat}

theorem round_one (n : Nat) : R.round n 1 = n := by
  have hle := R.round_mul_le n 1 Nat.one_pos
  have hge := R.le_round_mul n 1 Nat.one_pos
  omega

theorem le_round (hd : 0 < d) (h : m * d ≤ n) : m ≤ R.round n d := by
  by_contra hlt
  have hstep : (R.round n d + 1) * d ≤ m * d := Nat.mul_le_mul_right d (by omega)
  have hge := R.le_round_mul n d hd
  rw [Nat.succ_mul] at hstep
  omega

theorem round_le (hd : 0 < d) (h : n ≤ m * d) : R.round n d ≤ m := by
  by_contra hlt
  have hstep : (m + 1) * d ≤ R.round n d * d := Nat.mul_le_mul_right d (by omega)
  have hle := R.round_mul_le n d hd
  rw [Nat.succ_mul] at hstep
  omega

/-! ## As many places as fit -/

/-- The largest number of places, `places` at most, at which `n / 10 ^ s` fits below the
bound. -/
def fit (bound n s : Nat) : Nat → Option Nat
  | 0 => if R.round n (10 ^ s) < bound then some 0 else none
  | places + 1 =>
      if R.round n (10 ^ (s - (places + 1))) < bound then some (places + 1)
      else fit bound n s places

variable {R} {bound s : Nat}

theorem fit_eq_some {t : Nat} : ∀ {places : Nat}, R.fit bound n s places = some t →
    t ≤ places ∧ R.round n (10 ^ (s - t)) < bound
  | 0, h => by
      rw [fit] at h
      split at h
      · next hlt =>
          rw [← Option.some.inj h]
          exact ⟨Nat.le_refl 0, hlt⟩
      · cases h
  | places + 1, h => by
      rw [fit] at h
      split at h
      · next hlt =>
          rw [← Option.some.inj h]
          exact ⟨Nat.le_refl _, hlt⟩
      · obtain ⟨hle, hlt⟩ := fit_eq_some h
        exact ⟨Nat.le_succ_of_le hle, hlt⟩

theorem fit_full (h : n < bound) : R.fit bound n s s = some s := by
  cases s with
  | zero => simp [fit, round_one, h]
  | succ s => simp [fit, round_one, h]

/-! ## The ceiling -/

theorem ceilDiv_eq (hd : 0 < d) : n ⌈/⌉ d = if d ∣ n then n / d else n / d + 1 := by
  have hdiv := Nat.div_add_mod n d
  have hmod := Nat.mod_lt n hd
  split
  · next h =>
      obtain ⟨q, rfl⟩ := h
      rw [Nat.mul_div_cancel_left q hd]
      refine Nat.le_antisymm ((ceilDiv_le_iff_le_mul hd).mpr (Nat.le_refl _)) ?_
      exact Nat.le_of_mul_le_mul_left (le_smul_ceilDiv hd) hd
  · next h =>
      have hpos : 0 < n % d := Nat.pos_of_ne_zero (fun h0 => h (Nat.dvd_of_mod_eq_zero h0))
      refine Nat.le_antisymm ((ceilDiv_le_iff_le_mul hd).mpr ?_) ?_
      · rw [Nat.mul_succ]
        omega
      · by_contra hlt
        have hle := (ceilDiv_le_iff_le_mul hd).mp (Nat.le_of_lt_succ (Nat.lt_of_not_le hlt))
        omega

/-- **The ceiling of a rounded fraction.**  `n / (a * b)` is rounded at the places that `a`
stands for.  What is above its integer part `q` stays above `q` or falls on it, and what
is an integer stays one. -/
theorem ceilDiv_round {a b : Nat} (ha : 0 < a) (hb : 0 < b) : R.round n b ⌈/⌉ a =
    if R.round n b = n / (a * b) * a then n / (a * b) else n / (a * b) + 1 := by
  have hdiv := Nat.div_add_mod n (a * b)
  have hmod := Nat.mod_lt n (Nat.mul_pos ha hb)
  generalize n / (a * b) = q at hdiv ⊢
  have hlow : q * a ≤ R.round n b := R.le_round hb (by
    calc q * a * b = a * b * q := by ring
      _ ≤ n := by omega)
  have hhigh : R.round n b ≤ (q + 1) * a := R.round_le hb (by
    calc n ≤ a * b * q + a * b := by omega
      _ = (q + 1) * a * b := by ring)
  split
  · next h => rw [h, ceilDiv_eq ha, if_pos (Nat.dvd_mul_left a q), Nat.mul_div_cancel q ha]
  · next h =>
      refine Nat.le_antisymm ((ceilDiv_le_iff_le_mul ha).mpr (by rwa [Nat.mul_comm])) ?_
      by_contra hlt
      have hle := (ceilDiv_le_iff_le_mul ha).mp (Nat.le_of_lt_succ (Nat.lt_of_not_le hlt))
      rw [Nat.mul_comm] at hle
      omega

theorem round_eq_of_dvd {a b : Nat} (hb : 0 < b) (h : a * b ∣ n) :
    R.round n b = n / (a * b) * a := by
  have hn : n = n / (a * b) * a * b := by rw [Nat.mul_assoc, Nat.div_mul_cancel h]
  exact Nat.le_antisymm (R.round_le hb hn.le) (R.le_round hb hn.ge)

/-- **Rounding, then the ceiling.**  This is the ceiling, or the integer below it: the
latter if the fraction is no integer and was rounded to one below it. -/
theorem ceilDiv_round_cases {a b : Nat} (ha : 0 < a) (hb : 0 < b) :
    (R.round n b ⌈/⌉ a = n ⌈/⌉ (a * b) ∧ (a * b ∣ n ∨ R.round n b ≠ n / (a * b) * a)) ∨
    (R.round n b ⌈/⌉ a = n / (a * b) ∧ n ⌈/⌉ (a * b) = n / (a * b) + 1 ∧
      ¬ a * b ∣ n ∧ R.round n b = n / (a * b) * a) := by
  rw [ceilDiv_round ha hb, ceilDiv_eq (Nat.mul_pos ha hb)]
  by_cases hdvd : a * b ∣ n
  · left
    rw [if_pos (round_eq_of_dvd hb hdvd), if_pos hdvd]
    exact ⟨rfl, .inl hdvd⟩
  · by_cases hround : R.round n b = n / (a * b) * a
    · right
      rw [if_pos hround, if_neg hdvd]
      exact ⟨rfl, rfl, hdvd, hround⟩
    · left
      rw [if_neg hround, if_neg hdvd]
      exact ⟨rfl, .inr hround⟩

end Rounding
