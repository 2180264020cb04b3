/-
# `Wide` — a fraction of a `u64`, taken through `u128`

    ((p as u128 * a as u128) / v as u128) as u64

computes `p * a / v` without losing bits on the way, as long as `a ≤ v`: two 64 bit
factors cannot overflow a 128 bit product, and a fraction of `p` fits where `p` does.  The
operations are those of the machine, with their wrap-around; what they compute is stated
over the natural numbers.

    toNat_mul        the product is exact, whatever the factors
    toNat_share      the fraction is exact, if it is one
    share_le         it is at most the whole
    share_mono       it is monotone
    share_add        and additive up to one unit
-/
import Mathlib.Data.Nat.Basic
import Mathlib.Algebra.Order.Ring.Nat
import Mathlib.Tactic.Common

namespace Wide

/-- `a as u128`. -/
def ofU64 (a : UInt64) : BitVec 128 := a.toBitVec.setWidth 128

/-- `x as u64`, which drops the upper bits. -/
def toU64 (x : BitVec 128) : UInt64 := ⟨x.setWidth 64⟩

/-- `((p as u128 * a as u128) / v as u128) as u64`, for `v` not zero. -/
def share (p a v : UInt64) : UInt64 := toU64 (ofU64 p * ofU64 a / ofU64 v)

@[simp] theorem toNat_ofU64 (a : UInt64) : (ofU64 a).toNat = a.toNat := by
  have ha := a.toNat_lt
  simp only [ofU64, BitVec.toNat_setWidth, UInt64.toNat_toBitVec]
  exact Nat.mod_eq_of_lt (by omega)

theorem toNat_toU64 (x : BitVec 128) : (toU64 x).toNat = x.toNat % 2 ^ 64 := by
  simp [toU64, ← UInt64.toNat_toBitVec]

theorem ofU64_eq_zero {a : UInt64} : ofU64 a = 0 ↔ a = 0 := by
  rw [← BitVec.toNat_inj, ← UInt64.toNat_inj, toNat_ofU64]
  simp

theorem toNat_mul (p a : UInt64) : (ofU64 p * ofU64 a).toNat = p.toNat * a.toNat := by
  have hlt : p.toNat * a.toNat < 2 ^ 64 * 2 ^ 64 :=
    Nat.mul_lt_mul'' p.toNat_lt a.toNat_lt
  rw [BitVec.toNat_mul, toNat_ofU64, toNat_ofU64]
  exact Nat.mod_eq_of_lt (by omega)

theorem toNat_div (p a v : UInt64) :
    (ofU64 p * ofU64 a / ofU64 v).toNat = p.toNat * a.toNat / v.toNat := by
  rw [BitVec.toNat_udiv, toNat_mul, toNat_ofU64]

theorem div_le_whole {p a v : Nat} (h : a ≤ v) : p * a / v ≤ p := by
  calc p * a / v ≤ p * v / v := Nat.div_le_div_right (Nat.mul_le_mul_left p h)
    _ ≤ p := Nat.div_le_of_le_mul (by rw [Nat.mul_comm])

theorem div_lt {p a v : UInt64} (h : a ≤ v) :
    (ofU64 p * ofU64 a / ofU64 v).toNat < 2 ^ 64 := by
  rw [toNat_div]
  exact lt_of_le_of_lt (div_le_whole (UInt64.le_iff_toNat_le.mp h)) p.toNat_lt

theorem toNat_share {p a v : UInt64} (h : a ≤ v) :
    (share p a v).toNat = p.toNat * a.toNat / v.toNat := by
  rw [share, toNat_toU64, Nat.mod_eq_of_lt (div_lt h), toNat_div]

theorem share_le {p a v : UInt64} (h : a ≤ v) : share p a v ≤ p := by
  rw [UInt64.le_iff_toNat_le, toNat_share h]
  exact div_le_whole (UInt64.le_iff_toNat_le.mp h)

theorem share_mono {p a b v : UInt64} (hab : a ≤ b) (hb : b ≤ v) : share p a v ≤ share p b v := by
  rw [UInt64.le_iff_toNat_le, toNat_share (UInt64.le_trans hab hb), toNat_share hb]
  exact Nat.div_le_div_right (Nat.mul_le_mul_left _ (UInt64.le_iff_toNat_le.mp hab))

theorem share_add {p a b c v : UInt64} (hc : c ≤ v) (hv : v ≠ 0)
    (hsum : c.toNat = a.toNat + b.toNat) :
    (share p a v).toNat + (share p b v).toNat ≤ (share p c v).toNat ∧
      (share p c v).toNat ≤ (share p a v).toNat + (share p b v).toNat + 1 := by
  have hcv := UInt64.le_iff_toNat_le.mp hc
  have ha : a ≤ v := UInt64.le_iff_toNat_le.mpr (by omega)
  have hb : b ≤ v := UInt64.le_iff_toNat_le.mpr (by omega)
  have hpos : 0 < v.toNat := Nat.pos_of_ne_zero fun h0 => hv (UInt64.toNat_inj.mp h0)
  rw [toNat_share ha, toNat_share hb, toNat_share hc, hsum, Nat.mul_add, Nat.add_div hpos]
  split
  · omega
  · omega

/-- The fraction is the whole exactly when all of it is taken, or there is nothing to
take. -/
theorem share_eq_whole {p a v : UInt64} (h : a ≤ v) (hv : v ≠ 0) :
    share p a v = p ↔ a = v ∨ p = 0 := by
  have hav := UInt64.le_iff_toNat_le.mp h
  have hpos : 0 < v.toNat := Nat.pos_of_ne_zero fun h0 => hv (UInt64.toNat_inj.mp h0)
  rw [← UInt64.toNat_inj, ← UInt64.toNat_inj, ← UInt64.toNat_inj, toNat_share h, UInt64.toNat_zero]
  constructor
  · intro heq
    have hle : p.toNat * v.toNat ≤ p.toNat * a.toNat := (Nat.le_div_iff_mul_le hpos).mp heq.ge
    rcases Nat.eq_zero_or_pos p.toNat with h0 | h0
    · exact .inr h0
    · exact .inl (le_antisymm hav (Nat.le_of_mul_le_mul_left hle h0))
  · rintro (heq | heq)
    · rw [heq, Nat.mul_div_cancel _ hpos]
    · simp [heq]

end Wide
