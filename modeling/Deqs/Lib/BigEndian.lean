/-
# `BigEndian` — numbers as strings of bytes, most significant first

    encode w n     the `w` lowest bytes of `n`
    decode bs      the number a string of bytes writes

A string of bytes is compared byte by byte from the left, the shorter one first: the
order of `List`.  On strings of one length this is the order of the numbers they write,
which is what the notation is used for.

    decode_encode         reading gives the number back, modulo `256 ^ w`
    encode_decode         writing gives the string back
    compare_decode        strings of one length compare as their numbers
    compare_encode        so the strings of numbers below `256 ^ w` compare as the numbers
-/
import Mathlib.Algebra.Order.Ring.Nat
import Mathlib.Data.UInt
import Mathlib.Tactic.Common

namespace BigEndian

/-- The `w` lowest bytes of `n`. -/
def encode : Nat → Nat → List UInt8
  | 0, _ => []
  | w + 1, n => UInt8.ofNat (n / 256 ^ w) :: encode w n

/-- The number a string of bytes writes. -/
def decode : List UInt8 → Nat
  | [] => 0
  | b :: bs => b.toNat * 256 ^ bs.length + decode bs

/-! ## Round trips -/

@[simp] theorem length_encode : ∀ w n, (encode w n).length = w
  | 0, _ => rfl
  | w + 1, n => by rw [encode, List.length_cons, length_encode]

theorem decode_encode : ∀ w n, decode (encode w n) = n % 256 ^ w
  | 0, n => by simp [encode, decode, Nat.mod_one]
  | w + 1, n => by
      calc decode (encode (w + 1) n)
          = n / 256 ^ w % 256 * 256 ^ w + n % 256 ^ w := by
            rw [encode, decode, decode_encode, length_encode, UInt8.toNat_ofNat']
        _ = n % 256 ^ w + 256 ^ w * (n / 256 ^ w % 256) := by rw [Nat.add_comm, Nat.mul_comm]
        _ = n % 256 ^ (w + 1) := Nat.mod_pow_succ.symm

theorem decode_lt : ∀ bs : List UInt8, decode bs < 256 ^ bs.length
  | [] => Nat.one_pos
  | b :: bs => by
      have hb : b.toNat + 1 ≤ 256 := b.toNat_lt
      calc decode (b :: bs)
          < b.toNat * 256 ^ bs.length + 256 ^ bs.length :=
            Nat.add_lt_add_left (decode_lt bs) _
        _ = (b.toNat + 1) * 256 ^ bs.length := (Nat.succ_mul _ _).symm
        _ ≤ 256 * 256 ^ bs.length := Nat.mul_le_mul_right _ hb
        _ = 256 ^ (b :: bs).length := (Nat.pow_succ').symm

/-- Only the lowest bytes are read. -/
theorem encode_add_mul (k : Nat) : ∀ {w v : Nat} (n : Nat), w ≤ v →
    encode w (k * 256 ^ v + n) = encode w n
  | 0, _, _, _ => rfl
  | w + 1, v, n, hv => by
      -- the rest of the string is that of the shorter width, and the first byte is taken
      -- modulo `256`, of which `256 ^ v / 256 ^ w` is a multiple
      have hsplit : k * 256 ^ v = k * 256 ^ (v - (w + 1)) * 256 * 256 ^ w := by
        rw [Nat.mul_assoc, Nat.mul_assoc, ← Nat.pow_succ', ← Nat.pow_add, Nat.sub_add_cancel hv]
      have hdiv : (k * 256 ^ v + n) / 256 ^ w = n / 256 ^ w + k * 256 ^ (v - (w + 1)) * 256 := by
        rw [hsplit, Nat.add_comm, Nat.add_mul_div_right _ _ (Nat.pow_pos (by decide))]
      have hbyte : UInt8.ofNat ((k * 256 ^ v + n) / 256 ^ w) = UInt8.ofNat (n / 256 ^ w) := by
        rw [← UInt8.toNat_inj, UInt8.toNat_ofNat', UInt8.toNat_ofNat', hdiv]
        exact Nat.add_mul_mod_self_right _ _ _
      rw [encode, encode, hbyte, encode_add_mul k n (Nat.le_of_succ_le hv)]

theorem encode_decode : ∀ bs : List UInt8, encode bs.length (decode bs) = bs
  | [] => rfl
  | b :: bs => by
      have hfirst : (b.toNat * 256 ^ bs.length + decode bs) / 256 ^ bs.length = b.toNat := by
        rw [Nat.add_comm, Nat.add_mul_div_right _ _ (Nat.pow_pos (by decide)),
          Nat.div_eq_of_lt (decode_lt bs), Nat.zero_add]
      rw [List.length_cons, encode, decode, hfirst, encode_add_mul _ _ (Nat.le_refl _),
        encode_decode bs, UInt8.ofNat_toNat]

/-! ## Order -/

/-- **Strings of one length compare as their numbers.** -/
theorem compare_decode : ∀ {xs ys : List UInt8}, xs.length = ys.length →
    compare xs ys = compare (decode xs) (decode ys)
  | [], [], _ => rfl
  | x :: xs, y :: ys, hlen => by
      have hlen' : xs.length = ys.length := Nat.succ.inj hlen
      have hx := decode_lt xs
      have hy := decode_lt ys
      rw [hlen'] at hx
      rw [List.compare_cons_cons, compare_decode hlen', decode, decode, hlen']
      -- the first byte decides, unless it is the same: the rest is below its weight
      rcases Nat.lt_trichotomy x.toNat y.toNat with hlt | heq | hgt
      · have hstep : (x.toNat + 1) * 256 ^ ys.length ≤ y.toNat * 256 ^ ys.length :=
          Nat.mul_le_mul_right _ hlt
        rw [Nat.succ_mul] at hstep
        have hc : compare x y = .lt := Std.compare_eq_lt.mpr (UInt8.lt_iff_toNat_lt.mpr hlt)
        rw [hc]
        exact (Nat.compare_eq_lt.mpr (by omega)).symm
      · rw [UInt8.toNat_inj.mp heq, Std.ReflOrd.compare_self]
        simp only [compare, compareOfLessAndEq]
        simp
      · have hstep : (y.toNat + 1) * 256 ^ ys.length ≤ x.toNat * 256 ^ ys.length :=
          Nat.mul_le_mul_right _ hgt
        rw [Nat.succ_mul] at hstep
        have hc : compare x y = .gt := Std.compare_eq_gt.mpr (UInt8.lt_iff_toNat_lt.mpr hgt)
        rw [hc]
        exact (Nat.compare_eq_gt.mpr (by omega)).symm

theorem compare_encode {w x y : Nat} (hx : x < 256 ^ w) (hy : y < 256 ^ w) :
    compare (encode w x) (encode w y) = compare x y := by
  rw [compare_decode (by simp), decode_encode, decode_encode, Nat.mod_eq_of_lt hx,
    Nat.mod_eq_of_lt hy]

end BigEndian
