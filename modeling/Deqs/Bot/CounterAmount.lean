/-
# The counter amount — what the bot asks for a TxOut

    (Decimal::from(value) * swap_rate).ceil().to_u64()

The price of a TxOut is its value times the rate, rounded up "in case the conversion
results in a fractional amount".  The product is a `Decimal` before it is rounded up, and
a `Decimal` has 96 bits for its digits.  A value of 20 digits times a rate of 29 does not
fit: the operator `*` then drops decimal places, rounding to nearest, until it does, and
panics if the integer part alone does not.

| the product | what the bot asks |
| :-- | :-- |
| fits with all its places | the price, rounded up |
| is rounded, and not to an integer below it | the same |
| is rounded to the integer below it | one unit too little |
| has an integer part of more than 96 bits | nothing: the task panics |

Two of these are not what the comment promises.  How often they happen depends on the
rate: one with few digits never gets there, as `v * m < 2 ^ 96` is enough
(`counterAmount_of_lt`).

    counterAmount_eq            the computation, over the natural numbers
    counterAmount_exact_iff     when it is the price, rounded up
    counterAmount_ok            what it can be otherwise: one unit less
-/
import Deqs.Lib.Rounding
import Deqs.Bot.Tracking

namespace Deqs.Bot

namespace Decimal

/-- The value of a `Decimal` is at least zero. -/
def IsNonneg (d : Decimal) : Prop := d.negative = true → d.mantissa = 0

instance decidableIsNonneg (d : Decimal) : Decidable d.IsNonneg :=
  inferInstanceAs (Decidable (d.negative = true → d.mantissa = 0))

theorem zero_scale_le : 0 ≤ 28 := Nat.zero_le 28

/-- `From<u64> for Decimal`. -/
def ofU64 (value : UInt64) : Decimal where
  negative := false
  mantissa := value.toNat
  scale := 0
  mantissa_lt := Nat.lt_trans value.toNat_lt (by decide)
  scale_le := zero_scale_le

/-- The operator `*`: the product at the largest scale at which its digits fit.  A product with
zero is `Decimal::ZERO`, whatever the signs and the scales. -/
def mul (R : Rounding) (x y : Decimal) : Outcome Error Decimal :=
  if x.mantissa = 0 ∨ y.mantissa = 0 then .ok (ofU64 0)
  else
    match h : R.fit (2 ^ 96) (x.mantissa * y.mantissa) (x.scale + y.scale)
        (min 28 (x.scale + y.scale)) with
    | none => .panic "Multiplication overflowed"
    | some scale => .ok {
        negative := x.negative != y.negative
        mantissa := R.round (x.mantissa * y.mantissa) (10 ^ (x.scale + y.scale - scale))
        scale
        mantissa_lt := (Rounding.fit_eq_some h).2
        scale_le := Nat.le_trans (Rounding.fit_eq_some h).1 (Nat.min_le_left _ _) }

def ceil (d : Decimal) : Decimal where
  negative := d.negative
  mantissa :=
    if d.negative then d.mantissa / 10 ^ d.scale else d.mantissa ⌈/⌉ 10 ^ d.scale
  scale := 0
  mantissa_lt := by
    have hpos : 0 < 10 ^ d.scale := Nat.pow_pos (by decide)
    split
    · exact Nat.lt_of_le_of_lt (Nat.div_le_self _ _) d.mantissa_lt
    · refine Nat.lt_of_le_of_lt ((ceilDiv_le_iff_le_mul hpos).mpr ?_) d.mantissa_lt
      exact Nat.le_mul_of_pos_left _ hpos
  scale_le := zero_scale_le

/-- `to_u64()`: the integer part, if it is a `u64`.  What has a negative sign is not, even if it is
zero. -/
def toU64 (d : Decimal) : Option UInt64 :=
  let n := d.mantissa / 10 ^ d.scale
  if d.negative then none else if n < 2 ^ 64 then some (UInt64.ofNat n) else none

def display (d : Decimal) : String :=
  let places := toString (d.mantissa % 10 ^ d.scale)
  let zeros := String.ofList (List.replicate (d.scale - places.length) '0')
  (if d.negative then "-" else "") ++ toString (d.mantissa / 10 ^ d.scale) ++
    (if d.scale = 0 then "" else "." ++ zeros ++ places)

end Decimal

def couldNotConvert (value : UInt64) (swapRate : Decimal) : Error :=
  let rate := swapRate.display
  .decimalConversion s!"Could not convert {value} times {rate} to u64"

/-- The counter amount of `create_pending_tx_out`. -/
def counterAmount (R : Rounding) (value : UInt64) (swapRate : Decimal) : Outcome Error UInt64 := do
  let product ← Decimal.mul R (.ofU64 value) swapRate
  match product.ceil.toU64 with
  | some amount => .ok amount
  | none => .err (couldNotConvert value swapRate)

/-- An amount, or the error if it is not a `u64`. -/
def asU64 (value : UInt64) (swapRate : Decimal) (n : Nat) : Outcome Error UInt64 :=
  if n < 2 ^ 64 then .ok (UInt64.ofNat n) else .err (couldNotConvert value swapRate)

def price (value : UInt64) (swapRate : Decimal) : Nat :=
  value.toNat * swapRate.mantissa ⌈/⌉ 10 ^ swapRate.scale

/-- What the counter amount is meant to be. -/
def exactAmount (value : UInt64) (swapRate : Decimal) : Outcome Error UInt64 :=
  asU64 value swapRate (price value swapRate)

/-- The number of decimal places the product is kept to; `none` if it does not fit without
any. -/
def keptPlaces (R : Rounding) (value : UInt64) (swapRate : Decimal) : Option Nat :=
  R.fit (2 ^ 96) (value.toNat * swapRate.mantissa) swapRate.scale swapRate.scale

/-- The product, rounded at `t` decimal places: so many units of `10 ^ -t`. -/
def rounded (R : Rounding) (value : UInt64) (swapRate : Decimal) (t : Nat) : Nat :=
  R.round (value.toNat * swapRate.mantissa) (10 ^ (swapRate.scale - t))

/-! ## The computation, over the natural numbers -/

variable {R : Rounding} {value : UInt64} {swapRate : Decimal}

theorem asU64_inj {n n' : Nat} : asU64 value swapRate n = asU64 value swapRate n' ↔
    n = n' ∨ 2 ^ 64 ≤ n ∧ 2 ^ 64 ≤ n' := by
  unfold asU64
  by_cases h : n < 2 ^ 64
  · by_cases h' : n' < 2 ^ 64
    · rw [if_pos h, if_pos h', Outcome.ok.injEq, ← UInt64.toNat_inj, UInt64.toNat_ofNat_of_lt' h,
        UInt64.toNat_ofNat_of_lt' h']
      omega
    · rw [if_pos h, if_neg h']
      simp only [reduceCtorEq, false_iff]
      omega
  · by_cases h' : n' < 2 ^ 64
    · rw [if_neg h, if_pos h']
      simp only [reduceCtorEq, false_iff]
      omega
    · rw [if_neg h, if_neg h']
      simp only [true_iff]
      omega

namespace Decimal

theorem toU64_ceil {d : Decimal} (hd : d.negative = false) : d.ceil.toU64 =
    if d.mantissa ⌈/⌉ 10 ^ d.scale < 2 ^ 64 then
      some (UInt64.ofNat (d.mantissa ⌈/⌉ 10 ^ d.scale)) else none := by
  simp [ceil, toU64, hd]

theorem mul_eq_zero {x y : Decimal} (h : x.mantissa * y.mantissa = 0) :
    mul R x y = .ok (ofU64 0) :=
  if_pos (Nat.mul_eq_zero.mp h)

theorem mul_eq_panic {x y : Decimal} (hne : x.mantissa * y.mantissa ≠ 0)
    (h : R.fit (2 ^ 96) (x.mantissa * y.mantissa) (x.scale + y.scale)
      (min 28 (x.scale + y.scale)) = none) :
    mul R x y = .panic "Multiplication overflowed" := by
  rw [mul, if_neg (mt Nat.mul_eq_zero.mpr hne)]
  split
  · rfl
  · next h' => cases h.symm.trans h'

theorem mul_eq_ok {x y : Decimal} {t : Nat} (hne : x.mantissa * y.mantissa ≠ 0)
    (h : R.fit (2 ^ 96) (x.mantissa * y.mantissa) (x.scale + y.scale)
      (min 28 (x.scale + y.scale)) = some t) :
    ∃ d, mul R x y = .ok d ∧ d.negative = (x.negative != y.negative) ∧
      d.mantissa = R.round (x.mantissa * y.mantissa) (10 ^ (x.scale + y.scale - t)) ∧
      d.scale = t := by
  rw [mul, if_neg (mt Nat.mul_eq_zero.mpr hne)]
  split
  · next h' => cases h.symm.trans h'
  · next t' h' =>
      obtain rfl := Option.some.inj (h.symm.trans h')
      exact ⟨_, rfl, rfl, rfl, rfl⟩

end Decimal

/-- **The computation, over the natural numbers.**  The product is rounded at the places
that are kept, then up; without places to keep there is a panic. -/
theorem counterAmount_eq (hr : swapRate.IsNonneg) : counterAmount R value swapRate =
    (keptPlaces R value swapRate).elim (.panic "Multiplication overflowed")
      (fun t => asU64 value swapRate (rounded R value swapRate t ⌈/⌉ 10 ^ t)) := by
  have hfit : R.fit (2 ^ 96) ((Decimal.ofU64 value).mantissa * swapRate.mantissa)
      ((Decimal.ofU64 value).scale + swapRate.scale)
      (min 28 ((Decimal.ofU64 value).scale + swapRate.scale)) = keptPlaces R value swapRate := by
    simp only [Decimal.ofU64, keptPlaces, Nat.zero_add, Nat.min_eq_right swapRate.scale_le]
  by_cases hne : (Decimal.ofU64 value).mantissa * swapRate.mantissa = 0
  · have hzero : value.toNat * swapRate.mantissa = 0 := hne
    have hfull : value.toNat * swapRate.mantissa < 2 ^ 96 := by
      rw [hzero]
      decide
    rw [counterAmount, Decimal.mul_eq_zero hne, keptPlaces, Rounding.fit_full hfull,
      Option.elim_some, rounded, Nat.sub_self, Nat.pow_zero, Rounding.round_one, hzero]
    simp [Decimal.toU64_ceil, Decimal.ofU64, asU64]
  cases hk : keptPlaces R value swapRate with
  | none =>
      rw [counterAmount, Decimal.mul_eq_panic hne (hfit.trans hk), Outcome.bind_panic,
        Option.elim_none]
  | some t =>
      obtain ⟨d, hmul, hneg, hmantissa, hscale⟩ := Decimal.mul_eq_ok hne (hfit.trans hk)
      simp only [Decimal.ofU64, Nat.zero_add] at hneg hmantissa
      -- the rate may be a zero with a negative sign, but not here
      have hd : d.negative = false := by
        have hrate : swapRate.negative = false := by
          by_contra hrate
          exact hne (by rw [hr (by simpa using hrate), Nat.mul_zero])
        rw [hneg, hrate]
        rfl
      rw [counterAmount, hmul, Outcome.bind_ok, Decimal.toU64_ceil hd, hmantissa, hscale,
        ← rounded, Option.elim_some, asU64]
      by_cases hlt : rounded R value swapRate t ⌈/⌉ 10 ^ t < 2 ^ 64
      · rw [if_pos hlt, if_pos hlt]
      · rw [if_neg hlt, if_neg hlt]

/-! ## When it is the price -/

theorem rounded_cases {t : Nat} (hk : keptPlaces R value swapRate = some t) :
    let n := value.toNat * swapRate.mantissa
    (rounded R value swapRate t ⌈/⌉ 10 ^ t = price value swapRate ∧
      (10 ^ swapRate.scale ∣ n ∨
        rounded R value swapRate t ≠ n / 10 ^ swapRate.scale * 10 ^ t)) ∨
    (rounded R value swapRate t ⌈/⌉ 10 ^ t = n / 10 ^ swapRate.scale ∧
      price value swapRate = n / 10 ^ swapRate.scale + 1 ∧ ¬ 10 ^ swapRate.scale ∣ n ∧
      rounded R value swapRate t = n / 10 ^ swapRate.scale * 10 ^ t) := by
  intro n
  have hpos (k : Nat) : 0 < 10 ^ k := Nat.pow_pos (by decide)
  have hplaces : 10 ^ t * 10 ^ (swapRate.scale - t) = 10 ^ swapRate.scale := by
    rw [← Nat.pow_add, Nat.add_sub_cancel' (Rounding.fit_eq_some hk).1]
  have hcases := Rounding.ceilDiv_round_cases (R := R) (n := n) (hpos t) (hpos (swapRate.scale - t))
  rw [hplaces] at hcases
  exact hcases

/-- **When the counter amount is the price, rounded up.**  The product has to fit, and the
rounding of what is dropped must not bring a price that is no integer down to the one
below it.  If that one is not a `u64` either, the error is the same. -/
theorem counterAmount_exact_iff (R : Rounding) (value : UInt64) {swapRate : Decimal}
    (hr : swapRate.IsNonneg) : counterAmount R value swapRate = exactAmount value swapRate ↔
      ∃ t, keptPlaces R value swapRate = some t ∧
        (10 ^ swapRate.scale ∣ value.toNat * swapRate.mantissa ∨
          2 ^ 64 ≤ value.toNat * swapRate.mantissa / 10 ^ swapRate.scale ∨
          rounded R value swapRate t ≠
            value.toNat * swapRate.mantissa / 10 ^ swapRate.scale * 10 ^ t) := by
  rw [counterAmount_eq hr]
  cases hk : keptPlaces R value swapRate with
  | none =>
      simp only [Option.elim_none, exactAmount, asU64, reduceCtorEq, false_and, exists_false,
        iff_false]
      split <;> simp
  | some t =>
      simp only [Option.elim_some, Option.some.injEq, exists_eq_left', exactAmount, asU64_inj]
      rcases rounded_cases hk with ⟨hsame, hwhy⟩ | ⟨hlow, hprice, hdvd, hround⟩
      · rw [hsame]
        refine ⟨fun _ => ?_, fun _ => .inl rfl⟩
        exact hwhy.imp_right .inr
      · rw [hlow, hprice]
        simp only [hdvd, hround, ne_eq, not_true_eq_false, false_or, or_false]
        omega

/-- At a rate of 0.5 a TxOut of 11 is offered for 6. -/
theorem counterAmount_half :
    counterAmount .halfEven 11 ⟨false, 5, 1, by decide, by decide⟩ = .ok 6 :=
  (((counterAmount_exact_iff .halfEven 11 (by decide)).mpr ⟨1, by decide, by decide⟩).trans
    (by decide))

/-- Two tokens for one, and `10 ^ -28` more. -/
def sharpRate : Decimal := ⟨false, 20000000000000000000000000001, 28, by decide, by decide⟩

def vastRate : Decimal :=
  ⟨false, 79228162514264337593543950335, 0, by decide, Decimal.zero_scale_le⟩

/-- **One unit too little, and a panic.**  Four tokens at the sharp rate are worth a little
more than 8, so that 9 is to be asked; the product has 29 digits and does not fit, and the
one that is dropped is the one above 8.  Two tokens at the largest rate do not fit at all. -/
theorem counterAmount_too_low :
    counterAmount .halfEven 4 sharpRate = .ok 8 ∧ exactAmount 4 sharpRate = .ok 9 ∧
    counterAmount .halfEven 2 vastRate = .panic "Multiplication overflowed" ∧
    exactAmount 2 vastRate = .err (couldNotConvert 2 vastRate) := by
  decide

theorem counterAmount_ok {amount : UInt64} (hr : swapRate.IsNonneg)
    (h : counterAmount R value swapRate = .ok amount) :
    amount.toNat = price value swapRate ∨ amount.toNat + 1 = price value swapRate := by
  rw [counterAmount_eq hr] at h
  cases hk : keptPlaces R value swapRate with
  | none => simp [hk] at h
  | some t =>
      simp only [hk, Option.elim_some, asU64] at h
      split at h
      · next hlt =>
          rw [← Outcome.ok.inj h, UInt64.toNat_ofNat_of_lt' hlt]
          rcases rounded_cases hk with ⟨hsame, -⟩ | ⟨hlow, hprice, -, -⟩
          · exact .inl hsame
          · right
            rw [hlow, hprice]
      · cases h

theorem counterAmount_of_lt (hr : swapRate.IsNonneg)
    (h : value.toNat * swapRate.mantissa < 2 ^ 96) :
    counterAmount R value swapRate = exactAmount value swapRate := by
  rw [counterAmount_eq hr, keptPlaces, Rounding.fit_full h, Option.elim_some, rounded,
    Nat.sub_self, Nat.pow_zero, Rounding.round_one]
  rfl

end Deqs.Bot
