/-
# `range_overlaps` against what an overlap is

`get_quotes` takes any `RangeBounds<u64>` and returns the quotes whose base range overlaps
it.  The test normalises both ranges to closed ones, by saturating arithmetic, and makes two
comparisons:

    x1 <= y2 && y1 <= x2

That is the right test for two closed ranges with something in them.  It says nothing about
`x1 <= x2`, so a range that is empty passes for one that is not, whenever the other range
reaches around its two ends; and both kinds of empty range get here: a client sends
`base_range_min > base_range_max`, and a quote's minimum is above what it offers.  The
saturation adds two more, `MAX<..` and `..0`.

**The result** (`rangeOverlaps_exact_iff`): the test is right exactly when both ranges have an
amount in them, or it says no.
-/
import Deqs.Book.InMemory
import Deqs.Quote.Cost

namespace Deqs

/-! ## What lies in a range -/

namespace Bound

def admitsAsStart : Bound → UInt64 → Prop
  | .included v, a => v ≤ a
  | .excluded v, a => v < a
  | .unbounded, _ => True

def admitsAsEnd : Bound → UInt64 → Prop
  | .included v, a => a ≤ v
  | .excluded v, a => a < v
  | .unbounded, _ => True

def isPastAll (b : Bound) : Prop := b = .excluded (UInt64.ofNat (2 ^ 64 - 1))

def isBeforeAll (b : Bound) : Prop := b = .excluded 0

theorem admitsAsStart_iff (b : Bound) (a : UInt64) :
    b.admitsAsStart a ↔ ¬ b.isPastAll ∧ b.first ≤ a := by
  have ha := a.toNat_lt
  cases b with
  | included v => simp [admitsAsStart, isPastAll, first]
  | unbounded => simp [admitsAsStart, isPastAll, first]
  | excluded v =>
      have hv := v.toNat_lt
      have hmax : (UInt64.ofNat (2 ^ 64 - 1)).toNat = 2 ^ 64 - 1 := rfl
      simp only [admitsAsStart, isPastAll, first, Bound.excluded.injEq]
      by_cases h : v = UInt64.ofNat (2 ^ 64 - 1)
      · -- the saturated bound admits `MAX`, which the range does not hold
        simp only [h, not_true_eq_false, false_and, iff_false, UInt64.lt_iff_toNat_lt, hmax]
        omega
      · have hne : v.toNat ≠ 2 ^ 64 - 1 := fun heq => h (UInt64.toNat_inj.mp (heq.trans hmax.symm))
        rw [if_neg h, UInt64.lt_iff_toNat_lt, UInt64.le_iff_toNat_le, UInt64.toNat_add,
          UInt64.toNat_one, Nat.mod_eq_of_lt (by omega)]
        exact ⟨fun hlt => ⟨h, hlt⟩, fun hle => hle.2⟩

theorem admitsAsEnd_iff (b : Bound) (a : UInt64) :
    b.admitsAsEnd a ↔ ¬ b.isBeforeAll ∧ a ≤ b.last := by
  have ha := a.toNat_lt
  cases b with
  | included v => simp [admitsAsEnd, isBeforeAll, last]
  | unbounded =>
      have hmax : (UInt64.ofNat (2 ^ 64 - 1)).toNat = 2 ^ 64 - 1 := rfl
      simp only [admitsAsEnd, isBeforeAll, last, reduceCtorEq, not_false_eq_true, true_and,
        UInt64.le_iff_toNat_le, hmax, true_iff]
      omega
  | excluded v =>
      simp only [admitsAsEnd, isBeforeAll, last, Bound.excluded.injEq]
      by_cases h : v = 0
      · simp [h]
      · have hne : v.toNat ≠ 0 := fun heq => h (UInt64.toNat_inj.mp heq)
        have hone : (1 : UInt64) ≤ v := by
          rw [UInt64.le_iff_toNat_le, UInt64.toNat_one]
          omega
        rw [if_neg h, UInt64.lt_iff_toNat_lt, UInt64.le_iff_toNat_le,
          UInt64.toNat_sub_of_le _ _ hone, UInt64.toNat_one]
        refine ⟨fun hlt => ⟨h, by omega⟩, fun hle => by omega⟩

end Bound

namespace RangeBounds

def contains (r : RangeBounds) (a : UInt64) : Prop :=
  r.startBound.admitsAsStart a ∧ r.endBound.admitsAsEnd a

/-- The range has its two ends in order, and neither lies outside `u64`. -/
def isInhabited (r : RangeBounds) : Prop :=
  ¬ r.startBound.isPastAll ∧ ¬ r.endBound.isBeforeAll ∧ r.startBound.first ≤ r.endBound.last

theorem contains_iff (r : RangeBounds) (a : UInt64) :
    r.contains a ↔ (¬ r.startBound.isPastAll ∧ ¬ r.endBound.isBeforeAll) ∧
      r.startBound.first ≤ a ∧ a ≤ r.endBound.last := by
  rw [contains, Bound.admitsAsStart_iff, Bound.admitsAsEnd_iff]
  tauto

theorem isInhabited_iff (r : RangeBounds) : r.isInhabited ↔ ∃ a, r.contains a := by
  constructor
  · rintro ⟨hs, he, hle⟩
    exact ⟨_, (r.contains_iff _).mpr ⟨⟨hs, he⟩, UInt64.le_refl _, hle⟩⟩
  · rintro ⟨a, ha⟩
    obtain ⟨⟨hs, he⟩, hfirst, hlast⟩ := (r.contains_iff a).mp ha
    exact ⟨hs, he, UInt64.le_trans hfirst hlast⟩

end RangeBounds

/-! ## The test -/

theorem exists_between {x₁ x₂ y₁ y₂ : UInt64} (hx : x₁ ≤ x₂) (hy : y₁ ≤ y₂) (hxy : x₁ ≤ y₂)
    (hyx : y₁ ≤ x₂) : ∃ a, (x₁ ≤ a ∧ a ≤ x₂) ∧ y₁ ≤ a ∧ a ≤ y₂ := by
  -- the later of the two starts
  rcases UInt64.le_total x₁ y₁ with h | h
  · exact ⟨y₁, ⟨h, hyx⟩, UInt64.le_refl _, hy⟩
  · exact ⟨x₁, ⟨UInt64.le_refl _, hx⟩, h, hxy⟩

theorem rangeOverlaps_eq_true {x y : RangeBounds} :
    rangeOverlaps x y = true ↔
      x.startBound.first ≤ y.endBound.last ∧ y.startBound.first ≤ x.endBound.last := by
  simp [rangeOverlaps]

theorem rangeOverlaps_of_common {x y : RangeBounds} {a : UInt64} (hx : x.contains a)
    (hy : y.contains a) : rangeOverlaps x y = true := by
  obtain ⟨-, hx₁, hx₂⟩ := (x.contains_iff a).mp hx
  obtain ⟨-, hy₁, hy₂⟩ := (y.contains_iff a).mp hy
  exact rangeOverlaps_eq_true.mpr ⟨UInt64.le_trans hx₁ hy₂, UInt64.le_trans hy₁ hx₂⟩

/-- Between ranges with something in them, nothing else is. -/
theorem common_of_rangeOverlaps {x y : RangeBounds} (hx : x.isInhabited) (hy : y.isInhabited)
    (h : rangeOverlaps x y = true) : ∃ a, x.contains a ∧ y.contains a := by
  obtain ⟨hxy, hyx⟩ := rangeOverlaps_eq_true.mp h
  obtain ⟨a, hax, hay⟩ := exists_between hx.2.2 hy.2.2 hxy hyx
  exact ⟨a, (x.contains_iff a).mpr ⟨⟨hx.1, hx.2.1⟩, hax⟩,
    (y.contains_iff a).mpr ⟨⟨hy.1, hy.2.1⟩, hay⟩⟩

/-- **The filter of `get_quotes` is right exactly when the range asked for and the range of the
quote have an amount each, or one of its two comparisons fails.** -/
theorem rangeOverlaps_exact_iff (r : RangeBounds) (q : Quote) :
    (rangeOverlaps r q.baseRange.bounds = true ↔
      ∃ a, r.contains a ∧ q.baseRange.contains a) ↔
    (r.isInhabited ∧ q.baseRange.start ≤ q.baseRange.stop) ∨
      ¬ r.startBound.first ≤ q.baseRange.stop ∨ ¬ q.baseRange.start ≤ r.endBound.last := by
  have hquote : q.baseRange.bounds.isInhabited ↔ q.baseRange.start ≤ q.baseRange.stop := by
    simp [RangeBounds.isInhabited, RangeInclusive.bounds, Bound.isPastAll, Bound.isBeforeAll,
      Bound.first, Bound.last]
  have htest : rangeOverlaps r q.baseRange.bounds = true ↔
      r.startBound.first ≤ q.baseRange.stop ∧ q.baseRange.start ≤ r.endBound.last :=
    rangeOverlaps_eq_true
  constructor
  · intro h
    by_cases hyes : rangeOverlaps r q.baseRange.bounds = true
    · obtain ⟨a, har, haq⟩ := h.mp hyes
      exact .inl ⟨r.isInhabited_iff.mpr ⟨a, har⟩, UInt64.le_trans haq.1 haq.2⟩
    · exact .inr (not_and_or.mp (htest.not.mp hyes))
  · rintro (⟨hr, hq⟩ | hno)
    · refine ⟨common_of_rangeOverlaps hr (hquote.mpr hq), ?_⟩
      rintro ⟨a, har, haq⟩
      exact rangeOverlaps_of_common har haq
    · refine iff_of_false (htest.not.mpr (not_and_or.mpr hno)) ?_
      rintro ⟨a, har, haq⟩
      exact not_and_or.mpr hno (htest.mp (rangeOverlaps_of_common har haq))

/-- A client that asks for `5..=3` is shown a quote of `2..=6`. -/
theorem rangeOverlaps_of_nothing : ∃ q book, q.Made sampleFillCore ∧
    (InMemoryQuoteBook.default.addQuote q).2 = book ∧
    book.getQuotes ⟨1, 2⟩ (RangeInclusive.bounds ⟨5, 3⟩) 0 = .ok [q] ∧
    rangeOverlaps (RangeInclusive.bounds ⟨5, 3⟩) q.baseRange.bounds = true ∧
    ¬ ∃ a, (RangeInclusive.bounds ⟨5, 3⟩).contains a ∧ q.baseRange.contains a := by
  refine ⟨sampleFillQuote 1 6 none 20 2 7, _, ⟨none, sampleFill 1 6 none 20 2, some 7, rfl⟩, rfl,
    rfl, rfl, ?_⟩
  rintro ⟨a, ha, -⟩
  exact absurd (UInt64.le_trans ha.1 ha.2) (by decide)

end Deqs
