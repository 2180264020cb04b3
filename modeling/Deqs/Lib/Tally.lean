/-
# `Tally` — adding up by key

    for x in xs { *map.entry(key(x)).or_default() += weight(x); }
    for k in ks { map.entry(k).or_default(); }

The first loop adds up the weights of each key, the second makes sure that some keys have
an entry.  Which entries there are and what they hold are two lemmas for each loop:

    isSome_tally, isSome_ensure      the keys met, and those that were there
    getD_tally, getD_ensure          what was there, plus the weights of the key

and `get?_ensure_tally` puts them together for the two loops one after the other.  The
weights are of any additive monoid, so addition may wrap around.
-/
import Mathlib.Algebra.BigOperators.Group.List.Basic
import Deqs.Lib.AssocMap

namespace AssocMap

variable {κ ν α : Type} [DecidableEq κ]

/-- `*map.entry(k).or_default() += v`. -/
def addTo [Add ν] [Zero ν] (m : AssocMap κ ν) (k : κ) (v : ν) : AssocMap κ ν :=
  m.set k ((m.get? k).getD 0 + v)

def tally [Add ν] [Zero ν] (key : α → κ) (weight : α → ν) (xs : List α) (m : AssocMap κ ν) :
    AssocMap κ ν :=
  xs.foldl (fun m x => m.addTo (key x) (weight x)) m

def ensure [Zero ν] (ks : List κ) (m : AssocMap κ ν) : AssocMap κ ν :=
  ks.foldl (fun m k => m.orInsert k 0) m

theorem get?_addTo [Add ν] [Zero ν] (m : AssocMap κ ν) (k k' : κ) (v : ν) :
    (m.addTo k v).get? k' = if k = k' then some ((m.get? k').getD 0 + v) else m.get? k' := by
  by_cases h : k = k' <;> simp [addTo, h]

theorem get?_orInsert_zero [Zero ν] (m : AssocMap κ ν) (k k' : κ) :
    (m.orInsert k 0).get? k' = if k = k' then some ((m.get? k').getD 0) else m.get? k' := by
  cases hk : m.get? k with
  | none =>
      simp only [orInsert, hk, get?_set]
      split
      · next h => rw [← h, hk, Option.getD_none]
      · rfl
  | some v =>
      simp only [orInsert, hk]
      split
      · next h => rw [← h, hk, Option.getD_some]
      · rfl

/-! ## Which entries there are -/

theorem isSome_tally [Add ν] [Zero ν] {key : α → κ} {weight : α → ν} {k : κ} (xs : List α)
    (m : AssocMap κ ν) :
    ((tally key weight xs m).get? k).isSome ↔ k ∈ xs.map key ∨ (m.get? k).isSome := by
  induction xs generalizing m with
  | nil => simp [tally]
  | cons x xs ih =>
      rw [tally, List.foldl_cons, ← tally, ih, get?_addTo]
      by_cases h : key x = k
      · simp [h]
      · simp [h, Ne.symm h]

theorem isSome_ensure [Zero ν] {k : κ} (ks : List κ) (m : AssocMap κ ν) :
    ((ensure ks m).get? k).isSome ↔ k ∈ ks ∨ (m.get? k).isSome := by
  induction ks generalizing m with
  | nil => simp [ensure]
  | cons k₀ ks ih =>
      rw [ensure, List.foldl_cons, ← ensure, ih, get?_orInsert_zero]
      by_cases h : k₀ = k
      · simp [h]
      · simp [h, Ne.symm h]

/-! ## What they hold -/

theorem getD_tally [AddMonoid ν] {key : α → κ} {weight : α → ν} {k : κ} (xs : List α)
    (m : AssocMap κ ν) :
    ((tally key weight xs m).get? k).getD 0 =
      (m.get? k).getD 0 + ((xs.filter (fun x => key x = k)).map weight).sum := by
  induction xs generalizing m with
  | nil => simp [tally]
  | cons x xs ih =>
      rw [tally, List.foldl_cons, ← tally, ih, get?_addTo]
      by_cases h : key x = k
      · simp [h, add_assoc]
      · simp [h]

theorem getD_ensure [Zero ν] {k : κ} (ks : List κ) (m : AssocMap κ ν) :
    ((ensure ks m).get? k).getD 0 = (m.get? k).getD 0 := by
  induction ks generalizing m with
  | nil => rfl
  | cons k₀ ks ih =>
      rw [ensure, List.foldl_cons, ← ensure, ih, get?_orInsert_zero]
      split <;> simp

/-- **The two loops on an empty map.**  There is an entry for exactly the keys of either
loop, and it holds the sum of the weights of its key. -/
theorem get?_ensure_tally [AddMonoid ν] (key : α → κ) (weight : α → ν) (xs : List α) (ks : List κ)
    (k : κ) : (ensure ks (tally key weight xs empty)).get? k =
      if k ∈ ks ∨ k ∈ xs.map key then some ((xs.filter (fun x => key x = k)).map weight).sum
      else none := by
  have hempty : (empty : AssocMap κ ν).get? k = none := rfl
  have hsome : ((ensure ks (tally key weight xs empty)).get? k).isSome ↔
      k ∈ ks ∨ k ∈ xs.map key := by
    rw [isSome_ensure, isSome_tally, hempty]
    simp
  have hval : ((ensure ks (tally key weight xs empty)).get? k).getD 0 =
      ((xs.filter (fun x => key x = k)).map weight).sum := by
    rw [getD_ensure, getD_tally, hempty, Option.getD_none, zero_add]
  cases hk : (ensure ks (tally key weight xs empty)).get? k with
  | none =>
      rw [hk] at hsome
      rw [if_neg (fun h => absurd (hsome.mpr h) (by simp))]
  | some v =>
      rw [hk] at hsome hval
      rw [if_pos (hsome.mp rfl), ← hval, Option.getD_some]

end AssocMap
