/-
# `Lists` — lists by position and by key

Programs index into a vector, overwrite a slot, push at the end, and look entries up by a key
that is meant to be unique.  What is said of "every entry, at its position" then has to be
carried over from the list to the changed one:

| the program | the list | the rule |
| :-- | :-- | :-- |
| overwrites a slot | `l.set i x` | `forall_set` |
| pushes at the end | `l ++ [x]` | `forall_concat` |
| reads one entry more | `l.take (n + 1)` | `take_succ_filterMap` |
| converts each entry, or fails | `l.mapM f` | `getElem?_of_mapM_ok` |

and a search by a unique key is a search for the one entry that has it
(`find?_eq_some_of_unique`, `eraseIdx_findIdx?`).
-/
import Mathlib.Algebra.Order.Ring.Nat
import Mathlib.Data.List.Nodup
import Mathlib.Tactic.Common

namespace Lists

variable {α β : Type}

/-! ## By position -/

theorem forall_set {P : Nat → α → Prop} {l : List α} {i : Nat} {x : α}
    (h : ∀ (j : Nat) a, l[j]? = some a → P j a) (hx : P i x) :
    ∀ (j : Nat) a, (l.set i x)[j]? = some a → P j a := by
  intro j a ha
  rw [List.getElem?_set] at ha
  split at ha
  · next hij =>
      subst hij
      split at ha
      · exact Option.some.inj ha ▸ hx
      · cases ha
  · exact h j a ha

theorem forall_concat {P : Nat → α → Prop} {l : List α} {x : α}
    (h : ∀ (i : Nat) a, l[i]? = some a → P i a) (hx : P l.length x) :
    ∀ (i : Nat) a, (l ++ [x])[i]? = some a → P i a := by
  intro i a ha
  rcases Nat.lt_trichotomy i l.length with hlt | rfl | hgt
  · rw [List.getElem?_append_left hlt] at ha
    exact h i a ha
  · rw [List.getElem?_concat_length] at ha
    exact Option.some.inj ha ▸ hx
  · rw [List.getElem?_eq_none (by simp; omega)] at ha
    cases ha

theorem getElem?_of_mapM_ok {ε : Type} {f : α → Except ε β} :
    ∀ {xs : List α} {ys : List β}, xs.mapM f = .ok ys → ∀ {i : Nat} {y : β}, ys[i]? = some y →
      ∃ x, xs[i]? = some x ∧ f x = .ok y
  | [], ys, h, i, y, hy => by
      obtain rfl : ys = [] := (Except.ok.inj h).symm
      cases hy
  | x :: xs, ys, h, i, y, hy => by
      simp only [List.mapM_cons, bind, Except.bind] at h
      split at h
      · cases h
      · next y' hx =>
          split at h
          · cases h
          · next ys' hxs =>
              obtain rfl : ys = y' :: ys' := (Except.ok.inj h).symm
              cases i with
              | zero => exact ⟨x, rfl, by rw [hx]; exact congrArg _ (Option.some.inj hy)⟩
              | succ i => exact getElem?_of_mapM_ok hxs hy

theorem sum_set_lt {x y : Nat} (hlt : y < x) : ∀ {l : List Nat} {i : Nat}, l[i]? = some x →
    (l.set i y).sum < l.sum
  | z :: l, 0, h => by
      obtain rfl := Option.some.inj h
      rw [List.set_cons_zero, List.sum_cons, List.sum_cons]
      exact Nat.add_lt_add_right hlt _
  | z :: l, i + 1, h => by
      rw [List.set_cons_succ, List.sum_cons, List.sum_cons]
      exact Nat.add_lt_add_left (sum_set_lt hlt (List.getElem?_cons_succ ▸ h)) _

/-! ## One entry after the other -/

theorem toList_append_filterMap (f : α → Option β) (a : α) (as : List α) :
    (f a).toList ++ as.filterMap f = (a :: as).filterMap f := by
  cases hf : f a with
  | none => rw [List.filterMap_cons_none hf]; rfl
  | some b => rw [List.filterMap_cons_some hf]; rfl

theorem take_succ_filterMap {l : List α} {n : Nat} {x : α} (h : l[n]? = some x)
    (f : α → Option β) :
    (l.take (n + 1)).filterMap f = (l.take n).filterMap f ++ (f x).toList := by
  rw [List.take_add_one, h, Option.toList_some, List.filterMap_append,
    ← toList_append_filterMap, List.filterMap_nil, List.append_nil]

theorem find?_eq_some_of_unique {l : List α} {p : α → Bool} {a : α} (ha : a ∈ l)
    (hp : p a = true) (hu : ∀ b ∈ l, p b = true → b = a) : l.find? p = some a := by
  cases hf : l.find? p with
  | none => exact absurd hp (List.find?_eq_none.mp hf a ha)
  | some b => rw [hu b (List.mem_of_find?_eq_some hf) (List.find?_some hf)]

/-- Taking off the first entry with a key is taking off every such entry, where keys are
distinct. -/
theorem eraseIdx_findIdx? {κ : Type} [DecidableEq κ] {key : α → κ} {k : κ} :
    ∀ {xs : List α} {i : Nat}, (xs.map key).Nodup → xs.findIdx? (fun x => key x = k) = some i →
      xs.eraseIdx i = xs.filter (fun x => key x ≠ k)
  | [], i, _, h => by simp at h
  | x :: xs, i, hn, h => by
      obtain ⟨hx, hxs⟩ := List.nodup_cons.mp hn
      by_cases hk : key x = k
      · have hrest : xs.filter (fun y => key y ≠ k) = xs := by
          refine List.filter_eq_self.mpr fun y hy => ?_
          have hne : key y ≠ k := by
            rintro rfl
            exact hx (hk ▸ List.mem_map_of_mem hy)
          simpa using hne
        simp only [List.findIdx?_cons, hk, decide_true, if_true, Option.some.injEq] at h
        subst h
        rw [List.filter_cons_of_neg (by simp [hk]), hrest, List.eraseIdx_cons_zero]
      · simp only [List.findIdx?_cons, hk, decide_false, Bool.false_eq_true, if_false,
          Option.map_eq_some_iff] at h
        obtain ⟨j, hj, rfl⟩ := h
        simp [hk, eraseIdx_findIdx? hxs hj]

end Lists
