/-
# `OrdSet` — an ordered set, for comparators that may not be an order

An ordered set keeps its elements in the order of a comparator `cmp` and finds an
element's place by comparing.  Everything it promises rests on `cmp` being a total
order, and a comparator written by hand may not be one.  So the set is a list searched
from the left by `cmp`, and the laws are hypotheses of the theorems that need them:

    insert   stops at the first element not below the new one; refuses an equal one
    remove   stops at the first element not below the one sought

**Which sets this is.**  A `BTreeSet` searches a node from the left and descends where it
stops.  While it is one leaf, which is up to 11 elements, it does what the list does
whatever `cmp` is; where `cmp` is an order on the elements, it does so at every size.  A
larger set under an unlawful `cmp` may look in another place.

| holds for every `cmp` | needs `LawfulOn cmp S`, the elements being in `S` |
| :-- | :-- |
| `insert` adds exactly the new element (`insert_perm`) | the list stays sorted (`insert_sorted`) |
| it refuses an equal one only (`exists_eq_of_insert_none`) | it is found (`remove_of_mem`) |
| `remove` takes out one equal element (`remove_spec`) | contents determine it (`eq_of_perm`) |

`LawfulOn` speaks of a set `S` and not of the whole type because a comparator can be
an order on the elements a program really stores and nowhere else.
-/
import Mathlib.Data.List.Sort

namespace OrdSet

variable {α : Type} (cmp : α → α → Ordering)

/-- Insert `x` before the first element it is below.  `none` when an equal element is
met on the way: the set is then left alone. -/
def insert (x : α) : List α → Option (List α)
  | [] => some [x]
  | y :: ys =>
      match cmp x y with
      | .lt => some (x :: y :: ys)
      | .eq => none
      | .gt => (insert x ys).map (y :: ·)

/-- Remove the first element equal to `x`.  `none` when the search ends without one:
at the end of the list, or at an element `x` is below. -/
def remove (x : α) : List α → Option (List α)
  | [] => none
  | y :: ys =>
      match cmp x y with
      | .lt => none
      | .eq => some ys
      | .gt => (remove x ys).map (y :: ·)

def Sorted (l : List α) : Prop := l.Pairwise (fun a b => cmp a b = .lt)

/-- `cmp` is a total order on `S`, and equal only on equal elements. -/
structure LawfulOn (S : Set α) : Prop where
  swap : ∀ {a b}, a ∈ S → b ∈ S → cmp b a = (cmp a b).swap
  eq_of_eq : ∀ {a b}, a ∈ S → b ∈ S → cmp a b = .eq → a = b
  trans : ∀ {a b c}, a ∈ S → b ∈ S → c ∈ S → cmp a b = .lt → cmp b c = .lt → cmp a c = .lt

variable {cmp}

/-! ## What holds for every comparator -/

theorem insert_perm {x : α} : ∀ {l l' : List α}, insert cmp x l = some l' → l'.Perm (x :: l)
  | [], l', h => by
      simp only [insert, Option.some.injEq] at h
      subst h
      exact .refl _
  | y :: ys, l', h => by
      cases hc : cmp x y with
      | lt =>
          simp only [insert, hc, Option.some.injEq] at h
          subst h
          exact .refl _
      | eq => simp [insert, hc] at h
      | gt =>
          simp only [insert, hc, Option.map_eq_some_iff] at h
          obtain ⟨t, ht, rfl⟩ := h
          exact ((insert_perm ht).cons y).trans (.swap x y ys)

/-- A refusal names its reason: an element `cmp` finds equal. -/
theorem exists_eq_of_insert_none {x : α} :
    ∀ {l : List α}, insert cmp x l = none → ∃ y ∈ l, cmp x y = .eq
  | [], h => by simp [insert] at h
  | y :: ys, h => by
      cases hc : cmp x y with
      | lt => simp [insert, hc] at h
      | eq => exact ⟨y, List.mem_cons_self, hc⟩
      | gt =>
          simp only [insert, hc, Option.map_eq_none_iff] at h
          obtain ⟨z, hz, hxz⟩ := exists_eq_of_insert_none h
          exact ⟨z, List.mem_cons_of_mem _ hz, hxz⟩

/-- `remove` takes out one element where it stands, and `cmp` finds that element equal
to `x`. -/
theorem remove_split {x : α} : ∀ {l l' : List α}, remove cmp x l = some l' →
    ∃ before y after, cmp x y = .eq ∧ l = before ++ y :: after ∧ l' = before ++ after
  | [], l', h => by simp [remove] at h
  | y :: ys, l', h => by
      cases hc : cmp x y with
      | lt => simp [remove, hc] at h
      | eq =>
          simp only [remove, hc, Option.some.injEq] at h
          exact ⟨[], y, ys, hc, rfl, h.symm⟩
      | gt =>
          simp only [remove, hc, Option.map_eq_some_iff] at h
          obtain ⟨t, ht, rfl⟩ := h
          obtain ⟨before, z, after, hz, rfl, rfl⟩ := remove_split ht
          exact ⟨y :: before, z, after, hz, rfl, rfl⟩

theorem remove_spec {x : α} {l l' : List α} (h : remove cmp x l = some l') :
    ∃ y, cmp x y = .eq ∧ l.Perm (y :: l') := by
  obtain ⟨before, y, after, hy, rfl, rfl⟩ := remove_split h
  exact ⟨y, hy, List.perm_middle⟩

theorem remove_sublist {x : α} {l l' : List α} (h : remove cmp x l = some l') :
    l'.Sublist l := by
  obtain ⟨before, y, after, -, rfl, rfl⟩ := remove_split h
  exact (List.sublist_cons_self y after).append_left before

/-- **What is stored and not found**: the search stops before it comes to it. -/
theorem remove_eq_none_iff {x : α} : ∀ {l : List α}, l.Nodup → x ∈ l →
    (∀ y ∈ l, cmp x y = .eq ↔ y = x) →
      (remove cmp x l = none ↔
        ∃ before after, l = before ++ x :: after ∧ ∃ y ∈ before, cmp x y = .lt)
  | [], _, hx, _ => absurd hx List.not_mem_nil
  | y :: ys, hn, hx, hcmp => by
      obtain ⟨hy, hys⟩ := List.nodup_cons.mp hn
      by_cases hyx : y = x
      · subst hyx
        have heq : cmp y y = .eq := (hcmp y List.mem_cons_self).mpr rfl
        simp only [remove, heq, reduceCtorEq, false_iff]
        rintro ⟨before, after, hl, z, hz, -⟩
        cases before with
        | nil => cases hz
        | cons b before =>
            obtain ⟨rfl, rfl⟩ := List.cons.inj hl
            exact hy (List.mem_append_right _ List.mem_cons_self)
      · have hx : x ∈ ys := (List.mem_cons.mp hx).resolve_left (Ne.symm hyx)
        have hne : cmp x y ≠ .eq := fun h => hyx ((hcmp y List.mem_cons_self).mp h)
        have ih := remove_eq_none_iff hys hx fun z hz => hcmp z (List.mem_cons_of_mem _ hz)
        cases hc : cmp x y with
        | eq => exact absurd hc hne
        | lt =>
            obtain ⟨before, after, rfl⟩ := List.append_of_mem hx
            simp only [remove, hc, true_iff]
            exact ⟨y :: before, after, rfl, y, List.mem_cons_self, hc⟩
        | gt =>
            simp only [remove, hc, Option.map_eq_none_iff, ih]
            constructor
            · rintro ⟨before, after, rfl, z, hz, hlt⟩
              exact ⟨y :: before, after, rfl, z, List.mem_cons_of_mem _ hz, hlt⟩
            · rintro ⟨before, after, hl, z, hz, hlt⟩
              cases before with
              | nil => cases hz
              | cons b before =>
                  obtain ⟨rfl, rfl⟩ := List.cons.inj hl
                  rcases List.mem_cons.mp hz with rfl | hz
                  · rw [hc] at hlt
                    cases hlt
                  · exact ⟨before, after, rfl, z, hz, hlt⟩

/-! ## What a lawful comparator adds -/

variable {S : Set α}

theorem LawfulOn.self (h : LawfulOn cmp S) {a : α} (ha : a ∈ S) : cmp a a = .eq := by
  have hs := h.swap ha ha
  cases hc : cmp a a with
  | eq => rfl
  | lt => rw [hc] at hs; exact absurd hs (by decide)
  | gt => rw [hc] at hs; exact absurd hs (by decide)

theorem LawfulOn.gt_iff_lt (h : LawfulOn cmp S) {a b : α} (ha : a ∈ S) (hb : b ∈ S) :
    cmp a b = .gt ↔ cmp b a = .lt := by
  rw [h.swap ha hb]
  cases cmp a b <;> simp

theorem insert_sorted (hL : LawfulOn cmp S) {x : α} (hx : x ∈ S) :
    ∀ {l l' : List α}, (∀ y ∈ l, y ∈ S) → Sorted cmp l → insert cmp x l = some l' →
      Sorted cmp l'
  | [], l', _, _, h => by
      simp only [insert, Option.some.injEq] at h
      subst h
      exact List.pairwise_singleton _ _
  | y :: ys, l', hS, hs, h => by
      have hy : y ∈ S := hS y List.mem_cons_self
      obtain ⟨hlt, hrest⟩ := List.pairwise_cons.mp hs
      cases hc : cmp x y with
      | lt =>
          simp only [insert, hc, Option.some.injEq] at h
          subst h
          refine List.pairwise_cons.mpr ⟨?_, hs⟩
          intro z hz
          rcases List.mem_cons.mp hz with rfl | hz
          · exact hc
          · exact hL.trans hx hy (hS z (List.mem_cons_of_mem _ hz)) hc (hlt z hz)
      | eq => simp [insert, hc] at h
      | gt =>
          simp only [insert, hc, Option.map_eq_some_iff] at h
          obtain ⟨t, ht, rfl⟩ := h
          have hSt : ∀ z ∈ ys, z ∈ S := fun z hz => hS z (List.mem_cons_of_mem _ hz)
          refine List.pairwise_cons.mpr ⟨?_, insert_sorted hL hx hSt hrest ht⟩
          intro z hz
          rcases List.mem_cons.mp ((insert_perm ht).mem_iff.mp hz) with rfl | hz
          · exact (hL.gt_iff_lt hx hy).mp hc
          · exact hlt z hz

theorem remove_of_mem (hL : LawfulOn cmp S) {x : α} :
    ∀ {l : List α}, (∀ y ∈ l, y ∈ S) → Sorted cmp l → x ∈ l →
      ∃ l', remove cmp x l = some l' ∧ l.Perm (x :: l')
  | [], _, _, h => absurd h List.not_mem_nil
  | y :: ys, hS, hs, h => by
      have hy : y ∈ S := hS y List.mem_cons_self
      have hx : x ∈ S := hS x h
      obtain ⟨hlt, hrest⟩ := List.pairwise_cons.mp hs
      rcases List.mem_cons.mp h with rfl | h
      · exact ⟨ys, by simp [remove, hL.self hx], .refl _⟩
      · -- `y` stands before `x`, so the search goes past it
        have hc : cmp x y = .gt := (hL.gt_iff_lt hx hy).mpr (hlt x h)
        obtain ⟨t, ht, hp⟩ :=
          remove_of_mem hL (fun z hz => hS z (List.mem_cons_of_mem _ hz)) hrest h
        exact ⟨y :: t, by simp [remove, hc, ht], (hp.cons y).trans (.swap x y t)⟩

theorem eq_of_perm (hL : LawfulOn cmp S) {l l' : List α} (hS : ∀ y ∈ l, y ∈ S)
    (hl : Sorted cmp l) (hl' : Sorted cmp l') (hp : l.Perm l') : l = l' := by
  refine hp.eq_of_pairwise ?_ hl hl'
  intro a b ha hb hab hba
  have hb' : b ∈ S := hS b (hp.mem_iff.mpr hb)
  rw [hL.swap (hS a ha) hb', hab] at hba
  exact absurd hba (by decide)

/-! ## Sorting -/

/-- Insertion sort under `cmp`: the plain way to put a list in order. -/
def sort (cmp : α → α → Ordering) (l : List α) : List α :=
  l.insertionSort (fun a b => cmp a b ≠ .gt)

theorem sort_perm (l : List α) : (sort cmp l).Perm l :=
  List.perm_insertionSort _ l

/-- One insertion of the sort.  Equal elements are excluded: the lists sorted here
hold each element once. -/
theorem orderedInsert_sorted (hL : LawfulOn cmp S) {x : α} (hx : x ∈ S) :
    ∀ {l : List α}, (∀ y ∈ l, y ∈ S) → x ∉ l → Sorted cmp l →
      Sorted cmp (l.orderedInsert (fun a b => cmp a b ≠ .gt) x)
  | [], _, _, _ => by
      rw [List.orderedInsert_nil]
      exact List.pairwise_singleton _ _
  | y :: ys, hS, hn, hs => by
      have hy : y ∈ S := hS y List.mem_cons_self
      have hSt : ∀ z ∈ ys, z ∈ S := fun z hz => hS z (List.mem_cons_of_mem _ hz)
      obtain ⟨hlt, hrest⟩ := List.pairwise_cons.mp hs
      rw [List.orderedInsert_cons]
      cases hc : cmp x y with
      | eq => exact absurd (hL.eq_of_eq hx hy hc ▸ List.mem_cons_self) hn
      | lt =>
          refine List.pairwise_cons.mpr ⟨?_, hs⟩
          intro z hz
          rcases List.mem_cons.mp hz with rfl | hz
          · exact hc
          · exact hL.trans hx hy (hSt z hz) hc (hlt z hz)
      | gt =>
          rw [if_neg (by simp)]
          refine List.pairwise_cons.mpr
            ⟨?_, orderedInsert_sorted hL hx hSt (fun h => hn (List.mem_cons_of_mem _ h)) hrest⟩
          intro z hz
          rcases (List.mem_orderedInsert _).mp hz with rfl | hz
          · exact (hL.gt_iff_lt hx hy).mp hc
          · exact hlt z hz

theorem sort_sorted (hL : LawfulOn cmp S) :
    ∀ {l : List α}, (∀ y ∈ l, y ∈ S) → l.Nodup → Sorted cmp (sort cmp l)
  | [], _, _ => List.Pairwise.nil
  | x :: xs, hS, hn => by
      obtain ⟨hx, hxs⟩ := List.nodup_cons.mp hn
      have hSt : ∀ z ∈ xs, z ∈ S := fun z hz => hS z (List.mem_cons_of_mem _ hz)
      refine orderedInsert_sorted hL (hS x List.mem_cons_self) ?_ ?_ (sort_sorted hL hSt hxs)
      · exact fun z hz => hSt z ((sort_perm xs).mem_iff.mp hz)
      · exact fun h => hx ((sort_perm xs).mem_iff.mp h)

/-- **A sorted list is the sort of any list with its elements.** -/
theorem eq_sort_of_perm (hL : LawfulOn cmp S) {l l' : List α} (hS : ∀ y ∈ l, y ∈ S)
    (hs : Sorted cmp l) (hn : l.Nodup) (hp : l.Perm l') : l = sort cmp l' := by
  refine eq_of_perm hL hS hs ?_ (hp.trans (sort_perm l').symm)
  exact sort_sorted hL (fun y hy => hS y (hp.mem_iff.mpr hy)) (hp.nodup_iff.mp hn)

theorem Sorted.nodup (hL : LawfulOn cmp S) {l : List α} (hS : ∀ y ∈ l, y ∈ S)
    (hs : Sorted cmp l) : l.Nodup := by
  induction l with
  | nil => exact List.nodup_nil
  | cons x xs ih =>
      obtain ⟨hlt, hrest⟩ := List.pairwise_cons.mp hs
      refine List.nodup_cons.mpr ⟨?_, ih (fun z hz => hS z (List.mem_cons_of_mem _ hz)) hrest⟩
      intro hx
      have h := hlt x hx
      rw [hL.self (hS x List.mem_cons_self)] at h
      exact absurd h (by decide)

theorem lawfulOn_compare [Ord α] [Std.TransOrd α] [Std.LawfulEqOrd α] :
    LawfulOn (compare : α → α → Ordering) Set.univ where
  swap _ _ := Std.OrientedCmp.eq_swap
  eq_of_eq _ _ h := Std.LawfulEqCmp.eq_of_compare h
  trans _ _ _ h h' := Std.TransCmp.lt_trans h h'

/-! ## Collecting a list -/

/-- `from_iter`: insert the elements one after the other; what is there already is dropped. -/
def ofList (cmp : α → α → Ordering) (xs : List α) : List α :=
  xs.foldl (fun set x => (insert cmp x set).getD set) []

theorem insert_getD_spec (hL : LawfulOn cmp Set.univ) (x : α) {set : List α}
    (hs : Sorted cmp set) :
    Sorted cmp ((insert cmp x set).getD set) ∧
      ∀ y, y ∈ (insert cmp x set).getD set ↔ y = x ∨ y ∈ set := by
  cases h : insert cmp x set with
  | none =>
      obtain ⟨z, hz, hc⟩ := exists_eq_of_insert_none h
      obtain rfl := hL.eq_of_eq (Set.mem_univ x) (Set.mem_univ z) hc
      refine ⟨hs, fun y => ⟨.inr, ?_⟩⟩
      rintro (rfl | hy)
      · exact hz
      · exact hy
  | some set' =>
      refine ⟨insert_sorted hL (Set.mem_univ x) (fun _ _ => Set.mem_univ _) hs h, ?_⟩
      intro y
      rw [Option.getD_some, (insert_perm h).mem_iff, List.mem_cons]

theorem foldl_insert_spec (hL : LawfulOn cmp Set.univ) : ∀ (xs : List α) {set : List α},
    Sorted cmp set →
    Sorted cmp (xs.foldl (fun set x => (insert cmp x set).getD set) set) ∧
      ∀ y, y ∈ xs.foldl (fun set x => (insert cmp x set).getD set) set ↔ y ∈ xs ∨ y ∈ set
  | [], set, hs => ⟨hs, fun y => by simp⟩
  | x :: xs, set, hs => by
      obtain ⟨hs', hmem⟩ := insert_getD_spec hL x hs
      obtain ⟨hsorted, hall⟩ := foldl_insert_spec hL xs hs'
      refine ⟨hsorted, fun y => ?_⟩
      rw [List.foldl_cons, hall, hmem, List.mem_cons]
      exact or_left_comm.trans or_assoc.symm

theorem mem_ofList (hL : LawfulOn cmp Set.univ) {xs : List α} {x : α} :
    x ∈ ofList cmp xs ↔ x ∈ xs := by
  rw [ofList, (foldl_insert_spec hL xs List.Pairwise.nil).2 x]
  simp

theorem nodup_ofList (hL : LawfulOn cmp Set.univ) (xs : List α) : (ofList cmp xs).Nodup :=
  Sorted.nodup hL (fun _ _ => Set.mem_univ _) (foldl_insert_spec hL xs List.Pairwise.nil).1

end OrdSet
