/-
# `AssocMap` — a map whose iteration order means nothing

A hash map promises distinct keys and nothing about the order it is walked in.  The
model is a list of entries with distinct keys, the distinctness carried as a field, so
a map with two entries for one key cannot be built.  The order of the list stands for
the order an iteration happens to take; `Reorder` relates two maps that differ only in
it, and a client that must not depend on the order is shown to give the same answers
on reordered maps.

Every update is a `set`: `updateFirst`, which walks the values until one accepts a
change, is proved to be a `set` at the entry it stopped at (`updateFirst_some`).  When
the values are lists, the map's contents are `m.values.flatten`, and `flatten_frame`
says that a `set` touches one group of it and leaves the rest alone.
-/
import Mathlib.Data.List.Nodup
import Mathlib.Data.List.Flatten
import Mathlib.Tactic.Common

/-- A finite map: entries with distinct keys, in some order. -/
structure AssocMap (κ ν : Type) where
  entries : List (κ × ν)
  nodup : (entries.map Prod.fst).Nodup
deriving DecidableEq

namespace AssocMap

variable {κ ν β : Type}

def empty : AssocMap κ ν := ⟨[], List.nodup_nil⟩

def values (m : AssocMap κ ν) : List ν := m.entries.map Prod.snd

def mapValues (f : ν → ν) (m : AssocMap κ ν) : AssocMap κ ν :=
  ⟨m.entries.map (fun e => (e.1, f e.2)), by simpa [Function.comp_def] using m.nodup⟩

/-- The same entries, walked in another order. -/
def Reorder (m m' : AssocMap κ ν) : Prop := m.entries.Perm m'.entries

section Lookup

variable [DecidableEq κ]

def lookup (k : κ) : List (κ × ν) → Option ν
  | [] => none
  | (k', v) :: es => if k' = k then some v else lookup k es

/-- Write a key into a list of entries, at its place or at the end. -/
def write (k : κ) (v : ν) : List (κ × ν) → List (κ × ν)
  | [] => [(k, v)]
  | (k', v') :: es => if k' = k then (k, v) :: es else (k', v') :: write k v es

def get? (m : AssocMap κ ν) (k : κ) : Option ν := lookup k m.entries

theorem mem_keys_write {k k' : κ} {v : ν} :
    ∀ {es : List (κ × ν)}, k' ∈ (write k v es).map Prod.fst ↔ k' = k ∨ k' ∈ es.map Prod.fst
  | [] => by simp [write]
  | (k₀, v₀) :: es => by
      by_cases h : k₀ = k
      · simp [write, h]
      · simp only [write, if_neg h, List.map_cons, List.mem_cons, mem_keys_write]
        exact or_left_comm

theorem nodup_write {k : κ} {v : ν} :
    ∀ {es : List (κ × ν)}, (es.map Prod.fst).Nodup → ((write k v es).map Prod.fst).Nodup
  | [], _ => by simp [write]
  | (k₀, v₀) :: es, hn => by
      obtain ⟨h₀, hes⟩ := List.nodup_cons.mp hn
      by_cases h : k₀ = k
      · subst h
        simpa [write] using hn
      · simp only [write, if_neg h, List.map_cons]
        refine List.nodup_cons.mpr ⟨?_, nodup_write hes⟩
        rw [mem_keys_write]
        exact not_or.mpr ⟨h, h₀⟩

def set (m : AssocMap κ ν) (k : κ) (v : ν) : AssocMap κ ν :=
  ⟨write k v m.entries, nodup_write m.nodup⟩

/-- `entry(k).or_insert(v)`: make sure the key has a value. -/
def orInsert (m : AssocMap κ ν) (k : κ) (v : ν) : AssocMap κ ν :=
  match m.get? k with
  | some _ => m
  | none => m.set k v

/-- Walk the values until `f` accepts one; replace it and report what `f` gave. -/
def updateFirst (f : ν → Option (β × ν)) (m : AssocMap κ ν) : Option (β × AssocMap κ ν) :=
  (m.entries.findSome? (fun e => (f e.2).map (fun r => (e.1, r)))).map
    (fun r => (r.2.1, m.set r.1 r.2.2))

/-! ## Lookup and membership -/

theorem lookup_eq_some_of_mem {k : κ} {v : ν} :
    ∀ {es : List (κ × ν)}, (es.map Prod.fst).Nodup → (k, v) ∈ es → lookup k es = some v
  | [], _, h => absurd h List.not_mem_nil
  | (k₀, v₀) :: es, hn, h => by
      obtain ⟨h₀, hes⟩ := List.nodup_cons.mp hn
      rcases List.mem_cons.mp h with h | h
      · obtain ⟨rfl, rfl⟩ := Prod.mk.inj h
        simp [lookup]
      · have hne : k₀ ≠ k := by
          rintro rfl
          exact h₀ (List.mem_map.mpr ⟨_, h, rfl⟩)
        simp only [lookup, if_neg hne]
        exact lookup_eq_some_of_mem hes h

theorem mem_of_lookup {k : κ} {v : ν} :
    ∀ {es : List (κ × ν)}, lookup k es = some v → (k, v) ∈ es
  | [], h => by simp [lookup] at h
  | (k₀, v₀) :: es, h => by
      by_cases hk : k₀ = k
      · simp only [lookup, if_pos hk, Option.some.injEq] at h
        rw [hk, h]
        exact List.mem_cons_self
      · simp only [lookup, if_neg hk] at h
        exact List.mem_cons_of_mem _ (mem_of_lookup h)

theorem get?_eq_some_iff {m : AssocMap κ ν} {k : κ} {v : ν} :
    m.get? k = some v ↔ (k, v) ∈ m.entries :=
  ⟨mem_of_lookup, lookup_eq_some_of_mem m.nodup⟩

theorem mem_values_iff {m : AssocMap κ ν} {v : ν} : v ∈ m.values ↔ ∃ k, m.get? k = some v := by
  simp [values, get?_eq_some_iff]

theorem write_write {k : κ} {v w : ν} :
    ∀ {es : List (κ × ν)}, write k w (write k v es) = write k w es
  | [] => by simp [write]
  | (k₀, v₀) :: es => by
      by_cases h : k₀ = k
      · simp [write, h]
      · simp [write, h, write_write]

theorem write_lookup {k : κ} {v : ν} :
    ∀ {es : List (κ × ν)}, lookup k es = some v → write k v es = es
  | [], h => by simp [lookup] at h
  | (k₀, v₀) :: es, h => by
      by_cases hk : k₀ = k
      · simp only [lookup, if_pos hk, Option.some.injEq] at h
        simp [write, hk, h]
      · simp only [lookup, if_neg hk] at h
        simp [write, hk, write_lookup h]

theorem set_self {m : AssocMap κ ν} {k : κ} {v : ν} (h : m.get? k = some v) : m.set k v = m := by
  obtain ⟨es, hn⟩ := m
  simp only [set, AssocMap.mk.injEq]
  exact write_lookup h

theorem orInsert_eq_self {m : AssocMap κ ν} {k : κ} {v w : ν} (h : m.get? k = some v) :
    m.orInsert k w = m := by
  simp [orInsert, h]

theorem set_orInsert (m : AssocMap κ ν) (k : κ) (v w : ν) :
    (m.orInsert k w).set k v = m.set k v := by
  cases h : m.get? k with
  | some _ => rw [orInsert_eq_self h]
  | none => simp [orInsert, h, set, write_write]

theorem lookup_write {k k' : κ} {v : ν} :
    ∀ {es : List (κ × ν)}, lookup k' (write k v es) = if k = k' then some v else lookup k' es
  | [] => by simp [write, lookup]
  | (k₀, v₀) :: es => by
      by_cases h : k₀ = k
      · subst h
        by_cases h' : k₀ = k' <;> simp [write, lookup, h']
      · by_cases h' : k₀ = k'
        · subst h'
          simp [write, lookup, h, Ne.symm h]
        · simp [write, lookup, h, h', lookup_write]

@[simp] theorem get?_set (m : AssocMap κ ν) (k k' : κ) (v : ν) :
    (m.set k v).get? k' = if k = k' then some v else m.get? k' :=
  lookup_write

@[simp] theorem get?_mapValues (f : ν → ν) (m : AssocMap κ ν) (k : κ) :
    (m.mapValues f).get? k = (m.get? k).map f := by
  suffices h : ∀ es : List (κ × ν),
      lookup k (es.map (fun e => (e.1, f e.2))) = (lookup k es).map f from h m.entries
  intro es
  induction es with
  | nil => rfl
  | cons e es ih =>
      simp only [List.map_cons, lookup]
      split
      · rfl
      · exact ih

theorem Reorder.get? {m m' : AssocMap κ ν} (h : m.Reorder m') (k : κ) : m.get? k = m'.get? k := by
  ext v
  rw [get?_eq_some_iff, get?_eq_some_iff]
  exact h.mem_iff

/-! ## Removing and inserting in bulk -/

/-- `remove(k)`, as far as the map is concerned. -/
def erase (m : AssocMap κ ν) (k : κ) : AssocMap κ ν :=
  ⟨m.entries.filter (fun e => e.1 ≠ k), m.nodup.sublist (List.filter_sublist.map _)⟩

theorem get?_erase (m : AssocMap κ ν) (k k' : κ) :
    (m.erase k).get? k' = if k = k' then none else m.get? k' := by
  ext v
  rw [get?_eq_some_iff, erase, List.mem_filter]
  split
  · next h => simp [h]
  · next h => simp [get?_eq_some_iff, Ne.symm h]

/-- Remove the keys one after the other, and collect the values that were there. -/
def removeAll : List κ → AssocMap κ ν → List ν × AssocMap κ ν
  | [], m => ([], m)
  | k :: ks, m =>
      match m.get? k with
      | some v => ((removeAll ks (m.erase k)).1.cons v, (removeAll ks (m.erase k)).2)
      | none => removeAll ks m

/-- Insert the values one after the other, each under its own key. -/
def insertAll (key : ν → κ) (vs : List ν) (m : AssocMap κ ν) : AssocMap κ ν :=
  vs.foldl (fun m v => m.set (key v) v) m

theorem get?_removeAll (k : κ) : ∀ (ks : List κ) (m : AssocMap κ ν),
    (removeAll ks m).2.get? k = if k ∈ ks then none else m.get? k
  | [], m => by simp [removeAll]
  | k₀ :: ks, m => by
      unfold removeAll
      cases h : m.get? k₀ with
      | some v =>
          simp only [get?_removeAll k ks, get?_erase, List.mem_cons]
          by_cases hk : k ∈ ks
          · simp [hk]
          · by_cases hk₀ : k₀ = k
            · simp [hk₀]
            · simp [hk, hk₀, Ne.symm hk₀]
      | none =>
          simp only [get?_removeAll k ks, List.mem_cons]
          by_cases hk₀ : k = k₀
          · subst hk₀
            simp [h]
          · simp [hk₀]

theorem mem_removeAll {v : ν} : ∀ {ks : List κ} {m : AssocMap κ ν},
    v ∈ (removeAll ks m).1 ↔ ∃ k ∈ ks, m.get? k = some v
  | [], m => by simp [removeAll]
  | k₀ :: ks, m => by
      unfold removeAll
      cases h : m.get? k₀ with
      | some w =>
          simp only [List.mem_cons, mem_removeAll, get?_erase]
          constructor
          · rintro (rfl | ⟨k, hk, hv⟩)
            · exact ⟨k₀, .inl rfl, h⟩
            · split at hv
              · cases hv
              · exact ⟨k, .inr hk, hv⟩
          · rintro ⟨k, rfl | hk, hv⟩
            · exact .inl (Option.some.inj (hv.symm.trans h))
            · by_cases hk₀ : k₀ = k
              · subst hk₀
                exact .inl (Option.some.inj (hv.symm.trans h))
              · exact .inr ⟨k, hk, by rw [if_neg hk₀]; exact hv⟩
      | none =>
          simp only [List.mem_cons, mem_removeAll]
          constructor
          · rintro ⟨k, hk, hv⟩
            exact ⟨k, .inr hk, hv⟩
          · rintro ⟨k, rfl | hk, hv⟩
            · rw [h] at hv
              cases hv
            · exact ⟨k, hk, hv⟩

/-- A key has the last value inserted under it, if any was, and its old one otherwise. -/
theorem get?_insertAll (key : ν → κ) (k : κ) : ∀ (vs : List ν) (m : AssocMap κ ν),
    (∃ v ∈ vs, key v = k ∧ (insertAll key vs m).get? k = some v) ∨
      (∀ v ∈ vs, key v ≠ k) ∧ (insertAll key vs m).get? k = m.get? k
  | [], m => .inr ⟨by simp, rfl⟩
  | v :: vs, m => by
      rcases get?_insertAll key k vs (m.set (key v) v) with ⟨w, hw, hk, hget⟩ | ⟨hnone, hget⟩
      · exact .inl ⟨w, List.mem_cons_of_mem _ hw, hk, hget⟩
      · have hget' : (insertAll key (v :: vs) m).get? k =
            if key v = k then some v else m.get? k := by
          rw [← get?_set]
          exact hget
        by_cases hk : key v = k
        · exact .inl ⟨v, List.mem_cons_self, hk, by rw [hget', if_pos hk]⟩
        · refine .inr ⟨?_, by rw [hget', if_neg hk]⟩
          intro w hw
          rcases List.mem_cons.mp hw with rfl | hw
          · exact hk
          · exact hnone w hw

theorem removeAll_congr : ∀ (ks : List κ) {m m' : AssocMap κ ν},
    (∀ k, m.get? k = m'.get? k) → (removeAll ks m).1 = (removeAll ks m').1
  | [], _, _, _ => rfl
  | k :: ks, m, m', h => by
      have herase : ∀ k', (m.erase k).get? k' = (m'.erase k).get? k' := by
        intro k'
        rw [get?_erase, get?_erase, h k']
      unfold removeAll
      rw [h k]
      cases m'.get? k with
      | some v => exact congrArg (List.cons v) (removeAll_congr ks herase)
      | none => exact removeAll_congr ks h

theorem get?_insertAll_congr (key : ν → κ) : ∀ (vs : List ν) {m m' : AssocMap κ ν},
    (∀ k, m.get? k = m'.get? k) →
      ∀ k, (insertAll key vs m).get? k = (insertAll key vs m').get? k
  | [], _, _, h => h
  | v :: vs, m, m', h => by
      refine get?_insertAll_congr key vs ?_
      intro k
      rw [get?_set, get?_set, h k]

/-! ## The first value that accepts a change -/

theorem updateFirst_some {f : ν → Option (β × ν)} {m m' : AssocMap κ ν} {b : β}
    (h : m.updateFirst f = some (b, m')) :
    ∃ k v v', m.get? k = some v ∧ f v = some (b, v') ∧ m' = m.set k v' := by
  simp only [updateFirst, Option.map_eq_some_iff] at h
  obtain ⟨⟨k, c, v'⟩, hf, hr⟩ := h
  obtain ⟨rfl, rfl⟩ := Prod.mk.inj hr
  obtain ⟨e, he, hfe⟩ := List.exists_of_findSome?_eq_some hf
  simp only [Option.map_eq_some_iff] at hfe
  obtain ⟨r, hr, hkr⟩ := hfe
  obtain ⟨rfl, rfl⟩ := Prod.mk.inj hkr
  exact ⟨e.1, e.2, v', get?_eq_some_iff.mpr he, hr, rfl⟩

theorem updateFirst_none {f : ν → Option (β × ν)} {m : AssocMap κ ν} :
    m.updateFirst f = none ↔ ∀ v ∈ m.values, f v = none := by
  simp only [updateFirst, values, Option.map_eq_none_iff, List.findSome?_eq_none_iff,
    List.forall_mem_map]

/-! ## Grouped contents -/

section Grouped

variable {α : Type}

/-- **A `set` touches one group.**  The contents are that group and a rest that the
write does not change. -/
theorem flatten_frame (m : AssocMap κ (List α)) (k : κ) (v : List α) :
    ∃ rest, m.values.flatten.Perm ((m.get? k).getD [] ++ rest) ∧
      (m.set k v).values.flatten.Perm (v ++ rest) := by
  suffices h : ∀ es : List (κ × List α), ∃ rest,
      (es.map Prod.snd).flatten.Perm ((lookup k es).getD [] ++ rest) ∧
      ((write k v es).map Prod.snd).flatten.Perm (v ++ rest) from h m.entries
  intro es
  induction es with
  | nil => exact ⟨[], by simp [lookup], by simp [write]⟩
  | cons e es ih =>
      obtain ⟨k₀, v₀⟩ := e
      by_cases h : k₀ = k
      · exact ⟨(es.map Prod.snd).flatten, by simp [lookup, h], by simp [write, h]⟩
      · obtain ⟨rest, h₁, h₂⟩ := ih
        refine ⟨v₀ ++ rest, ?_, ?_⟩
        · simp only [lookup, if_neg h, List.map_cons, List.flatten_cons]
          exact (h₁.append_left v₀).trans (List.perm_append_comm_assoc ..)
        · simp only [write, if_neg h, List.map_cons, List.flatten_cons]
          exact (h₂.append_left v₀).trans (List.perm_append_comm_assoc ..)

/-- When every group holds the elements of its own key, a group is a selection of the
contents. -/
theorem filter_flatten_of_key {m : AssocMap κ (List α)} {key : α → κ}
    (h : ∀ e ∈ m.entries, ∀ x ∈ e.2, key x = e.1) (k : κ) :
    m.values.flatten.filter (fun x => key x = k) = (m.get? k).getD [] := by
  suffices hs : ∀ es : List (κ × List α), (es.map Prod.fst).Nodup →
      (∀ e ∈ es, ∀ x ∈ e.2, key x = e.1) →
      (es.map Prod.snd).flatten.filter (fun x => key x = k) = (lookup k es).getD [] from
    hs m.entries m.nodup h
  intro es hn hkey
  induction es with
  | nil => rfl
  | cons e es ih =>
      obtain ⟨k₀, v₀⟩ := e
      obtain ⟨h₀, hes⟩ := List.nodup_cons.mp hn
      have ih := ih hes (fun e he => hkey e (List.mem_cons_of_mem _ he))
      have hv₀ : ∀ x ∈ v₀, key x = k₀ := hkey (k₀, v₀) List.mem_cons_self
      simp only [List.map_cons, List.flatten_cons, List.filter_append, ih, lookup]
      by_cases hk : k₀ = k
      · subst hk
        -- the key occurs here, hence nowhere behind
        have hnone : lookup k₀ es = none := by
          cases hl : lookup k₀ es with
          | none => rfl
          | some v => exact absurd (List.mem_map.mpr ⟨_, mem_of_lookup hl, rfl⟩) h₀
        rw [hnone, List.filter_eq_self.mpr (by simpa using hv₀)]
        simp
      · rw [List.filter_eq_nil_iff.mpr (fun x hx => by simp [hv₀ x hx, hk])]
        simp [hk]

end Grouped
end Lookup

theorem Reorder.values {m m' : AssocMap κ ν} (h : m.Reorder m') : m.values.Perm m'.values :=
  h.map _

@[simp] theorem values_mapValues (f : ν → ν) (m : AssocMap κ ν) :
    (m.mapValues f).values = m.values.map f := by
  simp [values, mapValues]

theorem flatten_mapValues_filter {α : Type} (m : AssocMap κ (List α)) (p : α → Bool) :
    (m.mapValues (·.filter p)).values.flatten = m.values.flatten.filter p := by
  rw [values_mapValues, List.filter_flatten]

theorem mapValues_eq_self {f : ν → ν} {m : AssocMap κ ν} (h : ∀ v ∈ m.values, f v = v) :
    m.mapValues f = m := by
  obtain ⟨es, hn⟩ := m
  simp only [mapValues, AssocMap.mk.injEq]
  have : ∀ e ∈ es, (e.1, f e.2) = e := fun e he =>
    Prod.ext rfl (h e.2 (List.mem_map_of_mem he))
  rw [List.map_congr_left this, List.map_id']

end AssocMap
