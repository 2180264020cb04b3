/-
# `ParMap` — a parallel map whose tasks act on a shared state

    xs.into_par_iter().map(f).collect()

runs `f` on every element of `xs` in an order nobody controls, and returns the results in
the order of `xs`.  When `f` acts on a state behind a lock, each task takes effect at one
point in time; a schedule lists these points (`Turn.task i` is the task of `xs[i]`), mixed
with what everybody else does to the state (`Turn.other c`).

A schedule is a list of turns and its execution a run of the step function below, so the
invariant rule of `Lts` applies.  What is added here is the bookkeeping of the results:

    isSome_results      the results that are there are those of the tasks that ran
    exec_tasks          every order of the tasks is a schedule
    results_of_run      what every task's result satisfies, all results satisfy
-/
import Deqs.Lib.Lts
import Mathlib.Data.List.Perm.Basic
import Mathlib.Data.List.Nodup
import Mathlib.Logic.Function.Basic

namespace ParMap

variable {α β γ ρ : Type}

inductive Turn (γ : Type) where
  | task (i : Nat)
  | other (c : γ)
deriving DecidableEq

/-- The shared state and the results so far. -/
structure State (β ρ : Type) where
  shared : β
  results : Nat → Option ρ

def start (shared : β) : State β ρ := ⟨shared, fun _ => none⟩

/-- One turn.  A task runs once. -/
def step (f : α → β → ρ × β) (act : β → γ → Option β) (xs : List α) (s : State β ρ) :
    Turn γ → Option (State β ρ)
  | .task i =>
      match xs[i]?, s.results i with
      | some x, none =>
          some ⟨(f x s.shared).2, Function.update s.results i (some (f x s.shared).1)⟩
      | _, _ => none
  | .other c => (act s.shared c).map fun shared => { s with shared }

variable {f : α → β → ρ × β} {act : β → γ → Option β} {xs : List α} {s s' : State β ρ}

theorem task_cases {i : Nat} (h : step f act xs s (.task i) = some s') :
    ∃ x, xs[i]? = some x ∧ s.results i = none ∧
      s' = ⟨(f x s.shared).2, Function.update s.results i (some (f x s.shared).1)⟩ := by
  simp only [step] at h
  split at h
  · next x hx hr => exact ⟨x, hx, hr, (Option.some.inj h).symm⟩
  · cases h

theorem other_cases {c : γ} (h : step f act xs s (.other c) = some s') :
    ∃ shared, act s.shared c = some shared ∧ s' = { s with shared } := by
  obtain ⟨shared, hact, rfl⟩ := Option.map_eq_some_iff.mp h
  exact ⟨shared, hact, rfl⟩

/-- **The results are those of the tasks that ran.** -/
theorem isSome_results {ts : List (Turn γ)}
    (h : Lts.Run (step f act xs) Lts.Any s ts s') (i : Nat) :
    (s'.results i).isSome ↔ (s.results i).isSome ∨ .task i ∈ ts := by
  induction h with
  | nil s => simp
  | @cons s s₁ s₂ t ts _ hs _ ih =>
      cases t with
      | task j =>
          obtain ⟨x, -, -, rfl⟩ := task_cases hs
          rw [ih]
          by_cases hij : i = j
          · subst hij
            simp
          · simp [hij]
      | other c =>
          obtain ⟨shared, -, rfl⟩ := other_cases hs
          rw [ih]
          simp

/-- **Every order of the tasks is a schedule.** -/
theorem exec_tasks (f : α → β → ρ × β) (act : β → γ → Option β) (xs : List α) :
    ∀ {is : List Nat} {s : State β ρ}, is.Nodup →
    (∀ i ∈ is, i < xs.length ∧ s.results i = none) →
    ∃ s', Lts.exec (step f act xs) s (is.map .task) = some s'
  | [], s, _, _ => ⟨s, rfl⟩
  | i :: is, s, hn, h => by
      obtain ⟨hi, hn⟩ := List.nodup_cons.mp hn
      obtain ⟨hlt, hnone⟩ := h i List.mem_cons_self
      have hstep : step f act xs s (.task i) = some
          ⟨(f xs[i] s.shared).2,
            Function.update s.results i (some (f xs[i] s.shared).1)⟩ := by
        simp only [step, List.getElem?_eq_getElem hlt, hnone]
      have hrest : ∀ j ∈ is, j < xs.length ∧
          Function.update s.results i (some (f xs[i] s.shared).1) j = none := by
        intro j hj
        have hne : j ≠ i := by
          rintro rfl
          exact hi hj
        rw [Function.update_of_ne hne]
        exact h j (List.mem_cons_of_mem _ hj)
      obtain ⟨s', hs'⟩ := exec_tasks f act xs (s := ⟨_, _⟩) hn hrest
      refine ⟨s', ?_⟩
      simp only [List.map_cons, Lts.exec, hstep]
      exact hs'

/-- **What each task's result satisfies, all results satisfy.**  `I` is what the state
keeps through every turn that the guard lets through. -/
theorem results_of_run {G : State β ρ → Turn γ → Prop} {I : β → Prop} {P : α → ρ → Prop}
    (htask : ∀ {x b}, x ∈ xs → I b → P x (f x b).1 ∧ I (f x b).2)
    (hact : ∀ {s c b}, G s (.other c) → I s.shared → act s.shared c = some b → I b)
    {ts : List (Turn γ)} (h : Lts.Run (step f act xs) G s ts s') (h0 : I s.shared)
    (hr : ∀ i r, s.results i = some r → ∃ x, xs[i]? = some x ∧ P x r) :
    I s'.shared ∧ ∀ i r, s'.results i = some r → ∃ x, xs[i]? = some x ∧ P x r := by
  induction h with
  | nil s => exact ⟨h0, hr⟩
  | @cons s s₁ s₂ t ts hg hs _ ih =>
      cases t with
      | task j =>
          obtain ⟨x, hx, -, rfl⟩ := task_cases hs
          obtain ⟨hP, hI⟩ := htask (List.mem_of_getElem? hx) h0
          refine ih hI ?_
          intro i r hres
          by_cases hij : i = j
          · subst hij
            simp only [Function.update_self, Option.some.injEq] at hres
            exact ⟨x, hx, hres ▸ hP⟩
          · simp only [Function.update_of_ne hij] at hres
            exact hr i r hres
      | other c =>
          obtain ⟨shared, hshared, rfl⟩ := other_cases hs
          exact ih (hact hg h0 hshared) hr

/-- Collecting in `Option` returns the values, if they are all there. -/
theorem mapM_eq_some_iff {f : α → Option β} : ∀ {xs : List α} {ys : List β},
    xs.mapM f = some ys ↔ xs.map f = ys.map some
  | [], ys => by cases ys <;> simp
  | x :: xs, ys => by
      simp only [List.mapM_cons, Option.bind_eq_bind, Option.bind_eq_some_iff, List.map_cons]
      constructor
      · rintro ⟨y, hy, ys', hys', heq⟩
        obtain rfl := Option.some.inj heq
        rw [hy, mapM_eq_some_iff.mp hys']
        rfl
      · intro h
        cases ys with
        | nil => cases h
        | cons y ys =>
            obtain ⟨hy, hys⟩ := List.cons.inj h
            exact ⟨y, hy, ys, mapM_eq_some_iff.mpr hys, rfl⟩

theorem filterMap_update {δ : Type} (g : Option ρ → Option δ) (results : Nat → Option ρ) {i : Nat}
    (r : ρ) (hnone : g (results i) = none) :
    ∀ {is : List Nat}, is.Nodup → i ∈ is →
      (is.filterMap fun j => g (Function.update results i (some r) j)).Perm
        ((g (some r)).toList ++ is.filterMap fun j => g (results j))
  | j :: is, hn, hi => by
      obtain ⟨hj, hn⟩ := List.nodup_cons.mp hn
      by_cases hij : i = j
      · subst hij
        have hrest : (is.filterMap fun j => g (Function.update results i (some r) j)) =
            is.filterMap fun j => g (results j) := by
          refine List.filterMap_congr ?_
          intro j hjs
          have hne : j ≠ i := by
            rintro rfl
            exact hj hjs
          rw [Function.update_of_ne hne]
        rw [List.filterMap_cons, List.filterMap_cons, hrest, Function.update_self, hnone]
        cases g (some r) with
        | none => exact .refl _
        | some d => exact .refl _
      · have his : i ∈ is := (List.mem_cons.mp hi).resolve_left hij
        have ih := filterMap_update g results r hnone hn his
        rw [List.filterMap_cons, List.filterMap_cons, Function.update_of_ne (Ne.symm hij)]
        cases g (results j) with
        | none => exact ih
        | some d => exact (ih.cons d).trans List.perm_middle.symm

theorem flatMap_set {δ : Type} (g : α → List δ) {x y : α} :
    ∀ {xs : List α} {i : Nat}, xs[i]? = some x →
      (g x ++ (xs.set i y).flatMap g).Perm (g y ++ xs.flatMap g)
  | x' :: xs, 0, h => by
      obtain rfl := Option.some.inj h
      simp only [List.set_cons_zero, List.flatMap_cons]
      exact List.perm_append_comm_assoc _ _ _
  | x' :: xs, i + 1, h => by
      have ih := flatMap_set g (y := y) (i := i) h
      simp only [List.set_cons_succ, List.flatMap_cons]
      refine (List.perm_append_comm_assoc _ _ _).trans ?_
      exact (ih.append_left _).trans (List.perm_append_comm_assoc _ _ _)

/-- Of the positions of a list that select one value, there is only one if what is selected
has no repetition. -/
theorem eq_of_filterMap_nodup {δ : Type} {g : Nat → Option δ} {d : δ} :
    ∀ {is : List Nat}, (is.filterMap g).Nodup → ∀ {i j : Nat}, i ∈ is → j ∈ is →
      g i = some d → g j = some d → i = j
  | k :: is, hn, i, j, hi, hj, hgi, hgj => by
      have htail : (is.filterMap g).Nodup :=
        hn.sublist ((List.sublist_cons_self k is).filterMap g)
      have hhead : ∀ {l}, l ∈ is → g k = some d → g l = some d → False := by
        intro l hl hgk hgl
        rw [List.filterMap_cons, hgk] at hn
        exact (List.nodup_cons.mp hn).1 (List.mem_filterMap.mpr ⟨l, hl, hgl⟩)
      rcases List.mem_cons.mp hi with rfl | hi'
      · rcases List.mem_cons.mp hj with rfl | hj'
        · rfl
        · exact (hhead hj' hgi hgj).elim
      · rcases List.mem_cons.mp hj with rfl | hj'
        · exact (hhead hi' hgj hgi).elim
        · exact eq_of_filterMap_nodup htail hi' hj' hgi hgj

end ParMap
