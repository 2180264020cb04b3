/-
# `Correlation` — answers that arrive in any order, matched by a tag

A request is sent out under a tag, and whoever waits for its answer is put into a map
under that tag.  When an outcome is reported for a tag, the one who waits under it is taken
out of the map and gets it; if there is no one, the outcome is dropped.

The lists beside the map are its history and are read by no operation: what was issued,
what was reported, and who was given what.

**The result** (`Correlated`): if no tag is issued twice and no one waits twice, then for
every order of requests and reports, repeated and unknown tags included,

    tags, waiters     tags and those who wait correspond one to one
    pending           the map holds exactly those who still wait
    once              no one is given two outcomes
    own               everyone is given an outcome of their own tag

`Correlated.issue` and `Correlated.report` say that the two operations keep this, and
`completed_report` says what a single report does.
-/
import Mathlib.Data.List.Nodup
import Deqs.Lib.AssocMap

namespace Correlation

/-- The map, and its history.  The newest entries come first. -/
structure Table (τ ω ρ : Type) where
  pending : AssocMap τ ω
  issued : List (τ × ω)
  reported : List (τ × ρ)
  completed : List (ω × ρ)

namespace Table

variable {τ ω ρ : Type} [DecidableEq τ]

def empty : Table τ ω ρ := ⟨.empty, [], [], []⟩

def issue (t : Table τ ω ρ) (tag : τ) (waiter : ω) : Table τ ω ρ :=
  { t with pending := t.pending.set tag waiter, issued := (tag, waiter) :: t.issued }

def report (t : Table τ ω ρ) (tag : τ) (outcome : ρ) : Table τ ω ρ :=
  match t.pending.get? tag with
  | some waiter =>
      { t with
        pending := t.pending.erase tag
        reported := (tag, outcome) :: t.reported
        completed := (waiter, outcome) :: t.completed }
  | none => { t with reported := (tag, outcome) :: t.reported }

theorem completed_report (t : Table τ ω ρ) (tag : τ) (outcome : ρ) :
    (t.report tag outcome).completed = t.completed ∨ ∃ waiter,
      t.pending.get? tag = some waiter ∧
        (t.report tag outcome).completed = (waiter, outcome) :: t.completed := by
  unfold report
  cases hget : t.pending.get? tag with
  | none => exact .inl rfl
  | some waiter => exact .inr ⟨waiter, rfl, rfl⟩

theorem report_issue (t : Table τ ω ρ) (tag : τ) (waiter : ω) (outcome : ρ) :
    (t.issue tag waiter).report tag outcome =
      ⟨(t.pending.set tag waiter).erase tag, (tag, waiter) :: t.issued,
        (tag, outcome) :: t.reported, (waiter, outcome) :: t.completed⟩ := by
  have hget : (t.issue tag waiter).pending.get? tag = some waiter := by simp [issue]
  rw [report, hget]
  rfl

structure Correlated (t : Table τ ω ρ) : Prop where
  tags : (t.issued.map Prod.fst).Nodup
  waiters : (t.issued.map Prod.snd).Nodup
  pending : ∀ tag waiter, t.pending.get? tag = some waiter ↔
    (tag, waiter) ∈ t.issued ∧ waiter ∉ t.completed.map Prod.fst
  once : (t.completed.map Prod.fst).Nodup
  own : ∀ waiter outcome, (waiter, outcome) ∈ t.completed →
    ∃ tag, (tag, waiter) ∈ t.issued ∧ (tag, outcome) ∈ t.reported

namespace Correlated

variable {t : Table τ ω ρ} {tag tag' : τ} {waiter waiter' : ω}

theorem empty : Correlated (Table.empty : Table τ ω ρ) where
  tags := List.nodup_nil
  waiters := List.nodup_nil
  pending tag waiter := by simp [Table.empty, AssocMap.empty, AssocMap.get?, AssocMap.lookup]
  once := List.nodup_nil
  own _ _ h := absurd h List.not_mem_nil

theorem waiter_eq (h : Correlated t) (hw : (tag, waiter) ∈ t.issued)
    (hw' : (tag, waiter') ∈ t.issued) : waiter = waiter' :=
  congrArg Prod.snd (List.inj_on_of_nodup_map h.tags hw hw' rfl)

theorem tag_eq (h : Correlated t) (hw : (tag, waiter) ∈ t.issued)
    (hw' : (tag', waiter) ∈ t.issued) : tag = tag' :=
  congrArg Prod.fst (List.inj_on_of_nodup_map h.waiters hw hw' rfl)

theorem not_completed (h : Correlated t) (hw : waiter ∉ t.issued.map Prod.snd) :
    waiter ∉ t.completed.map Prod.fst := by
  intro hmem
  obtain ⟨⟨_, outcome⟩, hcompleted, rfl⟩ := List.mem_map.mp hmem
  obtain ⟨tag, hissued, -⟩ := h.own _ outcome hcompleted
  exact hw (List.mem_map.mpr ⟨_, hissued, rfl⟩)

theorem issue (h : Correlated t) (htag : tag ∉ t.issued.map Prod.fst)
    (hw : waiter ∉ t.issued.map Prod.snd) : Correlated (t.issue tag waiter) where
  tags := List.nodup_cons.mpr ⟨htag, h.tags⟩
  waiters := List.nodup_cons.mpr ⟨hw, h.waiters⟩
  pending tag' waiter' := by
    simp only [Table.issue, AssocMap.get?_set, List.mem_cons, Prod.mk.injEq]
    by_cases heq : tag = tag'
    · subst heq
      have hnot : (tag, waiter') ∉ t.issued := fun hmem =>
        htag (List.mem_map.mpr ⟨_, hmem, rfl⟩)
      simp only [if_true, Option.some.injEq, true_and, hnot, or_false]
      constructor
      · rintro rfl
        exact ⟨rfl, h.not_completed hw⟩
      · rintro ⟨rfl, -⟩
        rfl
    · simp only [if_neg heq, Ne.symm heq, false_and, false_or]
      exact h.pending tag' waiter'
  once := h.once
  own waiter' outcome hcompleted := by
    obtain ⟨tag', hissued, hreported⟩ := h.own waiter' outcome hcompleted
    exact ⟨tag', List.mem_cons_of_mem _ hissued, hreported⟩

theorem report (h : Correlated t) (tag : τ) (outcome : ρ) : Correlated (t.report tag outcome) := by
  unfold Table.report
  cases hget : t.pending.get? tag with
  | none =>
      refine ⟨h.tags, h.waiters, h.pending, h.once, ?_⟩
      intro waiter' outcome' hcompleted
      obtain ⟨tag', hissued, hreported⟩ := h.own waiter' outcome' hcompleted
      exact ⟨tag', hissued, List.mem_cons_of_mem _ hreported⟩
  | some waiter =>
      obtain ⟨hissued, hwaits⟩ := (h.pending tag waiter).mp hget
      refine ⟨h.tags, h.waiters, ?_, List.nodup_cons.mpr ⟨hwaits, h.once⟩, ?_⟩
      · intro tag' waiter'
        simp only [AssocMap.get?_erase, List.map_cons, List.mem_cons, not_or]
        by_cases heq : tag = tag'
        · -- the tag is free again, and the one who waited under it is done
          subst heq
          simp only [if_true, reduceCtorEq, false_iff]
          rintro ⟨hissued', hne, -⟩
          exact hne (h.waiter_eq hissued' hissued)
        · rw [if_neg heq, h.pending tag' waiter']
          refine and_congr_right fun hissued' => ?_
          have hne : waiter' ≠ waiter := by
            rintro rfl
            exact heq (h.tag_eq hissued hissued')
          exact ⟨fun hnot => ⟨hne, hnot⟩, fun hnot => hnot.2⟩
      · intro waiter' outcome' hcompleted
        rcases List.mem_cons.mp hcompleted with heq | hcompleted
        · obtain ⟨rfl, rfl⟩ := Prod.mk.inj heq
          exact ⟨tag, hissued, List.mem_cons_self⟩
        · obtain ⟨tag', hissued', hreported⟩ := h.own waiter' outcome' hcompleted
          exact ⟨tag', hissued', List.mem_cons_of_mem _ hreported⟩

end Correlated

end Table

end Correlation
