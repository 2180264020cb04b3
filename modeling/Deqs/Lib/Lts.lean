/-
# `Lts` — runs of a step function, and the rules every run theorem uses

A system is given by `step : σ → α → Option σ`: `step s a = some s'` says that
action `a` is enabled in `s` and leads to `s'`.  Interleavings need nothing more:
the actions of every thread are put in one type `α`, and a schedule is a list of
actions.

`Run step G s as s'` is a run from `s` to `s'` taking the actions `as`, each of
which met the guard `G` in the state it was taken in.  The guard is there because
a property that fails on some schedules is usually kept by every schedule whose
steps avoid one kind of action; `Run step Any` is the unguarded run.

    Run.inv         an invariant kept by every guarded step holds at the end of a run
    Run.after       a fact about two points of a run, kept by every step between them
    Run.recorded    the guard may say of a step that it is one of this run
    Run.of_occurs   and such a step cuts the run in two
    Run.countP_le   a measure bounds how often the actions of one kind are taken
    Run.reaches     and, where it stops shrinking at a goal only, by when the goal is reached
    Run.simulate    a system whose steps another one matches has no runs the other has not

The second is stated separately because the interesting invariants of a run are
often relative: "since the state `s₁`, this much has happened".
-/
import Mathlib.Tactic.Common

namespace Lts

variable {σ α : Type}

/-- Runs of `step` whose every action meets the guard `G`. -/
inductive Run (step : σ → α → Option σ) (G : σ → α → Prop) : σ → List α → σ → Prop
  | nil (s : σ) : Run step G s [] s
  | cons {s s' s'' : σ} {a : α} {as : List α} :
      G s a → step s a = some s' → Run step G s' as s'' → Run step G s (a :: as) s''

/-- The guard that lets every action through. -/
def Any : σ → α → Prop := fun _ _ => True

variable {step : σ → α → Option σ} {G : σ → α → Prop}

theorem Run.single {s s' : σ} {a : α} (hg : G s a) (hs : step s a = some s') :
    Run step G s [a] s' :=
  .cons hg hs (.nil _)

theorem Run.of_forall {s s' : σ} {as : List α} (h : Run step Any s as s')
    (hG : ∀ a ∈ as, ∀ t, G t a) : Run step G s as s' := by
  induction h with
  | nil _ => exact .nil _
  | cons _ hs _ ih =>
      exact .cons (hG _ List.mem_cons_self _) hs (ih fun a ha => hG a (List.mem_cons_of_mem _ ha))

theorem Run.append {s s' s'' : σ} {as bs : List α} (h : Run step G s as s')
    (h' : Run step G s' bs s'') : Run step G s (as ++ bs) s'' := by
  induction h with
  | nil _ => exact h'
  | cons hg hs _ ih => exact .cons hg hs (ih h')

theorem Run.mono {G' : σ → α → Prop} {s s' : σ} {as : List α} (h : Run step G s as s')
    (hG : ∀ {t a}, G t a → G' t a) : Run step G' s as s' := by
  induction h with
  | nil _ => exact .nil _
  | cons hg hs _ ih => exact .cons (hG hg) hs ih

/-- **The invariant rule.**  What the first state has and every guarded step keeps,
the last state has. -/
theorem Run.inv (I : σ → Prop)
    (hstep : ∀ {s a s'}, I s → G s a → step s a = some s' → I s')
    {s s' : σ} {as : List α} (h : Run step G s as s') (h0 : I s) : I s' := by
  induction h with
  | nil _ => exact h0
  | cons hg hs _ ih => exact ih (hstep h0 hg hs)

/-- **The relative rule.**  `Q` relates the state a run started in to the current
one; `I` is an invariant already known, available at every step. -/
theorem Run.after (I : σ → Prop) (Q : σ → Prop)
    (hI : ∀ {s a s'}, I s → G s a → step s a = some s' → I s')
    (hQ : ∀ {s a s'}, I s → Q s → G s a → step s a = some s' → Q s')
    {s s' : σ} {as : List α} (h : Run step G s as s') (h0 : I s) (hq : Q s) : Q s' :=
  (Run.inv (fun t => I t ∧ Q t)
    (fun ht hg hs => ⟨hI ht.1 hg hs, hQ ht.1 ht.2 hg hs⟩) h ⟨h0, hq⟩).2

/-- In the run of `as` from `s` there is a moment at which the state is `t` and `a` is taken. -/
def Occurs (step : σ → α → Option σ) : σ → List α → σ → α → Prop
  | _, [], _, _ => False
  | s, b :: as, t, a => (t = s ∧ a = b) ∨ ∃ s', step s b = some s' ∧ Occurs step s' as t a

theorem Occurs.mem : ∀ {as : List α} {s t : σ} {a : α}, Occurs step s as t a → a ∈ as
  | [], _, _, _, h => absurd h id
  | _ :: _, _, _, _, .inl ⟨_, h⟩ => h ▸ List.mem_cons_self
  | _ :: _, _, _, _, .inr ⟨_, _, h⟩ => List.mem_cons_of_mem _ h.mem

theorem Run.occurs_next {s t : σ} {as : List α} (h : Run step G s as t) (a : α) (bs : List α) :
    Occurs step s (as ++ a :: bs) t a := by
  induction h with
  | nil _ => exact .inl ⟨rfl, rfl⟩
  | cons _ hs _ ih => exact .inr ⟨_, hs, ih⟩

/-- **A run knows its own steps.**  An invariant may thus speak of what has happened, without
a history in the state. -/
theorem Run.recorded {s s' : σ} {as : List α} (h : Run step G s as s') :
    Run step (fun t a => G t a ∧ Occurs step s as t a) s as s' := by
  induction h with
  | nil _ => exact .nil _
  | cons hg hs _ ih =>
      exact .cons ⟨hg, .inl ⟨rfl, rfl⟩⟩ hs (ih.mono fun h => ⟨h.1, .inr ⟨_, hs, h.2⟩⟩)

theorem Run.of_occurs {s s' t : σ} {as : List α} {a : α} (h : Run step G s as s')
    (ho : Occurs step s as t a) :
    ∃ bs t' cs, Run step G s bs t ∧ G t a ∧ step t a = some t' ∧ Run step G t' cs s' := by
  induction h with
  | nil _ => exact absurd ho id
  | cons hg hs hrest ih =>
      rcases ho with ⟨rfl, rfl⟩ | ⟨s₁, hs₁, ho⟩
      · exact ⟨[], _, _, .nil _, hg, hs, hrest⟩
      · obtain rfl := Option.some.inj (hs.symm.trans hs₁)
        obtain ⟨bs, t', cs, hbefore, hgt, hst, hafter⟩ := ih ho
        exact ⟨_ :: bs, t', cs, .cons hg hs hbefore, hgt, hst, hafter⟩

/-- **A measure.**  Where every guarded step that `p` counts makes the measure smaller, and no
other makes it larger, a run has no more of them than the first state has. -/
theorem Run.countP_le (p : α → Bool) (μ : σ → Nat) (I : σ → Prop)
    (hI : ∀ {s a s'}, I s → G s a → step s a = some s' → I s')
    (hμ : ∀ {s a s'}, I s → G s a → step s a = some s' → μ s' + (if p a then 1 else 0) ≤ μ s)
    {s s' : σ} {as : List α} (h : Run step G s as s') (h0 : I s) :
    as.countP p + μ s' ≤ μ s := by
  induction h with
  | nil _ => simp
  | cons hg hs _ ih =>
      have hrest := ih (hI h0 hg hs)
      have hone := hμ h0 hg hs
      rw [List.countP_cons]
      omega

/-- **Progress.**  Until the goal is reached, every step that `p` counts makes the measure
smaller by one and every step that `r` counts may make it larger by one.  So a run in which
`p` counts enough steps has reached the goal, which is not left again. -/
theorem Run.reaches (p r : α → Bool) (μ : σ → Nat) (I goal : σ → Prop)
    (hI : ∀ {s a s'}, I s → G s a → step s a = some s' → I s')
    (hgoal : ∀ {s a s'}, I s → goal s → G s a → step s a = some s' → goal s')
    (hμ : ∀ {s a s'}, I s → ¬ goal s → G s a → step s a = some s' →
      goal s' ∨ μ s' + (if p a then 1 else 0) ≤ μ s + (if r a then 1 else 0))
    {s s' : σ} {as : List α} (h : Run step G s as s') (h0 : I s)
    (hcount : μ s + as.countP r < as.countP p) : goal s' := by
  induction h with
  | nil _ => simp at hcount
  | @cons s s₁ s' a as hg hs hrest ih =>
      have hstay : goal s₁ → goal s' := hrest.after I goal hI hgoal (hI h0 hg hs)
      by_cases hnow : goal s
      · exact hstay (hgoal h0 hnow hg hs)
      · rcases hμ h0 hnow hg hs with hnext | hle
        · exact hstay hnext
        · refine ih (hI h0 hg hs) ?_
          simp only [List.countP_cons] at hcount
          omega

/-- **Simulation.**  `R` relates the states of one system to those of another.  Where each
guarded step of the first is matched by a run of the second, maybe an empty one, every run of
the first is. -/
theorem Run.simulate {τ β : Type} {step' : τ → β → Option τ} {G' : τ → β → Prop}
    (R : σ → τ → Prop)
    (hstep : ∀ {s a s' t}, R s t → G s a → step s a = some s' →
      ∃ bs t', Run step' G' t bs t' ∧ R s' t')
    {s s' : σ} {as : List α} (h : Run step G s as s') {t : τ} (h0 : R s t) :
    ∃ bs t', Run step' G' t bs t' ∧ R s' t' := by
  induction h generalizing t with
  | nil _ => exact ⟨[], t, .nil _, h0⟩
  | cons hg hs _ ih =>
      obtain ⟨bs, t₁, hrun, h1⟩ := hstep h0 hg hs
      obtain ⟨cs, t₂, hrest, h2⟩ := ih h1
      exact ⟨bs ++ cs, t₂, hrun.append hrest, h2⟩

/-- Executing a list of actions; `none` when one of them is not enabled. -/
def exec (step : σ → α → Option σ) : σ → List α → Option σ
  | s, [] => some s
  | s, a :: as =>
      match step s a with
      | none => none
      | some s' => exec step s' as

theorem run_of_exec : ∀ {as : List α} {s s' : σ},
    exec step s as = some s' → Run step Any s as s'
  | [], s, s', h => by
      simp only [exec, Option.some.injEq] at h
      subst h
      exact .nil s
  | a :: as, s, s', h => by
      cases hs : step s a with
      | none => simp [exec, hs] at h
      | some t =>
          simp only [exec, hs] at h
          exact .cons trivial hs (run_of_exec h)

end Lts
