/-
# `Replay` — a set, followed through a log of additions and removals

Somebody announces what is added to a set and what is removed from it, and somebody else
reads the announcements and keeps a copy.  The copy forgets how often something was added,
so two announcements in the wrong order do not cancel: after `removed i`, `added i` the
copy holds `i`, and nothing that comes later will take it out.

A log is `Ordered` for `i` when on every prefix of it the removals of `i` are covered by
additions.  The rule that makes the copy safe is then a matter of counting:

    not_mem_replay     ordered for i, as many removals as additions   ⟹   i is not held

and it holds as well for a reader who came late (`replay_suffix_subset`).

A reader may also take a snapshot of the set and then read announcements that the snapshot
has already seen.  That does no harm: what the announcements touch they settle, and what
they do not touch the snapshot has as it was (`foldl_apply_snapshot`).
-/
import Mathlib.Data.Finset.Basic
import Mathlib.Data.List.Count
import Mathlib.Data.List.Induction
import Mathlib.Tactic.Tauto

namespace Replay

variable {ι : Type}

inductive Update (ι : Type) where
  | added (i : ι)
  | removed (i : ι)
deriving DecidableEq

variable [DecidableEq ι]

def apply (held : Finset ι) : Update ι → Finset ι
  | .added i => insert i held
  | .removed i => held.erase i

/-- The copy of a reader who began with nothing. -/
def replay (us : List (Update ι)) : Finset ι := us.foldl apply ∅

theorem replay_snoc (us : List (Update ι)) (u : Update ι) :
    replay (us ++ [u]) = apply (replay us) u := by
  simp [replay]

/-- No prefix has more removals of `i` than additions. -/
def Ordered (us : List (Update ι)) (i : ι) : Prop :=
  ∀ us', us' <+: us → us'.count (.removed i) ≤ us'.count (.added i)

variable {us vs : List (Update ι)} {i : ι}

theorem ordered_nil : Ordered ([] : List (Update ι)) i := by
  intro us' h
  rw [List.prefix_nil.mp h]
  simp

theorem Ordered.of_append (h : Ordered (us ++ vs) i) : Ordered us i := by
  intro us' hpre
  exact h us' (hpre.trans (List.prefix_append us vs))

/-- A removal needs an addition that is still open. -/
theorem Ordered.snoc (h : Ordered us i) {u : Update ι}
    (hu : u = .removed i → us.count (.removed i) < us.count (.added i)) :
    Ordered (us ++ [u]) i := by
  intro us' hpre
  rcases List.prefix_concat_iff.mp hpre with rfl | hpre
  · have hle := h us List.prefix_rfl
    rw [List.count_append, List.count_append]
    by_cases hrem : u = .removed i
    · have hlt := hu hrem
      subst hrem
      simp only [List.count_cons_self, List.count_nil]
      omega
    · rw [List.count_singleton, if_neg (by simpa using hrem)]
      omega
  · exact h us' hpre

/-- **What has been removed as often as added is not held**, if the log is ordered. -/
theorem not_mem_replay (h : Ordered us i) (hcount : us.count (.added i) = us.count (.removed i)) :
    i ∉ replay us := by
  induction us using List.reverseRecOn with
  | nil => simp [replay]
  | append_singleton us u ih =>
      have hus := h.of_append
      have hle := hus us List.prefix_rfl
      rw [List.count_append, List.count_append] at hcount
      rw [replay_snoc]
      cases u with
      | added j =>
          by_cases hj : j = i
          · -- an addition at the end would leave the log before it short of one
            subst hj
            have hshort : us.count (.added j) + 1 = us.count (.removed j) := by
              simpa using hcount
            omega
          · simp only [apply, Finset.mem_insert, not_or]
            refine ⟨fun hij => hj hij.symm, ih hus ?_⟩
            simpa [hj] using hcount
      | removed j =>
          by_cases hj : j = i
          · subst hj
            simp [apply]
          · intro hmem
            refine ih hus ?_ (Finset.mem_of_mem_erase hmem)
            simpa [hj] using hcount

theorem foldl_apply_mono : ∀ (us : List (Update ι)) {held held' : Finset ι}, held ⊆ held' →
    us.foldl apply held ⊆ us.foldl apply held'
  | [], _, _, h => h
  | .added i :: us, _, _, h => foldl_apply_mono us (Finset.insert_subset_insert i h)
  | .removed i :: us, _, _, h => foldl_apply_mono us (Finset.erase_subset_erase i h)

theorem replay_suffix_subset (us vs : List (Update ι)) : replay vs ⊆ replay (us ++ vs) := by
  unfold replay
  rw [List.foldl_append]
  exact foldl_apply_mono vs (Finset.empty_subset _)

theorem mem_foldl_apply_of_untouched : ∀ {us : List (Update ι)} {held : Finset ι},
    .added i ∉ us → .removed i ∉ us → (i ∈ us.foldl apply held ↔ i ∈ held)
  | [], _, _, _ => Iff.rfl
  | u :: us, held, ha, hr => by
      simp only [List.mem_cons, not_or] at ha hr
      rw [List.foldl_cons, mem_foldl_apply_of_untouched ha.2 hr.2]
      cases u with
      | added j =>
          have hj : i ≠ j := fun h => ha.1 (h ▸ rfl)
          simp [apply, hj]
      | removed j =>
          have hj : i ≠ j := fun h => hr.1 (h ▸ rfl)
          simp [apply, hj]

theorem mem_foldl_apply_congr : ∀ {us : List (Update ι)} {held held' : Finset ι},
    .added i ∈ us ∨ .removed i ∈ us ∨ (i ∈ held ↔ i ∈ held') →
      (i ∈ us.foldl apply held ↔ i ∈ us.foldl apply held')
  | [], _, _, h => by simpa using h
  | u :: us, held, held', h => by
      show i ∈ us.foldl apply (apply held u) ↔ i ∈ us.foldl apply (apply held' u)
      refine mem_foldl_apply_congr ?_
      by_cases ha : .added i ∈ us
      · exact .inl ha
      · by_cases hr : .removed i ∈ us
        · exact .inr (.inl hr)
        · right; right
          simp only [List.mem_cons, ha, hr, or_false] at h
          cases u with
          | added j =>
              by_cases hj : i = j
              · simp [apply, hj]
              · simpa [apply, hj] using h
          | removed j =>
              by_cases hj : i = j
              · simp [apply, hj]
              · simpa [apply, hj] using h

/-- **Announcements that a snapshot has seen already change nothing.**  The snapshot was taken
after `us`; reading `us` again, and then `vs`, leads to where reading both would have led. -/
theorem foldl_apply_snapshot (us vs : List (Update ι)) (held : Finset ι) :
    (us ++ vs).foldl apply (us.foldl apply held) = (us ++ vs).foldl apply held := by
  ext i
  by_cases ht : .added i ∈ us ∨ .removed i ∈ us
  · refine mem_foldl_apply_congr ?_
    rcases ht with ht | ht
    · exact .inl (List.mem_append_left _ ht)
    · exact .inr (.inl (List.mem_append_left _ ht))
  · obtain ⟨ha, hr⟩ := not_or.mp ht
    exact mem_foldl_apply_congr (.inr (.inr (mem_foldl_apply_of_untouched ha hr)))

/-- Announcements that come together: first what was removed, then what was added. -/
def batch (removed added : List ι) : List (Update ι) :=
  removed.map .removed ++ added.map .added

theorem mem_foldl_removed : ∀ {is : List ι} {held : Finset ι},
    i ∈ (is.map Update.removed).foldl apply held ↔ i ∈ held ∧ i ∉ is
  | [], held => by simp
  | j :: is, held => by
      rw [List.map_cons, List.foldl_cons, mem_foldl_removed, apply, Finset.mem_erase,
        List.mem_cons, not_or]
      tauto

theorem mem_foldl_added : ∀ {is : List ι} {held : Finset ι},
    i ∈ (is.map Update.added).foldl apply held ↔ i ∈ is ∨ i ∈ held
  | [], held => by simp
  | j :: is, held => by
      rw [List.map_cons, List.foldl_cons, mem_foldl_added, apply, Finset.mem_insert,
        List.mem_cons]
      tauto

theorem mem_foldl_batch {removed added : List ι} {held : Finset ι} :
    i ∈ (batch removed added).foldl apply held ↔ i ∈ added ∨ i ∈ held ∧ i ∉ removed := by
  rw [batch, List.foldl_append, mem_foldl_added, mem_foldl_removed]

theorem replay_eq_empty (h : ∀ i, .added i ∉ us) : replay us = ∅ := by
  induction us using List.reverseRecOn with
  | nil => rfl
  | append_singleton us u ih =>
      have hus : replay us = ∅ := ih fun i hi => h i (List.mem_append_left _ hi)
      rw [replay_snoc, hus]
      cases u with
      | added j => exact absurd (List.mem_append_right us List.mem_cons_self) (h j)
      | removed j => simp [apply]

end Replay
