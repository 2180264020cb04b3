/-
# `pushEach` — a loop that pushes as it goes and can stop half way

    for x in xs { match f(x)? { Some(y) => ys.push(y), None => {} } }

What such a loop has pushed when `f` fails stays pushed, and what it has not visited is
not visited.  `pushEach f xs` is the pushed list together with how the loop ended; the
two have to be read together, so the function returns both.

The whole behaviour is in one notion: an element is `Reached` when `f` returned on every
element before it.  The loop ends in an error exactly when a reached element fails
(`pushEach_err_iff`), and then it has pushed what the elements before that one gave
(`pushEach_err`).  When `f` keeps a key, the keys pushed are keys of elements visited, in
their order (`keys_pushEach`), so with distinct keys the element that failed is not among
what was pushed (`pushEach_err_lost`).
-/
import Deqs.Lib.Outcome
import Mathlib.Data.List.Nodup

namespace Outcome

variable {ε α β κ : Type}

/-- Visit the elements in turn; push what `f` gives, stop where `f` does not return. -/
def pushEach (f : α → Outcome ε (Option β)) : List α → List β × Outcome ε Unit
  | [] => ([], .ok ())
  | x :: xs =>
      match f x with
      | .ok none => pushEach f xs
      | .ok (some y) => (y :: (pushEach f xs).1, (pushEach f xs).2)
      | .err e => ([], .err e)
      | .panic m => ([], .panic m)

/-- The loop comes to visit `x`: `f` returns on everything before it. -/
def Reached (f : α → Outcome ε (Option β)) (xs : List α) (x : α) : Prop :=
  ∃ before after, xs = before ++ x :: after ∧ ∀ z ∈ before, ∃ r, f z = .ok r

variable {f : α → Outcome ε (Option β)}

theorem pushEach_append {before : List α} (h : ∀ z ∈ before, ∃ r, f z = .ok r) (xs : List α) :
    pushEach f (before ++ xs) =
      ((pushEach f before).1 ++ (pushEach f xs).1, (pushEach f xs).2) := by
  induction before with
  | nil => rfl
  | cons z zs ih =>
      have hz := h z List.mem_cons_self
      have hzs := ih fun y hy => h y (List.mem_cons_of_mem _ hy)
      rcases hz with ⟨_ | y, hr⟩
      · simp only [List.cons_append, pushEach, hr]
        exact hzs
      · simp only [List.cons_append, pushEach, hr, hzs]

theorem pushEach_err {xs : List α} {e : ε} (h : (pushEach f xs).2 = .err e) :
    ∃ before x after, xs = before ++ x :: after ∧ (∀ z ∈ before, ∃ r, f z = .ok r) ∧
      f x = .err e ∧ (pushEach f xs).1 = (pushEach f before).1 := by
  induction xs with
  | nil => simp [pushEach] at h
  | cons x xs ih =>
      cases hf : f x with
      | ok r =>
          have hx : (pushEach f (x :: xs)).2 = (pushEach f xs).2 := by
            cases r with
            | none => simp only [pushEach, hf]
            | some y => simp only [pushEach, hf]
          obtain ⟨before, z, after, rfl, hb, hz, hp⟩ := ih (hx ▸ h)
          refine ⟨x :: before, z, after, rfl, ?_, hz, ?_⟩
          · intro y hy
            rcases List.mem_cons.mp hy with rfl | hy
            · exact ⟨r, hf⟩
            · exact hb y hy
          · cases r with
            | none => simp only [pushEach, hf, hp]
            | some y => simp only [pushEach, hf, hp]
      | err e' =>
          simp only [pushEach, hf, err.injEq] at h
          subst h
          exact ⟨[], x, xs, rfl, fun _ h => absurd h List.not_mem_nil, hf, by simp [pushEach, hf]⟩
      | panic m => simp [pushEach, hf] at h

/-- **When the loop fails.**  Exactly when it reaches an element that does. -/
theorem pushEach_err_iff {xs : List α} {e : ε} :
    (pushEach f xs).2 = .err e ↔ ∃ x, Reached f xs x ∧ f x = .err e := by
  constructor
  · intro h
    obtain ⟨before, x, after, hxs, hb, hx, -⟩ := pushEach_err h
    exact ⟨x, ⟨before, after, hxs, hb⟩, hx⟩
  · rintro ⟨x, ⟨before, after, rfl, hb⟩, hx⟩
    rw [pushEach_append hb]
    simp only [pushEach, hx]

theorem mem_pushEach {y : β} : ∀ {xs : List α}, y ∈ (pushEach f xs).1 →
    ∃ x ∈ xs, f x = .ok (some y)
  | [], h => absurd h List.not_mem_nil
  | x :: xs, h => by
      have hlater : y ∈ (pushEach f xs).1 → ∃ z ∈ x :: xs, f z = .ok (some y) := by
        intro hy
        obtain ⟨z, hz, hf⟩ := mem_pushEach hy
        exact ⟨z, List.mem_cons_of_mem _ hz, hf⟩
      cases hf : f x with
      | err e => simp [pushEach, hf] at h
      | panic m => simp [pushEach, hf] at h
      | ok r =>
          cases r with
          | none =>
              simp only [pushEach, hf] at h
              exact hlater h
          | some z =>
              simp only [pushEach, hf] at h
              rcases List.mem_cons.mp h with rfl | h
              · exact ⟨x, List.mem_cons_self, hf⟩
              · exact hlater h

theorem pushEach_ok {xs : List α} (h : ∀ x ∈ xs, ∃ r, f x = .ok r) :
    (pushEach f xs).2 = .ok () := by
  have happ := pushEach_append h []
  rw [List.append_nil] at happ
  rw [happ]
  rfl

theorem length_pushEach : ∀ {xs : List α}, (∀ x ∈ xs, ∃ y, f x = .ok (some y)) →
    (pushEach f xs).1.length = xs.length
  | [], _ => rfl
  | x :: xs, h => by
      obtain ⟨y, hy⟩ := h x List.mem_cons_self
      simp only [pushEach, hy, List.length_cons]
      rw [length_pushEach fun z hz => h z (List.mem_cons_of_mem _ hz)]

section Keys

variable (key : α → κ) {key' : β → κ}

theorem keys_pushEach (hf : ∀ {x y}, f x = .ok (some y) → key' y = key x) (xs : List α) :
    ((pushEach f xs).1.map key').Sublist (xs.map key) := by
  induction xs with
  | nil => exact .slnil
  | cons x xs ih =>
      cases h : f x with
      | ok r =>
          cases r with
          | none =>
              simp only [pushEach, h, List.map_cons]
              exact ih.cons _
          | some y =>
              simp only [pushEach, h, List.map_cons, hf h]
              exact ih.cons_cons _
      | err e => simp [pushEach, h]
      | panic m => simp [pushEach, h]

/-- **The element that fails is lost.**  With distinct keys, nothing pushed has its key. -/
theorem pushEach_err_lost (hf : ∀ {x y}, f x = .ok (some y) → key' y = key x) {xs : List α}
    (hn : (xs.map key).Nodup) {e : ε} (h : (pushEach f xs).2 = .err e) :
    ∃ x ∈ xs, key x ∉ (pushEach f xs).1.map key' := by
  obtain ⟨before, x, after, rfl, -, -, hp⟩ := pushEach_err h
  refine ⟨x, List.mem_append_right _ List.mem_cons_self, ?_⟩
  rw [hp]
  intro hx
  have hbefore : key x ∈ before.map key := (keys_pushEach key hf before).subset hx
  rw [List.map_append, List.map_cons] at hn
  exact (List.nodup_append.mp hn).2.2 _ hbefore _ List.mem_cons_self rfl

end Keys

end Outcome
