/-
# `Outcome` — a call that returns, fails, or panics

A function of the source that returns `Result<T, E>` can end in three ways:
`Ok`, `Err`, or a panic raised by an `assert!`, an `unwrap` or an index out of
range.  The first two are values the caller sees; the third unwinds the thread
and the caller sees nothing.  `Except` merges the last two, so the third way
gets a constructor of its own here, carrying the text of the assertion.

The three `bind` equations are what the proofs use: a computation written in
`do` notation is taken apart one statement at a time by `bind_eq_ok`.
-/
import Mathlib.Tactic.Common

/-- The result of a call: `ok`, `err`, or a panic with its message. -/
inductive Outcome (ε α : Type) where
  | ok (a : α)
  | err (e : ε)
  | panic (msg : String)
deriving DecidableEq

namespace Outcome

variable {ε α β : Type}

/-- Sequencing: the first call that does not return ends the computation. -/
def bind (x : Outcome ε α) (f : α → Outcome ε β) : Outcome ε β :=
  match x with
  | .ok a => f a
  | .err e => .err e
  | .panic m => .panic m

instance : Monad (Outcome ε) where
  pure := .ok
  bind := bind

instance instLawfulMonad : LawfulMonad (Outcome ε) :=
  .mk' (Outcome ε) (fun x => by cases x <;> rfl) (fun _ _ => rfl)
    (fun x _ _ => by cases x <;> rfl)

@[simp] def map (f : α → β) : Outcome ε α → Outcome ε β
  | .ok a => .ok (f a)
  | .err e => .err e
  | .panic m => .panic m

def mapErr {δ : Type} (f : ε → δ) : Outcome ε α → Outcome δ α
  | .ok a => .ok a
  | .err e => .err (f e)
  | .panic m => .panic m

/-- The `?` of a plain `Result`. -/
def ofExcept : Except ε α → Outcome ε α
  | .ok a => .ok a
  | .error e => .err e

/-- `assert!(c)`, with the text of its condition. -/
def assert (c : Prop) [Decidable c] (text : String) : Outcome ε Unit :=
  if c then .ok () else .panic ("assertion failed: " ++ text)

@[simp] theorem bind_ok (a : α) (f : α → Outcome ε β) :
    ((.ok a : Outcome ε α) >>= f) = f a := rfl

@[simp] theorem bind_err (e : ε) (f : α → Outcome ε β) :
    ((.err e : Outcome ε α) >>= f) = .err e := rfl

@[simp] theorem bind_panic (m : String) (f : α → Outcome ε β) :
    ((.panic m : Outcome ε α) >>= f) = .panic m := rfl

theorem bind_eq_ok {x : Outcome ε α} {f : α → Outcome ε β} {b : β} :
    (x >>= f) = .ok b ↔ ∃ a, x = .ok a ∧ f a = .ok b := by
  cases x with
  | ok a => simp
  | err e => simp
  | panic m => simp

theorem bind_eq_err {x : Outcome ε α} {f : α → Outcome ε β} {e : ε} :
    (x >>= f) = .err e ↔ x = .err e ∨ ∃ a, x = .ok a ∧ f a = .err e := by
  cases x with
  | ok a => simp
  | err e' => simp
  | panic m => simp

theorem bind_eq_panic {x : Outcome ε α} {f : α → Outcome ε β} {m : String} :
    (x >>= f) = .panic m ↔ x = .panic m ∨ ∃ a, x = .ok a ∧ f a = .panic m := by
  cases x with
  | ok a => simp
  | err e => simp
  | panic m' => simp

theorem assert_bind {c : Prop} [Decidable c] (h : c) (text : String) (f : Unit → Outcome ε β) :
    (assert c text >>= f) = f () := by
  simp [assert, h]

theorem assert_bind_panic {c : Prop} [Decidable c] (h : ¬ c) (text : String)
    (f : Unit → Outcome ε β) :
    (assert c text >>= f) = .panic ("assertion failed: " ++ text) := by
  simp [assert, h]

end Outcome
