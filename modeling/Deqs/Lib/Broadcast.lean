/-
# `Broadcast` — what a bounded channel with many readers promises

The channel is a parameter.  `Channel` are its operations, on states of which nothing is
known, and `Laws` is what is assumed of them, in terms of a history that the states need not
have in them: all that was sent, and for each reader what it has read.

    sent            m₀  m₁  m₂  m₃  m₄  m₅
    a reader                └── got ─┘  ↑
                    since = 2           next = 5, one behind

| law | |
| :-- | :-- |
| `fifo_send`, `fifo_recv` | every message goes to every reader, in the order it was sent in |
| `fifo_subscribe`, `fifo_drop` | a reader begins with what is sent after it has subscribed |
| `capacity_send` | nothing is accepted while a reader is `capacity` messages behind |
| `closed_send` | a message is refused exactly when there is no reader |

What follows from them:

    Valid             a reader has got, without a gap, what was sent since it subscribed,
                      and is at most the capacity behind; kept by every operation
    send_of_behind    a channel is full when one of its readers is that many behind

`list` is a channel that keeps its history and has the laws.
-/
import Mathlib.Data.List.Basic

namespace Broadcast

variable {μ : Type}

/-- One reader: how much had been sent when it subscribed, and what it has read. -/
structure Reader (μ : Type) where
  since : Nat
  got : List μ
deriving DecidableEq

def Reader.next (r : Reader μ) : Nat := r.since + r.got.length

inductive Sending (σ : Type) where
  | closed
  | full
  | accepted (c : σ)

/-- The operations of a channel.  Readers are numbered in the order they come. -/
structure Channel (μ : Type) where
  State : Type
  /-- A new channel has one reader. -/
  opened : State
  send : State → μ → Sending State
  subscribe : State → State
  recv : State → Nat → Option (μ × State)
  drop : State → Nat → State

/-- What is assumed of a channel. -/
structure Laws (capacity : Nat) (ch : Channel μ) where
  sent : ch.State → List μ
  /-- A place for each reader, empty once it is dropped. -/
  readers : ch.State → List (Option (Reader μ))
  fifo_opened : sent ch.opened = [] ∧ readers ch.opened = [some ⟨0, []⟩]
  fifo_send : ∀ {c c' m}, ch.send c m = .accepted c' →
    sent c' = sent c ++ [m] ∧ readers c' = readers c
  fifo_subscribe : ∀ c, sent (ch.subscribe c) = sent c ∧
    readers (ch.subscribe c) = readers c ++ [some ⟨(sent c).length, []⟩]
  fifo_recv : ∀ {c c' i m}, ch.recv c i = some (m, c') → sent c' = sent c ∧
    ∃ r, (readers c)[i]? = some (some r) ∧ (sent c)[r.next]? = some m ∧
      readers c' = (readers c).set i (some { r with got := r.got ++ [m] })
  fifo_drop : ∀ c i, sent (ch.drop c i) = sent c ∧ readers (ch.drop c i) = (readers c).set i none
  capacity_send : ∀ {c c' m}, ch.send c m = .accepted c' →
    ∀ r, some r ∈ readers c → (sent c).length < r.next + capacity
  closed_send : ∀ {c m}, ch.send c m = .closed ↔ ∀ o ∈ readers c, o = none

variable {capacity i : Nat} {ch : Channel μ} (laws : Laws capacity ch) {c c' : ch.State}
variable {r : Reader μ} {m : μ}

/-! ## The invariant -/

/-- Every reader has read, from where it subscribed and without a gap, all but at most the
capacity of what was sent. -/
structure Valid (c : ch.State) : Prop where
  since_le : ∀ r, some r ∈ laws.readers c → r.since ≤ (laws.sent c).length
  got : ∀ r, some r ∈ laws.readers c → r.got <+: (laws.sent c).drop r.since
  near : ∀ r, some r ∈ laws.readers c → (laws.sent c).length ≤ r.next + capacity

variable {laws}

theorem Valid.opened : Valid laws ch.opened := by
  obtain ⟨hsent, hreaders⟩ := laws.fifo_opened
  have hone : ∀ r, some r ∈ laws.readers ch.opened → r = ⟨0, []⟩ := by
    intro r hr
    rw [hreaders] at hr
    exact Option.some.inj (List.mem_singleton.mp hr)
  refine ⟨?_, ?_, ?_⟩
  · intro r hr
    rw [hone r hr]
    exact Nat.zero_le _
  · intro r hr
    rw [hone r hr]
    exact List.nil_prefix
  · intro r hr
    rw [hsent]
    exact Nat.zero_le _

theorem Valid.send (h : Valid laws c) (hs : ch.send c m = .accepted c') : Valid laws c' := by
  obtain ⟨hsent, hreaders⟩ := laws.fifo_send hs
  refine ⟨?_, ?_, ?_⟩
  · intro r hr
    have hle := h.since_le r (hreaders ▸ hr)
    rw [hsent, List.length_append]
    omega
  · intro r hr
    rw [hreaders] at hr
    refine (h.got r hr).trans ?_
    rw [hsent, List.drop_append_of_le_length (h.since_le r hr)]
    exact List.prefix_append _ _
  · intro r hr
    have hlt := laws.capacity_send hs r (hreaders ▸ hr)
    rw [hsent, List.length_append, List.length_singleton]
    omega

theorem Valid.subscribe (h : Valid laws c) : Valid laws (ch.subscribe c) := by
  obtain ⟨hsent, hreaders⟩ := laws.fifo_subscribe c
  refine ⟨?_, ?_, ?_⟩
  all_goals
    intro r hr
    rw [hreaders] at hr
    rw [hsent]
    rcases List.mem_append.mp hr with hr | hr
  · exact h.since_le r hr
  · obtain rfl := Option.some.inj (List.mem_singleton.mp hr)
    exact Nat.le_refl _
  · exact h.got r hr
  · obtain rfl := Option.some.inj (List.mem_singleton.mp hr)
    exact List.nil_prefix
  · exact h.near r hr
  · obtain rfl := Option.some.inj (List.mem_singleton.mp hr)
    exact Nat.le_add_right _ _

theorem Valid.set (h : Valid laws c) {o : Option (Reader μ)} (hsent : laws.sent c' = laws.sent c)
    (hreaders : laws.readers c' = (laws.readers c).set i o)
    (ho : ∀ r, o = some r → r.since ≤ (laws.sent c).length ∧
      r.got <+: (laws.sent c).drop r.since ∧ (laws.sent c).length ≤ r.next + capacity) :
    Valid laws c' := by
  have hmem : ∀ r, some r ∈ laws.readers c' → some r ∈ laws.readers c ∨ o = some r := by
    intro r hr
    rw [hreaders] at hr
    exact (List.mem_or_eq_of_mem_set hr).imp_right Eq.symm
  refine ⟨?_, ?_, ?_⟩
  all_goals
    intro r hr
    rw [hsent]
  · exact (hmem r hr).elim (h.since_le r) fun heq => (ho r heq).1
  · exact (hmem r hr).elim (h.got r) fun heq => (ho r heq).2.1
  · exact (hmem r hr).elim (h.near r) fun heq => (ho r heq).2.2

theorem Valid.drop (h : Valid laws c) : Valid laws (ch.drop c i) :=
  h.set (laws.fifo_drop c i).1 (laws.fifo_drop c i).2 fun _ heq => by cases heq

theorem Valid.recv (h : Valid laws c) (hs : ch.recv c i = some (m, c')) : Valid laws c' := by
  obtain ⟨hsent, r, hi, hm, hreaders⟩ := laws.fifo_recv hs
  have hr : some r ∈ laws.readers c := List.mem_of_getElem? hi
  refine h.set hsent hreaders ?_
  rintro _ ⟨⟩
  refine ⟨h.since_le r hr, ?_, ?_⟩
  · obtain ⟨rest, hrest⟩ := h.got r hr
    -- the next message is the first of the rest
    have hhead : rest[0]? = some m := by
      rw [← hm, Reader.next, ← List.getElem?_drop, ← hrest,
        List.getElem?_append_right (Nat.le_refl _), Nat.sub_self]
    obtain ⟨tail, rfl⟩ : ∃ tail, rest = m :: tail := by
      cases rest with
      | nil => cases hhead
      | cons x tail => exact ⟨tail, by rw [Option.some.inj hhead]⟩
    exact ⟨tail, by simpa using hrest⟩
  · have hnear := h.near r hr
    simp only [Reader.next, List.length_append, List.length_singleton] at hnear ⊢
    omega

theorem Valid.unread (h : Valid laws c) (hi : (laws.readers c)[i]? = some (some r)) :
    ∃ unread, (laws.sent c).drop r.since = r.got ++ unread ∧ unread.length ≤ capacity := by
  have hr : some r ∈ laws.readers c := List.mem_of_getElem? hi
  obtain ⟨unread, hunread⟩ := h.got r hr
  refine ⟨unread, hunread.symm, ?_⟩
  have hlen := congrArg List.length hunread
  have hnear := h.near r hr
  simp only [List.length_append, List.length_drop, Reader.next] at hlen hnear
  omega

/-! ## A reader that stays -/

theorem send_ne_closed (hi : (laws.readers c)[i]? = some (some r)) (m : μ) :
    ch.send c m ≠ .closed := by
  intro hclosed
  have hnone := laws.closed_send.mp hclosed (some r) (List.mem_of_getElem? hi)
  cases hnone

theorem send_of_behind (hi : (laws.readers c)[i]? = some (some r))
    (hle : r.next + capacity ≤ (laws.sent c).length) (m : μ) : ch.send c m = .full := by
  cases hs : ch.send c m with
  | closed => exact absurd hs (send_ne_closed hi m)
  | full => rfl
  | accepted c' =>
      have hlt := laws.capacity_send hs r (List.mem_of_getElem? hi)
      omega

theorem reader_subscribe {o : Option (Reader μ)} (hi : (laws.readers c)[i]? = some o) :
    (laws.readers (ch.subscribe c))[i]? = some o := by
  have hlt := (List.getElem?_eq_some_iff.mp hi).1
  rw [(laws.fifo_subscribe c).2, List.getElem?_append_left hlt, hi]

theorem reader_recv {j : Nat} {o : Option (Reader μ)} (hi : (laws.readers c)[i]? = some o)
    (hne : j ≠ i) (hs : ch.recv c j = some (m, c')) : (laws.readers c')[i]? = some o := by
  obtain ⟨-, r', -, -, hreaders⟩ := laws.fifo_recv hs
  rw [hreaders, List.getElem?_set_ne hne, hi]

theorem reader_drop {j : Nat} {o : Option (Reader μ)} (hi : (laws.readers c)[i]? = some o)
    (hne : j ≠ i) : (laws.readers (ch.drop c j))[i]? = some o := by
  rw [(laws.fifo_drop c j).2, List.getElem?_set_ne hne, hi]

/-! ## A channel that has the laws -/

structure Record (μ : Type) where
  sent : List μ
  readers : List (Option (Reader μ))
deriving DecidableEq

/-- A reader is as far behind as can be. -/
def behind (capacity sent : Nat) (r : Option (Reader μ)) : Bool :=
  r.elim false fun r => r.next + capacity ≤ sent

def Record.send (capacity : Nat) (c : Record μ) (m : μ) : Sending (Record μ) :=
  if c.readers.any Option.isSome = false then .closed
  else if c.readers.any (behind capacity c.sent.length) then .full
  else .accepted { c with sent := c.sent ++ [m] }

def Record.recv (c : Record μ) (i : Nat) : Option (μ × Record μ) :=
  match c.readers[i]? with
  | some (some r) =>
      c.sent[r.next]?.map fun m =>
        (m, { c with readers := c.readers.set i (some { r with got := r.got ++ [m] }) })
  | _ => none

/-- The channel that keeps everything. -/
def list (μ : Type) (capacity : Nat) : Channel μ where
  State := Record μ
  opened := ⟨[], [some ⟨0, []⟩]⟩
  send := Record.send capacity
  subscribe c := { c with readers := c.readers ++ [some ⟨c.sent.length, []⟩] }
  recv := Record.recv
  drop c i := { c with readers := c.readers.set i none }

theorem Record.send_accepted {c c' : Record μ} (h : c.send capacity m = .accepted c') :
    c' = { c with sent := c.sent ++ [m] } ∧
      ∀ r, some r ∈ c.readers → c.sent.length < r.next + capacity := by
  unfold Record.send at h
  split at h
  · cases h
  · split at h
    · cases h
    · next hfull =>
        refine ⟨(Sending.accepted.inj h).symm, ?_⟩
        intro r hr
        by_contra hle
        refine hfull (List.any_eq_true.mpr ⟨some r, hr, ?_⟩)
        simpa [behind] using hle

theorem Record.send_closed {c : Record μ} : c.send capacity m = .closed ↔
    ∀ o ∈ c.readers, o = none := by
  have hany : c.readers.any Option.isSome = false ↔ ∀ o ∈ c.readers, o = none := by
    simp
  rw [← hany]
  unfold Record.send
  constructor
  · intro h
    by_contra hopen
    rw [if_neg hopen] at h
    split at h <;> cases h
  · exact fun h => if_pos h

theorem Record.recv_cases {c c' : Record μ} (h : c.recv i = some (m, c')) :
    ∃ r, c.readers[i]? = some (some r) ∧ c.sent[r.next]? = some m ∧
      c' = { c with readers := c.readers.set i (some { r with got := r.got ++ [m] }) } := by
  unfold Record.recv at h
  split at h
  · next r hi =>
      obtain ⟨m', hm, heq⟩ := Option.map_eq_some_iff.mp h
      obtain ⟨rfl, rfl⟩ := Prod.mk.inj heq
      exact ⟨r, hi, hm, rfl⟩
  · cases h

def listLaws (μ : Type) (capacity : Nat) : Laws capacity (list μ capacity) where
  sent := Record.sent
  readers := Record.readers
  fifo_opened := ⟨rfl, rfl⟩
  fifo_send h := by
    rw [(Record.send_accepted h).1]
    exact ⟨rfl, rfl⟩
  fifo_subscribe _ := ⟨rfl, rfl⟩
  fifo_recv h := by
    obtain ⟨r, hi, hm, rfl⟩ := Record.recv_cases h
    exact ⟨rfl, r, hi, hm, rfl⟩
  fifo_drop _ _ := ⟨rfl, rfl⟩
  capacity_send h := (Record.send_accepted h).2
  closed_send := Record.send_closed

end Broadcast
