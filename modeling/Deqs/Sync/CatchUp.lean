/-
# How soon the table is clean

`finished_rows_unspent` is about the blocks the fetcher has finished.  This file says by when
it has finished them all.  A server that comes up begins at block 0, and one that runs may be
any number of blocks behind; once the ledger stops growing, the fetcher is through after

    Σ over the blocks that are left (2 · key images + 3)   and a few steps more

of its own steps (`behind` has the exact number), the failed ones not counted: a removal that
the database refuses is tried again, and a failed read of the ledger costs one step more.

    behind_fetch    a step of the fetcher brings it closer, or it is through
    catches_up      so no row of the table is spent, and the last block is published
-/
import Deqs.Sync.Shutdown

namespace Deqs.Sync

open State SqliteQuoteBook

variable {mc : McCore} {S : Set Quote} {ser : Serial} {m : Nat}
variable {book : SqliteQuoteBook ser} {t t' : Stack ser} {s s' : State}

/-! ## The steps that are left -/

/-- The steps for the blocks from `n` on: reading the block, two for each key image, counting
it, and looking at the flag. -/
def blocksCost (ledger : Ledger) (n : Nat) : Nat :=
  ((ledger.drop n).map fun b => 2 * b.keyImages.length + 3).sum

/-- The steps after a tombstone pass: none, if it was for the last block. -/
def passCost (ledger : Ledger) (n : Nat) : Nat :=
  if ledger.length ≤ n then 0 else blocksCost ledger n + 5

def behind (s : State) : Nat :=
  match s.fetcher with
  | .poll => blocksCost s.ledger s.nextBlockIndex + 5
  | .load _ => blocksCost s.ledger s.nextBlockIndex + 4
  | .removing _ ks => 2 * ks.length + 2 + (blocksCost s.ledger (s.nextBlockIndex + 1) + 4)
  | .handing _ _ ks => 2 * ks.length + 3 + (blocksCost s.ledger (s.nextBlockIndex + 1) + 4)
  | .loaded _ => blocksCost s.ledger s.nextBlockIndex + 5
  | .expire _ => passCost s.ledger s.nextBlockIndex + 3
  | .handExpired _ _ => passCost s.ledger s.nextBlockIndex + 2
  | .store _ => passCost s.ledger s.nextBlockIndex + 1
  | .stopped => 0

/-- All blocks are finished, and the last of them is published. -/
structure CaughtUp (s : State) : Prop where
  next : s.nextBlockIndex = s.ledger.length
  published : s.highestProcessedBlockIndex = s.ledger.length - 1

theorem blocksCost_of_getElem? {ledger : Ledger} {n : Nat} {b : Block} (h : ledger[n]? = some b) :
    blocksCost ledger n = 2 * b.keyImages.length + 3 + blocksCost ledger (n + 1) := by
  obtain ⟨hlt, rfl⟩ := List.getElem?_eq_some_iff.mp h
  rw [blocksCost, List.drop_eq_getElem_cons hlt, List.map_cons, List.sum_cons]
  rfl

theorem blocksCost_of_le {ledger : Ledger} {n : Nat} (h : ledger.length ≤ n) :
    blocksCost ledger n = 0 := by
  rw [blocksCost, List.drop_eq_nil_of_le h]
  rfl

/-- **A step of the fetcher brings it closer**, one step or, when the ledger could not be read,
at most one step further away. -/
theorem behind_fetch (hin : InLedger s) (hsettled : Settled s) (hstop : s.stopRequested = false)
    (hp : s.book.poisoned = false) (hnot : ¬ CaughtUp s) {fault : Option String}
    (h : s.fetch mc fault = some s') : CaughtUp s' ∨
      behind s' + (if fault.isNone then 1 else 0) ≤ behind s + (if fault.isSome then 1 else 0) := by
  -- it is enough to be one step closer
  have hcloser : behind s' + 1 ≤ behind s →
      behind s' + (if fault.isNone then 1 else 0) ≤
        behind s + (if fault.isSome then 1 else 0) := by
    intro hle
    cases fault <;> simp <;> omega
  unfold Settled at hsettled
  cases fetches_of_fetch h with
  | @poll f hf hor =>
      have hgo : f = .load s.nextBlockIndex := by
        simp only [State.fetch, hf, hstop, Bool.false_eq_true, if_false] at h
        exact (congrArg State.fetcher (Option.some.inj h)).symm
      refine .inr (hcloser ?_)
      simp only [behind, hf, hgo]
      omega
  | failed hf =>
      cases fault with
      | some e =>
          refine .inr ?_
          simp only [behind, hf]
          simp
      | none =>
          simp only [State.fetch, hf] at h
          split at h
          · have hfetcher := congrArg State.fetcher (Option.some.inj h)
            simp only [Fetcher.leave] at hfetcher
            split at hfetcher <;> cases hfetcher
          · cases congrArg State.fetcher (Option.some.inj h)
  | @notFound starting hf hb =>
      rw [hf] at hsettled
      have hlen : s.ledger.length ≤ s.nextBlockIndex := List.getElem?_eq_none_iff.mp hb
      have hnext : s.nextBlockIndex = s.ledger.length := le_antisymm hin.next_le hlen
      have hne : s.nextBlockIndex ≠ starting := by
        intro heq
        refine hnot ⟨hnext, ?_⟩
        rw [hsettled.2, ← heq, hnext]
      refine .inr (hcloser ?_)
      simp only [behind, hf, Fetcher.leave, if_pos hne, passCost, if_pos hlen,
        blocksCost_of_le hlen]
      omega
  | @found starting block hf hb =>
      refine .inr (hcloser ?_)
      simp only [behind, hf, blocksCost_of_getElem? hb]
      omega
  | finish hf =>
      refine .inr (hcloser ?_)
      simp only [behind, hf, List.length_nil]
      omega
  | remove hf hr =>
      refine .inr (hcloser ?_)
      simp only [behind, hf, List.length_cons]
      omega
  | hand hf =>
      refine .inr (hcloser ?_)
      simp only [behind, hf]
      omega
  | @again starting f hf hor =>
      have hgo : f = .load starting := by
        simp only [State.fetch, hf, hstop, Bool.false_eq_true, if_false] at h
        exact (congrArg State.fetcher (Option.some.inj h)).symm
      refine .inr (hcloser ?_)
      simp only [behind, hf, hgo]
      omega
  | expire hf hr =>
      refine .inr (hcloser ?_)
      simp only [behind, hf]
      omega
  | handExpired hf =>
      refine .inr (hcloser ?_)
      simp only [behind, hf]
      omega
  | @store last hf =>
      rw [hf] at hsettled
      have hlast : last + 1 = s.nextBlockIndex := hsettled
      by_cases hlen : s.ledger.length ≤ s.nextBlockIndex
      · have hnext : s.nextBlockIndex = s.ledger.length := le_antisymm hin.next_le hlen
        refine .inl ⟨hnext, ?_⟩
        show last = s.ledger.length - 1
        omega
      · refine .inr (hcloser ?_)
        simp only [behind, hf, passCost, if_neg hlen]
        omega
  | retry hp' => simp [hp] at hp'

theorem caughtUp_fetch (hin : InLedger s) (hsettled : Settled s) (hc : CaughtUp s)
    (h : Fetches mc s s') : CaughtUp s' := by
  unfold Settled at hsettled
  cases h with
  | finish hf =>
      have hlt := hin.next_lt [] (by rw [hf]; rfl)
      exact absurd hc.next hlt.ne
  | @store last hf =>
      rw [hf] at hsettled
      have hlast : last + 1 = s.nextBlockIndex := hsettled
      refine ⟨hc.next, ?_⟩
      have hnext := hc.next
      show last = s.ledger.length - 1
      omega
  | _ => exact ⟨hc.next, hc.published⟩

/-! ## Runs over a ledger that does not grow -/

/-- A step of the fetcher during which nothing fails. -/
def unfailing (fa : Faults × Action) : Bool :=
  match fa.2 with
  | .fetch none => fa.1 = .none
  | _ => false

def readFails (fa : Faults × Action) : Bool :=
  match fa.2 with
  | .fetch (some _) => true
  | _ => false

/-- The ledger does not grow, nobody stops the fetcher, and the lock is sound. -/
structure Steady (m : Nat) (S : Set Quote) (t : Stack ser) (fa : Faults × Action) : Prop where
  serves : Serves m S t fa
  noneInBetween : NoneInBetween t.sync fa.2
  still : ∀ block, fa.2 ≠ .append block
  running : fa.2 ≠ .requestStop
  unpoisoned : t.sync.book.poisoned = false

structure Following (S : Set Quote) (t : Stack ser) : Prop where
  visited : KeptVisited S t
  settled : Settled t.sync
  running : t.sync.stopRequested = false

theorem Following.step (hS : Genuine mc S) (hser : ser.Lossless)
    (hrule : InMemoryQuoteBook.TombstoneRule mc m) (h : Following S t) {fa : Faults × Action}
    (hg : Steady m S t fa) (hs : t.step mc fa = some t') : Following S t' := by
  have hvisited := h.visited.step hS hser hrule hg.serves hg.noneInBetween hs
  obtain ⟨-, hmoves⟩ := moves_of_step hS hser hrule h.visited.kept.stored h.visited.kept.within
    hg.serves hs
  cases hmoves with
  | stutter heq => exact ⟨hvisited, heq ▸ h.settled, heq ▸ h.running⟩
  | refused _ heq => exact ⟨hvisited, heq ▸ h.settled, heq ▸ h.running⟩
  | same hstep =>
      refine ⟨hvisited, settled_step h.settled hstep, ?_⟩
      rw [stopRequested_eq_of_step hg.running hstep]
      exact h.running

theorem behind_of_sameFetcher (h : SameFetcher s s') : behind s' = behind s := by
  unfold behind
  rw [h.fetcher, h.ledger, h.nextBlockIndex]

theorem CaughtUp.of_sameFetcher (hc : CaughtUp s) (h : SameFetcher s s') : CaughtUp s' := by
  refine ⟨?_, ?_⟩
  · rw [h.nextBlockIndex, h.ledger, hc.next]
  · rw [h.highestProcessedBlockIndex, h.ledger, hc.published]

theorem caughtUp_step (hS : Genuine mc S) (hser : ser.Lossless)
    (hrule : InMemoryQuoteBook.TombstoneRule mc m) (h : Following S t) {fa : Faults × Action}
    (hc : CaughtUp t.sync) (hg : Steady m S t fa) (hs : t.step mc fa = some t') :
    CaughtUp t'.sync := by
  obtain ⟨-, hmoves⟩ := moves_of_step hS hser hrule h.visited.kept.stored h.visited.kept.within
    hg.serves hs
  cases hmoves with
  | stutter heq => exact heq ▸ hc
  | refused _ heq => exact heq ▸ ⟨hc.next, hc.published⟩
  | same hstep =>
      rcases step_cases hstep with ⟨block, hblock, -⟩ | ⟨fault, -, hfetch⟩ | hsame
      · exact absurd hblock (hg.still block)
      · exact caughtUp_fetch h.visited.visited.inLedger h.settled hc (fetches_of_fetch hfetch)
      · exact hc.of_sameFetcher hsame

/-- A step of the stack: closer by one if it is the fetcher's and nothing fails, and never
further away but for a failed read. -/
theorem behind_step (hS : Genuine mc S) (hser : ser.Lossless)
    (hrule : InMemoryQuoteBook.TombstoneRule mc m) (h : Following S t) {fa : Faults × Action}
    (hnot : ¬ CaughtUp t.sync) (hg : Steady m S t fa) (hs : t.step mc fa = some t') :
    CaughtUp t'.sync ∨ behind t'.sync + (if unfailing fa then 1 else 0) ≤
      behind t.sync + (if readFails fa then 1 else 0) := by
  have hfetches : ∀ {fault}, t.sync.fetch mc fault = some t'.sync → CaughtUp t'.sync ∨
      behind t'.sync + (if fault.isNone then 1 else 0) ≤
        behind t.sync + (if fault.isSome then 1 else 0) :=
    behind_fetch h.visited.visited.inLedger h.settled h.running hg.unpoisoned hnot
  obtain ⟨faults, a⟩ := fa
  by_cases hu : faults = .none ∧ a = .fetch none
  · obtain ⟨rfl, rfl⟩ := hu
    exact hfetches (fetch_none hser hrule h.visited.kept.stored.consistent hg.unpoisoned
      hg.serves hs)
  · have hcount : unfailing (faults, a) = false := by
      cases a with
      | fetch fault =>
          cases fault with
          | some e => rfl
          | none => simpa [unfailing] using hu
      | _ => rfl
    rw [hcount]
    obtain ⟨-, hmoves⟩ := moves_of_step hS hser hrule h.visited.kept.stored
      h.visited.kept.within hg.serves hs
    cases hmoves with
    | stutter heq => exact .inr (by rw [heq]; simp)
    | refused _ heq => exact .inr (by rw [heq]; exact Nat.le_add_right _ _)
    | same hstep =>
        rcases step_cases hstep with ⟨block, hblock, -⟩ | ⟨fault, rfl, hfetch⟩ | hsame
        · exact absurd hblock (hg.still block)
        · refine (hfetches hfetch).imp_right ?_
          intro hle
          cases fault with
          | some e => exact hle
          | none => exact (Nat.le_succ _).trans hle
        · exact .inr (by rw [behind_of_sameFetcher hsame]; exact Nat.le_add_right _ _)

/-- **The fetcher catches up.**  From any moment of any run on, if the ledger does not grow,
the fetcher has finished all its blocks and published the last of them once it has taken more
steps than it was behind, the failed ones not counted.  Then no row of the table is spent. -/
theorem catches_up (hS : Genuine mc S) (hser : ser.Lossless)
    (hrule : InMemoryQuoteBook.TombstoneRule mc m) {ledger : Ledger} (hbook : Sound S book)
    {as bs : List (Faults × Action)}
    (hrun : Lts.Run (Stack.step mc) (fun t fa => Serves m S t fa ∧ NoneInBetween t.sync fa.2)
      (.initial ledger book) as t)
    (hstop : t.sync.stopRequested = false)
    (hmore : Lts.Run (Stack.step mc) (Steady m S) t bs t')
    (hcount : behind t.sync + bs.countP readFails < bs.countP unfailing) :
    t'.sync.nextBlockIndex = t'.sync.ledger.length ∧
    t'.sync.getCurrentBlockIndex = t'.sync.ledger.length - 1 ∧
    ∀ row ∈ t'.table.rows, ∃ q, row.toQuote ser = .ok q ∧
      ∀ b ∈ t'.sync.ledger, q.keyImage ∉ b.keyImages := by
  have hvisited : KeptVisited S t := hrun.inv (KeptVisited S)
    (fun h hg hs => h.step hS hser hrule hg.1 hg.2 hs)
    ⟨(simulates_initial hbook).kept, visited_initial ledger book.quoteBook⟩
  have hsettled : Settled t.sync :=
    (settled_of_run hS hser hrule hbook (hrun.mono fun hg => hg.1)).2.1
  have hfollow : ∀ {u : Stack ser} {fa u'}, Following S u → Steady m S u fa →
      u.step mc fa = some u' → Following S u' := fun h hg hs => h.step hS hser hrule hg hs
  have h₀ : Following S t := ⟨hvisited, hsettled, hstop⟩
  have hgoal : CaughtUp t'.sync := hmore.reaches unfailing readFails (fun u => behind u.sync)
    (Following S) (fun u => CaughtUp u.sync) hfollow
    (fun h hc hg hs => caughtUp_step hS hser hrule h hc hg hs)
    (fun h hnot hg hs => behind_step hS hser hrule h hnot hg hs) h₀ hcount
  have hend : Following S t' := hmore.inv (Following S) hfollow h₀
  refine ⟨hgoal.next, hgoal.published, ?_⟩
  intro row hrow
  have hmem := hend.visited.kept.stored.consistent.mem_iff.mp (List.mem_map_of_mem hrow)
  obtain ⟨q, hq, hdec⟩ := List.mem_map.mp hmem
  refine ⟨q, hdec.symm, ?_⟩
  intro b hb hk
  -- every block is finished
  obtain ⟨i, hi⟩ := List.getElem?_of_mem hb
  have hle := (hend.visited.visited.ahead q (.inl hq) i b hi hk).1
  have hlt := (List.getElem?_eq_some_iff.mp hi).1
  have hnext := hgoal.next
  omega

/-- The server comes up on a table whose only quote was spent while it was down. -/
theorem afterSpent_catches_up : ∃ t' : Stack sampleSerial,
    Lts.Run (Stack.step sampleCore) (Steady 20160 oneQuote)
      (.initial [⟨[], []⟩, ⟨[⟨.fill 1⟩], []⟩] oneQuoteBook)
      (List.replicate 14 (.none, .fetch none)) t' ∧
    t'.sync.nextBlockIndex = t'.sync.ledger.length ∧
    t'.sync.getCurrentBlockIndex = t'.sync.ledger.length - 1 ∧
    ∀ row ∈ t'.table.rows, ∃ q, row.toQuote sampleSerial = .ok q ∧
      ∀ b ∈ t'.sync.ledger, q.keyImage ∉ b.keyImages := by
  have hmore : ∃ t' : Stack sampleSerial,
      Lts.Run (Stack.step sampleCore) (Steady 20160 oneQuote)
        (.initial [⟨[], []⟩, ⟨[⟨.fill 1⟩], []⟩] oneQuoteBook)
        (List.replicate 14 (.none, .fetch none)) t' := by
    have hsteady : ∀ {t : Stack sampleSerial}, (∀ i, (t.sync.calls i).Quiet) →
        t.sync.book.poisoned = false → (∀ c, Expires t c (.fetch none) →
          c < 2 ^ 63 ∧ ∀ q ∈ t.sync.book.quotes, q.tombstoneBlock.toNat ≤ c + 20160) →
        Steady 20160 oneQuote t (.none, .fetch none) := fun hquiet hp hnear =>
      ⟨⟨rfl, trivial, hnear⟩, noneInBetween_of_quiet hquiet _, by simp, by simp, hp⟩
    refine ⟨_, .cons ?_ rfl (.cons ?_ rfl (.cons ?_ rfl (.cons ?_ rfl (.cons ?_ rfl (.cons ?_ rfl
      (.cons ?_ rfl (.cons ?_ rfl (.cons ?_ rfl (.cons ?_ rfl (.cons ?pass rfl (.cons ?_ rfl
      (.cons ?_ rfl (.cons ?_ rfl (.nil _))))))))))))))⟩
    case pass =>
      refine hsteady (fun _ => trivial) rfl ?_
      rintro c ⟨⟩
      exact ⟨by decide, fun q hq => absurd hq List.not_mem_nil⟩
    all_goals exact hsteady (fun _ => trivial) rfl (fun _ h => by cases h)
  obtain ⟨t', hmore⟩ := hmore
  exact ⟨t', hmore, catches_up oneQuote_genuine sampleSerial_lossless
    InMemoryQuoteBook.sampleCore_tombstoneRule oneQuoteBook_sound (.nil _) rfl hmore (by decide)⟩

end Deqs.Sync
