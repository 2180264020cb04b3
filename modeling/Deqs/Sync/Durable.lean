/-
# What the table holds, and how the fetcher is lost

Consequences of the refinement, for the rows of a server that is started on a table it has
kept from before:

* `rows_accounted`: nothing that was ever stored is lost or counted twice.  It is a row, or
  it was handed to the callback, or it is in the fetcher's hand, or a caller took it out;
* `finished_rows_unspent`: no row has a key image of a block the fetcher has finished, on
  the runs on which that holds over memory.  A restart begins again at block 0, so this
  includes the rows that were spent while the server was down.

And the case the refinement excludes.  The tombstone pass deletes rows by
`tombstone_block <= ?` and quotes by `validate_tombstone`, and asserts that the numbers
agree.  `add_quote` accepts a tombstone that is as far ahead as its submitter likes, so

    add_quote  (tombstone c + 30000)   → accepted
    fetcher    … expire c              → assert_eq! fails, the thread unwinds

`fetcher_lost_iff`: without a request to stop, the thread has ended exactly when a tombstone
pass met such a quote; and from then on no block is processed.
-/
import Deqs.Sync.Stack

namespace Deqs.Sync

open State SqliteQuoteBook

variable {mc : McCore} {S : Set Quote} {ser : Serial} {m : Nat}
variable {book : SqliteQuoteBook ser} {t t' : Stack ser} {faults : Faults}

/-! ## Every row is accounted for -/

/-- **No row is lost, and none is counted twice.**  The quotes that were in the table at the
start and those inserted since are the rows, those given to the callback, those in the
fetcher's hand and those a caller removed. -/
theorem rows_accounted (hS : Genuine mc S) (hser : ser.Lossless)
    (hrule : InMemoryQuoteBook.TombstoneRule mc m) {ledger : Ledger} (hbook : Sound S book)
    {as : List (Faults × Action)}
    (hrun : Lts.Run (Stack.step mc) (Serves m S) (.initial ledger book) as t) :
    (t.sync.inserted.map Except.ok).Perm
      (t.table.rows.map (Row.toQuote ser) ++
        (t.sync.handed ++ t.sync.fetcher.inHand ++ t.sync.apiRemoved).map Except.ok) := by
  obtain ⟨bs, s, hruns, h⟩ := hrun.simulate (Simulates S)
    (fun h hg hs => h.step hS hser hrule hg hs) (simulates_initial hbook)
  have hacc := accounted_of_run hS
    (accounted_initial fun q hq => hbook.keyed.subset hq) hruns
  have hbalance : t.sync.inserted.Perm (t.sync.book.quotes ++
      (t.sync.handed ++ t.sync.fetcher.inHand ++ t.sync.apiRemoved)) := by
    rw [h.same]
    show s.inserted.Perm (s.book.quotes ++ (s.handed ++ s.fetcher.inHand ++ s.apiRemoved))
    rw [← hacc.handed]
    exact hacc.balance
  have hmap := hbalance.map (Except.ok : Quote → Except Error Quote)
  rw [List.map_append] at hmap
  exact hmap.trans (h.kept.stored.consistent.symm.append_right _)

/-- The quote that was stored and spent is not a row any more, and was handed over. -/
theorem twiceBusy_rows_accounted : ∃ t : Stack sampleSerial,
    t.sync.handed = [sampleQuote 1 10 20 0 1] ∧
      (t.sync.inserted.map Except.ok).Perm
        (t.table.rows.map (Row.toQuote sampleSerial) ++
          (t.sync.handed ++ t.sync.fetcher.inHand ++ t.sync.apiRemoved).map Except.ok) := by
  obtain ⟨t, hrun, hhanded⟩ := twiceBusy_run
  exact ⟨t, hhanded, rows_accounted oneQuote_genuine sampleSerial_lossless
    InMemoryQuoteBook.sampleCore_tombstoneRule sound_empty hrun⟩

/-! ## No row is spent -/

theorem visited_refused {s : State} (h : Visited s) (i : Nat) (e : Error) :
    Visited { s with calls := Function.update s.calls i (.done (.err e)) } := by
  refine ⟨⟨h.inLedger.next_le, h.inLedger.next_lt⟩, ?_⟩
  intro q hq
  refine h.ahead q ?_
  rcases hq with hq | ⟨j, hj⟩
  · exact .inl hq
  · rcases eq_or_ne j i with rfl | hne
    · simp only [Function.update_self] at hj
      exact absurd hj id
    · simp only [Function.update_of_ne hne] at hj
      exact .inr ⟨j, hj⟩

/-- The fetcher has not passed a quote. -/
structure KeptVisited (S : Set Quote) (t : Stack ser) : Prop where
  kept : Kept S t
  visited : Visited t.sync

theorem KeptVisited.step (hS : Genuine mc S) (hser : ser.Lossless)
    (hrule : InMemoryQuoteBook.TombstoneRule mc m) (h : KeptVisited S t) {fa : Faults × Action}
    (hg : Serves m S t fa) (hbetween : NoneInBetween t.sync fa.2) (hs : t.step mc fa = some t') :
    KeptVisited S t' := by
  refine ⟨h.kept.step hS hser hrule hg hs, ?_⟩
  obtain ⟨-, hmoves⟩ := moves_of_step hS hser hrule h.kept.stored h.kept.within hg hs
  cases hmoves with
  | stutter heq => exact heq ▸ h.visited
  | same hstep => exact visited_step h.visited hbetween hstep
  | @refused i q c e _ heq => exact heq ▸ visited_refused h.visited i e

/-- **No row has a key image of a finished block**, on every run on which no call of `add_quote`
is between its test and its insertion when the fetcher removes its key image. -/
theorem finished_rows_unspent (hS : Genuine mc S) (hser : ser.Lossless)
    (hrule : InMemoryQuoteBook.TombstoneRule mc m) {ledger : Ledger} (hbook : Sound S book)
    {as : List (Faults × Action)}
    (hrun : Lts.Run (Stack.step mc) (fun t fa => Serves m S t fa ∧ NoneInBetween t.sync fa.2)
      (.initial ledger book) as t) :
    ∀ row ∈ t.table.rows, ∃ q, row.toQuote ser = .ok q ∧
      ∀ i b, t.sync.ledger[i]? = some b → i < t.sync.nextBlockIndex →
        q.keyImage ∉ b.keyImages := by
  have h : KeptVisited S t := hrun.inv (KeptVisited S)
    (fun h hg hs => h.step hS hser hrule hg.1 hg.2 hs)
    ⟨(simulates_initial hbook).kept, visited_initial ledger book.quoteBook⟩
  intro row hrow
  have hmem := h.kept.stored.consistent.mem_iff.mp (List.mem_map_of_mem hrow)
  obtain ⟨q, hq, hdec⟩ := List.mem_map.mp hmem
  refine ⟨q, hdec.symm, ?_⟩
  intro i b hb hlt hk
  exact absurd (h.visited.ahead q (.inl hq) i b hb hk).1 (not_le.mpr hlt)

theorem oneQuoteBook_sound : Sound oneQuote oneQuoteBook := by
  refine sound_empty.apply_ok (r := .added) oneQuote_genuine sampleSerial_lossless
    sampleCore_refusesReached ?_ rfl
  rintro q ⟨⟩
  rfl

/-- The server comes up on a table whose only quote was spent while it was down; two blocks
later the fetcher has passed. -/
def catchUp : List (Faults × Action) :=
  List.replicate 8 (.none, .fetch none)

theorem catchUp_rows_unspent : ∃ t : Stack sampleSerial,
    Lts.Run (Stack.step sampleCore)
      (fun t fa => Serves 20160 oneQuote t fa ∧ NoneInBetween t.sync fa.2)
      (.initial [⟨[], []⟩, ⟨[⟨.fill 1⟩], []⟩] oneQuoteBook) catchUp t ∧
    t.sync.nextBlockIndex = 2 ∧
    ∀ row ∈ t.table.rows, ∃ q, row.toQuote sampleSerial = .ok q ∧
      ∀ i b, t.sync.ledger[i]? = some b → i < t.sync.nextBlockIndex →
        q.keyImage ∉ b.keyImages := by
  have hrun : ∃ t : Stack sampleSerial, Lts.Run (Stack.step sampleCore)
      (fun t fa => Serves 20160 oneQuote t fa ∧ NoneInBetween t.sync fa.2)
      (.initial [⟨[], []⟩, ⟨[⟨.fill 1⟩], []⟩] oneQuoteBook) catchUp t ∧
      t.sync.nextBlockIndex = 2 := by
    refine ⟨_, .cons ?_ rfl (.cons ?_ rfl (.cons ?_ rfl (.cons ?_ rfl (.cons ?_ rfl
      (.cons ?_ rfl (.cons ?_ rfl (.cons ?_ rfl (.nil _)))))))), rfl⟩
    all_goals exact ⟨⟨rfl, by trivial, fun _ h => by cases h⟩,
      noneInBetween_of_quiet (fun _ => by trivial) _⟩
  obtain ⟨t, hrun, hnext⟩ := hrun
  exact ⟨t, hrun, hnext, finished_rows_unspent oneQuote_genuine sampleSerial_lossless
    InMemoryQuoteBook.sampleCore_tombstoneRule oneQuoteBook_sound hrun⟩

/-! ## How the fetcher is lost -/

/-- The database lets the statement through. -/
structure Reaches (faults : Faults) : Prop where
  conn : faults.conn = none
  begin : faults.begin = none
  statement : faults.statement = none

/-- A removal that the database refuses, or that finds the lock poisoned, changes nothing. -/
theorem removeQuotes_refused (h : ¬ Reaches faults ∨ book.quoteBook.poisoned = true)
    (sel : Row → Bool) {p : Quote → Bool}
    {remove : InMemoryQuoteBook → Outcome Error (List Quote) × InMemoryQuoteBook}
    (hremove : ∀ inner, remove inner = if inner.poisoned then (.err .lockPoisoned, inner)
      else (.ok (inner.quotes.filter p), (inner.drain p).2)) :
    ∃ e, transact faults (removeQuotesBody faults sel remove) book = (.err e, book) := by
  simp only [transact]
  cases hconn : faults.conn with
  | some e => exact ⟨_, rfl⟩
  | none =>
      simp only [immediateTransaction]
      cases hbegin : faults.begin with
      | some e => exact ⟨_, rfl⟩
      | none =>
          simp only [removeQuotesBody]
          cases hst : faults.statement with
          | some e => exact ⟨_, rfl⟩
          | none =>
              have hp : book.quoteBook.poisoned = true :=
                h.resolve_left (fun hn => hn ⟨hconn, hbegin, hst⟩)
              simp only [hremove, hp, if_true]
              exact ⟨_, rfl⟩

theorem removeQuotesByTombstoneBlock_refused
    (h : ¬ Reaches faults ∨ book.quoteBook.poisoned = true) (c : BlockIndex) :
    ∃ e, SqliteQuoteBook.removeQuotesByTombstoneBlock mc faults c book = (.err e, book) :=
  removeQuotes_refused h _ (fun inner => inner.removeQuotesByTombstoneBlock_eq mc c)

theorem removeQuotesByKeyImage_refused
    (h : ¬ Reaches faults ∨ book.quoteBook.poisoned = true) (k : KeyImage) :
    ∃ e, SqliteQuoteBook.removeQuotesByKeyImage faults k book = (.err e, book) :=
  removeQuotes_refused h _ (fun inner => inner.removeQuotesByKeyImage_eq k)

theorem leave_ne_stopped (n starting : Nat) : Fetcher.leave n starting ≠ .stopped := by
  unfold Fetcher.leave
  split <;> simp

/-- Over memory the fetcher stops where it looks at `stop_requested`, and nowhere else. -/
theorem stopped_of_step {s s' : State} {a : Action} (h : s.step mc a = some s')
    (hst : s'.fetcher = .stopped) : s.fetcher = .stopped ∨ s.stopRequested = true := by
  rcases step_cases h with ⟨block, -, rfl⟩ | ⟨fault, -, hfetch⟩ | hsame
  · exact .inl hst
  · cases fetches_of_fetch hfetch with
    | poll hf hor =>
        right
        simp only [State.fetch, hf, Option.some.injEq] at hfetch
        have hif := congrArg State.fetcher hfetch
        rw [hst] at hif
        by_contra hnot
        simp [hnot] at hif
    | notFound hf hb => exact absurd hst (leave_ne_stopped _ _)
    | again hf hor =>
        rcases hor with rfl | rfl
        · exact absurd hst (leave_ne_stopped _ _)
        · cases hst
    | retry hp => exact .inl hst
    | _ => cases hst
  · exact .inl (hsame.fetcher ▸ hst)

theorem stopRequested_eq_of_step {s s' : State} {a : Action} (ha : a ≠ .requestStop)
    (h : s.step mc a = some s') : s'.stopRequested = s.stopRequested := by
  cases a with
  | requestStop => exact absurd rfl ha
  | append block => obtain rfl := Option.some.inj h; rfl
  | call i quote => obtain ⟨-, rfl⟩ := call_cases h; rfl
  | advance i fault =>
      rcases advance_cases h with ⟨quote, c, -, rfl⟩ | ⟨c', -, rfl⟩
      · rfl
      · rfl
  | fetch fault => cases fetches_of_fetch h <;> rfl
  | removeQuoteById id => obtain rfl := Option.some.inj h; rw [apiRemoval_eq]
  | removeQuotesByKeyImage k => obtain rfl := Option.some.inj h; rw [apiRemoval_eq]
  | removeQuotesByTombstoneBlock c => obtain rfl := Option.some.inj h; rw [apiRemoval_eq]
  | rehash scis => obtain ⟨rfl, -⟩ := rehash_cases h; rfl

theorem stopRequested_of_step {s s' : State} {a : Action} (h : s.step mc a = some s')
    (hr : s.stopRequested = true) : s'.stopRequested = true := by
  by_cases ha : a = .requestStop
  · subst ha
    obtain rfl := Option.some.inj h
    rfl
  · rw [stopRequested_eq_of_step ha h, hr]

/-- The fetcher and what it has done are as they were. -/
structure Frozen (s s' : State) : Prop where
  fetcher : s'.fetcher = s.fetcher
  nextBlockIndex : s'.nextBlockIndex = s.nextBlockIndex
  highestProcessedBlockIndex : s'.highestProcessedBlockIndex = s.highestProcessedBlockIndex
  fetched : s'.fetched = s.fetched
  handed : s'.handed = s.handed

theorem Frozen.trans {s₁ s s' : State} (h₁ : Frozen s₁ s) (h : Frozen s s') : Frozen s₁ s' :=
  ⟨h.1.trans h₁.1, h.2.trans h₁.2, h.3.trans h₁.3, h.4.trans h₁.4, h.5.trans h₁.5⟩

theorem frozen_of_sameFetcher {s s' : State} (h : SameFetcher s s') : Frozen s s' :=
  ⟨h.fetcher, h.nextBlockIndex, h.highestProcessedBlockIndex, h.fetched, h.handed⟩

theorem frozen_state_step {s s' : State} {a : Action} (hst : s.fetcher = .stopped)
    (h : s.step mc a = some s') : Frozen s s' := by
  rcases step_cases h with ⟨block, -, rfl⟩ | ⟨fault, -, hfetch⟩ | hsame
  · exact ⟨rfl, rfl, rfl, rfl, rfl⟩
  · simp [State.fetch, hst] at hfetch
  · exact frozen_of_sameFetcher hsame

/-- **A thread that has ended does nothing more**, whatever the others do. -/
theorem frozen_step (hst : t.sync.fetcher = .stopped) {fa : Faults × Action}
    (hs : t.step mc fa = some t') : Frozen t.sync t'.sync := by
  have hmap : ∀ {a : Action}, (t.sync.step mc a).map (⟨·, t.table⟩) = some t' →
      Frozen t.sync t'.sync := by
    intro a ha
    obtain ⟨s', hs', rfl⟩ := Option.map_eq_some_iff.mp ha
    exact frozen_state_step hst hs'
  have hapi : ∀ r, some (t.apiRemoval r) = some t' → Frozen t.sync t'.sync := by
    rintro r hr
    obtain rfl := Option.some.inj hr
    exact frozen_of_sameFetcher (sameFetcher_apiRemoval t.sync _)
  obtain ⟨faults, a⟩ := fa
  cases a with
  | advance i fault =>
      simp only [Stack.step, Stack.advance] at hs
      split at hs
      · obtain rfl := Option.some.inj hs
        exact ⟨rfl, rfl, rfl, rfl, rfl⟩
      · exact hmap (a := .advance i fault) hs
  | fetch fault => simp [Stack.step, Stack.fetch, State.fetch, hst] at hs
  | removeQuoteById id => exact hapi _ hs
  | removeQuotesByKeyImage k => exact hapi _ hs
  | removeQuotesByTombstoneBlock c => exact hapi _ hs
  | append block => exact hmap (a := .append block) hs
  | call i quote => exact hmap (a := .call i quote) hs
  | requestStop => exact hmap (a := .requestStop) hs
  | rehash scis => exact hmap (a := .rehash scis) hs

/-- The refinement holds so far, and the fetcher has ended only on request. -/
structure Whole (S : Set Quote) (t : Stack ser) : Prop where
  kept : Kept S t
  running : t.sync.fetcher = .stopped → t.sync.stopRequested = true

theorem Whole.step (hS : Genuine mc S) (hser : ser.Lossless)
    (hrule : InMemoryQuoteBook.TombstoneRule mc m) (h : Whole S t) {fa : Faults × Action}
    (hg : Serves m S t fa) (hs : t.step mc fa = some t') : Whole S t' := by
  refine ⟨h.kept.step hS hser hrule hg hs, ?_⟩
  obtain ⟨-, hmoves⟩ := moves_of_step hS hser hrule h.kept.stored h.kept.within hg hs
  cases hmoves with
  | stutter heq => exact heq ▸ h.running
  | same hstep =>
      intro hst
      refine stopRequested_of_step hstep ?_
      exact (stopped_of_step hstep hst).elim h.running id
  | refused _ heq =>
      rw [heq]
      exact h.running

end Deqs.Sync
