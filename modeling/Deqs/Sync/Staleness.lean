/-
# What the fetcher has passed, and what it lets stay

`add_quote` tests the key image against the ledger and inserts later.  Between the two a
block with that key image may be appended *and* processed: the fetcher removes the
quotes of the key image, finds none, and goes on; then the quote is inserted, and no one
visits the block again.

    add_quote     test ─────────────────────────────────────── insert
    ledger               append {k}
    fetcher                          read, remove k, next

`spent_quotes_visited` is what holds: along every run in which no call is between its
test and its insertion with a key image while the fetcher removes that key image, every
quote of the book whose key image is in the ledger is still ahead of the fetcher.
`spent_quote_left_behind` is the schedule above.

The second half compares admission with expiry.  `add_quote` compares block indices, the
tombstone pass asks `validate_tombstone`, which also refuses what is too far ahead.
-/
import Deqs.Sync.Model

namespace Deqs.Sync

open State

variable {mc : McCore} {s s' : State} {q : Quote} {k : KeyImage}

/-! ## Live quotes -/

/-- In the book, or on its way there past the test of the key image. -/
def Live (s : State) (q : Quote) : Prop :=
  q ∈ s.book.quotes ∨ ∃ i, (s.calls i).PastTest q

/-- A call gets past the test only with a key image the ledger does not have. -/
theorem AddCall.pastTest_of_next {ledger : Ledger} {fault : Option String} {c c' : AddCall}
    (h : c.next ledger fault = some c') (hq : c'.PastTest q) :
    c.PastTest q ∨ ∀ b ∈ ledger, q.keyImage ∉ b.keyImages := by
  rcases next_cases h with ⟨e, rfl⟩ | ⟨_, rfl, rfl, -⟩ | ⟨_, _, rfl, rfl, hk, -⟩ |
    ⟨_, _, _, _, _, rfl, rfl, -⟩
  · exact absurd hq id
  · exact absurd hq id
  · obtain rfl := hq
    exact .inr hk
  · exact .inl hq

/-- **No step makes a quote live**, except the test of its key image. -/
theorem live_of_step {a : Action} (h : s.step mc a = some s') (hq : Live s' q) :
    Live s q ∨ ∀ b ∈ s.ledger, q.keyImage ∉ b.keyImages := by
  rcases hq with hq | ⟨j, hj⟩
  · rcases mem_quotes_of_step h hq with hq | ⟨i, c, hi⟩
    · exact .inl (.inl hq)
    · exact .inl (.inr ⟨i, by rw [hi]; rfl⟩)
  · rcases calls_of_step h j with he | ⟨quote, -, he⟩ | ⟨r, he⟩ | ⟨fault, he⟩
    · exact .inl (.inr ⟨j, he ▸ hj⟩)
    · rw [he] at hj
      exact absurd hj id
    · rw [he] at hj
      exact absurd hj id
    · exact (AddCall.pastTest_of_next he hj).imp_left fun hi => .inr ⟨j, hi⟩

/-! ## What is still ahead of the fetcher -/

/-- Wherever the ledger has the key image, the fetcher has yet to come: the block is not
finished, and if it is the current one the key image is still to be removed. -/
def Ahead (s : State) (k : KeyImage) : Prop :=
  ∀ i b, s.ledger[i]? = some b → k ∈ b.keyImages → s.nextBlockIndex ≤ i ∧
    ∀ ks, s.fetcher.remaining = some ks → i = s.nextBlockIndex → k ∈ ks

theorem ahead_of_not_mem (h : ∀ b ∈ s.ledger, k ∉ b.keyImages) : Ahead s k :=
  fun _ b hb hk => absurd hk (h b (List.mem_of_getElem? hb))

theorem Ahead.congr (h : Ahead s k) (hl : s'.ledger = s.ledger)
    (hn : s'.nextBlockIndex = s.nextBlockIndex)
    (hr : s'.fetcher.remaining = none ∨ s'.fetcher.remaining = s.fetcher.remaining) :
    Ahead s' k := by
  intro i b hb hk
  rw [hl] at hb
  obtain ⟨hle, hks⟩ := h i b hb hk
  rw [hn]
  refine ⟨hle, ?_⟩
  intro ks hrem hi
  rcases hr with hr | hr
  · rw [hr] at hrem
    cases hrem
  · exact hks ks (hr ▸ hrem) hi

structure InLedger (s : State) : Prop where
  next_le : s.nextBlockIndex ≤ s.ledger.length
  next_lt : ∀ ks, s.fetcher.remaining = some ks → s.nextBlockIndex < s.ledger.length

theorem remaining_leave (n starting : Nat) : (Fetcher.leave n starting).remaining = none := by
  unfold Fetcher.leave
  split <;> rfl

theorem inLedger_fetches (hs : InLedger s) (h : Fetches mc s s') : InLedger s' := by
  cases h with
  | found hf hb =>
      have hlt := (List.getElem?_eq_some_iff.mp hb).1
      exact ⟨hs.next_le, fun _ _ => hlt⟩
  | finish hf =>
      have hlt := hs.next_lt [] (by rw [hf]; rfl)
      exact ⟨hlt, fun ks h => by cases h⟩
  | remove hf hr => exact ⟨hs.next_le, fun _ _ => hs.next_lt _ (by rw [hf]; rfl)⟩
  | hand hf => exact ⟨hs.next_le, fun _ _ => hs.next_lt _ (by rw [hf]; rfl)⟩
  | retry => exact hs
  | notFound hf hb =>
      exact ⟨hs.next_le, fun ks h => by rw [remaining_leave] at h; cases h⟩
  | poll hf hor =>
      refine ⟨hs.next_le, ?_⟩
      intro ks hk
      rcases hor with rfl | rfl <;> cases hk
  | again hf hor =>
      refine ⟨hs.next_le, ?_⟩
      intro ks hk
      rcases hor with rfl | rfl
      · rw [remaining_leave] at hk
        cases hk
      · cases hk
  | _ => exact ⟨hs.next_le, fun ks h => by cases h⟩

theorem ahead_fetches (hs : Ahead s k) (h : Fetches mc s s')
    (hne : ∀ starting k' ks, s.fetcher = .removing starting (k' :: ks) →
      s.book.poisoned = false → k ≠ k') : Ahead s' k := by
  cases h with
  | poll hf hor => exact hs.congr rfl rfl (.inl (by rcases hor with rfl | rfl <;> rfl))
  | failed hf => exact hs.congr rfl rfl (.inl rfl)
  | notFound hf hb => exact hs.congr rfl rfl (.inl (remaining_leave _ _))
  | found hf hb =>
      intro i b hi hk
      refine ⟨(hs i b hi hk).1, ?_⟩
      rintro _ ⟨⟩ rfl
      obtain rfl := Option.some.inj (hb.symm.trans hi)
      exact hk
  | finish hf =>
      intro i b hi hk
      obtain ⟨hle, hks⟩ := hs i b hi hk
      refine ⟨?_, fun ks h => by cases h⟩
      -- a block that is finished had all its key images removed
      have hi : i ≠ s.nextBlockIndex :=
        fun hi => absurd (hks [] (by rw [hf]; rfl) hi) List.not_mem_nil
      show s.nextBlockIndex + 1 ≤ i
      omega
  | @remove starting k' ks removed book hf hr =>
      have hp := (InMemoryQuoteBook.removeQuotesByKeyImage_ok hr).1
      intro i b hi hk
      obtain ⟨hle, hks⟩ := hs i b hi hk
      refine ⟨hle, ?_⟩
      rintro _ ⟨⟩ hi
      exact (List.mem_cons.mp (hks (k' :: ks) (by rw [hf]; rfl) hi)).resolve_left
        (hne starting k' ks hf hp)
  | hand hf => exact hs.congr rfl rfl (.inr (by rw [hf]; rfl))
  | again hf hor =>
      refine hs.congr rfl rfl (.inl ?_)
      rcases hor with rfl | rfl
      · exact remaining_leave _ _
      · rfl
  | expire hf hr => exact hs.congr rfl rfl (.inl rfl)
  | handExpired hf => exact hs.congr rfl rfl (.inl rfl)
  | store hf => exact hs.congr rfl rfl (.inl rfl)
  | retry => exact hs

theorem ahead_append (hs : InLedger s) (h : Ahead s k) (block : Block) :
    Ahead { s with ledger := s.ledger ++ [block] } k := by
  intro i b hi hk
  by_cases hlt : i < s.ledger.length
  · exact h i b (by rwa [List.getElem?_append_left hlt] at hi) hk
  · -- the new block lies behind all the fetcher knows
    refine ⟨le_trans hs.next_le (not_lt.mp hlt), ?_⟩
    rintro ks hks rfl
    exact absurd (hs.next_lt ks hks) hlt

/-- When the fetcher removes the quotes of a key image, no call of `add_quote` for that
key image is between its test and its insertion. -/
def NoneInBetween (s : State) : Action → Prop
  | .fetch _ => ∀ starting k ks, s.fetcher = .removing starting (k :: ks) →
      ∀ i q, (s.calls i).PastTest q → q.keyImage ≠ k
  | _ => True

/-- The invariant. -/
structure Visited (s : State) : Prop where
  inLedger : InLedger s
  ahead : ∀ q, Live s q → Ahead s q.keyImage

theorem visited_initial (ledger : Ledger) (book : InMemoryQuoteBook) :
    Visited (State.initial ledger book) where
  inLedger := ⟨Nat.zero_le _, fun ks h => by cases h⟩
  ahead := fun _ _ i _ _ _ => ⟨Nat.zero_le i, fun ks h => by cases h⟩

/-- What the removal leaves does not have the key image removed. -/
theorem keyImage_ne_of_live (hg : ∀ i q, (s.calls i).PastTest q → q.keyImage ≠ k)
    {starting : Nat} {ks : List KeyImage} {fault : Option String}
    (hf : s.fetcher = .removing starting (k :: ks)) (hp : s.book.poisoned = false)
    (h : s.fetch mc fault = some s') (hq : Live s' q) : q.keyImage ≠ k := by
  obtain rfl := fetch_removing h hf hp
  rcases hq with hq | ⟨i, hi⟩
  · rw [InMemoryQuoteBook.quotes_drain] at hq
    simpa using (List.mem_filter.mp hq).2
  · exact hg i q hi

theorem visited_step {a : Action} (hs : Visited s) (hg : NoneInBetween s a)
    (h : s.step mc a = some s') : Visited s' := by
  rcases step_cases h with ⟨block, rfl, rfl⟩ | ⟨fault, rfl, hfetch⟩ | hsame
  · refine ⟨⟨?_, ?_⟩, fun q hq => ahead_append hs.inLedger (hs.ahead q hq) block⟩
    · exact le_trans hs.inLedger.next_le (by simp)
    · exact fun ks hks => lt_of_lt_of_le (hs.inLedger.next_lt ks hks) (by simp)
  · have hf := fetches_of_fetch hfetch
    refine ⟨inLedger_fetches hs.inLedger hf, ?_⟩
    intro q hq
    rcases live_of_step h hq with hlive | hnot
    · refine ahead_fetches (hs.ahead q hlive) hf ?_
      intro starting k' ks hrem hp
      exact keyImage_ne_of_live (hg starting k' ks hrem) hrem hp hfetch hq
    · exact ahead_of_not_mem (by rw [hf.ledger_eq]; exact hnot)
  · -- the rest of the system can only make a quote live, by testing its key image
    refine ⟨⟨?_, ?_⟩, ?_⟩
    · rw [hsame.ledger, hsame.nextBlockIndex]
      exact hs.inLedger.next_le
    · rw [hsame.ledger, hsame.nextBlockIndex, hsame.fetcher]
      exact hs.inLedger.next_lt
    · intro q hq
      rcases live_of_step h hq with hlive | hnot
      · exact (hs.ahead q hlive).congr hsame.ledger hsame.nextBlockIndex
          (.inr (by rw [hsame.fetcher]))
      · exact ahead_of_not_mem (by rw [hsame.ledger]; exact hnot)

/-- **Quotes of finished blocks are gone**, on every run on which no call of `add_quote` is
between its test and its insertion when the fetcher removes its key image. -/
theorem spent_quotes_visited {ledger : Ledger} {book : InMemoryQuoteBook} {as : List Action}
    (h : Lts.Run (State.step mc) NoneInBetween (State.initial ledger book) as s) :
    ∀ q ∈ s.book.quotes, ∀ i b, s.ledger[i]? = some b → i < s.nextBlockIndex →
      q.keyImage ∉ b.keyImages := by
  have hv : Visited s := h.inv Visited (fun hs hg hstep => visited_step hs hg hstep)
    (visited_initial ledger book)
  intro q hq i b hb hlt hk
  exact absurd (hv.ahead q (.inl hq) i b hb hk).1 (not_le.mpr hlt)

theorem noneInBetween_of_quiet (h : ∀ i, (s.calls i).Quiet) (a : Action) : NoneInBetween s a := by
  cases a with
  | fetch fault =>
      intro starting k ks hf i q hq
      have hi := h i
      cases hc : s.calls i with
      | checkingRing quote c rest =>
          rw [hc] at hi
          exact absurd hi id
      | _ =>
          rw [hc] at hq
          exact absurd hq id
  | _ => trivial

theorem quiet_of_done {calls : Nat → AddCall} {r : Outcome Error Unit}
    (h0 : calls 0 = .done r) (h : ∀ n, calls (n + 1) = .idle) : ∀ i, (calls i).Quiet
  | 0 => by rw [h0]; trivial
  | n + 1 => by rw [h n]; trivial

def origin : Ledger := [⟨[], []⟩]

/-- The quote is inserted, its key image is spent, the fetcher comes by. -/
def inTurn : List Action :=
  [.call 0 (sampleQuote 1 10 20 0 1), .advance 0 none, .advance 0 none, .advance 0 none,
    .append ⟨[⟨.fill 1⟩], []⟩, .fetch none, .fetch none, .fetch none, .fetch none, .fetch none,
    .fetch none, .fetch none, .fetch none]

theorem inTurn_spent_quotes_visited : ∃ s : State,
    Lts.Run (State.step sampleCore) NoneInBetween (State.initial origin .default) inTurn s ∧
      s.nextBlockIndex = 2 ∧ s.handed = [sampleQuote 1 10 20 0 1] ∧
      ∀ q ∈ s.book.quotes, ∀ i b, s.ledger[i]? = some b → i < s.nextBlockIndex →
        q.keyImage ∉ b.keyImages := by
  have hrun : ∃ s : State,
      Lts.Run (State.step sampleCore) NoneInBetween (State.initial origin .default) inTurn s ∧
        s.nextBlockIndex = 2 ∧ s.handed = [sampleQuote 1 10 20 0 1] := by
    refine ⟨_, .cons trivial rfl (.cons trivial rfl (.cons trivial rfl (.cons trivial rfl
      (.cons trivial rfl (.cons ?_ rfl (.cons ?_ rfl (.cons ?_ rfl (.cons ?_ rfl (.cons ?_ rfl
      (.cons ?_ rfl (.cons ?_ rfl (.cons ?_ rfl (.nil _))))))))))))), rfl, rfl⟩
    all_goals exact noneInBetween_of_quiet (quiet_of_done rfl fun _ => rfl) _
  obtain ⟨s, hrun, hnext, hhanded⟩ := hrun
  exact ⟨s, hrun, hnext, hhanded, spent_quotes_visited hrun⟩

def tooLate : List Action :=
  [.call 0 (sampleQuote 1 10 20 0 1), .advance 0 none, .advance 0 none,
    .append ⟨[⟨.fill 1⟩], []⟩, .fetch none, .fetch none, .fetch none, .fetch none, .fetch none,
    .fetch none, .fetch none, .fetch none, .advance 0 none]

/-- The quote is in the book, its key image in a block the fetcher has finished, and no
call is running. -/
theorem spent_quote_left_behind : ∃ s : State,
    Lts.Run (State.step sampleCore) Lts.Any (State.initial origin .default) tooLate s ∧
      (∀ i, (s.calls i).Quiet) ∧
      ∃ q ∈ s.book.quotes, ∃ i b, s.ledger[i]? = some b ∧ i < s.nextBlockIndex ∧
        q.keyImage ∈ b.keyImages :=
  ⟨_, Lts.run_of_exec rfl, quiet_of_done rfl fun _ => rfl, _, List.mem_singleton.mpr rfl, 1, _, rfl,
    by decide, List.mem_singleton.mpr rfl⟩

/-! ## Admission and expiry -/

/-- What a call has established about the tombstone block. -/
def AddCall.Admissible : AddCall → Prop
  | .readBlocks q c => Unreached q c
  | .checkingRing q c _ => Unreached q c
  | _ => True

theorem AddCall.admissible_next {ledger : Ledger} {fault : Option String} {c c' : AddCall}
    (h : c.next ledger fault = some c') (hc : c.Admissible) : c'.Admissible := by
  rcases next_cases h with ⟨e, rfl⟩ | ⟨_, rfl, rfl, hu⟩ | ⟨_, _, rfl, rfl, -⟩ |
    ⟨_, _, _, _, _, rfl, rfl, -⟩
  · trivial
  · exact hu
  · exact hc
  · exact hc

theorem admissible_step {a : Action} (hs : ∀ i, (s.calls i).Admissible)
    (h : s.step mc a = some s') : ∀ i, (s'.calls i).Admissible := by
  intro j
  rcases calls_of_step h j with he | ⟨quote, -, he⟩ | ⟨r, he⟩ | ⟨fault, he⟩
  · exact he ▸ hs j
  · rw [he]
    trivial
  · rw [he]
    trivial
  · exact AddCall.admissible_next he (hs j)

/-- `add_quote` admits the quote: the step from `s` to `s'` is the insertion of the call
`i`, which had read the block index `c`, and it succeeds. -/
structure Admits (mc : McCore) (s : State) (i : Nat) (q : Quote) (c : Nat) (s' : State) :
    Prop where
  call : s.calls i = .checkingRing q c []
  step : ∃ fault, s.step mc (.advance i fault) = some s'
  ok : s'.calls i = .done (.ok ())

/-- **Expiry complements admission exactly for tombstones that are not too far ahead.**
A quote admitted at the block index `c` has no tombstone or one ahead of `c`; a later
tombstone pass at `c'` that finds the quote in the book removes it just when its tombstone
is set and reached, if and only if the tombstone is at most the maximum ahead of `c'`. -/
theorem expiry_complements_admission_iff {m : Nat} (hrule : InMemoryQuoteBook.TombstoneRule mc m)
    {ledger : Ledger} {book : InMemoryQuoteBook} {as : List Action} {i c : Nat}
    (hrun : Lts.Run (State.step mc) Lts.Any (State.initial ledger book) as s)
    (hadm : Admits mc s i q c s') :
    AddCall.Unreached q c ∧
    ∀ {bs : List Action} {t t' : State} {fault : Option String} {c' : Nat},
      Lts.Run (State.step mc) Lts.Any s' bs t → t.fetcher = .expire c' → c ≤ c' →
      q ∈ t.book.quotes → t.book.poisoned = false → t.step mc (.fetch fault) = some t' →
      ((q ∉ t'.book.quotes ↔ q.tombstoneBlock ≠ 0 ∧ q.tombstoneBlock.toNat ≤ c') ↔
        q.tombstoneBlock.toNat ≤ c' + m) := by
  refine ⟨?_, ?_⟩
  · have hall := hrun.inv (fun s => ∀ i, (s.calls i).Admissible)
      (fun hs _ hstep => admissible_step hs hstep) (fun _ => trivial) i
    rw [hadm.call] at hall
    exact hall
  · intro bs t t' fault c' _ hf _ hq hp hstep
    obtain rfl := fetch_expire hstep hf hp
    rw [InMemoryQuoteBook.quotes_drain, ← InMemoryQuoteBook.expired_iff_reached_iff hrule]
    simp [hq]

def checks (q : Quote) : List Action := [.call 0 q, .advance 0 none, .advance 0 none]

/-- The fetcher reads the origin block, finds no other, and comes to its tombstone pass. -/
def toTombstonePass : List Action :=
  [.fetch none, .fetch none, .fetch none, .fetch none, .fetch none]

/-- A tombstone 1000 blocks ahead: the pass at block 0 does what it should. -/
theorem near_tombstone_complements : ∃ s s' t t' : State,
    Lts.Run (State.step sampleCore) Lts.Any (State.initial origin .default)
      (checks (sampleQuote 1 10 20 1000 1)) s ∧
    Admits sampleCore s 0 (sampleQuote 1 10 20 1000 1) 0 s' ∧
    Lts.Run (State.step sampleCore) Lts.Any s' toTombstonePass t ∧ t.fetcher = .expire 0 ∧
    t.step sampleCore (.fetch none) = some t' ∧
    (sampleQuote 1 10 20 1000 1 ∉ t'.book.quotes ↔
      (sampleQuote 1 10 20 1000 1).tombstoneBlock ≠ 0 ∧
        (sampleQuote 1 10 20 1000 1).tombstoneBlock.toNat ≤ 0) := by
  have hrun : ∃ s s' t t' : State,
      Lts.Run (State.step sampleCore) Lts.Any (State.initial origin .default)
        (checks (sampleQuote 1 10 20 1000 1)) s ∧
      Admits sampleCore s 0 (sampleQuote 1 10 20 1000 1) 0 s' ∧
      Lts.Run (State.step sampleCore) Lts.Any s' toTombstonePass t ∧ t.fetcher = .expire 0 ∧
      t.step sampleCore (.fetch none) = some t' ∧
      sampleQuote 1 10 20 1000 1 ∈ t.book.quotes ∧ t.book.poisoned = false :=
    ⟨_, _, _, _, Lts.run_of_exec rfl, ⟨rfl, ⟨none, rfl⟩, rfl⟩, Lts.run_of_exec rfl, rfl, rfl,
      List.mem_singleton.mpr rfl, rfl⟩
  obtain ⟨s, s', t, t', hs, hadm, ht, hf, hstep, hq, hp⟩ := hrun
  refine ⟨s, s', t, t', hs, hadm, ht, hf, hstep, ?_⟩
  exact ((expiry_complements_admission_iff InMemoryQuoteBook.sampleCore_tombstoneRule hs hadm).2
    ht hf le_rfl hq hp hstep).mpr (by decide)

/-- A quote meant never to expire, with the last block there can be as its tombstone, is
admitted at block 0 and removed by the pass at block 0. -/
theorem far_tombstone_expired : ∃ s s' t t' : State,
    Lts.Run (State.step sampleCore) Lts.Any (State.initial origin .default)
      (checks (sampleQuote 1 10 20 18446744073709551615 1)) s ∧
    Admits sampleCore s 0 (sampleQuote 1 10 20 18446744073709551615 1) 0 s' ∧
    Lts.Run (State.step sampleCore) Lts.Any s' toTombstonePass t ∧ t.fetcher = .expire 0 ∧
    t.step sampleCore (.fetch none) = some t' ∧
    sampleQuote 1 10 20 18446744073709551615 1 ∈ t.book.quotes ∧
    sampleQuote 1 10 20 18446744073709551615 1 ∉ t'.book.quotes ∧
    ¬ (sampleQuote 1 10 20 18446744073709551615 1).tombstoneBlock.toNat ≤ 0 :=
  ⟨_, _, _, _, Lts.run_of_exec rfl, ⟨rfl, ⟨none, rfl⟩, rfl⟩, Lts.run_of_exec rfl, rfl, rfl,
    List.mem_singleton.mpr rfl, List.not_mem_nil, by decide⟩

end Deqs.Sync
