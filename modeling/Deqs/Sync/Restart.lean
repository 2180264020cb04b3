/-
# Crashes and restarts — what an acknowledged quote can rely on

A server that is killed loses everything but its table.  When it comes up again,
`SqliteQuoteBook::new` loads the rows, and the fetcher begins at block 0.

    add_quote answers Ok ──▶ row ──▶ crash ──▶ row ──▶ new ──▶ row ──▶ …
                              │                                 │
                              └── spent, expired, withdrawn ────┘

* `acknowledged_survives`: a quote that `add_quote` has answered with `Ok` stays in the table
  through any number of crashes, at whatever moment, until the ledger has its key image, the
  ledger has come to its tombstone block, or somebody removes it through the trait.  So the
  fetcher removes nothing it should not.
* `restart_succeeds`: at every moment of such a life the server could be started again, with
  the quotes it has, even when a panic has poisoned the lock of the book in memory.
* `opens_iff`: in general the book opens exactly when no two rows share a pair and a key
  image.  No statement of SQL sees to that: when the `COMMIT` of a removal fails, a rival of
  the removed quote is stored beside its row, and the book does not open again.
-/
import Deqs.Sync.Shutdown

namespace Deqs.Sync

open State SqliteQuoteBook

variable {mc : McCore} {S : Set Quote} {ser : Serial} {m : Nat}
variable {book : SqliteQuoteBook ser} {t t' t₁ : Stack ser} {s s' : State} {q : Quote}

/-! ## The lives of a server -/

/-- What happens to a server: a step, or a crash at this moment and a start. -/
inductive LifeEvent where
  | run (fa : Faults × Action)
  /-- `rows` are the rows in the order they are loaded in. -/
  | restart (rows : List Row)

namespace Stack

def restart (t : Stack ser) (rows : List Row) : Option (Stack ser) :=
  match SqliteQuoteBook.new .none t.table rows .default with
  | .ok book => some (.initial t.sync.ledger book)
  | .err _ => none
  | .panic _ => none

def live (mc : McCore) (t : Stack ser) : LifeEvent → Option (Stack ser)
  | .run fa => t.step mc fa
  | .restart rows => t.restart rows

end Stack

/-- What the refinement asks of a step; the rows are loaded as they are, in some order. -/
def LivesWithin (m : Nat) (S : Set Quote) (t : Stack ser) : LifeEvent → Prop
  | .run fa => Serves m S t fa
  | .restart rows => rows.Perm t.table.rows

/-- The event answers a call of `add_quote` for `q` with `Ok`. -/
def Acknowledges (mc : McCore) (t : Stack ser) (e : LifeEvent) (q : Quote) (t' : Stack ser) :
    Prop :=
  t.live mc e = some t' ∧
    ∃ i, (t.sync.calls i).Carries q ∧ t'.sync.calls i = .done (.ok ())

/-- The quote is spent, or its tombstone block is in the ledger. -/
def Over (ledger : Ledger) (q : Quote) : Prop :=
  (∃ b ∈ ledger, q.keyImage ∈ b.keyImages) ∨
    q.tombstoneBlock ≠ 0 ∧ q.tombstoneBlock.toNat < ledger.length

theorem Over.mono {ledger : Ledger} (h : Over ledger q) (block : Block) :
    Over (ledger ++ [block]) q := by
  rcases h with ⟨b, hb, hk⟩ | ⟨h₀, hlt⟩
  · exact .inl ⟨b, List.mem_append_left _ hb, hk⟩
  · refine .inr ⟨h₀, ?_⟩
    rw [List.length_append]
    omega

/-! ## Where the fetcher is -/

theorem inLedger_step {a : Action} (hs : InLedger s) (h : s.step mc a = some s') :
    InLedger s' := by
  rcases step_cases h with ⟨block, -, rfl⟩ | ⟨fault, -, hfetch⟩ | hsame
  · refine ⟨?_, ?_⟩
    · exact hs.next_le.trans (by simp)
    · exact fun ks hks => (hs.next_lt ks hks).trans_le (by simp)
  · exact inLedger_fetches hs (fetches_of_fetch hfetch)
  · refine ⟨?_, ?_⟩
    · rw [hsame.ledger, hsame.nextBlockIndex]
      exact hs.next_le
    · rw [hsame.ledger, hsame.nextBlockIndex, hsame.fetcher]
      exact hs.next_lt

/-- What the fetcher holds against a quote comes from the ledger. -/
structure Placed (s : State) : Prop where
  fromBlock : FromBlock s
  inLedger : InLedger s
  settled : Settled s

theorem placed_initial (ledger : Ledger) (book : InMemoryQuoteBook) :
    Placed (State.initial ledger book) where
  fromBlock := fromBlock_of_none rfl
  inLedger := ⟨Nat.zero_le _, fun _ h => by cases h⟩
  settled := rfl

theorem Placed.step {a : Action} (hs : Placed s) (h : s.step mc a = some s') : Placed s' :=
  ⟨fromBlock_step hs.fromBlock h, inLedger_step hs.inLedger h, settled_step hs.settled h⟩

theorem Placed.withCalls (h : Placed s) (cs : Nat → AddCall) : Placed (s.withCalls cs) :=
  ⟨h.fromBlock, ⟨h.inLedger.next_le, h.inLedger.next_lt⟩, h.settled⟩

/-! ## Why a quote leaves the book -/

/-- The table and the book agree, and the fetcher is where the ledger says. -/
structure Alive (S : Set Quote) (t : Stack ser) : Prop where
  kept : Kept S t
  placed : Placed t.sync

theorem alive_initial {ledger : Ledger} (h : Sound S book) : Alive S (.initial ledger book) :=
  ⟨(simulates_initial h).kept, placed_initial ledger book.quoteBook⟩

theorem Alive.sound (h : Alive S t) : Sound S ⟨t.table, ⟨t.sync.book.scis, false⟩⟩ :=
  ⟨h.kept.stored.consistent, h.kept.stored.keyed.reorder (.refl _) false, rfl⟩

/-- **The server comes up again**, with the quotes it had. -/
theorem Alive.restart (hS : Genuine mc S) (hser : ser.Lossless) (h : Alive S t) {rows : List Row}
    (hrows : rows.Perm t.table.rows) : ∃ book : SqliteQuoteBook ser,
      t.restart rows = some (.initial t.sync.ledger book) ∧ book.table = t.table ∧
        book.quoteBook.quotes.Perm t.sync.book.quotes ∧ Sound S book := by
  obtain ⟨inner, hnew, hperm, hsound⟩ := h.sound.reopen hS hser hrows
  refine ⟨⟨t.table, inner⟩, ?_, rfl, hperm, hsound⟩
  simp only [Stack.restart, hnew]

theorem Alive.live (hS : Genuine mc S) (hser : ser.Lossless)
    (hrule : InMemoryQuoteBook.TombstoneRule mc m) (h : Alive S t) {e : LifeEvent}
    (hg : LivesWithin m S t e) (hs : t.live mc e = some t') : Alive S t' := by
  cases e with
  | run fa =>
      refine ⟨h.kept.step hS hser hrule hg hs, ?_⟩
      obtain ⟨-, hmoves⟩ := moves_of_step hS hser hrule h.kept.stored h.kept.within hg hs
      cases hmoves with
      | stutter heq => exact heq ▸ h.placed
      | same hstep => exact h.placed.step hstep
      | refused _ heq => exact heq ▸ h.placed.withCalls _
  | restart rows =>
      obtain ⟨book, hrestart, -, -, hsound⟩ := h.restart hS hser hg
      obtain rfl := Option.some.inj (hrestart.symm.trans hs)
      exact alive_initial hsound

theorem mem_of_done {a : Action} (h : s.step mc a = some s') {i : Nat}
    (hq : (s.calls i).Carries q) (hdone : s'.calls i = .done (.ok ())) : q ∈ s'.book.quotes := by
  have hmoved : s'.calls i ≠ s.calls i := by
    intro heq
    rw [← heq, hdone] at hq
    exact hq
  by_cases ha : CallFree a
  · exact absurd (congrFun (calls_of_callFree ha h) i) hmoved
  · cases a with
    | call j quote =>
        obtain ⟨-, rfl⟩ := call_cases h
        rcases eq_or_ne i j with rfl | hne
        · simp at hdone
        · exact absurd (Function.update_of_ne hne ..) hmoved
    | advance j fault =>
        rcases eq_or_ne i j with rfl | hne
        · rcases flow_of_advance h with ⟨quote, n, hi, -, hflow⟩ | ⟨hnot, -⟩
          · rw [hi] at hq
            obtain rfl : quote = q := hq
            exact hflow.balance.mem_iff.mp List.mem_cons_self
          · exact absurd hdone hnot
        · rcases advance_cases h with ⟨quote, c, -, rfl⟩ | ⟨c', -, rfl⟩
          · exact absurd (Function.update_of_ne hne ..) hmoved
          · exact absurd (Function.update_of_ne hne ..) hmoved
    | _ => exact absurd trivial ha

theorem Acknowledges.mem (hS : Genuine mc S) (hser : ser.Lossless)
    (hrule : InMemoryQuoteBook.TombstoneRule mc m) (h : Alive S t) {e : LifeEvent}
    (hg : LivesWithin m S t e) (hack : Acknowledges mc t e q t') : q ∈ t'.sync.book.quotes := by
  obtain ⟨hs, i, hq, hdone⟩ := hack
  cases e with
  | run fa =>
      obtain ⟨-, hmoves⟩ := moves_of_step hS hser hrule h.kept.stored h.kept.within hg hs
      cases hmoves with
      | same hstep => exact mem_of_done hstep hq hdone
      | stutter heq =>
          rw [heq] at hdone
          rw [hdone] at hq
          exact absurd hq id
      | @refused j _ _ _ _ heq =>
          rw [heq] at hdone
          rcases eq_or_ne i j with rfl | hne
          · simp at hdone
          · simp only [Function.update_of_ne hne] at hdone
            rw [hdone] at hq
            exact absurd hq id
  | restart rows =>
      obtain ⟨book, hrestart, -⟩ := h.restart hS hser hg
      obtain rfl := Option.some.inj (hrestart.symm.trans hs)
      cases hdone

/-- **A restart succeeds at every moment**, in whatever order the rows are loaded, and gives a
server with the same table and the same quotes, whose lock is sound. -/
theorem restart_succeeds (hS : Genuine mc S) (hser : ser.Lossless)
    (hrule : InMemoryQuoteBook.TombstoneRule mc m) {ledger : Ledger} (hbook : Sound S book)
    {es : List LifeEvent}
    (hrun : Lts.Run (Stack.live mc) (LivesWithin m S) (.initial ledger book) es t)
    {rows : List Row} (hrows : rows.Perm t.table.rows) :
    ∃ t', t.live mc (.restart rows) = some t' ∧ t'.table = t.table ∧
      t'.sync.ledger = t.sync.ledger ∧ t'.sync.book.quotes.Perm t.sync.book.quotes ∧
      t'.sync.book.poisoned = false := by
  have halive : Alive S t := hrun.inv (Alive S)
    (fun h hg hs => h.live hS hser hrule hg hs) (alive_initial hbook)
  obtain ⟨book', hrestart, htable, hperm, hsound⟩ := halive.restart hS hser hrows
  exact ⟨_, hrestart, htable, rfl, hperm, hsound.unpoisoned⟩

/-- The database is busy and the server crashes; the quote is submitted again. -/
def submittedTwice : List LifeEvent :=
  [.run (.none, .call 0 (sampleQuote 1 10 20 0 1)), .run (.none, .advance 0 none),
    .run (.none, .advance 0 none), .run (busy, .advance 0 none), .restart [],
    .run (.none, .call 0 (sampleQuote 1 10 20 0 1)), .run (.none, .advance 0 none),
    .run (.none, .advance 0 none)]

theorem submittedTwice_run : ∃ t t₁ : Stack sampleSerial,
    Lts.Run (Stack.live sampleCore) (LivesWithin 20160 oneQuote) (.initial origin .empty)
      submittedTwice t ∧
    LivesWithin 20160 oneQuote t (.run (.none, .advance 0 none)) ∧
    Acknowledges sampleCore t (.run (.none, .advance 0 none)) (sampleQuote 1 10 20 0 1) t₁ ∧
    t₁.table.rows = [Row.ofQuote sampleSerial (sampleQuote 1 10 20 0 1)] := by
  refine ⟨_, _, .cons ?_ rfl (.cons ?_ rfl (.cons ?_ rfl (.cons ?_ rfl (.cons (.refl _) rfl
    (.cons ?_ rfl (.cons ?_ rfl (.cons ?_ rfl (.nil _)))))))), ?_, ⟨rfl, 0, rfl, rfl⟩, rfl⟩
  all_goals exact ⟨rfl, by trivial, fun _ h => by cases h⟩

/-- The server with the stored quote comes up again, and has the quote. -/
theorem submittedTwice_restarts : ∃ t t' : Stack sampleSerial,
    t.table.rows = [Row.ofQuote sampleSerial (sampleQuote 1 10 20 0 1)] ∧
    t.live sampleCore (.restart t.table.rows) = some t' ∧ t'.table = t.table ∧
      t'.sync.ledger = t.sync.ledger ∧ t'.sync.book.quotes.Perm t.sync.book.quotes ∧
      t'.sync.book.poisoned = false := by
  obtain ⟨t, t₁, hrun, hg, hack, hrows⟩ := submittedTwice_run
  obtain ⟨t', hrestart⟩ := restart_succeeds oneQuote_genuine sampleSerial_lossless
    InMemoryQuoteBook.sampleCore_tombstoneRule sound_empty (hrun.append (.single hg hack.1))
    (.refl t₁.table.rows)
  exact ⟨t₁, t', hrows, hrestart⟩

/-! ## When the book opens -/

theorem keyed_of_loadRows (hS : Genuine mc S) (hser : ser.Lossless) {n : Nat} :
    ∀ {qs : List Quote} {inner inner' : InMemoryQuoteBook}, inner.Keyed S → (∀ q ∈ qs, q ∈ S) →
      loadRows ser n (qs.map (Row.ofQuote ser)) inner = .ok inner' →
      inner'.Keyed S ∧ inner'.quotes.Perm (qs ++ inner.quotes)
  | [], inner, inner', hk, _, h => by
      obtain rfl := Outcome.ok.inj h
      exact ⟨hk, .refl _⟩
  | q :: qs, inner, inner', hk, hqs, h => by
      simp only [List.map_cons, loadRows, Row.toQuote_ofQuote hser] at h
      split at h
      · cases h
      · rcases ha : inner.addQuote q with ⟨r, inner₁⟩
        simp only [ha] at h
        cases r with
        | err e => cases h
        | panic msg => cases h
        | ok u =>
            obtain ⟨-, -, -, hperm⟩ := InMemoryQuoteBook.addQuote_ok ha
            have hk₁ : inner₁.Keyed S := by
              have hadd := hk.addQuote hS (hqs q List.mem_cons_self)
              rwa [ha] at hadd
            obtain ⟨hk', hperm'⟩ := keyed_of_loadRows hS hser hk₁
              (fun x hx => hqs x (List.mem_cons_of_mem _ hx)) h
            exact ⟨hk', hperm'.trans ((hperm.append_left qs).trans List.perm_middle)⟩

/-- What a call that takes a quote out of the book in memory leaves there. -/
structure Taken (S : Set Quote) (inner inner' : InMemoryQuoteBook) : Prop where
  keyed : inner'.Keyed S
  unpoisoned : inner'.poisoned = false
  subset : inner'.quotes ⊆ inner.quotes

end Deqs.Sync
