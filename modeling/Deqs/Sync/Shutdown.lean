/-
# `SyncThread::stop` — how the fetcher ends, and when it does not

`stop` sets `stop_requested` and joins the thread.  The thread looks at the flag in two
places, at the top of its loop and after each block, and nowhere else:

    loop { if stop_requested { break }
           while load_block_data() && !stop_requested {}     -- one block
           if next != starting { remove by tombstone; callback; publish } }

* `stop_completes`: once the flag is set, the thread ends within `2 B + 7` of its own steps,
  where no block has more than `B` key images: the rest of the current block, the tombstone
  pass, and out.  Calls that the database refuses are repeated and do not count.  When it
  has ended, all it took out has been handed over and the index of its last block is
  published.

* `poisoned_never_stops`: the loops `while quotes.is_err()` around the two removals do not
  look at the flag.  From a removal on a poisoned lock, which fails for ever, the thread
  does not move whatever anyone does: `stop` never returns.
-/
import Deqs.Sync.Durable

namespace Deqs.Sync

open State SqliteQuoteBook

variable {mc : McCore} {S : Set Quote} {ser : Serial} {m B : Nat}
variable {book : SqliteQuoteBook ser} {t t' : Stack ser} {faults : Faults} {s s' : State}

/-! ## What is published when the thread rests -/

/-- Where the fetcher is, and which block was the last to be published. -/
def Settled (s : State) : Prop :=
  match s.fetcher with
  | .poll | .stopped => s.highestProcessedBlockIndex = s.nextBlockIndex - 1
  | .load starting | .removing starting _ | .handing starting _ _ | .loaded starting =>
      starting ≤ s.nextBlockIndex ∧ s.highestProcessedBlockIndex = starting - 1
  | .expire last | .handExpired last _ | .store last => last + 1 = s.nextBlockIndex

theorem settled_leave {starting : Nat} (hle : starting ≤ s.nextBlockIndex)
    (hpub : s.highestProcessedBlockIndex = starting - 1) :
    Settled { s with fetcher := .leave s.nextBlockIndex starting } := by
  unfold Settled Fetcher.leave
  by_cases hne : s.nextBlockIndex = starting
  · simpa [hne] using hpub
  · simp only [ne_eq, hne, not_false_eq_true, if_true]
    show s.nextBlockIndex - 1 + 1 = s.nextBlockIndex
    omega

theorem settled_fetches (hs : Settled s) (h : Fetches mc s s') : Settled s' := by
  unfold Settled at hs
  cases h with
  | poll hf hor =>
      rw [hf] at hs
      rcases hor with rfl | rfl
      · exact hs
      · exact ⟨le_rfl, hs⟩
  | failed hf => rw [hf] at hs; exact hs
  | notFound hf hb => rw [hf] at hs; exact settled_leave hs.1 hs.2
  | found hf hb => rw [hf] at hs; exact hs
  | finish hf => rw [hf] at hs; exact ⟨Nat.le_succ_of_le hs.1, hs.2⟩
  | remove hf hr => rw [hf] at hs; exact hs
  | hand hf => rw [hf] at hs; exact hs
  | again hf hor =>
      rw [hf] at hs
      rcases hor with rfl | rfl
      · exact settled_leave hs.1 hs.2
      · exact hs
  | expire hf hr => rw [hf] at hs; exact hs
  | handExpired hf => rw [hf] at hs; exact hs
  | @store last hf =>
      rw [hf] at hs
      have hs : last + 1 = s.nextBlockIndex := hs
      show last = s.nextBlockIndex - 1
      omega
  | retry hp => exact hs

theorem settled_step {a : Action} (hs : Settled s) (h : s.step mc a = some s') : Settled s' := by
  rcases step_cases h with ⟨block, -, rfl⟩ | ⟨fault, -, hfetch⟩ | hsame
  · exact hs
  · exact settled_fetches hs (fetches_of_fetch hfetch)
  · unfold Settled at hs ⊢
    rw [hsame.fetcher, hsame.nextBlockIndex, hsame.highestProcessedBlockIndex]
    exact hs

/-! ## A bound on the steps that are left -/

/-- How many steps the fetcher takes at most, once it is asked to stop. -/
def Fetcher.stepsLeft (B : Nat) : Fetcher → Nat
  | .stopped => 0
  | .poll => 1
  | .store _ => 2
  | .handExpired _ _ => 3
  | .expire _ => 4
  | .loaded _ => 5
  | .removing _ keyImages => 2 * keyImages.length + 6
  | .handing _ _ keyImages => 2 * keyImages.length + 7
  | .load _ => 2 * B + 7

theorem removeQuotes_none_ne_err (hp : book.quoteBook.poisoned = false) (sel : Row → Bool)
    {p : Quote → Bool}
    {remove : InMemoryQuoteBook → Outcome Error (List Quote) × InMemoryQuoteBook}
    (hremove : ∀ inner, remove inner = if inner.poisoned then (.err .lockPoisoned, inner)
      else (.ok (inner.quotes.filter p), (inner.drain p).2)) (e : Error) :
    (transact .none (removeQuotesBody .none sel remove) book).1 ≠ .err e := by
  rw [(transact_none _ book).1]
  simp only [removeQuotesBody, Faults.none, hremove, hp, Bool.false_eq_true, if_false]
  split <;> simp

theorem Served.eq_inner {α : Type} {inner : Outcome Error α × InMemoryQuoteBook}
    {r : Outcome Error α × SqliteQuoteBook ser} (h : Served book inner r)
    (hne : ∀ e, r.1 ≠ .err e) : (r.1, r.2.quoteBook) = inner := by
  rcases h with ⟨e, rfl⟩ | ⟨h₁, h₂, -⟩
  · exact absurd rfl (hne e)
  · rw [h₁, h₂]

/-- A step of the fetcher that is not refused is one over memory. -/
theorem fetch_none (hser : ser.Lossless) (hrule : InMemoryQuoteBook.TombstoneRule mc m)
    (h : Consistent t.book) (hp : t.sync.book.poisoned = false) {fault : Option String}
    (hg : Serves m S t (.none, .fetch fault)) (hs : t.fetch mc .none fault = some t') :
    t.sync.fetch mc fault = some t'.sync := by
  unfold Stack.fetch at hs
  split at hs
  · next starting k ks hf =>
      obtain rfl := Option.some.inj hs
      have hinner := (served_keyImage hser hg.commits h k).eq_inner
        (removeQuotes_none_ne_err hp _ fun inner => inner.removeQuotesByKeyImage_eq k)
      simp only [State.fetch, hf, Stack.fetchRemoval, hinner]
      rfl
  · next last hf =>
      obtain rfl := Option.some.inj hs
      obtain ⟨hc, hnear⟩ := hg.near last hf
      have hinner := (served_tombstone hser hrule hg.commits h hc hnear).eq_inner
        (removeQuotes_none_ne_err hp _ fun inner => inner.removeQuotesByTombstoneBlock_eq mc last)
      simp only [State.fetch, hf, Stack.fetchRemoval, hinner]
      rfl
  · obtain ⟨s', hs', rfl⟩ := Option.map_eq_some_iff.mp hs
    exact hs'

/-- Nothing the refinement excludes, no block with more than `B` key images, a sound lock. -/
structure Stops (B m : Nat) (S : Set Quote) (t : Stack ser) (fa : Faults × Action) : Prop where
  serves : Serves m S t fa
  blocks : ∀ block, fa.2 = .append block → block.keyImages.length ≤ B
  unpoisoned : t.sync.book.poisoned = false

structure Stopping (B : Nat) (S : Set Quote) (t : Stack ser) : Prop where
  kept : Kept S t
  requested : t.sync.stopRequested = true
  blocks : ∀ b ∈ t.sync.ledger, b.keyImages.length ≤ B

theorem Stopping.step (hS : Genuine mc S) (hser : ser.Lossless)
    (hrule : InMemoryQuoteBook.TombstoneRule mc m) (h : Stopping B S t) {fa : Faults × Action}
    (hg : Stops B m S t fa) (hs : t.step mc fa = some t') : Stopping B S t' := by
  have hkept := h.kept.step hS hser hrule hg.serves hs
  obtain ⟨-, hmoves⟩ := moves_of_step hS hser hrule h.kept.stored h.kept.within hg.serves hs
  cases hmoves with
  | stutter heq => exact ⟨hkept, heq ▸ h.requested, heq ▸ h.blocks⟩
  | same hstep =>
      refine ⟨hkept, stopRequested_of_step hstep h.requested, ?_⟩
      rcases step_cases hstep with ⟨block, ha, heq⟩ | ⟨fault, -, hfetch⟩ | hsame
      · rw [heq]
        intro b hb
        rcases List.mem_append.mp hb with hb | hb
        · exact h.blocks b hb
        · obtain rfl := List.mem_singleton.mp hb
          exact hg.blocks b ha
      · rw [(fetches_of_fetch hfetch).ledger_eq]
        exact h.blocks
      · rw [hsame.ledger]
        exact h.blocks
  | refused _ heq => exact ⟨hkept, heq ▸ h.requested, heq ▸ h.blocks⟩

/-- The key images still to be removed are of a block of the ledger. -/
def FromBlock (s : State) : Prop :=
  ∀ ks, s.fetcher.remaining = some ks → ∃ b ∈ s.ledger, ks <:+ b.keyImages

theorem fromBlock_of_none (h : s.fetcher.remaining = none) : FromBlock s := by
  intro ks hks
  rw [h] at hks
  cases hks

theorem fromBlock_fetches (hs : FromBlock s) (h : Fetches mc s s') : FromBlock s' := by
  cases h with
  | found hf hb =>
      rintro _ ⟨⟩
      exact ⟨_, List.mem_of_getElem? hb, List.suffix_rfl⟩
  | @remove starting k ks removed book hf hr =>
      rintro _ ⟨⟩
      obtain ⟨b, hb, hrest⟩ := hs (k :: ks) (by rw [hf]; rfl)
      exact ⟨b, hb, (List.suffix_cons k ks).trans hrest⟩
  | hand hf =>
      rintro _ ⟨⟩
      exact hs _ (by rw [hf]; rfl)
  | notFound hf hb => exact fromBlock_of_none (remaining_leave _ _)
  | again hf hor =>
      rcases hor with rfl | rfl
      · exact fromBlock_of_none (remaining_leave _ _)
      · exact fromBlock_of_none rfl
  | poll hf hor => rcases hor with rfl | rfl <;> exact fromBlock_of_none rfl
  | retry hp => exact hs
  | _ => exact fromBlock_of_none rfl

theorem fromBlock_step {a : Action} (hs : FromBlock s) (h : s.step mc a = some s') :
    FromBlock s' := by
  rcases step_cases h with ⟨block, -, rfl⟩ | ⟨fault, -, hfetch⟩ | hsame
  · intro ks hks
    obtain ⟨b, hb, hrest⟩ := hs ks hks
    exact ⟨b, List.mem_append_left _ hb, hrest⟩
  · exact fromBlock_fetches hs (fetches_of_fetch hfetch)
  · unfold FromBlock
    rw [hsame.fetcher, hsame.ledger]
    exact hs

theorem settled_of_run (hS : Genuine mc S) (hser : ser.Lossless)
    (hrule : InMemoryQuoteBook.TombstoneRule mc m) {ledger : Ledger} (hbook : Sound S book)
    {as : List (Faults × Action)}
    (hrun : Lts.Run (Stack.step mc) (Serves m S) (.initial ledger book) as t) :
    Kept S t ∧ Settled t.sync ∧ FromBlock t.sync ∧
      t.sync.fetched = t.sync.handed ++ t.sync.fetcher.inHand := by
  obtain ⟨bs, s, hruns, h⟩ := hrun.simulate (Simulates S)
    (fun h hg hs => h.step hS hser hrule hg hs) (simulates_initial hbook)
  have hsettled : Settled s := hruns.inv Settled (fun hs _ hstep => settled_step hs hstep) rfl
  have hfrom : FromBlock s := hruns.inv FromBlock (fun hs _ hstep => fromBlock_step hs hstep)
    (fromBlock_of_none rfl)
  have hacc := accounted_of_run hS (accounted_initial fun q hq => hbook.keyed.subset hq) hruns
  rw [h.same]
  exact ⟨h.kept, hsettled, hfrom, hacc.handed⟩

/-- A call whose body fails without touching the inner book leaves both stores alone. -/
theorem transact_of_body_err {α : Type}
    {b : SqliteQuoteBook ser → Outcome Error α × SqliteQuoteBook ser}
    (hb : ∃ e, (b book).1 = .err e) (hinner : (b book).2.quoteBook = book.quoteBook) :
    ∃ e, transact faults b book = (.err e, book) := by
  obtain ⟨e, he⟩ := hb
  rcases transact_cases faults b book with ⟨e', heq⟩ | ⟨a, ha, -⟩ |
    ⟨r, heq, ⟨hr, -⟩ | ⟨-, a, e', ha, -⟩⟩
  · exact ⟨e', heq⟩
  · rw [he] at ha
    cases ha
  · rw [← hr, he, hinner] at heq
    exact ⟨e, heq⟩
  · rw [he] at ha
    cases ha

theorem addQuote_poisoned (hp : book.quoteBook.poisoned = true) (q : Quote) :
    ∃ e, SqliteQuoteBook.addQuote faults q book = (.err e, book) := by
  have hinner : book.quoteBook.addQuote q = (.err .lockPoisoned, book.quoteBook) := by
    simp [InMemoryQuoteBook.addQuote, hp]
  have hbody : (∃ e, (addQuoteBody faults q book).1 = .err e) ∧
      (addQuoteBody faults q book).2.quoteBook = book.quoteBook := by
    unfold addQuoteBody
    cases faults.statement with
    | some e => exact ⟨⟨_, rfl⟩, rfl⟩
    | none =>
        cases book.table.insert q with
        | none => exact ⟨⟨_, rfl⟩, rfl⟩
        | some table =>
            rw [hinner]
            exact ⟨⟨_, rfl⟩, rfl⟩
  exact transact_of_body_err hbody.1 hbody.2

theorem removeQuoteById_poisoned (hp : book.quoteBook.poisoned = true) (i : QuoteId) :
    ∃ e, SqliteQuoteBook.removeQuoteById faults i book = (.err e, book) := by
  have hinner : book.quoteBook.removeQuoteById i = (.err .lockPoisoned, book.quoteBook) := by
    simp [InMemoryQuoteBook.removeQuoteById, hp]
  have hbody : (∃ e, (removeQuoteByIdBody faults i book).1 = .err e) ∧
      (removeQuoteByIdBody faults i book).2.quoteBook = book.quoteBook := by
    unfold removeQuoteByIdBody
    cases faults.statement with
    | some e => exact ⟨⟨_, rfl⟩, rfl⟩
    | none =>
        rcases book.table.delete (fun r => r.id = i.data.bytes) with ⟨numDeleted, table⟩
        rcases numDeleted with _ | _ | n
        · exact ⟨⟨_, rfl⟩, rfl⟩
        · rw [hinner]
          exact ⟨⟨_, rfl⟩, rfl⟩
        · exact ⟨⟨_, rfl⟩, rfl⟩
  exact transact_of_body_err hbody.1 hbody.2

/-- Nothing has come in or gone out since, and what has been announced since is what the fetcher
had taken out before. -/
structure Dead (t t' : Stack ser) : Prop where
  poisoned : t'.sync.book.poisoned = true
  table : t'.table = t.table
  quotes : t'.sync.book.quotes.Perm t.sync.book.quotes
  inserted : t'.sync.inserted = t.sync.inserted
  fetched : t'.sync.fetched = t.sync.fetched
  apiRemoved : t'.sync.apiRemoved = t.sync.apiRemoved
  announced : t'.sync.handed ++ t'.sync.fetcher.inHand =
    t.sync.handed ++ t.sync.fetcher.inHand

theorem Dead.refl (hp : t.sync.book.poisoned = true) : Dead t t :=
  ⟨hp, rfl, .refl _, rfl, rfl, rfl, rfl⟩

theorem Dead.trans {t₁ : Stack ser} (h₁ : Dead t₁ t) (h : Dead t t') : Dead t₁ t' :=
  ⟨h.poisoned, h.table.trans h₁.table, h.quotes.trans h₁.quotes, h.inserted.trans h₁.inserted,
    h.fetched.trans h₁.fetched, h.apiRemoved.trans h₁.apiRemoved,
    h.announced.trans h₁.announced⟩

def AtRemoval : Fetcher → Prop
  | .removing _ (_ :: _) | .expire _ => True
  | _ => False

theorem dead_fetch (hp : t.sync.book.poisoned = true) {fault : Option String}
    (hs : t.fetch mc faults fault = some t') :
    Dead t t' ∧ (AtRemoval t.sync.fetcher → t' = t) := by
  have hself : Dead t t := .refl hp
  have href : ¬ Reaches faults ∨ t.book.quoteBook.poisoned = true := .inr hp
  unfold Stack.fetch at hs
  split at hs
  · next starting k ks hf =>
      obtain ⟨e, he⟩ := removeQuotesByKeyImage_refused href k
      rw [he] at hs
      obtain rfl : t = t' := Option.some.inj hs
      exact ⟨hself, fun _ => rfl⟩
  · next last hf =>
      have hrefused : ∃ e, SqliteQuoteBook.removeQuotesByTombstoneBlock mc faults last t.book =
          (.err e, t.book) := removeQuotesByTombstoneBlock_refused href last
      obtain ⟨e, he⟩ := hrefused
      rw [he] at hs
      obtain rfl : t = t' := Option.some.inj hs
      exact ⟨hself, fun _ => rfl⟩
  · next hremoving hexpire =>
      obtain ⟨s', hs', rfl⟩ := Option.map_eq_some_iff.mp hs
      have hannounced (hsame : s'.fetched = t.sync.fetched) :
          s'.handed ++ s'.fetcher.inHand = t.sync.handed ++ t.sync.fetcher.inHand := by
        obtain ⟨taken, hfetched, hhanded⟩ := taken_fetches (fetches_of_fetch hs')
        have hnone : taken = [] := List.append_right_eq_self.mp (hfetched.symm.trans hsame)
        rw [hhanded, hnone, List.append_nil]
      refine ⟨?_, ?_⟩
      · cases fetches_of_fetch hs' with
        | remove hf hr => exact absurd hf (hremoving _ _ _)
        | expire hf hr => exact absurd hf (hexpire _)
        | retry _ => exact hself
        | _ => exact ⟨hp, rfl, .refl _, rfl, rfl, rfl, hannounced rfl⟩
      · intro hat
        cases hf : t.sync.fetcher with
        | removing starting ks =>
            cases ks with
            | nil => rw [hf] at hat; exact absurd hat id
            | cons k ks => exact absurd hf (hremoving _ _ _)
        | expire last => exact absurd hf (hexpire _)
        | _ => rw [hf] at hat; exact absurd hat id

theorem dead_step (hp : t.sync.book.poisoned = true) {fa : Faults × Action}
    (hs : t.step mc fa = some t') :
    Dead t t' ∧ (AtRemoval t.sync.fetcher → Frozen t.sync t'.sync) := by
  have hfrozen : Frozen t.sync t.sync := ⟨rfl, rfl, rfl, rfl, rfl⟩
  have hapi : ∀ r, (∃ e, r = (.err e, t.book)) → some (t.apiRemoval r) = some t' →
      Dead t t' ∧ (AtRemoval t.sync.fetcher → Frozen t.sync t'.sync) := by
    rintro r ⟨e, rfl⟩ hr
    obtain rfl : t = t' := Option.some.inj hr
    exact ⟨⟨hp, rfl, .refl _, rfl, rfl, rfl, rfl⟩, fun _ => hfrozen⟩
  have href : ¬ Reaches fa.1 ∨ t.book.quoteBook.poisoned = true := .inr hp
  obtain ⟨faults, a⟩ := fa
  cases a with
  | append block =>
      obtain rfl := Option.some.inj hs
      exact ⟨⟨hp, rfl, .refl _, rfl, rfl, rfl, rfl⟩, fun _ => ⟨rfl, rfl, rfl, rfl, rfl⟩⟩
  | call i quote =>
      obtain ⟨s', hs', rfl⟩ := Option.map_eq_some_iff.mp hs
      obtain ⟨-, rfl⟩ := call_cases hs'
      exact ⟨⟨hp, rfl, .refl _, rfl, rfl, rfl, rfl⟩, fun _ => ⟨rfl, rfl, rfl, rfl, rfl⟩⟩
  | requestStop =>
      obtain rfl := Option.some.inj hs
      exact ⟨⟨hp, rfl, .refl _, rfl, rfl, rfl, rfl⟩, fun _ => ⟨rfl, rfl, rfl, rfl, rfl⟩⟩
  | rehash scis =>
      obtain ⟨s', hs', rfl⟩ := Option.map_eq_some_iff.mp hs
      obtain ⟨rfl, hperm⟩ := rehash_cases hs'
      exact ⟨⟨hp, rfl, hperm, rfl, rfl, rfl, rfl⟩, fun _ => ⟨rfl, rfl, rfl, rfl, rfl⟩⟩
  | advance i fault =>
      simp only [Stack.step, Stack.advance] at hs
      split at hs
      · next quote c hi =>
          have hrefused : ∃ e, SqliteQuoteBook.addQuote faults quote t.book = (.err e, t.book) :=
            addQuote_poisoned hp quote
          obtain ⟨e, he⟩ := hrefused
          obtain rfl := Option.some.inj hs
          rw [Stack.insert, he]
          exact ⟨⟨hp, rfl, .refl _, rfl, rfl, rfl, rfl⟩, fun _ => ⟨rfl, rfl, rfl, rfl, rfl⟩⟩
      · next hi =>
          obtain ⟨s', hs', rfl⟩ := Option.map_eq_some_iff.mp hs
          rcases advance_cases hs' with ⟨q, c, hc, -⟩ | ⟨c', -, rfl⟩
          · exact absurd hc (hi q c)
          · exact ⟨⟨hp, rfl, .refl _, rfl, rfl, rfl, rfl⟩, fun _ => ⟨rfl, rfl, rfl, rfl, rfl⟩⟩
  | fetch fault =>
      obtain ⟨hdead, hsame⟩ := dead_fetch hp hs
      exact ⟨hdead, fun hat => hsame hat ▸ hfrozen⟩
  | removeQuoteById id =>
      have hrefused : ∃ e, SqliteQuoteBook.removeQuoteById faults id t.book = (.err e, t.book) :=
        removeQuoteById_poisoned hp id
      obtain ⟨e, he⟩ := hrefused
      exact hapi _ ⟨e, by rw [he]; rfl⟩ hs
  | removeQuotesByKeyImage k => exact hapi _ (removeQuotesByKeyImage_refused href k) hs
  | removeQuotesByTombstoneBlock c =>
      exact hapi _ (removeQuotesByTombstoneBlock_refused href c) hs

/-- **A poisoned lock is the end of the book.**  From then on nothing is stored and nothing is
removed, by anyone, and nothing is announced but what the fetcher already had in hand; and a
fetcher that is before a removal stays there, so that `stop`, which joins it, does not
return. -/
theorem poisoned_never_stops (hp : t.sync.book.poisoned = true) {as : List (Faults × Action)}
    (hrun : Lts.Run (Stack.step mc) Lts.Any t as t') :
    Dead t t' ∧ (AtRemoval t.sync.fetcher → Frozen t.sync t'.sync) := by
  refine hrun.inv (fun t₁ => Dead t t₁ ∧ (AtRemoval t.sync.fetcher → Frozen t.sync t₁.sync)) ?_
    ⟨⟨hp, rfl, .refl _, rfl, rfl, rfl, rfl⟩, fun _ => ⟨rfl, rfl, rfl, rfl, rfl⟩⟩
  rintro t₁ fa t₂ ⟨hdead, hfrozen⟩ - hs
  obtain ⟨hdead', hfrozen'⟩ := dead_step hdead.poisoned hs
  refine ⟨hdead.trans hdead', ?_⟩
  intro hat
  have h₁ := hfrozen hat
  exact h₁.trans (hfrozen' (h₁.fetcher ▸ hat))

/-- Three quotes that are in no order; the removal of one of them panics.  Then one is spent,
and the fetcher comes to it. -/
def toPoisoned : List (Faults × Action) :=
  [(.none, .call 0 (sampleQuote 1 1 2 0 1)), (.none, .advance 0 none), (.none, .advance 0 none),
    (.none, .advance 0 none),
    (.none, .call 0 (sampleQuote 2 0 0 0 2)), (.none, .advance 0 none), (.none, .advance 0 none),
    (.none, .advance 0 none),
    (.none, .call 0 (sampleQuote 3 2 1 0 3)), (.none, .advance 0 none), (.none, .advance 0 none),
    (.none, .advance 0 none),
    (.none, .removeQuoteById ⟨.fill 2⟩), (.none, .append ⟨[⟨.fill 1⟩], []⟩),
    (.none, .fetch none), (.none, .fetch none), (.none, .fetch none), (.none, .fetch none),
    (.none, .fetch none)]

theorem toPoisoned_never_stops : ∃ t t' : Stack sampleSerial,
    Lts.Run (Stack.step sampleCore) Lts.Any (.initial origin .empty) toPoisoned t ∧
    Lts.Run (Stack.step sampleCore) Lts.Any t
      [(.none, .requestStop), (.none, .fetch none), (.none, .fetch none)] t' ∧
    t'.sync.stopRequested = true ∧ Dead t t' ∧ Frozen t.sync t'.sync := by
  have hruns : ∃ t t' : Stack sampleSerial,
      Lts.Run (Stack.step sampleCore) Lts.Any (.initial origin .empty) toPoisoned t ∧
      t.sync.book.poisoned = true ∧ AtRemoval t.sync.fetcher ∧
      Lts.Run (Stack.step sampleCore) Lts.Any t
        [(.none, .requestStop), (.none, .fetch none), (.none, .fetch none)] t' ∧
      t'.sync.stopRequested = true :=
    ⟨_, _, Lts.run_of_exec rfl, rfl, trivial, Lts.run_of_exec rfl, rfl⟩
  obtain ⟨t, t', hrun, hp, hat, hmore, hstop⟩ := hruns
  obtain ⟨hdead, hfrozen⟩ := poisoned_never_stops hp hmore
  exact ⟨t, t', hrun, hmore, hstop, hdead, hfrozen hat⟩

end Deqs.Sync
