/-
# The stack of `bin/main.rs` — a synchronized book over SQLite over memory

The server does not run the synchronized book over an in-memory book but

    SynchronizedQuoteBook<SqliteQuoteBook<InMemoryQuoteBook>, _>

so every removal of the fetcher and every insertion is a transaction that the database may
refuse.  `Stack` is that system: the state of the synchronized book, whose `book` is now the
innermost one, and the table beside it.  Its steps are the steps of `State` with the calls on
the book replaced by those of `SqliteQuoteBook`, under any failures (`Faults`).

| a call that | on the in-memory book | here |
| :-- | :-- | :-- |
| the database refuses | cannot happen | the fetcher tries again, `add_quote` reports it |
| answers | changes the book | changes the book and the rows |
| finds the numbers different | cannot happen | panics, and the fetcher is gone |

**What is proved.**  As long as `COMMIT` goes through and no tombstone pass meets a
tombstone too far ahead, the stack does nothing the synchronized book over memory does
not do, and its rows are its quotes (`stack_refines`).  So what the previous modules show of
every run over memory is true of the table, and of a table that was there before.

The second condition is a real one; the next module says what happens without it.
-/
import Deqs.Book.Recovery
import Deqs.Sync.Accounting
import Deqs.Sync.Staleness

namespace Deqs.Sync

open State SqliteQuoteBook

/-! ## The system -/

/-- What the last step of `add_quote` makes of the answer of the book inside. -/
def State.answerAdd (s : State) (i : Nat) (quote : Quote)
    (r : Outcome Error Unit × InMemoryQuoteBook) : State :=
  { s with
    book := r.2
    calls := Function.update s.calls i (.done r.1)
    inserted := match r.1 with
      | .ok _ => quote :: s.inserted
      | _ => s.inserted }

theorem State.insert_eq_answerAdd (s : State) (i : Nat) (quote : Quote) :
    s.insert i quote = s.answerAdd i quote (s.book.addQuote quote) := rfl

/-- The synchronized book and the table of the SQLite book inside it. -/
structure Stack (ser : Serial) where
  sync : State
  table : Table ser

namespace Stack

variable {ser : Serial}

def book (t : Stack ser) : SqliteQuoteBook ser := ⟨t.table, t.sync.book⟩

/-- `SynchronizedQuoteBook::new` over a SQLite book. -/
def initial (ledger : Ledger) (book : SqliteQuoteBook ser) : Stack ser :=
  ⟨.initial ledger book.quoteBook, book.table⟩

def insert (t : Stack ser) (faults : Faults) (i : Nat) (quote : Quote) : Stack ser :=
  let r := SqliteQuoteBook.addQuote faults quote t.book
  ⟨t.sync.answerAdd i quote (r.1, r.2.quoteBook), r.2.table⟩

def advance (t : Stack ser) (faults : Faults) (i : Nat) (fault : Option String) :
    Option (Stack ser) :=
  match t.sync.calls i with
  | .checkingRing quote _ [] => some (t.insert faults i quote)
  | _ => (t.sync.advance i fault).map (⟨·, t.table⟩)

def fetchRemoval (t : Stack ser) (go : List Quote → Fetcher)
    (r : Outcome Error (List Quote) × SqliteQuoteBook ser) : Stack ser :=
  ⟨t.sync.fetchRemoval go (r.1, r.2.quoteBook), r.2.table⟩

def fetch (mc : McCore) (t : Stack ser) (faults : Faults) (fault : Option String) :
    Option (Stack ser) :=
  match t.sync.fetcher with
  | .removing starting (k :: ks) =>
      some (t.fetchRemoval (.handing starting · ks)
        (SqliteQuoteBook.removeQuotesByKeyImage faults k t.book))
  | .expire last =>
      some (t.fetchRemoval (.handExpired last ·)
        (SqliteQuoteBook.removeQuotesByTombstoneBlock mc faults last t.book))
  | _ => (t.sync.fetch mc fault).map (⟨·, t.table⟩)

def apiRemoval (t : Stack ser) (r : Outcome Error (List Quote) × SqliteQuoteBook ser) :
    Stack ser :=
  ⟨t.sync.apiRemoval (r.1, r.2.quoteBook), r.2.table⟩

/-- One step of the system, with the failures of the database during it. -/
def step (mc : McCore) (t : Stack ser) : Faults × Action → Option (Stack ser)
  | (faults, .advance i fault) => t.advance faults i fault
  | (faults, .fetch fault) => t.fetch mc faults fault
  | (faults, .removeQuoteById id) =>
      some (t.apiRemoval
        ((SqliteQuoteBook.removeQuoteById faults id t.book).map (.map ([·])) fun b => b))
  | (faults, .removeQuotesByKeyImage k) =>
      some (t.apiRemoval (SqliteQuoteBook.removeQuotesByKeyImage faults k t.book))
  | (faults, .removeQuotesByTombstoneBlock c) =>
      some (t.apiRemoval (SqliteQuoteBook.removeQuotesByTombstoneBlock mc faults c t.book))
  | (_, a) => (t.sync.step mc a).map (⟨·, t.table⟩)

end Stack

variable {mc : McCore} {S : Set Quote} {ser : Serial} {m : Nat}
variable {book : SqliteQuoteBook ser} {t t' : Stack ser} {faults : Faults}

/-! ## One call on the database

With a `COMMIT` that goes through, a call fails and leaves both stores alone, or it is the
call of the inner book, and the stores agree again. -/

/-- What a call comes to, beside what the inner book makes of it. -/
def Served {α : Type} (book : SqliteQuoteBook ser) (inner : Outcome Error α × InMemoryQuoteBook)
    (r : Outcome Error α × SqliteQuoteBook ser) : Prop :=
  (∃ e, r = (.err e, book)) ∨ r.1 = inner.1 ∧ r.2.quoteBook = inner.2 ∧ Consistent r.2

/-- What the body of a transaction comes to, before the transaction ends. -/
def BodyServed {α : Type} (inner : Outcome Error α × InMemoryQuoteBook)
    (r : Outcome Error α × SqliteQuoteBook ser) : Prop :=
  (∃ e, r.1 = .err e) ∨ r.1 = inner.1 ∧ r.2.quoteBook = inner.2

theorem served_transact {α : Type} {inner : Outcome Error α × InMemoryQuoteBook}
    {b : SqliteQuoteBook ser → Outcome Error α × SqliteQuoteBook ser}
    (hcommit : faults.commit = none) (h : Consistent book) (hb : BodySound book (b book))
    (hs : BodyServed inner (b book)) : Served book inner (transact faults b book) := by
  rcases transact_cases faults b book with ⟨e, heq⟩ | ⟨a, ha, heq⟩ |
    ⟨r, heq, ⟨hr, hnok⟩ | ⟨hne, -⟩⟩
  · exact .inl ⟨e, heq⟩
  · rcases hs with ⟨e, he⟩ | ⟨h₁, h₂⟩
    · rw [ha] at he
      cases he
    · rw [heq]
      exact .inr ⟨h₁, h₂, hb.ok ha⟩
  · rw [heq]
    cases r with
    | ok a => exact absurd rfl (hnok a)
    | err e => exact .inl ⟨e, by rw [hb.err hr]⟩
    | panic msg =>
        rcases hs with ⟨e, he⟩ | ⟨h₁, h₂⟩
        · rw [hr] at he
          cases he
        · refine .inr ⟨hr.symm.trans h₁, h₂, ?_⟩
          exact List.Perm.trans h ((hb.panic hr).1.symm.map _)
  · exact absurd hcommit hne

theorem served_addQuote (hser : ser.Lossless) (hcommit : faults.commit = none)
    (h : Consistent book) (q : Quote) :
    Served book (book.quoteBook.addQuote q) (SqliteQuoteBook.addQuote faults q book) := by
  refine served_transact hcommit h (addQuoteBody_sound hser h q) ?_
  unfold addQuoteBody
  cases faults.statement with
  | some e => exact .inl ⟨_, rfl⟩
  | none =>
      cases book.table.insert q with
      | none => exact .inl ⟨_, rfl⟩
      | some table => exact .inr ⟨rfl, rfl⟩

theorem served_removeQuoteById (hser : ser.Lossless) (hcommit : faults.commit = none)
    (h : Consistent book) (i : QuoteId) :
    Served book (book.quoteBook.removeQuoteById i)
      (SqliteQuoteBook.removeQuoteById faults i book) := by
  refine served_transact hcommit h (removeQuoteByIdBody_sound hser h i) ?_
  unfold removeQuoteByIdBody
  cases faults.statement with
  | some e => exact .inl ⟨_, rfl⟩
  | none =>
      rcases book.table.delete (fun r => r.id = i.data.bytes) with ⟨numDeleted, table⟩
      rcases numDeleted with _ | _ | n
      · exact .inl ⟨_, rfl⟩
      · exact .inr ⟨rfl, rfl⟩
      · exact .inl ⟨_, rfl⟩

theorem served_removeQuotes (hser : ser.Lossless) (hcommit : faults.commit = none)
    (h : Consistent book) {sel : Row → Bool} {p : Quote → Bool}
    (hp : ∀ q ∈ book.quoteBook.quotes, sel (Row.ofQuote ser q) = p q)
    {remove : InMemoryQuoteBook → Outcome Error (List Quote) × InMemoryQuoteBook}
    (hremove : ∀ inner, remove inner = if inner.poisoned then (.err .lockPoisoned, inner)
      else (.ok (inner.quotes.filter p), (inner.drain p).2)) :
    Served book (remove book.quoteBook)
      (transact faults (removeQuotesBody faults sel remove) book) := by
  have hsound : BodySound book (removeQuotesBody faults sel remove book) :=
    removeQuotesBody_sound hser h hp hremove
  refine served_transact hcommit h hsound ?_
  unfold removeQuotesBody at hsound ⊢
  cases hst : faults.statement with
  | some e => exact .inl ⟨_, rfl⟩
  | none =>
      simp only [hst] at hsound
      rcases hr : remove book.quoteBook with ⟨r, inner⟩
      rw [hr] at hsound
      cases r with
      | ok quotes =>
          by_cases hlen : quotes.length = (book.table.delete sel).1
          · simp only [if_pos hlen]
            exact .inr ⟨rfl, rfl⟩
          · -- the numbers of equal stores are equal
            simp only [if_neg hlen] at hsound
            exact absurd rfl (hsound.panic rfl).2
      | err e => exact .inl ⟨e, rfl⟩
      | panic msg => exact .inr ⟨rfl, rfl⟩

/-! ## What a step can do -/

/-- The action asks for the quotes that are over at block `c`. -/
def Expires (t : Stack ser) (c : Nat) : Action → Prop
  | .fetch _ => t.sync.fetcher = .expire c
  | .removeQuotesByTombstoneBlock c' => c' = c
  | _ => False

/-- `COMMIT` goes through, `add_quote` is called with quotes of `S`, and no tombstone pass
meets a tombstone too far ahead. -/
structure Serves (m : Nat) (S : Set Quote) (t : Stack ser) (fa : Faults × Action) : Prop where
  commits : fa.1.commit = none
  within : CallsWithin S t.sync fa.2
  near : ∀ c, Expires t c fa.2 →
    c < 2 ^ 63 ∧ ∀ q ∈ t.sync.book.quotes, q.tombstoneBlock.toNat ≤ c + m

/-- The rows are the quotes, which have distinct keys. -/
structure Stored (S : Set Quote) (book : SqliteQuoteBook ser) : Prop where
  consistent : Consistent book
  keyed : book.quoteBook.Keyed S

theorem Served.stored {α : Type} {inner : Outcome Error α × InMemoryQuoteBook}
    {r : Outcome Error α × SqliteQuoteBook ser} (hr : Served book inner r) (h : Stored S book)
    (hk : inner.2.Keyed S) : Stored S r.2 := by
  rcases hr with ⟨e, rfl⟩ | ⟨-, h₂, hc⟩
  · exact h
  · exact ⟨hc, h₂ ▸ hk⟩

/-- Where a tombstone pass meets no tombstone too far ahead, the table selects what the inner
book removes. -/
theorem served_tombstone (hser : ser.Lossless) (hrule : InMemoryQuoteBook.TombstoneRule mc m)
    (hcommit : faults.commit = none) (h : Consistent book) {c : Nat} (hc : c < 2 ^ 63)
    (hnear : ∀ q ∈ book.quoteBook.quotes, q.tombstoneBlock.toNat ≤ c + m) :
    Served book (book.quoteBook.removeQuotesByTombstoneBlock mc c)
      (SqliteQuoteBook.removeQuotesByTombstoneBlock mc faults c book) := by
  refine served_removeQuotes hser hcommit h (p := InMemoryQuoteBook.expired mc c) ?_
    (fun inner => inner.removeQuotesByTombstoneBlock_eq mc c)
  intro q hq
  refine Bool.eq_iff_iff.mpr ⟨expired_of_reached hrule hc, ?_⟩
  exact (expired_imp_reached_iff hrule hc q).mpr (hnear q hq)

theorem served_keyImage (hser : ser.Lossless) (hcommit : faults.commit = none)
    (h : Consistent book) (k : KeyImage) :
    Served book (book.quoteBook.removeQuotesByKeyImage k)
      (SqliteQuoteBook.removeQuotesByKeyImage faults k book) :=
  served_removeQuotes hser hcommit h
    (fun _ _ => decide_eq_decide.mpr Row.ofQuote_keyImage_eq_iff)
    (fun inner => inner.removeQuotesByKeyImage_eq k)

/-- What a step of the stack is to the synchronized book inside it: nothing, a step of its own,
or the end of an `add_quote` that the database refused. -/
inductive Moves (mc : McCore) (t t' : Stack ser) (a : Action) : Prop
  | stutter : t'.sync = t.sync → Moves mc t t' a
  | same : t.sync.step mc a = some t'.sync → Moves mc t t' a
  | refused {i : Nat} {q : Quote} {c : BlockIndex} {e : Error} :
      t.sync.calls i = .checkingRing q c [] →
      t'.sync = { t.sync with calls := Function.update t.sync.calls i (.done (.err e)) } →
      Moves mc t t' a

theorem Served.fetchRemoval {inner : Outcome Error (List Quote) × InMemoryQuoteBook}
    {r : Outcome Error (List Quote) × SqliteQuoteBook ser} (hr : Served t.book inner r)
    (go : List Quote → Fetcher) :
    (t.fetchRemoval go r).sync = t.sync ∨
      (t.fetchRemoval go r).sync = t.sync.fetchRemoval go inner := by
  rcases hr with ⟨e, rfl⟩ | ⟨h₁, h₂, -⟩
  · exact .inl rfl
  · refine .inr ?_
    rw [Stack.fetchRemoval, h₁, h₂]

theorem Served.apiRemoval {inner : Outcome Error (List Quote) × InMemoryQuoteBook}
    {r : Outcome Error (List Quote) × SqliteQuoteBook ser} (hr : Served t.book inner r) :
    (t.apiRemoval r).sync = t.sync ∨ (t.apiRemoval r).sync = t.sync.apiRemoval inner := by
  rcases hr with ⟨e, rfl⟩ | ⟨h₁, h₂, -⟩
  · exact .inl rfl
  · refine .inr ?_
    rw [Stack.apiRemoval, h₁, h₂]

theorem Served.map {α β : Type} {inner : Outcome Error α × InMemoryQuoteBook}
    {r : Outcome Error α × SqliteQuoteBook ser} (hr : Served book inner r) (f : α → β) :
    Served book (inner.map (.map f) fun b => b) (r.map (.map f) fun b => b) := by
  rcases hr with ⟨e, rfl⟩ | ⟨h₁, h₂, hc⟩
  · exact .inl ⟨e, rfl⟩
  · exact .inr ⟨congrArg (Outcome.map f) h₁, h₂, hc⟩

theorem book_fetchRemoval (go : List Quote → Fetcher)
    (r : Outcome Error (List Quote) × SqliteQuoteBook ser) :
    (t.fetchRemoval go r).book = r.2 := by
  obtain ⟨o, b⟩ := r
  cases o <;> rfl

theorem book_apiRemoval (r : Outcome Error (List Quote) × SqliteQuoteBook ser) :
    (t.apiRemoval r).book = r.2 := by
  obtain ⟨o, b⟩ := r
  cases o <;> rfl

theorem moves_insert (hS : Genuine mc S) (hser : ser.Lossless) (h : Stored S t.book)
    (hcommit : faults.commit = none) {i : Nat} {q : Quote} {c : BlockIndex} (hq : q ∈ S)
    (hi : t.sync.calls i = .checkingRing q c []) (fault : Option String) :
    Stored S (t.insert faults i q).book ∧ Moves mc t (t.insert faults i q) (.advance i fault) := by
  have hserved := served_addQuote hser hcommit h.consistent q
  refine ⟨hserved.stored h (h.keyed.addQuote hS hq), ?_⟩
  rcases hserved with ⟨e, he⟩ | ⟨h₁, h₂, -⟩
  · refine .refused hi (e := e) ?_
    simp only [Stack.insert, he]
    rfl
  · refine .same ?_
    simp only [State.step, State.advance, hi, State.insert_eq_answerAdd]
    rw [Stack.insert, h₁, h₂]
    rfl

theorem moves_map (h : Stored S t.book) {a : Action} {o : Option State}
    (hs : o.map (⟨·, t.table⟩) = some t') (ho : ∀ {s'}, o = some s' → t.sync.step mc a = some s')
    (hbook : ∀ {s'}, o = some s' →
      s'.book.quotes.Perm t.sync.book.quotes ∧ s'.book.Keyed S) :
    Stored S t'.book ∧ Moves mc t t' a := by
  obtain ⟨s', rfl, rfl⟩ := Option.map_eq_some_iff.mp hs
  obtain ⟨hperm, hk⟩ := hbook rfl
  exact ⟨⟨List.Perm.trans h.consistent (hperm.symm.map _), hk⟩, .same (ho rfl)⟩

theorem moves_advance (hS : Genuine mc S) (hser : ser.Lossless) (h : Stored S t.book)
    (hw : Within S t.sync) (hcommit : faults.commit = none) {i : Nat} {fault : Option String}
    (hs : t.advance faults i fault = some t') :
    Stored S t'.book ∧ Moves mc t t' (.advance i fault) := by
  unfold Stack.advance at hs
  split at hs
  · next q c hi =>
      obtain rfl := Option.some.inj hs
      exact moves_insert hS hser h hcommit (hw.calls i q (by rw [hi]; rfl)) hi fault
  · next hi =>
      refine moves_map h hs (fun hadv => hadv) ?_
      intro s' hadv
      rcases advance_cases hadv with ⟨q, c, hc, -⟩ | ⟨c', -, rfl⟩
      · exact absurd hc (hi q c)
      · exact ⟨.refl _, h.keyed⟩

theorem State.Fetches.book_eq {s s' : State} (h : Fetches mc s s')
    (hremoving : ∀ starting k ks, s.fetcher ≠ .removing starting (k :: ks))
    (hexpire : ∀ last, s.fetcher ≠ .expire last) : s'.book = s.book := by
  cases h with
  | remove hf hr => exact absurd hf (hremoving _ _ _)
  | expire hf hr => exact absurd hf (hexpire _)
  | _ => rfl

theorem moves_fetchRemoval (h : Stored S t.book)
    {inner : Outcome Error (List Quote) × InMemoryQuoteBook}
    {r : Outcome Error (List Quote) × SqliteQuoteBook ser} (hr : Served t.book inner r)
    (hk : inner.2.Keyed S) {go : List Quote → Fetcher} {fault : Option String}
    (hfetch : t.sync.fetch mc fault = some (t.sync.fetchRemoval go inner)) :
    Stored S (t.fetchRemoval go r).book ∧ Moves mc t (t.fetchRemoval go r) (.fetch fault) := by
  rw [book_fetchRemoval]
  refine ⟨hr.stored h hk, ?_⟩
  rcases hr.fetchRemoval go with heq | heq
  · exact .stutter heq
  · exact .same (hfetch.trans (congrArg some heq.symm))

theorem moves_fetch (hS : Genuine mc S) (hser : ser.Lossless)
    (hrule : InMemoryQuoteBook.TombstoneRule mc m) (h : Stored S t.book) {fault : Option String}
    (hg : Serves m S t (faults, .fetch fault)) (hs : t.fetch mc faults fault = some t') :
    Stored S t'.book ∧ Moves mc t t' (.fetch fault) := by
  unfold Stack.fetch at hs
  split at hs
  · next starting k ks hf =>
      obtain rfl := Option.some.inj hs
      refine moves_fetchRemoval h (served_keyImage hser hg.commits h.consistent k)
        (h.keyed.apply hS (.removeQuotesByKeyImage k) (fun _ hq => by cases hq)) ?_
      simp only [State.fetch, hf]
      rfl
  · next last hf =>
      obtain rfl := Option.some.inj hs
      obtain ⟨hc, hnear⟩ := hg.near last hf
      refine moves_fetchRemoval h (served_tombstone hser hrule hg.commits h.consistent hc hnear)
        (h.keyed.apply hS (.removeQuotesByTombstoneBlock last) (fun _ hq => by cases hq)) ?_
      simp only [State.fetch, hf]
      rfl
  · next hremoving hexpire =>
      refine moves_map h hs (fun hfetch => hfetch) ?_
      intro s' hfetch
      rw [(fetches_of_fetch hfetch).book_eq hremoving hexpire]
      exact ⟨.refl _, h.keyed⟩

theorem moves_apiRemoval (h : Stored S t.book)
    {inner : Outcome Error (List Quote) × InMemoryQuoteBook}
    {r : Outcome Error (List Quote) × SqliteQuoteBook ser} (hr : Served t.book inner r)
    (hk : inner.2.Keyed S) {a : Action}
    (ha : t.sync.step mc a = some (t.sync.apiRemoval inner)) :
    Stored S (t.apiRemoval r).book ∧ Moves mc t (t.apiRemoval r) a := by
  rw [book_apiRemoval]
  refine ⟨hr.stored h hk, ?_⟩
  rcases hr.apiRemoval with heq | heq
  · exact .stutter heq
  · exact .same (ha.trans (congrArg some heq.symm))

/-- **A step of the stack.** -/
theorem moves_of_step (hS : Genuine mc S) (hser : ser.Lossless)
    (hrule : InMemoryQuoteBook.TombstoneRule mc m) (h : Stored S t.book) (hw : Within S t.sync)
    {a : Action} (hg : Serves m S t (faults, a)) (hs : t.step mc (faults, a) = some t') :
    Stored S t'.book ∧ Moves mc t t' a := by
  cases a with
  | append block =>
      refine moves_map h (o := t.sync.step mc (.append block)) hs (fun hs' => hs') ?_
      intro s' hs'
      obtain rfl := Option.some.inj hs'
      exact ⟨.refl _, h.keyed⟩
  | call i quote =>
      refine moves_map h hs (fun hs' => hs') ?_
      intro s' hs'
      obtain ⟨-, rfl⟩ := call_cases hs'
      exact ⟨.refl _, h.keyed⟩
  | requestStop =>
      refine moves_map h (o := t.sync.step mc .requestStop) hs (fun hs' => hs') ?_
      intro s' hs'
      obtain rfl := Option.some.inj hs'
      exact ⟨.refl _, h.keyed⟩
  | rehash scis =>
      refine moves_map h hs (fun hs' => hs') ?_
      intro s' hs'
      have hperm := rehash_cases hs'
      simp only [State.step] at hs'
      split at hs'
      · next hp =>
          obtain rfl := Option.some.inj hs'
          exact ⟨hperm.2, h.keyed.reorder hp _⟩
      · cases hs'
  | advance i fault => exact moves_advance hS hser h hw hg.commits hs
  | fetch fault => exact moves_fetch hS hser hrule h hg hs
  | removeQuoteById id =>
      obtain rfl := Option.some.inj hs
      exact moves_apiRemoval h
        ((served_removeQuoteById hser hg.commits h.consistent id).map ([·]))
        (h.keyed.removeQuoteById hS id) rfl
  | removeQuotesByKeyImage k =>
      obtain rfl := Option.some.inj hs
      exact moves_apiRemoval h (served_keyImage hser hg.commits h.consistent k)
        (h.keyed.apply hS (.removeQuotesByKeyImage k) (fun _ hq => by cases hq)) rfl
  | removeQuotesByTombstoneBlock c =>
      obtain rfl := Option.some.inj hs
      obtain ⟨hc, hnear⟩ := hg.near c rfl
      exact moves_apiRemoval h (served_tombstone hser hrule hg.commits h.consistent hc hnear)
        (h.keyed.apply hS (.removeQuotesByTombstoneBlock c) (fun _ hq => by cases hq)) rfl

structure Kept (S : Set Quote) (t : Stack ser) : Prop where
  stored : Stored S t.book
  within : Within S t.sync

theorem within_refused {s : State} (h : Within S s) (i : Nat) (e : Error) :
    Within S { s with calls := Function.update s.calls i (.done (.err e)) } := by
  refine ⟨h.book, ?_⟩
  intro j q hq
  rcases eq_or_ne j i with rfl | hne
  · simp only [Function.update_self] at hq
    exact absurd hq id
  · simp only [Function.update_of_ne hne] at hq
    exact h.calls j q hq

theorem Kept.step (hS : Genuine mc S) (hser : ser.Lossless)
    (hrule : InMemoryQuoteBook.TombstoneRule mc m) (h : Kept S t) {fa : Faults × Action}
    (hg : Serves m S t fa) (hs : t.step mc fa = some t') : Kept S t' := by
  obtain ⟨hstored, hmoves⟩ := moves_of_step hS hser hrule h.stored h.within hg hs
  refine ⟨hstored, ?_⟩
  cases hmoves with
  | stutter heq => exact heq ▸ h.within
  | same hstep => exact within_step h.within hg.within hstep
  | @refused i q c e _ heq => exact heq ▸ within_refused h.within i e

/-! ## Refinement

A call that the database refuses has no counterpart over memory, where the insertion of a call
that has come that far cannot fail so.  The run that is compared lets that call wait for ever
and gives the next call of the thread to a thread that was idle: the threads are renamed as
the run goes on. -/

/-- The calls of the second system are those of the first under other numbers; from some
number on nobody has called. -/
def Tracks (cs cs' : Nat → AddCall) : Prop :=
  ∃ (ρ : Nat → Nat) (n : Nat),
    (∀ i, ¬ (cs i).Quiet → ρ i < n ∧ cs' (ρ i) = cs i) ∧
    (∀ i j, ¬ (cs i).Quiet → ¬ (cs j).Quiet → ρ i = ρ j → i = j) ∧
    ∀ k, n ≤ k → cs' k = .idle

theorem tracks_idle : Tracks (fun _ => .idle) (fun _ => .idle) :=
  ⟨id, 0, fun _ h => absurd trivial h, fun _ _ h => absurd trivial h, fun _ _ => rfl⟩

theorem Tracks.call {cs cs' : Nat → AddCall} (h : Tracks cs cs') (i : Nat) (q : Quote) :
    ∃ j, cs' j = .idle ∧
      Tracks (Function.update cs i (.start q)) (Function.update cs' j (.start q)) := by
  obtain ⟨ρ, n, hmap, hinj, hidle⟩ := h
  have hother : ∀ {j}, j ≠ i → ¬ (Function.update cs i (.start q) j).Quiet → ¬ (cs j).Quiet := by
    intro j hne hj
    rwa [Function.update_of_ne hne] at hj
  refine ⟨n, hidle n le_rfl, Function.update ρ i n, n + 1, ?_, ?_, ?_⟩
  · intro j hj
    rcases eq_or_ne j i with rfl | hne
    · simp
    · obtain ⟨hlt, heq⟩ := hmap j (hother hne hj)
      rw [Function.update_of_ne hne, Function.update_of_ne hne, Function.update_of_ne hlt.ne]
      exact ⟨Nat.lt_succ_of_lt hlt, heq⟩
  · intro j k hj hk heq
    rcases eq_or_ne j i with rfl | hji
    · rcases eq_or_ne k j with rfl | hkj
      · rfl
      · rw [Function.update_self, Function.update_of_ne hkj] at heq
        exact absurd heq.symm (hmap k (hother hkj hk)).1.ne
    · rcases eq_or_ne k i with rfl | hki
      · rw [Function.update_self, Function.update_of_ne hji] at heq
        exact absurd heq (hmap j (hother hji hj)).1.ne
      · rw [Function.update_of_ne hji, Function.update_of_ne hki] at heq
        exact hinj j k (hother hji hj) (hother hki hk) heq
  · intro k hk
    rw [Function.update_of_ne (by omega)]
    exact hidle k (by omega)

/-- A call that moves is moved under its other number. -/
theorem Tracks.move {cs cs' : Nat → AddCall} (h : Tracks cs cs') {i : Nat}
    (hi : ¬ (cs i).Quiet) : ∃ j, cs' j = cs i ∧
      ∀ c, Tracks (Function.update cs i c) (Function.update cs' j c) := by
  obtain ⟨ρ, n, hmap, hinj, hidle⟩ := h
  refine ⟨ρ i, (hmap i hi).2, fun c => ⟨ρ, n, ?_, ?_, ?_⟩⟩
  · intro j hj
    rcases eq_or_ne j i with rfl | hne
    · simp [(hmap j hi).1]
    · rw [Function.update_of_ne hne] at hj ⊢
      have hρ : ρ j ≠ ρ i := fun heq => hne (hinj j i hj hi heq)
      rw [Function.update_of_ne hρ]
      exact hmap j hj
  · -- a call that had not ended before the move
    have hbefore : ∀ {j}, ¬ (Function.update cs i c j).Quiet → ¬ (cs j).Quiet := by
      intro j hj
      rcases eq_or_ne j i with rfl | hne
      · exact hi
      · rwa [Function.update_of_ne hne] at hj
    intro j k hj hk heq
    exact hinj j k (hbefore hj) (hbefore hk) heq
  · intro k hk
    have hne : k ≠ ρ i := by
      have hlt := (hmap i hi).1
      omega
    rw [Function.update_of_ne hne]
    exact hidle k hk

theorem Tracks.refused {cs cs' : Nat → AddCall} (h : Tracks cs cs') (i : Nat)
    (r : Outcome Error Unit) : Tracks (Function.update cs i (.done r)) cs' := by
  obtain ⟨ρ, n, hmap, hinj, hidle⟩ := h
  have hbefore : ∀ {j}, ¬ (Function.update cs i (.done r) j).Quiet →
      ¬ (cs j).Quiet ∧ Function.update cs i (.done r) j = cs j := by
    intro j hj
    rcases eq_or_ne j i with rfl | hne
    · rw [Function.update_self] at hj
      exact absurd trivial hj
    · rw [Function.update_of_ne hne] at hj
      exact ⟨hj, Function.update_of_ne hne ..⟩
  refine ⟨ρ, n, ?_, ?_, hidle⟩
  · intro j hj
    obtain ⟨hq, heq⟩ := hbefore hj
    rw [heq]
    exact hmap j hq
  · intro j k hj hk heq
    exact hinj j k (hbefore hj).1 (hbefore hk).1 heq

def State.withCalls (s : State) (cs : Nat → AddCall) : State := { s with calls := cs }

/-- The actions that neither make a call nor move one. -/
def CallFree : Action → Prop
  | .call .. | .advance .. => False
  | _ => True

theorem fetchRemoval_withCalls (s : State) (cs : Nat → AddCall) (go : List Quote → Fetcher)
    (r : Outcome Error (List Quote) × InMemoryQuoteBook) :
    (s.withCalls cs).fetchRemoval go r = (s.fetchRemoval go r).withCalls cs := by
  obtain ⟨o, b⟩ := r
  cases o <;> rfl

theorem apiRemoval_withCalls (s : State) (cs : Nat → AddCall)
    (r : Outcome Error (List Quote) × InMemoryQuoteBook) :
    (s.withCalls cs).apiRemoval r = (s.apiRemoval r).withCalls cs := by
  obtain ⟨o, b⟩ := r
  cases o <;> rfl

theorem fetch_withCalls (s : State) (cs : Nat → AddCall) (fault : Option String) :
    (s.withCalls cs).fetch mc fault = (s.fetch mc fault).map (·.withCalls cs) := by
  have hf' : (s.withCalls cs).fetcher = s.fetcher := rfl
  cases hf : s.fetcher with
  | poll => simp only [State.fetch, hf', hf]; rfl
  | load starting =>
      simp only [State.fetch, hf', hf]
      cases fault with
      | some e => rfl
      | none =>
          have hblock : (s.withCalls cs).ledger[(s.withCalls cs).nextBlockIndex]? =
              s.ledger[s.nextBlockIndex]? := rfl
          rw [hblock]
          cases s.ledger[s.nextBlockIndex]? <;> rfl
  | removing starting ks =>
      cases ks with
      | nil => simp only [State.fetch, hf', hf]; rfl
      | cons k ks =>
          simp only [State.fetch, hf', hf, fetchRemoval_withCalls]
          rfl
  | handing starting quotes ks => simp only [State.fetch, hf', hf]; rfl
  | loaded starting => simp only [State.fetch, hf', hf]; rfl
  | expire last =>
      simp only [State.fetch, hf', hf, fetchRemoval_withCalls]
      rfl
  | handExpired last quotes => simp only [State.fetch, hf', hf]; rfl
  | store last => simp only [State.fetch, hf', hf]; rfl
  | stopped => simp only [State.fetch, hf', hf]; rfl

theorem step_withCalls {s s' : State} {a : Action} (ha : CallFree a)
    (h : s.step mc a = some s') (cs : Nat → AddCall) :
    (s.withCalls cs).step mc a = some (s'.withCalls cs) := by
  cases a with
  | append block => obtain rfl := Option.some.inj h; rfl
  | requestStop => obtain rfl := Option.some.inj h; rfl
  | call i quote => exact absurd ha id
  | advance i fault => exact absurd ha id
  | fetch fault =>
      have hfetch : s.fetch mc fault = some s' := h
      show (s.withCalls cs).fetch mc fault = _
      rw [fetch_withCalls, hfetch]
      rfl
  | removeQuoteById i =>
      obtain rfl := Option.some.inj h
      exact congrArg some (apiRemoval_withCalls ..)
  | removeQuotesByKeyImage k =>
      obtain rfl := Option.some.inj h
      exact congrArg some (apiRemoval_withCalls ..)
  | removeQuotesByTombstoneBlock c =>
      obtain rfl := Option.some.inj h
      exact congrArg some (apiRemoval_withCalls ..)
  | rehash scis =>
      simp only [State.step] at h ⊢
      split at h
      · next hp =>
          obtain rfl := Option.some.inj h
          exact if_pos hp
      · cases h

theorem calls_of_callFree {s s' : State} {a : Action} (ha : CallFree a)
    (h : s.step mc a = some s') : s'.calls = s.calls := by
  have hswap := step_withCalls ha h s.calls
  have hsame : s.withCalls s.calls = s := rfl
  rw [hsame, h] at hswap
  have heq : s' = s'.withCalls s.calls := Option.some.inj hswap
  rw [heq]
  rfl

theorem advance_of_next {s : State} {j : Nat} {fault : Option String} {c' : AddCall}
    (h : (s.calls j).next s.ledger fault = some c') :
    s.advance j fault = some (s.withCalls (Function.update s.calls j c')) := by
  unfold State.advance
  split
  · next hj =>
      rw [hj] at h
      cases h
  · rw [h]
    rfl

theorem not_quiet_of_advance {s s' : State} {i : Nat} {fault : Option String}
    (h : s.advance i fault = some s') : ¬ (s.calls i).Quiet := by
  intro hquiet
  rcases advance_cases h with ⟨q, c, hi, -⟩ | ⟨c', hc', -⟩
  · rw [hi] at hquiet
    exact hquiet
  · cases hc : s.calls i with
    | idle => rw [hc] at hc'; cases hc'
    | done r => rw [hc] at hc'; cases hc'
    | _ => rw [hc] at hquiet; exact hquiet

/-- A step is matched by the same step of a system whose calls have other numbers. -/
theorem tracks_step {s₁ s₁' s : State} {a : Action} (hsame : s₁ = s.withCalls s₁.calls)
    (htracks : Tracks s₁.calls s.calls) (hw : CallsWithin S s₁ a)
    (h : s₁.step mc a = some s₁') :
    ∃ b s', CallsWithin S s b ∧ s.step mc b = some s' ∧ s₁' = s'.withCalls s₁'.calls ∧
      Tracks s₁'.calls s'.calls := by
  have hback : s = s₁.withCalls s.calls := by
    rw [hsame]
    rfl
  by_cases ha : CallFree a
  · refine ⟨a, s₁'.withCalls s.calls, ?_, ?_, rfl, ?_⟩
    · cases a <;> exact hw
    · rw [hback]
      exact step_withCalls ha h s.calls
    · rw [calls_of_callFree ha h]
      exact htracks
  · cases a with
    | call i q =>
        obtain ⟨-, rfl⟩ := call_cases h
        obtain ⟨j, hj, htracks'⟩ := htracks.call i q
        refine ⟨.call j q, s.withCalls (Function.update s.calls j (.start q)), hw, ?_, ?_, htracks'⟩
        · simp only [State.step, hj]
          rfl
        · rw [hsame]
          rfl
    | advance i fault =>
        obtain ⟨j, hj, htracks'⟩ := htracks.move (not_quiet_of_advance h)
        have hledger : s₁.ledger = s.ledger := by rw [hsame]; rfl
        rcases advance_cases h with ⟨q, c, hi, rfl⟩ | ⟨c', hc', rfl⟩
        · refine ⟨.advance j fault, s.insert j q, trivial, ?_, ?_, ?_⟩
          · simp only [State.step, State.advance, hj.trans hi]
          · rw [hsame]
            rfl
          · have hbook : s₁.book = s.book := by rw [hsame]; rfl
            simp only [State.insert_eq_answerAdd, State.answerAdd, hbook]
            exact htracks' _
        · rw [hledger, ← hj] at hc'
          exact ⟨.advance j fault, _, trivial, advance_of_next hc', by rw [hsame]; rfl, htracks' c'⟩
    | _ => exact absurd trivial ha

/-- The stack and a synchronized book over memory that has done the same. -/
structure Simulates (S : Set Quote) (t : Stack ser) (s : State) : Prop where
  kept : Kept S t
  same : t.sync = s.withCalls t.sync.calls
  tracks : Tracks t.sync.calls s.calls

theorem Simulates.step (hS : Genuine mc S) (hser : ser.Lossless)
    (hrule : InMemoryQuoteBook.TombstoneRule mc m) {s : State} (h : Simulates S t s)
    {fa : Faults × Action} (hg : Serves m S t fa) (hs : t.step mc fa = some t') :
    ∃ bs s', Lts.Run (State.step mc) (CallsWithin S) s bs s' ∧ Simulates S t' s' := by
  have hkept := h.kept.step hS hser hrule hg hs
  obtain ⟨-, hmoves⟩ := moves_of_step hS hser hrule h.kept.stored h.kept.within hg hs
  cases hmoves with
  | stutter heq => exact ⟨[], s, .nil _, hkept, heq ▸ h.same, heq ▸ h.tracks⟩
  | same hstep =>
      obtain ⟨b, s', hw, hstep', hsame, htracks⟩ := tracks_step h.same h.tracks hg.within hstep
      exact ⟨[b], s', .single hw hstep', hkept, hsame, htracks⟩
  | @refused i q c e hi heq =>
      refine ⟨[], s, .nil _, hkept, ?_, ?_⟩
      · rw [heq, h.same]
        rfl
      · rw [heq]
        exact h.tracks.refused i (.err e)

/-- The rows are the quotes, with distinct keys, behind a sound lock: what a stack starts
from. -/
theorem simulates_initial {ledger : Ledger} (h : Sound S book) :
    Simulates S (.initial ledger book) (.initial ledger book.quoteBook) where
  kept := ⟨⟨h.consistent, h.keyed⟩, fun _ hq => h.keyed.subset hq, fun _ _ hq => absurd hq id⟩
  same := rfl
  tracks := tracks_idle

/-- **The stack refines the synchronized book over memory.**  Whatever fails in the database,
as long as `COMMIT` goes through and no tombstone pass meets a tombstone too far ahead: what
the stack has done to the ledger, the quotes, the fetcher and the records, the synchronized book
could have done over memory; and its rows are its quotes. -/
theorem stack_refines (hS : Genuine mc S) (hser : ser.Lossless)
    (hrule : InMemoryQuoteBook.TombstoneRule mc m) {ledger : Ledger} (hbook : Sound S book)
    {as : List (Faults × Action)}
    (hrun : Lts.Run (Stack.step mc) (Serves m S) (.initial ledger book) as t) :
    Consistent t.book ∧ ∃ bs s,
      Lts.Run (State.step mc) (CallsWithin S) (.initial ledger book.quoteBook) bs s ∧
        t.sync = s.withCalls t.sync.calls := by
  obtain ⟨bs, s, hruns, h⟩ := hrun.simulate (Simulates S)
    (fun h hg hs => h.step hS hser hrule hg hs) (simulates_initial hbook)
  exact ⟨h.kept.stored.consistent, bs, s, hruns, h.same⟩

def busy : Faults := { Faults.none with statement := some "database is locked" }

/-- A quote is submitted twice, because the database is busy the first time; then its key image
is spent, and the database is busy again at the first removal. -/
def twiceBusy : List (Faults × Action) :=
  [(.none, .call 0 (sampleQuote 1 10 20 0 1)), (.none, .advance 0 none), (.none, .advance 0 none),
    (busy, .advance 0 none),
    (.none, .call 0 (sampleQuote 1 10 20 0 1)), (.none, .advance 0 none), (.none, .advance 0 none),
    (.none, .advance 0 none), (.none, .append ⟨[⟨.fill 1⟩], []⟩),
    (.none, .fetch none), (.none, .fetch none), (.none, .fetch none), (.none, .fetch none),
    (.none, .fetch none), (busy, .fetch none), (.none, .fetch none), (.none, .fetch none)]

theorem twiceBusy_run : ∃ t : Stack sampleSerial,
    Lts.Run (Stack.step sampleCore) (Serves 20160 oneQuote) (.initial origin .empty) twiceBusy t ∧
      t.sync.handed = [sampleQuote 1 10 20 0 1] := by
  refine ⟨_, .cons ?_ rfl (.cons ?_ rfl (.cons ?_ rfl (.cons ?_ rfl (.cons ?_ rfl (.cons ?_ rfl
    (.cons ?_ rfl (.cons ?_ rfl (.cons ?_ rfl (.cons ?_ rfl (.cons ?_ rfl (.cons ?_ rfl
    (.cons ?_ rfl (.cons ?_ rfl (.cons ?_ rfl (.cons ?_ rfl (.cons ?_ rfl
    (.nil _))))))))))))))))), rfl⟩
  all_goals exact ⟨rfl, by trivial, fun _ h => by cases h⟩

theorem twiceBusy_refines : ∃ t : Stack sampleSerial,
    t.sync.handed = [sampleQuote 1 10 20 0 1] ∧ Consistent t.book ∧ ∃ bs s,
      Lts.Run (State.step sampleCore) (CallsWithin oneQuote) (.initial origin .default) bs s ∧
        t.sync = s.withCalls t.sync.calls := by
  obtain ⟨t, hrun, hhanded⟩ := twiceBusy_run
  exact ⟨t, hhanded, stack_refines oneQuote_genuine sampleSerial_lossless
    InMemoryQuoteBook.sampleCore_tombstoneRule sound_empty hrun⟩

end Deqs.Sync
