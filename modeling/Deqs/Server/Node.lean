/-
# A node, and the ways into its book

SCIs reach the book of a server on three ways, each of them a thread that calls `add_sci`,
and quotes on a fourth:

| way | what arrives | what is added |
| :-- | :-- | :-- |
| `submit_quotes_impl` | an SCI from a client | `Quote::new(sci, now)`, if the validator agrees |
| `handle_sci_quote_added` | a quote from gossip | `Quote::new(quote.sci, quote.timestamp)` |
| `sync_quotes_from_peer` | a list of quotes from a peer | the same, one after the other |
| `SqliteQuoteBook::new` | the rows of the table | the rows, decoded field by field |

Two of them are handed a finished quote by a peer that may be lying about any of its
fields, and the last one trusts what it reads.  The node is a step function: a thread
enters, takes the steps of `SynchronizedQuoteBook::add_quote` (reads of the ledger, any of
which can fail), and inserts; the fetcher and everyone else call the other functions of
the book; the database fails where it likes; the server is restarted from its table.

**The result** (`stored_quotes_derived`): nothing of what a peer says about a quote but its
SCI and its timestamp gets into the book.  Whatever is stored, in memory or in the table,
is what `Quote::new` makes of these two.
-/
import Deqs.Book.Recovery
import Deqs.Sync.Model
import Deqs.Server.ClientService

namespace Deqs

open Sync (Ledger Block AddCall)

/-! ## The book of a node -/

/-- The book below the synchronized one: in memory, or in SQLite over memory. -/
inductive NodeBook (ser : Serial) where
  | inMemory (book : InMemoryQuoteBook)
  | sqlite (book : SqliteQuoteBook ser)

namespace NodeBook

variable {ser : Serial}

/-- The in-memory book that answers the queries. -/
def inner : NodeBook ser → InMemoryQuoteBook
  | .inMemory book => book
  | .sqlite book => book.quoteBook

/-- The rows that survive a restart. -/
def rows : NodeBook ser → List Row
  | .inMemory _ => []
  | .sqlite book => book.table.rows

def addQuote (faults : Faults) (quote : Quote) :
    NodeBook ser → Outcome Error Unit × NodeBook ser
  | .inMemory book => (book.addQuote quote).map id .inMemory
  | .sqlite book => (book.addQuote faults quote).map id .sqlite

def apply (mc : McCore) (faults : Faults) (call : Call) :
    NodeBook ser → Outcome Error Response × NodeBook ser
  | .inMemory book => (book.apply mc call).map id .inMemory
  | .sqlite book => (book.apply mc faults call).map id .sqlite

/-- The inner map is walked in another order. -/
def rehash (scis : AssocMap Pair (List Quote)) (book : NodeBook ser) : Option (NodeBook ser) :=
  if book.inner.scis.entries.Perm scis.entries then
    some (match book with
      | .inMemory book => .inMemory ⟨scis, book.poisoned⟩
      | .sqlite book => .sqlite ⟨book.table, ⟨scis, book.quoteBook.poisoned⟩⟩)
  else none

/-- The book after a restart: an empty one, or the one loaded from the table.  `rows` are
the rows in the order the query returns them. -/
def reopen (faults : SqliteQuoteBook.OpenFaults) (rows : List Row) :
    NodeBook ser → Option (NodeBook ser)
  | .inMemory _ => some (.inMemory .default)
  | .sqlite book =>
      if rows.Perm book.table.rows then
        match SqliteQuoteBook.new faults book.table rows .default with
        | .ok book => some (.sqlite book)
        | .err _ => none
        | .panic _ => none
      else none

def Empty : NodeBook ser → Prop
  | .inMemory book => book = .default
  | .sqlite book => book = .empty

/-- The quote is in the book, or a row decodes to it. -/
def Stores (book : NodeBook ser) (q : Quote) : Prop :=
  q ∈ book.inner.quotes ∨ ∃ r ∈ book.rows, r.toQuote ser = .ok q

theorem addQuote_snd (mc : McCore) (faults : Faults) (quote : Quote) (book : NodeBook ser) :
    (book.addQuote faults quote).2 = (book.apply mc faults (.addQuote quote)).2 := by
  cases book with
  | inMemory book => rfl
  | sqlite book => rfl

theorem not_mem_of_empty {book : NodeBook ser} (h : book.Empty) :
    (∀ q, q ∉ book.inner.quotes) ∧ ∀ r, r ∉ book.rows := by
  cases book with
  | inMemory book =>
      obtain rfl : book = .default := h
      exact ⟨fun _ => List.not_mem_nil, fun _ => List.not_mem_nil⟩
  | sqlite book =>
      obtain rfl : book = .empty := h
      exact ⟨fun _ => List.not_mem_nil, fun _ => List.not_mem_nil⟩

end NodeBook

/-! ## What one call can put into a store -/

theorem InMemoryQuoteBook.mem_quotes_apply {mc : McCore} {book : InMemoryQuoteBook} {call : Call}
    {q : Quote} (h : q ∈ (book.apply mc call).2.quotes) :
    q ∈ book.quotes ∨ call = .addQuote q := by
  cases call with
  | addQuote quote =>
      simp only [InMemoryQuoteBook.apply] at h
      rcases ha : book.addQuote quote with ⟨r, book'⟩
      rw [ha] at h
      cases r with
      | ok u =>
          obtain ⟨-, -, -, hperm⟩ := addQuote_ok ha
          rcases List.mem_cons.mp (hperm.mem_iff.mp h) with rfl | h
          · exact .inr rfl
          · exact .inl h
      | err e => exact .inl (addQuote_err ha ▸ h)
      | panic m =>
          obtain ⟨-, -, -, hperm, -⟩ := addQuote_panic ha
          exact .inl (hperm.mem_iff.mp h)
  | removeQuoteById i => exact .inl (book.removeQuoteById_subset i h)
  | removeQuotesByKeyImage k => exact .inl ((book.removal_keyImage k).subset h)
  | removeQuotesByTombstoneBlock c => exact .inl ((book.removal_tombstone mc c).subset h)
  | getQuotes pair range limit => exact .inl h
  | getQuoteIds pair => cases pair <;> exact .inl h
  | getQuoteById i => exact .inl h
  | numScis => exact .inl h

namespace SqliteQuoteBook

variable {mc : McCore} {ser : Serial}

/-- A transaction ends with the rows it began with or with those of its body. -/
theorem transact_table {α : Type} (faults : Faults)
    (b : SqliteQuoteBook ser → Outcome Error α × SqliteQuoteBook ser)
    (book : SqliteQuoteBook ser) :
    (transact faults b book).2.table = book.table ∨
      (transact faults b book).2.table = (b book).2.table := by
  rcases transact_cases faults b book with ⟨e, heq⟩ | ⟨a, -, heq⟩ | ⟨r, heq, -⟩
  · exact .inl (by rw [heq])
  · exact .inr (by rw [heq])
  · exact .inl (by rw [heq])

theorem removeQuotesBody_rows (faults : Faults) (selected : Row → Bool)
    (remove : InMemoryQuoteBook → Outcome Error (List Quote) × InMemoryQuoteBook)
    (book : SqliteQuoteBook ser) :
    (removeQuotesBody faults selected remove book).2.table.rows ⊆ book.table.rows := by
  unfold removeQuotesBody
  cases faults.statement with
  | some e => exact List.Subset.refl _
  | none =>
      have hsub := book.table.rows_delete_subset selected
      rcases hd : book.table.delete selected with ⟨numDeleted, table⟩
      rw [hd] at hsub
      rcases remove book.quoteBook with ⟨r, inner⟩
      cases r with
      | ok quotes =>
          simp only
          split
          · exact hsub
          · exact hsub
      | err e => exact hsub
      | panic m => exact hsub

theorem mem_rows_apply {faults : Faults} {book : SqliteQuoteBook ser} {call : Call} {r : Row}
    (h : r ∈ (apply mc faults book call).2.table.rows) :
    r ∈ book.table.rows ∨ ∃ q, call = .addQuote q ∧ r = Row.ofQuote ser q := by
  cases call with
  | addQuote q =>
      rcases transact_table faults (addQuoteBody faults q) book with heq | heq
      · exact .inl (heq ▸ h)
      · have h' : r ∈ (addQuoteBody faults q book).2.table.rows := heq ▸ h
        simp only [addQuoteBody] at h'
        cases hs : faults.statement with
        | some e =>
            simp only [hs] at h'
            exact .inl h'
        | none =>
            cases hi : book.table.insert q with
            | none =>
                simp only [hs, hi] at h'
                exact .inl h'
            | some table =>
                simp only [hs, hi, Table.rows_insert hi] at h'
                rcases List.mem_cons.mp h' with rfl | h'
                · exact .inr ⟨q, rfl, rfl⟩
                · exact .inl h'
  | removeQuoteById i =>
      rcases transact_table faults (removeQuoteByIdBody faults i) book with heq | heq
      · exact .inl (heq ▸ h)
      · have h' : r ∈ (removeQuoteByIdBody faults i book).2.table.rows := heq ▸ h
        simp only [removeQuoteByIdBody] at h'
        have hsub := book.table.rows_delete_subset (fun r => r.id = i.data.bytes)
        rcases hd : book.table.delete (fun r => r.id = i.data.bytes) with ⟨numDeleted, table⟩
        rw [hd] at hsub
        left
        cases hs : faults.statement with
        | some e => simpa only [hs] using h'
        | none =>
            simp only [hs, hd] at h'
            split at h'
            · exact hsub h'
            · exact hsub h'
            · exact hsub h'
  | removeQuotesByKeyImage k =>
      rcases transact_table faults (removeQuotesBody faults (hasKeyImage k)
        (·.removeQuotesByKeyImage k)) book with heq | heq
      · exact .inl (heq ▸ h)
      · exact .inl (removeQuotesBody_rows _ _ _ _ (heq ▸ h))
  | removeQuotesByTombstoneBlock c =>
      rcases transact_table faults (removeQuotesBody faults (tombstoneReached c)
        (·.removeQuotesByTombstoneBlock mc c)) book with heq | heq
      · exact .inl (heq ▸ h)
      · exact .inl (removeQuotesBody_rows _ _ _ _ (heq ▸ h))
  | getQuotes pair range limit => exact .inl h
  | getQuoteIds pair => exact .inl h
  | getQuoteById i => exact .inl h
  | numScis => exact .inl h

end SqliteQuoteBook

namespace NodeBook

variable {mc : McCore} {ser : Serial}

theorem mem_inner_apply {faults : Faults} {book : NodeBook ser} {call : Call} {q : Quote}
    (h : q ∈ (book.apply mc faults call).2.inner.quotes) :
    q ∈ book.inner.quotes ∨ call = .addQuote q := by
  cases book with
  | inMemory book => exact InMemoryQuoteBook.mem_quotes_apply h
  | sqlite book =>
      have h' : q ∈ (book.apply mc faults call).2.quoteBook.quotes := h
      rcases SqliteQuoteBook.forwards_apply mc faults book call with heq | ⟨heq, -⟩
      · rw [heq] at h'
        exact .inl h'
      · rw [heq] at h'
        exact InMemoryQuoteBook.mem_quotes_apply h'

theorem mem_inner_rehash {scis : AssocMap Pair (List Quote)} {book book' : NodeBook ser}
    (h : book.rehash scis = some book') :
    book'.inner.quotes.Perm book.inner.quotes ∧ book'.rows = book.rows := by
  unfold rehash at h
  split at h
  · next hp =>
      obtain rfl := Option.some.inj h
      have hperm : (InMemoryQuoteBook.quotes ⟨scis, book.inner.poisoned⟩).Perm book.inner.quotes :=
        InMemoryQuoteBook.quotes_reorder hp _
      cases book with
      | inMemory book => exact ⟨hperm, rfl⟩
      | sqlite book => exact ⟨hperm, rfl⟩
  · cases h

theorem reopen_some {faults : SqliteQuoteBook.OpenFaults} {rows : List Row}
    {book book' : NodeBook ser} (h : book.reopen faults rows = some book') :
    book'.rows = book.rows ∧
      ∀ q ∈ book'.inner.quotes, ∃ r ∈ book.rows, r.toQuote ser = .ok q := by
  cases book with
  | inMemory book =>
      obtain rfl := Option.some.inj h
      exact ⟨rfl, fun q hq => absurd hq List.not_mem_nil⟩
  | sqlite book =>
      simp only [reopen] at h
      split at h
      · next hp =>
          cases hn : SqliteQuoteBook.new faults book.table rows .default with
          | err e => simp [hn] at h
          | panic m => simp [hn] at h
          | ok opened =>
              simp only [hn, Option.some.injEq] at h
              subst h
              obtain ⟨htable, hload⟩ := SqliteQuoteBook.new_ok hn
              refine ⟨congrArg Table.rows htable, ?_⟩
              intro q hq
              rcases SqliteQuoteBook.mem_of_loadRows hload hq with hq | ⟨r, hr, hdec⟩
              · exact absurd hq List.not_mem_nil
              · exact ⟨r, hp.mem_iff.mp hr, hdec⟩
      · cases h

theorem mem_rows_apply {faults : Faults} {book : NodeBook ser} {call : Call} {r : Row}
    (h : r ∈ (book.apply mc faults call).2.rows) :
    r ∈ book.rows ∨ ∃ q, call = .addQuote q ∧ r = Row.ofQuote ser q := by
  cases book with
  | inMemory book => exact .inl h
  | sqlite book => exact SqliteQuoteBook.mem_rows_apply h

end NodeBook

/-! ## Threads -/

/-- `add_sci` after `Quote::new`: on to `add_quote`, or out with the error. -/
def Sync.AddCall.ofOffer : Outcome Error Quote → AddCall
  | .ok quote => .start quote
  | .err e => .done (.err e)
  | .panic m => .done (.panic m)

def Sync.AddCall.quote? : AddCall → Option Quote
  | .start quote => some quote
  | .readBlocks quote _ => some quote
  | .checkingRing quote _ _ => some quote
  | _ => none

inductive Origin where
  | client
  | gossip
  | sync
deriving DecidableEq

/-- A thread that adds SCIs: the call it is in, and the peer's quotes it has still to add
after that. -/
structure Thread where
  origin : Origin
  call : AddCall
  rest : List Quote
deriving DecidableEq

namespace Thread

def idle : Thread := ⟨.client, .idle, []⟩

def isQuiet (t : Thread) : Bool :=
  match t.call with
  | .idle => true
  | .done _ => true
  | _ => false

def isFree (t : Thread) : Bool := t.isQuiet && t.rest.isEmpty

end Thread

/-- What `add_sci` makes of a quote a peer sent, before it touches the book: only its SCI
and its timestamp are looked at. -/
def peerOffer (mc : McCore) (remoteQuote : Quote) : Outcome Error Quote :=
  Quote.new mc none remoteQuote.sci (some remoteQuote.timestamp)

/-- The quotes among the answers to `get_quotes_by_id`; for each requested identifier the
peer sends a quote, says that it has none, or sends an error. -/
def answeredQuotes (answers : List (Except String (Option Quote))) : List Quote :=
  answers.filterMap fun
    | .ok maybeQuote => maybeQuote
    | .error _ => none

/-! ## The node -/

structure Node (ser : Serial) where
  ledger : Ledger
  book : NodeBook ser
  threads : Nat → Thread

inductive NodeAction where
  /-- The ledger grows. -/
  | append (block : Block)
  /-- The closure of `submit_quotes_impl` for one SCI. -/
  | submit (i : Nat) (sci : SignedContingentInput) (timestamp : UInt64)
  | handleSciQuoteAdded (i : Nat) (remoteQuote : Quote)
  /-- The task of `sync_quotes_from_peer` for one chunk. -/
  | syncQuotesFromPeer (i : Nat) (answers : List (Except String (Option Quote)))
  /-- That task turns to the next quote. -/
  | nextQuote (i : Nat)
  /-- One step of `SynchronizedQuoteBook::add_quote`. -/
  | advance (i : Nat) (fault : Option String) (faults : Faults)
  /-- The fetcher, or someone else, calls a function of the book that adds nothing. -/
  | call (faults : Faults) (c : Call)
  | rehash (scis : AssocMap Pair (List Quote))
  | restart (faults : SqliteQuoteBook.OpenFaults) (rows : List Row)

namespace Node

variable {ser : Serial}

def initial (ledger : Ledger) (book : NodeBook ser) : Node ser := ⟨ledger, book, fun _ => .idle⟩

def setThread (s : Node ser) (i : Nat) (t : Thread) : Node ser :=
  { s with threads := Function.update s.threads i t }

/-- A thread takes up work, if it is free. -/
def enter (s : Node ser) (i : Nat) (t : Thread) : Option (Node ser) :=
  if (s.threads i).isFree then some (s.setThread i t) else none

def advance (s : Node ser) (i : Nat) (fault : Option String) (faults : Faults) :
    Option (Node ser) :=
  match (s.threads i).call with
  | .checkingRing quote _ [] =>
      let (r, book) := s.book.addQuote faults quote
      some { s.setThread i { s.threads i with call := .done r } with book }
  | c => (c.next s.ledger fault).map fun c' => s.setThread i { s.threads i with call := c' }

def step (svc : ClientService) (s : Node ser) : NodeAction → Option (Node ser)
  | .append block => some { s with ledger := s.ledger ++ [block] }
  | .submit i sci timestamp => s.enter i ⟨.client, .ofOffer (svc.offer timestamp sci), []⟩
  | .handleSciQuoteAdded i remoteQuote =>
      s.enter i ⟨.gossip, .ofOffer (peerOffer svc.mc remoteQuote), []⟩
  | .syncQuotesFromPeer i answers => s.enter i ⟨.sync, .idle, answeredQuotes answers⟩
  | .nextQuote i =>
      match (s.threads i).isQuiet, (s.threads i).rest with
      | true, remoteQuote :: rest =>
          some (s.setThread i ⟨.sync, .ofOffer (peerOffer svc.mc remoteQuote), rest⟩)
      | _, _ => none
  | .advance i fault faults => s.advance i fault faults
  | .call _ (.addQuote _) => none
  | .call faults c => some { s with book := (s.book.apply svc.mc faults c).2 }
  | .rehash scis => (s.book.rehash scis).map fun book => { s with book }
  | .restart faults rows => (s.book.reopen faults rows).map fun book => .initial s.ledger book

/-! ## What a step does -/

variable {svc : ClientService} {s s' : Node ser}

theorem enter_some {i : Nat} {t : Thread} (h : s.enter i t = some s') :
    (s.threads i).isFree = true ∧ s' = s.setThread i t := by
  unfold enter at h
  split at h
  · next hf => exact ⟨hf, (Option.some.inj h).symm⟩
  · cases h

theorem advance_cases {i : Nat} {fault : Option String} {faults : Faults}
    (h : s.advance i fault faults = some s') :
    (∃ quote c, (s.threads i).call = .checkingRing quote c [] ∧
      s' = { s.setThread i { s.threads i with call := .done (s.book.addQuote faults quote).1 } with
        book := (s.book.addQuote faults quote).2 }) ∨
    ∃ c', (s.threads i).call.next s.ledger fault = some c' ∧
      s' = s.setThread i { s.threads i with call := c' } := by
  unfold advance at h
  split at h
  · next quote c hc => exact .inl ⟨quote, c, hc, (Option.some.inj h).symm⟩
  · obtain ⟨c', hc', rfl⟩ := Option.map_eq_some_iff.mp h
    exact .inr ⟨c', hc', rfl⟩

theorem nextQuote_some {i : Nat} (h : s.step svc (.nextQuote i) = some s') :
    ∃ remoteQuote rest, (s.threads i).rest = remoteQuote :: rest ∧
      s' = s.setThread i ⟨.sync, .ofOffer (peerOffer svc.mc remoteQuote), rest⟩ := by
  simp only [step] at h
  split at h
  · next remoteQuote rest _ hr => exact ⟨remoteQuote, rest, hr, (Option.some.inj h).symm⟩
  · cases h

end Node

theorem Sync.AddCall.quote?_next {ledger : Ledger} {fault : Option String} {c c' : AddCall}
    (h : c.next ledger fault = some c') {q : Quote} (hq : c'.quote? = some q) :
    c.quote? = some q := by
  rcases next_cases h with ⟨e, rfl⟩ | ⟨q', rfl, rfl, -⟩ | ⟨q', n, rfl, rfl, -⟩ |
    ⟨q', n, i, txOut, rest, rfl, rfl, -⟩
  · cases hq
  · exact hq
  · exact hq
  · exact hq

theorem Sync.AddCall.quote?_ofOffer {o : Outcome Error Quote} {q : Quote}
    (h : (AddCall.ofOffer o).quote? = some q) : o = .ok q := by
  cases o with
  | ok quote => exact congrArg Outcome.ok (Option.some.inj h)
  | err e => cases h
  | panic m => cases h

theorem Sync.AddCall.quote?_of_quiet {c : AddCall} (h : c.Quiet) : c.quote? = none := by
  cases c with
  | idle => rfl
  | done r => rfl
  | _ => cases h

theorem ClientService.made_of_offer {svc : ClientService} {timestamp : UInt64}
    {sci : SignedContingentInput} {q : Quote} (h : svc.offer timestamp sci = .ok q) :
    q.Made svc.mc := by
  unfold ClientService.offer at h
  cases hv : svc.sciValidator sci with
  | error e => simp [hv] at h
  | ok u =>
      simp only [hv] at h
      exact ⟨none, sci, some timestamp, h⟩

theorem made_of_peerOffer {mc : McCore} {remoteQuote q : Quote}
    (h : peerOffer mc remoteQuote = .ok q) : q.Made mc :=
  ⟨none, remoteQuote.sci, some remoteQuote.timestamp, h⟩

/-- What a step of the node can make of a call: it leaves it alone; it begins one, with a
quote `Quote::new` has made; it ends it; or it takes its next step. -/
def Sync.AddCall.Becomes (mc : McCore) (ledger : Ledger) (c c' : AddCall) : Prop :=
  c' = c ∨ (∃ o, c' = .ofOffer o ∧ ∀ q, o = .ok q → q.Made mc) ∨ c'.Quiet ∨
    ∃ fault, c.next ledger fault = some c'

namespace Node

variable {ser : Serial} {svc : ClientService} {s s' : Node ser}

/-- **What a step can do** to the ledger, to the two stores, and to the calls. -/
structure Effects (mc : McCore) (s s' : Node ser) : Prop where
  ledger : ∃ blocks, s'.ledger = s.ledger ++ blocks
  inner : ∀ q ∈ s'.book.inner.quotes, s.book.Stores q ∨
    ∃ i c, (s.threads i).call = .checkingRing q c []
  rows : ∀ r ∈ s'.book.rows, r ∈ s.book.rows ∨
    ∃ q i c, (s.threads i).call = .checkingRing q c [] ∧ r = Row.ofQuote ser q
  calls : ∀ i, (s.threads i).call.Becomes mc s.ledger (s'.threads i).call

theorem effects_setThread {mc : McCore} {i : Nat} {t : Thread}
    (ht : (s.threads i).call.Becomes mc s.ledger t.call) : Effects mc s (s.setThread i t) := by
  refine ⟨⟨[], (List.append_nil _).symm⟩, fun q hq => .inl (.inl hq), fun r hr => .inl hr, ?_⟩
  exact (Function.forall_update_iff s.threads
    fun j t => (s.threads j).call.Becomes mc s.ledger t.call).mpr ⟨ht, fun _ _ => .inl rfl⟩

theorem effects_apply {faults : Faults} {c : Call} (hc : ∀ q, c ≠ .addQuote q) :
    Effects svc.mc s { s with book := (s.book.apply svc.mc faults c).2 } := by
  refine ⟨⟨[], (List.append_nil _).symm⟩, ?_, ?_, fun _ => .inl rfl⟩
  · intro q hq
    exact .inl (.inl ((NodeBook.mem_inner_apply hq).resolve_right (hc q)))
  · intro r hr
    refine .inl ((NodeBook.mem_rows_apply hr).resolve_right ?_)
    rintro ⟨q, hq, -⟩
    exact hc q hq

theorem effects_insert (mc : McCore) {i : Nat} {faults : Faults} {quote : Quote} {n : BlockIndex}
    (hi : (s.threads i).call = .checkingRing quote n []) : Effects mc s
      { s.setThread i { s.threads i with call := .done (s.book.addQuote faults quote).1 } with
        book := (s.book.addQuote faults quote).2 } := by
  have hset : Effects mc s
      (s.setThread i { s.threads i with call := .done (s.book.addQuote faults quote).1 }) :=
    effects_setThread (.inr (.inr (.inl trivial)))
  obtain ⟨hledger, -, -, hcalls⟩ := hset
  refine ⟨hledger, ?_, ?_, hcalls⟩
  · intro q hq
    rw [NodeBook.addQuote_snd mc] at hq
    rcases NodeBook.mem_inner_apply hq with hq | hcall
    · exact .inl (.inl hq)
    · obtain rfl := Call.addQuote.inj hcall
      exact .inr ⟨i, n, hi⟩
  · intro r hr
    rw [NodeBook.addQuote_snd mc] at hr
    rcases NodeBook.mem_rows_apply hr with hr | ⟨q, hcall, rfl⟩
    · exact .inl hr
    · obtain rfl := Call.addQuote.inj hcall
      exact .inr ⟨quote, i, n, hi, rfl⟩

theorem effects_of_step {a : NodeAction} (h : s.step svc a = some s') : Effects svc.mc s s' := by
  cases a with
  | append block =>
      obtain rfl := Option.some.inj h
      exact ⟨⟨[block], rfl⟩, fun q hq => .inl (.inl hq), fun r hr => .inl hr, fun _ => .inl rfl⟩
  | submit i sci timestamp =>
      obtain ⟨-, rfl⟩ := enter_some h
      exact effects_setThread (.inr (.inl ⟨_, rfl, fun q => ClientService.made_of_offer⟩))
  | handleSciQuoteAdded i remoteQuote =>
      obtain ⟨-, rfl⟩ := enter_some h
      exact effects_setThread (.inr (.inl ⟨_, rfl, fun q => made_of_peerOffer⟩))
  | syncQuotesFromPeer i answers =>
      obtain ⟨-, rfl⟩ := enter_some h
      exact effects_setThread (.inr (.inr (.inl trivial)))
  | nextQuote i =>
      obtain ⟨remoteQuote, rest, -, rfl⟩ := nextQuote_some h
      exact effects_setThread (.inr (.inl ⟨_, rfl, fun q => made_of_peerOffer⟩))
  | advance i fault faults =>
      rcases advance_cases h with ⟨quote, n, hi, rfl⟩ | ⟨c', hnext, rfl⟩
      · exact effects_insert svc.mc hi
      · exact effects_setThread (.inr (.inr (.inr ⟨fault, hnext⟩)))
  | call faults c =>
      cases c with
      | addQuote quote => cases h
      | _ =>
          obtain rfl := Option.some.inj h
          exact effects_apply (fun q hq => by cases hq)
  | rehash scis =>
      obtain ⟨book, hb, rfl⟩ := Option.map_eq_some_iff.mp h
      obtain ⟨hperm, hrows⟩ := NodeBook.mem_inner_rehash hb
      refine ⟨⟨[], (List.append_nil _).symm⟩, fun q hq => .inl (.inl (hperm.mem_iff.mp hq)),
        fun r hr => .inl (hrows ▸ hr), fun _ => .inl rfl⟩
  | restart faults rows =>
      obtain ⟨book, hb, rfl⟩ := Option.map_eq_some_iff.mp h
      obtain ⟨hrows, hinner⟩ := NodeBook.reopen_some hb
      exact ⟨⟨[], (List.append_nil _).symm⟩, fun q hq => .inl (.inr (hinner q hq)),
        fun r hr => .inl (hrows ▸ hr), fun _ => .inr (.inr (.inl trivial))⟩

end Node

/-! ## Integrity -/

/-- The quote is what `Quote::new` makes of its SCI and its timestamp, and its SCI is
valid. -/
structure Quote.Derived (mc : McCore) (q : Quote) : Prop where
  valid : mc.validate q.sci = .ok ()
  id : q.id = QuoteId.ofSci mc q.sci
  fields : ∀ now, Quote.new mc now q.sci (some q.timestamp) = .ok q

theorem Quote.Made.derived {mc : McCore} {q : Quote} (h : q.Made mc) : q.Derived mc :=
  ⟨h.new_eq.1, h.eq_terms.1, h.new_eq.2⟩

namespace Node

variable {ser : Serial} {svc : ClientService} {s s' : Node ser}

/-- The invariant: the two stores and the calls under way hold made quotes only. -/
structure Authentic (mc : McCore) (s : Node ser) : Prop where
  inner : ∀ q ∈ s.book.inner.quotes, q.Made mc
  rows : ∀ r ∈ s.book.rows, ∃ q, q.Made mc ∧ r = Row.ofQuote ser q
  calls : ∀ i q, (s.threads i).call.quote? = some q → q.Made mc

theorem authentic_initial {mc : McCore} (ledger : Ledger) {book : NodeBook ser}
    (hb : book.Empty) : Authentic mc (.initial ledger book) := by
  obtain ⟨hinner, hrows⟩ := NodeBook.not_mem_of_empty hb
  exact ⟨fun q hq => absurd hq (hinner q), fun r hr => absurd hr (hrows r), fun i q h => by cases h⟩

theorem Authentic.stores {mc : McCore} (hser : ser.Lossless) (h : Authentic mc s) {q : Quote}
    (hq : s.book.Stores q) : q.Made mc := by
  rcases hq with hq | ⟨r, hr, hdec⟩
  · exact h.inner q hq
  · -- a row decodes to the quote it was written from
    obtain ⟨q', hmade, rfl⟩ := h.rows r hr
    rw [Row.toQuote_ofQuote hser] at hdec
    exact Except.ok.inj hdec ▸ hmade

theorem Authentic.step (hser : ser.Lossless) (h : Authentic svc.mc s) {a : NodeAction}
    (hs : s.step svc a = some s') : Authentic svc.mc s' := by
  obtain ⟨-, hinner, hrows, hcalls⟩ := effects_of_step hs
  refine ⟨?_, ?_, ?_⟩
  · intro q hq
    rcases hinner q hq with hq | ⟨i, n, hi⟩
    · exact h.stores hser hq
    · exact h.calls i q (by rw [hi]; rfl)
  · intro r hr
    rcases hrows r hr with hr | ⟨q, i, n, hi, rfl⟩
    · exact h.rows r hr
    · exact ⟨q, h.calls i q (by rw [hi]; rfl), rfl⟩
  · intro i q hq
    rcases hcalls i with heq | ⟨o, heq, hmade⟩ | hquiet | ⟨fault, hnext⟩
    · exact h.calls i q (heq ▸ hq)
    · rw [heq] at hq
      exact hmade q (AddCall.quote?_ofOffer hq)
    · rw [AddCall.quote?_of_quiet hquiet] at hq
      cases hq
    · exact h.calls i q (AddCall.quote?_next hnext hq)

/-- **Integrity against peers.**  At every point of every run, whatever clients and peers
send, the database does and however often the server is restarted, a stored quote is the
one `Quote::new` makes of its SCI, which is valid, and its timestamp. -/
theorem stored_quotes_derived (hser : ser.Lossless) {ledger : Ledger} {book : NodeBook ser}
    (hb : book.Empty) {as : List NodeAction}
    (hrun : Lts.Run (step svc) Lts.Any (.initial ledger book) as s) {q : Quote}
    (hq : s.book.Stores q) : q.Derived svc.mc := by
  have hauth : Authentic svc.mc s :=
    hrun.inv (Authentic svc.mc) (fun h _ hs => h.step hser hs) (authentic_initial ledger hb)
  exact (hauth.stores hser hq).derived

/-- A quote that lies about its identifier, its pair and its amounts. -/
def forgedQuote : Quote :=
  { sampleQuote 1 10 20 100 7 with
    id := ⟨.fill 9⟩, pair := ⟨5, 6⟩, baseRange := ⟨0, 1000⟩, maxCounterTokens := 1 }

/-- The row of what it claims to be. -/
noncomputable def honestRow : Row := .ofQuote sampleSerial (sampleQuote 1 10 20 100 7)

/-- The forged quote arrives by gossip, is added, and the server is restarted. -/
noncomputable def forgeryActions : List NodeAction :=
  [.handleSciQuoteAdded 0 forgedQuote, .advance 0 none .none, .advance 0 none .none,
    .advance 0 none .none, .restart .none [honestRow]]

theorem reopen_honestRow {table : Table sampleSerial} (htable : table.rows = [honestRow])
    (inner : InMemoryQuoteBook) :
    NodeBook.reopen .none [honestRow] (.sqlite ⟨table, inner⟩) =
      some (.sqlite ⟨table,
        (InMemoryQuoteBook.default.addQuote (sampleQuote 1 10 20 100 7)).2⟩) := by
  have hload : SqliteQuoteBook.loadRows sampleSerial 1 [honestRow] .default =
      .ok (InMemoryQuoteBook.default.addQuote (sampleQuote 1 10 20 100 7)).2 := by
    simp only [SqliteQuoteBook.loadRows, honestRow, Row.toQuote_ofQuote sampleSerial_lossless]
    rfl
  simp only [NodeBook.reopen, htable, List.Perm.refl, if_true, SqliteQuoteBook.new,
    SqliteQuoteBook.OpenFaults.none, List.length_singleton, hload]
  rfl

theorem forgery_derived : ∃ s : Node sampleSerial,
    Lts.Run (step ClientService.sampleService) Lts.Any (.initial [⟨[], []⟩] (.sqlite .empty))
      forgeryActions s ∧
    s.book.Stores (sampleQuote 1 10 20 100 7) ∧
    (sampleQuote 1 10 20 100 7).Derived sampleCore := by
  have hrun : ∃ s : Node sampleSerial,
      Lts.Run (step ClientService.sampleService) Lts.Any (.initial [⟨[], []⟩] (.sqlite .empty))
        forgeryActions s ∧ s.book.Stores (sampleQuote 1 10 20 100 7) := by
    exact ⟨_, .cons trivial rfl (.cons trivial rfl (.cons trivial rfl (.cons trivial rfl
      (.cons trivial (Option.map_eq_some_iff.mpr ⟨_, reopen_honestRow rfl _, rfl⟩) (.nil _))))),
      .inl List.mem_cons_self⟩
  obtain ⟨s, hrun, hstores⟩ := hrun
  have hempty : (NodeBook.sqlite .empty : NodeBook sampleSerial).Empty := rfl
  exact ⟨s, hrun, hstores, stored_quotes_derived sampleSerial_lossless hempty hrun hstores⟩

end Node
end Deqs
