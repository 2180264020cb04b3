/-
# `sync_quotes_from_peer` — fetching from a peer what we do not have

A node that meets a peer asks it for the identifiers of all its quotes, takes away those it has,
and requests the rest in chunks of at most a hundred.  Each chunk is a task of its own; ten of
them may be on their way at a time, and their results are collected in the order of the chunks:

    stream::iter(chunks).map(spawn).buffered(10).collect()

so a slow first chunk holds up the eleventh, not the second.  A task makes one RPC call, checks
that the answer has as many entries as it has asked for, and then goes over the entries: the
`i`th is the answer for the `i`th identifier, and a quote in it is added by `add_sci` from its
SCI and its timestamp.

| action | what it is |
| :-- | :-- |
| `begin` | the first call is answered, and the missing identifiers are worked out |
| `spawn` | a chunk is taken up: its task starts and sends its request |
| `respond` | the request of a task is answered |
| `next` | a task turns to its next entry, or records the end of `add_sci` |
| `advance` | one step of `SynchronizedQuoteBook::add_quote` |
| `collect` | the next result is collected |
| `finish` | all results are there |
| `append` | the ledger grows |

Whoever answers may say anything at all; `Honest R` says that the answers are those of
`handle_rpc_request` over the book `R`.  `requests`, the requests that were sent, is for the
statements only.
-/
import Deqs.Lib.Chunks
import Deqs.Lib.Lists
import Deqs.Server.Node

namespace Deqs.P2P

open Sync (Ledger Block AddCall)

/-! ## Messages -/

/-- `RpcQuoteBookError`: what is left of an error of the quote book on the wire. -/
inductive RpcQuoteBookError where
  | sci (e : String)
  | unsupportedSci (msg : String)
  | quoteAlreadyExists
  | quoteNotFound
  | quoteIsStale
  | other (msg : String)
deriving DecidableEq

def RpcQuoteBookError.ofError : Deqs.Error → RpcQuoteBookError
  | .sci e => .sci e
  | .unsupportedSci msg => .unsupportedSci msg
  | .quoteAlreadyExists _ => .quoteAlreadyExists
  | .quoteNotFound => .quoteNotFound
  | .quoteIsStale => .quoteIsStale
  | e => .other e.display

inductive RpcError where
  | quoteBook (e : RpcQuoteBookError)
  | unexpectedResponse
  | tooManyQuotesRequested
deriving DecidableEq

/-- The errors of the server that a sync can meet. -/
inductive Error where
  | p2pClient (e : String)
  | p2pRpc (e : RpcError)
  | quoteBook (e : Deqs.Error)
deriving DecidableEq

inductive Request where
  | getAllQuoteIds
  | getQuotesById (quoteIds : List QuoteId)
deriving DecidableEq

abbrev MaybeQuote := Except RpcError (Option Quote)

inductive Response where
  | allQuoteIds (quoteIds : List QuoteId)
  | maybeQuotes (quotes : List MaybeQuote)
  | error (e : RpcError)

def MAX_QUOTES_PER_REQUEST : Nat := 100

def PEER_SYNC_MAX_CONCURRENT_REQUESTS : Nat := 10

/-! ## The peer that is asked -/

/-- The outcome of a query, as it is sent; a panic sends nothing. -/
def answered {α : Type} : Outcome Deqs.Error α → Option (Except RpcError α)
  | .ok a => some (.ok a)
  | .err e => some (.error (.quoteBook (.ofError e)))
  | .panic _ => none

def handleRpcRequest (book : InMemoryQuoteBook) : Request → Option Response
  | .getAllQuoteIds =>
      (answered (book.getQuoteIds none)).map fun
        | .ok quoteIds => .allQuoteIds quoteIds
        | .error e => .error e
  | .getQuotesById quoteIds =>
      if quoteIds.length ≤ MAX_QUOTES_PER_REQUEST then
        (quoteIds.mapM fun quoteId => answered (book.getQuoteById quoteId)).map .maybeQuotes
      else some (.error .tooManyQuotesRequested)

/-! ## The client -/

/-- `RpcClient::get_all_quote_ids`; `response` is what the transport returned. -/
def getAllQuoteIds (response : Except String Response) : Except Error (List QuoteId) :=
  match response with
  | .ok (.allQuoteIds quoteIds) => .ok quoteIds
  | .ok (.error e) => .error (.p2pRpc e)
  | .ok (.maybeQuotes _) => .error (.p2pRpc .unexpectedResponse)
  | .error e => .error (.p2pClient e)

def getQuotesById (quoteIds : List QuoteId) (response : Except String Response) :
    Except Error (List MaybeQuote) :=
  match response with
  | .ok (.maybeQuotes quotes) =>
      if quoteIds.length = quotes.length then .ok quotes
      else .error (.p2pRpc .unexpectedResponse)
  | .ok (.error e) => .error (.p2pRpc e)
  | .ok (.allQuoteIds _) => .error (.p2pRpc .unexpectedResponse)
  | .error e => .error (.p2pClient e)

/-- `remote_quote_ids.difference(&local_quote_ids)` of two `BTreeSet`s. -/
def missingQuoteIds (remoteQuoteIds localQuoteIds : List QuoteId) : List QuoteId :=
  (OrdSet.ofList compare remoteQuoteIds).filter fun quoteId =>
    quoteId ∉ OrdSet.ofList compare localQuoteIds

/-! ## The task of a chunk -/

/-- What a task returns: its error, or a result for each entry. -/
abbrev ChunkResult := Except Error (List (Except Error Unit))

/-- Where the task of a chunk is.  In `adding`, `rest` are the entries it has still to look at
and `call` is its call of `add_sci`. -/
inductive ChunkTask where
  | waiting
  | adding (rest : List MaybeQuote) (call : AddCall) (results : List (Except Error Unit))
  | done (r : ChunkResult)
  | panicked (m : String)
  /-- The panic of `quote_ids[i]`. -/
  | outOfRange

namespace ChunkTask

def respond (quoteIds : List QuoteId) (response : Except String Response) :
    ChunkTask → Option ChunkTask
  | .waiting =>
      match getQuotesById quoteIds response with
      | .error e => some (.done (.error e))
      | .ok quotes => some (.adding quotes .idle [])
  | _ => none

/-- The closure is entered with the next entry, or it returns. -/
def next (mc : McCore) (quoteIds : List QuoteId) : ChunkTask → Option ChunkTask
  | .adding [] .idle results => some (.done (.ok results))
  | .adding (maybeQuote :: rest) .idle results =>
      match quoteIds[results.length]? with
      | none => some .outOfRange
      | some _ =>
          match maybeQuote with
          | .ok (some quote) => some (.adding rest (.ofOffer (peerOffer mc quote)) results)
          | .ok none => some (.adding rest .idle (results ++ [.error (.quoteBook .quoteNotFound)]))
          | .error e => some (.adding rest .idle (results ++ [.error (.p2pRpc e)]))
  | .adding rest (.done (.ok ())) results => some (.adding rest .idle (results ++ [.ok ()]))
  | .adding rest (.done (.err e)) results =>
      some (.adding rest .idle (results ++ [.error (.quoteBook e)]))
  | .adding _ (.done (.panic m)) _ => some (.panicked m)
  | _ => none

end ChunkTask

/-! ## The sync -/

/-- The counters that are logged. -/
structure Tally where
  numAddedQuotes : Nat
  numDuplicateQuotes : Nat
  numMissingQuotes : Nat
  numErrors : Nat
deriving DecidableEq

def Tally.add (tally : Tally) : Except Error Unit → Tally
  | .ok () => { tally with numAddedQuotes := tally.numAddedQuotes + 1 }
  | .error (.quoteBook (.quoteAlreadyExists _)) =>
      { tally with numDuplicateQuotes := tally.numDuplicateQuotes + 1 }
  | .error (.quoteBook .quoteNotFound) =>
      { tally with numMissingQuotes := tally.numMissingQuotes + 1 }
  | .error _ => { tally with numErrors := tally.numErrors + 1 }

/-- `filter_map(|r| r.ok()).flatten().flatten()`: a task that panicked or returned an error
counts for nothing. -/
def flatResults (chunkResults : List (Option ChunkResult)) : List (Except Error Unit) :=
  chunkResults.flatMap fun
    | some (.ok results) => results
    | _ => []

def tally (chunkResults : List (Option ChunkResult)) : Tally :=
  (flatResults chunkResults).foldl Tally.add ⟨0, 0, 0, 0⟩

/-- A call of `sync_quotes_from_peer`, with the node's book and ledger.  `chunks` is there once
the identifiers are; `tasks` are those that were spawned; `none` in `chunkResults` is a task
that panicked. -/
structure PeerSync (ser : Serial) where
  ledger : Ledger
  book : NodeBook ser
  chunks : Option (List (List QuoteId))
  tasks : List ChunkTask
  chunkResults : List (Option ChunkResult)
  returned : Option (Except Error Tally)
  requests : List Request

inductive Action where
  | append (block : Block)
  | begin (response : Except String Response)
  | spawn
  | respond (i : Nat) (response : Except String Response)
  | next (i : Nat)
  | advance (i : Nat) (fault : Option String) (faults : Faults)
  | collect
  | finish

namespace PeerSync

variable {ser : Serial}

def initial (ledger : Ledger) (book : NodeBook ser) : PeerSync ser :=
  ⟨ledger, book, none, [], [], none, []⟩

def chunk (s : PeerSync ser) (i : Nat) : Option (List QuoteId) := s.chunks.bind (·[i]?)

def setTask (s : PeerSync ser) (i : Nat) (task : ChunkTask) : PeerSync ser :=
  { s with tasks := s.tasks.set i task }

/-- Up to the chunks. -/
def begin (s : PeerSync ser) (response : Except String Response) : Option (PeerSync ser) :=
  let sent := { s with requests := [.getAllQuoteIds] }
  match s.chunks, s.returned, getAllQuoteIds response with
  | none, none, .error e => some { sent with returned := some (.error e) }
  | none, none, .ok remoteQuoteIds =>
      match s.book.inner.getQuoteIds none with
      | .ok localQuoteIds =>
          some { sent with chunks := some (Chunks.chunks MAX_QUOTES_PER_REQUEST
            (missingQuoteIds remoteQuoteIds localQuoteIds)) }
      | .err e => some { sent with returned := some (.error (.quoteBook e)) }
      | .panic _ => none
  | _, _, _ => none

/-- `buffered`: the next chunk is taken up while fewer than ten are without a collected
result. -/
def spawn (s : PeerSync ser) : Option (PeerSync ser) :=
  match s.chunk s.tasks.length with
  | none => none
  | some quoteIds =>
      if s.tasks.length < s.chunkResults.length + PEER_SYNC_MAX_CONCURRENT_REQUESTS then
        some { s with
          tasks := s.tasks ++ [.waiting]
          requests := s.requests ++ [.getQuotesById quoteIds] }
      else none

/-- A step of task `i` that does not touch the book. -/
def stepTask (s : PeerSync ser) (i : Nat)
    (f : List QuoteId → ChunkTask → Option ChunkTask) : Option (PeerSync ser) :=
  match s.chunk i, s.tasks[i]? with
  | some quoteIds, some task => (f quoteIds task).map (s.setTask i)
  | _, _ => none

def advance (s : PeerSync ser) (i : Nat) (fault : Option String) (faults : Faults) :
    Option (PeerSync ser) :=
  match s.tasks[i]? with
  | some (.adding rest (.checkingRing quote _ []) results) =>
      let (r, book) := s.book.addQuote faults quote
      some { s.setTask i (.adding rest (.done r) results) with book }
  | some (.adding rest call results) =>
      (call.next s.ledger fault).map fun call' => s.setTask i (.adding rest call' results)
  | _ => none

/-- The results come in the order of the chunks. -/
def collect (s : PeerSync ser) : Option (PeerSync ser) :=
  match s.tasks[s.chunkResults.length]? with
  | some (.done r) => some { s with chunkResults := s.chunkResults ++ [some r] }
  | some (.panicked _) => some { s with chunkResults := s.chunkResults ++ [none] }
  | some .outOfRange => some { s with chunkResults := s.chunkResults ++ [none] }
  | _ => none

def finish (s : PeerSync ser) : Option (PeerSync ser) :=
  match s.chunks, s.returned with
  | some chunks, none =>
      if s.chunkResults.length = chunks.length then
        some { s with returned := some (.ok (tally s.chunkResults)) }
      else none
  | _, _ => none

def step (mc : McCore) (s : PeerSync ser) : Action → Option (PeerSync ser)
  | .append block => some { s with ledger := s.ledger ++ [block] }
  | .begin response => s.begin response
  | .spawn => s.spawn
  | .respond i response => s.stepTask i fun quoteIds => ChunkTask.respond quoteIds response
  | .next i => s.stepTask i (ChunkTask.next mc)
  | .advance i fault faults => s.advance i fault faults
  | .collect => s.collect
  | .finish => s.finish

/-- The transport delivers, and the peer answers from `R`. -/
def Honest (R : InMemoryQuoteBook) (s : PeerSync ser) : Action → Prop
  | .begin response => ∃ r, handleRpcRequest R .getAllQuoteIds = some r ∧ response = .ok r
  | .respond i response => ∃ quoteIds r, s.chunk i = some quoteIds ∧
      handleRpcRequest R (.getQuotesById quoteIds) = some r ∧ response = .ok r
  | _ => True

end PeerSync

/-! ## What a step does -/

namespace ChunkTask

variable {mc : McCore} {quoteIds : List QuoteId} {task task' : ChunkTask}

theorem respond_cases {response : Except String Response}
    (h : respond quoteIds response task = some task') :
    task = .waiting ∧
      ((∃ e, getQuotesById quoteIds response = .error e ∧ task' = .done (.error e)) ∨
        ∃ quotes, getQuotesById quoteIds response = .ok quotes ∧
          task' = .adding quotes .idle []) := by
  cases task with
  | waiting =>
      simp only [respond] at h
      split at h
      · next e he => exact ⟨rfl, .inl ⟨e, he, (Option.some.inj h).symm⟩⟩
      · next quotes hq => exact ⟨rfl, .inr ⟨quotes, hq, (Option.some.inj h).symm⟩⟩
  | adding rest call results => cases h
  | done r => cases h
  | panicked m => cases h
  | outOfRange => cases h

/-- The result that is recorded when `add_sci` has returned. -/
def resultOf : Outcome Deqs.Error Unit → Option (Except Error Unit)
  | .ok () => some (.ok ())
  | .err e => some (.error (.quoteBook e))
  | .panic _ => none

def unansweredResult : MaybeQuote → Option (Except Error Unit)
  | .ok (some _) => none
  | .ok none => some (.error (.quoteBook .quoteNotFound))
  | .error e => some (.error (.p2pRpc e))

theorem next_cases (h : next mc quoteIds task = some task') :
    (∃ results, task = .adding [] .idle results ∧ task' = .done (.ok results)) ∨
    (∃ maybeQuote rest results, task = .adding (maybeQuote :: rest) .idle results ∧
      quoteIds[results.length]? = none ∧ task' = .outOfRange) ∨
    (∃ quote rest results, task = .adding (.ok (some quote) :: rest) .idle results ∧
      task' = .adding rest (.ofOffer (peerOffer mc quote)) results) ∨
    (∃ maybeQuote rest results r, task = .adding (maybeQuote :: rest) .idle results ∧
      unansweredResult maybeQuote = some r ∧ task' = .adding rest .idle (results ++ [r])) ∨
    (∃ rest outcome results r, task = .adding rest (.done outcome) results ∧
      resultOf outcome = some r ∧ task' = .adding rest .idle (results ++ [r])) ∨
    ∃ rest m results, task = .adding rest (.done (.panic m)) results ∧ task' = .panicked m := by
  unfold next at h
  split at h
  · next results => exact .inl ⟨results, rfl, (Option.some.inj h).symm⟩
  · next maybeQuote rest results =>
      split at h
      · next hnone =>
          exact .inr (.inl ⟨maybeQuote, rest, results, rfl, hnone, (Option.some.inj h).symm⟩)
      · split at h
        · next quote =>
            exact .inr (.inr (.inl ⟨quote, rest, results, rfl, (Option.some.inj h).symm⟩))
        · exact .inr (.inr (.inr (.inl ⟨_, rest, results, _, rfl, rfl, (Option.some.inj h).symm⟩)))
        · exact .inr (.inr (.inr (.inl ⟨_, rest, results, _, rfl, rfl, (Option.some.inj h).symm⟩)))
  · next rest results =>
      exact .inr (.inr (.inr (.inr (.inl ⟨rest, _, results, _, rfl, rfl,
        (Option.some.inj h).symm⟩))))
  · next rest e results =>
      exact .inr (.inr (.inr (.inr (.inl ⟨rest, _, results, _, rfl, rfl,
        (Option.some.inj h).symm⟩))))
  · next rest m results =>
      exact .inr (.inr (.inr (.inr (.inr ⟨rest, m, results, rfl, (Option.some.inj h).symm⟩))))
  · cases h

end ChunkTask

namespace PeerSync

variable {ser : Serial} {mc : McCore} {s s' : PeerSync ser}

theorem initial_cases {ledger : Ledger} {book : NodeBook ser} {a : Action}
    (h : (initial ledger book).step mc a = some s') :
    (∃ block, a = .append block ∧ s' = initial (ledger ++ [block]) book) ∨
      ∃ response, a = .begin response ∧ (initial ledger book).begin response = some s' := by
  cases a with
  | append block => exact .inl ⟨block, rfl, (Option.some.inj h).symm⟩
  | begin response => exact .inr ⟨response, rfl, h⟩
  | spawn => cases h
  | respond i response => cases h
  | next i => cases h
  | advance i fault faults => cases h
  | collect => cases h
  | finish => cases h

theorem begin_cases {response : Except String Response} (h : s.begin response = some s') :
    s.chunks = none ∧ s.returned = none ∧
      ((∃ e, s' = { s with requests := [.getAllQuoteIds], returned := some (.error e) } ∧
          ((getAllQuoteIds response = .error e) ∨
            ∃ e', s.book.inner.getQuoteIds none = .err e' ∧ e = .quoteBook e')) ∨
        ∃ remoteQuoteIds localQuoteIds, getAllQuoteIds response = .ok remoteQuoteIds ∧
          s.book.inner.getQuoteIds none = .ok localQuoteIds ∧
          s' = { s with
            requests := [.getAllQuoteIds]
            chunks := some (Chunks.chunks MAX_QUOTES_PER_REQUEST
              (missingQuoteIds remoteQuoteIds localQuoteIds)) }) := by
  simp only [begin] at h
  split at h
  · next e hc hr he =>
      exact ⟨hc, hr, .inl ⟨e, (Option.some.inj h).symm, .inl he⟩⟩
  · next remoteQuoteIds hc hr hremote =>
      refine ⟨hc, hr, ?_⟩
      split at h
      · next localQuoteIds hlocal =>
          exact .inr ⟨remoteQuoteIds, localQuoteIds, hremote, hlocal, (Option.some.inj h).symm⟩
      · next e he => exact .inl ⟨_, (Option.some.inj h).symm, .inr ⟨e, he, rfl⟩⟩
      · cases h
  · cases h

theorem spawn_cases (h : s.spawn = some s') :
    ∃ quoteIds, s.chunk s.tasks.length = some quoteIds ∧
      s.tasks.length < s.chunkResults.length + PEER_SYNC_MAX_CONCURRENT_REQUESTS ∧
      s' = { s with
        tasks := s.tasks ++ [.waiting]
        requests := s.requests ++ [.getQuotesById quoteIds] } := by
  unfold spawn at h
  split at h
  · cases h
  · next quoteIds hc =>
      split at h
      · next hlt => exact ⟨quoteIds, hc, hlt, (Option.some.inj h).symm⟩
      · cases h

theorem stepTask_cases {i : Nat} {f : List QuoteId → ChunkTask → Option ChunkTask}
    (h : s.stepTask i f = some s') :
    ∃ quoteIds task task', s.chunk i = some quoteIds ∧ s.tasks[i]? = some task ∧
      f quoteIds task = some task' ∧ s' = s.setTask i task' := by
  unfold stepTask at h
  split at h
  · next quoteIds task hc ht =>
      obtain ⟨task', hf, rfl⟩ := Option.map_eq_some_iff.mp h
      exact ⟨quoteIds, task, task', hc, ht, hf, rfl⟩
  · cases h

theorem advance_cases {i : Nat} {fault : Option String} {faults : Faults}
    (h : s.advance i fault faults = some s') :
    ∃ rest call results, s.tasks[i]? = some (.adding rest call results) ∧
      ((∃ quote c, call = .checkingRing quote c [] ∧
          s' = { s.setTask i (.adding rest (.done (s.book.addQuote faults quote).1) results) with
            book := (s.book.addQuote faults quote).2 }) ∨
        ∃ call', call.next s.ledger fault = some call' ∧
          s' = s.setTask i (.adding rest call' results)) := by
  unfold advance at h
  split at h
  · next rest quote c results ht =>
      exact ⟨rest, _, results, ht, .inl ⟨quote, c, rfl, (Option.some.inj h).symm⟩⟩
  · next rest call results _ ht =>
      obtain ⟨call', hc, rfl⟩ := Option.map_eq_some_iff.mp h
      exact ⟨rest, call, results, ht, .inr ⟨call', hc, rfl⟩⟩
  · cases h

theorem collect_cases (h : s.collect = some s') :
    (∃ r, s.tasks[s.chunkResults.length]? = some (.done r) ∧
      s' = { s with chunkResults := s.chunkResults ++ [some r] }) ∨
    ((s.tasks[s.chunkResults.length]? = some .outOfRange ∨
        ∃ m, s.tasks[s.chunkResults.length]? = some (.panicked m)) ∧
      s' = { s with chunkResults := s.chunkResults ++ [none] }) := by
  unfold collect at h
  split at h
  · next r ht => exact .inl ⟨r, ht, (Option.some.inj h).symm⟩
  · next m ht => exact .inr ⟨.inr ⟨m, ht⟩, (Option.some.inj h).symm⟩
  · next ht => exact .inr ⟨.inl ht, (Option.some.inj h).symm⟩
  · cases h

theorem finish_cases (h : s.finish = some s') :
    ∃ chunks, s.chunks = some chunks ∧ s.returned = none ∧
      s.chunkResults.length = chunks.length ∧
      s' = { s with returned := some (.ok (tally s.chunkResults)) } := by
  unfold finish at h
  split at h
  · next chunks hc hr =>
      split at h
      · next hlen => exact ⟨chunks, hc, hr, hlen, (Option.some.inj h).symm⟩
      · cases h
  · cases h

end PeerSync

/-! ## Whoever answers -/

def entriesOf : AddCall → Nat
  | .idle => 0
  | _ => 1

theorem entriesOf_next {ledger : Ledger} {fault : Option String} {c c' : AddCall}
    (h : c.next ledger fault = some c') : entriesOf c = 1 ∧ entriesOf c' = 1 := by
  constructor
  · cases c with
    | idle => cases h
    | _ => rfl
  · rcases AddCall.next_cases h with ⟨e, rfl⟩ | ⟨q, -, rfl, -⟩ | ⟨q, n, -, rfl, -⟩ |
      ⟨q, n, j, txOut, rest, -, rfl, -⟩
    all_goals rfl

theorem entriesOf_ofOffer (o : Outcome Deqs.Error Quote) : entriesOf (.ofOffer o) = 1 := by
  cases o with
  | ok quote => rfl
  | err e => rfl
  | panic m => rfl

/-- The entries of a task and its results are as many as the identifiers of its chunk, and so
it never reads an identifier behind the last. -/
def ChunkTask.InRange (quoteIds : List QuoteId) : ChunkTask → Prop
  | .adding rest call results => results.length + entriesOf call + rest.length = quoteIds.length
  | .outOfRange => False
  | _ => True

theorem ChunkTask.InRange.respond {quoteIds : List QuoteId} {response : Except String Response}
    {task task' : ChunkTask} (h : ChunkTask.respond quoteIds response task = some task') :
    task'.InRange quoteIds := by
  obtain ⟨-, ⟨e, -, rfl⟩ | ⟨quotes, hq, rfl⟩⟩ := respond_cases h
  · trivial
  · -- the client has compared the lengths
    have hlen : quoteIds.length = quotes.length := by
      unfold getQuotesById at hq
      split at hq
      · split at hq
        · next hlen => exact Except.ok.inj hq ▸ hlen
        · cases hq
      · cases hq
      · cases hq
      · cases hq
    simp [InRange, entriesOf, hlen]

theorem ChunkTask.InRange.next {mc : McCore} {quoteIds : List QuoteId} {task task' : ChunkTask}
    (h : task.InRange quoteIds) (hn : ChunkTask.next mc quoteIds task = some task') :
    task'.InRange quoteIds := by
  rcases next_cases hn with ⟨results, rfl, rfl⟩ | ⟨maybeQuote, rest, results, rfl, hnone, rfl⟩ |
    ⟨quote, rest, results, rfl, rfl⟩ | ⟨maybeQuote, rest, results, r, rfl, -, rfl⟩ |
    ⟨rest, outcome, results, r, rfl, -, rfl⟩ | ⟨rest, m, results, rfl, rfl⟩
  · trivial
  · -- there is an identifier for the entry
    simp only [InRange, entriesOf, List.length_cons] at h
    rw [List.getElem?_eq_none_iff] at hnone
    omega
  · have hone := entriesOf_ofOffer (peerOffer mc quote)
    simp only [InRange, entriesOf, List.length_cons] at h
    rw [InRange, hone]
    omega
  · simp only [InRange, entriesOf, List.length_cons, List.length_append, List.length_nil] at h ⊢
    omega
  · simp only [InRange, entriesOf, List.length_cons, List.length_append, List.length_nil] at h ⊢
    omega
  · trivial

namespace PeerSync

variable {ser : Serial} {mc : McCore} {s s' : PeerSync ser}

/-- Every task has its chunk, and stays within it. -/
def InRange (s : PeerSync ser) : Prop :=
  ∀ (i : Nat) task, s.tasks[i]? = some task →
    ∃ quoteIds, s.chunk i = some quoteIds ∧ task.InRange quoteIds

theorem inRange_step (h : s.InRange) {a : Action} (hs : s.step mc a = some s') : s'.InRange := by
  cases a with
  | append block =>
      obtain rfl := Option.some.inj hs
      exact h
  | begin response =>
      -- there are no tasks before there are chunks
      obtain ⟨hc, -, hcases⟩ := begin_cases hs
      have hnone : ∀ (i : Nat) task, s.tasks[i]? ≠ some task := by
        intro i task ht
        obtain ⟨quoteIds, hq, -⟩ := h i task ht
        rw [chunk, hc] at hq
        cases hq
      rcases hcases with ⟨e, rfl, -⟩ | ⟨remoteQuoteIds, localQuoteIds, -, -, rfl⟩
      · exact fun i task ht => absurd ht (hnone i task)
      · exact fun i task ht => absurd ht (hnone i task)
  | spawn =>
      obtain ⟨quoteIds, hc, -, rfl⟩ := spawn_cases hs
      exact Lists.forall_concat h ⟨quoteIds, hc, trivial⟩
  | respond i response =>
      obtain ⟨quoteIds, task, task', hc, -, hf, rfl⟩ := stepTask_cases hs
      exact Lists.forall_set h ⟨quoteIds, hc, .respond hf⟩
  | next i =>
      obtain ⟨quoteIds, task, task', hc, ht, hf, rfl⟩ := stepTask_cases hs
      obtain ⟨quoteIds', hc', hin⟩ := h i task ht
      obtain rfl := Option.some.inj (hc.symm.trans hc')
      exact Lists.forall_set h ⟨quoteIds, hc, hin.next hf⟩
  | advance i fault faults =>
      obtain ⟨rest, call, results, ht, hcases⟩ := advance_cases hs
      obtain ⟨quoteIds, hc, hin⟩ := h i _ ht
      rcases hcases with ⟨quote, c, rfl, rfl⟩ | ⟨call', hcall, rfl⟩
      · exact Lists.forall_set h ⟨quoteIds, hc, hin⟩
      · obtain ⟨hone, hone'⟩ := entriesOf_next hcall
        refine Lists.forall_set h ⟨quoteIds, hc, ?_⟩
        simp only [ChunkTask.InRange, hone, hone'] at hin ⊢
        exact hin
  | collect =>
      rcases collect_cases hs with ⟨r, -, rfl⟩ | ⟨-, rfl⟩
      · exact h
      · exact h
  | finish =>
      obtain ⟨chunks, -, -, -, rfl⟩ := finish_cases hs
      exact h

theorem done_step {i : Nat} {r : ChunkResult} (h : s.tasks[i]? = some (.done r)) {a : Action}
    (hs : s.step mc a = some s') : s'.tasks[i]? = some (.done r) := by
  -- another task may change
  have hset : ∀ {j : Nat} {task : ChunkTask}, j ≠ i →
      (s.setTask j task).tasks[i]? = some (.done r) := by
    intro j task hj
    rw [setTask, List.getElem?_set_ne hj]
    exact h
  cases a with
  | append block =>
      obtain rfl := Option.some.inj hs
      exact h
  | begin response =>
      rcases begin_cases hs with ⟨-, -, ⟨e, rfl, -⟩ | ⟨_, _, -, -, rfl⟩⟩
      · exact h
      · exact h
  | spawn =>
      obtain ⟨quoteIds, -, -, rfl⟩ := spawn_cases hs
      exact List.getElem?_append_left (List.getElem?_eq_some_iff.mp h).1 ▸ h
  | respond j response =>
      obtain ⟨quoteIds, task, task', -, ht, hf, rfl⟩ := stepTask_cases hs
      refine hset ?_
      rintro rfl
      obtain rfl := Option.some.inj (ht.symm.trans h)
      cases hf
  | next j =>
      obtain ⟨quoteIds, task, task', -, ht, hf, rfl⟩ := stepTask_cases hs
      refine hset ?_
      rintro rfl
      obtain rfl := Option.some.inj (ht.symm.trans h)
      cases hf
  | advance j fault faults =>
      obtain ⟨rest, call, results, ht, hcases⟩ := advance_cases hs
      have hj : j ≠ i := by
        rintro rfl
        cases ht.symm.trans h
      rcases hcases with ⟨quote, c, -, rfl⟩ | ⟨call', -, rfl⟩
      · exact hset hj
      · exact hset hj
  | collect =>
      rcases collect_cases hs with ⟨r, -, rfl⟩ | ⟨-, rfl⟩
      · exact h
      · exact h
  | finish =>
      obtain ⟨chunks, -, -, -, rfl⟩ := finish_cases hs
      exact h

/-- **An answer of the wrong length**: the task returns with an error, and nothing is added by
it then or later. -/
theorem respond_wrong_length {i : Nat} {quoteIds : List QuoteId} {quotes : List MaybeQuote}
    (hc : s.chunk i = some quoteIds) (hlen : quotes.length ≠ quoteIds.length)
    (hs : s.step mc (.respond i (.ok (.maybeQuotes quotes))) = some s') :
    s'.book = s.book ∧
      s'.tasks[i]? = some (.done (.error (.p2pRpc .unexpectedResponse))) := by
  obtain ⟨quoteIds', task, task', hc', ht, hf, rfl⟩ := stepTask_cases hs
  obtain rfl := Option.some.inj (hc.symm.trans hc')
  have hget : getQuotesById quoteIds (.ok (.maybeQuotes quotes)) =
      .error (.p2pRpc .unexpectedResponse) := by
    rw [getQuotesById, if_neg (Ne.symm hlen)]
  refine ⟨rfl, ?_⟩
  obtain ⟨-, ⟨e, he, rfl⟩ | ⟨qs, hq, -⟩⟩ := ChunkTask.respond_cases hf
  · rw [hget] at he
    rw [Except.error.inj he, setTask, List.getElem?_set_self (List.getElem?_eq_some_iff.mp ht).1]
  · rw [hget] at hq
    cases hq

end PeerSync

end Deqs.P2P
