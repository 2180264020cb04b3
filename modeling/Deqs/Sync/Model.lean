/-
# `SynchronizedQuoteBook` — callers, a ledger and a fetcher thread

The book is shared by any number of threads that call the `QuoteBook` trait and by one
background thread that follows the ledger.  Nothing is held across the steps of either:
`add_quote` reads the ledger several times before it inserts, and the fetcher reads a
block and then removes the quotes of its key images one key image at a time.  So the
system is a step function on the whole state, an action per atomic step:

| action | what it is |
| :-- | :-- |
| `append` | the ledger grows by a block |
| `call`, `advance` | a thread enters `add_quote`; one of its steps |
| `fetch` | one step of `DbFetcherThread` |
| `removeQuoteById`, … | the trait's other mutators, one lock each |
| `requestStop` | `SyncThread::stop` |
| `rehash` | the hash map of the inner book is walked in another order |

A ledger read can fail; the action carries the text of its error.  Four fields of the
state are for the statements only, and no step reads them: the quotes ever inserted, the
quotes the fetcher took out, those it gave to the callback, and those taken out through
the trait.
-/
import Mathlib.Data.List.Basic
import Mathlib.Logic.Function.Basic
import Deqs.Lib.Lts
import Deqs.Book.InMemory

namespace Deqs.Sync

/-! ## The ledger -/

structure Block where
  keyImages : List KeyImage
  outputs : List TxOut
deriving DecidableEq

abbrev Ledger := List Block

namespace Ledger

/-- `num_blocks()? - 1`.  On a ledger without blocks the subtraction wraps. -/
def currentBlockIndex (ledger : Ledger) : BlockIndex :=
  match ledger.length with
  | 0 => 2 ^ 64 - 1
  | n + 1 => n

def containsKeyImage (ledger : Ledger) (k : KeyImage) : Bool :=
  ledger.any (fun b => b.keyImages.contains k)

def getTxOutByIndex (ledger : Ledger) (i : UInt64) : Except String TxOut :=
  match (ledger.flatMap Block.outputs)[i.toNat]? with
  | some txOut => .ok txOut
  | none => .error "NotFound"

theorem containsKeyImage_eq_false {ledger : Ledger} {k : KeyImage} :
    containsKeyImage ledger k = false ↔ ∀ b ∈ ledger, k ∉ b.keyImages := by
  simp [containsKeyImage]

end Ledger

/-! ## `add_quote` -/

/-- Where a call of `add_quote` is.  `c` is its `current_block_index`. -/
inductive AddCall where
  | idle
  | start (quote : Quote)
  | readBlocks (quote : Quote) (c : BlockIndex)
  | checkingRing (quote : Quote) (c : BlockIndex) (rest : List (UInt64 × TxOut))
  | done (r : Outcome Error Unit)
deriving DecidableEq

namespace AddCall

def ledgerError (e : String) : AddCall := .done (.err (.implementationSpecific e))

/-- The first check: has the tombstone block been reached? -/
def checkTombstone (quote : Quote) (c : Nat) : AddCall :=
  match quote.sci.txIn.inputRules with
  | some rules =>
      if rules.maxTombstoneBlock ≠ 0 ∧ rules.maxTombstoneBlock.toNat ≤ c then
        .done (.err .quoteIsStale)
      else .readBlocks quote c
  | none => .readBlocks quote c

/-- `validate_quote_ring_members` up to its loop. -/
def enterRing (quote : Quote) (c : BlockIndex) : AddCall :=
  if quote.sci.txIn.ring.length ≠ quote.sci.txOutGlobalIndices.length then
    .done (.err (.invalidRing "Missing index for txo"))
  else .checkingRing quote c (quote.sci.txOutGlobalIndices.zip quote.sci.txIn.ring)

/-- The second check: has the key image been seen? -/
def checkKeyImage (ledger : Ledger) (quote : Quote) (c : BlockIndex) : AddCall :=
  if Ledger.containsKeyImage ledger quote.keyImage then .done (.err .quoteIsStale)
  else enterRing quote c

/-- One turn of the loop over the ring. -/
def checkMember (ledger : Ledger) (quote : Quote) (c : BlockIndex) (i : UInt64) (txOut : TxOut)
    (rest : List (UInt64 × TxOut)) : AddCall :=
  match Ledger.getTxOutByIndex ledger i with
  | .error e => ledgerError e
  | .ok realTxOut =>
      if realTxOut ≠ txOut then .done (.err (.invalidRing "Invalid ring member"))
      else .checkingRing quote c rest

/-- The next step of a call, as far as it only reads the ledger.  Each such step makes
one read, which may fail. -/
def next (ledger : Ledger) (fault : Option String) : AddCall → Option AddCall
  | .start quote =>
      some (match fault with
        | some e => ledgerError e
        | none => checkTombstone quote (Ledger.currentBlockIndex ledger))
  | .readBlocks quote c =>
      some (match fault with
        | some e => ledgerError e
        | none => checkKeyImage ledger quote c)
  | .checkingRing quote c ((i, txOut) :: rest) =>
      some (match fault with
        | some e => ledgerError e
        | none => checkMember ledger quote c i txOut rest)
  | _ => none

/-- The call has tested the key image of `q` and not yet tried to insert it. -/
def PastTest (q : Quote) : AddCall → Prop
  | .checkingRing quote _ _ => quote = q
  | _ => False

def Quiet : AddCall → Prop
  | .idle | .done _ => True
  | _ => False

/-- The tombstone block is unset or lies ahead of the block index that was read. -/
def Unreached (q : Quote) (c : Nat) : Prop :=
  q.tombstoneBlock = 0 ∨ c < q.tombstoneBlock.toNat

theorem unreached_of_checkTombstone {quote : Quote} {c : Nat} :
    checkTombstone quote c = .done (.err .quoteIsStale) ∨
      checkTombstone quote c = .readBlocks quote c ∧ Unreached quote c := by
  unfold checkTombstone Unreached Quote.tombstoneBlock
  cases quote.sci.txIn.inputRules with
  | none => exact .inr ⟨rfl, .inl rfl⟩
  | some rules =>
      simp only
      split
      · exact .inl rfl
      · next hn =>
          refine .inr ⟨rfl, ?_⟩
          rcases not_and_or.mp hn with h | h
          · exact .inl (not_not.mp h)
          · exact .inr (not_le.mp h)

/-- The steps of a call up to its insertion: it ends with an error, or it goes on, with
what the step has established. -/
theorem next_cases {ledger : Ledger} {fault : Option String} {c c' : AddCall}
    (h : c.next ledger fault = some c') :
    (∃ e, c' = .done (.err e)) ∨
    (∃ q, c = .start q ∧ c' = .readBlocks q (Ledger.currentBlockIndex ledger) ∧
      Unreached q (Ledger.currentBlockIndex ledger)) ∨
    (∃ q n, c = .readBlocks q n ∧
      c' = .checkingRing q n (q.sci.txOutGlobalIndices.zip q.sci.txIn.ring) ∧
      (∀ b ∈ ledger, q.keyImage ∉ b.keyImages) ∧
      q.sci.txIn.ring.length = q.sci.txOutGlobalIndices.length) ∨
    (∃ q n i txOut rest, c = .checkingRing q n ((i, txOut) :: rest) ∧
      c' = .checkingRing q n rest ∧ Ledger.getTxOutByIndex ledger i = .ok txOut) := by
  cases fault with
  | some e => cases c with
    | idle => cases h
    | done r => cases h
    | start q => exact .inl ⟨_, (Option.some.inj h).symm⟩
    | readBlocks q n => exact .inl ⟨_, (Option.some.inj h).symm⟩
    | checkingRing q n rest =>
        cases rest with
        | nil => cases h
        | cons e rest => exact .inl ⟨_, (Option.some.inj h).symm⟩
  | none => cases c with
    | idle => cases h
    | done r => cases h
    | start q =>
        obtain rfl := Option.some.inj h
        rcases unreached_of_checkTombstone with he | ⟨he, hu⟩
        · exact .inl ⟨_, he⟩
        · exact .inr (.inl ⟨q, rfl, he, hu⟩)
    | readBlocks q n =>
        obtain rfl := Option.some.inj h
        simp only [checkKeyImage, enterRing]
        split
        · exact .inl ⟨_, rfl⟩
        · next hk =>
            split
            · exact .inl ⟨_, rfl⟩
            · next hl =>
                exact .inr (.inr (.inl ⟨q, n, rfl, rfl,
                  Ledger.containsKeyImage_eq_false.mp (by simpa using hk), not_not.mp hl⟩))
    | checkingRing q n rest =>
        cases rest with
        | nil => cases h
        | cons e rest =>
            obtain rfl := Option.some.inj h
            simp only [checkMember]
            split
            · exact .inl ⟨_, rfl⟩
            · next txOut ht =>
                split
                · exact .inl ⟨_, rfl⟩
                · next heq =>
                    refine .inr (.inr (.inr ⟨q, n, e.1, e.2, rest, rfl, rfl, ?_⟩))
                    rw [ht, not_not.mp heq]

end AddCall

/-! ## The fetcher -/

/-- Where `DbFetcherThread::run` is.  `starting` is its `starting_block_index`, `last`
its `last_processed_block_index`. -/
inductive Fetcher where
  /-- At the top of the loop. -/
  | poll
  /-- In `load_block_data`, before the block is read. -/
  | load (starting : BlockIndex)
  /-- In the loop over the key images of the block. -/
  | removing (starting : BlockIndex) (keyImages : List KeyImage)
  /-- Before the callback for the quotes of one key image. -/
  | handing (starting : BlockIndex) (quotes : List Quote) (keyImages : List KeyImage)
  /-- Back in the inner `while`, before it looks at `stop_requested`. -/
  | loaded (starting : BlockIndex)
  /-- Before `remove_quotes_by_tombstone_block`. -/
  | expire (last : BlockIndex)
  /-- Before the callback for the expired quotes. -/
  | handExpired (last : BlockIndex) (quotes : List Quote)
  /-- Before the block index is published. -/
  | store (last : BlockIndex)
  | stopped
deriving DecidableEq

/-- After the inner `while`. -/
def Fetcher.leave (nextBlockIndex starting : Nat) : Fetcher :=
  if nextBlockIndex ≠ starting then .expire (nextBlockIndex - 1) else .poll

/-- The quotes the fetcher has taken out of the book and not yet given to the callback. -/
def Fetcher.inHand : Fetcher → List Quote
  | .handing _ quotes _ => quotes
  | .handExpired _ quotes => quotes
  | _ => []

def Fetcher.remaining : Fetcher → Option (List KeyImage)
  | .removing _ keyImages => some keyImages
  | .handing _ _ keyImages => some keyImages
  | _ => none

/-! ## The system -/

structure State where
  ledger : Ledger
  book : InMemoryQuoteBook
  calls : Nat → AddCall
  fetcher : Fetcher
  nextBlockIndex : Nat
  highestProcessedBlockIndex : Nat
  stopRequested : Bool
  inserted : List Quote
  fetched : List Quote
  handed : List Quote
  apiRemoved : List Quote

/-- `SynchronizedQuoteBook::new` over a ledger and an inner book that may hold quotes. -/
def State.initial (ledger : Ledger) (book : InMemoryQuoteBook) : State where
  ledger := ledger
  book := book
  calls := fun _ => .idle
  fetcher := .poll
  nextBlockIndex := 0
  highestProcessedBlockIndex := 0
  stopRequested := false
  inserted := book.quotes
  fetched := []
  handed := []
  apiRemoved := []

inductive Action where
  | append (block : Block)
  | call (i : Nat) (quote : Quote)
  | advance (i : Nat) (fault : Option String)
  | fetch (fault : Option String)
  | removeQuoteById (id : QuoteId)
  | removeQuotesByKeyImage (keyImage : KeyImage)
  | removeQuotesByTombstoneBlock (c : BlockIndex)
  | requestStop
  | rehash (scis : AssocMap Pair (List Quote))

namespace State

/-- The last step of `add_quote`. -/
def insert (s : State) (i : Nat) (quote : Quote) : State :=
  let (r, book) := s.book.addQuote quote
  { s with
    book
    calls := Function.update s.calls i (.done r)
    inserted := match r with
      | .ok _ => quote :: s.inserted
      | _ => s.inserted }

def advance (s : State) (i : Nat) (fault : Option String) : Option State :=
  match s.calls i with
  | .checkingRing quote _ [] => some (s.insert i quote)
  | c => (c.next s.ledger fault).map fun c' => { s with calls := Function.update s.calls i c' }

/-- A removal by the fetcher: on success go on with the quotes, on error try again. -/
def fetchRemoval (s : State) (go : List Quote → Fetcher) :
    Outcome Error (List Quote) × InMemoryQuoteBook → State
  | (.ok quotes, book) => { s with book, fetcher := go quotes, fetched := s.fetched ++ quotes }
  | (.err _, book) => { s with book }
  | (.panic _, book) => { s with book, fetcher := .stopped }

def fetch (mc : McCore) (s : State) (fault : Option String) : Option State :=
  match s.fetcher with
  | .poll =>
      some { s with fetcher := if s.stopRequested then .stopped else .load s.nextBlockIndex }
  | .load starting =>
      match fault with
      | some _ => some { s with fetcher := .loaded starting }
      | none =>
          match s.ledger[s.nextBlockIndex]? with
          | none => some { s with fetcher := .leave s.nextBlockIndex starting }
          | some block => some { s with fetcher := .removing starting block.keyImages }
  | .removing starting [] =>
      some { s with fetcher := .loaded starting, nextBlockIndex := s.nextBlockIndex + 1 }
  | .removing starting (k :: ks) =>
      some (s.fetchRemoval (.handing starting · ks) (s.book.removeQuotesByKeyImage k))
  | .handing starting quotes ks =>
      some { s with fetcher := .removing starting ks, handed := s.handed ++ quotes }
  | .loaded starting =>
      some { s with
        fetcher := if s.stopRequested then .leave s.nextBlockIndex starting else .load starting }
  | .expire last =>
      some (s.fetchRemoval (.handExpired last ·) (s.book.removeQuotesByTombstoneBlock mc last))
  | .handExpired last quotes =>
      some { s with fetcher := .store last, handed := s.handed ++ quotes }
  | .store last => some { s with fetcher := .poll, highestProcessedBlockIndex := last }
  | .stopped => none

def apiRemoval (s : State) : Outcome Error (List Quote) × InMemoryQuoteBook → State
  | (.ok quotes, book) => { s with book, apiRemoved := s.apiRemoved ++ quotes }
  | (_, book) => { s with book }

def step (mc : McCore) (s : State) : Action → Option State
  | .append block => some { s with ledger := s.ledger ++ [block] }
  | .call i quote =>
      match s.calls i with
      | .idle | .done _ => some { s with calls := Function.update s.calls i (.start quote) }
      | _ => none
  | .advance i fault => s.advance i fault
  | .fetch fault => s.fetch mc fault
  | .removeQuoteById id =>
      some (s.apiRemoval ((s.book.removeQuoteById id).map (.map ([·])) fun b => b))
  | .removeQuotesByKeyImage k => some (s.apiRemoval (s.book.removeQuotesByKeyImage k))
  | .removeQuotesByTombstoneBlock c =>
      some (s.apiRemoval (s.book.removeQuotesByTombstoneBlock mc c))
  | .requestStop => some { s with stopRequested := true }
  | .rehash scis =>
      if s.book.scis.entries.Perm scis.entries then
        some { s with book := ⟨scis, s.book.poisoned⟩ }
      else none

def getCurrentBlockIndex (s : State) : Nat := s.highestProcessedBlockIndex

/-! ## What the steps can do -/

theorem advance_cases {s s' : State} {i : Nat} {fault : Option String}
    (h : s.advance i fault = some s') :
    (∃ quote c, s.calls i = .checkingRing quote c [] ∧ s' = s.insert i quote) ∨
      ∃ c', (s.calls i).next s.ledger fault = some c' ∧
        s' = { s with calls := Function.update s.calls i c' } := by
  unfold advance at h
  split at h
  · next quote c hc => exact .inl ⟨quote, c, hc, (Option.some.inj h).symm⟩
  · obtain ⟨c', hc', rfl⟩ := Option.map_eq_some_iff.mp h
    exact .inr ⟨c', hc', rfl⟩

theorem call_cases {mc : McCore} {s s' : State} {i : Nat} {quote : Quote}
    (h : s.step mc (.call i quote) = some s') :
    (s.calls i).Quiet ∧ s' = { s with calls := Function.update s.calls i (.start quote) } := by
  simp only [step] at h
  split at h
  · next hi => exact ⟨by rw [hi]; trivial, (Option.some.inj h).symm⟩
  · next hi => exact ⟨by rw [hi]; trivial, (Option.some.inj h).symm⟩
  · cases h

theorem rehash_cases {mc : McCore} {s s' : State} {scis : AssocMap Pair (List Quote)}
    (h : s.step mc (.rehash scis) = some s') :
    s' = { s with book := ⟨scis, s.book.poisoned⟩ } ∧ s'.book.quotes.Perm s.book.quotes := by
  simp only [step] at h
  split at h
  · next hp =>
      obtain rfl := Option.some.inj h
      exact ⟨rfl, (AssocMap.Reorder.values hp).symm.flatten⟩
  · cases h

/-- The three ends of an insertion: the quote is added, or the book holds what it held. -/
theorem insert_cases (s : State) (i : Nat) (quote : Quote) :
    (∃ book, s.book.addQuote quote = (.ok (), book) ∧
      book.quotes.Perm (quote :: s.book.quotes) ∧
      s.insert i quote = { s with
        book
        calls := Function.update s.calls i (.done (.ok ()))
        inserted := quote :: s.inserted }) ∨
    ∃ r book, s.book.addQuote quote = (r, book) ∧ r ≠ .ok () ∧
      book.quotes.Perm s.book.quotes ∧
      s.insert i quote = { s with book, calls := Function.update s.calls i (.done r) } := by
  rcases h : s.book.addQuote quote with ⟨r, book⟩
  cases r with
  | ok u =>
      refine .inl ⟨book, rfl, (InMemoryQuoteBook.addQuote_ok h).2.2.2, ?_⟩
      simp only [insert, h]
  | err e =>
      obtain rfl := InMemoryQuoteBook.addQuote_err h
      refine .inr ⟨_, _, rfl, by simp, .refl _, ?_⟩
      simp only [insert, h]
  | panic m =>
      obtain ⟨-, -, -, hperm, -⟩ := InMemoryQuoteBook.addQuote_panic h
      refine .inr ⟨_, _, rfl, by simp, hperm, ?_⟩
      simp only [insert, h]

/-- The transitions of the fetcher over an in-memory book, which answers with the
quotes removed or, once its lock is poisoned, with an error. -/
inductive Fetches (mc : McCore) (s : State) : State → Prop
  | poll {f : Fetcher} : s.fetcher = .poll → f = .stopped ∨ f = .load s.nextBlockIndex →
      Fetches mc s { s with fetcher := f }
  | failed {starting : Nat} : s.fetcher = .load starting →
      Fetches mc s { s with fetcher := .loaded starting }
  | notFound {starting : Nat} : s.fetcher = .load starting →
      s.ledger[s.nextBlockIndex]? = none →
      Fetches mc s { s with fetcher := .leave s.nextBlockIndex starting }
  | found {starting : Nat} {block : Block} : s.fetcher = .load starting →
      s.ledger[s.nextBlockIndex]? = some block →
      Fetches mc s { s with fetcher := .removing starting block.keyImages }
  | finish {starting : Nat} : s.fetcher = .removing starting [] →
      Fetches mc s { s with
        fetcher := .loaded starting, nextBlockIndex := s.nextBlockIndex + 1 }
  | remove {starting : Nat} {k : KeyImage} {ks : List KeyImage} {removed : List Quote}
      {book : InMemoryQuoteBook} : s.fetcher = .removing starting (k :: ks) →
      s.book.removeQuotesByKeyImage k = (.ok removed, book) →
      Fetches mc s { s with
        book, fetcher := .handing starting removed ks, fetched := s.fetched ++ removed }
  | hand {starting : Nat} {quotes : List Quote} {ks : List KeyImage} :
      s.fetcher = .handing starting quotes ks →
      Fetches mc s { s with fetcher := .removing starting ks, handed := s.handed ++ quotes }
  | again {starting : Nat} {f : Fetcher} : s.fetcher = .loaded starting →
      f = .leave s.nextBlockIndex starting ∨ f = .load starting →
      Fetches mc s { s with fetcher := f }
  | expire {last : Nat} {removed : List Quote} {book : InMemoryQuoteBook} :
      s.fetcher = .expire last →
      s.book.removeQuotesByTombstoneBlock mc last = (.ok removed, book) →
      Fetches mc s { s with
        book, fetcher := .handExpired last removed, fetched := s.fetched ++ removed }
  | handExpired {last : Nat} {quotes : List Quote} : s.fetcher = .handExpired last quotes →
      Fetches mc s { s with fetcher := .store last, handed := s.handed ++ quotes }
  | store {last : Nat} : s.fetcher = .store last →
      Fetches mc s { s with fetcher := .poll, highestProcessedBlockIndex := last }
  | retry : s.book.poisoned = true → Fetches mc s s

theorem fetchRemoval_cases (s : State) (go : List Quote → Fetcher)
    {r : Outcome Error (List Quote) × InMemoryQuoteBook} {p : Quote → Bool}
    (hr : r = if s.book.poisoned then (.err .lockPoisoned, s.book)
      else (.ok (s.book.quotes.filter p), (s.book.drain p).2)) :
    (s.book.poisoned = true ∧ s.fetchRemoval go r = s) ∨
      ∃ removed book, r = (.ok removed, book) ∧ s.fetchRemoval go r =
        { s with book, fetcher := go removed, fetched := s.fetched ++ removed } := by
  subst hr
  cases hp : s.book.poisoned with
  | true => exact .inl ⟨rfl, rfl⟩
  | false => exact .inr ⟨_, _, rfl, rfl⟩

theorem fetches_of_fetch {mc : McCore} {s s' : State} {fault : Option String}
    (h : s.fetch mc fault = some s') : Fetches mc s s' := by
  unfold fetch at h
  split at h
  · next hf =>
      obtain rfl := Option.some.inj h
      exact .poll hf (by split <;> simp)
  · next starting hf =>
      cases fault with
      | some e =>
          obtain rfl := Option.some.inj h
          exact .failed hf
      | none =>
          simp only at h
          split at h
          · next hb =>
              obtain rfl := Option.some.inj h
              exact .notFound hf hb
          · next block hb =>
              obtain rfl := Option.some.inj h
              exact .found hf hb
  · next hf =>
      obtain rfl := Option.some.inj h
      exact .finish hf
  · next starting k ks hf =>
      obtain rfl := Option.some.inj h
      rcases s.fetchRemoval_cases (.handing starting · ks)
        (s.book.removeQuotesByKeyImage_eq k) with ⟨hp, heq⟩ | ⟨removed, book, hr, heq⟩
      · rw [heq]
        exact .retry hp
      · rw [heq]
        exact .remove hf hr
  · next hf =>
      obtain rfl := Option.some.inj h
      exact .hand hf
  · next hf =>
      obtain rfl := Option.some.inj h
      exact .again hf (by split <;> simp)
  · next last hf =>
      obtain rfl := Option.some.inj h
      rcases s.fetchRemoval_cases (.handExpired last ·)
        (s.book.removeQuotesByTombstoneBlock_eq mc last) with ⟨hp, heq⟩ | ⟨removed, book, hr, heq⟩
      · rw [heq]
        exact .retry hp
      · rw [heq]
        exact .expire hf hr
  · next hf =>
      obtain rfl := Option.some.inj h
      exact .handExpired hf
  · next hf =>
      obtain rfl := Option.some.inj h
      exact .store hf
  · cases h

theorem apiRemoval_eq (s : State) (r : Outcome Error (List Quote) × InMemoryQuoteBook) :
    s.apiRemoval r = { s with
      book := r.2
      apiRemoved := s.apiRemoved ++ (match r.1 with | .ok quotes => quotes | _ => []) } := by
  obtain ⟨r, book⟩ := r
  cases r <;> simp [apiRemoval]

/-- What belongs to the ledger and the fetcher is touched by no one else. -/
structure SameFetcher (s s' : State) : Prop where
  ledger : s'.ledger = s.ledger
  fetcher : s'.fetcher = s.fetcher
  nextBlockIndex : s'.nextBlockIndex = s.nextBlockIndex
  highestProcessedBlockIndex : s'.highestProcessedBlockIndex = s.highestProcessedBlockIndex
  fetched : s'.fetched = s.fetched
  handed : s'.handed = s.handed

theorem sameFetcher_apiRemoval (s : State)
    (r : Outcome Error (List Quote) × InMemoryQuoteBook) : SameFetcher s (s.apiRemoval r) := by
  rw [apiRemoval_eq]
  exact ⟨rfl, rfl, rfl, rfl, rfl, rfl⟩

/-- **Who takes a step**: the ledger, the fetcher, or someone else. -/
theorem step_cases {mc : McCore} {s s' : State} {a : Action} (h : s.step mc a = some s') :
    (∃ block, a = .append block ∧ s' = { s with ledger := s.ledger ++ [block] }) ∨
      (∃ fault, a = .fetch fault ∧ s.fetch mc fault = some s') ∨ SameFetcher s s' := by
  cases a with
  | append block => exact .inl ⟨block, rfl, (Option.some.inj h).symm⟩
  | fetch fault => exact .inr (.inl ⟨fault, rfl, h⟩)
  | call i quote =>
      obtain ⟨-, rfl⟩ := call_cases h
      exact .inr (.inr ⟨rfl, rfl, rfl, rfl, rfl, rfl⟩)
  | advance i fault =>
      rcases advance_cases h with ⟨quote, c, -, rfl⟩ | ⟨c', -, rfl⟩
      · exact .inr (.inr ⟨rfl, rfl, rfl, rfl, rfl, rfl⟩)
      · exact .inr (.inr ⟨rfl, rfl, rfl, rfl, rfl, rfl⟩)
  | removeQuoteById i =>
      obtain rfl := Option.some.inj h
      exact .inr (.inr (sameFetcher_apiRemoval s _))
  | removeQuotesByKeyImage k =>
      obtain rfl := Option.some.inj h
      exact .inr (.inr (sameFetcher_apiRemoval s _))
  | removeQuotesByTombstoneBlock c =>
      obtain rfl := Option.some.inj h
      exact .inr (.inr (sameFetcher_apiRemoval s _))
  | requestStop =>
      obtain rfl := Option.some.inj h
      exact .inr (.inr ⟨rfl, rfl, rfl, rfl, rfl, rfl⟩)
  | rehash scis =>
      obtain ⟨rfl, -⟩ := rehash_cases h
      exact .inr (.inr ⟨rfl, rfl, rfl, rfl, rfl, rfl⟩)

theorem Fetches.calls_eq {mc : McCore} {s s' : State} (h : Fetches mc s s') :
    s'.calls = s.calls := by
  cases h with
  | _ => rfl

theorem Fetches.ledger_eq {mc : McCore} {s s' : State} (h : Fetches mc s s') :
    s'.ledger = s.ledger := by
  cases h with
  | _ => rfl

theorem insert_calls (s : State) (i : Nat) (quote : Quote) :
    ∃ r, (s.insert i quote).calls = Function.update s.calls i (.done r) := ⟨_, rfl⟩

theorem calls_of_step {mc : McCore} {s s' : State} {a : Action} (h : s.step mc a = some s')
    (j : Nat) :
    s'.calls j = s.calls j ∨ (∃ quote, a = .call j quote ∧ s'.calls j = .start quote) ∨
      (∃ r, s'.calls j = .done r) ∨
      ∃ fault, (s.calls j).next s.ledger fault = some (s'.calls j) := by
  cases a with
  | append block => obtain rfl := Option.some.inj h; exact .inl rfl
  | requestStop => obtain rfl := Option.some.inj h; exact .inl rfl
  | fetch fault => exact .inl (congrFun (fetches_of_fetch h).calls_eq j)
  | removeQuoteById i => obtain rfl := Option.some.inj h; rw [apiRemoval_eq]; exact .inl rfl
  | removeQuotesByKeyImage k =>
      obtain rfl := Option.some.inj h; rw [apiRemoval_eq]; exact .inl rfl
  | removeQuotesByTombstoneBlock c =>
      obtain rfl := Option.some.inj h; rw [apiRemoval_eq]; exact .inl rfl
  | rehash scis => obtain ⟨rfl, -⟩ := rehash_cases h; exact .inl rfl
  | call i quote =>
      obtain ⟨-, rfl⟩ := call_cases h
      by_cases hj : j = i
      · subst hj
        exact .inr (.inl ⟨quote, rfl, Function.update_self ..⟩)
      · exact .inl (Function.update_of_ne hj ..)
  | advance i fault =>
      by_cases hj : j = i
      · subst hj
        rcases advance_cases h with ⟨quote, c, -, rfl⟩ | ⟨c', hc', rfl⟩
        · obtain ⟨r, hr⟩ := s.insert_calls j quote
          exact .inr (.inr (.inl ⟨r, by rw [hr, Function.update_self]⟩))
        · have hj : Function.update s.calls j c' j = c' := Function.update_self ..
          exact .inr (.inr (.inr ⟨fault, hc'.trans (congrArg some hj.symm)⟩))
      · rcases advance_cases h with ⟨quote, c, -, rfl⟩ | ⟨c', -, rfl⟩
        · obtain ⟨r, hr⟩ := s.insert_calls i quote
          rw [hr]
          exact .inl (Function.update_of_ne hj ..)
        · exact .inl (Function.update_of_ne hj ..)

/-- What a step can put into the book: the quote of a call that is done with the ring. -/
theorem mem_quotes_of_step {mc : McCore} {s s' : State} {a : Action} {q : Quote}
    (h : s.step mc a = some s') (hq : q ∈ s'.book.quotes) :
    q ∈ s.book.quotes ∨ ∃ i c, s.calls i = .checkingRing q c [] := by
  cases a with
  | append block => obtain rfl := Option.some.inj h; exact .inl hq
  | requestStop => obtain rfl := Option.some.inj h; exact .inl hq
  | call i quote => obtain ⟨-, rfl⟩ := call_cases h; exact .inl hq
  | advance i fault =>
      rcases advance_cases h with ⟨quote, c, hi, rfl⟩ | ⟨c', -, rfl⟩
      · rcases s.insert_cases i quote with ⟨book, -, hperm, heq⟩ | ⟨r, book, -, -, hperm, heq⟩
        · rw [heq] at hq
          rcases List.mem_cons.mp (hperm.mem_iff.mp hq) with rfl | hq
          · exact .inr ⟨i, c, hi⟩
          · exact .inl hq
        · rw [heq] at hq
          exact .inl (hperm.mem_iff.mp hq)
      · exact .inl hq
  | fetch fault =>
      cases fetches_of_fetch h with
      | remove _ hr => exact .inl ((hr ▸ s.book.removal_keyImage _).subset hq)
      | expire _ hr => exact .inl ((hr ▸ s.book.removal_tombstone mc _).subset hq)
      | _ => exact .inl hq
  | removeQuoteById i =>
      obtain rfl := Option.some.inj h
      rw [apiRemoval_eq] at hq
      exact .inl (s.book.removeQuoteById_subset i hq)
  | removeQuotesByKeyImage k =>
      obtain rfl := Option.some.inj h
      rw [apiRemoval_eq] at hq
      exact .inl ((s.book.removal_keyImage k).subset hq)
  | removeQuotesByTombstoneBlock c =>
      obtain rfl := Option.some.inj h
      rw [apiRemoval_eq] at hq
      exact .inl ((s.book.removal_tombstone mc c).subset hq)
  | rehash scis =>
      obtain ⟨-, hperm⟩ := rehash_cases h
      exact .inl (hperm.mem_iff.mp hq)

/-! ## The two removals of the fetcher, while the lock is sound -/

theorem fetch_removing {mc : McCore} {s s' : State} {fault : Option String} {starting : Nat}
    {k : KeyImage} {ks : List KeyImage} (h : s.fetch mc fault = some s')
    (hf : s.fetcher = .removing starting (k :: ks)) (hp : s.book.poisoned = false) :
    s' = { s with
      book := (s.book.drain (fun q => q.keyImage = k)).2
      fetcher := .handing starting (s.book.quotes.filter (fun q => q.keyImage = k)) ks
      fetched := s.fetched ++ s.book.quotes.filter (fun q => q.keyImage = k) } := by
  simp only [fetch, hf, InMemoryQuoteBook.removeQuotesByKeyImage_eq, hp, Bool.false_eq_true,
    if_false] at h
  exact (Option.some.inj h).symm

theorem fetch_expire {mc : McCore} {s s' : State} {fault : Option String} {last : Nat}
    (h : s.fetch mc fault = some s') (hf : s.fetcher = .expire last)
    (hp : s.book.poisoned = false) :
    s' = { s with
      book := (s.book.drain (InMemoryQuoteBook.expired mc last)).2
      fetcher := .handExpired last (s.book.quotes.filter (InMemoryQuoteBook.expired mc last))
      fetched := s.fetched ++ s.book.quotes.filter (InMemoryQuoteBook.expired mc last) } := by
  simp only [fetch, hf, InMemoryQuoteBook.removeQuotesByTombstoneBlock_eq, hp, Bool.false_eq_true,
    if_false] at h
  exact (Option.some.inj h).symm

end State
end Deqs.Sync
