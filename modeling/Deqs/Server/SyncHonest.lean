/-
# A sync with an honest peer

The peer is honest and answers from a book `R` that does not change; nobody else writes to our
book; the transport delivers.  This file follows such a sync through its steps.

* **Our book only grows** (`NodeBook.Grows`).  Adding a quote to it ends with the quote in the
  book, with something in its way, or with a failure of the database (`NodeBook.Added`).
* **What is requested is what is missing** (`plan`): the identifiers of `R` that our book does
  not have, each in one chunk.
* **A task follows its chunk** (`Follows`).  Of a task in the middle it says

      quoteIds = processed ++ [q.id] ++ todo

  with a settled result for each of `processed`, a call about `q`, and the peer's answers for
  `todo` still to come.

A result is settled (`Settled`) when the quote is `Covered`, that is when our book holds its
identifier or a quote of its pair with its key image, or when `add_sci` has `Rejected` it.  It
stays so as the book grows, and that is why what the other tasks do in between does not disturb
a task: of two that race for one key image the second finds the first in its way.

`Rejected` speaks of the steps `E` of the run: one of them was the end of `add_quote` for the
quote, with an error.  There are two reasons for it, a check against the ledger and a database
that failed.  Validation is none: what the peer holds was made by `Quote::new`, and validates
here as it did there.
-/
import Mathlib.Data.List.Forall2
import Deqs.Server.PeerSync

namespace Deqs

open Sync (Ledger AddCall)

/-! ## A book that is only added to -/

namespace NodeBook

variable {ser : Serial}

/-- The book below is keyed, and its lock is sound. -/
structure Writable (S : Set Quote) (book : NodeBook ser) : Prop where
  keyed : book.inner.Keyed S
  unpoisoned : book.inner.poisoned = false

/-- Nothing has left the book, and a row that is new belongs to a quote in memory. -/
structure Grows (book book' : NodeBook ser) : Prop where
  quotes : ∀ x ∈ book.inner.quotes, x ∈ book'.inner.quotes
  rows : ∀ r ∈ book.rows, r ∈ book'.rows
  written : ∀ r ∈ book'.rows, r ∈ book.rows ∨ ∃ x ∈ book'.inner.quotes, r.id = x.id.data.bytes

namespace Grows

theorem refl (book : NodeBook ser) : book.Grows book :=
  ⟨fun _ h => h, fun _ h => h, fun _ h => .inl h⟩

theorem trans {a b c : NodeBook ser} (h : a.Grows b) (h' : b.Grows c) : a.Grows c := by
  refine ⟨fun x hx => h'.quotes x (h.quotes x hx), fun r hr => h'.rows r (h.rows r hr), ?_⟩
  intro r hr
  rcases h'.written r hr with hr | hnew
  · rcases h.written r hr with hr | ⟨x, hx, hid⟩
    · exact .inl hr
    · exact .inr ⟨x, h'.quotes x hx, hid⟩
  · exact .inr hnew

end Grows

def HoldsId (book : NodeBook ser) (quoteId : QuoteId) : Prop :=
  (∃ x ∈ book.inner.quotes, x.id = quoteId) ∨ ∃ r ∈ book.rows, r.id = quoteId.data.bytes

def RowsInMemory (book : NodeBook ser) : Prop :=
  ∀ r ∈ book.rows, ∃ x ∈ book.inner.quotes, r.id = x.id.data.bytes

/-- Our book holds the identifier of the quote, or a quote of its pair with its key image. -/
def Covered (book : NodeBook ser) (q : Quote) : Prop :=
  book.HoldsId q.id ∨ ∃ x ∈ book.inner.quotes, x.pair = q.pair ∧ x.keyImage = q.keyImage

theorem Covered.mono {book book' : NodeBook ser} {q : Quote} (h : book.Covered q)
    (hg : book.Grows book') : book'.Covered q := by
  rcases h with (⟨x, hx, hid⟩ | ⟨r, hr, hid⟩) | ⟨x, hx, hkey⟩
  · exact .inl (.inl ⟨x, hg.quotes x hx, hid⟩)
  · exact .inl (.inr ⟨r, hg.rows r hr, hid⟩)
  · exact .inr ⟨x, hg.quotes x hx, hkey⟩

theorem RowsInMemory.mono {book book' : NodeBook ser} (h : book.RowsInMemory)
    (hg : book.Grows book') : book'.RowsInMemory := by
  intro r hr
  rcases hg.written r hr with hr | hnew
  · obtain ⟨x, hx, hid⟩ := h r hr
    exact ⟨x, hg.quotes x hx, hid⟩
  · exact hnew

/-- What adding `q` leaves behind: `q` is in the book, or something stood in its way, or the
database has failed. -/
structure Added (S : Set Quote) (faults : Faults) (q : Quote) (book : NodeBook ser)
    (result : Outcome Error Unit × NodeBook ser) : Prop where
  writable : result.2.Writable S
  grows : book.Grows result.2
  outcome : (result.1 = .ok () ∧ result.2.Covered q) ∨
    ∃ e, result.1 = .err e ∧ (book.Covered q ∨
      faults ≠ .none ∧ ∃ b, book = .sqlite b ∧ (b.addQuote faults q).1 = .err e)

end NodeBook

theorem SqliteQuoteBook.addQuote_cases {ser : Serial} (faults : Faults) (q : Quote)
    (book : SqliteQuoteBook ser) :
    (∃ e, (faults ≠ .none ∨ book.table.insert q = none) ∧
      book.addQuote faults q = (.err e, book)) ∨
    ∃ table, book.table.insert q = some table ∧
      (∀ e inner, book.quoteBook.addQuote q = (.err e, inner) →
        book.addQuote faults q = (.err e, ⟨book.table, inner⟩)) ∧
      ∀ inner, book.quoteBook.addQuote q = (.ok (), inner) →
        book.addQuote faults q = (.ok (), ⟨table, inner⟩) ∨
          ∃ e, faults ≠ .none ∧ book.addQuote faults q = (.err e, ⟨book.table, inner⟩) := by
  unfold SqliteQuoteBook.addQuote transact immediateTransaction addQuoteBody
  cases hconn : faults.conn with
  | some e => exact .inl ⟨_, .inl (by rintro rfl; cases hconn), rfl⟩
  | none =>
  cases hbegin : faults.begin with
  | some e => exact .inl ⟨_, .inl (by rintro rfl; cases hbegin), rfl⟩
  | none =>
  cases hstmt : faults.statement with
  | some e => exact .inl ⟨_, .inl (by rintro rfl; cases hstmt), rfl⟩
  | none =>
  cases hi : book.table.insert q with
  | none => exact .inl ⟨_, .inr rfl, rfl⟩
  | some table =>
      refine .inr ⟨table, rfl, fun e inner heq => ?_, fun inner heq => ?_⟩
      · simp only [heq]
      · cases hcommit : faults.commit with
        | none => exact .inl (by simp only [heq])
        | some e =>
            refine .inr ⟨dieselError e, ?_, by simp only [heq]⟩
            rintro rfl
            cases hcommit

section Add

variable {mc : McCore} {ser : Serial} {S : Set Quote} {faults : Faults} {q : Quote}

theorem NodeBook.Writable.addQuote_inMemory (hS : Genuine mc S) {book : InMemoryQuoteBook}
    (h : (NodeBook.inMemory book : NodeBook ser).Writable S) (hq : q ∈ S) :
    NodeBook.Added S faults q (.inMemory book : NodeBook ser)
      (NodeBook.addQuote faults q (.inMemory book)) := by
  have hbook : book.Keyed S := h.keyed
  rcases hbook.addQuote_key hS h.unpoisoned hq with
    ⟨x, hx, hkey, heq⟩ | ⟨-, book', heq, hp, hperm, hkeyed⟩
  · rw [NodeBook.addQuote, heq]
    exact ⟨h, .refl _, .inr ⟨_, rfl, .inl (.inr ⟨x, hx, Quote.key_eq_iff.mp hkey⟩)⟩⟩
  · rw [NodeBook.addQuote, heq]
    refine ⟨⟨hkeyed, hp⟩, ⟨?_, fun r hr => hr, fun r hr => .inl hr⟩, .inl ⟨rfl, ?_⟩⟩
    · exact fun y hy => hperm.mem_iff.mpr (List.mem_cons_of_mem _ hy)
    · exact .inl (.inl ⟨q, hperm.mem_iff.mpr List.mem_cons_self, rfl⟩)

theorem NodeBook.Writable.addQuote_sqlite (hS : Genuine mc S) {book : SqliteQuoteBook ser}
    (h : (NodeBook.sqlite book).Writable S) (hq : q ∈ S) :
    NodeBook.Added S faults q (.sqlite book) (NodeBook.addQuote faults q (.sqlite book)) := by
  have hbook : book.quoteBook.Keyed S := h.keyed
  rcases book.addQuote_cases faults q with ⟨e, hwhy, heq⟩ | ⟨table, hi, herr, hok⟩
  · rw [NodeBook.addQuote, heq]
    refine ⟨h, .refl _, .inr ⟨e, rfl, ?_⟩⟩
    rcases hwhy with hne | hnone
    · exact .inr ⟨hne, book, rfl, congrArg Prod.fst heq⟩
    · -- a row has the identifier
      have hmem : (Row.ofQuote ser q).id ∈ book.table.rows.map Row.id := by
        by_contra hnot
        simp [Table.insert, hnot] at hnone
      obtain ⟨r, hr, hid⟩ := List.mem_map.mp hmem
      exact .inl (.inl (.inr ⟨r, hr, hid⟩))
  · rcases hbook.addQuote_key hS h.unpoisoned hq with
      ⟨x, hx, hkey, hinner⟩ | ⟨-, inner, hinner, hp, hperm, hkeyed⟩
    · rw [NodeBook.addQuote, herr _ _ hinner]
      exact ⟨h, .refl _, .inr ⟨_, rfl, .inl (.inr ⟨x, hx, Quote.key_eq_iff.mp hkey⟩)⟩⟩
    · have hkept : ∀ y ∈ book.quoteBook.quotes, y ∈ inner.quotes :=
        fun y hy => hperm.mem_iff.mpr (List.mem_cons_of_mem _ hy)
      have hmem : q ∈ inner.quotes := hperm.mem_iff.mpr List.mem_cons_self
      rcases hok inner hinner with heq | ⟨e, hne, heq⟩
      · rw [NodeBook.addQuote, heq]
        have hrows := Table.rows_insert hi
        refine ⟨⟨hkeyed, hp⟩, ⟨hkept, ?_, ?_⟩, .inl ⟨rfl, .inl (.inl ⟨q, hmem, rfl⟩)⟩⟩
        · intro r hr
          show r ∈ table.rows
          rw [hrows]
          exact List.mem_cons_of_mem _ hr
        · intro r hr
          have hr' : r ∈ table.rows := hr
          rw [hrows] at hr'
          rcases List.mem_cons.mp hr' with rfl | hr'
          · exact .inr ⟨q, hmem, rfl⟩
          · exact .inl hr'
      · -- the rows go back, the inner book does not
        rw [NodeBook.addQuote, heq]
        exact ⟨⟨hkeyed, hp⟩, ⟨hkept, fun r hr => hr, fun r hr => .inl hr⟩,
          .inr ⟨e, rfl, .inr ⟨hne, book, rfl, congrArg Prod.fst heq⟩⟩⟩

/-- **Adding to a writable book.** -/
theorem NodeBook.Writable.addQuote (hS : Genuine mc S) {book : NodeBook ser} (h : book.Writable S)
    (faults : Faults) (hq : q ∈ S) : NodeBook.Added S faults q book (book.addQuote faults q) := by
  cases book with
  | inMemory book => exact h.addQuote_inMemory hS hq
  | sqlite book => exact h.addQuote_sqlite hS hq

end Add

namespace P2P

/-! ## Honest answers -/

section Answers

variable {R : InMemoryQuoteBook}

def answer (R : InMemoryQuoteBook) (quoteId : QuoteId) : MaybeQuote :=
  .ok (R.quotes.find? fun entry => entry.id = quoteId)

theorem getQuoteIds_all (hp : R.poisoned = false) :
    R.getQuoteIds none = .ok (R.quotes.map Quote.id) := by
  simp only [InMemoryQuoteBook.getQuoteIds, hp, Bool.false_eq_true, if_false,
    InMemoryQuoteBook.quotes, List.map_flatten, List.flatMap_def]

theorem handle_getAllQuoteIds (hp : R.poisoned = false) :
    handleRpcRequest R .getAllQuoteIds = some (.allQuoteIds (R.quotes.map Quote.id)) := by
  rw [handleRpcRequest, getQuoteIds_all hp]
  rfl

theorem handle_getQuotesById (hp : R.poisoned = false) {quoteIds : List QuoteId}
    (hlen : quoteIds.length ≤ MAX_QUOTES_PER_REQUEST) :
    handleRpcRequest R (.getQuotesById quoteIds) =
      some (.maybeQuotes (quoteIds.map (answer R))) := by
  have hall : (quoteIds.mapM fun quoteId => answered (R.getQuoteById quoteId)) =
      some (quoteIds.map (answer R)) := by
    rw [ParMap.mapM_eq_some_iff, List.map_map]
    refine List.map_congr_left fun quoteId _ => ?_
    simp only [InMemoryQuoteBook.getQuoteById, hp, Bool.false_eq_true, if_false,
      ← List.find?_flatten]
    rfl
  rw [handleRpcRequest, if_pos hlen, hall]
  rfl

theorem getQuotesById_answers (quoteIds : List QuoteId) :
    getQuotesById quoteIds (.ok (.maybeQuotes (quoteIds.map (answer R)))) =
      .ok (quoteIds.map (answer R)) := by
  rw [getQuotesById, if_pos (List.length_map _).symm]

theorem answer_of_mem {quoteId : QuoteId} (h : ∃ q ∈ R.quotes, q.id = quoteId) :
    ∃ q ∈ R.quotes, q.id = quoteId ∧ answer R quoteId = .ok (some q) := by
  have hsome : (R.quotes.find? fun entry => entry.id = quoteId).isSome := by
    obtain ⟨q, hq, hid⟩ := h
    exact List.find?_isSome.mpr ⟨q, hq, decide_eq_true hid⟩
  obtain ⟨q, hq⟩ := Option.isSome_iff_exists.mp hsome
  exact ⟨q, List.mem_of_find?_eq_some hq, by simpa using List.find?_some hq,
    congrArg Except.ok hq⟩

/-! ## What is requested -/

variable {ser : Serial} {b₀ : NodeBook ser}

/-- The identifiers of `R` that are not in our book, in the order in which they are requested. -/
def missing (R : InMemoryQuoteBook) (b₀ : NodeBook ser) : List QuoteId :=
  missingQuoteIds (R.quotes.map Quote.id) (b₀.inner.quotes.map Quote.id)

def plan (R : InMemoryQuoteBook) (b₀ : NodeBook ser) : List (List QuoteId) :=
  Chunks.chunks MAX_QUOTES_PER_REQUEST (missing R b₀)

theorem mem_missing {quoteId : QuoteId} : quoteId ∈ missing R b₀ ↔
    (∃ q ∈ R.quotes, q.id = quoteId) ∧ ∀ x ∈ b₀.inner.quotes, x.id ≠ quoteId := by
  simp only [missing, missingQuoteIds, List.mem_filter, decide_eq_true_eq,
    OrdSet.mem_ofList OrdSet.lawfulOn_compare, List.mem_map, not_exists, not_and]

theorem nodup_missing : (missing R b₀).Nodup :=
  (OrdSet.nodup_ofList OrdSet.lawfulOn_compare _).filter _

theorem flatten_plan : (plan R b₀).flatten = missing R b₀ :=
  Chunks.flatten_chunks (by decide) _

theorem length_le_of_mem_plan {quoteIds : List QuoteId} (h : quoteIds ∈ plan R b₀) :
    quoteIds.length ≤ MAX_QUOTES_PER_REQUEST :=
  Chunks.length_le_of_mem_chunks h

theorem mem_R_of_mem_plan {quoteIds : List QuoteId} (h : quoteIds ∈ plan R b₀) :
    ∀ quoteId ∈ quoteIds, ∃ q ∈ R.quotes, q.id = quoteId := by
  intro quoteId hid
  have hmem : quoteId ∈ missing R b₀ := flatten_plan ▸ List.mem_flatten.mpr ⟨quoteIds, h, hid⟩
  exact (mem_missing.mp hmem).1

end Answers

/-! ## What a task has done -/

section Tasks

variable {mc : McCore} {ser : Serial} {S : Set Quote} {R : InMemoryQuoteBook}
  {E : PeerSync ser → Action → Prop} {book book' : NodeBook ser} {quoteIds : List QuoteId}
  {task task' : ChunkTask}

/-- One of the steps `E` was the last of `add_quote` for the quote, and returned the error. -/
inductive Rejected (E : PeerSync ser → Action → Prop) (q : Quote) (e : Deqs.Error) : Prop
  /-- A read of the ledger failed, or showed that the quote is stale or its ring wrong. -/
  | ledgerCheck {t : PeerSync ser} {i : Nat} {fault : Option String} {faults : Faults}
      {rest : List MaybeQuote} {call : AddCall} {results : List (Except Error Unit)}
      (occurs : E t (.advance i fault faults))
      (task : t.tasks[i]? = some (.adding rest call results))
      (quote : call.quote? = some q)
      (next : call.next t.ledger fault = some (.done (.err e)))
  /-- The database failed. -/
  | database {t : PeerSync ser} {i : Nat} {fault : Option String} {faults : Faults}
      {rest : List MaybeQuote} {c : BlockIndex} {results : List (Except Error Unit)}
      {b : SqliteQuoteBook ser}
      (occurs : E t (.advance i fault faults))
      (task : t.tasks[i]? = some (.adding rest (.checkingRing q c []) results))
      (book : t.book = .sqlite b)
      (fails : faults ≠ .none)
      (result : (b.addQuote faults q).1 = .err e)

/-- The result `r` was returned for the quote, and for one of the two reasons. -/
def Decided (E : PeerSync ser → Action → Prop) (book : NodeBook ser) (q : Quote)
    (r : Except Error Unit) : Prop :=
  book.Covered q ∨ ∃ e, r = .error (.quoteBook e) ∧ Rejected E q e

/-- The result `r` was returned for a quote of `R` with the identifier. -/
def Settled (E : PeerSync ser → Action → Prop) (R : InMemoryQuoteBook) (book : NodeBook ser)
    (quoteId : QuoteId) (r : Except Error Unit) : Prop :=
  ∃ q ∈ R.quotes, q.id = quoteId ∧ Decided E book q r

inductive Follows (E : PeerSync ser → Action → Prop) (R : InMemoryQuoteBook)
    (book : NodeBook ser) (quoteIds : List QuoteId) : ChunkTask → Prop
  | waiting : Follows E R book quoteIds .waiting
  | between {processed todo : List QuoteId} {rest : List MaybeQuote}
      {results : List (Except Error Unit)}
      (ids : quoteIds = processed ++ todo) (answers : rest = todo.map (answer R))
      (settled : List.Forall₂ (Settled E R book) processed results) :
      Follows E R book quoteIds (.adding rest .idle results)
  | calling {processed todo : List QuoteId} {rest : List MaybeQuote}
      {results : List (Except Error Unit)} {q : Quote} {call : AddCall}
      (ids : quoteIds = processed ++ q.id :: todo) (answers : rest = todo.map (answer R))
      (settled : List.Forall₂ (Settled E R book) processed results)
      (mem : q ∈ R.quotes) (quote : call.quote? = some q) :
      Follows E R book quoteIds (.adding rest call results)
  | returned {processed todo : List QuoteId} {rest : List MaybeQuote}
      {results : List (Except Error Unit)} {q : Quote} {outcome : Outcome Deqs.Error Unit}
      {r : Except Error Unit}
      (ids : quoteIds = processed ++ q.id :: todo) (answers : rest = todo.map (answer R))
      (settled : List.Forall₂ (Settled E R book) processed results)
      (mem : q ∈ R.quotes) (result : ChunkTask.resultOf outcome = some r)
      (decided : Decided E book q r) :
      Follows E R book quoteIds (.adding rest (.done outcome) results)
  | done {results : List (Except Error Unit)}
      (settled : List.Forall₂ (Settled E R book) quoteIds results) :
      Follows E R book quoteIds (.done (.ok results))

theorem Decided.mono {q : Quote} {r : Except Error Unit} (h : Decided E book q r)
    (hg : book.Grows book') : Decided E book' q r :=
  h.imp_left fun hc => hc.mono hg

theorem Settled.mono (hg : book.Grows book') (quoteId : QuoteId) (r : Except Error Unit)
    (h : Settled E R book quoteId r) : Settled E R book' quoteId r := by
  obtain ⟨q, hq, hid, hd⟩ := h
  exact ⟨q, hq, hid, hd.mono hg⟩

theorem Follows.mono (hg : book.Grows book') (h : Follows E R book quoteIds task) :
    Follows E R book' quoteIds task := by
  cases h with
  | waiting => exact .waiting
  | between ids answers settled => exact .between ids answers (settled.imp (Settled.mono hg))
  | calling ids answers settled mem quote =>
      exact .calling ids answers (settled.imp (Settled.mono hg)) mem quote
  | returned ids answers settled mem result decided =>
      exact .returned ids answers (settled.imp (Settled.mono hg)) mem result (decided.mono hg)
  | done settled => exact .done (settled.imp (Settled.mono hg))

theorem peerOffer_of_made {q : Quote} (h : q.Made mc) : peerOffer mc q = .ok q :=
  h.new_eq.2 none

theorem Follows.respond (hp : R.poisoned = false)
    (hlen : quoteIds.length ≤ MAX_QUOTES_PER_REQUEST) {r : Response}
    (hr : handleRpcRequest R (.getQuotesById quoteIds) = some r)
    (h : ChunkTask.respond quoteIds (.ok r) task = some task') :
    Follows E R book quoteIds task' := by
  obtain rfl := Option.some.inj ((handle_getQuotesById hp hlen).symm.trans hr)
  obtain ⟨-, ⟨e, he, -⟩ | ⟨quotes, hq, rfl⟩⟩ := ChunkTask.respond_cases h
  · rw [getQuotesById_answers] at he
    cases he
  · rw [getQuotesById_answers] at hq
    exact .between (List.nil_append _).symm (Except.ok.inj hq).symm .nil

theorem Follows.next (hmade : ∀ q ∈ R.quotes, q.Made mc)
    (hids : ∀ quoteId ∈ quoteIds, ∃ q ∈ R.quotes, q.id = quoteId)
    (h : Follows E R book quoteIds task) (hn : ChunkTask.next mc quoteIds task = some task') :
    Follows E R book quoteIds task' := by
  cases h with
  | waiting => cases hn
  | done settled => cases hn
  | @between processed todo rest results ids answers settled =>
      cases todo with
      | nil =>
          subst answers
          obtain rfl := Option.some.inj hn
          rw [List.append_nil] at ids
          exact .done (ids ▸ settled)
      | cons quoteId todo =>
          -- there is an identifier for the entry, and `R` has its quote
          obtain ⟨q, hq, rfl, hans⟩ := answer_of_mem (hids quoteId (by simp [ids]))
          have hidx : quoteIds[results.length]? = some q.id := by
            rw [ids, ← settled.length_eq, List.getElem?_append_right (Nat.le_refl _),
              Nat.sub_self]
            rfl
          have htask : task' = .adding (todo.map (answer R)) (.start q) results := by
            subst answers
            simp only [List.map_cons, hans, ChunkTask.next, hidx, peerOffer_of_made (hmade q hq),
              AddCall.ofOffer, Option.some.injEq] at hn
            exact hn.symm
          rw [htask]
          exact .calling ids rfl settled hq rfl
  | @calling processed todo rest results q call ids answers settled mem quote =>
      cases call with
      | idle => cases quote
      | done outcome => cases quote
      | start quote => simp [ChunkTask.next] at hn
      | readBlocks quote c => simp [ChunkTask.next] at hn
      | checkingRing quote c ring => simp [ChunkTask.next] at hn
  | @returned processed todo rest results q outcome r ids answers settled mem result decided =>
      have htask : task' = .adding rest .idle (results ++ [r]) := by
        cases outcome with
        | ok u =>
            obtain rfl := Option.some.inj result
            simpa [ChunkTask.next, eq_comm] using hn
        | err e =>
            obtain rfl := Option.some.inj result
            simpa [ChunkTask.next, eq_comm] using hn
        | panic m => cases result
      have hids' : quoteIds = (processed ++ [q.id]) ++ todo := by
        rw [ids, List.append_assoc, List.singleton_append]
      rw [htask]
      exact .between hids' answers (List.rel_append settled (.cons ⟨q, mem, rfl, decided⟩ .nil))

theorem Follows.check {t : PeerSync ser} {i : Nat} {fault : Option String} {faults : Faults}
    {rest : List MaybeQuote} {call call' : AddCall} {results : List (Except Error Unit)}
    (hE : E t (.advance i fault faults)) (ht : t.tasks[i]? = some (.adding rest call results))
    (h : Follows E R book quoteIds (.adding rest call results))
    (hn : call.next t.ledger fault = some call') :
    Follows E R book quoteIds (.adding rest call' results) := by
  cases h with
  | between ids answers settled => cases hn
  | returned ids answers settled mem result decided => cases hn
  | calling ids answers settled mem quote =>
      rcases AddCall.next_cases hn with ⟨e, rfl⟩ | ⟨q', rfl, rfl, -⟩ | ⟨q', n, rfl, rfl, -⟩ |
        ⟨q', n, j, txOut, ring, rfl, rfl, -⟩
      · exact .returned ids answers settled mem rfl (.inr ⟨e, rfl, .ledgerCheck hE ht quote hn⟩)
      · exact .calling ids answers settled mem quote
      · exact .calling ids answers settled mem quote
      · exact .calling ids answers settled mem quote

theorem Follows.insert {t : PeerSync ser} {i : Nat} {fault : Option String} {faults : Faults}
    {rest : List MaybeQuote} {quote : Quote} {c : BlockIndex}
    {results : List (Except Error Unit)} (hE : E t (.advance i fault faults))
    (ht : t.tasks[i]? = some (.adding rest (.checkingRing quote c []) results))
    (h : Follows E R t.book quoteIds (.adding rest (.checkingRing quote c []) results))
    (hadd : NodeBook.Added S faults quote t.book (t.book.addQuote faults quote)) :
    Follows E R (t.book.addQuote faults quote).2 quoteIds
      (.adding rest (.done (t.book.addQuote faults quote).1) results) := by
  cases h with
  | @calling processed todo _ _ q _ ids answers settled mem hquote =>
      obtain rfl := Option.some.inj hquote
      have hsettled := settled.imp (Settled.mono hadd.grows)
      rcases hadd.outcome with ⟨hok, hcov⟩ | ⟨e, herr, hcov | ⟨hne, b, hb, hres⟩⟩
      · rw [hok]
        exact .returned ids answers hsettled mem rfl (.inl hcov)
      · rw [herr]
        exact .returned ids answers hsettled mem rfl (.inl (hcov.mono hadd.grows))
      · rw [herr]
        exact .returned ids answers hsettled mem rfl
          (.inr ⟨e, rfl, .database hE ht hb hne hres⟩)

end Tasks

/-! ## Along a run -/

namespace PeerSync

variable {mc : McCore} {ser : Serial} {S : Set Quote} {R : InMemoryQuoteBook}
  {E : PeerSync ser → Action → Prop} {b₀ : NodeBook ser} {s s' : PeerSync ser}

/-- The sync has its chunks, and is somewhere in them. -/
structure Begun (E : PeerSync ser → Action → Prop) (S : Set Quote) (R : InMemoryQuoteBook)
    (b₀ : NodeBook ser) (s : PeerSync ser) : Prop where
  writable : s.book.Writable S
  grows : b₀.Grows s.book
  chunks : s.chunks = some (plan R b₀)
  requests : s.requests =
    .getAllQuoteIds :: ((plan R b₀).take s.tasks.length).map .getQuotesById
  tasks : ∀ (i : Nat) task, s.tasks[i]? = some task →
    ∃ quoteIds, (plan R b₀)[i]? = some quoteIds ∧ Follows E R s.book quoteIds task
  results : ∀ (i : Nat) r, s.chunkResults[i]? = some r →
    ∃ x, r = some x ∧ s.tasks[i]? = some (.done x)
  returned : ∀ r, s.returned = some r →
    r = .ok (tally s.chunkResults) ∧ s.chunkResults.length = (plan R b₀).length

/-- The first call is not answered yet, or the sync has its chunks. -/
def Inv (E : PeerSync ser → Action → Prop) (S : Set Quote) (R : InMemoryQuoteBook)
    (b₀ : NodeBook ser) (s : PeerSync ser) : Prop :=
  s = .initial s.ledger b₀ ∨ Begun E S R b₀ s

namespace Begun

theorem chunk_eq (h : Begun E S R b₀ s) (i : Nat) : s.chunk i = (plan R b₀)[i]? := by
  rw [chunk, h.chunks]
  rfl

theorem length_tasks_le (h : Begun E S R b₀ s) : s.tasks.length ≤ (plan R b₀).length := by
  by_contra hlt
  obtain ⟨quoteIds, hp, -⟩ := h.tasks _ _ (List.getElem?_eq_getElem (Nat.lt_of_not_le hlt))
  rw [List.getElem?_eq_none (Nat.le_refl _)] at hp
  cases hp

theorem length_chunkResults_le (h : Begun E S R b₀ s) :
    s.chunkResults.length ≤ s.tasks.length := by
  by_contra hlt
  obtain ⟨x, -, ht⟩ := h.results _ _ (List.getElem?_eq_getElem (Nat.lt_of_not_le hlt))
  rw [List.getElem?_eq_none (Nat.le_refl _)] at ht
  cases ht

/-- A task that has returned is not touched by a step of another. -/
theorem results_setTask (h : Begun E S R b₀ s) {i : Nat} {task task' : ChunkTask}
    (ht : s.tasks[i]? = some task) (hdone : ∀ x, task ≠ .done x) :
    ∀ (j : Nat) r, s.chunkResults[j]? = some r →
      ∃ x, r = some x ∧ (s.setTask i task').tasks[j]? = some (.done x) := by
  intro j r hr
  obtain ⟨x, hx, hj⟩ := h.results j r hr
  have hne : i ≠ j := by
    rintro rfl
    exact hdone x (Option.some.inj (ht.symm.trans hj))
  exact ⟨x, hx, by rw [setTask, List.getElem?_set_ne hne, hj]⟩

theorem setTask (h : Begun E S R b₀ s) {i : Nat} {quoteIds : List QuoteId}
    {task task' : ChunkTask} (ht : s.tasks[i]? = some task) (hdone : ∀ x, task ≠ .done x)
    (hc : (plan R b₀)[i]? = some quoteIds) (htask : Follows E R s.book quoteIds task') :
    Begun E S R b₀ (s.setTask i task') where
  writable := h.writable
  grows := h.grows
  chunks := h.chunks
  requests := by
    simp only [PeerSync.setTask, List.length_set]
    exact h.requests
  tasks := Lists.forall_set h.tasks ⟨quoteIds, hc, htask⟩
  results := h.results_setTask ht hdone
  returned := h.returned

theorem setBook (h : Begun E S R b₀ s) {book : NodeBook ser} (hw : book.Writable S)
    (hg : s.book.Grows book) : Begun E S R b₀ { s with book } where
  writable := hw
  grows := h.grows.trans hg
  chunks := h.chunks
  requests := h.requests
  tasks := by
    intro i task ht
    obtain ⟨quoteIds, hc, hf⟩ := h.tasks i task ht
    exact ⟨quoteIds, hc, hf.mono hg⟩
  results := h.results
  returned := h.returned

theorem begin (hb : b₀.Writable S) (hp : R.poisoned = false) {ledger : Ledger}
    {response : Except String Response}
    (hg : Honest R (PeerSync.initial ledger b₀) (.begin response))
    (hs : (PeerSync.initial ledger b₀).begin response = some s') : Begun E S R b₀ s' := by
  obtain ⟨r, hr, rfl⟩ := hg
  obtain rfl := Option.some.inj ((handle_getAllQuoteIds hp).symm.trans hr)
  have hlocal : (PeerSync.initial ledger b₀).book.inner.getQuoteIds none =
      .ok (b₀.inner.quotes.map Quote.id) := getQuoteIds_all hb.unpoisoned
  obtain ⟨-, -, ⟨e, -, he | ⟨e', he, -⟩⟩ | ⟨remoteQuoteIds, localQuoteIds, hr, hl, rfl⟩⟩ :=
    begin_cases hs
  · cases he
  · rw [hlocal] at he
    cases he
  · obtain rfl := Except.ok.inj hr
    obtain rfl := Outcome.ok.inj (hlocal.symm.trans hl)
    exact {
      writable := hb
      grows := .refl b₀
      chunks := rfl
      requests := rfl
      tasks := fun i task ht => by cases ht
      results := fun i r hr => by cases hr
      returned := fun r hr => by cases hr }

theorem spawn (h : Begun E S R b₀ s) (hs : s.step mc .spawn = some s') : Begun E S R b₀ s' := by
  obtain ⟨quoteIds, hc, -, rfl⟩ := spawn_cases hs
  rw [h.chunk_eq] at hc
  refine ⟨h.writable, h.grows, h.chunks, ?_, ?_, ?_, h.returned⟩
  · show s.requests ++ [.getQuotesById quoteIds] = _
    rw [List.length_append, List.length_singleton, List.take_add_one, hc, h.requests]
    simp
  · exact Lists.forall_concat h.tasks ⟨quoteIds, hc, .waiting⟩
  · intro i r hr
    obtain ⟨x, hx, ht⟩ := h.results i r hr
    exact ⟨x, hx, List.getElem?_append_left (List.getElem?_eq_some_iff.mp ht).1 ▸ ht⟩

theorem collect (h : Begun E S R b₀ s) (hs : s.step mc .collect = some s') :
    Begun E S R b₀ s' := by
  rcases collect_cases hs with ⟨r, ht, rfl⟩ | ⟨ht | ⟨m, ht⟩, -⟩
  · refine ⟨h.writable, h.grows, h.chunks, h.requests, h.tasks, ?_, ?_⟩
    · exact Lists.forall_concat h.results ⟨r, rfl, ht⟩
    · -- after the return all the results are there
      intro r' hr'
      have hlt := (List.getElem?_eq_some_iff.mp ht).1
      have hle := h.length_tasks_le
      have heq := (h.returned r' hr').2
      omega
  · obtain ⟨quoteIds, -, hf⟩ := h.tasks _ _ ht
    cases hf
  · obtain ⟨quoteIds, -, hf⟩ := h.tasks _ _ ht
    cases hf

theorem step (hS : Genuine mc S) (hR : ∀ q ∈ R.quotes, q ∈ S) (hp : R.poisoned = false)
    (h : Begun E S R b₀ s) {a : Action} (hg : Honest R s a) (hE : E s a)
    (hs : s.step mc a = some s') : Begun E S R b₀ s' := by
  cases a with
  | append block =>
      obtain rfl := Option.some.inj hs
      exact ⟨h.writable, h.grows, h.chunks, h.requests, h.tasks, h.results, h.returned⟩
  | begin response =>
      have hnone := (begin_cases hs).1
      rw [h.chunks] at hnone
      cases hnone
  | spawn => exact h.spawn hs
  | respond i response =>
      obtain ⟨quoteIds, r, hc, hr, rfl⟩ := hg
      obtain ⟨quoteIds', task, task', hc', ht, hf, rfl⟩ := stepTask_cases hs
      obtain rfl := Option.some.inj (hc.symm.trans hc')
      rw [h.chunk_eq] at hc
      have hlen := length_le_of_mem_plan (List.mem_of_getElem? hc)
      refine h.setTask ht ?_ hc (.respond hp hlen hr hf)
      rintro x rfl
      cases hf
  | next i =>
      obtain ⟨quoteIds, task, task', hc, ht, hf, rfl⟩ := stepTask_cases hs
      rw [h.chunk_eq] at hc
      obtain ⟨quoteIds', hc', hfollows⟩ := h.tasks i task ht
      obtain rfl := Option.some.inj (hc.symm.trans hc')
      have hids := mem_R_of_mem_plan (List.mem_of_getElem? hc)
      refine h.setTask ht ?_ hc (hfollows.next (fun q hq => hS.made (hR q hq)) hids hf)
      rintro x rfl
      cases hf
  | advance i fault faults =>
      obtain ⟨rest, call, results, ht, hcases⟩ := advance_cases hs
      obtain ⟨quoteIds, hc, hfollows⟩ := h.tasks i _ ht
      rcases hcases with ⟨quote, c, rfl, rfl⟩ | ⟨call', hcall, rfl⟩
      · have hmem : quote ∈ R.quotes := by
          cases hfollows with
          | calling ids answers settled mem hquote => exact Option.some.inj hquote ▸ mem
        have hadd := h.writable.addQuote hS faults (hR quote hmem)
        refine (h.setBook hadd.writable hadd.grows).setTask ht (fun x hx => by cases hx) hc ?_
        exact hfollows.insert hE ht hadd
      · exact h.setTask ht (fun x hx => by cases hx) hc (hfollows.check hE ht hcall)
  | collect => exact h.collect hs
  | finish =>
      obtain ⟨chunks, hc, -, hlen, rfl⟩ := finish_cases hs
      obtain rfl := Option.some.inj (h.chunks.symm.trans hc)
      refine ⟨h.writable, h.grows, h.chunks, h.requests, h.tasks, h.results, ?_⟩
      intro r hr
      exact ⟨(Option.some.inj hr).symm, hlen⟩

end Begun

/-- **One step of a sync with an honest peer.** -/
theorem Inv.step (hS : Genuine mc S) (hR : ∀ q ∈ R.quotes, q ∈ S) (hp : R.poisoned = false)
    (hb : b₀.Writable S) (h : Inv E S R b₀ s) {a : Action} (hg : Honest R s a) (hE : E s a)
    (hs : s.step mc a = some s') : Inv E S R b₀ s' := by
  rcases h with hinit | h
  · rw [hinit] at hs hg
    rcases initial_cases hs with ⟨block, rfl, rfl⟩ | ⟨response, rfl, hs⟩
    · exact .inl rfl
    · exact .inr (.begin hb hp hg hs)
  · exact .inr (h.step hS hR hp hg hE hs)

end PeerSync

end P2P

end Deqs
