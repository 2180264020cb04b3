/-
# `SqliteQuoteBook` — a table and an in-memory book, updated in one transaction

Every update runs inside `immediate_transaction`: the statement on the table first, then
the same update of the inner quote book, then `COMMIT`.  The database can fail at any of
these points (`Faults`).  Of SQLite only this is used: a transaction that does not
commit, because its body failed, panicked, or because `COMMIT` itself failed, leaves the
rows as they were.  The inner book has no such undo.

    BEGIN → statement on the rows → inner book → COMMIT
                                                   │ fails: the rows go back,
                                                   ▼        the inner book does not

So the comment on the in-memory step, "if this fails, we will rollback the transaction",
has a gap on its other side.  What is proved:

* `keepsStores_iff_harmless` for one call, and with it for runs: the two stores stay
  equal exactly as long as no `COMMIT` fails after the inner book has changed;
* `selects_expired_iff`: the `WHERE` clause of the tombstone removal picks the quotes
  the inner book removes exactly when no tombstone is too far ahead.
-/
import Deqs.Lib.Lts
import Deqs.Book.Reference
import Deqs.Book.Row

namespace Deqs

/-- Where the database fails during one call, and with what text: taking a connection
from the pool, `BEGIN`, the statement, the query that follows a unique violation, and
`COMMIT`. -/
structure Faults where
  conn : Option String
  begin : Option String
  statement : Option String
  query : Option String
  commit : Option String
deriving DecidableEq

def Faults.none : Faults := ⟨.none, .none, .none, .none, .none⟩

/-- `From<error::Error> for QuoteBookError` at a Diesel error. -/
def dieselError (e : String) : Error := .implementationSpecific s!"diesel error: {e}"

/-- A quote book that stores quotes in a SQLite database and queries them from an
underlying quote book. -/
structure SqliteQuoteBook (ser : Serial) where
  table : Table ser
  quoteBook : InMemoryQuoteBook

namespace SqliteQuoteBook

variable {ser : Serial} {α : Type}

/-- `conn.immediate_transaction(body)`.  A panic drops the connection, which rolls the
transaction back as an error does. -/
def immediateTransaction (faults : Faults)
    (body : SqliteQuoteBook ser → Outcome Error α × SqliteQuoteBook ser)
    (book : SqliteQuoteBook ser) : Outcome Error α × SqliteQuoteBook ser :=
  match faults.begin with
  | some e => (.err (dieselError e), book)
  | none =>
      match body book with
      | (.ok a, book') =>
          match faults.commit with
          | some e => (.err (dieselError e), ⟨book.table, book'.quoteBook⟩)
          | none => (.ok a, book')
      | (.err e, book') => (.err e, ⟨book.table, book'.quoteBook⟩)
      | (.panic m, book') => (.panic m, ⟨book.table, book'.quoteBook⟩)

/-- `self.get_conn()?` and the transaction on that connection. -/
def transact (faults : Faults)
    (body : SqliteQuoteBook ser → Outcome Error α × SqliteQuoteBook ser)
    (book : SqliteQuoteBook ser) : Outcome Error α × SqliteQuoteBook ser :=
  match faults.conn with
  | some e => (.err (.implementationSpecific s!"r2d2 error: {e}"), book)
  | none => immediateTransaction faults body book

/-- The quote that is in the way of an insertion, read back from its row. -/
def getById (faults : Faults) (table : Table ser) (id : QuoteId) : Except Error Quote :=
  match faults.query with
  | some e => .error (dieselError e)
  | none =>
      match table.rows.find? (fun r => r.id = id.data.bytes) with
      | some row => row.toQuote ser
      | none =>
          let text := id.display
          .error (.implementationSpecific
            s!"Quote with id {text} not found in database (but it should've been!)")

/-- What a unique violation is turned into. -/
def uniqueViolation (faults : Faults) (table : Table ser) (id : QuoteId) : Error :=
  match getById faults table id with
  | .ok existingQuote => .quoteAlreadyExists existingQuote
  | .error err =>
      let text := id.display
      let reason := err.display
      .implementationSpecific
        s!"Getting quote by id {text} failed, but we expected it to succeed: {reason}"

def addQuoteBody (faults : Faults) (quote : Quote) (book : SqliteQuoteBook ser) :
    Outcome Error Unit × SqliteQuoteBook ser :=
  match faults.statement with
  | some e => (.err (dieselError e), book)
  | none =>
      match book.table.insert quote with
      | none => (.err (uniqueViolation faults book.table quote.id), book)
      | some table =>
          let (r, quoteBook) := book.quoteBook.addQuote quote
          (r, ⟨table, quoteBook⟩)

def removeQuoteByIdBody (faults : Faults) (id : QuoteId) (book : SqliteQuoteBook ser) :
    Outcome Error Quote × SqliteQuoteBook ser :=
  match faults.statement with
  | some e => (.err (dieselError e), book)
  | none =>
      let (numDeleted, table) := book.table.delete (fun r => r.id = id.data.bytes)
      match numDeleted with
      | 0 => (.err .quoteNotFound, ⟨table, book.quoteBook⟩)
      | 1 =>
          let (r, quoteBook) := book.quoteBook.removeQuoteById id
          (r, ⟨table, quoteBook⟩)
      | _ =>
          (.err (.implementationSpecific "Deleted more than one quote"),
            ⟨table, book.quoteBook⟩)

/-- The message of `assert_eq!(quotes.len(), num_deleted)`. -/
def lenMismatch : String := "assertion failed: quotes.len() == num_deleted"

/-- The transaction the two bulk removals share: delete the selected rows, have the
inner book remove, compare the numbers. -/
def removeQuotesBody (faults : Faults) (selected : Row → Bool)
    (remove : InMemoryQuoteBook → Outcome Error (List Quote) × InMemoryQuoteBook)
    (book : SqliteQuoteBook ser) : Outcome Error (List Quote) × SqliteQuoteBook ser :=
  match faults.statement with
  | some e => (.err (dieselError e), book)
  | none =>
      let (numDeleted, table) := book.table.delete selected
      match remove book.quoteBook with
      | (.ok quotes, quoteBook) =>
          if quotes.length = numDeleted then (.ok quotes, ⟨table, quoteBook⟩)
          else (.panic lenMismatch, ⟨table, quoteBook⟩)
      | (r, quoteBook) => (r, ⟨table, quoteBook⟩)

/-- `WHERE key_image = ?`. -/
def hasKeyImage (keyImage : KeyImage) (r : Row) : Bool := r.keyImage = keyImage.bytes.bytes

/-- `WHERE tombstone_block > 0 AND tombstone_block <= ?`, on the signed column. -/
def tombstoneReached (currentBlockIndex : BlockIndex) (r : Row) : Bool :=
  0 < r.tombstoneBlock && r.tombstoneBlock ≤ Int64.ofNat currentBlockIndex

variable (mc : McCore) (faults : Faults)

def addQuote (quote : Quote) :
    SqliteQuoteBook ser → Outcome Error Unit × SqliteQuoteBook ser :=
  transact faults (addQuoteBody faults quote)

def removeQuoteById (id : QuoteId) :
    SqliteQuoteBook ser → Outcome Error Quote × SqliteQuoteBook ser :=
  transact faults (removeQuoteByIdBody faults id)

def removeQuotesByKeyImage (keyImage : KeyImage) :
    SqliteQuoteBook ser → Outcome Error (List Quote) × SqliteQuoteBook ser :=
  transact faults (removeQuotesBody faults (hasKeyImage keyImage)
    (·.removeQuotesByKeyImage keyImage))

def removeQuotesByTombstoneBlock (currentBlockIndex : BlockIndex) :
    SqliteQuoteBook ser → Outcome Error (List Quote) × SqliteQuoteBook ser :=
  transact faults (removeQuotesBody faults (tombstoneReached currentBlockIndex)
    (·.removeQuotesByTombstoneBlock mc currentBlockIndex))

/-- One call on the book.  The queries are the inner book's. -/
def apply (book : SqliteQuoteBook ser) :
    Call → Outcome Error Response × SqliteQuoteBook ser
  | .addQuote quote => (addQuote faults quote book).map (.map fun _ => .added) id
  | .removeQuoteById i => (removeQuoteById faults i book).map (.map .quote) id
  | .removeQuotesByKeyImage k => (removeQuotesByKeyImage faults k book).map (.map .removed) id
  | .removeQuotesByTombstoneBlock c =>
      (removeQuotesByTombstoneBlock mc faults c book).map (.map .removed) id
  | .getQuotes pair range limit =>
      ((book.quoteBook.apply mc (.getQuotes pair range limit)).1, book)
  | .getQuoteIds pair => ((book.quoteBook.apply mc (.getQuoteIds pair)).1, book)
  | .getQuoteById i => ((book.quoteBook.apply mc (.getQuoteById i)).1, book)
  | .numScis => ((book.quoteBook.apply mc .numScis).1, book)

/-! ## Two stores that agree -/

/-- The rows decode to exactly the quotes of the inner book. -/
def Consistent (book : SqliteQuoteBook ser) : Prop :=
  (book.table.rows.map (Row.toQuote ser)).Perm (book.quoteBook.quotes.map Except.ok)

variable {mc faults} {book : SqliteQuoteBook ser}

theorem consistent_iff (hser : ser.Lossless) :
    Consistent book ↔ book.table.rows.Perm (book.quoteBook.quotes.map (Row.ofQuote ser)) := by
  obtain ⟨qs, hqs⟩ := book.table.exists_quotes
  have hdec : book.table.rows.map (Row.toQuote ser) = qs.map Except.ok := by
    rw [hqs, List.map_map]
    exact List.map_congr_left fun q _ => Row.toQuote_ofQuote hser q
  constructor
  · intro h
    rw [Consistent, hdec] at h
    have hp : qs.Perm book.quoteBook.quotes :=
      (List.map_perm_map_iff fun _ _ => Except.ok.inj).mp h
    exact hqs ▸ hp.map _
  · intro h
    have hd := h.map (Row.toQuote ser)
    rw [List.map_map] at hd
    refine hd.trans (.of_eq ?_)
    exact List.map_congr_left fun q _ => Row.toQuote_ofQuote hser q

/-- The primary key makes the identifiers of the inner book distinct. -/
theorem Consistent.eq_of_id (hser : ser.Lossless) (h : Consistent book) {a b : Quote}
    (ha : a ∈ book.quoteBook.quotes) (hb : b ∈ book.quoteBook.quotes) (hid : a.id = b.id) :
    a = b := by
  have hn : (book.quoteBook.quotes.map (fun q => (Row.ofQuote ser q).id)).Nodup := by
    have hp := (((consistent_iff hser).mp h).map Row.id).nodup_iff.mp book.table.primaryKey
    rwa [List.map_map] at hp
  exact List.inj_on_of_nodup_map hn ha hb (by simp [Row.ofQuote, hid])

theorem Consistent.nodup (hser : ser.Lossless) (h : Consistent book) :
    book.quoteBook.quotes.Nodup := by
  refine List.Nodup.of_map (Row.ofQuote ser) ?_
  exact ((consistent_iff hser).mp h).nodup_iff.mp (book.table.primaryKey.of_map _)

theorem Consistent.filter_rows (hser : ser.Lossless) (h : Consistent book) {s : Row → Bool}
    {p : Quote → Bool} (hp : ∀ q ∈ book.quoteBook.quotes, s (Row.ofQuote ser q) = p q) :
    (book.table.rows.filter s).Perm
      ((book.quoteBook.quotes.filter p).map (Row.ofQuote ser)) := by
  refine (((consistent_iff hser).mp h).filter s).trans (.of_eq ?_)
  rw [List.filter_map]
  exact congrArg _ (List.filter_congr hp)

/-! ## What the body of a transaction may do

The transaction's behaviour under every pattern of failures follows from four facts
about its body alone. -/

/-- Run on a consistent book, the body ends in `r`. -/
structure BodySound (book : SqliteQuoteBook ser) (r : Outcome Error α × SqliteQuoteBook ser) :
    Prop where
  ok : ∀ {a}, r.1 = .ok a → Consistent r.2
  unchanged : ∀ {a}, r.1 = .ok a → r.2.quoteBook.quotes.Perm book.quoteBook.quotes →
    r.2.quoteBook = book.quoteBook
  err : ∀ {e}, r.1 = .err e → r.2.quoteBook = book.quoteBook
  panic : ∀ {m}, r.1 = .panic m →
    r.2.quoteBook.quotes.Perm book.quoteBook.quotes ∧ m ≠ lenMismatch

theorem bodySound_err (e : Error) (table : Table ser) :
    BodySound book ((.err e, ⟨table, book.quoteBook⟩) :
      Outcome Error α × SqliteQuoteBook ser) where
  ok := fun h => by cases h
  unchanged := fun h => by cases h
  err := fun _ => rfl
  panic := fun h => by cases h

theorem addQuoteBody_sound (hser : ser.Lossless) (h : Consistent book) (q : Quote) :
    BodySound book (addQuoteBody faults q book) := by
  unfold addQuoteBody
  cases faults.statement with
  | some e => exact bodySound_err _ book.table
  | none =>
      cases hi : book.table.insert q with
      | none => exact bodySound_err _ book.table
      | some table =>
          rcases ha : book.quoteBook.addQuote q with ⟨r, inner⟩
          refine ⟨?_, ?_, ?_, ?_⟩
          · rintro ⟨⟩ rfl
            obtain ⟨-, -, -, hperm⟩ := InMemoryQuoteBook.addQuote_ok ha
            rw [consistent_iff hser, Table.rows_insert hi]
            exact (((consistent_iff hser).mp h).cons _).trans (hperm.symm.map _)
          · -- an accepted quote is one quote more
            rintro ⟨⟩ rfl hp
            obtain ⟨-, -, -, hperm⟩ := InMemoryQuoteBook.addQuote_ok ha
            have hlen := (hp.symm.trans hperm).length_eq
            rw [List.length_cons] at hlen
            omega
          · rintro e rfl
            exact InMemoryQuoteBook.addQuote_err ha
          · rintro m rfl
            obtain ⟨rfl, -, -, hperm, -⟩ := InMemoryQuoteBook.addQuote_panic ha
            exact ⟨hperm, by decide⟩

theorem Consistent.delete_id (hser : ser.Lossless) (h : Consistent book) {y : Quote}
    {inner : InMemoryQuoteBook} (hperm : book.quoteBook.quotes.Perm (y :: inner.quotes)) :
    Consistent ⟨(book.table.delete (fun r => r.id = y.id.data.bytes)).2, inner⟩ := by
  obtain ⟨hy, -⟩ := List.nodup_cons.mp (hperm.nodup_iff.mp (h.nodup hser))
  rw [consistent_iff hser]
  have hrows := h.filter_rows hser (s := fun r => !decide (r.id = y.id.data.bytes))
    (p := fun q => !decide (q.id = y.id)) (fun q _ => by simp [Row.ofQuote_id_eq_iff])
  refine hrows.trans (List.Perm.map _ ((hperm.filter _).trans (.of_eq ?_)))
  rw [List.filter_cons_of_neg (by simp), List.filter_eq_self]
  -- nobody else has the identifier
  intro x hx
  simp only [Bool.not_eq_true', decide_eq_false_iff_not]
  intro hid
  have hxy := h.eq_of_id hser (hperm.mem_iff.mpr (List.mem_cons_of_mem _ hx))
    (hperm.mem_iff.mpr List.mem_cons_self) hid
  exact hy (hxy ▸ hx)

theorem removeQuoteByIdBody_sound (hser : ser.Lossless) (h : Consistent book) (i : QuoteId) :
    BodySound book (removeQuoteByIdBody faults i book) := by
  unfold removeQuoteByIdBody
  cases faults.statement with
  | some e => exact bodySound_err _ book.table
  | none =>
      rcases hd : book.table.delete (fun r => r.id = i.data.bytes) with ⟨numDeleted, table⟩
      match numDeleted with
      | 0 => exact bodySound_err _ table
      | _ + 2 => exact bodySound_err _ table
      | 1 =>
          rcases hr : book.quoteBook.removeQuoteById i with ⟨r, inner⟩
          refine ⟨?_, ?_, ?_, ?_⟩
          · rintro e rfl
            obtain ⟨-, -, hmem, rfl, y, hcmp, hperm⟩ := InMemoryQuoteBook.removeQuoteById_ok hr
            have hy : y = e := h.eq_of_id hser (hperm.mem_iff.mpr List.mem_cons_self) hmem
              (Quote.id_eq_of_cmp_eq hcmp).1.symm
            have hc := h.delete_id hser (hy ▸ hperm)
            rwa [hd] at hc
          · -- a removed quote is one quote less
            rintro e rfl hp
            obtain ⟨-, -, -, -, y, -, hperm⟩ := InMemoryQuoteBook.removeQuoteById_ok hr
            have hlen := (hp.trans hperm).length_eq
            rw [List.length_cons] at hlen
            simp only at hlen
            omega
          · rintro e rfl
            exact InMemoryQuoteBook.removeQuoteById_err hr
          · rintro m rfl
            obtain ⟨rfl, -, rfl, -⟩ := InMemoryQuoteBook.removeQuoteById_panic hr
            exact ⟨.refl _, by decide⟩

theorem removeQuotesBody_sound (hser : ser.Lossless) (h : Consistent book) {sel : Row → Bool}
    {p : Quote → Bool} (hp : ∀ q ∈ book.quoteBook.quotes, sel (Row.ofQuote ser q) = p q)
    {remove : InMemoryQuoteBook → Outcome Error (List Quote) × InMemoryQuoteBook}
    (hremove : ∀ inner, remove inner = if inner.poisoned then (.err .lockPoisoned, inner)
      else (.ok (inner.quotes.filter p), (inner.drain p).2)) :
    BodySound book (removeQuotesBody faults sel remove book) := by
  unfold removeQuotesBody
  cases faults.statement with
  | some e => exact bodySound_err _ book.table
  | none =>
      simp only [hremove]
      cases book.quoteBook.poisoned with
      | true => exact bodySound_err _ _
      | false =>
          have hlen : (book.quoteBook.quotes.filter p).length = (book.table.delete sel).1 := by
            rw [Table.delete, (h.filter_rows hser hp).length_eq, List.length_map]
          simp only [Bool.false_eq_true, if_false, if_pos hlen]
          refine ⟨?_, ?_, (fun he => by cases he), (fun he => by cases he)⟩
          · rintro _ -
            rw [consistent_iff hser, InMemoryQuoteBook.quotes_drain]
            exact h.filter_rows hser (fun q hq => by rw [hp q hq])
          · -- what leaves the book as large as it was removed nothing
            rintro _ - hperm
            exact InMemoryQuoteBook.drain_eq_self (InMemoryQuoteBook.drain_perm_iff.mp hperm)

/-! ## Calls under failures -/

/-- **What a transaction can come to.**  It never begins; or its body succeeds and is
committed; or the rows are rolled back and the inner book stays as the body left it, because
the body failed or `COMMIT` did. -/
theorem transact_cases (faults : Faults)
    (b : SqliteQuoteBook ser → Outcome Error α × SqliteQuoteBook ser)
    (book : SqliteQuoteBook ser) :
    (∃ e, transact faults b book = (.err e, book)) ∨
    (∃ a, (b book).1 = .ok a ∧ transact faults b book = b book) ∨
    ∃ r, transact faults b book = (r, ⟨book.table, (b book).2.quoteBook⟩) ∧
      ((b book).1 = r ∧ (∀ a, r ≠ .ok a) ∨
        faults.commit ≠ none ∧ ∃ a e, (b book).1 = .ok a ∧ r = .err e) := by
  unfold transact
  cases faults.conn with
  | some e => exact .inl ⟨_, rfl⟩
  | none =>
      simp only [immediateTransaction]
      cases faults.begin with
      | some e => exact .inl ⟨_, rfl⟩
      | none =>
          right
          rcases b book with ⟨r, book'⟩
          cases r with
          | ok a =>
              cases faults.commit with
              | none => exact .inl ⟨a, rfl, rfl⟩
              | some e => exact .inr ⟨_, rfl, .inr ⟨by simp, a, _, rfl, rfl⟩⟩
          | err e => exact .inr ⟨_, rfl, .inl ⟨rfl, by simp⟩⟩
          | panic m => exact .inr ⟨_, rfl, .inl ⟨rfl, by simp⟩⟩

/-- What is asked of a call that starts with the two stores equal: an error leaves both
as they were, success leaves them equal, and a panic (the inner book has assertions of
its own) leaves them equal and is not the one that compares the numbers. -/
def KeepsStores (book : SqliteQuoteBook ser) (r : Outcome Error α × SqliteQuoteBook ser) : Prop :=
  match r.1 with
  | .ok _ => Consistent r.2
  | .err _ => r.2 = book
  | .panic m => Consistent r.2 ∧ m ≠ lenMismatch

/-- A transaction run by itself, as a whole: what its body makes of the stores, once the
database has had its say. -/
theorem keepsStores_transact_iff {b : SqliteQuoteBook ser → Outcome Error α × SqliteQuoteBook ser}
    (h : Consistent book) (hb : BodySound book (b book)) :
    KeepsStores book (transact faults b book) ↔
      faults.commit = none ∨ faults.conn ≠ none ∨ faults.begin ≠ none ∨
        (b book).2.quoteBook.quotes.Perm book.quoteBook.quotes := by
  unfold transact
  cases faults.conn with
  | some e => exact iff_of_true rfl (.inr (.inl (by simp)))
  | none =>
      simp only [immediateTransaction]
      cases faults.begin with
      | some e => exact iff_of_true rfl (.inr (.inr (.inl (by simp))))
      | none =>
          rcases hr : b book with ⟨r, book'⟩
          rw [hr] at hb
          cases r with
          | ok a =>
              cases faults.commit with
              | none => exact iff_of_true (hb.ok rfl) (.inl rfl)
              | some e =>
                  -- the rows are back, the inner book stays as the body left it
                  simp only [KeepsStores, reduceCtorEq, ne_eq, not_true_eq_false, false_or]
                  constructor
                  · intro heq
                    have hinner := congrArg SqliteQuoteBook.quoteBook heq
                    exact .of_eq (congrArg InMemoryQuoteBook.quotes hinner)
                  · intro hperm
                    rw [hb.unchanged rfl hperm]
          | err e =>
              have hinner : book'.quoteBook = book.quoteBook := hb.err rfl
              refine iff_of_true ?_ (.inr (.inr (.inr ?_)))
              · simp only [KeepsStores, hinner]
              · simp only [hinner]
                exact .refl _
          | panic m =>
              obtain ⟨hperm, hm⟩ := hb.panic rfl
              refine iff_of_true ⟨?_, hm⟩ (.inr (.inr (.inr hperm)))
              exact List.Perm.trans h (hperm.symm.map _)

theorem keepsStores_map_iff {β : Type} (f : α → β)
    (r : Outcome Error α × SqliteQuoteBook ser) :
    KeepsStores book (r.map (.map f) id) ↔ KeepsStores book r := by
  obtain ⟨r, book'⟩ := r
  cases r <;> exact Iff.rfl

/-- A quote that the search for `e` stops at, because `e` is below it, stands before `e`. -/
def Misplaced (e : Quote) (entries : List Quote) : Prop :=
  ∃ before after, entries = before ++ e :: after ∧ ∃ y ∈ before, Quote.cmp e y = .lt

theorem Misplaced.mem {e : Quote} {entries : List Quote} (h : Misplaced e entries) :
    e ∈ entries := by
  obtain ⟨before, after, rfl, -⟩ := h
  exact List.mem_append_right _ List.mem_cons_self

/-- The update finds nothing to do in memory: the identifier, or the pair with the key image,
is taken; or no quote is asked for, or it is one the ordered set does not find. -/
def LeavesInner (book : InMemoryQuoteBook) : Call → Prop
  | .addQuote q =>
      (∃ e ∈ book.quotes, e.id = q.id) ∨ ∃ e ∈ book.quotesOf q.pair, e.keyImage = q.keyImage
  | .removeQuoteById i =>
      (∀ e ∈ book.quotes, e.id ≠ i) ∨ ∃ pair e, e.id = i ∧ Misplaced e (book.quotesOf pair)
  | .removeQuotesByKeyImage k => ∀ e ∈ book.quotes, e.keyImage ≠ k
  | _ => False

/-- `COMMIT` goes through; or something before it fails, the lock is poisoned, or there is
nothing to do in memory. -/
def CommitHarmless (book : SqliteQuoteBook ser) (faults : Faults) (call : Call) : Prop :=
  faults.commit = none ∨ faults.conn ≠ none ∨ faults.begin ≠ none ∨ faults.statement ≠ none ∨
    book.quoteBook.poisoned = true ∨ LeavesInner book.quoteBook call

/-- The three updates of this section; the removal by tombstone block has one of its own. -/
def IsUpdate : Call → Prop
  | .addQuote _ | .removeQuoteById _ | .removeQuotesByKeyImage _ => True
  | _ => False

def IsQuery : Call → Prop
  | .getQuotes .. | .getQuoteIds _ | .getQuoteById _ | .numScis => True
  | _ => False

/-! ### Which updates leave the inner book alone -/

theorem Consistent.mem_ids_iff (hser : ser.Lossless) (h : Consistent book) (q : Quote) :
    (Row.ofQuote ser q).id ∈ book.table.rows.map Row.id ↔
      ∃ e ∈ book.quoteBook.quotes, e.id = q.id := by
  rw [(((consistent_iff hser).mp h).map Row.id).mem_iff, List.map_map, List.mem_map]
  exact exists_congr fun e => and_congr_right fun _ => Row.ofQuote_id_eq_iff

theorem addQuoteBody_perm_iff (hser : ser.Lossless) (h : Consistent book) (q : Quote) :
    (addQuoteBody faults q book).2.quoteBook.quotes.Perm book.quoteBook.quotes ↔
      faults.statement ≠ none ∨ book.quoteBook.poisoned = true ∨
        LeavesInner book.quoteBook (.addQuote q) := by
  unfold addQuoteBody
  cases faults.statement with
  | some e => exact iff_of_true (.refl _) (.inl (by simp))
  | none =>
      by_cases hid : (Row.ofQuote ser q).id ∈ book.table.rows.map Row.id
      · rw [Table.insert, dif_pos hid]
        exact iff_of_true (.refl _) (.inr (.inr (.inl ((h.mem_ids_iff hser q).mp hid))))
      · rw [Table.insert, dif_neg hid]
        rw [h.mem_ids_iff hser] at hid
        rcases book.quoteBook.addQuote_cases q with ⟨hp, heq⟩ | ⟨-, e, he, hk, heq⟩ |
          ⟨hp, hk, ⟨qs, hi, heq⟩ | ⟨hi, heq⟩⟩
        · simp only [heq]
          exact iff_of_true (.refl _) (.inr (.inl hp))
        · simp only [heq]
          exact iff_of_true (.refl _) (.inr (.inr (.inr ⟨e, he, hk⟩)))
        · obtain ⟨-, -, -, hperm⟩ := InMemoryQuoteBook.addQuote_ok heq
          simp only [heq]
          refine iff_of_false ?_ ?_
          · intro hp'
            have hlen := (hp'.symm.trans hperm).length_eq
            rw [List.length_cons] at hlen
            omega
          · rintro (hs | hpo | hid' | ⟨e, he, hke⟩)
            · exact hs rfl
            · rw [hp] at hpo
              cases hpo
            · exact hid hid'
            · exact hk e he hke
        · -- the set would refuse it only for a quote with its identifier
          obtain ⟨e, he, hcmp⟩ := OrdSet.exists_eq_of_insert_none hi
          have hmem := InMemoryQuoteBook.mem_quotes_of_mem_quotesOf he
          exact absurd ⟨e, hmem, (Quote.id_eq_of_cmp_eq hcmp).1.symm⟩ hid

theorem Consistent.deleted_by_id (hser : ser.Lossless) (h : Consistent book) (i : QuoteId) :
    (book.table.delete (fun r => r.id = i.data.bytes)).1 = 0 ∧
        (∀ e ∈ book.quoteBook.quotes, e.id ≠ i) ∨
      (book.table.delete (fun r => r.id = i.data.bytes)).1 = 1 ∧
        ∃ e ∈ book.quoteBook.quotes, e.id = i := by
  have hrows := h.filter_rows hser (s := fun r => r.id = i.data.bytes) (p := fun q => q.id = i)
    fun q _ => decide_eq_decide.mpr Row.ofQuote_id_eq_iff
  rw [Table.delete, hrows.length_eq, List.length_map, ← List.countP_eq_length_filter]
  by_cases hex : ∃ e ∈ book.quoteBook.quotes, e.id = i
  · obtain ⟨e, he, rfl⟩ := hex
    refine .inr ⟨?_, e, he, rfl⟩
    rw [← List.count_eq_one_of_mem (h.nodup hser) he, List.count]
    refine List.countP_congr fun q hq => ?_
    simp only [decide_eq_true_eq, beq_iff_eq]
    exact ⟨h.eq_of_id hser hq he, congrArg Quote.id⟩
  · refine .inl ⟨List.countP_eq_zero.mpr ?_, fun e he hid => hex ⟨e, he, hid⟩⟩
    intro e he hid
    exact hex ⟨e, he, of_decide_eq_true hid⟩

/-- The ordered set does not find what stands behind something it is below. -/
theorem Consistent.remove_eq_none_iff (hser : ser.Lossless) (h : Consistent book) {pair : Pair}
    {e : Quote} (he : e ∈ book.quoteBook.quotesOf pair) :
    OrdSet.remove Quote.cmp e (book.quoteBook.quotesOf pair) = none ↔
      Misplaced e (book.quoteBook.quotesOf pair) := by
  obtain ⟨rest, hperm, -⟩ := book.quoteBook.quotes_frame pair [] book.quoteBook.poisoned
  have hn := (List.nodup_append.mp (hperm.nodup_iff.mp (h.nodup hser))).1
  refine OrdSet.remove_eq_none_iff hn he ?_
  intro y hy
  constructor
  · intro hcmp
    exact h.eq_of_id hser (InMemoryQuoteBook.mem_quotes_of_mem_quotesOf hy)
      (InMemoryQuoteBook.mem_quotes_of_mem_quotesOf he) (Quote.id_eq_of_cmp_eq hcmp).1.symm
  · rintro rfl
    exact Quote.cmp_self y

theorem removeQuoteByIdBody_perm_iff (hser : ser.Lossless) (h : Consistent book) (i : QuoteId) :
    (removeQuoteByIdBody faults i book).2.quoteBook.quotes.Perm book.quoteBook.quotes ↔
      faults.statement ≠ none ∨ book.quoteBook.poisoned = true ∨
        LeavesInner book.quoteBook (.removeQuoteById i) := by
  unfold removeQuoteByIdBody
  cases faults.statement with
  | some e => exact iff_of_true (.refl _) (.inl (by simp))
  | none =>
      rcases hd : book.table.delete (fun r => r.id = i.data.bytes) with ⟨numDeleted, table⟩
      have hnum := h.deleted_by_id hser i
      rw [hd] at hnum
      rcases hnum with ⟨rfl, hnone⟩ | ⟨rfl, e₀, he₀, hid₀⟩
      · exact iff_of_true (.refl _) (.inr (.inr (.inl hnone)))
      · rcases book.quoteBook.removeQuoteById_cases i with ⟨hp, heq⟩ | ⟨-, hnone, -⟩ |
          ⟨hp, pair, e, he, hid, ⟨rest, hr, heq⟩ | ⟨hr, heq⟩⟩
        · simp only [heq]
          exact iff_of_true (.refl _) (.inr (.inl hp))
        · exact absurd hid₀ (hnone e₀ he₀)
        · obtain ⟨-, -, -, -, y, -, hperm⟩ := InMemoryQuoteBook.removeQuoteById_ok heq
          simp only [heq]
          refine iff_of_false ?_ ?_
          · intro hp'
            have hlen := (hp'.trans hperm).length_eq
            rw [List.length_cons] at hlen
            omega
          · rintro (hs | hpo | hnone | ⟨pair', e', hid', hmis⟩)
            · exact hs rfl
            · rw [hp] at hpo
              cases hpo
            · exact hnone e₀ he₀ hid₀
            · -- there is one quote with the identifier, under one pair
              have he' := hmis.mem
              obtain rfl : e' = e := h.eq_of_id hser
                (InMemoryQuoteBook.mem_quotes_of_mem_quotesOf he')
                (InMemoryQuoteBook.mem_quotes_of_mem_quotesOf he) (hid'.trans hid.symm)
              obtain rfl := InMemoryQuoteBook.pair_unique (h.nodup hser) he' he
              rw [(h.remove_eq_none_iff hser he').mpr hmis] at hr
              cases hr
        · simp only [heq]
          refine iff_of_true (.refl _) (.inr (.inr (.inr ⟨pair, e, hid, ?_⟩)))
          exact (h.remove_eq_none_iff hser he).mp hr

theorem removeQuotesByKeyImage_perm_iff (k : KeyImage) :
    (removeQuotesBody faults (hasKeyImage k) (·.removeQuotesByKeyImage k)
        book).2.quoteBook.quotes.Perm book.quoteBook.quotes ↔
      faults.statement ≠ none ∨ book.quoteBook.poisoned = true ∨
        LeavesInner book.quoteBook (.removeQuotesByKeyImage k) := by
  unfold removeQuotesBody
  cases faults.statement with
  | some e => exact iff_of_true (.refl _) (.inl (by simp))
  | none =>
      simp only [InMemoryQuoteBook.removeQuotesByKeyImage_eq]
      cases hp : book.quoteBook.poisoned with
      | true => exact iff_of_true (.refl _) (.inr (.inl rfl))
      | false =>
          -- whether the numbers agree makes no difference in memory
          simp only [Bool.false_eq_true, if_false, apply_ite Prod.snd, ite_self, ne_eq,
            not_true_eq_false, false_or]
          rw [InMemoryQuoteBook.drain_perm_iff]
          simp only [decide_eq_false_iff_not, LeavesInner]

theorem keyImage_bodySound (hser : ser.Lossless) (h : Consistent book) (k : KeyImage) :
    BodySound book (removeQuotesBody faults (hasKeyImage k)
      (·.removeQuotesByKeyImage k) book) :=
  removeQuotesBody_sound hser h
    (fun _ _ => decide_eq_decide.mpr Row.ofQuote_keyImage_eq_iff)
    (fun inner => inner.removeQuotesByKeyImage_eq k)

/-- The queries answer or report the lock; they have no assertion. -/
theorem query_ne_panic (inner : InMemoryQuoteBook) (f : Outcome Error α)
    (g : α → Response) (hf : ∃ a, f = if inner.poisoned then .err .lockPoisoned else .ok a)
    (m : String) : f.map g ≠ .panic m := by
  obtain ⟨a, rfl⟩ := hf
  split <;> simp

theorem apply_query {call : Call} (hq : IsQuery call) :
    (apply mc faults book call).2 = book ∧ ∀ m, (apply mc faults book call).1 ≠ .panic m := by
  cases call with
  | getQuotes pair range limit => exact ⟨rfl, query_ne_panic book.quoteBook _ _ ⟨_, rfl⟩⟩
  | getQuoteIds pair =>
      cases pair with
      | some pair => exact ⟨rfl, query_ne_panic book.quoteBook _ _ ⟨_, rfl⟩⟩
      | none => exact ⟨rfl, query_ne_panic book.quoteBook _ _ ⟨_, rfl⟩⟩
  | getQuoteById i => exact ⟨rfl, query_ne_panic book.quoteBook _ _ ⟨_, rfl⟩⟩
  | numScis => exact ⟨rfl, query_ne_panic book.quoteBook _ _ ⟨_, rfl⟩⟩
  | _ => exact absurd hq id

theorem keepsStores_apply_iff (hser : ser.Lossless) (h : Consistent book) {call : Call}
    (hcall : IsUpdate call) :
    KeepsStores book (apply mc faults book call) ↔ CommitHarmless book faults call := by
  unfold CommitHarmless
  cases call with
  | addQuote q =>
      rw [← addQuoteBody_perm_iff hser h]
      exact (keepsStores_map_iff ..).trans
        (keepsStores_transact_iff h (addQuoteBody_sound hser h q))
  | removeQuoteById i =>
      rw [← removeQuoteByIdBody_perm_iff hser h]
      exact (keepsStores_map_iff ..).trans
        (keepsStores_transact_iff h (removeQuoteByIdBody_sound hser h i))
  | removeQuotesByKeyImage k =>
      rw [← removeQuotesByKeyImage_perm_iff]
      exact (keepsStores_map_iff ..).trans
        (keepsStores_transact_iff h (keyImage_bodySound hser h k))
  | _ => exact absurd hcall id

theorem KeepsStores.consistent {r : Outcome Error α × SqliteQuoteBook ser}
    (hr : KeepsStores book r) (h : Consistent book) : Consistent r.2 := by
  obtain ⟨r, book'⟩ := r
  cases r with
  | ok a => exact hr
  | err e => exact (show book' = book from hr) ▸ h
  | panic m => exact hr.1

/-! ## Runs -/

/-- A call under some failures, or the inner map being walked in another order from now
on. -/
inductive Action where
  | call (faults : Faults) (call : Call)
  | rehash (scis : AssocMap Pair (List Quote))

def step (mc : McCore) (book : SqliteQuoteBook ser) : Action → Option (SqliteQuoteBook ser)
  | .call faults call => some (apply mc faults book call).2
  | .rehash scis => some ⟨book.table, ⟨scis, book.quoteBook.poisoned⟩⟩

/-- Updates and queries with any failures, as long as no `COMMIT` fails to make final
what has happened in memory. -/
def CommitsHarmlessly (book : SqliteQuoteBook ser) : Action → Prop
  | .call faults call => IsUpdate call ∧ CommitHarmless book faults call ∨ IsQuery call
  | .rehash scis => book.quoteBook.scis.Reorder scis

theorem consistent_step (hser : ser.Lossless) {book' : SqliteQuoteBook ser} {a : Action}
    (h : Consistent book) (hg : CommitsHarmlessly book a) (hs : step mc book a = some book') :
    Consistent book' := by
  cases a with
  | call faults call =>
      obtain rfl := Option.some.inj hs
      rcases hg with ⟨hcall, hharm⟩ | hcall
      · exact ((keepsStores_apply_iff hser h hcall).mpr hharm).consistent h
      · rw [(apply_query hcall).1]
        exact h
  | rehash scis =>
      obtain rfl := Option.some.inj hs
      exact h.trans (hg.values.flatten.map _)

noncomputable def oneQuoteBook : SqliteQuoteBook sampleSerial :=
  (apply sampleCore .none ⟨.empty, .default⟩ (.addQuote (sampleQuote 1 10 20 0 1))).2

theorem toInt_toInt64 (t : UInt64) :
    t.toInt64.toInt = if t.toNat < 2 ^ 63 then (t.toNat : Int) else t.toNat - 2 ^ 64 := by
  show t.toBitVec.toInt = _
  rw [BitVec.toInt_eq_toNat_cond]
  simp only [UInt64.toNat_toBitVec]
  split <;> split <;> omega

/-- Tombstones that the cast makes negative are never selected, nor are they reached. -/
theorem tombstoneReached_ofQuote {c : Nat} (hc : c < 2 ^ 63) (q : Quote) :
    tombstoneReached c (Row.ofQuote ser q) = true ↔
      q.tombstoneBlock ≠ 0 ∧ q.tombstoneBlock.toNat ≤ c := by
  have hzero : q.tombstoneBlock ≠ 0 ↔ q.tombstoneBlock.toNat ≠ 0 := by
    rw [ne_eq, ← UInt64.toNat_inj]
    rfl
  have hlt := q.tombstoneBlock.toNat_lt
  simp only [tombstoneReached, Row.ofQuote, Bool.and_eq_true, decide_eq_true_eq,
    Int64.lt_iff_toInt_lt, Int64.le_iff_toInt_le, Int64.toInt_ofNat_of_lt hc, toInt_toInt64, hzero,
    Int64.toInt_zero]
  split <;> omega

theorem length_filter_eq_iff {l : List α} {p q : α → Bool} (h : ∀ x, p x = true → q x = true) :
    (l.filter q).length = (l.filter p).length ↔ ∀ x ∈ l, q x = true → p x = true := by
  have hpq : l.filter p = (l.filter q).filter p := by
    rw [List.filter_filter]
    refine List.filter_congr ?_
    intro x _
    cases hp : p x with
    | true => simp [h x hp]
    | false => simp
  rw [hpq, eq_comm, List.length_filter_eq_length_iff]
  simp only [List.mem_filter, and_imp]

/-- What is reached is expired; what is expired is reached unless it is too far ahead. -/
theorem expired_of_reached {m c : Nat} (hrule : InMemoryQuoteBook.TombstoneRule mc m)
    (hc : c < 2 ^ 63) {q : Quote} (h : tombstoneReached c (Row.ofQuote ser q) = true) :
    InMemoryQuoteBook.expired mc c q = true := by
  obtain ⟨h0, hle⟩ := (tombstoneReached_ofQuote hc q).mp h
  exact (InMemoryQuoteBook.expired_iff hrule c q).mpr ⟨h0, .inl hle⟩

theorem expired_imp_reached_iff {m c : Nat} (hrule : InMemoryQuoteBook.TombstoneRule mc m)
    (hc : c < 2 ^ 63) (q : Quote) :
    (InMemoryQuoteBook.expired mc c q = true → tombstoneReached c (Row.ofQuote ser q) = true) ↔
      q.tombstoneBlock.toNat ≤ c + m := by
  rw [← InMemoryQuoteBook.expired_iff_reached_iff hrule, ← tombstoneReached_ofQuote hc q]
  exact ⟨fun h => ⟨h, expired_of_reached hrule hc⟩, Iff.mp⟩

theorem tombstone_ne_lenMismatch_iff {c : Nat} (hp : book.quoteBook.poisoned = false) :
    (removeQuotesByTombstoneBlock mc .none c book).1 ≠ .panic lenMismatch ↔
      (book.quoteBook.quotes.filter (InMemoryQuoteBook.expired mc c)).length =
        (book.table.rows.filter (tombstoneReached c)).length := by
  simp only [removeQuotesByTombstoneBlock, transact, immediateTransaction, Faults.none,
    removeQuotesBody, InMemoryQuoteBook.removeQuotesByTombstoneBlock_eq, hp, Bool.false_eq_true,
    if_false, Table.delete]
  by_cases hlen : (book.quoteBook.quotes.filter (InMemoryQuoteBook.expired mc c)).length =
      (book.table.rows.filter (tombstoneReached c)).length
  · simp [hlen]
  · simp [hlen]

/-- **The `WHERE` clause selects what the inner book removes, and the assertion holds,
exactly when no tombstone is more than the maximum ahead.** -/
theorem selects_expired_iff {m c : Nat} (hrule : InMemoryQuoteBook.TombstoneRule mc m)
    (hser : ser.Lossless) (hc : c < 2 ^ 63) (h : Consistent book)
    (hp : book.quoteBook.poisoned = false) :
    (((book.table.rows.filter (tombstoneReached c)).map (Row.toQuote ser)).Perm
        ((book.quoteBook.quotes.filter (InMemoryQuoteBook.expired mc c)).map Except.ok) ↔
      ∀ q ∈ book.quoteBook.quotes, q.tombstoneBlock.toNat ≤ c + m) ∧
    ((removeQuotesByTombstoneBlock mc .none c book).1 ≠ .panic lenMismatch ↔
      ∀ q ∈ book.quoteBook.quotes, q.tombstoneBlock.toNat ≤ c + m) := by
  have hreached : ∀ q : Quote, tombstoneReached c (Row.ofQuote ser q) = true →
      InMemoryQuoteBook.expired mc c q = true := fun q => expired_of_reached hrule hc
  have hrows := h.filter_rows hser (s := tombstoneReached c)
    (p := fun q => tombstoneReached c (Row.ofQuote ser q)) (fun _ _ => rfl)
  have hfar : (∀ q ∈ book.quoteBook.quotes, InMemoryQuoteBook.expired mc c q = true →
      tombstoneReached c (Row.ofQuote ser q) = true) ↔
      ∀ q ∈ book.quoteBook.quotes, q.tombstoneBlock.toNat ≤ c + m :=
    forall₂_congr fun q _ => expired_imp_reached_iff hrule hc q
  -- both statements are about the same two numbers
  have hlen : (book.quoteBook.quotes.filter (InMemoryQuoteBook.expired mc c)).length =
      (book.table.rows.filter (tombstoneReached c)).length ↔
      ∀ q ∈ book.quoteBook.quotes, q.tombstoneBlock.toNat ≤ c + m := by
    rw [hrows.length_eq, List.length_map, length_filter_eq_iff hreached]
    exact hfar
  refine ⟨⟨?_, ?_⟩, (tombstone_ne_lenMismatch_iff hp).trans hlen⟩
  · intro hperm
    refine hlen.mp ?_
    simpa using hperm.length_eq.symm
  · intro hle
    have hdec := hrows.map (Row.toQuote ser)
    rw [List.map_map] at hdec
    refine hdec.trans (.of_eq ?_)
    rw [← List.filter_congr fun q hq => Bool.eq_iff_iff.mpr ⟨hreached q, hfar.mpr hle q hq⟩]
    exact List.map_congr_left fun q _ => Row.toQuote_ofQuote hser q

noncomputable def farTombstoneBook : SqliteQuoteBook sampleSerial :=
  (apply sampleCore .none ⟨.empty, .default⟩ (.addQuote (sampleQuote 1 10 20 30000 1))).2

theorem farTombstoneBook_consistent : Consistent farTombstoneBook := by
  rw [consistent_iff sampleSerial_lossless]
  exact .refl _

/-- At block 0, where the maximum is 20160, the assertion fails; at block 10000 it
holds. -/
theorem farTombstoneBook_selects_iff :
    (removeQuotesByTombstoneBlock sampleCore .none 0 farTombstoneBook).1 = .panic lenMismatch ∧
    (removeQuotesByTombstoneBlock sampleCore .none 10000 farTombstoneBook).1 ≠
      .panic lenMismatch := by
  have hiff := fun c hc => (selects_expired_iff (c := c)
    InMemoryQuoteBook.sampleCore_tombstoneRule sampleSerial_lossless hc farTombstoneBook_consistent
    rfl).2
  refine ⟨?_, ?_⟩
  · by_contra hne
    exact absurd ((hiff 0 (by decide)).mp hne _ (List.mem_singleton.mpr rfl)) (by decide)
  · refine (hiff 10000 (by decide)).mpr ?_
    intro q hq
    obtain rfl := List.mem_singleton.mp hq
    decide

/-- The two predicates disagree on a tombstone the submitter chose. -/
theorem selects_differs_from_expired : ¬ ∀ (c : Nat) (book : SqliteQuoteBook sampleSerial),
    c < 2 ^ 63 → Consistent book → book.quoteBook.poisoned = false →
      (removeQuotesByTombstoneBlock sampleCore .none c book).1 ≠ .panic lenMismatch := by
  intro h
  exact h 0 farTombstoneBook (by decide) farTombstoneBook_consistent rfl rfl

end SqliteQuoteBook
end Deqs
