/-
# `SqliteQuoteBook::new` — the book after a restart

Opening the book loads every row of the table into a fresh quote book and gives up at the
first one that does not decode or is refused:

    for row in rows { quote_book.add_quote(&row.try_into()?)? }

The table's own constraint is the primary key.  That no two rows share a pair and a key
image, which is what the fresh book checks, is enforced nowhere in SQL: it is left over
from the inner book that every row had to pass before its transaction was committed.  So
whether the book opens depends on its whole history, and the invariant is the one of the
previous modules, kept along every run of successful operations:

* the rows decode to the quotes of the inner book (`Consistent`),
* these have distinct keys (`Keyed`).

From there the order of the rows does not matter: quotes with distinct keys are accepted
in any order.  The book that results holds the same quotes; the sets of one pair may list
them in another order only if `Quote::cmp` does not order them.
-/
import Deqs.Book.Mirror

namespace Deqs
namespace SqliteQuoteBook

variable {mc : McCore} {S : Set Quote} {ser : Serial} {book book' : SqliteQuoteBook ser}

/-! ## Opening the book -/

/-- Where the database fails while the book is opened: taking a connection, the
migrations, counting the rows, loading them. -/
structure OpenFaults where
  conn : Option String
  migrations : Option String
  count : Option String
  load : Option String
deriving DecidableEq

def OpenFaults.none : OpenFaults := ⟨.none, .none, .none, .none⟩

/-- The loop over the rows.  The percentage it logs is a division by the number of rows
counted before. -/
def loadRows (ser : Serial) (numQuotes : Nat) :
    List Row → InMemoryQuoteBook → Outcome Error InMemoryQuoteBook
  | [], quoteBook => .ok quoteBook
  | row :: rows, quoteBook =>
      if numQuotes = 0 then .panic "attempt to divide by zero"
      else
        match row.toQuote ser with
        | .error e => .err e
        | .ok quote =>
            match quoteBook.addQuote quote with
            | (.ok _, quoteBook) => loadRows ser numQuotes rows quoteBook
            | (.err e, _) => .err e
            | (.panic m, _) => .panic m

/-- `SqliteQuoteBook::new`.  `rows` are the rows of the table in the order the query
returns them. -/
def new (faults : OpenFaults) (table : Table ser) (rows : List Row)
    (quoteBook : InMemoryQuoteBook) : Outcome Error (SqliteQuoteBook ser) :=
  match faults.conn with
  | some e => .err (.implementationSpecific s!"r2d2 error: {e}")
  | none =>
      match faults.migrations with
      | some e => .err (.implementationSpecific s!"run pending migrations: {e}")
      | none =>
          match faults.count with
          | some e => .err (dieselError e)
          | none =>
              match faults.load with
              | some e => .err (dieselError e)
              | none => (loadRows ser table.rows.length rows quoteBook).map (⟨table, ·⟩)

/-- **Rows of quotes with distinct keys are all accepted.**  By induction on the rows; the
invariant is that the keys still to come are not in the book. -/
theorem loadRows_ofQuote (hS : Genuine mc S) (hser : ser.Lossless) {n : Nat} (hn : n ≠ 0) :
    ∀ {qs : List Quote} {inner : InMemoryQuoteBook}, inner.Keyed S → inner.poisoned = false →
      (∀ q ∈ qs, q ∈ S) → ((qs ++ inner.quotes).map Quote.key).Nodup →
      ∃ inner', loadRows ser n (qs.map (Row.ofQuote ser)) inner = .ok inner' ∧
        inner'.quotes.Perm (qs ++ inner.quotes) ∧ inner'.Keyed S ∧ inner'.poisoned = false
  | [], inner, hk, hp, _, _ => ⟨inner, rfl, .refl _, hk, hp⟩
  | q :: qs, inner, hk, hp, hqs, hkeys => by
      have hmid : (q :: (qs ++ inner.quotes)).Perm (qs ++ q :: inner.quotes) :=
        List.perm_middle.symm
      rcases hk.addQuote_key hS hp (hqs q List.mem_cons_self) with
        ⟨e, he, hkey, -⟩ | ⟨-, inner₁, hadd, hp₁, hperm, hk₁⟩
      · -- the key of `q` is not in the book yet
        obtain ⟨hnot, -⟩ := List.nodup_cons.mp hkeys
        refine absurd (List.mem_map.mpr ⟨e, ?_, hkey⟩) hnot
        exact List.mem_append_right _ he
      · have hkeys₁ : ((qs ++ inner₁.quotes).map Quote.key).Nodup := by
          refine List.Perm.nodup ?_ hkeys
          exact ((hmid.trans (hperm.symm.append_left qs)).map _)
        obtain ⟨inner', hload, hperm', hk', hp'⟩ := loadRows_ofQuote hS hser hn hk₁ hp₁
          (fun x hx => hqs x (List.mem_cons_of_mem _ hx)) hkeys₁
        refine ⟨inner', ?_, ?_, hk', hp'⟩
        · simp only [List.map_cons, loadRows, if_neg hn, Row.toQuote_ofQuote hser, hadd]
          exact hload
        · exact hperm'.trans ((hperm.append_left qs).trans hmid.symm)

theorem mem_of_loadRows {n : Nat} : ∀ {rows : List Row} {inner inner' : InMemoryQuoteBook},
    loadRows ser n rows inner = .ok inner' → ∀ {q : Quote}, q ∈ inner'.quotes →
      q ∈ inner.quotes ∨ ∃ r ∈ rows, r.toQuote ser = .ok q
  | [], inner, inner', h, q, hq => .inl (Outcome.ok.inj h ▸ hq)
  | row :: rows, inner, inner', h, q, hq => by
      simp only [loadRows] at h
      split at h
      · cases h
      · cases hd : row.toQuote ser with
        | error e => simp [hd] at h
        | ok quote =>
            rcases ha : inner.addQuote quote with ⟨r, inner₁⟩
            simp only [hd, ha] at h
            cases r with
            | err e => cases h
            | panic m => cases h
            | ok u =>
                rcases mem_of_loadRows h hq with hq | ⟨r, hr, hdec⟩
                · obtain ⟨-, -, -, hperm⟩ := InMemoryQuoteBook.addQuote_ok ha
                  rcases List.mem_cons.mp (hperm.mem_iff.mp hq) with rfl | hq
                  · exact .inr ⟨row, List.mem_cons_self, hd⟩
                  · exact .inl hq
                · exact .inr ⟨r, List.mem_cons_of_mem _ hr, hdec⟩

theorem new_ok {faults : OpenFaults} {table : Table ser} {rows : List Row}
    {quoteBook : InMemoryQuoteBook} (h : new faults table rows quoteBook = .ok book) :
    book.table = table ∧
      loadRows ser table.rows.length rows quoteBook = .ok book.quoteBook := by
  unfold new at h
  cases hc : faults.conn with
  | some e => simp [hc] at h
  | none =>
      cases hm : faults.migrations with
      | some e => simp [hc, hm] at h
      | none =>
          cases hn : faults.count with
          | some e => simp [hc, hm, hn] at h
          | none =>
              cases hl : faults.load with
              | some e => simp [hc, hm, hn, hl] at h
              | none =>
                  simp only [hc, hm, hn, hl] at h
                  cases hr : loadRows ser table.rows.length rows quoteBook with
                  | err e => simp [hr] at h
                  | panic m => simp [hr] at h
                  | ok inner =>
                      simp only [hr, Outcome.map, Outcome.ok.injEq] at h
                      subst h
                      exact ⟨rfl, rfl⟩

/-! ## The invariant of successful operations -/

/-- Two stores that agree, on quotes with distinct keys, behind a sound lock. -/
structure Sound (S : Set Quote) (book : SqliteQuoteBook ser) : Prop where
  consistent : Consistent book
  keyed : book.quoteBook.Keyed S
  unpoisoned : book.quoteBook.poisoned = false

theorem sound_empty : Sound S (empty : SqliteQuoteBook ser) :=
  ⟨consistent_empty, InMemoryQuoteBook.keyed_default, rfl⟩

theorem transact_ok {α : Type} {faults : Faults}
    {b : SqliteQuoteBook ser → Outcome Error α × SqliteQuoteBook ser} {a : α}
    (h : (transact faults b book).1 = .ok a) :
    transact faults b book = b book ∧ (b book).1 = .ok a := by
  rcases transact_cases faults b book with ⟨e, heq⟩ | ⟨a', -, heq⟩ |
    ⟨r, heq, ⟨-, hr⟩ | ⟨-, a', e, -, rfl⟩⟩
  · simp [heq] at h
  · exact ⟨heq, heq ▸ h⟩
  · rw [heq] at h
    exact absurd h (hr a)
  · simp [heq] at h

/-- A transaction leaves its inner book alone or as its body left it; in the second case a
panic of the body is its own. -/
theorem transact_inner {α : Type} (faults : Faults)
    (b : SqliteQuoteBook ser → Outcome Error α × SqliteQuoteBook ser)
    (book : SqliteQuoteBook ser) :
    (transact faults b book).2.quoteBook = book.quoteBook ∨
      (transact faults b book).2.quoteBook = (b book).2.quoteBook ∧
        ∀ m, (b book).1 = .panic m → (transact faults b book).1 = .panic m := by
  rcases transact_cases faults b book with ⟨e, heq⟩ | ⟨a, -, heq⟩ |
    ⟨r, heq, ⟨hr, -⟩ | ⟨-, a, e, ha, -⟩⟩
  · exact .inl (by rw [heq])
  · exact .inr (by simp [heq])
  · refine .inr ⟨by rw [heq], ?_⟩
    intro m hm
    rw [heq, ← hr, hm]
  · refine .inr ⟨by rw [heq], ?_⟩
    intro m hm
    simp [ha] at hm

/-- What a call may do to the inner book: nothing, or that very call; and then, if the
inner book panics, so does the call. -/
def Forwards (mc : McCore) (book : SqliteQuoteBook ser) (call : Call)
    (r : Outcome Error Response × SqliteQuoteBook ser) : Prop :=
  r.2.quoteBook = book.quoteBook ∨
    r.2.quoteBook = (book.quoteBook.apply mc call).2 ∧
      ∀ m, (book.quoteBook.apply mc call).1 = .panic m → r.1 = .panic m

theorem forwards_transact {α : Type} {faults : Faults} {call : Call} {f : α → Response}
    {b : SqliteQuoteBook ser → Outcome Error α × SqliteQuoteBook ser}
    (h : Forwards mc book call ((b book).map (.map f) id)) :
    Forwards mc book call ((transact faults b book).map (.map f) id) := by
  rcases transact_inner faults b book with heq | ⟨heq, hpanic⟩
  · exact .inl heq
  · rcases h with h | ⟨h, hm⟩
    · exact .inl (heq.trans h)
    · refine .inr ⟨heq.trans h, ?_⟩
      intro m hinner
      have hb : (b book).1 = .panic m := by
        have hmap := hm m hinner
        rcases hr : b book with ⟨r, book'⟩
        rw [hr] at hmap
        cases r with
        | ok a => cases hmap
        | err e => cases hmap
        | panic m' =>
            cases hmap
            rfl
      rw [Prod.map_fst, hpanic m hb]
      rfl

theorem forwards_removeQuotesBody {faults : Faults} {selected : Row → Bool} {call : Call}
    {remove : InMemoryQuoteBook → Outcome Error (List Quote) × InMemoryQuoteBook}
    {f : List Quote → Response}
    (hcall : book.quoteBook.apply mc call = (remove book.quoteBook).map (.map f) id) :
    Forwards mc book call ((removeQuotesBody faults selected remove book).map (.map f) id) := by
  unfold removeQuotesBody
  cases faults.statement with
  | some e => exact .inl rfl
  | none =>
      right
      rw [hcall]
      rcases remove book.quoteBook with ⟨r, inner⟩
      cases r with
      | ok quotes =>
          simp only
          split
          · exact ⟨rfl, by simp⟩
          · exact ⟨rfl, by simp⟩
      | err e => exact ⟨rfl, by simp⟩
      | panic m => exact ⟨rfl, fun _ h => h⟩

theorem forwards_apply (mc : McCore) (faults : Faults) (book : SqliteQuoteBook ser) (call : Call) :
    Forwards mc book call (apply mc faults book call) := by
  cases call with
  | addQuote q =>
      refine forwards_transact ?_
      simp only [addQuoteBody]
      cases faults.statement with
      | some e => exact .inl rfl
      | none =>
          cases book.table.insert q with
          | none => exact .inl rfl
          | some table => exact .inr ⟨rfl, fun _ h => h⟩
  | removeQuoteById i =>
      refine forwards_transact ?_
      simp only [removeQuoteByIdBody]
      cases faults.statement with
      | some e => exact .inl rfl
      | none =>
          rcases book.table.delete (fun r => r.id = i.data.bytes) with ⟨numDeleted, table⟩
          rcases numDeleted with _ | _ | n
          · exact .inl rfl
          · exact .inr ⟨rfl, fun _ h => h⟩
          · exact .inl rfl
  | removeQuotesByKeyImage k => exact forwards_transact (forwards_removeQuotesBody rfl)
  | removeQuotesByTombstoneBlock c => exact forwards_transact (forwards_removeQuotesBody rfl)
  | getQuotes pair range limit => exact .inl rfl
  | getQuoteIds pair => exact .inl rfl
  | getQuoteById i => exact .inl rfl
  | numScis => exact .inl rfl

/-- What the restart rests on of the consensus layer's check: a tombstone block that has
been reached is refused. -/
def RefusesReached (mc : McCore) : Prop :=
  ∀ (c : Nat) (t : UInt64), t.toNat ≤ c → (mc.validateTombstone c t).toBool = false

theorem sampleCore_refusesReached : RefusesReached sampleCore := by
  intro c t h
  exact (InMemoryQuoteBook.sampleCore_tombstoneRule c t).mpr (.inl h)

/-- What the `WHERE` clause selects, the inner book removes, for any current block: where
the cast of the block index wraps around, the clause only selects less. -/
theorem expired_of_selected (ht : RefusesReached mc) {c : Nat} {q : Quote}
    (h : tombstoneReached c (Row.ofQuote ser q) = true) :
    InMemoryQuoteBook.expired mc c q = true := by
  simp only [tombstoneReached, Row.ofQuote, Bool.and_eq_true, decide_eq_true_eq,
    Int64.lt_iff_toInt_lt, Int64.le_iff_toInt_le, toInt_toInt64, Int64.toInt_zero] at h
  obtain ⟨hpos, hle⟩ := h
  have hc : (Int64.ofNat c).toInt ≤ c := by
    show (BitVec.ofNat 64 c).toInt ≤ c
    rw [BitVec.toInt_eq_toNat_cond, BitVec.toNat_ofNat]
    have := Nat.mod_le c (2 ^ 64)
    split <;> omega
  have hlt := q.tombstoneBlock.toNat_lt
  have hreached : q.tombstoneBlock.toNat ≤ c := by
    split at hpos <;> split at hle <;> omega
  have hset : q.tombstoneBlock ≠ 0 := by
    intro h0
    rw [h0] at hpos
    exact absurd hpos (by decide)
  rw [InMemoryQuoteBook.expired_eq, ht c q.tombstoneBlock hreached]
  simp [hset]

/-- A removal by tombstone block that succeeds removed the same quotes from both stores:
as many, and the one selection is inside the other. -/
theorem tombstone_consistent (hser : ser.Lossless) (ht : RefusesReached mc) (h : Consistent book)
    {faults : Faults} {c : BlockIndex} {removed : List Quote}
    (hr : (removeQuotesByTombstoneBlock mc faults c book).1 = .ok removed) :
    Consistent (removeQuotesByTombstoneBlock mc faults c book).2 := by
  obtain ⟨heq, hok⟩ := transact_ok hr
  rw [removeQuotesByTombstoneBlock, heq]
  have hsel : ∀ q ∈ book.quoteBook.quotes,
      tombstoneReached c (Row.ofQuote ser q) = InMemoryQuoteBook.expired mc c q := by
    have hsub : ∀ q : Quote, tombstoneReached c (Row.ofQuote ser q) = true →
        InMemoryQuoteBook.expired mc c q = true := fun q => expired_of_selected ht
    have hrows := h.filter_rows hser (s := tombstoneReached c)
      (p := fun q => tombstoneReached c (Row.ofQuote ser q)) (fun _ _ => rfl)
    -- the numbers were compared
    have hlen : (book.quoteBook.quotes.filter (InMemoryQuoteBook.expired mc c)).length =
        (book.quoteBook.quotes.filter
          (fun q => tombstoneReached c (Row.ofQuote ser q))).length := by
      simp only [removeQuotesBody, InMemoryQuoteBook.removeQuotesByTombstoneBlock_eq] at hok
      cases hs : faults.statement with
      | some e => simp [hs] at hok
      | none =>
          simp only [hs] at hok
          cases hp : book.quoteBook.poisoned with
          | true => simp [hp] at hok
          | false =>
              simp only [hp, Bool.false_eq_true, if_false] at hok
              split at hok
              · next hl =>
                  rw [hl, Table.delete, hrows.length_eq, List.length_map]
              · cases hok
    intro q hq
    refine Bool.eq_iff_iff.mpr ⟨hsub q, ?_⟩
    exact (length_filter_eq_iff hsub).mp hlen q hq
  exact (removeQuotesBody_sound hser h hsel
    (fun inner => inner.removeQuotesByTombstoneBlock_eq mc c)).ok hok

theorem BodySound.consistent_of_ok {α : Type} {faults : Faults}
    {b : SqliteQuoteBook ser → Outcome Error α × SqliteQuoteBook ser} {f : α → Response}
    {r : Response} (hb : BodySound book (b book))
    (h : ((transact faults b book).map (Outcome.map f) id).1 = .ok r) :
    Consistent ((transact faults b book).map (Outcome.map f) id).2 := by
  rcases ht : transact faults b book with ⟨o, book'⟩
  rw [ht] at h
  cases o with
  | err e => cases h
  | panic m => cases h
  | ok a =>
      have hres : (transact faults b book).1 = .ok a := by rw [ht]
      obtain ⟨heq, hok⟩ := transact_ok hres
      have hc := hb.ok hok
      rw [← heq, ht] at hc
      exact hc

/-- **A successful call keeps the book sound.** -/
theorem Sound.apply_ok (hS : Genuine mc S) (hser : ser.Lossless) (ht : RefusesReached mc)
    (h : Sound S book) {faults : Faults} {call : Call} {r : Response}
    (hcall : ∀ q, call = .addQuote q → q ∈ S) (hr : (apply mc faults book call).1 = .ok r) :
    Sound S (apply mc faults book call).2 := by
  refine ⟨?_, ?_, ?_⟩
  · cases call with
    | addQuote q => exact (addQuoteBody_sound hser h.consistent q).consistent_of_ok hr
    | removeQuoteById i =>
        exact (removeQuoteByIdBody_sound hser h.consistent i).consistent_of_ok hr
    | removeQuotesByKeyImage k =>
        exact (keyImage_bodySound hser h.consistent k).consistent_of_ok hr
    | removeQuotesByTombstoneBlock c =>
        rcases hres : removeQuotesByTombstoneBlock mc faults c book with ⟨o, book'⟩
        simp only [apply, hres] at hr ⊢
        cases o with
        | err e => cases hr
        | panic m => cases hr
        | ok removed =>
            have hok : (removeQuotesByTombstoneBlock mc faults c book).1 = .ok removed := by
              rw [hres]
            have hc := tombstone_consistent hser ht h.consistent hok
            rwa [hres] at hc
    | getQuotes pair range limit => exact h.consistent
    | getQuoteIds pair => exact h.consistent
    | getQuoteById i => exact h.consistent
    | numScis => exact h.consistent
  · rcases forwards_apply mc faults book call with heq | ⟨heq, -⟩
    · rw [heq]
      exact h.keyed
    · rw [heq]
      exact h.keyed.apply hS call hcall
  · rcases forwards_apply mc faults book call with heq | ⟨heq, hpanic⟩
    · rw [heq]
      exact h.unpoisoned
    · rw [heq]
      refine InMemoryQuoteBook.poisoned_apply h.unpoisoned call ?_
      intro m hm
      exact absurd (hr.symm.trans (hpanic m hm)) (by simp)

/-! ## Restarts -/

/-- **A sound book opens again, whatever order the rows come in.** -/
theorem Sound.reopen (hS : Genuine mc S) (hser : ser.Lossless) (h : Sound S book)
    {rows : List Row} (hrows : rows.Perm book.table.rows) :
    ∃ inner, new .none book.table rows .default = .ok ⟨book.table, inner⟩ ∧
      inner.quotes.Perm book.quoteBook.quotes ∧ Sound S ⟨book.table, inner⟩ := by
  obtain ⟨qs, rfl⟩ := Table.exists_quotes_of_written
    (fun r hr => book.table.written r (hrows.mem_iff.mp hr))
  have hperm : qs.Perm book.quoteBook.quotes :=
    (List.map_perm_map_iff (Row.ofQuote_injective hser)).mp
      (hrows.trans ((consistent_iff hser).mp h.consistent))
  have hopen : ∃ inner, loadRows ser book.table.rows.length (qs.map (Row.ofQuote ser)) .default =
      .ok inner ∧ inner.quotes.Perm qs ∧ inner.Keyed S ∧ inner.poisoned = false := by
    cases qs with
    | nil => exact ⟨.default, rfl, .refl _, InMemoryQuoteBook.keyed_default, rfl⟩
    | cons q qs =>
        have hn : book.table.rows.length ≠ 0 := by
          rw [← hrows.length_eq]
          simp
        have hkeys : (((q :: qs) ++ InMemoryQuoteBook.default.quotes).map Quote.key).Nodup := by
          rw [show InMemoryQuoteBook.default.quotes = [] from rfl, List.append_nil]
          exact (hperm.map _).nodup_iff.mpr h.keyed.keys
        obtain ⟨inner, hload, hp, hk, hu⟩ := loadRows_ofQuote hS hser hn
          InMemoryQuoteBook.keyed_default rfl
          (fun x hx => h.keyed.subset (hperm.mem_iff.mp hx)) hkeys
        refine ⟨inner, hload, ?_, hk, hu⟩
        rwa [show InMemoryQuoteBook.default.quotes = [] from rfl, List.append_nil] at hp
  obtain ⟨inner, hload, hp, hk, hu⟩ := hopen
  refine ⟨inner, ?_, hp.trans hperm, ?_, hk, hu⟩
  · simp only [new, OpenFaults.none, hload]
    rfl
  · exact List.Perm.trans h.consistent ((hp.trans hperm).symm.map _)

/-- One thing that happens to the book: an operation, or a restart that loads the rows in
some order. -/
inductive Event where
  | act (a : Action)
  | restart (rows : List Row)

/-- One event; a restart that fails leaves no book. -/
def stepEvent (mc : McCore) (book : SqliteQuoteBook ser) : Event → Option (SqliteQuoteBook ser)
  | .act a => step mc book a
  | .restart rows =>
      match new .none book.table rows .default with
      | .ok book => some book
      | .err _ => none
      | .panic _ => none

/-- The operation succeeds, and what it adds is in `S`; the inner map changes its order; the
rows are loaded as they are, in some order. -/
def Succeeds (mc : McCore) (S : Set Quote) (book : SqliteQuoteBook ser) : Event → Prop
  | .act (.call faults call) =>
      (∃ r, (apply mc faults book call).1 = .ok r) ∧ ∀ q, call = .addQuote q → q ∈ S
  | .act (.rehash scis) => book.quoteBook.scis.Reorder scis
  | .restart rows => rows.Perm book.table.rows

theorem Sound.step (hS : Genuine mc S) (hser : ser.Lossless) (ht : RefusesReached mc)
    (h : Sound S book) {e : Event} (hg : Succeeds mc S book e)
    (hs : stepEvent mc book e = some book') : Sound S book' := by
  cases e with
  | act a =>
      cases a with
      | call faults call =>
          obtain rfl := Option.some.inj hs
          obtain ⟨⟨r, hr⟩, hcall⟩ := hg
          exact h.apply_ok hS hser ht hcall hr
      | rehash scis =>
          obtain rfl := Option.some.inj hs
          exact ⟨List.Perm.trans h.consistent (hg.values.flatten.map _), h.keyed.reorder hg _,
            h.unpoisoned⟩
  | restart rows =>
      obtain ⟨inner, hnew, -, hsound⟩ := h.reopen hS hser hg
      simp only [stepEvent, hnew, Option.some.injEq] at hs
      exact hs ▸ hsound

/-- The same quotes, as far as the queries that do not sort can tell. -/
structure SameQuotes (book book' : SqliteQuoteBook ser) : Prop where
  byId : ∀ i, book.quoteBook.getQuoteById i = book'.quoteBook.getQuoteById i
  ids : ∀ pair, ∃ is is', book.quoteBook.getQuoteIds pair = .ok is ∧
    book'.quoteBook.getQuoteIds pair = .ok is' ∧ is.Perm is'
  count : book.quoteBook.numScis = book'.quoteBook.numScis

/-- Sound books with the same quotes answer the same. -/
theorem Sound.sameQuotes (hS : Genuine mc S) (h : Sound S book) (h' : Sound S book')
    (hperm : book.quoteBook.quotes.Perm book'.quoteBook.quotes) : SameQuotes book book' := by
  have hp := h.unpoisoned.trans h'.unpoisoned.symm
  refine ⟨h.keyed.getQuoteById_congr hS hperm hp, ?_, InMemoryQuoteBook.numScis_congr hperm hp⟩
  intro pair
  cases pair with
  | some pair =>
      refine ⟨(book.quoteBook.quotesOf pair).map Quote.id,
        (book'.quoteBook.quotesOf pair).map Quote.id, ?_, ?_, ?_⟩
      · simp [InMemoryQuoteBook.getQuoteIds, h.unpoisoned]
      · simp [InMemoryQuoteBook.getQuoteIds, h'.unpoisoned]
      · rw [h.keyed.quotesOf_eq, h'.keyed.quotesOf_eq]
        exact (hperm.filter _).map _
  | none =>
      refine ⟨book.quoteBook.quotes.map Quote.id, book'.quoteBook.quotes.map Quote.id, ?_, ?_,
        hperm.map _⟩
      · simp [InMemoryQuoteBook.getQuoteIds, h.unpoisoned, InMemoryQuoteBook.quotes,
          List.map_flatten, List.flatMap_def]
      · simp [InMemoryQuoteBook.getQuoteIds, h'.unpoisoned, InMemoryQuoteBook.quotes,
          List.map_flatten, List.flatMap_def]

/-- **Crash recovery.**  After any run of successful operations and restarts, and in
whatever order the rows are loaded, the book opens and holds the quotes it held. -/
theorem reopens_with_same_quotes (hS : Genuine mc S) (hser : ser.Lossless)
    (ht : RefusesReached mc) {es : List Event}
    (hrun : Lts.Run (stepEvent mc) (Succeeds mc S) (empty : SqliteQuoteBook ser) es book)
    {rows : List Row} (hrows : rows.Perm book.table.rows) :
    ∃ book', new .none book.table rows .default = .ok book' ∧ book'.table = book.table ∧
      book'.quoteBook.quotes.Perm book.quoteBook.quotes ∧ SameQuotes book' book := by
  have hsound : Sound S book :=
    hrun.inv (Sound S) (fun h hg hs => h.step hS hser ht hg hs) sound_empty
  obtain ⟨inner, hnew, hperm, hsound'⟩ := hsound.reopen hS hser hrows
  exact ⟨_, hnew, rfl, hperm, hsound'.sameQuotes hS hsound hperm⟩

/-- Two offers are stored and the book is opened again from its rows, the other way
round. -/
theorem twoOffers_reopen : ∃ book book' : SqliteQuoteBook sampleSerial,
    Lts.Run (stepEvent sampleCore) (Succeeds sampleCore InMemoryQuoteBook.twoOffers) empty
      [.act (.call .none (.addQuote (sampleQuote 1 10 30 0 1))),
        .act (.call .none (.addQuote (sampleQuote 2 10 20 0 2)))] book ∧
    new .none book.table book.table.rows.reverse .default = .ok book' ∧ SameQuotes book' book := by
  have hrun : ∃ book : SqliteQuoteBook sampleSerial,
      Lts.Run (stepEvent sampleCore) (Succeeds sampleCore InMemoryQuoteBook.twoOffers) empty
        [.act (.call .none (.addQuote (sampleQuote 1 10 30 0 1))),
          .act (.call .none (.addQuote (sampleQuote 2 10 20 0 2)))] book := by
    refine ⟨_, .cons ⟨⟨.added, rfl⟩, ?_⟩ rfl (.cons ⟨⟨.added, rfl⟩, ?_⟩ rfl (.nil _))⟩
    · rintro q ⟨⟩
      exact .inl rfl
    · rintro q ⟨⟩
      exact .inr rfl
  obtain ⟨book, hrun⟩ := hrun
  obtain ⟨book', hnew, -, -, hsame⟩ := reopens_with_same_quotes InMemoryQuoteBook.twoOffers_genuine
    sampleSerial_lossless sampleCore_refusesReached hrun (List.reverse_perm _)
  exact ⟨book, book', hrun, hnew, hsame⟩

end SqliteQuoteBook
end Deqs
