/-
# `InMemoryQuoteBook` — a map of ordered sets behind a lock

    scis : RwLock<HashMap<Pair, BTreeSet<Quote>>>

The map is an `AssocMap`, walked in an order that means nothing; each set is a list
searched by `Quote::cmp` (`OrdSet`).  That is what a `BTreeSet` does with up to 11 quotes of
a pair, ordered or not, and with any number of them that `cmp` does order.  A panic raised
while the lock is held for writing poisons it, and from then on every call answers
`LockPoisoned`: hence the flag.

Every method is a function from the book to an outcome and a book.  What the other
modules use of them is not their text but the lemmas of the second half, one per way a
call can end:

| call | returns | leaves |
| :-- | :-- | :-- |
| `addQuote q` | `ok` | the quotes and `q` |
| | `err` | the very same book |
| `removeQuoteById id` | `ok e`, `e.id = id` | without one quote that `cmp` finds equal to `e` |
| | `err` | the very same book |
| `drain p` | those that satisfy `p` | the others |

None of these needs `Quote::cmp` to be an order.
-/
import Deqs.Lib.AssocMap
import Deqs.Lib.OrdSet
import Deqs.Quote.Order

namespace Deqs

/-! ## Ranges -/

inductive Bound where
  | included (v : UInt64)
  | excluded (v : UInt64)
  | unbounded
deriving DecidableEq

/-- What `RangeBounds<u64>` gives: the two bounds of a range. -/
structure RangeBounds where
  startBound : Bound
  endBound : Bound
deriving DecidableEq

/-- `start..=stop` as a `RangeBounds`. -/
def RangeInclusive.bounds (r : RangeInclusive) : RangeBounds :=
  ⟨.included r.start, .included r.stop⟩

/-- The least amount a start bound admits, by saturating arithmetic. -/
def Bound.first : Bound → UInt64
  | .included v => v
  | .excluded v => if v = UInt64.ofNat (2 ^ 64 - 1) then v else v + 1
  | .unbounded => 0

/-- The greatest amount an end bound admits, by saturating arithmetic. -/
def Bound.last : Bound → UInt64
  | .included v => v
  | .excluded v => if v = 0 then v else v - 1
  | .unbounded => UInt64.ofNat (2 ^ 64 - 1)

def rangeOverlaps (x y : RangeBounds) : Bool :=
  x.startBound.first ≤ y.endBound.last && y.startBound.first ≤ x.endBound.last

/-! ## The book -/

structure InMemoryQuoteBook where
  scis : AssocMap Pair (List Quote)
  poisoned : Bool
deriving DecidableEq

namespace InMemoryQuoteBook

def default : InMemoryQuoteBook := ⟨.empty, false⟩

def quotes (book : InMemoryQuoteBook) : List Quote := book.scis.values.flatten

def quotesOf (book : InMemoryQuoteBook) (pair : Pair) : List Quote :=
  (book.scis.get? pair).getD []

/-- `add_quote`.  For a single pair key images are not repeated, which also excludes a
repeated identifier; hence the assertion. -/
def addQuote (book : InMemoryQuoteBook) (quote : Quote) :
    Outcome Error Unit × InMemoryQuoteBook :=
  if book.poisoned then (.err .lockPoisoned, book)
  else
    let scis := book.scis.orInsert quote.pair []
    match (book.quotesOf quote.pair).find? (fun entry => entry.keyImage = quote.keyImage) with
    | some existingQuote =>
        (.err (.quoteAlreadyExists existingQuote), { book with scis })
    | none =>
        match OrdSet.insert Quote.cmp quote (book.quotesOf quote.pair) with
        | some quotes => (.ok (), { book with scis := scis.set quote.pair quotes })
        | none =>
            (.panic "assertion failed: quotes.insert(quote.clone())",
              { scis, poisoned := true })

/-- What `remove_quote_by_id` does to one set: look the element up by identifier, then
have the set remove it.  `some (none, _)` is the failed assertion. -/
def takeById (id : QuoteId) (entries : List Quote) : Option (Option Quote × List Quote) :=
  match entries.find? (fun entry => entry.id = id) with
  | none => none
  | some element =>
      match OrdSet.remove Quote.cmp element entries with
      | some rest => some (some element, rest)
      | none => some (none, entries)

/-- `remove_quote_by_id`: the first set that holds the identifier gives the quote up. -/
def removeQuoteById (book : InMemoryQuoteBook) (id : QuoteId) :
    Outcome Error Quote × InMemoryQuoteBook :=
  if book.poisoned then (.err .lockPoisoned, book)
  else
    match book.scis.updateFirst (takeById id) with
    | none => (.err .quoteNotFound, book)
    | some (some element, scis) => (.ok element, { book with scis })
    | some (none, scis) =>
        (.panic "assertion failed: entries.remove(&element)", { scis, poisoned := true })

/-- The loop of the two bulk removals: `drain_filter` on every set, the removed quotes
appended. -/
def drain (p : Quote → Bool) (book : InMemoryQuoteBook) : List Quote × InMemoryQuoteBook :=
  (book.scis.values.flatMap (·.filter p),
    { book with scis := book.scis.mapValues (·.filter (fun q => !p q)) })

def removeQuotesByKeyImage (book : InMemoryQuoteBook) (keyImage : KeyImage) :
    Outcome Error (List Quote) × InMemoryQuoteBook :=
  if book.poisoned then (.err .lockPoisoned, book)
  else
    let (removed, book) := book.drain (fun entry => entry.keyImage = keyImage)
    (.ok removed, book)

/-- The filter of `remove_quotes_by_tombstone_block`: a tombstone is set and the
consensus check refuses it at the current block. -/
def expired (mc : McCore) (currentBlockIndex : BlockIndex) (entry : Quote) : Bool :=
  match entry.sci.txIn.inputRules with
  | some rules =>
      rules.maxTombstoneBlock ≠ 0 &&
        !(mc.validateTombstone currentBlockIndex rules.maxTombstoneBlock).toBool
  | none => false

def removeQuotesByTombstoneBlock (mc : McCore) (book : InMemoryQuoteBook)
    (currentBlockIndex : BlockIndex) : Outcome Error (List Quote) × InMemoryQuoteBook :=
  if book.poisoned then (.err .lockPoisoned, book)
  else
    let (removed, book) := book.drain (expired mc currentBlockIndex)
    (.ok removed, book)

/-- The loop of `get_quotes`: collect the quotes that overlap, stop when there are
`limit` of them.  The test follows the push, so a limit of 0 is never met. -/
def collect (range : RangeBounds) (limit : Nat) : List Quote → List Quote → List Quote
  | results, [] => results
  | results, quote :: quotes =>
      if rangeOverlaps range quote.baseRange.bounds then
        let results := results ++ [quote]
        if results.length = limit then results else collect range limit results quotes
      else collect range limit results quotes

def getQuotes (book : InMemoryQuoteBook) (pair : Pair) (range : RangeBounds) (limit : Nat) :
    Outcome Error (List Quote) :=
  if book.poisoned then .err .lockPoisoned
  else .ok (collect range limit [] (book.quotesOf pair))

def getQuoteIds (book : InMemoryQuoteBook) (pair : Option Pair) :
    Outcome Error (List QuoteId) :=
  if book.poisoned then .err .lockPoisoned
  else
    match pair with
    | some pair => .ok ((book.quotesOf pair).map Quote.id)
    | none => .ok (book.scis.values.flatMap (·.map Quote.id))

def getQuoteById (book : InMemoryQuoteBook) (id : QuoteId) : Outcome Error (Option Quote) :=
  if book.poisoned then .err .lockPoisoned
  else .ok (book.scis.values.findSome? (·.find? (fun entry => entry.id = id)))

def numScis (book : InMemoryQuoteBook) : Outcome Error Nat :=
  if book.poisoned then .err .lockPoisoned
  else .ok (book.scis.values.map List.length).sum

/-! ## Contents -/

theorem mem_quotes_of_mem_quotesOf {book : InMemoryQuoteBook} {pair : Pair} {q : Quote}
    (h : q ∈ book.quotesOf pair) : q ∈ book.quotes := by
  unfold quotesOf at h
  cases hg : book.scis.get? pair with
  | none => simp [hg] at h
  | some qs =>
      rw [hg] at h
      exact List.mem_flatten.mpr
        ⟨qs, List.mem_map.mpr ⟨_, AssocMap.get?_eq_some_iff.mp hg, rfl⟩, h⟩

theorem get?_of_mem_quotesOf {book : InMemoryQuoteBook} {pair : Pair} {q : Quote}
    (h : q ∈ book.quotesOf pair) : book.scis.get? pair = some (book.quotesOf pair) := by
  unfold quotesOf at h ⊢
  cases hg : book.scis.get? pair with
  | none => simp [hg] at h
  | some qs => rfl

theorem quotes_frame (book : InMemoryQuoteBook) (pair : Pair) (qs : List Quote) (b : Bool) :
    ∃ rest, book.quotes.Perm (book.quotesOf pair ++ rest) ∧
      (quotes ⟨book.scis.set pair qs, b⟩).Perm (qs ++ rest) :=
  AssocMap.flatten_frame book.scis pair qs

theorem pair_unique {book : InMemoryQuoteBook} (hn : book.quotes.Nodup) {pair pair' : Pair}
    {q : Quote} (h : q ∈ book.quotesOf pair) (h' : q ∈ book.quotesOf pair') : pair = pair' := by
  by_contra hne
  obtain ⟨rest, hperm, hset⟩ := book.quotes_frame pair [] book.poisoned
  have hrest : q ∈ rest := by
    have hkept : q ∈ quotesOf ⟨book.scis.set pair [], book.poisoned⟩ pair' := by
      simpa only [quotesOf, AssocMap.get?_set, if_neg hne] using h'
    exact hset.mem_iff.mp (mem_quotes_of_mem_quotesOf hkept)
  exact (List.nodup_append.mp (hperm.nodup_iff.mp hn)).2.2 q h q hrest rfl

theorem quotes_orInsert (book : InMemoryQuoteBook) (pair : Pair) (b : Bool) :
    (quotes ⟨book.scis.orInsert pair [], b⟩).Perm book.quotes := by
  cases hg : book.scis.get? pair with
  | some qs => rw [AssocMap.orInsert_eq_self hg]; exact .refl _
  | none =>
      obtain ⟨rest, h, h'⟩ := book.quotes_frame pair [] b
      simp only [quotesOf, hg, Option.getD_none] at h
      simpa only [AssocMap.orInsert, hg] using h'.trans h.symm

/-! ## How `add_quote` ends -/

theorem addQuote_cases (book : InMemoryQuoteBook) (quote : Quote) :
    (book.poisoned = true ∧ book.addQuote quote = (.err .lockPoisoned, book)) ∨
    (book.poisoned = false ∧ ∃ e ∈ book.quotesOf quote.pair, e.keyImage = quote.keyImage ∧
      book.addQuote quote = (.err (.quoteAlreadyExists e), book)) ∨
    (book.poisoned = false ∧ (∀ e ∈ book.quotesOf quote.pair, e.keyImage ≠ quote.keyImage) ∧
      ((∃ qs, OrdSet.insert Quote.cmp quote (book.quotesOf quote.pair) = some qs ∧
          book.addQuote quote = (.ok (), ⟨book.scis.set quote.pair qs, false⟩)) ∨
        OrdSet.insert Quote.cmp quote (book.quotesOf quote.pair) = none ∧
          book.addQuote quote = (.panic "assertion failed: quotes.insert(quote.clone())",
            ⟨book.scis.orInsert quote.pair [], true⟩))) := by
  unfold addQuote
  cases hp : book.poisoned with
  | true => exact Or.inl ⟨rfl, rfl⟩
  | false =>
      right
      cases hf : (book.quotesOf quote.pair).find? (fun e => e.keyImage = quote.keyImage) with
      | some e =>
          have he := List.mem_of_find?_eq_some hf
          refine Or.inl ⟨rfl, e, he, by simpa using List.find?_some hf, ?_⟩
          -- the entry was there, so `or_insert` made none
          simp only [Bool.false_eq_true, if_false,
            AssocMap.orInsert_eq_self (get?_of_mem_quotesOf he)]
          rw [← hp]
      | none =>
          refine Or.inr ⟨rfl, by simpa using List.find?_eq_none.mp hf, ?_⟩
          cases hi : OrdSet.insert Quote.cmp quote (book.quotesOf quote.pair) with
          | some qs => exact Or.inl ⟨qs, rfl, by simp [AssocMap.set_orInsert]⟩
          | none => exact Or.inr ⟨rfl, by simp⟩

theorem addQuote_ok {book book' : InMemoryQuoteBook} {quote : Quote}
    (h : book.addQuote quote = (.ok (), book')) :
    book.poisoned = false ∧ book'.poisoned = false ∧
      (∀ e ∈ book.quotesOf quote.pair, e.keyImage ≠ quote.keyImage) ∧
      book'.quotes.Perm (quote :: book.quotes) := by
  rcases book.addQuote_cases quote with
    ⟨-, he⟩ | ⟨-, e, -, -, he⟩ | ⟨hp, hk, ⟨qs, hi, he⟩ | ⟨-, he⟩⟩ <;>
    rw [he] at h <;> simp only [Prod.mk.injEq, reduceCtorEq, false_and, true_and] at h
  subst h
  refine ⟨hp, rfl, hk, ?_⟩
  obtain ⟨rest, h₁, h₂⟩ := book.quotes_frame quote.pair qs false
  exact h₂.trans (((OrdSet.insert_perm hi).append_right rest).trans (h₁.symm.cons quote))

theorem addQuote_err {book book' : InMemoryQuoteBook} {quote : Quote} {e : Error}
    (h : book.addQuote quote = (.err e, book')) : book' = book := by
  rcases book.addQuote_cases quote with
    ⟨-, he⟩ | ⟨-, e, -, -, he⟩ | ⟨-, -, ⟨qs, -, he⟩ | ⟨-, he⟩⟩ <;>
    rw [he] at h <;> simp only [Prod.mk.injEq, reduceCtorEq, false_and] at h <;>
    exact h.2.symm

theorem addQuote_panic {book book' : InMemoryQuoteBook} {quote : Quote} {msg : String}
    (h : book.addQuote quote = (.panic msg, book')) :
    msg = "assertion failed: quotes.insert(quote.clone())" ∧
      book.poisoned = false ∧ book'.poisoned = true ∧ book'.quotes.Perm book.quotes ∧
      (∀ e ∈ book.quotesOf quote.pair, e.keyImage ≠ quote.keyImage) ∧
      ∃ e ∈ book.quotesOf quote.pair, Quote.cmp quote e = .eq := by
  rcases book.addQuote_cases quote with
    ⟨-, he⟩ | ⟨-, e, -, -, he⟩ | ⟨hp, hk, ⟨qs, -, he⟩ | ⟨hi, he⟩⟩ <;>
    rw [he] at h <;> simp only [Prod.mk.injEq, reduceCtorEq, false_and] at h
  obtain ⟨hm, rfl⟩ := h
  exact ⟨(Outcome.panic.inj hm).symm, hp, rfl, book.quotes_orInsert _ _, hk,
    OrdSet.exists_eq_of_insert_none hi⟩

/-! ## How `remove_quote_by_id` ends -/

theorem ne_of_takeById_eq_none {id : QuoteId} {entries : List Quote}
    (h : takeById id entries = none) : ∀ q ∈ entries, q.id ≠ id := by
  unfold takeById at h
  cases hf : entries.find? (fun entry => entry.id = id) with
  | none => simpa using hf
  | some e =>
      simp only [hf] at h
      cases hr : OrdSet.remove Quote.cmp e entries with
      | none => simp [hr] at h
      | some rest => simp [hr] at h

theorem takeById_eq_some {id : QuoteId} {entries entries' : List Quote} {r : Option Quote}
    (h : takeById id entries = some (r, entries')) :
    ∃ e ∈ entries, e.id = id ∧
      (OrdSet.remove Quote.cmp e entries = some entries' ∧ r = some e ∨
        OrdSet.remove Quote.cmp e entries = none ∧ r = none ∧ entries' = entries) := by
  unfold takeById at h
  cases hf : entries.find? (fun entry => entry.id = id) with
  | none => simp [hf] at h
  | some e =>
      refine ⟨e, List.mem_of_find?_eq_some hf, by simpa using List.find?_some hf, ?_⟩
      simp only [hf] at h
      cases hr : OrdSet.remove Quote.cmp e entries with
      | some rest =>
          simp only [hr, Option.some.injEq, Prod.mk.injEq] at h
          exact Or.inl ⟨congrArg some h.2, h.1.symm⟩
      | none =>
          simp only [hr, Option.some.injEq, Prod.mk.injEq] at h
          exact Or.inr ⟨rfl, h.1.symm, h.2.symm⟩

theorem removeQuoteById_cases (book : InMemoryQuoteBook) (id : QuoteId) :
    (book.poisoned = true ∧ book.removeQuoteById id = (.err .lockPoisoned, book)) ∨
    (book.poisoned = false ∧ (∀ q ∈ book.quotes, q.id ≠ id) ∧
      book.removeQuoteById id = (.err .quoteNotFound, book)) ∨
    (book.poisoned = false ∧ ∃ pair, ∃ e ∈ book.quotesOf pair, e.id = id ∧
      ((∃ rest, OrdSet.remove Quote.cmp e (book.quotesOf pair) = some rest ∧
          book.removeQuoteById id = (.ok e, ⟨book.scis.set pair rest, false⟩)) ∨
        OrdSet.remove Quote.cmp e (book.quotesOf pair) = none ∧
          book.removeQuoteById id = (.panic "assertion failed: entries.remove(&element)",
            ⟨book.scis, true⟩))) := by
  unfold removeQuoteById
  cases hp : book.poisoned with
  | true => exact Or.inl ⟨rfl, rfl⟩
  | false =>
      right
      rw [if_neg Bool.false_ne_true]
      cases hu : book.scis.updateFirst (takeById id) with
      | none =>
          refine Or.inl ⟨rfl, ?_, rfl⟩
          intro q hq
          obtain ⟨qs, hqs, hq⟩ := List.mem_flatten.mp hq
          exact ne_of_takeById_eq_none (AssocMap.updateFirst_none.mp hu qs hqs) q hq
      | some r =>
          obtain ⟨r, scis⟩ := r
          obtain ⟨pair, qs, qs', hg, ht, rfl⟩ := AssocMap.updateFirst_some hu
          have hqs : book.quotesOf pair = qs := by simp [quotesOf, hg]
          obtain ⟨e, he, hid, h⟩ := takeById_eq_some ht
          refine Or.inr ⟨rfl, pair, e, hqs ▸ he, hid, ?_⟩
          rw [hqs]
          rcases h with ⟨hr, rfl⟩ | ⟨hr, rfl, rfl⟩
          · exact Or.inl ⟨qs', hr, rfl⟩
          · exact Or.inr ⟨hr, by rw [AssocMap.set_self hg]⟩

/-- The quote returned has the identifier and was in the book; what leaves the set is
whatever `cmp` holds equal to it. -/
theorem removeQuoteById_ok {book book' : InMemoryQuoteBook} {id : QuoteId} {e : Quote}
    (h : book.removeQuoteById id = (.ok e, book')) :
    book.poisoned = false ∧ book'.poisoned = false ∧ e ∈ book.quotes ∧ e.id = id ∧
      ∃ y, Quote.cmp e y = .eq ∧ book.quotes.Perm (y :: book'.quotes) := by
  rcases book.removeQuoteById_cases id with
    ⟨-, he⟩ | ⟨-, -, he⟩ | ⟨hp, pair, e', hmem, hid, ⟨rest, hr, he⟩ | ⟨-, he⟩⟩ <;>
    rw [he] at h <;> simp only [Prod.mk.injEq, reduceCtorEq, false_and, Outcome.ok.injEq] at h
  obtain ⟨rfl, rfl⟩ := h
  refine ⟨hp, rfl, mem_quotes_of_mem_quotesOf hmem, hid, ?_⟩
  obtain ⟨y, hy, hperm⟩ := OrdSet.remove_spec hr
  obtain ⟨others, h₁, h₂⟩ := book.quotes_frame pair rest false
  exact ⟨y, hy, h₁.trans ((hperm.append_right others).trans (h₂.symm.cons y))⟩

theorem removeQuoteById_err {book book' : InMemoryQuoteBook} {id : QuoteId} {e : Error}
    (h : book.removeQuoteById id = (.err e, book')) : book' = book := by
  rcases book.removeQuoteById_cases id with
    ⟨-, he⟩ | ⟨-, -, he⟩ | ⟨-, _, _, -, -, ⟨_, -, he⟩ | ⟨-, he⟩⟩ <;>
    rw [he] at h <;> simp only [Prod.mk.injEq, reduceCtorEq, false_and] at h <;>
    exact h.2.symm

theorem removeQuoteById_panic {book book' : InMemoryQuoteBook} {id : QuoteId} {msg : String}
    (h : book.removeQuoteById id = (.panic msg, book')) :
    msg = "assertion failed: entries.remove(&element)" ∧
      book.poisoned = false ∧ book' = ⟨book.scis, true⟩ ∧ ∃ pair, ∃ e ∈ book.quotesOf pair,
      e.id = id ∧ OrdSet.remove Quote.cmp e (book.quotesOf pair) = none := by
  rcases book.removeQuoteById_cases id with
    ⟨-, he⟩ | ⟨-, -, he⟩ | ⟨hp, pair, e, hmem, hid, ⟨_, -, he⟩ | ⟨hr, he⟩⟩ <;>
    rw [he] at h <;> simp only [Prod.mk.injEq, reduceCtorEq, false_and] at h
  exact ⟨(Outcome.panic.inj h.1).symm, hp, h.2.symm, pair, e, hmem, hid, hr⟩

/-! ## What the bulk removals take -/

@[simp] theorem drain_fst (p : Quote → Bool) (book : InMemoryQuoteBook) :
    (book.drain p).1 = book.quotes.filter p := by
  simp only [drain, quotes, List.filter_flatten, List.flatMap_def]

@[simp] theorem quotes_drain (p : Quote → Bool) (book : InMemoryQuoteBook) :
    (book.drain p).2.quotes = book.quotes.filter (fun q => !p q) :=
  AssocMap.flatten_mapValues_filter book.scis _

theorem drain_eq_self {p : Quote → Bool} {book : InMemoryQuoteBook}
    (h : ∀ q ∈ book.quotes, p q = false) : (book.drain p).2 = book := by
  obtain ⟨scis, b⟩ := book
  simp only [drain, InMemoryQuoteBook.mk.injEq, and_true]
  refine AssocMap.mapValues_eq_self ?_
  intro qs hqs
  refine List.filter_eq_self.mpr ?_
  intro q hq
  simp [h q (List.mem_flatten.mpr ⟨qs, hqs, hq⟩)]

theorem drain_perm_iff {p : Quote → Bool} {book : InMemoryQuoteBook} :
    (book.drain p).2.quotes.Perm book.quotes ↔ ∀ q ∈ book.quotes, p q = false := by
  constructor
  · intro hperm q hq
    rw [quotes_drain] at hperm
    simpa using (List.mem_filter.mp (hperm.mem_iff.mpr hq)).2
  · intro h
    rw [drain_eq_self h]

theorem removeQuotesByKeyImage_eq (book : InMemoryQuoteBook) (keyImage : KeyImage) :
    book.removeQuotesByKeyImage keyImage =
      if book.poisoned then (.err .lockPoisoned, book)
      else (.ok (book.quotes.filter (fun q => q.keyImage = keyImage)),
        (book.drain (fun q => q.keyImage = keyImage)).2) := by
  rw [← drain_fst]
  rfl

theorem removeQuotesByTombstoneBlock_eq (mc : McCore) (book : InMemoryQuoteBook)
    (c : BlockIndex) :
    book.removeQuotesByTombstoneBlock mc c =
      if book.poisoned then (.err .lockPoisoned, book)
      else (.ok (book.quotes.filter (expired mc c)), (book.drain (expired mc c)).2) := by
  rw [← drain_fst]
  rfl

theorem drain_ok {book book' : InMemoryQuoteBook} {p : Quote → Bool} {removed : List Quote}
    (h : (if book.poisoned then (.err .lockPoisoned, book)
      else (.ok (book.quotes.filter p), (book.drain p).2) :
        Outcome Error (List Quote) × InMemoryQuoteBook) = (.ok removed, book')) :
    book.poisoned = false ∧ removed = book.quotes.filter p ∧
      book'.quotes = book.quotes.filter (fun q => !p q) := by
  cases hp : book.poisoned with
  | true => rw [hp] at h; cases h
  | false =>
      rw [hp] at h
      cases h
      exact ⟨rfl, rfl, quotes_drain ..⟩

theorem removeQuotesByKeyImage_ok {book book' : InMemoryQuoteBook} {k : KeyImage}
    {removed : List Quote} (h : book.removeQuotesByKeyImage k = (.ok removed, book')) :
    book.poisoned = false ∧ removed = book.quotes.filter (fun q => q.keyImage = k) ∧
      book'.quotes = book.quotes.filter (fun q => !decide (q.keyImage = k)) :=
  drain_ok (removeQuotesByKeyImage_eq book k ▸ h)

theorem removeQuotesByTombstoneBlock_ok {mc : McCore} {book book' : InMemoryQuoteBook}
    {c : BlockIndex} {removed : List Quote}
    (h : book.removeQuotesByTombstoneBlock mc c = (.ok removed, book')) :
    book.poisoned = false ∧ removed = book.quotes.filter (expired mc c) ∧
      book'.quotes = book.quotes.filter (fun q => !expired mc c q) :=
  drain_ok (removeQuotesByTombstoneBlock_eq mc book c ▸ h)

/-- What a removal does to the contents: the quotes it returns are those that left, and
if it returns none nothing left. -/
structure Removal (book : InMemoryQuoteBook)
    (r : Outcome Error (List Quote) × InMemoryQuoteBook) : Prop where
  ok : ∀ {removed}, r.1 = .ok removed → book.quotes.Perm (removed ++ r.2.quotes)
  kept : (∀ removed, r.1 ≠ .ok removed) → r.2.quotes.Perm book.quotes

theorem Removal.subset {book : InMemoryQuoteBook}
    {r : Outcome Error (List Quote) × InMemoryQuoteBook} (h : Removal book r) :
    r.2.quotes ⊆ book.quotes := by
  obtain ⟨r, book'⟩ := r
  intro q hq
  cases r with
  | ok removed => exact (h.ok rfl).mem_iff.mpr (List.mem_append_right _ hq)
  | err e => exact (h.kept (by simp)).mem_iff.mp hq
  | panic m => exact (h.kept (by simp)).mem_iff.mp hq

theorem removal_drain (book : InMemoryQuoteBook) (p : Quote → Bool) :
    Removal book (if book.poisoned then (.err .lockPoisoned, book)
      else (.ok (book.quotes.filter p), (book.drain p).2)) := by
  cases book.poisoned with
  | true => exact ⟨(fun h => by cases h), fun _ => .refl _⟩
  | false =>
      refine ⟨?_, fun h => absurd rfl (h _)⟩
      rintro _ ⟨⟩
      show book.quotes.Perm (_ ++ (book.drain p).2.quotes)
      rw [quotes_drain]
      exact (List.filter_append_perm p book.quotes).symm

theorem removal_keyImage (book : InMemoryQuoteBook) (k : KeyImage) :
    Removal book (book.removeQuotesByKeyImage k) :=
  removeQuotesByKeyImage_eq book k ▸ book.removal_drain _

theorem removal_tombstone (mc : McCore) (book : InMemoryQuoteBook) (c : BlockIndex) :
    Removal book (book.removeQuotesByTombstoneBlock mc c) :=
  removeQuotesByTombstoneBlock_eq mc book c ▸ book.removal_drain _

/-- The removal by identifier, when the identifier and the timestamp of a quote of the
book determine it. -/
theorem removal_id {book : InMemoryQuoteBook} (id : QuoteId)
    (hb : ∀ a ∈ book.quotes, ∀ b ∈ book.quotes, a.id = b.id → a.timestamp = b.timestamp → a = b) :
    Removal book ((book.removeQuoteById id).map (.map ([·])) fun b => b) := by
  rcases h : book.removeQuoteById id with ⟨r, book'⟩
  cases r with
  | ok e =>
      refine ⟨?_, fun h => absurd rfl (h _)⟩
      rintro _ ⟨⟩
      obtain ⟨-, -, hmem, -, y, hcmp, hperm⟩ := removeQuoteById_ok h
      obtain ⟨hid, ht⟩ := Quote.id_eq_of_cmp_eq hcmp
      have hy : e = y := hb e hmem y (hperm.mem_iff.mpr List.mem_cons_self) hid ht
      exact hy ▸ hperm
  | err e =>
      obtain rfl := removeQuoteById_err h
      exact ⟨(fun h => by cases h), fun _ => .refl _⟩
  | panic m =>
      obtain ⟨-, -, rfl, -⟩ := removeQuoteById_panic h
      exact ⟨(fun h => by cases h), fun _ => .refl _⟩

theorem removeQuoteById_subset (book : InMemoryQuoteBook) (id : QuoteId) :
    (book.removeQuoteById id).2.quotes ⊆ book.quotes := by
  rcases h : book.removeQuoteById id with ⟨r, book'⟩
  intro q hq
  cases r with
  | ok e =>
      obtain ⟨-, -, -, -, y, -, hperm⟩ := removeQuoteById_ok h
      exact hperm.mem_iff.mpr (List.mem_cons_of_mem _ hq)
  | err e => exact removeQuoteById_err h ▸ hq
  | panic m =>
      obtain ⟨-, -, rfl, -⟩ := removeQuoteById_panic h
      exact hq

/-- What the consensus layer's `validate_tombstone` is taken to do: refuse a tombstone
block that is reached, or more than `MAX_TOMBSTONE_BLOCKS` ahead. -/
def TombstoneRule (mc : McCore) (maxTombstoneBlocks : Nat) : Prop :=
  ∀ (c : Nat) (t : UInt64), (mc.validateTombstone c t).toBool = false ↔
    t.toNat ≤ c ∨ c + maxTombstoneBlocks < t.toNat

theorem sampleCore_tombstoneRule : TombstoneRule sampleCore 20160 := by
  intro c t
  by_cases h₁ : t.toNat ≤ c
  · simp [sampleCore, h₁, Except.toBool]
  · by_cases h₂ : c + 20160 < t.toNat
    · simp [sampleCore, h₁, h₂, Except.toBool]
    · simp [sampleCore, h₁, h₂, Except.toBool]

theorem expired_eq (mc : McCore) (c : BlockIndex) (q : Quote) :
    expired mc c q =
      (q.tombstoneBlock ≠ 0 && !(mc.validateTombstone c q.tombstoneBlock).toBool) := by
  unfold expired Quote.tombstoneBlock
  cases q.sci.txIn.inputRules with
  | none => simp
  | some rules => rfl

theorem expired_iff {mc : McCore} {m : Nat} (h : TombstoneRule mc m) (c : Nat)
    (q : Quote) : expired mc c q = true ↔
      q.tombstoneBlock ≠ 0 ∧ (q.tombstoneBlock.toNat ≤ c ∨ c + m < q.tombstoneBlock.toNat) := by
  rw [expired_eq, ← h]
  simp

/-- A quote expires when its tombstone block is reached, and only then, exactly when that
block is not too far ahead. -/
theorem expired_iff_reached_iff {mc : McCore} {m : Nat} (h : TombstoneRule mc m) (c : Nat)
    (q : Quote) :
    (expired mc c q = true ↔ q.tombstoneBlock ≠ 0 ∧ q.tombstoneBlock.toNat ≤ c) ↔
      q.tombstoneBlock.toNat ≤ c + m := by
  rw [expired_iff h]
  constructor
  · intro hiff
    by_contra hfar
    have h0 : q.tombstoneBlock ≠ 0 := by
      intro h0
      rw [h0] at hfar
      exact hfar (Nat.zero_le _)
    obtain ⟨-, hle⟩ := hiff.mp ⟨h0, .inr (by omega)⟩
    omega
  · intro hle
    constructor
    · rintro ⟨h0, hreached | hfar⟩
      · exact ⟨h0, hreached⟩
      · omega
    · rintro ⟨h0, hreached⟩
      exact ⟨h0, .inl hreached⟩

end InMemoryQuoteBook
end Deqs
