/-
# `SqliteQuoteBook` answers as the plain `InMemoryQuoteBook` does

The table is there for restarts; to a caller the SQLite book should be the in-memory
book.  Two rules of uniqueness stand in the way of reading that off the code: the table
refuses a second row with an *identifier*, the inner book a second quote of a pair with a
*key image*, and the refusal comes from a different place each time:

| the quote added | refused by | `existing_quote` comes from |
| :-- | :-- | :-- |
| identifier already there | the primary key, before the inner book is asked | the row |
| only the key image already there | the inner book, and the row is rolled back | memory |

The two agree because an identifier determines the SCI, and the SCI determines pair and
key image; so the row and the quote in memory are the same quote.  In the same way a
removal by identifier that deletes no row would have found no quote.

The argument has two halves.  `apply_eq_inner`: a call on the SQLite book gives, to the
letter, the outcome of that call on its inner book, and leaves the inner book that call
leaves.  `Alike.apply`: two in-memory books that differ only in the order of their maps
answer every call alike.

Both halves need the lock to be sound.  After a panic the plain book answers
`LockPoisoned` to everything, whereas the SQLite book still answers from the table where
the table is enough.  A panic needs an empty quote between two others (`Quote.Splits`);
without one the two books agree for ever (`answers_same_of_not_splits`).
-/
import Deqs.Book.Sqlite

namespace Deqs

/-- The same result: the same answer up to map order, the same error, the same panic. -/
def SameResult : Outcome Error Response → Outcome Error Response → Prop
  | .ok r, .ok r' => r.Same r'
  | .err e, .err e' => e = e'
  | .panic m, .panic m' => m = m'
  | _, _ => False

theorem Response.Same.refl : ∀ r : Response, r.Same r
  | .removed _ => List.Perm.refl _
  | .allIds _ => List.Perm.refl _
  | .added => rfl
  | .quote _ => rfl
  | .quotes _ => rfl
  | .ids _ => rfl
  | .found _ => rfl
  | .count _ => rfl

theorem SameResult.refl (r : Outcome Error Response) : SameResult r r := by
  cases r with
  | ok r => exact Response.Same.refl r
  | err e => rfl
  | panic m => rfl

/-- What a caller sees until the first panic, and that panic. -/
def upToPanic {ε α : Type} : List (Outcome ε α) → List (Outcome ε α)
  | [] => []
  | .panic m :: _ => [.panic m]
  | .ok a :: rs => .ok a :: upToPanic rs
  | .err e :: rs => .err e :: upToPanic rs

theorem upToPanic_eq_self {ε α : Type} :
    ∀ {rs : List (Outcome ε α)}, (∀ m, .panic m ∉ upToPanic rs) → upToPanic rs = rs
  | [], _ => rfl
  | .panic m :: rs, h => absurd List.mem_cons_self (h m)
  | .ok a :: rs, h => by
      have hrs : upToPanic rs = rs :=
        upToPanic_eq_self fun m hm => h m (List.mem_cons_of_mem _ hm)
      rw [upToPanic, hrs]
  | .err e :: rs, h => by
      have hrs : upToPanic rs = rs :=
        upToPanic_eq_self fun m hm => h m (List.mem_cons_of_mem _ hm)
      rw [upToPanic, hrs]

theorem mem_of_mem_upToPanic {ε α : Type} {r : Outcome ε α} :
    ∀ {rs : List (Outcome ε α)}, r ∈ upToPanic rs → r ∈ rs
  | .panic m :: rs, h => by
      obtain rfl := List.mem_singleton.mp h
      exact List.mem_cons_self
  | .ok a :: rs, h => by
      rcases List.mem_cons.mp h with rfl | h
      · exact List.mem_cons_self
      · exact List.mem_cons_of_mem _ (mem_of_mem_upToPanic h)
  | .err e :: rs, h => by
      rcases List.mem_cons.mp h with rfl | h
      · exact List.mem_cons_self
      · exact List.mem_cons_of_mem _ (mem_of_mem_upToPanic h)

theorem sameResult_of_upToPanic {rs rs' : List (Outcome Error Response)}
    (h : List.Forall₂ SameResult (upToPanic rs) (upToPanic rs')) (hrs : ∀ m, .panic m ∉ rs) :
    List.Forall₂ SameResult rs rs' := by
  rw [upToPanic_eq_self fun m hm => hrs m (mem_of_mem_upToPanic hm)] at h
  have hrs' : ∀ m, .panic m ∉ upToPanic rs' := by
    intro m hm
    obtain ⟨i, hi, hget⟩ := List.getElem_of_mem hm
    have hlen := h.length_eq
    have hsame := h.get (i := i) (by omega) hi
    simp only [List.get_eq_getElem, hget] at hsame
    cases hr : rs[i] with
    | ok a => exact absurd hsame (by simp [hr, SameResult])
    | err e => exact absurd hsame (by simp [hr, SameResult])
    | panic m' => exact hrs m' (hr ▸ List.getElem_mem _)
  rwa [upToPanic_eq_self hrs'] at h

/-! ## Books that differ in map order only -/

namespace InMemoryQuoteBook

variable {mc : McCore} {S : Set Quote} {book book' : InMemoryQuoteBook}

theorem Keyed.getQuoteById_congr (hS : Genuine mc S) (hk : Keyed S book)
    (hperm : book.quotes.Perm book'.quotes) (hp : book.poisoned = book'.poisoned) (i : QuoteId) :
    book.getQuoteById i = book'.getQuoteById i := by
  have hfind : book.quotes.find? (fun q => q.id = i) = book'.quotes.find? (fun q => q.id = i) := by
    cases hf : book'.quotes.find? (fun q => q.id = i) with
    | none =>
        simp only [List.find?_eq_none] at hf ⊢
        intro q hq
        exact hf q (hperm.mem_iff.mp hq)
    | some e =>
        have he := hperm.mem_iff.mpr (List.mem_of_find?_eq_some hf)
        have hid : e.id = i := by simpa using List.find?_some hf
        refine Lists.find?_eq_some_of_unique he (by simpa using hid) ?_
        intro b hb hbi
        simp only [decide_eq_true_eq] at hbi
        exact hk.eq_of_id hS hb he (hbi.trans hid.symm)
  simp only [getQuoteById, ← List.find?_flatten, hp]
  simp only [quotes] at hfind
  rw [hfind]

theorem numScis_congr (hperm : book.quotes.Perm book'.quotes)
    (hp : book.poisoned = book'.poisoned) : book.numScis = book'.numScis := by
  have hlen : book.scis.values.flatten.length = book'.scis.values.flatten.length :=
    hperm.length_eq
  simp only [numScis, hp, ← List.length_flatten, hlen]

/-- The same quotes under every pair, in the same order. -/
structure Alike (book book' : InMemoryQuoteBook) : Prop where
  quotesOf : ∀ pair, book.quotesOf pair = book'.quotesOf pair
  quotes : book.quotes.Perm book'.quotes
  poisoned : book.poisoned = book'.poisoned

theorem alike_reorder {scis : AssocMap Pair (List Quote)} (hr : book.scis.Reorder scis) :
    Alike ⟨scis, book.poisoned⟩ book :=
  ⟨quotesOf_reorder hr _, quotes_reorder hr _, rfl⟩

namespace Alike

theorem refl (book : InMemoryQuoteBook) : Alike book book := ⟨fun _ => rfl, .refl _, rfl⟩

theorem symm (h : Alike book book') : Alike book' book :=
  ⟨fun pair => (h.quotesOf pair).symm, h.quotes.symm, h.poisoned.symm⟩

theorem trans {book'' : InMemoryQuoteBook} (h : Alike book book') (h' : Alike book' book'') :
    Alike book book'' :=
  ⟨fun pair => (h.quotesOf pair).trans (h'.quotesOf pair), h.quotes.trans h'.quotes,
    h.poisoned.trans h'.poisoned⟩

theorem set (h : Alike book book') (pair : Pair) (qs : List Quote) (b : Bool) :
    Alike ⟨book.scis.set pair qs, b⟩ ⟨book'.scis.set pair qs, b⟩ := by
  refine ⟨?_, ?_, rfl⟩
  · intro pair'
    rw [quotesOf_set, quotesOf_set, h.quotesOf]
  · obtain ⟨rest, h₁, h₂⟩ := book.quotes_frame pair qs b
    obtain ⟨rest', h₁', h₂'⟩ := book'.quotes_frame pair qs b
    -- the rest is what is not under the pair
    have hrest : rest.Perm rest' := by
      have hboth := h₁.symm.trans (h.quotes.trans h₁')
      rw [h.quotesOf] at hboth
      exact (List.perm_append_left_iff _).mp hboth
    exact h₂.trans ((hrest.append_left qs).trans h₂'.symm)

theorem drain (h : Alike book book') (p : Quote → Bool) :
    Alike (book.drain p).2 (book'.drain p).2 := by
  refine ⟨?_, ?_, h.poisoned⟩
  · intro pair
    rw [quotesOf_drain, quotesOf_drain, h.quotesOf]
  · rw [quotes_drain, quotes_drain]
    exact h.quotes.filter _

/-- What is the same of two results and of the books they leave. -/
def Both (r r' : Outcome Error Response × InMemoryQuoteBook) : Prop :=
  SameResult r.1 r'.1 ∧ Alike r.2 r'.2

theorem orInsert (h : Alike book book') (pair : Pair) (b : Bool) :
    Alike ⟨book.scis.orInsert pair [], b⟩ ⟨book'.scis.orInsert pair [], b⟩ := by
  have hof : ∀ (book : InMemoryQuoteBook) (pair' : Pair),
      InMemoryQuoteBook.quotesOf ⟨book.scis.orInsert pair [], b⟩ pair' = book.quotesOf pair' := by
    intro book pair'
    cases hg : book.scis.get? pair with
    | some qs =>
        rw [AssocMap.orInsert_eq_self hg]
        rfl
    | none =>
        simp only [AssocMap.orInsert, hg, quotesOf_set]
        split
        · next he => simp [InMemoryQuoteBook.quotesOf, ← he, hg]
        · rfl
  refine ⟨?_, ?_, rfl⟩
  · intro pair'
    rw [hof, hof, h.quotesOf]
  · exact (book.quotes_orInsert pair b).trans (h.quotes.trans (book'.quotes_orInsert pair b).symm)

theorem addQuote (h : Alike book book') (q : Quote) :
    Both (book.apply mc (.addQuote q)) (book'.apply mc (.addQuote q)) := by
  simp only [InMemoryQuoteBook.apply, InMemoryQuoteBook.addQuote, h.poisoned, h.quotesOf]
  cases hp : book'.poisoned with
  | true => exact ⟨rfl, h⟩
  | false =>
      simp only [Bool.false_eq_true, if_false]
      cases (book'.quotesOf q.pair).find? (fun e => e.keyImage = q.keyImage) with
      | some e => exact ⟨rfl, h.orInsert q.pair false⟩
      | none =>
          cases OrdSet.insert Quote.cmp q (book'.quotesOf q.pair) with
          | some qs =>
              simp only [AssocMap.set_orInsert]
              exact ⟨rfl, h.set q.pair qs false⟩
          | none => exact ⟨rfl, h.orInsert q.pair true⟩

/-- The set searched is the same one, since only one set holds the identifier. -/
theorem removeQuoteById (hS : Genuine mc S) (hk : Keyed S book) (hk' : Keyed S book')
    (h : Alike book book') (i : QuoteId) :
    Both (book.apply mc (.removeQuoteById i)) (book'.apply mc (.removeQuoteById i)) := by
  simp only [InMemoryQuoteBook.apply]
  cases hp : book.poisoned with
  | true =>
      simp only [InMemoryQuoteBook.removeQuoteById, ← h.poisoned, hp, if_true]
      exact ⟨rfl, h⟩
  | false =>
      rcases hk.removeQuoteById_id hS hp i with ⟨hne, heq⟩ | ⟨e, he, hid, hrem⟩
      · rcases hk'.removeQuoteById_id hS (h.poisoned ▸ hp) i with ⟨-, heq'⟩ | ⟨e', he', hid', -⟩
        · rw [heq, heq']
          exact ⟨rfl, h⟩
        · exact absurd hid' (hne e' (h.quotes.mem_iff.mpr he'))
      · rcases hk'.removeQuoteById_id hS (h.poisoned ▸ hp) i with
          ⟨hne', -⟩ | ⟨e', he', hid', hrem'⟩
        · exact absurd hid (hne' e (h.quotes.mem_iff.mp he))
        · obtain rfl : e = e' :=
            hk.eq_of_id hS he (h.quotes.mem_iff.mpr he') (hid.trans hid'.symm)
          rw [h.quotesOf] at hrem
          rcases hrem with ⟨rest, hr, -, heq⟩ | ⟨hr, heq⟩
          · rcases hrem' with ⟨rest', hr', -, heq'⟩ | ⟨hr', -⟩
            · obtain rfl := Option.some.inj (hr.symm.trans hr')
              rw [heq, heq']
              exact ⟨rfl, h.set e.pair rest false⟩
            · exact absurd (hr.symm.trans hr') (by simp)
          · rcases hrem' with ⟨rest', hr', -, -⟩ | ⟨-, heq'⟩
            · exact absurd (hr.symm.trans hr') (by simp)
            · rw [heq, heq']
              exact ⟨rfl, h.quotesOf, h.quotes, rfl⟩

theorem drainLocked (h : Alike book book') (p : Quote → Bool) :
    Both ((if book.poisoned then (.err .lockPoisoned, book)
        else (.ok (book.quotes.filter p), (book.drain p).2)).map (.map .removed) id)
      ((if book'.poisoned then (.err .lockPoisoned, book')
        else (.ok (book'.quotes.filter p), (book'.drain p).2)).map (.map .removed) id) := by
  rw [h.poisoned]
  cases book'.poisoned with
  | true => exact ⟨rfl, h⟩
  | false => exact ⟨h.quotes.filter p, h.drain p⟩

/-- **One call.**  Keyed books that differ in map order only answer alike. -/
theorem apply (hS : Genuine mc S) (hk : Keyed S book) (hk' : Keyed S book')
    (h : Alike book book') (call : Call) : Both (book.apply mc call) (book'.apply mc call) := by
  cases call with
  | addQuote q => exact h.addQuote q
  | removeQuoteById i => exact h.removeQuoteById hS hk hk' i
  | removeQuotesByKeyImage k =>
      simp only [InMemoryQuoteBook.apply, removeQuotesByKeyImage_eq]
      exact h.drainLocked _
  | removeQuotesByTombstoneBlock c =>
      simp only [InMemoryQuoteBook.apply, removeQuotesByTombstoneBlock_eq]
      exact h.drainLocked _
  | getQuotes pair range limit =>
      refine ⟨?_, h⟩
      simp only [InMemoryQuoteBook.apply, getQuotes, h.poisoned, h.quotesOf]
      exact .refl _
  | getQuoteIds pair =>
      cases pair with
      | some pair =>
          refine ⟨?_, h⟩
          simp only [InMemoryQuoteBook.apply, getQuoteIds, h.poisoned, h.quotesOf]
          exact .refl _
      | none =>
          refine ⟨?_, h⟩
          simp only [InMemoryQuoteBook.apply, getQuoteIds, h.poisoned]
          cases book'.poisoned with
          | true => rfl
          | false =>
              simp only [Bool.false_eq_true, if_false, List.flatMap_def, ← List.map_flatten]
              exact h.quotes.map Quote.id
  | getQuoteById i =>
      refine ⟨?_, h⟩
      simp only [InMemoryQuoteBook.apply, hk.getQuoteById_congr hS h.quotes h.poisoned]
      exact .refl _
  | numScis =>
      refine ⟨?_, h⟩
      simp only [InMemoryQuoteBook.apply, numScis_congr h.quotes h.poisoned]
      exact .refl _

end Alike

theorem Keyed.apply (hS : Genuine mc S) (h : Keyed S book) (call : Call)
    (hcall : ∀ q, call = .addQuote q → q ∈ S) : Keyed S (book.apply mc call).2 := by
  cases call with
  | addQuote q => exact h.addQuote hS (hcall q rfl)
  | removeQuoteById i => exact h.removeQuoteById hS i
  | removeQuotesByKeyImage k =>
      simp only [InMemoryQuoteBook.apply, removeQuotesByKeyImage_eq]
      cases book.poisoned with
      | true => exact h
      | false => exact h.drain _
  | removeQuotesByTombstoneBlock c =>
      simp only [InMemoryQuoteBook.apply, removeQuotesByTombstoneBlock_eq]
      cases book.poisoned with
      | true => exact h
      | false => exact h.drain _
  | getQuotes pair range limit => exact h
  | getQuoteIds pair => cases pair <;> exact h
  | getQuoteById i => exact h
  | numScis => exact h

theorem poisoned_apply (hp : book.poisoned = false) (call : Call)
    (h : ∀ m, (book.apply mc call).1 ≠ .panic m) : (book.apply mc call).2.poisoned = false := by
  cases call with
  | addQuote q =>
      simp only [InMemoryQuoteBook.apply] at h ⊢
      rcases ha : book.addQuote q with ⟨r, book'⟩
      rw [ha] at h
      cases r with
      | ok u => exact (addQuote_ok ha).2.1
      | err e => exact addQuote_err ha ▸ hp
      | panic m => exact absurd rfl (h m)
  | removeQuoteById i =>
      simp only [InMemoryQuoteBook.apply] at h ⊢
      rcases hr : book.removeQuoteById i with ⟨r, book'⟩
      rw [hr] at h
      cases r with
      | ok e => exact (removeQuoteById_ok hr).2.1
      | err e => exact removeQuoteById_err hr ▸ hp
      | panic m => exact absurd rfl (h m)
  | removeQuotesByKeyImage k =>
      simp only [InMemoryQuoteBook.apply, removeQuotesByKeyImage_eq, hp]
      exact hp
  | removeQuotesByTombstoneBlock c =>
      simp only [InMemoryQuoteBook.apply, removeQuotesByTombstoneBlock_eq, hp]
      exact hp
  | getQuotes pair range limit => exact hp
  | getQuoteIds pair => cases pair <;> exact hp
  | getQuoteById i => exact hp
  | numScis => exact hp

end InMemoryQuoteBook

/-! ## The SQLite book is its inner book -/

namespace SqliteQuoteBook

variable {mc : McCore} {S : Set Quote} {ser : Serial} {book book' : SqliteQuoteBook ser}

/-- Without failures a transaction answers as its body does, and keeps what its body made
of the inner book. -/
theorem transact_none {α : Type} (b : SqliteQuoteBook ser → Outcome Error α × SqliteQuoteBook ser)
    (book : SqliteQuoteBook ser) :
    (transact .none b book).1 = (b book).1 ∧
      (transact .none b book).2.quoteBook = (b book).2.quoteBook := by
  simp only [transact, Faults.none, immediateTransaction]
  rcases b book with ⟨r, book'⟩
  cases r with
  | ok a => exact ⟨rfl, rfl⟩
  | err e => exact ⟨rfl, rfl⟩
  | panic m => exact ⟨rfl, rfl⟩

/-- The row that violates the primary key is the row of a quote of the inner book. -/
theorem Consistent.exists_of_insert_none (hser : ser.Lossless) (h : Consistent book) {q : Quote}
    (hi : book.table.insert q = none) :
    ∃ e ∈ book.quoteBook.quotes, e.id = q.id ∧ getById .none book.table q.id = .ok e := by
  have hrows := (consistent_iff hser).mp h
  have hmem : (Row.ofQuote ser q).id ∈ book.table.rows.map Row.id := by
    by_contra hnot
    simp [Table.insert, hnot] at hi
  have hsome : (book.table.rows.find? (fun r => r.id = q.id.data.bytes)).isSome := by
    obtain ⟨r, hr, hid⟩ := List.mem_map.mp hmem
    exact List.find?_isSome.mpr ⟨r, hr, decide_eq_true hid⟩
  obtain ⟨row, hrow⟩ := Option.isSome_iff_exists.mp hsome
  obtain ⟨e, he, rfl⟩ := List.mem_map.mp (hrows.mem_iff.mp (List.mem_of_find?_eq_some hrow))
  have hid : (Row.ofQuote ser e).id = q.id.data.bytes := by simpa using List.find?_some hrow
  refine ⟨e, he, Row.ofQuote_id_eq_iff.mp hid, ?_⟩
  simp only [getById, Faults.none, hrow, Row.toQuote_ofQuote hser]

theorem addQuote_eq_inner (hS : Genuine mc S) (hser : ser.Lossless) (h : Consistent book)
    (hk : book.quoteBook.Keyed S) (hp : book.quoteBook.poisoned = false) {q : Quote} (hq : q ∈ S) :
    (addQuote .none q book).1 = (book.quoteBook.addQuote q).1 ∧
      (addQuote .none q book).2.quoteBook = (book.quoteBook.addQuote q).2 := by
  obtain ⟨h₁, h₂⟩ := transact_none (addQuoteBody .none q) book
  rw [addQuote, h₁, h₂]
  simp only [addQuoteBody, Faults.none]
  cases hi : book.table.insert q with
  | some table => exact ⟨rfl, rfl⟩
  | none =>
      -- the row and the quote in the way in memory have one key
      obtain ⟨e, he, hid, hget⟩ := h.exists_of_insert_none hser hi
      have hkey := hS.key_eq_of_id (hk.subset he) hq hid
      rcases hk.addQuote_key hS hp hq with ⟨e', he', hkey', heq⟩ | ⟨hnew, -⟩
      · obtain rfl := hk.eq_of_key he he' (hkey.trans hkey'.symm)
        rw [heq]
        refine ⟨?_, rfl⟩
        have hviol : uniqueViolation .none book.table q.id = .quoteAlreadyExists e := by
          rw [uniqueViolation, hget]
        exact congrArg Outcome.err hviol
      · exact absurd hkey (hnew e he)

theorem removeQuoteById_eq_inner (hS : Genuine mc S) (hser : ser.Lossless) (h : Consistent book)
    (hk : book.quoteBook.Keyed S) (hp : book.quoteBook.poisoned = false) (i : QuoteId) :
    (removeQuoteById .none i book).1 = (book.quoteBook.removeQuoteById i).1 ∧
      (removeQuoteById .none i book).2.quoteBook = (book.quoteBook.removeQuoteById i).2 := by
  obtain ⟨h₁, h₂⟩ := transact_none (removeQuoteByIdBody .none i) book
  have hrows := h.filter_rows hser (s := fun r => decide (r.id = i.data.bytes))
    (p := fun q => decide (q.id = i)) (fun q _ => decide_eq_decide.mpr Row.ofQuote_id_eq_iff)
  have hnum : (book.table.delete (fun r => r.id = i.data.bytes)).1 =
      (book.quoteBook.quotes.filter (fun q => q.id = i)).length := by
    rw [Table.delete, hrows.length_eq, List.length_map]
  rw [removeQuoteById, h₁, h₂]
  simp only [removeQuoteByIdBody, Faults.none, hnum]
  rcases hk.removeQuoteById_id hS hp i with ⟨hne, heq⟩ | ⟨e, he, hid, -⟩
  · have hnil : book.quoteBook.quotes.filter (fun q => q.id = i) = [] := by
      simpa [List.filter_eq_nil_iff] using hne
    rw [hnil, heq]
    exact ⟨rfl, rfl⟩
  · have hone : (book.quoteBook.quotes.filter (fun q => q.id = i)).length = 1 := by
      refine List.length_eq_one_iff.mpr ⟨e, ?_⟩
      refine List.perm_singleton.mp ?_
      refine (List.perm_ext_iff_of_nodup (hk.nodup.filter _) (List.nodup_singleton e)).mpr ?_
      intro q
      simp only [List.mem_filter, decide_eq_true_eq, List.mem_singleton]
      constructor
      · rintro ⟨hq, hqid⟩
        exact hk.eq_of_id hS hq he (hqid.trans hid.symm)
      · rintro rfl
        exact ⟨he, hid⟩
    rw [hone]
    exact ⟨rfl, rfl⟩

theorem removeQuotesByKeyImage_eq_inner (hser : ser.Lossless) (h : Consistent book)
    (hp : book.quoteBook.poisoned = false) (k : KeyImage) :
    (removeQuotesByKeyImage .none k book).1 = (book.quoteBook.removeQuotesByKeyImage k).1 ∧
      (removeQuotesByKeyImage .none k book).2.quoteBook =
        (book.quoteBook.removeQuotesByKeyImage k).2 := by
  obtain ⟨h₁, h₂⟩ := transact_none
    (removeQuotesBody .none (hasKeyImage k) (·.removeQuotesByKeyImage k)) book
  have hrows := h.filter_rows hser (s := hasKeyImage k) (p := fun q => decide (q.keyImage = k))
    (fun q _ => decide_eq_decide.mpr Row.ofQuote_keyImage_eq_iff)
  have hlen : (book.quoteBook.quotes.filter (fun q => decide (q.keyImage = k))).length =
      (book.table.delete (hasKeyImage k)).1 := by
    rw [Table.delete, hrows.length_eq, List.length_map]
  rw [removeQuotesByKeyImage, h₁, h₂]
  simp only [removeQuotesBody, Faults.none, InMemoryQuoteBook.removeQuotesByKeyImage_eq, hp,
    Bool.false_eq_true, if_false, if_pos hlen]
  exact ⟨trivial, trivial⟩

/-- **One call.**  On a sound lock the SQLite book gives the outcome of its inner book and
leaves the inner book that call leaves. -/
theorem apply_eq_inner (hS : Genuine mc S) (hser : ser.Lossless) (h : Consistent book)
    (hk : book.quoteBook.Keyed S) (hp : book.quoteBook.poisoned = false) {call : Call}
    (hkind : IsUpdate call ∨ IsQuery call) (hcall : ∀ q, call = .addQuote q → q ∈ S) :
    (apply mc .none book call).1 = (book.quoteBook.apply mc call).1 ∧
      (apply mc .none book call).2.quoteBook = (book.quoteBook.apply mc call).2 := by
  have hmap : ∀ {α : Type} {r : Outcome Error α × SqliteQuoteBook ser}
      {r' : Outcome Error α × InMemoryQuoteBook} (f : α → Response),
      r.1 = r'.1 ∧ r.2.quoteBook = r'.2 →
      (r.map (Outcome.map f) id).1 = (r'.map (Outcome.map f) id).1 ∧
        (r.map (Outcome.map f) id).2.quoteBook = (r'.map (Outcome.map f) id).2 := by
    rintro α ⟨r, b⟩ ⟨r', b'⟩ f ⟨rfl, rfl⟩
    exact ⟨rfl, rfl⟩
  cases call with
  | addQuote q => exact hmap _ (addQuote_eq_inner hS hser h hk hp (hcall q rfl))
  | removeQuoteById i => exact hmap _ (removeQuoteById_eq_inner hS hser h hk hp i)
  | removeQuotesByKeyImage k => exact hmap _ (removeQuotesByKeyImage_eq_inner hser h hp k)
  | removeQuotesByTombstoneBlock c => exact absurd hkind (by rintro (h | h) <;> exact h)
  | getQuotes pair range limit => exact ⟨rfl, rfl⟩
  | getQuoteIds pair => cases pair <;> exact ⟨rfl, rfl⟩
  | getQuoteById i => exact ⟨rfl, rfl⟩
  | numScis => exact ⟨rfl, rfl⟩

/-! ## Runs -/

/-- A list of calls on the SQLite book, with no failure of the database.  Before each one
the inner map may be reordered. -/
inductive Answers (mc : McCore) : SqliteQuoteBook ser → List Call →
    List (Outcome Error Response) → SqliteQuoteBook ser → Prop
  | nil (book : SqliteQuoteBook ser) : Answers mc book [] [] book
  | cons {book book' book'' : SqliteQuoteBook ser} {scis : AssocMap Pair (List Quote)}
      {call : Call} {calls : List Call} {r : Outcome Error Response}
      {rs : List (Outcome Error Response)} :
      book.quoteBook.scis.Reorder scis →
      apply mc .none ⟨book.table, ⟨scis, book.quoteBook.poisoned⟩⟩ call = (r, book') →
      Answers mc book' calls rs book'' →
      Answers mc book (call :: calls) (r :: rs) book''

theorem Answers.consistent (hser : ser.Lossless) {calls : List Call}
    {rs : List (Outcome Error Response)} (ha : Answers mc book calls rs book')
    (hkind : ∀ call ∈ calls, IsUpdate call ∨ IsQuery call) (h : Consistent book) :
    Consistent book' := by
  induction ha with
  | nil book => exact h
  | @cons book book₁ book₂ scis call calls r rs hr happly _ ih =>
      have hrehash : step mc book (.rehash scis) =
          some ⟨book.table, ⟨scis, book.quoteBook.poisoned⟩⟩ := rfl
      have h' : Consistent
          (⟨book.table, ⟨scis, book.quoteBook.poisoned⟩⟩ : SqliteQuoteBook ser) := by
        refine consistent_step hser h ?_ hrehash
        exact hr
      have hstep : step mc ⟨book.table, ⟨scis, book.quoteBook.poisoned⟩⟩ (.call .none call) =
          some book₁ := by
        rw [step, happly]
      refine ih (fun c hc => hkind c (List.mem_cons_of_mem _ hc)) ?_
      refine consistent_step hser h' ?_ hstep
      rcases hkind call List.mem_cons_self with hu | hq
      · exact .inl ⟨hu, .inl rfl⟩
      · exact .inr hq

/-- The simulation: the stores agree, and the inner book is the plain one up to map
order. -/
structure Mirrors (S : Set Quote) (plain : InMemoryQuoteBook) (book : SqliteQuoteBook ser) :
    Prop where
  alike : InMemoryQuoteBook.Alike plain book.quoteBook
  keyed : plain.Keyed S
  keyedInner : book.quoteBook.Keyed S
  consistent : Consistent book
  unpoisoned : plain.poisoned = false

theorem Mirrors.reorder {plain : InMemoryQuoteBook} (h : Mirrors S plain book)
    {scis scis' : AssocMap Pair (List Quote)} (hr : plain.scis.Reorder scis)
    (hr' : book.quoteBook.scis.Reorder scis') :
    Mirrors S ⟨scis, plain.poisoned⟩
      ⟨book.table, ⟨scis', book.quoteBook.poisoned⟩⟩ where
  alike := (InMemoryQuoteBook.alike_reorder hr).trans
    (h.alike.trans (InMemoryQuoteBook.alike_reorder hr').symm)
  keyed := h.keyed.reorder hr _
  keyedInner := h.keyedInner.reorder hr' _
  consistent := List.Perm.trans h.consistent (hr'.values.flatten.map _)
  unpoisoned := h.unpoisoned

/-- The step of the simulation: the same result, and unless that is a panic the relation
again. -/
theorem Mirrors.apply (hS : Genuine mc S) (hser : ser.Lossless) {plain : InMemoryQuoteBook}
    (h : Mirrors S plain book) {call : Call} (hkind : IsUpdate call ∨ IsQuery call)
    (hcall : ∀ q, call = .addQuote q → q ∈ S) :
    SameResult (plain.apply mc call).1 (SqliteQuoteBook.apply mc .none book call).1 ∧
      ((∀ m, (plain.apply mc call).1 ≠ .panic m) →
        Mirrors S (plain.apply mc call).2 (SqliteQuoteBook.apply mc .none book call).2) := by
  have hp' : book.quoteBook.poisoned = false := h.alike.poisoned ▸ h.unpoisoned
  obtain ⟨hres, hinner⟩ :=
    apply_eq_inner hS hser h.consistent h.keyedInner hp' hkind hcall
  obtain ⟨hsame, halike⟩ := h.alike.apply hS h.keyed h.keyedInner call
  refine ⟨hres ▸ hsame, ?_⟩
  intro hnp
  refine ⟨hinner ▸ halike, h.keyed.apply hS call hcall, ?_, ?_, ?_⟩
  · rw [hinner]
    exact h.keyedInner.apply hS call hcall
  · have hstep : step mc book (.call .none call) =
        some (SqliteQuoteBook.apply mc .none book call).2 := rfl
    refine consistent_step hser h.consistent ?_ hstep
    exact hkind.imp_left fun hu => ⟨hu, .inl rfl⟩
  · exact InMemoryQuoteBook.poisoned_apply h.unpoisoned call hnp

theorem Mirrors.answers (hS : Genuine mc S) (hser : ser.Lossless)
    {plain plain' : InMemoryQuoteBook} {calls : List Call}
    {rs rs' : List (Outcome Error Response)} (hplain : Deqs.Answers mc plain calls rs plain')
    (hsql : Answers mc book calls rs' book')
    (hkind : ∀ call ∈ calls, IsUpdate call ∨ IsQuery call)
    (hcalls : ∀ q, .addQuote q ∈ calls → q ∈ S) (h : Mirrors S plain book) :
    List.Forall₂ SameResult (upToPanic rs) (upToPanic rs') := by
  induction hplain generalizing book rs' with
  | nil plain =>
      cases hsql
      exact .nil
  | @cons plain plain₁ _ scis call calls r rs hr happly _ ih =>
      cases hsql with
      | @cons _ book₁ _ scis' _ _ r' rs' hr' happly' hsql =>
          obtain ⟨hsame, hnext⟩ := (h.reorder hr hr').apply hS hser
            (hkind call List.mem_cons_self) (fun q hq => hcalls q (hq ▸ List.mem_cons_self))
          rw [happly, happly'] at hsame hnext
          have hrest : (∀ m, r ≠ .panic m) →
              List.Forall₂ SameResult (upToPanic rs) (upToPanic rs') := by
            intro hnp
            exact ih hsql (fun c hc => hkind c (List.mem_cons_of_mem _ hc))
              (fun q hq => hcalls q (List.mem_cons_of_mem _ hq)) (hnext hnp)
          cases r with
          | ok a =>
              cases r' with
              | ok a' => exact .cons hsame (hrest (by simp))
              | err e => exact absurd hsame id
              | panic m => exact absurd hsame id
          | err e =>
              cases r' with
              | ok a' => exact absurd hsame id
              | err e' => exact .cons hsame (hrest (by simp))
              | panic m => exact absurd hsame id
          | panic m =>
              cases r' with
              | ok a' => exact absurd hsame id
              | err e => exact absurd hsame id
              | panic m' => exact .cons hsame .nil

def empty : SqliteQuoteBook ser := ⟨.empty, .default⟩

theorem consistent_empty : Consistent (empty : SqliteQuoteBook ser) := List.Perm.refl _

theorem mirrors_empty : Mirrors S .default (empty : SqliteQuoteBook ser) where
  alike := .refl _
  keyed := InMemoryQuoteBook.keyed_default
  keyedInner := InMemoryQuoteBook.keyed_default
  consistent := consistent_empty
  unpoisoned := rfl

/-- No call panics on quotes among which none splits two others: the reference never
does. -/
theorem ne_panic_of_not_splits (hS : Genuine mc S)
    (hsplit : ∀ d ∈ S, ∀ x ∈ S, ∀ y ∈ S, ¬ Quote.Splits d x y) {calls : List Call}
    {rs : List (Outcome Error Response)} {plain : InMemoryQuoteBook}
    (hplain : Deqs.Answers mc .default calls rs plain)
    (hcalls : ∀ q, .addQuote q ∈ calls → q ∈ S) (m : String) : .panic m ∉ rs := by
  have hL := (Quote.lawfulOn_iff hS).mpr fun hd hx hy => hsplit _ hd _ hx _ hy
  obtain ⟨hagree, -⟩ := InMemoryQuoteBook.represents_default.answers hS hL hplain hcalls
  intro hm
  obtain ⟨i, hi, hget⟩ := List.getElem_of_mem hm
  have hlen := hagree.length_eq
  have h := hagree.get (i := i) hi (by omega)
  simp only [List.get_eq_getElem, hget] at h
  exact h

/-- **The SQLite book answers as the plain book does**, to every list of calls on quotes
among which no empty one splits two others.  The results are the same call for call, and the
rows decode to the quotes in memory throughout. -/
theorem answers_same_of_not_splits (hS : Genuine mc S) (hser : ser.Lossless)
    (hsplit : ∀ d ∈ S, ∀ x ∈ S, ∀ y ∈ S, ¬ Quote.Splits d x y) {calls : List Call}
    (hkind : ∀ call ∈ calls, IsUpdate call ∨ IsQuery call)
    (hcalls : ∀ q, .addQuote q ∈ calls → q ∈ S) {rs rs' : List (Outcome Error Response)}
    {plain : InMemoryQuoteBook} (hplain : Deqs.Answers mc .default calls rs plain)
    (hsql : Answers mc (empty : SqliteQuoteBook ser) calls rs' book) :
    List.Forall₂ SameResult rs rs' ∧ Consistent book ∧ ∀ m, .panic m ∉ rs := by
  have hnp := ne_panic_of_not_splits hS hsplit hplain hcalls
  have hup := mirrors_empty.answers hS hser hplain hsql hkind hcalls
  exact ⟨sameResult_of_upToPanic hup hnp, hsql.consistent hser hkind consistent_empty, hnp⟩

theorem exists_answers (mc : McCore) : ∀ (calls : List Call) (book : SqliteQuoteBook ser),
    ∃ rs book', Answers mc book calls rs book'
  | [], book => ⟨[], book, .nil book⟩
  | call :: calls, book => by
      obtain ⟨rs, book'', h⟩ := exists_answers mc calls (apply mc .none book call).2
      exact ⟨_, _, .cons (List.Perm.refl _) rfl h⟩

/-- An offer and a rival of it: another SCI for the same input. -/
def rivals : Set Quote := {q | q = sampleQuote 1 10 20 0 1 ∨ q = sampleRival 1 9 10 20 0 2}

theorem rivals_genuine : Genuine sampleCore rivals where
  made := by
    rintro q (rfl | rfl)
    · exact sampleQuote_made ..
    · exact sampleRival_made ..
  collisionFree := by
    rintro q q' (rfl | rfl) (rfl | rfl) <;> decide

/-- The offer, the offer once more (its identifier is taken), the rival (only its key
image is), and the removals. -/
def rivalCalls : List Call :=
  [.addQuote (sampleQuote 1 10 20 0 1), .addQuote (sampleQuote 1 10 20 0 1),
    .addQuote (sampleRival 1 9 10 20 0 2), .getQuoteById ⟨.fill 9⟩,
    .removeQuotesByKeyImage ⟨.fill 1⟩, .removeQuoteById ⟨.fill 1⟩]

theorem rivalCalls_same : ∃ rs rs' plain book,
    Deqs.Answers sampleCore .default rivalCalls rs plain ∧
      Answers sampleCore (empty : SqliteQuoteBook sampleSerial) rivalCalls rs' book ∧
      Consistent book ∧ List.Forall₂ SameResult rs rs' := by
  obtain ⟨rs, plain, hplain⟩ := InMemoryQuoteBook.exists_answers sampleCore rivalCalls .default
  obtain ⟨rs', book, hsql⟩ :=
    exists_answers sampleCore rivalCalls (empty : SqliteQuoteBook sampleSerial)
  have hkind : ∀ call ∈ rivalCalls, IsUpdate call ∨ IsQuery call := by
    simp [rivalCalls, IsUpdate, IsQuery]
  have hcalls : ∀ q, .addQuote q ∈ rivalCalls → q ∈ rivals := by
    intro q hq
    simp only [rivalCalls, List.mem_cons, Call.addQuote.injEq, reduceCtorEq, List.not_mem_nil,
      or_false] at hq
    rcases hq with rfl | rfl | rfl
    · exact .inl rfl
    · exact .inl rfl
    · exact .inr rfl
  have hsplit : ∀ d ∈ rivals, ∀ x ∈ rivals, ∀ y ∈ rivals, ¬ Quote.Splits d x y := by
    rintro d (rfl | rfl) x (rfl | rfl) y (rfl | rfl) <;> decide
  obtain ⟨hsame, hcons, -⟩ := answers_same_of_not_splits rivals_genuine sampleSerial_lossless
    hsplit hkind hcalls hplain hsql
  exact ⟨rs, rs', plain, book, hplain, hsql, hcons, hsame⟩

/-- The three quotes that are in no order are added, one of them is removed, and then a
quote that was never there. -/
def cyclicCalls : List Call :=
  [.addQuote (sampleQuote 1 1 2 0 1), .addQuote (sampleQuote 2 0 0 0 2),
    .addQuote (sampleQuote 3 2 1 0 3), .removeQuoteById ⟨.fill 2⟩, .removeQuoteById ⟨.fill 9⟩]

/-- The first removal panics on both books.  After it the plain book knows only its
poisoned lock, and the SQLite book answers from the table. -/
theorem poisoned_answers_differ :
    (∃ plain, Deqs.Answers sampleCore .default cyclicCalls
      [.ok .added, .ok .added, .ok .added,
        .panic "assertion failed: entries.remove(&element)", .err .lockPoisoned] plain) ∧
    (∃ book, Answers sampleCore (empty : SqliteQuoteBook sampleSerial) cyclicCalls
      [.ok .added, .ok .added, .ok .added,
        .panic "assertion failed: entries.remove(&element)", .err .quoteNotFound] book) ∧
    ¬ SameResult (.err .lockPoisoned) (.err .quoteNotFound) := by
  refine ⟨?_, ?_, by simp [SameResult]⟩
  · exact ⟨_, .cons (List.Perm.refl _) rfl (.cons (List.Perm.refl _) rfl
      (.cons (List.Perm.refl _) rfl (.cons (List.Perm.refl _) rfl
        (.cons (List.Perm.refl _) rfl (.nil _)))))⟩
  · exact ⟨_, .cons (List.Perm.refl _) rfl (.cons (List.Perm.refl _) rfl
      (.cons (List.Perm.refl _) rfl (.cons (List.Perm.refl _) rfl
        (.cons (List.Perm.refl _) rfl (.nil _)))))⟩

end SqliteQuoteBook
end Deqs
