/-
# What a book holds, whatever `Quote::cmp` is

The results on `InMemoryQuoteBook` as a sorted list need the quotes to be ordered by
`Quote::cmp`.  Much of what the rest of the system relies on does not: which quote stands
in the way of another is decided by pair and key image alone, the sets are searched from
one end to the other for that, and `Quote::cmp` only decides where a quote is put.

`Keyed S book` is the part of the invariant that survives any comparison:

* every quote is stored under its own pair,
* no two quotes agree in pair and key image,
* the quotes come from `S`.

Under it `add_quote` is an insertion by key (`addQuote_key`): the one quote with that key
is in the way and is returned, or there is none and the quote is added.
-/
import Deqs.Book.InMemory

namespace Deqs

/-- What a book tells its quotes apart by. -/
def Quote.key (q : Quote) : Pair × KeyImage := (q.pair, q.keyImage)

theorem Quote.key_eq_iff {a b : Quote} :
    a.key = b.key ↔ a.pair = b.pair ∧ a.keyImage = b.keyImage := by
  simp [Quote.key]

theorem Genuine.key_eq_of_id {mc : McCore} {S : Set Quote} (hS : Genuine mc S) {a b : Quote}
    (ha : a ∈ S) (hb : b ∈ S) (hid : a.id = b.id) : a.key = b.key := by
  have hsci := hS.sci_eq_of_id ha hb hid
  exact Quote.key_eq_iff.mpr ⟨((hS.made ha).congr_sci (hS.made hb) hsci).1,
    congrArg SignedContingentInput.keyImage hsci⟩

namespace InMemoryQuoteBook

variable {mc : McCore} {S : Set Quote} {book book' : InMemoryQuoteBook}

/-! ## Where the quotes stand after a write -/

theorem quotesOf_set (book : InMemoryQuoteBook) (pair pair' : Pair) (qs : List Quote) (b : Bool) :
    quotesOf ⟨book.scis.set pair qs, b⟩ pair' =
      if pair = pair' then qs else book.quotesOf pair' := by
  simp only [quotesOf, AssocMap.get?_set]
  split <;> rfl

theorem quotesOf_drain (p : Quote → Bool) (book : InMemoryQuoteBook) (pair : Pair) :
    (book.drain p).2.quotesOf pair = (book.quotesOf pair).filter (fun q => !p q) := by
  simp only [quotesOf, drain, AssocMap.get?_mapValues]
  cases book.scis.get? pair with
  | none => rfl
  | some qs => rfl

theorem quotesOf_reorder {scis : AssocMap Pair (List Quote)} (hr : book.scis.Reorder scis)
    (b : Bool) (pair : Pair) : quotesOf ⟨scis, b⟩ pair = book.quotesOf pair := by
  simp only [quotesOf, hr.get?]

theorem quotes_reorder {scis : AssocMap Pair (List Quote)} (hr : book.scis.Reorder scis)
    (b : Bool) : (quotes ⟨scis, b⟩).Perm book.quotes :=
  hr.values.symm.flatten

/-! ## The invariant -/

/-- The book holds quotes of `S`, each under its pair, no two with one key. -/
structure Keyed (S : Set Quote) (book : InMemoryQuoteBook) : Prop where
  ownPair : ∀ {pair q}, q ∈ book.quotesOf pair → q.pair = pair
  keys : (book.quotes.map Quote.key).Nodup
  subset : ∀ {q}, q ∈ book.quotes → q ∈ S

theorem keyed_default : Keyed S default where
  ownPair := fun h => absurd h List.not_mem_nil
  keys := List.nodup_nil
  subset := fun h => absurd h List.not_mem_nil

namespace Keyed

theorem reorder (h : Keyed S book) {scis : AssocMap Pair (List Quote)}
    (hr : book.scis.Reorder scis) (b : Bool) : Keyed S ⟨scis, b⟩ where
  ownPair := fun hq => h.ownPair (quotesOf_reorder hr b _ ▸ hq)
  keys := ((quotes_reorder hr b).map _).nodup_iff.mpr h.keys
  subset := fun hq => h.subset ((quotes_reorder hr b).mem_iff.mp hq)

theorem quotesOf_eq (h : Keyed S book) (pair : Pair) :
    book.quotesOf pair = book.quotes.filter (fun q => q.pair = pair) := by
  refine (AssocMap.filter_flatten_of_key ?_ pair).symm
  rintro ⟨k, qs⟩ he q hq
  have hk : book.quotesOf k = qs := by rw [quotesOf, AssocMap.get?_eq_some_iff.mpr he]; rfl
  exact h.ownPair (hk ▸ hq)

theorem mem_quotesOf_iff (h : Keyed S book) {pair : Pair} {q : Quote} :
    q ∈ book.quotesOf pair ↔ q ∈ book.quotes ∧ q.pair = pair := by
  rw [h.quotesOf_eq]
  simp

theorem nodup (h : Keyed S book) : book.quotes.Nodup := h.keys.of_map _

theorem eq_of_key (h : Keyed S book) {a b : Quote} (ha : a ∈ book.quotes)
    (hb : b ∈ book.quotes) (hk : a.key = b.key) : a = b :=
  List.inj_on_of_nodup_map h.keys ha hb hk

theorem eq_of_id (hS : Genuine mc S) (h : Keyed S book) {a b : Quote} (ha : a ∈ book.quotes)
    (hb : b ∈ book.quotes) (hid : a.id = b.id) : a = b :=
  h.eq_of_key ha hb (hS.key_eq_of_id (h.subset ha) (h.subset hb) hid)

theorem set (h : Keyed S book) {pair : Pair} {qs : List Quote} {b : Bool}
    (hown : ∀ q ∈ qs, q.pair = pair)
    (hkeys : ((quotes ⟨book.scis.set pair qs, b⟩).map Quote.key).Nodup)
    (hsub : ∀ q ∈ quotes ⟨book.scis.set pair qs, b⟩, q ∈ S) :
    Keyed S ⟨book.scis.set pair qs, b⟩ := by
  refine ⟨?_, hkeys, fun hq => hsub _ hq⟩
  intro pair' q hq
  rw [quotesOf_set] at hq
  split at hq
  · next he => exact he ▸ hown q hq
  · exact h.ownPair hq

theorem drain (h : Keyed S book) (p : Quote → Bool) : Keyed S (book.drain p).2 := by
  have hsub : (book.drain p).2.quotes.Sublist book.quotes := by
    rw [quotes_drain]
    exact List.filter_sublist
  refine ⟨?_, (hsub.map _).nodup h.keys, fun hq => h.subset (hsub.subset hq)⟩
  intro pair q hq
  rw [quotesOf_drain] at hq
  exact h.ownPair (List.mem_of_mem_filter hq)

/-! ## Insertion by key -/

/-- A quote with a key of its own does not meet an equal one: equal quotes share their
identifier, and so their key. -/
theorem insert_ne_none (hS : Genuine mc S) (h : Keyed S book) {q : Quote} (hq : q ∈ S)
    (hk : ∀ e ∈ book.quotesOf q.pair, e.keyImage ≠ q.keyImage) :
    OrdSet.insert Quote.cmp q (book.quotesOf q.pair) ≠ none := by
  intro hi
  obtain ⟨e, he, hcmp⟩ := OrdSet.exists_eq_of_insert_none hi
  have hsci := hS.sci_eq_of_id hq (h.subset (mem_quotes_of_mem_quotesOf he))
    (Quote.id_eq_of_cmp_eq hcmp).1
  exact hk e he (congrArg SignedContingentInput.keyImage hsci.symm)

/-- **`add_quote` is an insertion by key.**  On a sound lock it returns the quote that has
the key already and changes nothing, or it adds the quote; it does not panic. -/
theorem addQuote_key (hS : Genuine mc S) (h : Keyed S book) (hp : book.poisoned = false)
    {q : Quote} (hq : q ∈ S) :
    (∃ e ∈ book.quotes, e.key = q.key ∧
      book.addQuote q = (.err (.quoteAlreadyExists e), book)) ∨
    ((∀ e ∈ book.quotes, e.key ≠ q.key) ∧ ∃ book', book.addQuote q = (.ok (), book') ∧
      book'.poisoned = false ∧ book'.quotes.Perm (q :: book.quotes) ∧ Keyed S book') := by
  rcases book.addQuote_cases q with
    ⟨hp', -⟩ | ⟨-, e, he, hk, heq⟩ | ⟨-, hk, ⟨qs, hi, heq⟩ | ⟨hi, -⟩⟩
  · exact absurd hp' (by simp [hp])
  · obtain ⟨hmem, hpair⟩ := h.mem_quotesOf_iff.mp he
    exact .inl ⟨e, hmem, Quote.key_eq_iff.mpr ⟨hpair, hk⟩, heq⟩
  · have hnew : ∀ e ∈ book.quotes, e.key ≠ q.key := by
      intro e he hkey
      obtain ⟨hpair, hki⟩ := Quote.key_eq_iff.mp hkey
      exact hk e (h.mem_quotesOf_iff.mpr ⟨he, hpair⟩) hki
    have hperm := (addQuote_ok heq).2.2.2
    refine .inr ⟨hnew, _, heq, rfl, hperm, h.set ?_ ?_ ?_⟩
    · intro x hx
      rcases List.mem_cons.mp ((OrdSet.insert_perm hi).mem_iff.mp hx) with rfl | hx
      · rfl
      · exact h.ownPair hx
    · refine (hperm.map _).nodup_iff.mpr (List.nodup_cons.mpr ⟨?_, h.keys⟩)
      intro hmem
      obtain ⟨e, he, hkey⟩ := List.mem_map.mp hmem
      exact hnew e he hkey
    · intro x hx
      rcases List.mem_cons.mp (hperm.mem_iff.mp hx) with rfl | hx
      · exact hq
      · exact h.subset hx
  · exact absurd hi (h.insert_ne_none hS hq hk)

theorem addQuote (hS : Genuine mc S) (h : Keyed S book) {q : Quote} (hq : q ∈ S) :
    Keyed S (book.addQuote q).2 := by
  cases hp : book.poisoned with
  | true =>
      simp only [InMemoryQuoteBook.addQuote, hp, if_true]
      exact h
  | false =>
      rcases h.addQuote_key hS hp hq with ⟨e, -, -, heq⟩ | ⟨-, book', heq, -, -, hk⟩
      · rw [heq]
        exact h
      · rw [heq]
        exact hk

/-! ## Removal by identifier -/

/-- On a sound lock: no quote has the identifier; or one has, and its set gives it up or
does not find it. -/
theorem removeQuoteById_id (hS : Genuine mc S) (h : Keyed S book) (hp : book.poisoned = false)
    (i : QuoteId) :
    ((∀ q ∈ book.quotes, q.id ≠ i) ∧ book.removeQuoteById i = (.err .quoteNotFound, book)) ∨
    ∃ e ∈ book.quotes, e.id = i ∧
      ((∃ rest, OrdSet.remove Quote.cmp e (book.quotesOf e.pair) = some rest ∧
          book.quotes.Perm (e :: quotes ⟨book.scis.set e.pair rest, false⟩) ∧
          book.removeQuoteById i = (.ok e, ⟨book.scis.set e.pair rest, false⟩)) ∨
        OrdSet.remove Quote.cmp e (book.quotesOf e.pair) = none ∧
          book.removeQuoteById i =
            (.panic "assertion failed: entries.remove(&element)", ⟨book.scis, true⟩)) := by
  rcases book.removeQuoteById_cases i with
    ⟨hp', -⟩ | ⟨-, hne, heq⟩ | ⟨-, pair, e, he, hid, ⟨rest, hr, heq⟩ | ⟨hr, heq⟩⟩
  · exact absurd hp' (by simp [hp])
  · exact .inl ⟨hne, heq⟩
  · obtain ⟨hmem, rfl⟩ := h.mem_quotesOf_iff.mp he
    obtain ⟨-, -, -, -, y, hcmp, hperm⟩ := removeQuoteById_ok heq
    -- what left the set has the identifier, so it is the quote that was found
    have hy : e = y := h.eq_of_id hS hmem (hperm.mem_iff.mpr List.mem_cons_self)
      (Quote.id_eq_of_cmp_eq hcmp).1
    exact .inr ⟨e, hmem, hid, .inl ⟨rest, hr, hy ▸ hperm, heq⟩⟩
  · obtain ⟨hmem, rfl⟩ := h.mem_quotesOf_iff.mp he
    exact .inr ⟨e, hmem, hid, .inr ⟨hr, heq⟩⟩

theorem removeQuoteById (hS : Genuine mc S) (h : Keyed S book) (i : QuoteId) :
    Keyed S (book.removeQuoteById i).2 := by
  cases hp : book.poisoned with
  | true =>
      simp only [InMemoryQuoteBook.removeQuoteById, hp, if_true]
      exact h
  | false =>
      rcases h.removeQuoteById_id hS hp i with
        ⟨-, heq⟩ | ⟨e, -, -, ⟨rest, hr, hperm, heq⟩ | ⟨-, heq⟩⟩
      · rw [heq]
        exact h
      · rw [heq]
        obtain ⟨-, hkeys⟩ := List.nodup_cons.mp ((hperm.map Quote.key).nodup_iff.mp h.keys)
        refine h.set ?_ hkeys ?_
        · exact fun q hq => h.ownPair ((OrdSet.remove_sublist hr).subset hq)
        · exact fun q hq => h.subset (hperm.mem_iff.mpr (List.mem_cons_of_mem _ hq))
      · rw [heq]
        exact ⟨h.ownPair, h.keys, h.subset⟩

end Keyed

end InMemoryQuoteBook
end Deqs
