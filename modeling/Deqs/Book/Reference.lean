/-
# The in-memory book is a list of quotes

What a quote book is for can be said without maps, sets or locks: it is a finite list
of quotes.  `Reference.apply` answers every call of the `QuoteBook` trait on such a list
in the plainest way; `InMemoryQuoteBook.apply` is the same dispatcher over the model of
the code.  The result is a refinement over whole runs:

    Answers mc default calls rs book  →  rs agree with the reference's answers

for every list of calls, where between any two calls the hash map may be walked in
another order (`AssocMap.Reorder`).  Two answers agree when they are equal, except that
the quotes a bulk removal returns, and the identifiers of the whole book, come in map
order and are compared up to permutation.

Two hypotheses: the quotes added are genuine (they come from `Quote::new`, identifiers do
not collide), and none is empty.  An empty quote makes `Quote::cmp` intransitive, and
then the sets are not searched correctly.
-/
import Deqs.Lib.Lists
import Deqs.Book.Keyed

namespace Deqs

/-- The calls of the `QuoteBook` trait. -/
inductive Call where
  | addQuote (quote : Quote)
  | removeQuoteById (id : QuoteId)
  | removeQuotesByKeyImage (keyImage : KeyImage)
  | removeQuotesByTombstoneBlock (currentBlockIndex : BlockIndex)
  | getQuotes (pair : Pair) (range : RangeBounds) (limit : Nat)
  | getQuoteIds (pair : Option Pair)
  | getQuoteById (id : QuoteId)
  | numScis

/-- What a call returns when it succeeds.  `removed` and `allIds` are in map order. -/
inductive Response where
  | added
  | quote (q : Quote)
  | removed (qs : List Quote)
  | quotes (qs : List Quote)
  | ids (is : List QuoteId)
  | allIds (is : List QuoteId)
  | found (q : Option Quote)
  | count (n : Nat)

/-- Equal, up to map order where the answer is in map order. -/
def Response.Same : Response → Response → Prop
  | .removed qs, .removed qs' => qs.Perm qs'
  | .allIds is, .allIds is' => is.Perm is'
  | r, r' => r = r'

/-- The code's outcome is the reference's: the same answer or the same error, and never
a panic. -/
def Agrees : Outcome Error Response → Except Error Response → Prop
  | .ok r, .ok r' => r.Same r'
  | .err e, .error e' => e = e'
  | _, _ => False

/-! ## The two dispatchers -/

def InMemoryQuoteBook.apply (mc : McCore) (book : InMemoryQuoteBook) :
    Call → Outcome Error Response × InMemoryQuoteBook
  | .addQuote quote => (book.addQuote quote).map (.map fun _ => .added) id
  | .removeQuoteById i => (book.removeQuoteById i).map (.map .quote) id
  | .removeQuotesByKeyImage k => (book.removeQuotesByKeyImage k).map (.map .removed) id
  | .removeQuotesByTombstoneBlock c =>
      (book.removeQuotesByTombstoneBlock mc c).map (.map .removed) id
  | .getQuotes pair range limit => ((book.getQuotes pair range limit).map .quotes, book)
  | .getQuoteIds (some pair) => ((book.getQuoteIds (some pair)).map .ids, book)
  | .getQuoteIds none => ((book.getQuoteIds none).map .allIds, book)
  | .getQuoteById i => ((book.getQuoteById i).map .found, book)
  | .numScis => (book.numScis.map .count, book)

namespace Reference

/-- The first `limit` entries; all of them when `limit` is 0. -/
def firstN {α : Type} (limit : Nat) (l : List α) : List α :=
  if limit = 0 then l else l.take limit

def apply (mc : McCore) (book : List Quote) : Call → Except Error Response × List Quote
  | .addQuote quote =>
      match book.find? (fun q => q.pair = quote.pair ∧ q.keyImage = quote.keyImage) with
      | some existing => (.error (.quoteAlreadyExists existing), book)
      | none => (.ok .added, quote :: book)
  | .removeQuoteById id =>
      match book.find? (fun q => q.id = id) with
      | some quote => (.ok (.quote quote), book.erase quote)
      | none => (.error .quoteNotFound, book)
  | .removeQuotesByKeyImage keyImage =>
      (.ok (.removed (book.filter (fun q => q.keyImage = keyImage))),
        book.filter (fun q => q.keyImage ≠ keyImage))
  | .removeQuotesByTombstoneBlock c =>
      (.ok (.removed (book.filter (InMemoryQuoteBook.expired mc c))),
        book.filter (fun q => !InMemoryQuoteBook.expired mc c q))
  | .getQuotes pair range limit =>
      (.ok (.quotes (firstN limit (OrdSet.sort Quote.cmp
        (book.filter (fun q => q.pair = pair ∧ rangeOverlaps range q.baseRange.bounds))))), book)
  | .getQuoteIds (some pair) =>
      (.ok (.ids ((OrdSet.sort Quote.cmp (book.filter (fun q => q.pair = pair))).map Quote.id)),
        book)
  | .getQuoteIds none => (.ok (.allIds (book.map Quote.id)), book)
  | .getQuoteById id => (.ok (.found (book.find? (fun q => q.id = id))), book)
  | .numScis => (.ok (.count book.length), book)

/-- A list of calls on the reference book: its answers and the book they leave. -/
def run (mc : McCore) : List Quote → List Call → List (Except Error Response) × List Quote
  | book, [] => ([], book)
  | book, call :: calls =>
      let (r, book) := apply mc book call
      let (rs, book) := run mc book calls
      (r :: rs, book)

end Reference

/-- A list of calls on the in-memory book.  Before each one the map may be reordered. -/
inductive Answers (mc : McCore) : InMemoryQuoteBook → List Call →
    List (Outcome Error Response) → InMemoryQuoteBook → Prop
  | nil (book : InMemoryQuoteBook) : Answers mc book [] [] book
  | cons {book book' book'' : InMemoryQuoteBook} {scis : AssocMap Pair (List Quote)}
      {call : Call} {calls : List Call} {r : Outcome Error Response}
      {rs : List (Outcome Error Response)} :
      book.scis.Reorder scis →
      InMemoryQuoteBook.apply mc ⟨scis, book.poisoned⟩ call = (r, book') →
      Answers mc book' calls rs book'' →
      Answers mc book (call :: calls) (r :: rs) book''

/-! ## The invariant

Kept along a run next to the reference list.  Distinctness is stated once, for the whole
book and for pair and key image together; that identifiers are distinct follows, since
an identifier determines the SCI and the SCI determines both. -/

namespace InMemoryQuoteBook

/-- `book` holds what the list `l` holds, in good order. -/
structure Represents (S : Set Quote) (book : InMemoryQuoteBook) (l : List Quote) : Prop where
  unpoisoned : book.poisoned = false
  ownPair : ∀ {pair q}, q ∈ book.quotesOf pair → q.pair = pair
  sorted : ∀ pair, OrdSet.Sorted Quote.cmp (book.quotesOf pair)
  keys : (book.quotes.map (fun q => (q.pair, q.keyImage))).Nodup
  subset : ∀ {q}, q ∈ book.quotes → q ∈ S
  perm : book.quotes.Perm l

variable {mc : McCore} {S : Set Quote} {book book' : InMemoryQuoteBook} {l l' : List Quote}

theorem represents_default : Represents S default [] where
  unpoisoned := rfl
  ownPair := fun h => absurd h List.not_mem_nil
  sorted := fun _ => List.Pairwise.nil
  keys := List.nodup_nil
  subset := fun h => absurd h List.not_mem_nil
  perm := .refl _

namespace Represents

theorem keyed (h : Represents S book l) : Keyed S book := ⟨h.ownPair, h.keys, h.subset⟩

theorem reorder (h : Represents S book l) {scis : AssocMap Pair (List Quote)}
    (hr : book.scis.Reorder scis) : Represents S ⟨scis, book.poisoned⟩ l := by
  have hk := h.keyed.reorder hr book.poisoned
  exact {
    unpoisoned := h.unpoisoned
    ownPair := hk.ownPair
    sorted := fun pair => quotesOf_reorder hr _ pair ▸ h.sorted pair
    keys := hk.keys
    subset := hk.subset
    perm := (quotes_reorder hr _).trans h.perm }

/-! ## The mutators -/

/-- Writing one set back.  What has to be known of the set written: it is sorted, its
quotes are of the pair, and the book it leaves holds what `l'` holds. -/
theorem set (h : Represents S book l) {pair : Pair} {qs : List Quote}
    (hown : ∀ q ∈ qs, q.pair = pair) (hsorted : OrdSet.Sorted Quote.cmp qs)
    (hperm : (quotes ⟨book.scis.set pair qs, false⟩).Perm l')
    (hkeys : (l'.map (fun q => (q.pair, q.keyImage))).Nodup) (hsub : ∀ q ∈ l', q ∈ S) :
    Represents S ⟨book.scis.set pair qs, false⟩ l' := by
  have hk : Keyed S ⟨book.scis.set pair qs, false⟩ := h.keyed.set hown
    ((hperm.map _).nodup_iff.mpr hkeys) (fun q hq => hsub q (hperm.mem_iff.mp hq))
  refine ⟨rfl, hk.ownPair, ?_, hk.keys, hk.subset, hperm⟩
  intro pair'
  rw [quotesOf_set]
  split
  · exact hsorted
  · exact h.sorted pair'

theorem drain (h : Represents S book l) (p : Quote → Bool) :
    Represents S (book.drain p).2 (l.filter (fun q => !p q)) := by
  have hk := h.keyed.drain p
  refine ⟨h.unpoisoned, hk.ownPair, ?_, hk.keys, hk.subset, ?_⟩
  · intro pair
    rw [quotesOf_drain]
    exact (h.sorted pair).filter _
  · rw [quotes_drain]
    exact h.perm.filter _

theorem mem_quotesOf_iff (h : Represents S book l) {pair : Pair} {e : Quote} :
    e ∈ book.quotesOf pair ↔ e ∈ l ∧ e.pair = pair := by
  rw [h.keyed.mem_quotesOf_iff, h.perm.mem_iff]

theorem find?_key (h : Represents S book l) {q e : Quote} (he : e ∈ book.quotesOf q.pair)
    (hk : e.keyImage = q.keyImage) :
    l.find? (fun e => e.pair = q.pair ∧ e.keyImage = q.keyImage) = some e := by
  obtain ⟨hel, hpair⟩ := h.mem_quotesOf_iff.mp he
  refine Lists.find?_eq_some_of_unique hel (by simp [hpair, hk]) ?_
  intro b hb hpb
  simp only [decide_eq_true_eq] at hpb
  exact h.keyed.eq_of_key (h.perm.mem_iff.mpr hb) (mem_quotes_of_mem_quotesOf he)
    (Quote.key_eq_iff.mpr ⟨hpb.1.trans hpair.symm, hpb.2.trans hk.symm⟩)

theorem find?_key_none (h : Represents S book l) {q : Quote}
    (hk : ∀ e ∈ book.quotesOf q.pair, e.keyImage ≠ q.keyImage) :
    l.find? (fun e => e.pair = q.pair ∧ e.keyImage = q.keyImage) = none := by
  refine List.find?_eq_none.mpr ?_
  intro e he
  simp only [decide_eq_true_eq, not_and]
  exact fun hpair => hk e (h.mem_quotesOf_iff.mpr ⟨he, hpair⟩)

theorem keys_cons (h : Represents S book l) {q : Quote}
    (hk : ∀ e ∈ book.quotesOf q.pair, e.keyImage ≠ q.keyImage) :
    ((q :: l).map (fun q => (q.pair, q.keyImage))).Nodup := by
  rw [List.map_cons, List.nodup_cons]
  refine ⟨?_, (h.perm.map _).nodup_iff.mp h.keys⟩
  intro hmem
  obtain ⟨x, hx, hxk⟩ := List.mem_map.mp hmem
  obtain ⟨hxp, hxk⟩ := Prod.mk.inj hxk
  exact hk x (h.mem_quotesOf_iff.mpr ⟨hx, hxp⟩) hxk

theorem addQuote (hS : Genuine mc S) (hL : OrdSet.LawfulOn Quote.cmp S) {q : Quote} (hq : q ∈ S)
    (h : Represents S book l) :
    Agrees (book.apply mc (.addQuote q)).1 (Reference.apply mc l (.addQuote q)).1 ∧
      Represents S (book.apply mc (.addQuote q)).2 (Reference.apply mc l (.addQuote q)).2 := by
  simp only [InMemoryQuoteBook.apply, Reference.apply]
  rcases book.addQuote_cases q with
    ⟨hp, -⟩ | ⟨-, e, he, hk, heq⟩ | ⟨-, hk, ⟨qs, hi, heq⟩ | ⟨hi, -⟩⟩
  · exact absurd hp (by simp [h.unpoisoned])
  · -- the reference finds the same quote: it is the only one
    rw [heq, h.find?_key he hk]
    exact ⟨rfl, h⟩
  · have hperm := (addQuote_ok heq).2.2.2.trans (h.perm.cons q)
    have hsub : ∀ x ∈ q :: l, x ∈ S := by
      intro x hx
      rcases List.mem_cons.mp hx with rfl | hx
      · exact hq
      · exact h.subset (h.perm.mem_iff.mpr hx)
    rw [heq, h.find?_key_none hk]
    refine ⟨rfl, h.set ?_ ?_ hperm (h.keys_cons hk) hsub⟩
    · intro x hx
      rcases List.mem_cons.mp ((OrdSet.insert_perm hi).mem_iff.mp hx) with rfl | hx
      · rfl
      · exact h.ownPair hx
    · exact OrdSet.insert_sorted hL hq
        (fun y hy => h.subset (mem_quotes_of_mem_quotesOf hy)) (h.sorted _) hi
  · exact absurd hi (h.keyed.insert_ne_none hS hq hk)

theorem find?_id (hS : Genuine mc S) (h : Represents S book l) {e : Quote} {i : QuoteId}
    (he : e ∈ book.quotes) (hid : e.id = i) : l.find? (fun q => q.id = i) = some e := by
  refine Lists.find?_eq_some_of_unique (h.perm.mem_iff.mp he) (by simpa using hid) ?_
  intro b hb hbi
  simp only [decide_eq_true_eq] at hbi
  exact h.keyed.eq_of_id hS (h.perm.mem_iff.mpr hb) he (hbi.trans hid.symm)

theorem find?_id_none (h : Represents S book l) {i : QuoteId}
    (hne : ∀ q ∈ book.quotes, q.id ≠ i) : l.find? (fun q => q.id = i) = none := by
  refine List.find?_eq_none.mpr ?_
  intro q hq
  simpa using hne q (h.perm.mem_iff.mpr hq)

theorem removeQuoteById (hS : Genuine mc S) (hL : OrdSet.LawfulOn Quote.cmp S) (i : QuoteId)
    (h : Represents S book l) :
    Agrees (book.apply mc (.removeQuoteById i)).1 (Reference.apply mc l (.removeQuoteById i)).1 ∧
      Represents S (book.apply mc (.removeQuoteById i)).2
        (Reference.apply mc l (.removeQuoteById i)).2 := by
  simp only [InMemoryQuoteBook.apply, Reference.apply]
  rcases book.removeQuoteById_cases i with
    ⟨hp, -⟩ | ⟨-, hne, heq⟩ | ⟨-, pair, e, he, hid, ⟨rest, hr, heq⟩ | ⟨hr, -⟩⟩
  · exact absurd hp (by simp [h.unpoisoned])
  · rw [heq, h.find?_id_none hne]
    exact ⟨rfl, h⟩
  · have hmem := mem_quotes_of_mem_quotesOf he
    obtain ⟨-, -, -, -, y, hcmp, hperm⟩ := removeQuoteById_ok heq
    -- what left the set is the very quote that was found
    have hy : e = y := hL.eq_of_eq (h.subset hmem)
      (h.subset (hperm.mem_iff.mpr List.mem_cons_self)) hcmp
    subst hy
    have hleft : (quotes ⟨book.scis.set pair rest, false⟩).Perm (l.erase e) :=
      List.Perm.cons_inv (a := e) (hperm.symm.trans
        (h.perm.trans (List.perm_cons_erase (h.perm.mem_iff.mp hmem))))
    rw [heq, h.find?_id hS hmem hid]
    refine ⟨rfl, h.set ?_ ?_ hleft ?_ ?_⟩
    · exact fun q hq => h.ownPair ((OrdSet.remove_sublist hr).subset hq)
    · exact (h.sorted pair).sublist (OrdSet.remove_sublist hr)
    · exact ((List.erase_sublist).map _).nodup ((h.perm.map _).nodup_iff.mp h.keys)
    · exact fun q hq => h.subset (h.perm.mem_iff.mpr (List.mem_of_mem_erase hq))
  · obtain ⟨rest, hr', -⟩ := OrdSet.remove_of_mem hL
      (fun y hy => h.subset (mem_quotes_of_mem_quotesOf hy)) (h.sorted pair) he
    rw [hr] at hr'
    exact absurd hr' (by simp)

theorem removeQuotesByKeyImage (k : KeyImage) (h : Represents S book l) :
    Agrees (book.apply mc (.removeQuotesByKeyImage k)).1
        (Reference.apply mc l (.removeQuotesByKeyImage k)).1 ∧
      Represents S (book.apply mc (.removeQuotesByKeyImage k)).2
        (Reference.apply mc l (.removeQuotesByKeyImage k)).2 := by
  simp only [InMemoryQuoteBook.apply, Reference.apply, removeQuotesByKeyImage_eq, h.unpoisoned,
    Bool.false_eq_true, if_false]
  refine ⟨h.perm.filter _, ?_⟩
  simpa using h.drain (fun q => q.keyImage = k)

theorem removeQuotesByTombstoneBlock (c : BlockIndex) (h : Represents S book l) :
    Agrees (book.apply mc (.removeQuotesByTombstoneBlock c)).1
        (Reference.apply mc l (.removeQuotesByTombstoneBlock c)).1 ∧
      Represents S (book.apply mc (.removeQuotesByTombstoneBlock c)).2
        (Reference.apply mc l (.removeQuotesByTombstoneBlock c)).2 := by
  simp only [InMemoryQuoteBook.apply, Reference.apply, removeQuotesByTombstoneBlock_eq,
    h.unpoisoned, Bool.false_eq_true, if_false]
  exact ⟨h.perm.filter _, h.drain _⟩

/-! ## The queries -/

end Represents

/-- The loop of `get_quotes` selects and cuts.  `results` is what it has so far, fewer
than `limit`. -/
theorem collect_eq (range : RangeBounds) (limit : Nat) :
    ∀ (qs results : List Quote), limit = 0 ∨ results.length < limit →
      collect range limit results qs = Reference.firstN limit
        (results ++ qs.filter (fun q => rangeOverlaps range q.baseRange.bounds))
  | [], results, h => by
      simp only [collect, List.filter_nil, List.append_nil, Reference.firstN]
      rcases h with h | h
      · rw [if_pos h]
      · rw [if_neg (by omega), List.take_of_length_le (by omega)]
  | q :: qs, results, h => by
      by_cases ho : rangeOverlaps range q.baseRange.bounds = true
      · simp only [collect, ho, if_true, List.filter_cons, List.length_append,
          List.length_singleton]
        split
        · next hl =>
            -- the push met the limit: what follows is cut off
            have hlen : (results ++ [q]).length = limit := by simpa using hl
            rw [Reference.firstN, if_neg (by omega), List.append_cons results q (List.filter _ qs),
              List.take_append_of_le_length (by omega), List.take_of_length_le (by omega)]
        · next hl =>
            rw [collect_eq range limit qs (results ++ [q]) (by simp; omega), ← List.append_cons]
      · simp only [collect, ho, List.filter_cons]
        exact collect_eq range limit qs results h

namespace Represents

/-- A selection of one pair's set is the sorted selection of the list. -/
theorem filter_quotesOf_eq_sort (hL : OrdSet.LawfulOn Quote.cmp S) (h : Represents S book l)
    (pair : Pair) (p : Quote → Bool) :
    (book.quotesOf pair).filter p =
      OrdSet.sort Quote.cmp (l.filter (fun q => q.pair = pair ∧ p q = true)) := by
  have hS' : ∀ q ∈ (book.quotesOf pair).filter p, q ∈ S := fun q hq =>
    h.subset (mem_quotes_of_mem_quotesOf (List.mem_of_mem_filter hq))
  have hs : OrdSet.Sorted Quote.cmp ((book.quotesOf pair).filter p) := (h.sorted pair).filter _
  refine OrdSet.eq_sort_of_perm hL hS' hs (hs.nodup hL hS') ?_
  rw [h.keyed.quotesOf_eq, List.filter_filter]
  refine (h.perm.filter _).trans (List.Perm.of_eq (List.filter_congr ?_))
  intro q _
  rw [Bool.decide_and, Bool.and_comm, Bool.decide_eq_true]

theorem getQuotes (hL : OrdSet.LawfulOn Quote.cmp S) (h : Represents S book l) (pair : Pair)
    (range : RangeBounds) (limit : Nat) :
    book.getQuotes pair range limit = .ok (Reference.firstN limit (OrdSet.sort Quote.cmp
      (l.filter (fun q => q.pair = pair ∧ rangeOverlaps range q.baseRange.bounds)))) := by
  rw [InMemoryQuoteBook.getQuotes, h.unpoisoned, if_neg Bool.false_ne_true,
    collect_eq range limit _ [] (by simp; omega), List.nil_append, h.filter_quotesOf_eq_sort hL]

theorem getQuoteIds_some (hL : OrdSet.LawfulOn Quote.cmp S) (h : Represents S book l)
    (pair : Pair) : book.getQuoteIds (some pair) =
      .ok ((OrdSet.sort Quote.cmp (l.filter (fun q => q.pair = pair))).map Quote.id) := by
  have hall := h.filter_quotesOf_eq_sort hL pair (fun _ => true)
  simp only [List.filter_true, and_true] at hall
  rw [InMemoryQuoteBook.getQuoteIds, h.unpoisoned, if_neg Bool.false_ne_true, hall]

theorem getQuoteIds_none (h : Represents S book l) :
    ∃ is, book.getQuoteIds none = .ok is ∧ is.Perm (l.map Quote.id) := by
  refine ⟨book.quotes.map Quote.id, ?_, h.perm.map _⟩
  rw [InMemoryQuoteBook.getQuoteIds, h.unpoisoned, if_neg Bool.false_ne_true, quotes,
    List.map_flatten, List.flatMap_def]

theorem getQuoteById (hS : Genuine mc S) (h : Represents S book l) (i : QuoteId) :
    book.getQuoteById i = .ok (l.find? (fun q => q.id = i)) := by
  rw [InMemoryQuoteBook.getQuoteById, h.unpoisoned, if_neg Bool.false_ne_true,
    ← List.find?_flatten]
  show Outcome.ok (book.quotes.find? _) = _
  cases hf : book.quotes.find? (fun q => q.id = i) with
  | none => rw [h.find?_id_none (by simpa using hf)]
  | some e =>
      rw [h.find?_id hS (List.mem_of_find?_eq_some hf) (by simpa using List.find?_some hf)]

theorem numScis (h : Represents S book l) : book.numScis = .ok l.length := by
  rw [InMemoryQuoteBook.numScis, h.unpoisoned, if_neg Bool.false_ne_true, ← List.length_flatten]
  exact congrArg _ h.perm.length_eq

/-! ## One call, and a run -/

/-- **One call.**  The code answers as the reference does and goes on representing it. -/
theorem apply (hS : Genuine mc S) (hL : OrdSet.LawfulOn Quote.cmp S) (call : Call)
    (hcall : ∀ q, call = .addQuote q → q ∈ S) (h : Represents S book l) :
    Agrees (book.apply mc call).1 (Reference.apply mc l call).1 ∧
      Represents S (book.apply mc call).2 (Reference.apply mc l call).2 := by
  cases call with
  | addQuote q => exact h.addQuote hS hL (hcall q rfl)
  | removeQuoteById i => exact h.removeQuoteById hS hL i
  | removeQuotesByKeyImage k => exact h.removeQuotesByKeyImage k
  | removeQuotesByTombstoneBlock c => exact h.removeQuotesByTombstoneBlock c
  | getQuotes pair range limit =>
      refine ⟨?_, h⟩
      simp only [InMemoryQuoteBook.apply, h.getQuotes hL]
      rfl
  | getQuoteIds pair =>
      cases pair with
      | some pair =>
          refine ⟨?_, h⟩
          simp only [InMemoryQuoteBook.apply, h.getQuoteIds_some hL]
          rfl
      | none =>
          obtain ⟨is, heq, hperm⟩ := h.getQuoteIds_none
          refine ⟨?_, h⟩
          simp only [InMemoryQuoteBook.apply, heq]
          exact hperm
  | getQuoteById i =>
      refine ⟨?_, h⟩
      simp only [InMemoryQuoteBook.apply, h.getQuoteById hS]
      rfl
  | numScis =>
      refine ⟨?_, h⟩
      simp only [InMemoryQuoteBook.apply, h.numScis]
      rfl

theorem answers (hS : Genuine mc S) (hL : OrdSet.LawfulOn Quote.cmp S) {calls : List Call}
    {rs : List (Outcome Error Response)} (ha : Answers mc book calls rs book')
    (hcalls : ∀ q, .addQuote q ∈ calls → q ∈ S) (h : Represents S book l) :
    List.Forall₂ Agrees rs (Reference.run mc l calls).1 ∧
      Represents S book' (Reference.run mc l calls).2 := by
  induction ha generalizing l with
  | nil book => exact ⟨.nil, h⟩
  | cons hr happly _ ih =>
      obtain ⟨hagree, hrep⟩ := (h.reorder hr).apply hS hL _
        (fun q hq => hcalls q (hq ▸ List.mem_cons_self))
      rw [happly] at hagree hrep
      obtain ⟨hrest, hlast⟩ := ih (fun q hq => hcalls q (List.mem_cons_of_mem _ hq)) hrep
      exact ⟨.cons hagree hrest, hlast⟩

end Represents

/-- What the source says of the book in every reachable state. -/
structure WellFormed (book : InMemoryQuoteBook) : Prop where
  ownPair : ∀ pair, ∀ q ∈ book.quotesOf pair, q.pair = pair
  keyImages : ∀ pair, ((book.quotesOf pair).map Quote.keyImage).Nodup
  ids : (book.quotes.map Quote.id).Nodup
  sorted : ∀ pair, OrdSet.Sorted Quote.cmp (book.quotesOf pair)

theorem Represents.wellFormed (hS : Genuine mc S) (h : Represents S book l) :
    WellFormed book where
  ownPair := fun _ _ hq => h.ownPair hq
  keyImages := by
    intro pair
    refine List.Nodup.map_on ?_ ((h.keyed.quotesOf_eq pair) ▸ h.keyed.nodup.filter _)
    intro a ha b hb hk
    exact h.keyed.eq_of_key (mem_quotes_of_mem_quotesOf ha) (mem_quotes_of_mem_quotesOf hb)
      (Quote.key_eq_iff.mpr ⟨(h.ownPair ha).trans (h.ownPair hb).symm, hk⟩)
  ids := List.Nodup.map_on (fun _ ha _ hb hid => h.keyed.eq_of_id hS ha hb hid) h.keyed.nodup
  sorted := h.sorted

/-- **The in-memory book refines a list of quotes.**  Whatever the calls and whatever
order the map is walked in, the answers are the reference's, no assertion fires, and the
book that is left is well formed and holds what the reference list holds. -/
theorem answers_agree_reference (hS : Genuine mc S) (hne : ∀ q ∈ S, ¬ q.Empty)
    {calls : List Call} (hcalls : ∀ q, .addQuote q ∈ calls → q ∈ S)
    {rs : List (Outcome Error Response)} (h : Answers mc default calls rs book) :
    List.Forall₂ Agrees rs (Reference.run mc [] calls).1 ∧
      book.quotes.Perm (Reference.run mc [] calls).2 ∧ book.WellFormed := by
  have hL := Quote.lawfulOn_of_not_empty hS (fun hq => hne _ hq)
  obtain ⟨hagree, hrep⟩ := represents_default.answers hS hL h hcalls
  exact ⟨hagree, hrep.perm, hrep.wellFormed hS⟩

theorem exists_answers (mc : McCore) : ∀ (calls : List Call) (book : InMemoryQuoteBook),
    ∃ rs book', Answers mc book calls rs book'
  | [], book => ⟨[], book, .nil book⟩
  | call :: calls, book => by
      obtain ⟨rs, book'', h⟩ := exists_answers mc calls (book.apply mc call).2
      exact ⟨_, _, .cons (List.Perm.refl _) rfl h⟩

def twoOffers : Set Quote := {q | q = sampleQuote 1 10 30 0 1 ∨ q = sampleQuote 2 10 20 0 2}

theorem twoOffers_genuine : Genuine sampleCore twoOffers where
  made := by
    rintro q (rfl | rfl)
    · exact sampleQuote_made ..
    · exact sampleQuote_made ..
  collisionFree := by
    rintro q q' (rfl | rfl) (rfl | rfl) <;> decide

/-- Two offers are added, the first once more, and the book is listed and one taken out. -/
def twoOffersCalls : List Call :=
  [.addQuote (sampleQuote 1 10 30 0 1), .addQuote (sampleQuote 2 10 20 0 2),
    .addQuote (sampleQuote 1 10 30 0 1), .getQuotes ⟨1, 2⟩ ⟨.unbounded, .unbounded⟩ 0,
    .removeQuoteById ⟨.fill 1⟩, .numScis]

theorem twoOffersCalls_agree : ∃ rs book,
    Answers sampleCore default twoOffersCalls rs book ∧
      List.Forall₂ Agrees rs (Reference.run sampleCore [] twoOffersCalls).1 ∧
      book.quotes.Perm [sampleQuote 2 10 20 0 2] ∧ book.WellFormed := by
  obtain ⟨rs, book, h⟩ := exists_answers sampleCore twoOffersCalls default
  refine ⟨rs, book, h, answers_agree_reference twoOffers_genuine ?_ ?_ h⟩
  · rintro q (rfl | rfl) <;> decide
  · intro q hq
    simp only [twoOffersCalls, List.mem_cons, Call.addQuote.injEq, reduceCtorEq, List.not_mem_nil,
      or_false] at hq
    rcases hq with rfl | rfl | rfl
    · exact .inl rfl
    · exact .inr rfl
    · exact .inl rfl

end InMemoryQuoteBook
end Deqs
