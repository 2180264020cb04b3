/-
# What a client can ask for, and how small an offer may be

Two limits at the edge of the service.

`get_quotes_impl` passes the range of a request on to `get_quotes`, as
`base_range_min..=base_range_max`; the one range it changes is `0..=0`, which stands for no
range at all.  Between ranges that are in order the answer is what the request asks for
(`getQuotesImpl_answers`); what happens to the others is the subject of `Book.Overlap`.

The validator that `GrpcServer` puts in front of the book turns away SCIs that offer too
little of their base token.  It looks at the pseudo output amount.  What a taker can get is
that amount less the required change, so the limit binds the quote exactly when the change
leaves enough (`dustLimit_iff`), and always when there is none.
-/
import Deqs.Lib.Lists
import Deqs.Book.Overlap
import Deqs.Server.ClientService

namespace Deqs

/-! ## `get_quotes_impl` -/

structure GetQuotesRequest where
  pair : Pair
  baseRangeMin : UInt64
  baseRangeMax : UInt64
  limit : UInt64
deriving DecidableEq

/-- The range of a request: all of `u64` where none is specified. -/
def GetQuotesRequest.range (req : GetQuotesRequest) : RangeInclusive :=
  if req.baseRangeMin = 0 ∧ req.baseRangeMax = 0 then
    ⟨req.baseRangeMin, UInt64.ofNat (2 ^ 64 - 1)⟩
  else ⟨req.baseRangeMin, req.baseRangeMax⟩

namespace ClientService

variable (svc : ClientService)

def getQuotesImpl (req : GetQuotesRequest) (book : InMemoryQuoteBook) :
    Outcome RpcStatus (List ApiQuote) :=
  match book.getQuotes req.pair req.range.bounds req.limit.toNat with
  | .ok quotes => .ok (quotes.map (Quote.toApi svc.codec))
  | .err _ => .err (.internal "get_quotes")
  | .panic m => .panic m

/-- **A request for a range in order**, to a book whose quotes for the pair have theirs in
order: the answer is the first `limit` of the quotes that have an amount in the range, in
the order of the book. -/
theorem getQuotesImpl_answers {req : GetQuotesRequest} {book : InMemoryQuoteBook}
    (hp : book.poisoned = false) (hreq : req.range.start ≤ req.range.stop)
    (hbook : ∀ q ∈ book.quotesOf req.pair, q.baseRange.start ≤ q.baseRange.stop) :
    ∃ found : List Quote,
      svc.getQuotesImpl req book =
        .ok ((Reference.firstN req.limit.toNat found).map (Quote.toApi svc.codec)) ∧
      found.Sublist (book.quotesOf req.pair) ∧
      ∀ q ∈ book.quotesOf req.pair,
        q ∈ found ↔ ∃ a, req.range.contains a ∧ q.baseRange.contains a := by
  refine ⟨(book.quotesOf req.pair).filter
    (fun q => rangeOverlaps req.range.bounds q.baseRange.bounds), ?_, List.filter_sublist, ?_⟩
  · have hcollect := InMemoryQuoteBook.collect_eq req.range.bounds req.limit.toNat
      (book.quotesOf req.pair) [] (by simp; omega)
    simp only [getQuotesImpl, InMemoryQuoteBook.getQuotes, hp, Bool.false_eq_true, if_false,
      hcollect, List.nil_append]
  · intro q hq
    have hinhabited : req.range.bounds.isInhabited :=
      req.range.bounds.isInhabited_iff.mpr ⟨req.range.start, UInt64.le_refl _, hreq⟩
    have hquote : q.baseRange.bounds.isInhabited :=
      q.baseRange.bounds.isInhabited_iff.mpr ⟨q.baseRange.start, UInt64.le_refl _, hbook q hq⟩
    rw [List.mem_filter, and_iff_right hq]
    constructor
    · exact common_of_rangeOverlaps hinhabited hquote
    · rintro ⟨a, har, haq⟩
      exact rangeOverlaps_of_common har haq

/-! ## The limit on small offers -/

theorem le_of_quoteMinimumValidator {minimums : TokenId → Option UInt64}
    {sci : SignedContingentInput} (h : quoteMinimumValidator minimums sci = .ok ()) :
    (minimums sci.pseudoOutputAmount.tokenId).getD 0 ≤ sci.pseudoOutputAmount.value := by
  unfold quoteMinimumValidator at h
  simp only at h
  split at h
  · cases h
  · next hn => exact UInt64.not_lt.mp hn

variable {svc}

theorem offer_of_submitSci {β : Type} {addQuote : Quote → β → Outcome Error Unit × β}
    {timestamp : UInt64} {sci : SignedContingentInput} {book : β} {q : Quote}
    (h : (svc.submitSci addQuote timestamp sci book).1 = .ok q) :
    svc.offer timestamp sci = .ok q := by
  rw [submitSci_eq] at h
  cases ho : svc.offer timestamp sci with
  | err e => simp [ho] at h
  | panic m => simp [ho] at h
  | ok q' =>
      simp only [ho] at h
      rcases hadd : addQuote q' book with ⟨r, book'⟩
      rw [hadd] at h
      cases r with
      | ok u => simpa using h
      | err e => simp at h
      | panic m => simp at h

/-- **What is behind a `CREATED`**: the SCI at its place in the request, which passed the
validator, and the quote that `Quote::new` made of it. -/
theorem created_of_submitQuotes {clock : Option UInt64} {req : SubmitQuotesRequest}
    {schedule : List (ParMap.Turn BookAct)} {book book' : InMemoryQuoteBook}
    {resp : SubmitQuotesResponse} {msgs : List Msg}
    (h : svc.submitQuotesImpl clock req schedule book = some (.ok resp, book', msgs)) {i : Nat}
    (hcode : resp.statusCodes[i]? = some .created) :
    ∃ timestamp apiSci sci q, clock = some timestamp ∧ req.quotes[i]? = some apiSci ∧
      svc.codec.ofApi apiSci = .ok sci ∧ svc.offer timestamp sci = .ok q ∧
      resp.quotes[i]? = some (q.toApi svc.codec) := by
  obtain ⟨timestamp, scis, rs, rfl, hconv, rfl, hrs⟩ := answered_of_submitQuotesImpl
    (P := fun timestamp sci r => ∀ q, r = .ok q → svc.offer timestamp sci = .ok q)
    (fun _ _ _ _ => offer_of_submitSci) h
  simp only [respond_eq, List.getElem?_map, Option.map_eq_some_iff] at hcode ⊢
  obtain ⟨r', hr', hcreated⟩ := hcode
  obtain ⟨sci, r, hsci, hoffer, hret⟩ := hrs i r' hr'
  cases r' with
  | error e => exact absurd hcreated (Done.code_error_ne_created _ e)
  | ok q =>
      have hok : r = .ok q := by cases r <;> simp_all [returned]
      obtain ⟨apiSci, hapi, hof⟩ := Lists.getElem?_of_mapM_ok hconv hsci
      exact ⟨timestamp, apiSci, sci, q, rfl, hapi, hof, hoffer q hok, _, hr', rfl⟩

/-- **The limit binds what a taker can get exactly when the change leaves enough**, for
every request, every table of minimums and every order of the tasks; where no change is
required it always does. -/
theorem dustLimit_iff {minimums : TokenId → Option UInt64}
    (hval : svc.sciValidator = quoteMinimumValidator minimums) {clock : Option UInt64}
    {req : SubmitQuotesRequest} {schedule : List (ParMap.Turn BookAct)}
    {book book' : InMemoryQuoteBook} {resp : SubmitQuotesResponse} {msgs : List Msg}
    (h : svc.submitQuotesImpl clock req schedule book = some (.ok resp, book', msgs)) {i : Nat}
    (hcode : resp.statusCodes[i]? = some .created) :
    ∃ timestamp apiSci sci q, req.quotes[i]? = some apiSci ∧ svc.codec.ofApi apiSci = .ok sci ∧
      Quote.new svc.mc none sci (some timestamp) = .ok q ∧
      resp.quotes[i]? = some (q.toApi svc.codec) ∧
      ((minimums q.pair.baseTokenId).getD 0 ≤ q.maxBaseTokens ↔
        ((minimums q.pair.baseTokenId).getD 0).toNat + sci.requiredChange.toNat ≤
          sci.pseudoOutputAmount.value.toNat) ∧
      (sci.requiredChange = 0 → (minimums q.pair.baseTokenId).getD 0 ≤ q.maxBaseTokens) := by
  obtain ⟨timestamp, apiSci, sci, q, -, hapi, hof, hoffer, hquote⟩ :=
    created_of_submitQuotes h hcode
  have hvalid : svc.sciValidator sci = .ok () := by
    unfold offer at hoffer
    cases hv : svc.sciValidator sci with
    | error e => simp [hv] at hoffer
    | ok u => rfl
  have hnew : Quote.new svc.mc none sci (some timestamp) = .ok q := by
    simpa only [offer, hvalid] using hoffer
  have hmade : q.Made svc.mc := ⟨none, sci, some timestamp, hnew⟩
  have hsci := Quote.sci_of_new hnew
  have hsum := hmade.maxBaseTokens_add
  obtain ⟨-, terms, -, hpair, -, -⟩ := hmade.eq_terms
  have hbase : q.pair.baseTokenId = sci.pseudoOutputAmount.tokenId := by rw [hpair, hsci]
  rw [hsci] at hsum
  have hiff : (minimums q.pair.baseTokenId).getD 0 ≤ q.maxBaseTokens ↔
      ((minimums q.pair.baseTokenId).getD 0).toNat + sci.requiredChange.toNat ≤
        sci.pseudoOutputAmount.value.toNat := by
    rw [UInt64.le_iff_toNat_le]
    omega
  refine ⟨timestamp, apiSci, sci, q, hapi, hof, hnew, hquote, hiff, ?_⟩
  intro hzero
  have hmin := le_of_quoteMinimumValidator (hval ▸ hvalid)
  rw [hiff, hzero, hbase]
  simpa using UInt64.le_iff_toNat_le.mp hmin

/-! ### On concrete offers -/

def sampleMinimums (tokenId : TokenId) : Option UInt64 := if tokenId = 1 then some 5 else none

/-- Offers of 10 with `change`, at a server with these minimums. -/
def sampleFillService (change : Option UInt64) : ClientService where
  mc := sampleFillCore
  codec := ⟨fun sci => ⟨sci.rest⟩, fun api => .ok (sampleFill (api.bytes.headD 0) 10 change 20 0)⟩
  sciValidator := quoteMinimumValidator sampleMinimums

/-- An offer of 10 with change of 9: one base token can be had of it. -/
theorem dust_created : ∃ resp book' msgs q,
    (sampleFillService (some 9)).submitQuotesImpl (some 7) ⟨[⟨[1]⟩]⟩ [.task 0] .default =
      some (.ok resp, book', msgs) ∧
    resp.statusCodes = [.created] ∧ book'.quotes = [q] ∧
    Quote.new sampleFillCore none (sampleFill 1 10 (some 9) 20 0) (some 7) = .ok q ∧
    (sampleMinimums q.pair.baseTokenId).getD 0 = 5 ∧ q.maxBaseTokens = 1 :=
  ⟨_, _, _, sampleFillQuote 1 10 (some 9) 20 0 7, rfl, rfl, rfl, rfl, rfl, rfl⟩

/-- An offer of 10 with change of 4: six can be had of it. -/
theorem dustLimit_sample : ∃ resp book' msgs,
    (sampleFillService (some 4)).submitQuotesImpl (some 7) ⟨[⟨[1]⟩]⟩ [.task 0] .default =
      some (.ok resp, book', msgs) ∧
    ∃ q : Quote, resp.quotes[0]? = some (q.toApi (sampleFillService (some 4)).codec) ∧
      5 ≤ q.maxBaseTokens := by
  have h : (sampleFillService (some 4)).submitQuotesImpl (some 7) ⟨[⟨[1]⟩]⟩ [.task 0] .default =
      some (.ok ⟨[.created], [""],
        [(sampleFillQuote 1 10 (some 4) 20 0 7).toApi (sampleFillService (some 4)).codec]⟩,
        ⟨⟨[(⟨1, 2⟩, [sampleFillQuote 1 10 (some 4) 20 0 7])], by decide⟩, false⟩,
        [.sciQuoteAdded (sampleFillQuote 1 10 (some 4) 20 0 7)]) := rfl
  have hval : (sampleFillService (some 4)).sciValidator = quoteMinimumValidator sampleMinimums :=
    rfl
  refine ⟨_, _, _, h, ?_⟩
  obtain ⟨timestamp, apiSci, sci, q, hapi, hof, hnew, hquote, hiff, -⟩ :=
    dustLimit_iff hval h (i := 0) rfl
  obtain rfl := Option.some.inj hapi
  obtain rfl := Except.ok.inj hof
  have hbase : q.pair.baseTokenId = 1 := by
    have hmade : q.Made sampleFillCore := ⟨none, _, some timestamp, hnew⟩
    obtain ⟨-, terms, -, hpair, -, -⟩ := hmade.eq_terms
    rw [hpair, Quote.sci_of_new hnew]
    rfl
  rw [hbase] at hiff
  exact ⟨q, hquote, hiff.mpr (by decide)⟩

end ClientService

end Deqs
