/-
# `ClientService::submit_quotes_impl`

A request carries SCIs.  They are converted one after the other, and the first that does
not convert fails the request; then every SCI goes through the same closure, in parallel:

    sci_validator(&sci)?;  quote_book.add_sci(sci, Some(timestamp))

and the results, in the order of the request, are turned into the three lists of the
response while `SciQuoteAdded` is sent for each quote that was created.

`add_sci` is `Quote::new`, which touches nothing, followed by `add_quote`, which holds the
lock of the book from its test to its insertion.  So each closure takes effect at one
point, and a schedule of the parallel map (`ParMap`) is an order of these points, with
what other clients do to the book in between.

**The result** (`submitQuotes_served`): the answers are those of some sequential order,
aligned with the request; of the SCIs that compete for one key exactly one is created, all
the others are answered with it; and which keys the book holds in the end does not depend
on who won.
-/
import Deqs.Lib.ParMap
import Deqs.Api.Convert
import Deqs.Book.Mirror

namespace Deqs

def MAX_SIMULTANEOUS_QUOTES : Nat := 30

inductive Msg where
  | sciQuoteAdded (quote : Quote)
  | sciQuoteRemoved (quote : Quote)
deriving DecidableEq

/-- `From<&Error> for QuoteStatusCode`. -/
def QuoteStatusCode.ofError : Error → QuoteStatusCode
  | .sci _ => .invalidSci
  | .unsupportedSci _ => .unsupportedSci
  | .quoteAlreadyExists _ => .quoteAlreadyExists
  | .quoteIsStale => .quoteIsStale
  | .invalidRing _ => .invalidSci
  | _ => .other

/-- `QuoteBook::add_sci`, for any book with an `add_quote`. -/
def addSci {β : Type} (mc : McCore) (now : Option UInt64)
    (addQuote : Quote → β → Outcome Error Unit × β) (sci : SignedContingentInput)
    (timestamp : Option UInt64) (book : β) : Outcome Error Quote × β :=
  match Quote.new mc now sci timestamp with
  | .ok quote => (addQuote quote book).map (.map fun _ => quote) id
  | .err e => (.err e, book)
  | .panic m => (.panic m, book)

abbrev SciValidator := SignedContingentInput → Except Error Unit

/-- The validator of `GrpcServer`: the base amount has to reach the minimum set for the
base token. -/
def quoteMinimumValidator (quoteMinimumMap : TokenId → Option UInt64) : SciValidator :=
  fun sci =>
    let baseTokenId := sci.pseudoOutputAmount.tokenId
    let minimum := (quoteMinimumMap baseTokenId).getD 0
    if sci.pseudoOutputAmount.value < minimum then
      .error (.unsupportedSci (
        s!"Quote volume is too small for deqs. Quotes with base_token: {baseTokenId} " ++
        s!"require a minimum of: {minimum}"))
    else .ok ()

/-- The gRPC statuses the service itself returns: what the error is about, and the
error. -/
inductive RpcStatus where
  | invalidArgument (context : String) (error : Error ⊕ ConversionError)
  | internal (context : String)
deriving DecidableEq

/-- What others do to a shared in-memory book. -/
inductive BookAct where
  | call (c : Call)
  | rehash (scis : AssocMap Pair (List Quote))

def BookAct.act (mc : McCore) (book : InMemoryQuoteBook) : BookAct → Option InMemoryQuoteBook
  | .call c => some (book.apply mc c).2
  | .rehash scis =>
      if book.scis.entries.Perm scis.entries then some ⟨scis, book.poisoned⟩ else none

/-- The fields of the service that do not change. -/
structure ClientService where
  mc : McCore
  codec : SciCodec
  sciValidator : SciValidator

namespace ClientService

variable (svc : ClientService)

/-- The closure of the parallel map. -/
def submitSci {β : Type} (addQuote : Quote → β → Outcome Error Unit × β) (timestamp : UInt64)
    (sci : SignedContingentInput) (book : β) : Outcome Error Quote × β :=
  match svc.sciValidator sci with
  | .error e => (.err e, book)
  | .ok () => addSci svc.mc none addQuote sci (some timestamp) book

/-- The turn of the loop over the results: push to the three lists, send the message. -/
def pushResult (acc : SubmitQuotesResponse × List Msg) :
    Except Error Quote → SubmitQuotesResponse × List Msg
  | .ok quote =>
      (⟨acc.1.statusCodes ++ [.created], acc.1.errorMessages ++ [""],
        acc.1.quotes ++ [quote.toApi svc.codec]⟩, acc.2 ++ [.sciQuoteAdded quote])
  | .error (.quoteAlreadyExists existingQuote) =>
      let err := Error.quoteAlreadyExists existingQuote
      (⟨acc.1.statusCodes ++ [.ofError err], acc.1.errorMessages ++ [err.display],
        acc.1.quotes ++ [existingQuote.toApi svc.codec]⟩, acc.2)
  | .error err =>
      (⟨acc.1.statusCodes ++ [.ofError err], acc.1.errorMessages ++ [err.display],
        acc.1.quotes ++ [.default]⟩, acc.2)

def respond (results : List (Except Error Quote)) : SubmitQuotesResponse × List Msg :=
  results.foldl svc.pushResult (⟨[], [], []⟩, [])

def panicOf : Option (Outcome Error Quote) → Option String
  | some (.panic m) => some m
  | _ => none

def returned : Option (Outcome Error Quote) → Option (Except Error Quote)
  | some (.ok quote) => some (.ok quote)
  | some (.err e) => some (.error e)
  | _ => none

/-- `collect`, and what follows it.  A panic of a task is the panic of the call, whether or
not the other tasks have run; `none` is a schedule that stops before the tasks are done. -/
def finish (n : Nat) (s : ParMap.State InMemoryQuoteBook (Outcome Error Quote)) :
    Option (Outcome RpcStatus SubmitQuotesResponse × InMemoryQuoteBook × List Msg) :=
  let results := (List.range n).map s.results
  match results.findSome? panicOf with
  | some m => some (.panic m, s.shared, [])
  | none =>
      (results.mapM returned).map fun results =>
        let (resp, msgs) := svc.respond results
        (.ok resp, s.shared, msgs)

/-- `submit_quotes_impl`: the outcome, the book it leaves and the messages it sends.
`clock` is the time in nanoseconds, `none` when it cannot be had. -/
def submitQuotesImpl (clock : Option UInt64) (req : SubmitQuotesRequest)
    (schedule : List (ParMap.Turn BookAct)) (book : InMemoryQuoteBook) :
    Option (Outcome RpcStatus SubmitQuotesResponse × InMemoryQuoteBook × List Msg) :=
  if MAX_SIMULTANEOUS_QUOTES ≤ req.quotes.length then
    some (.err (.invalidArgument "Too many quotes"
      (.inl (.implementationSpecific "Too many quotes in one request"))), book, [])
  else
    match clock with
    | none => some (.err (.internal "submit_quotes"), book, [])
    | some timestamp =>
        match req.quotes.mapM svc.codec.ofApi with
        | .error e => some (.err (.invalidArgument "quotes" (.inr e)), book, [])
        | .ok scis =>
            match Lts.exec (ParMap.step
                (svc.submitSci (fun quote book => book.addQuote quote) timestamp)
                (BookAct.act svc.mc) scis) (ParMap.start book) schedule with
            | none => none
            | some s => svc.finish scis.length s

/-! ## The response, entry by entry -/

/-- What the three lists say about one SCI. -/
def entryOf (codec : SciCodec) : Except Error Quote → QuoteStatusCode × String × ApiQuote
  | .ok quote => (.created, "", quote.toApi codec)
  | .error (.quoteAlreadyExists existingQuote) =>
      (.quoteAlreadyExists, (Error.quoteAlreadyExists existingQuote).display,
        existingQuote.toApi codec)
  | .error err => (.ofError err, err.display, .default)

def createdOf : Except Error Quote → Option Quote
  | .ok quote => some quote
  | .error _ => none

theorem foldl_pushResult : ∀ (results : List (Except Error Quote)) (resp : SubmitQuotesResponse)
    (msgs : List Msg), results.foldl svc.pushResult (resp, msgs) =
      (⟨resp.statusCodes ++ results.map (fun r => (entryOf svc.codec r).1),
        resp.errorMessages ++ results.map (fun r => (entryOf svc.codec r).2.1),
        resp.quotes ++ results.map (fun r => (entryOf svc.codec r).2.2)⟩,
        msgs ++ (results.filterMap createdOf).map .sciQuoteAdded)
  | [], resp, msgs => by simp
  | r :: results, resp, msgs => by
      have hpush : svc.pushResult (resp, msgs) r =
          (⟨resp.statusCodes ++ [(entryOf svc.codec r).1],
            resp.errorMessages ++ [(entryOf svc.codec r).2.1],
            resp.quotes ++ [(entryOf svc.codec r).2.2]⟩,
            msgs ++ (createdOf r).toList.map .sciQuoteAdded) := by
        cases r with
        | ok q => rfl
        | error e => cases e <;> simp [pushResult, entryOf, createdOf, QuoteStatusCode.ofError]
      rw [List.foldl_cons, hpush, foldl_pushResult results]
      cases r with
      | ok q => simp [createdOf]
      | error e => simp [createdOf, List.filterMap_cons]

theorem respond_eq (results : List (Except Error Quote)) : svc.respond results =
    (⟨results.map (fun r => (entryOf svc.codec r).1),
      results.map (fun r => (entryOf svc.codec r).2.1),
      results.map (fun r => (entryOf svc.codec r).2.2)⟩,
      (results.filterMap createdOf).map .sciQuoteAdded) := by
  rw [respond, foldl_pushResult]
  simp

end ClientService

def SubmitQuotesResponse.entry (resp : SubmitQuotesResponse) (i : Nat) :
    Option (QuoteStatusCode × String × ApiQuote) :=
  match resp.statusCodes[i]?, resp.errorMessages[i]?, resp.quotes[i]? with
  | some code, some message, some quote => some (code, message, quote)
  | _, _, _ => none

namespace ClientService

theorem entry_respond (svc : ClientService) (results : List (Except Error Quote)) (i : Nat) :
    (svc.respond results).1.entry i = results[i]?.map (entryOf svc.codec) := by
  rw [respond_eq]
  simp only [SubmitQuotesResponse.entry, List.getElem?_map]
  cases results[i]? with
  | none => rfl
  | some r => rfl

/-! ## One closure -/

/-- What the closure makes of an SCI before it touches the book: the error of the
validator, or what `Quote::new` returns. -/
def offer (svc : ClientService) (timestamp : UInt64) (sci : SignedContingentInput) :
    Outcome Error Quote :=
  match svc.sciValidator sci with
  | .error e => .err e
  | .ok () => Quote.new svc.mc none sci (some timestamp)

variable {svc : ClientService} {timestamp : UInt64} {sci : SignedContingentInput}

theorem submitSci_eq {β : Type} (addQuote : Quote → β → Outcome Error Unit × β) (book : β) :
    svc.submitSci addQuote timestamp sci book =
      match svc.offer timestamp sci with
      | .ok quote => (addQuote quote book).map (.map fun _ => quote) id
      | .err e => (.err e, book)
      | .panic m => (.panic m, book) := by
  unfold submitSci offer addSci
  cases svc.sciValidator sci with
  | error e => rfl
  | ok u => rfl

/-- The answer to one SCI, once the book holds `held`: its new quote, the quote in its way,
or the error it had before it came to the book. -/
def Answer (svc : ClientService) (timestamp : UInt64) (held : List Quote)
    (sci : SignedContingentInput) (r : Outcome Error Quote) : Prop :=
  match svc.offer timestamp sci with
  | .ok q => r = .ok q ∧ q ∈ held ∨
      ∃ e ∈ held, e.key = q.key ∧ r = .err (.quoteAlreadyExists e)
  | .err e => r = .err e
  | .panic m => r = .panic m

/-- An answer stays right when quotes are added. -/
theorem Answer.mono {held held' : List Quote} {r : Outcome Error Quote} (hsub : held ⊆ held')
    (h : Answer svc timestamp held sci r) : Answer svc timestamp held' sci r := by
  unfold Answer at h ⊢
  cases ho : svc.offer timestamp sci with
  | ok q =>
      simp only [ho] at h ⊢
      rcases h with ⟨hr, hq⟩ | ⟨e, he, hkey, hr⟩
      · exact .inl ⟨hr, hsub hq⟩
      · exact .inr ⟨e, hsub he, hkey, hr⟩
  | err e => simpa only [ho] using h
  | panic m => simpa only [ho] using h

def created : Option (Outcome Error Quote) → Option Quote
  | some (.ok quote) => some quote
  | _ => none

/-! ## The parallel map -/

variable {S : Set Quote} {book : InMemoryQuoteBook} {scis : List SignedContingentInput}

/-- The invariant of the parallel map that started from `book`. -/
structure Progress (svc : ClientService) (timestamp : UInt64) (scis : List SignedContingentInput)
    (S : Set Quote) (book : InMemoryQuoteBook)
    (s : ParMap.State InMemoryQuoteBook (Outcome Error Quote)) : Prop where
  keyed : s.shared.Keyed S
  unpoisoned : s.shared.poisoned = false
  contents : s.shared.quotes.Perm
    (((List.range scis.length).filterMap fun i => created (s.results i)) ++ book.quotes)
  answers : ∀ i r, s.results i = some r →
    ∃ sci, scis[i]? = some sci ∧ Answer svc timestamp s.shared.quotes sci r

theorem progress_start (hk : book.Keyed S) (hp : book.poisoned = false) :
    Progress svc timestamp scis S book (ParMap.start book) where
  keyed := hk
  unpoisoned := hp
  contents := by
    have hnone : ((List.range scis.length).filterMap fun i =>
        created ((ParMap.start book : ParMap.State _ (Outcome Error Quote)).results i)) = [] :=
      List.filterMap_eq_nil_iff.mpr fun _ _ => rfl
    rw [hnone]
    exact .refl _
  answers := fun i r h => by cases h

abbrev parStep (svc : ClientService) (timestamp : UInt64) (scis : List SignedContingentInput) :
    ParMap.State InMemoryQuoteBook (Outcome Error Quote) → ParMap.Turn BookAct →
      Option (ParMap.State InMemoryQuoteBook (Outcome Error Quote)) :=
  ParMap.step (svc.submitSci (fun quote book => book.addQuote quote) timestamp)
    (BookAct.act svc.mc) scis

theorem Progress.settle {s : ParMap.State InMemoryQuoteBook (Outcome Error Quote)}
    (h : Progress svc timestamp scis S book s) {i : Nat} {sci : SignedContingentInput}
    (hsci : scis[i]? = some sci) (hnone : s.results i = none) {r : Outcome Error Quote}
    (hr : created (some r) = none) (hans : Answer svc timestamp s.shared.quotes sci r) :
    Progress svc timestamp scis S book
      ⟨s.shared, Function.update s.results i (some r)⟩ := by
  have hi : i ∈ List.range scis.length := by
    simpa using (List.getElem?_eq_some_iff.mp hsci).1
  refine ⟨h.keyed, h.unpoisoned, ?_, ?_⟩
  · have hperm := ParMap.filterMap_update created s.results r (by rw [hnone]; rfl)
      List.nodup_range hi
    rw [hr] at hperm
    exact h.contents.trans (hperm.symm.append_right _)
  · intro j r' hj
    by_cases hij : j = i
    · subst hij
      simp only [Function.update_self, Option.some.injEq] at hj
      exact ⟨sci, hsci, hj ▸ hans⟩
    · simp only [Function.update_of_ne hij] at hj
      exact h.answers j r' hj

/-- **One task of the parallel map.** -/
theorem Progress.step (hS : Genuine svc.mc S)
    (hoffer : ∀ sci ∈ scis, ∀ q, svc.offer timestamp sci = .ok q → q ∈ S)
    {s s' : ParMap.State InMemoryQuoteBook (Outcome Error Quote)} {i : Nat}
    (h : Progress svc timestamp scis S book s)
    (hs : svc.parStep timestamp scis s (.task i) = some s') :
    Progress svc timestamp scis S book s' := by
  obtain ⟨sci, hsci, hnone, rfl⟩ := ParMap.task_cases hs
  have hmem : sci ∈ scis := List.mem_of_getElem? hsci
  rw [submitSci_eq]
  cases ho : svc.offer timestamp sci with
  | err e => exact h.settle hsci hnone rfl (by simp [Answer, ho])
  | panic m => exact h.settle hsci hnone rfl (by simp [Answer, ho])
  | ok q =>
      rcases h.keyed.addQuote_key hS h.unpoisoned (hoffer sci hmem q ho) with
        ⟨e, he, hkey, hadd⟩ | ⟨-, shared, hadd, hp, hperm, hk⟩
      · -- somebody has the key already
        simp only [hadd]
        refine h.settle hsci hnone rfl ?_
        simp only [Answer, ho]
        exact .inr ⟨e, he, hkey, rfl⟩
      · simp only [hadd]
        have hi : i ∈ List.range scis.length := by
          simpa using (List.getElem?_eq_some_iff.mp hsci).1
        have hsub : s.shared.quotes ⊆ shared.quotes := by
          intro x hx
          exact hperm.mem_iff.mpr (List.mem_cons_of_mem _ hx)
        refine ⟨hk, hp, ?_, ?_⟩
        · have hcreated := ParMap.filterMap_update created s.results (.ok q)
            (by rw [hnone]; rfl) List.nodup_range hi
          exact hperm.trans ((h.contents.cons q).trans (hcreated.symm.append_right _))
        · intro j r hj
          by_cases hij : j = i
          · subst hij
            simp only [Function.update_self, Option.some.injEq] at hj
            refine ⟨sci, hsci, ?_⟩
            subst hj
            simp only [Answer, ho]
            exact .inl ⟨rfl, hperm.mem_iff.mpr List.mem_cons_self⟩
          · simp only [Function.update_of_ne hij] at hj
            obtain ⟨sci', hsci', hans⟩ := h.answers j r hj
            exact ⟨sci', hsci', hans.mono hsub⟩

/-! ## The whole call -/

def offerAt (svc : ClientService) (timestamp : UInt64) (scis : List SignedContingentInput)
    (i : Nat) : Option (Outcome Error Quote) :=
  scis[i]?.map (svc.offer timestamp)

/-- The quotes created, in the order of the request: those of the SCIs whose status is
`CREATED`. -/
def newQuotes (svc : ClientService) (timestamp : UInt64) (scis : List SignedContingentInput)
    (resp : SubmitQuotesResponse) : List Quote :=
  (List.range scis.length).filterMap fun (i : Nat) =>
    match resp.statusCodes[i]?, svc.offerAt timestamp scis i with
    | some .created, some (.ok q) => some q
    | _, _ => none

/-- What is to be said of a call that was served: from `book` to `book'`, with the response
`resp` and the messages `msgs`. -/
structure Served (svc : ClientService) (timestamp : UInt64) (scis : List SignedContingentInput)
    (book book' : InMemoryQuoteBook) (resp : SubmitQuotesResponse) (msgs : List Msg) : Prop where
  lengths : resp.statusCodes.length = scis.length ∧ resp.errorMessages.length = scis.length ∧
    resp.quotes.length = scis.length
  /-- The error of the validator or of `Quote::new`. -/
  failed : ∀ i e, svc.offerAt timestamp scis i = some (.err e) →
    resp.entry i = some (entryOf svc.codec (.error e))
  /-- The key is in the book already. -/
  existing : ∀ i q, svc.offerAt timestamp scis i = some (.ok q) →
    ∀ e ∈ book.quotes, e.key = q.key →
    resp.entry i = some (entryOf svc.codec (.error (.quoteAlreadyExists e)))
  /-- The key is not in the book: one of those that compete for it is created, and all the
  others are answered with that one. -/
  fresh : ∀ i q, svc.offerAt timestamp scis i = some (.ok q) →
    (∀ e ∈ book.quotes, e.key ≠ q.key) →
    ∃ w q', svc.offerAt timestamp scis w = some (.ok q') ∧ q'.key = q.key ∧
      resp.entry w = some (entryOf svc.codec (.ok q')) ∧
      ∀ j q'', svc.offerAt timestamp scis j = some (.ok q'') → q''.key = q.key → j ≠ w →
        resp.entry j = some (entryOf svc.codec (.error (.quoteAlreadyExists q')))
  contents : book'.quotes.Perm (svc.newQuotes timestamp scis resp ++ book.quotes)
  messages : msgs = (svc.newQuotes timestamp scis resp).map .sciQuoteAdded
  /-- The right side does not mention the schedule. -/
  keys : ∀ k, k ∈ book'.quotes.map Quote.key ↔
    k ∈ book.quotes.map Quote.key ∨
      ∃ i q, svc.offerAt timestamp scis i = some (.ok q) ∧ q.key = k

theorem exists_mapM_returned : ∀ {os : List (Option (Outcome Error Quote))},
    (∀ o ∈ os, ∃ r, returned o = some r) → ∃ rs, os.mapM returned = some rs
  | [], _ => ⟨[], rfl⟩
  | o :: os, h => by
      obtain ⟨r, hr⟩ := h o List.mem_cons_self
      obtain ⟨rs, hrs⟩ := exists_mapM_returned fun o' ho' => h o' (List.mem_cons_of_mem _ ho')
      exact ⟨r :: rs, by simp [List.mapM_cons, hr, hrs]⟩

theorem filterMap_created {os : List (Option (Outcome Error Quote))}
    {rs : List (Except Error Quote)} (h : os.mapM returned = some rs) :
    rs.filterMap createdOf = os.filterMap created := by
  have hbind : ∀ o : Option (Outcome Error Quote), created o = (returned o).bind createdOf := by
    rintro (_ | (_ | _ | _)) <;> rfl
  calc rs.filterMap createdOf
      = (rs.map some).filterMap (·.bind createdOf) := by simp [List.filterMap_map]
    _ = (os.map returned).filterMap (·.bind createdOf) := by rw [ParMap.mapM_eq_some_iff.mp h]
    _ = os.filterMap created := by
        rw [List.filterMap_map]
        exact List.filterMap_congr fun o _ => (hbind o).symm

/-- A call whose tasks have all returned: its results, one for each task, and what it makes
of them. -/
theorem finish_of_returned (svc : ClientService) {n : Nat}
    {s : ParMap.State InMemoryQuoteBook (Outcome Error Quote)}
    (h : ∀ i < n, ∃ r, returned (s.results i) = some r) :
    ∃ rs, svc.finish n s = some (.ok (svc.respond rs).1, s.shared, (svc.respond rs).2) ∧
      rs.length = n ∧ (∀ i < n, returned (s.results i) = rs[i]?) ∧
      rs.filterMap createdOf = (List.range n).filterMap fun i => created (s.results i) := by
  have hall : ∀ o ∈ (List.range n).map s.results, ∃ r, returned o = some r := by
    intro o ho
    obtain ⟨i, hi, rfl⟩ := List.mem_map.mp ho
    exact h i (List.mem_range.mp hi)
  obtain ⟨rs, hm⟩ := exists_mapM_returned hall
  have hrs := ParMap.mapM_eq_some_iff.mp hm
  have hpanic : ((List.range n).map s.results).findSome? panicOf = none := by
    refine List.findSome?_eq_none_iff.mpr ?_
    intro o ho
    obtain ⟨r, hr⟩ := hall o ho
    rcases o with _ | (_ | _ | _)
    · rfl
    · rfl
    · rfl
    · cases hr
  refine ⟨rs, ?_, ?_, ?_, ?_⟩
  · simp only [finish, hpanic, hm, Option.map_some]
  · have hlen := congrArg List.length hrs
    simpa using hlen.symm
  · intro i hi
    have hget := congrArg (fun l => l[i]?) hrs
    simp only [List.map_map, List.getElem?_map, List.getElem?_range hi, Option.map_some,
      Function.comp] at hget
    cases hi' : rs[i]? with
    | none => simp [hi'] at hget
    | some r => simpa [hi'] using hget
  · rw [filterMap_created hm, List.filterMap_map]
    rfl

theorem returned_of_finish {n : Nat} {s : ParMap.State InMemoryQuoteBook (Outcome Error Quote)}
    {resp : SubmitQuotesResponse} {b : InMemoryQuoteBook} {msgs : List Msg}
    (h : svc.finish n s = some (.ok resp, b, msgs)) :
    ∀ i < n, ∃ r, returned (s.results i) = some r := by
  intro i hi
  unfold finish at h
  simp only at h
  split at h
  · cases h
  · obtain ⟨rs, hrs, -⟩ := Option.map_eq_some_iff.mp h
    have hmem : returned (s.results i) ∈ ((List.range n).map s.results).map returned :=
      List.mem_map_of_mem (List.mem_map_of_mem (List.mem_range.mpr hi))
    rw [ParMap.mapM_eq_some_iff.mp hrs] at hmem
    obtain ⟨r, -, hr⟩ := List.mem_map.mp hmem
    exact ⟨r, hr.symm⟩

/-- The end of the parallel map: every task has run and none has panicked. -/
structure Done (svc : ClientService) (timestamp : UInt64) (scis : List SignedContingentInput)
    (S : Set Quote) (book : InMemoryQuoteBook)
    (s : ParMap.State InMemoryQuoteBook (Outcome Error Quote)) : Prop
    extends Progress svc timestamp scis S book s where
  all : ∀ i < scis.length, ∃ r, s.results i = some r
  noPanic : ∀ sci ∈ scis, ∀ m, svc.offer timestamp sci ≠ .panic m

namespace Done

variable {s : ParMap.State InMemoryQuoteBook (Outcome Error Quote)}

theorem answerAt (h : Done svc timestamp scis S book s) {i : Nat} {o : Outcome Error Quote}
    (ho : svc.offerAt timestamp scis i = some o) :
    i < scis.length ∧ ∃ sci r, svc.offer timestamp sci = o ∧ s.results i = some r ∧
      Answer svc timestamp s.shared.quotes sci r := by
  obtain ⟨sci, hsci, rfl⟩ := Option.map_eq_some_iff.mp ho
  have hi : i < scis.length := (List.getElem?_eq_some_iff.mp hsci).1
  obtain ⟨r, hr⟩ := h.all i hi
  obtain ⟨sci', hsci', hans⟩ := h.answers i r hr
  obtain rfl := Option.some.inj (hsci.symm.trans hsci')
  exact ⟨hi, sci, r, rfl, hr, hans⟩

theorem answer_of_offered (h : Done svc timestamp scis S book s) {i : Nat} {q : Quote}
    (ho : svc.offerAt timestamp scis i = some (.ok q)) :
    i < scis.length ∧
      ((s.results i = some (.ok q) ∧ q ∈ s.shared.quotes) ∨
        ∃ e ∈ s.shared.quotes, e.key = q.key ∧
          s.results i = some (.err (.quoteAlreadyExists e))) := by
  obtain ⟨hi, sci, r, hoff, hr, hans⟩ := h.answerAt ho
  simp only [Answer, hoff] at hans
  refine ⟨hi, ?_⟩
  rcases hans with ⟨rfl, hq⟩ | ⟨e, he, hkey, rfl⟩
  · exact .inl ⟨hr, hq⟩
  · exact .inr ⟨e, he, hkey, hr⟩

theorem exists_key_of_offered (h : Done svc timestamp scis S book s) {i : Nat} {q : Quote}
    (ho : svc.offerAt timestamp scis i = some (.ok q)) : ∃ e ∈ s.shared.quotes, e.key = q.key := by
  rcases (h.answer_of_offered ho).2 with ⟨-, hq⟩ | ⟨e, he, hkey, -⟩
  · exact ⟨q, hq, rfl⟩
  · exact ⟨e, he, hkey⟩

theorem offerAt_of_created (h : Done svc timestamp scis S book s) {i : Nat} {q : Quote}
    (hi : i < scis.length) (hc : created (s.results i) = some q) :
    svc.offerAt timestamp scis i = some (.ok q) := by
  obtain ⟨r, hr⟩ := h.all i hi
  obtain ⟨sci, hsci, hans⟩ := h.answers i r hr
  rw [hr] at hc
  simp only [offerAt, hsci, Option.map_some]
  unfold Answer at hans
  cases ho : svc.offer timestamp sci with
  | ok q' =>
      simp only [ho] at hans
      rcases hans with ⟨rfl, -⟩ | ⟨e, -, -, rfl⟩
      · rw [Option.some.inj hc]
      · cases hc
  | err e =>
      simp only [ho] at hans
      subst hans
      cases hc
  | panic m =>
      simp only [ho] at hans
      subst hans
      cases hc

theorem returned (h : Done svc timestamp scis S book s) :
    ∀ i < scis.length, ∃ r, ClientService.returned (s.results i) = some r := by
  intro i hi
  obtain ⟨r, hr⟩ := h.all i hi
  obtain ⟨sci, hsci, hans⟩ := h.answers i r hr
  cases r with
  | ok q => exact ⟨.ok q, by rw [hr]; rfl⟩
  | err e => exact ⟨.error e, by rw [hr]; rfl⟩
  | panic m =>
      unfold Answer at hans
      cases ho : svc.offer timestamp sci with
      | ok q => simp [ho] at hans
      | err e => simp [ho] at hans
      | panic m' => exact absurd ho (h.noPanic sci (List.mem_of_getElem? hsci) m')

theorem keys_nodup (h : Done svc timestamp scis S book s) :
    ((((List.range scis.length).filterMap fun i => created (s.results i)) ++
      book.quotes).map Quote.key).Nodup :=
  (h.contents.map _).nodup_iff.mp h.keyed.keys

theorem key_ne_of_created (h : Done svc timestamp scis S book s) {i : Nat} {q : Quote}
    (hi : i < scis.length) (hc : created (s.results i) = some q) :
    ∀ e ∈ book.quotes, e.key ≠ q.key := by
  intro e he hkey
  have hn := h.keys_nodup
  rw [List.map_append, List.nodup_append] at hn
  refine hn.2.2 q.key ?_ e.key (List.mem_map_of_mem he) hkey.symm
  exact List.mem_map_of_mem (List.mem_filterMap.mpr ⟨i, List.mem_range.mpr hi, hc⟩)

theorem eq_of_created (h : Done svc timestamp scis S book s) {i j : Nat} {q q' : Quote}
    (hi : i < scis.length) (hj : j < scis.length) (hc : created (s.results i) = some q)
    (hc' : created (s.results j) = some q') (hkey : q.key = q'.key) : i = j := by
  have hn := h.keys_nodup
  rw [List.map_append, List.nodup_append, List.map_filterMap] at hn
  refine ParMap.eq_of_filterMap_nodup hn.1 (List.mem_range.mpr hi) (List.mem_range.mpr hj)
    (d := q.key) ?_ ?_
  · rw [hc]
    rfl
  · rw [hc', hkey]
    rfl

theorem mem_initial (h : Done svc timestamp scis S book s) {e : Quote} (he : e ∈ book.quotes) :
    e ∈ s.shared.quotes :=
  h.contents.mem_iff.mpr (List.mem_append_right _ he)

theorem cases_of_mem (h : Done svc timestamp scis S book s) {e : Quote}
    (he : e ∈ s.shared.quotes) :
    e ∈ book.quotes ∨ ∃ w < scis.length, created (s.results w) = some e := by
  rcases List.mem_append.mp (h.contents.mem_iff.mp he) with hc | hb
  · obtain ⟨w, hw, hc⟩ := List.mem_filterMap.mp hc
    exact .inr ⟨w, List.mem_range.mp hw, hc⟩
  · exact .inl hb

theorem code_error_ne_created (codec : SciCodec) (e : Error) :
    (entryOf codec (.error e)).1 ≠ .created := by
  cases e <;> simp [entryOf, QuoteStatusCode.ofError]

theorem newQuotes_eq (h : Done svc timestamp scis S book s) {rs : List (Except Error Quote)}
    (hget : ∀ i < scis.length, ClientService.returned (s.results i) = rs[i]?) :
    svc.newQuotes timestamp scis (svc.respond rs).1 =
      (List.range scis.length).filterMap fun i => created (s.results i) := by
  refine List.filterMap_congr ?_
  intro i hi
  have hlt := List.mem_range.mp hi
  obtain ⟨r, hr⟩ := h.all i hlt
  have hrs := hget i hlt
  have hcode : (svc.respond rs).1.statusCodes[i]? =
      rs[i]?.map (fun r => (entryOf svc.codec r).1) := by
    rw [respond_eq, List.getElem?_map]
  rw [hcode, ← hrs, hr]
  cases r with
  | ok q =>
      rw [h.offerAt_of_created hlt (q := q) (by rw [hr]; rfl)]
      rfl
  | err e =>
      have hne := code_error_ne_created svc.codec e
      simp only [ClientService.returned, Option.map_some, created]
      split
      · next hc _ => exact absurd (Option.some.inj hc) hne
      · rfl
  | panic m =>
      obtain ⟨r', hr'⟩ := h.returned i hlt
      rw [hr] at hr'
      cases hr'

/-- **The call serves its request**, once all tasks have run. -/
theorem served (h : Done svc timestamp scis S book s) :
    ∃ resp msgs, svc.finish scis.length s = some (.ok resp, s.shared, msgs) ∧
      Served svc timestamp scis book s.shared resp msgs := by
  obtain ⟨rs, hfin, hlen, hget, hcreated⟩ := finish_of_returned svc h.returned
  have hnew := h.newQuotes_eq hget
  have hentry : ∀ {i : Nat} {r : Outcome Error Quote} {r' : Except Error Quote},
      i < scis.length → s.results i = some r → ClientService.returned (some r) = some r' →
      (svc.respond rs).1.entry i = some (entryOf svc.codec r') := by
    intro i r r' hi hr hr'
    rw [entry_respond, ← hget i hi, hr, hr']
    rfl
  refine ⟨_, _, hfin, ?_, ?_, ?_, ?_, ?_, ?_, ?_⟩
  · rw [respond_eq]
    simp [hlen]
  · intro i e ho
    obtain ⟨hi, sci, r, hoff, hr, hans⟩ := h.answerAt ho
    simp only [Answer, hoff] at hans
    exact hentry hi hr (hans ▸ rfl)
  · intro i q ho e he hkey
    obtain ⟨hi, ⟨hr, -⟩ | ⟨e', he', hkey', hr⟩⟩ := h.answer_of_offered ho
    · exact absurd hkey (h.key_ne_of_created hi (q := q) (by rw [hr]; rfl) e he)
    · obtain rfl := h.keyed.eq_of_key he' (h.mem_initial he) (hkey'.trans hkey.symm)
      exact hentry hi hr rfl
  · intro i q ho hnone
    -- somebody holds the key in the end, and it was not there
    obtain ⟨q', hq', hkey'⟩ := h.exists_key_of_offered ho
    rcases h.cases_of_mem hq' with hb | ⟨w, hw, hc⟩
    · exact absurd hkey' (hnone q' hb)
    · have hres : s.results w = some (.ok q') := by
        obtain ⟨r, hr⟩ := h.all w hw
        rw [hr] at hc ⊢
        cases r with
        | ok q'' => rw [Option.some.inj hc]
        | err e => cases hc
        | panic m => cases hc
      refine ⟨w, q', h.offerAt_of_created hw hc, hkey', hentry hw hres rfl, ?_⟩
      intro j q'' hoj hkeyj hne
      obtain ⟨hj, ⟨hr, -⟩ | ⟨e, he, hkeye, hr⟩⟩ := h.answer_of_offered hoj
      · exact absurd (h.eq_of_created hj hw (q := q'') (by rw [hr]; rfl) hc
          (hkeyj.trans hkey'.symm)) hne
      · obtain rfl := h.keyed.eq_of_key he hq' (hkeye.trans (hkeyj.trans hkey'.symm))
        exact hentry hj hr rfl
  · rw [hnew]
    exact h.contents
  · rw [hnew, respond_eq, hcreated]
  · intro k
    constructor
    · intro hk
      obtain ⟨e, he, rfl⟩ := List.mem_map.mp hk
      rcases h.cases_of_mem he with hb | ⟨w, hw, hc⟩
      · exact .inl (List.mem_map_of_mem hb)
      · exact .inr ⟨w, e, h.offerAt_of_created hw hc, rfl⟩
    · rintro (hk | ⟨i, q, ho, rfl⟩)
      · obtain ⟨e, he, rfl⟩ := List.mem_map.mp hk
        exact List.mem_map_of_mem (h.mem_initial he)
      · obtain ⟨e, he, hkey⟩ := h.exists_key_of_offered ho
        exact List.mem_map.mpr ⟨e, he, hkey⟩

end Done

/-- A request that is neither too long nor unreadable is a run of the parallel map and what
follows it. -/
theorem submitQuotesImpl_eq (timestamp : UInt64) {req : SubmitQuotesRequest}
    (hlen : req.quotes.length < MAX_SIMULTANEOUS_QUOTES)
    (hconv : req.quotes.mapM svc.codec.ofApi = .ok scis)
    (schedule : List (ParMap.Turn BookAct)) (book : InMemoryQuoteBook) :
    svc.submitQuotesImpl (some timestamp) req schedule book =
      (Lts.exec (svc.parStep timestamp scis) (ParMap.start book) schedule).bind
        (svc.finish scis.length) := by
  simp only [submitQuotesImpl, if_neg (Nat.not_le.mpr hlen), hconv]
  cases Lts.exec (svc.parStep timestamp scis) (ParMap.start book) schedule with
  | none => rfl
  | some s => rfl

/-- **What is behind a response**: a request that could be read, and the result of one task
for each entry.  `P` is what a task makes certain of its result, on whatever book. -/
theorem answered_of_submitQuotesImpl {clock : Option UInt64} {req : SubmitQuotesRequest}
    {schedule : List (ParMap.Turn BookAct)} {book book' : InMemoryQuoteBook}
    {resp : SubmitQuotesResponse} {msgs : List Msg}
    {P : UInt64 → SignedContingentInput → Outcome Error Quote → Prop}
    (hP : ∀ timestamp sci (b : InMemoryQuoteBook), P timestamp sci
      (svc.submitSci (fun quote book => book.addQuote quote) timestamp sci b).1)
    (h : svc.submitQuotesImpl clock req schedule book = some (.ok resp, book', msgs)) :
    ∃ timestamp scis rs, clock = some timestamp ∧ req.quotes.mapM svc.codec.ofApi = .ok scis ∧
      resp = (svc.respond rs).1 ∧ ∀ (i : Nat) r', rs[i]? = some r' →
        ∃ sci r, scis[i]? = some sci ∧ P timestamp sci r ∧ returned (some r) = some r' := by
  unfold submitQuotesImpl at h
  split at h
  · cases h
  · cases clock with
    | none => cases h
    | some timestamp =>
        simp only at h
        split at h
        · cases h
        · next scis hconv =>
            split at h
            · cases h
            · next s hexec =>
                have hres := (ParMap.results_of_run (I := fun _ => True) (P := P timestamp)
                  (fun _ _ => ⟨hP .., trivial⟩) (fun _ _ _ => trivial) (Lts.run_of_exec hexec)
                  trivial (fun i r hr => by cases hr)).2
                obtain ⟨rs, hfin, hlen, hget, -⟩ := finish_of_returned svc (returned_of_finish h)
                rw [hfin] at h
                obtain ⟨hresp, -⟩ := Prod.mk.inj (Option.some.inj h)
                refine ⟨timestamp, scis, rs, rfl, hconv, (Outcome.ok.inj hresp).symm, ?_⟩
                intro i r' hr'
                have hi : i < scis.length := hlen ▸ (List.getElem?_eq_some_iff.mp hr').1
                have hret := (hget i hi).trans hr'
                cases hr : s.results i with
                | none => simp [hr, returned] at hret
                | some r =>
                    rw [hr] at hret
                    obtain ⟨sci, hsci, hr⟩ := hres i r hr
                    exact ⟨sci, r, hsci, hr, hret⟩

/-- Every order of the tasks is a schedule of the call, and when it is through, every task
has a result. -/
theorem exists_parRun (svc : ClientService) (timestamp : UInt64) {order : List Nat}
    (ho : order.Perm (List.range scis.length)) (book : InMemoryQuoteBook) :
    ∃ s, Lts.exec (svc.parStep timestamp scis) (ParMap.start book) (order.map .task) = some s ∧
      Lts.Run (svc.parStep timestamp scis) (fun _ t => ∃ i, t = .task i) (ParMap.start book)
        (order.map .task) s ∧
      ∀ i < scis.length, ∃ r, s.results i = some r := by
  obtain ⟨s, hexec⟩ := ParMap.exec_tasks
    (svc.submitSci (fun quote book => book.addQuote quote) timestamp)
    (BookAct.act svc.mc) scis (s := ParMap.start book)
    (ho.nodup_iff.mpr List.nodup_range)
    (fun i hi => ⟨List.mem_range.mp (ho.mem_iff.mp hi), rfl⟩)
  have hrun := Lts.run_of_exec hexec
  refine ⟨s, hexec, hrun.of_forall ?_, ?_⟩
  · intro t ht _
    obtain ⟨i, -, rfl⟩ := List.mem_map.mp ht
    exact ⟨i, rfl⟩
  · intro i hi
    refine Option.isSome_iff_exists.mp ((ParMap.isSome_results hrun i).mpr (.inr ?_))
    exact List.mem_map_of_mem (ho.mem_iff.mpr (List.mem_range.mpr hi))

/-- What an answer becomes behind a poisoned lock. -/
def locked : Outcome Error Quote → Outcome Error Quote
  | .ok _ => .err .lockPoisoned
  | o => o

/-- **Behind a poisoned lock**: what would have come to the book is answered
`LockPoisoned`, and nothing is changed or sent. -/
theorem locked_served (hp : book.poisoned = true)
    (hnew : ∀ sci ∈ scis, ∀ m, svc.offer timestamp sci ≠ .panic m)
    {s : ParMap.State InMemoryQuoteBook (Outcome Error Quote)} {ts : List (ParMap.Turn BookAct)}
    (hrun : Lts.Run (svc.parStep timestamp scis) (fun _ t => ∃ i, t = .task i)
      (ParMap.start book) ts s)
    (hall : ∀ i < scis.length, ∃ r, s.results i = some r) :
    ∃ resp, svc.finish scis.length s = some (.ok resp, book, []) ∧
      (∀ i e, svc.offerAt timestamp scis i = some (.err e) →
        resp.entry i = some (entryOf svc.codec (.error e))) ∧
      ∀ i q, svc.offerAt timestamp scis i = some (.ok q) →
        resp.entry i = some (entryOf svc.codec (.error .lockPoisoned)) := by
  -- the book stays as it is, so each answer is known
  have hkept : s.shared = book ∧ ∀ i r, s.results i = some r →
      ∃ sci, scis[i]? = some sci ∧ r = locked (svc.offer timestamp sci) := by
    refine ParMap.results_of_run (I := fun b => b = book)
      (P := fun sci r => r = locked (svc.offer timestamp sci)) ?_ ?_ hrun rfl
      (fun i r h => by cases h)
    · rintro sci _ - rfl
      rw [submitSci_eq]
      cases svc.offer timestamp sci with
      | ok q => simp [locked, InMemoryQuoteBook.addQuote, hp]
      | err e => exact ⟨rfl, rfl⟩
      | panic m => exact ⟨rfl, rfl⟩
    · rintro s₁ c b ⟨i, hi⟩
      cases hi
  obtain ⟨hshared, hres⟩ := hkept
  have hret : ∀ i < scis.length, ∃ r, returned (s.results i) = some r := by
    intro i hi
    obtain ⟨r, hr⟩ := hall i hi
    obtain ⟨sci, hsci, rfl⟩ := hres i r hr
    rw [hr]
    cases hoff : svc.offer timestamp sci with
    | ok q => exact ⟨_, rfl⟩
    | err e => exact ⟨_, rfl⟩
    | panic m => exact absurd hoff (hnew sci (List.mem_of_getElem? hsci) m)
  obtain ⟨rs, hfin, -, hget, hcreated⟩ := finish_of_returned svc hret
  have hnone : rs.filterMap createdOf = [] := by
    rw [hcreated, List.filterMap_eq_nil_iff]
    intro i hi
    obtain ⟨r, hr⟩ := hall i (List.mem_range.mp hi)
    obtain ⟨sci, -, rfl⟩ := hres i r hr
    rw [hr]
    cases svc.offer timestamp sci with
    | ok q => rfl
    | err e => rfl
    | panic m => rfl
  have hentry : ∀ {i o}, svc.offerAt timestamp scis i = some o →
      (svc.respond rs).1.entry i = (returned (some (locked o))).map (entryOf svc.codec) := by
    intro i o hoff
    obtain ⟨sci, hsci, rfl⟩ := Option.map_eq_some_iff.mp hoff
    have hi : i < scis.length := (List.getElem?_eq_some_iff.mp hsci).1
    obtain ⟨r, hr⟩ := hall i hi
    obtain ⟨sci', hsci', rfl⟩ := hres i r hr
    obtain rfl := Option.some.inj (hsci.symm.trans hsci')
    rw [entry_respond, ← hget i hi, hr]
  refine ⟨(svc.respond rs).1, ?_, ?_, ?_⟩
  · rw [hfin, hshared, respond_eq, hnone]
    rfl
  · intro i e hoff
    rw [hentry hoff]
    rfl
  · intro i q hoff
    rw [hentry hoff]
    rfl

/-- **`submit_quotes_impl` serves every order of its tasks.**  On a sound lock the answers
are aligned with the request, of those that compete for a key exactly one is created and
the others are answered with it, the book gains what was created and nothing else, each
created quote is announced once, and the keys the book ends up with do not depend on the
order.  On a poisoned lock what would have come to the book is answered `LockPoisoned`. -/
theorem submitQuotes_served (hS : Genuine svc.mc S) (hk : book.Keyed S)
    {req : SubmitQuotesRequest} (hlen : req.quotes.length < MAX_SIMULTANEOUS_QUOTES)
    (hconv : req.quotes.mapM svc.codec.ofApi = .ok scis)
    (hoffer : ∀ sci ∈ scis, ∀ q, svc.offer timestamp sci = .ok q → q ∈ S)
    (hnew : ∀ sci ∈ scis, ∀ m, svc.offer timestamp sci ≠ .panic m) {order : List Nat}
    (ho : order.Perm (List.range scis.length)) :
    (book.poisoned = false → ∃ resp book' msgs,
      svc.submitQuotesImpl (some timestamp) req (order.map .task) book =
        some (.ok resp, book', msgs) ∧
      Served svc timestamp scis book book' resp msgs) ∧
    (book.poisoned = true → ∃ resp,
      svc.submitQuotesImpl (some timestamp) req (order.map .task) book =
        some (.ok resp, book, []) ∧
      (∀ i e, svc.offerAt timestamp scis i = some (.err e) →
        resp.entry i = some (entryOf svc.codec (.error e))) ∧
      ∀ i q, svc.offerAt timestamp scis i = some (.ok q) →
        resp.entry i = some (entryOf svc.codec (.error .lockPoisoned))) := by
  obtain ⟨s, hexec, hrun, hall⟩ := exists_parRun svc timestamp ho book
  have heq := submitQuotesImpl_eq timestamp hlen hconv (order.map .task) book
  rw [hexec, Option.bind_some] at heq
  rw [heq]
  refine ⟨?_, ?_⟩
  · intro hp
    have hprog : Progress svc timestamp scis S book s := by
      refine hrun.inv (Progress svc timestamp scis S book) ?_ (progress_start hk hp)
      rintro s₁ t s₂ h ⟨i, rfl⟩ hs
      exact h.step hS hoffer hs
    obtain ⟨resp, msgs, hfin, hserved⟩ := Done.served ⟨hprog, hall, hnew⟩
    exact ⟨resp, s.shared, msgs, hfin, hserved⟩
  · intro hp
    exact locked_served hp hnew hrun hall

/-! ## On concrete requests -/

def sampleService : ClientService := ⟨sampleCore, sampleCodec, quoteMinimumValidator fun _ => none⟩

def sampleOffers : Set Quote :=
  {q | q = sampleQuote 1 10 20 100 7 ∨ q = sampleQuote 2 10 20 100 7}

theorem sampleOffers_genuine : Genuine sampleCore sampleOffers where
  made := by
    rintro q (rfl | rfl)
    · exact sampleQuote_made ..
    · exact sampleQuote_made ..
  collisionFree := by
    rintro q q' (rfl | rfl) (rfl | rfl) <;> decide

/-- One SCI twice and another once; the second task is the first to come to the book. -/
theorem repeated_sci_served : ∃ resp book' msgs,
    sampleService.submitQuotesImpl (some 7) ⟨[⟨[1]⟩, ⟨[1]⟩, ⟨[2]⟩]⟩ ([1, 2, 0].map .task)
      .default = some (.ok resp, book', msgs) ∧
    Served sampleService 7
      [sampleSci 1 10 20 100, sampleSci 1 10 20 100, sampleSci 2 10 20 100] .default book'
      resp msgs := by
  have hnew : ∀ sci ∈ [sampleSci 1 10 20 100, sampleSci 1 10 20 100, sampleSci 2 10 20 100],
      ∀ m, sampleService.offer 7 sci ≠ .panic m := by
    simp only [List.mem_cons, List.not_mem_nil, or_false]
    rintro sci (rfl | rfl | rfl) m hm
    · cases hm
    · cases hm
    · cases hm
  refine (submitQuotes_served (S := sampleOffers) sampleOffers_genuine
    InMemoryQuoteBook.keyed_default (by decide) rfl ?_ hnew (by decide)).1 rfl
  simp only [List.mem_cons, List.not_mem_nil, or_false]
  rintro sci (rfl | rfl | rfl) q hq
  · exact .inl (Outcome.ok.inj hq).symm
  · exact .inl (Outcome.ok.inj hq).symm
  · exact .inr (Outcome.ok.inj hq).symm

/-- The calls that bring the book to a panic: the three quotes in no order are added and the
second is removed. -/
def poisoningCalls : List Call :=
  [.addQuote (sampleQuote 1 1 2 0 1), .addQuote (sampleQuote 2 0 0 0 2),
    .addQuote (sampleQuote 3 2 1 0 3), .removeQuoteById ⟨.fill 2⟩]

def poisonedBook : InMemoryQuoteBook :=
  poisoningCalls.foldl (fun book call => (book.apply sampleCore call).2) .default

/-- A valid SCI whose key the book does not hold is answered with an error that is neither
the validator's nor `Quote::new`'s. -/
theorem poisoned_book_refuses :
    (∃ rs, Answers sampleCore .default poisoningCalls rs poisonedBook) ∧
    sampleService.offer 7 (sampleSci 4 10 20 100) = .ok (sampleQuote 4 10 20 100 7) ∧
    (poisonedBook.quotes.map Quote.key).contains (sampleQuote 4 10 20 100 7).key = false ∧
    sampleService.submitQuotesImpl (some 7) ⟨[⟨[4]⟩]⟩ [.task 0] poisonedBook =
      some (.ok ⟨[.other], ["LockPoisoned"], [.default]⟩, poisonedBook, []) := by
  refine ⟨?_, rfl, by decide, rfl⟩
  exact ⟨_, .cons (List.Perm.refl _) rfl (.cons (List.Perm.refl _) rfl
    (.cons (List.Perm.refl _) rfl (.cons (List.Perm.refl _) rfl (.nil _))))⟩

end ClientService
end Deqs
