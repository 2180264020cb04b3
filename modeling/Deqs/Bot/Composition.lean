/-
# The bot and the server

The bot takes what the server answers on trust.  Where the server says `CREATED` the bot
asserts that the quote holds the SCI it sent; where it says `QUOTE_ALREADY_EXISTS` the bot
lists whatever quote came with it.  Over an arbitrary server the first can be made to fail
and the second to list a quote of somebody else's TxOut.  Over the server of this
repository neither happens, and this file is about why.

    request            the SCIs of the entries sent, in their order
    submit_quotes_impl one result per SCI, in that order, whatever the schedule
    InMemoryQuoteBook  a refusal carries a quote with the key image that was offered
    response           entry `i` is about SCI `i`
    izip!              the loop reads entry `i` against the `i`th entry sent

Other clients act on the book before, between and during the exchanges of the bot, any
exchange can fail on either side of the server, and the book may start in any state: none of
this is used against the bot, because each link of the chain above is local to one SCI.
What is needed of the outside is that an SCI survives the wire and that the SCI made for a
TxOut has its key image.  Of the service's validator it matters that it does not itself
answer "already exists"; the one `GrpcServer` installs does not.
-/
import Deqs.Bot.Tracking
import Deqs.Server.ClientService

namespace Deqs

/-! ## What `submit_quotes_impl` says about an SCI -/

/-- The result of the closure for `sci`: a quote of that SCI, or one that has its key
image, or some other error. -/
def AboutSci (sci : SignedContingentInput) : Outcome Error Quote → Prop
  | .ok q => q.sci = sci
  | .err (.quoteAlreadyExists e) => e.keyImage = sci.keyImage
  | _ => True

theorem Quote.sci_new {mc : McCore} {now timestamp : Option UInt64} {sci : SignedContingentInput}
    {q : Quote} (h : Quote.new mc now sci timestamp = .ok q) : q.sci = sci := by
  obtain ⟨t, -, h⟩ := Outcome.bind_eq_ok.mp h
  obtain ⟨u, -, h⟩ := Outcome.bind_eq_ok.mp h
  obtain ⟨terms, -, h⟩ := Outcome.bind_eq_ok.mp h
  rw [← Outcome.ok.inj h]

namespace ClientService

variable {svc : ClientService} {minimums : TokenId → Option UInt64}

theorem submitSci_aboutSci (hv : svc.sciValidator = quoteMinimumValidator minimums)
    (timestamp : UInt64) (sci : SignedContingentInput) (book : InMemoryQuoteBook) :
    AboutSci sci
      (svc.submitSci (fun quote book => book.addQuote quote) timestamp sci book).1 := by
  unfold submitSci
  rw [hv]
  cases hval : quoteMinimumValidator minimums sci with
  | error e =>
      -- the validator's one error
      unfold quoteMinimumValidator at hval
      simp only at hval
      split at hval
      · cases hval
        trivial
      · cases hval
  | ok u =>
      simp only [addSci]
      cases hn : Quote.new svc.mc none sci (some timestamp) with
      | err e =>
          cases e with
          | quoteAlreadyExists q => exact absurd hn (Quote.new_ne_exists _ _ _ _ q)
          | _ => trivial
      | panic m => trivial
      | ok q =>
          have hsci : q.sci = sci := Quote.sci_new hn
          rcases book.addQuote_cases q with
            ⟨-, heq⟩ | ⟨-, e, -, hkey, heq⟩ | ⟨-, -, ⟨qs, -, heq⟩ | ⟨-, heq⟩⟩
          · simp only [heq]
            trivial
          · simp only [heq]
            show e.keyImage = sci.keyImage
            rw [hkey, Quote.keyImage, hsci]
          · simp only [heq]
            exact hsci
          · simp only [heq]
            trivial

end ClientService

/-- The response is about these SCIs, entry by entry: a created quote holds the SCI, an
existing one has its key image. -/
def Truthful (codec : SciCodec) (scis : List SignedContingentInput)
    (resp : SubmitQuotesResponse) : Prop :=
  ∀ (i : Nat) (sci : SignedContingentInput) (code : QuoteStatusCode) (msg : String)
    (quote : ApiQuote), scis[i]? = some sci → resp.entry i = some (code, msg, quote) →
    (code = .created → ∃ q : Quote, quote = q.toApi codec ∧ q.sci = sci) ∧
    (code = .quoteAlreadyExists →
      ∃ q : Quote, quote = q.toApi codec ∧ q.keyImage = sci.keyImage)

theorem ClientService.entryOf_truthful (codec : SciCodec) {sci : SignedContingentInput}
    {r : Outcome Error Quote} (hr : AboutSci sci r) {r' : Except Error Quote}
    (hr' : returned (some r) = some r') :
    ((entryOf codec r').1 = .created →
      ∃ q : Quote, (entryOf codec r').2.2 = q.toApi codec ∧ q.sci = sci) ∧
    ((entryOf codec r').1 = .quoteAlreadyExists →
      ∃ q : Quote, (entryOf codec r').2.2 = q.toApi codec ∧ q.keyImage = sci.keyImage) := by
  cases r with
  | panic m => cases hr'
  | ok q =>
      obtain rfl := Option.some.inj hr'
      exact ⟨fun _ => ⟨q, rfl, hr⟩, fun h => by cases h⟩
  | err e =>
      obtain rfl := Option.some.inj hr'
      refine ⟨fun h => absurd h (Done.code_error_ne_created codec e), ?_⟩
      cases e with
      | quoteAlreadyExists q => exact fun _ => ⟨q, rfl, hr⟩
      | _ => exact fun h => by cases h

theorem SciCodec.Lossless.mapM {codec : SciCodec} (hc : codec.Lossless) :
    ∀ scis : List SignedContingentInput, (scis.map codec.toApi).mapM codec.ofApi = .ok scis
  | [] => rfl
  | sci :: scis => by
      simp only [List.map_cons, List.mapM_cons, hc sci, SciCodec.Lossless.mapM hc scis]
      rfl

/-- **The server is truthful**, for every book, schedule and clock. -/
theorem ClientService.submitQuotesImpl_truthful {svc : ClientService}
    {minimums : TokenId → Option UInt64} (hc : svc.codec.Lossless)
    (hv : svc.sciValidator = quoteMinimumValidator minimums) {clock : Option UInt64}
    {scis : List SignedContingentInput} {schedule : List (ParMap.Turn BookAct)}
    {book book' : InMemoryQuoteBook} {resp : SubmitQuotesResponse} {msgs : List Msg}
    (h : svc.submitQuotesImpl clock ⟨scis.map svc.codec.toApi⟩ schedule book =
      some (.ok resp, book', msgs)) :
    Truthful svc.codec scis resp := by
  obtain ⟨-, scis', rs, -, hconv, rfl, hrs⟩ := answered_of_submitQuotesImpl
    (P := fun _ => AboutSci) (submitSci_aboutSci hv) h
  obtain rfl := Except.ok.inj ((hc.mapM scis).symm.trans hconv)
  intro i sci code msg quote hsci hentry
  rw [entry_respond] at hentry
  obtain ⟨r', hr', hentry⟩ := Option.map_eq_some_iff.mp hentry
  obtain ⟨sci', r, hsci', habout, hret⟩ := hrs i r' hr'
  obtain rfl := Option.some.inj (hsci.symm.trans hsci')
  have htruth := entryOf_truthful svc.codec habout hret
  rw [hentry] at htruth
  exact htruth

namespace Bot

/-! ## What the bot makes of a truthful response -/

structure Entry.About {α : Type} (codec : SciCodec) (sci : SignedContingentInput) (e : Entry α) :
    Prop where
  created : e.statusCode = .created → ∃ q : Quote, e.quote = q.toApi codec ∧ q.sci = sci
  existing : e.statusCode = .quoteAlreadyExists →
    ∃ q : Quote, e.quote = q.toApi codec ∧ q.keyImage = sci.keyImage

theorem mem_izip {α : Type} {e : Entry α} : ∀ {sent : List α} {codes : List QuoteStatusCode}
    {msgs : List String} {quotes : List ApiQuote} {clock : Nat → UInt64},
    e ∈ izip clock sent codes msgs quotes → ∃ i : Nat, sent[i]? = some e.sent ∧
      codes[i]? = some e.statusCode ∧ msgs[i]? = some e.errorMsg ∧ quotes[i]? = some e.quote
  | x :: xs, code :: codes, msg :: msgs, quote :: quotes, clock, h => by
      rcases List.mem_cons.mp h with rfl | h
      · exact ⟨0, rfl, rfl, rfl, rfl⟩
      · obtain ⟨i, hi⟩ := mem_izip h
        exact ⟨i + 1, by simpa using hi⟩

theorem about_of_truthful {α : Type} {codec : SciCodec} {sciOf : α → SignedContingentInput}
    {w : Exchange} {sent : List α} {resp : SubmitQuotesResponse}
    (h : Truthful codec (sent.map sciOf) resp) {e : Entry α} (he : e ∈ entries w sent resp) :
    e.sent ∈ sent ∧ e.About codec (sciOf e.sent) := by
  obtain ⟨i, hsent, hcode, hmsg, hquote⟩ := mem_izip he
  have hsci : (sent.map sciOf)[i]? = some (sciOf e.sent) := by
    rw [List.getElem?_map, hsent]
    rfl
  have hentry : resp.entry i = some (e.statusCode, e.errorMsg, e.quote) := by
    simp only [SubmitQuotesResponse.entry, hcode, hmsg, hquote]
  obtain ⟨hc, hx⟩ := h i _ _ _ _ hsci hentry
  exact ⟨List.mem_of_getElem? hsent, hc, hx⟩

theorem tryFromQuote_toApi {codec : SciCodec} (hc : codec.Lossless) (q : Quote) :
    tryFromQuote codec (q.toApi codec) = .ok q := by
  rw [tryFromQuote, Quote.ofApi_toApi hc]
  rfl

/-- A listed entry is about its own TxOut. -/
def ListedTxOut.Matched (l : ListedTxOut) : Prop := l.quote.sci.keyImage = l.matchedTxOut.keyImage

def PendingTxOut.Matched (p : PendingTxOut) : Prop := p.sci.keyImage = p.matchedTxOut.keyImage

theorem settlePending_of_about {codec : SciCodec} (hc : codec.Lossless) {e : Entry PendingTxOut}
    (he : e.About codec e.sent.sci) (hm : e.sent.Matched) :
    ∃ r, settlePending codec e = .ok r ∧ ∀ l, r = some l → l.Matched := by
  cases hcode : e.statusCode with
  | created =>
      obtain ⟨q, hq, hsci⟩ := he.created hcode
      refine ⟨some ⟨e.sent.matchedTxOut, q, e.now⟩, ?_, ?_⟩
      · simp [settlePending, hcode, hq, tryFromQuote_toApi hc, hsci]
      · rintro l ⟨⟩
        show q.sci.keyImage = e.sent.matchedTxOut.keyImage
        rw [hsci]
        exact hm
  | quoteAlreadyExists =>
      obtain ⟨q, hq, hkey⟩ := he.existing hcode
      refine ⟨some ⟨e.sent.matchedTxOut, q, e.now⟩, ?_, ?_⟩
      · simp [settlePending, hcode, hq, tryFromQuote_toApi hc]
      · rintro l ⟨⟩
        exact hkey.trans hm
  | invalidSci => exact ⟨none, by simp [settlePending, hcode], by simp⟩
  | unsupportedSci => exact ⟨none, by simp [settlePending, hcode], by simp⟩
  | quoteIsStale => exact ⟨none, by simp [settlePending, hcode], by simp⟩
  | other => exact ⟨none, by simp [settlePending, hcode], by simp⟩

/-- The assertion of `resubmit_listed_tx_outs` holds, and what stays listed is about its
TxOut. -/
theorem settleListed_of_about {codec : SciCodec} (hc : codec.Lossless) {e : Entry ListedTxOut}
    (he : e.About codec e.sent.quote.sci) (hm : e.sent.Matched) :
    ∃ r, settleListed codec e = .ok r ∧ ∀ l, r = some l → l.Matched := by
  cases hcode : e.statusCode with
  | created =>
      obtain ⟨q, hq, hsci⟩ := he.created hcode
      refine ⟨some { e.sent with quote := q, lastSubmittedAt := e.now }, ?_, ?_⟩
      · simp [settleListed, hcode, hq, tryFromQuote_toApi hc, hsci]
      · rintro l ⟨⟩
        show q.sci.keyImage = e.sent.matchedTxOut.keyImage
        rw [hsci]
        exact hm
  | quoteAlreadyExists =>
      obtain ⟨q, hq, hkey⟩ := he.existing hcode
      refine ⟨some { e.sent with quote := q, lastSubmittedAt := e.now }, ?_, ?_⟩
      · simp only [settleListed, hcode, hq, tryFromQuote_toApi hc, Outcome.bind_ok]
        split
        · next heq => rw [heq]
        · rfl
      · rintro l ⟨⟩
        exact hkey.trans hm
  | invalidSci => exact ⟨none, by simp [settleListed, hcode], by simp⟩
  | unsupportedSci => exact ⟨none, by simp [settleListed, hcode], by simp⟩
  | quoteIsStale => exact ⟨none, by simp [settleListed, hcode], by simp⟩
  | other => exact ⟨none, by simp [settleListed, hcode], by simp⟩

theorem pushEach_matched {α : Type} {settle : Entry α → Outcome Error (Option ListedTxOut)}
    {es : List (Entry α)}
    (h : ∀ e ∈ es, ∃ r, settle e = .ok r ∧ ∀ l, r = some l → l.Matched) :
    (Outcome.pushEach settle es).2 = .ok () ∧
      ∀ l ∈ (Outcome.pushEach settle es).1, l.Matched := by
  refine ⟨Outcome.pushEach_ok fun e he => ?_, ?_⟩
  · obtain ⟨r, hr, -⟩ := h e he
    exact ⟨r, hr⟩
  · intro l hl
    obtain ⟨e, he, hs⟩ := Outcome.mem_pushEach hl
    obtain ⟨r, hr, hm⟩ := h e he
    exact hm l (Outcome.ok.inj (hr.symm.trans hs))

namespace LiquidityBotTask

/-- Every entry of either list is about its own TxOut. -/
structure Matched (task : LiquidityBotTask) : Prop where
  pending : ∀ p ∈ task.pendingTxOuts, p.Matched
  listed : ∀ l ∈ task.listedTxOuts, l.Matched

variable {codec : SciCodec} {task : LiquidityBotTask}

theorem Matched.submitPendingTxOuts (hc : codec.Lossless) (h : task.Matched) {w : Exchange}
    (ht : ∀ resp, w.answer (task.pendingRequest codec) = .ok resp →
      Truthful codec (task.pendingTxOuts.map PendingTxOut.sci) resp) :
    (task.submitPendingTxOuts codec w).1.Matched ∧
      ∀ m, (task.submitPendingTxOuts codec w).2 ≠ .panic m := by
  by_cases hf : ∃ resp, w.answer (task.pendingRequest codec) = .ok resp ∧
      Fits resp task.pendingTxOuts.length
  · obtain ⟨resp, ha, hf⟩ := hf
    have hbody : ∀ e ∈ entries w task.pendingTxOuts resp,
        ∃ r, settlePending codec e = .ok r ∧ ∀ l, r = some l → l.Matched := by
      intro e he
      obtain ⟨hmem, habout⟩ := about_of_truthful (ht resp ha) he
      exact settlePending_of_about hc habout (h.pending _ hmem)
    obtain ⟨hok, hlisted⟩ := pushEach_matched hbody
    rw [submitPendingTxOuts_of_fits ha hf, hok]
    refine ⟨⟨fun p hp => absurd hp List.not_mem_nil, ?_⟩, by simp⟩
    intro l hl
    rcases List.mem_append.mp hl with hl | hl
    · exact h.listed l hl
    · exact hlisted l hl
  · have hnot : ∀ resp, w.answer (task.pendingRequest codec) = .ok resp →
        ¬ Fits resp task.pendingTxOuts.length := fun resp ha hfit => hf ⟨resp, ha, hfit⟩
    refine ⟨?_, submitPendingTxOuts_ne_panic hnot⟩
    rw [submitPendingTxOuts_of_not_fits hnot]
    exact h

theorem Matched.relist (h : task.Matched) {listed : List ListedTxOut}
    (hl : ∀ l ∈ listed, l ∈ task.listedTxOuts ∨ l.Matched) :
    ({ task with listedTxOuts := listed } : LiquidityBotTask).Matched := by
  refine ⟨h.pending, ?_⟩
  intro l hmem
  rcases hl l hmem with hold | hnew
  · exact h.listed l hold
  · exact hnew

theorem Matched.resubmitListedTxOuts (hc : codec.Lossless) (h : task.Matched) {olderThan : Nat}
    {w : Exchange}
    (ht : ∀ resp, w.answer (listedRequest codec (task.toResubmit olderThan w)) = .ok resp →
      Truthful codec ((task.toResubmit olderThan w).map fun l => l.quote.sci) resp) :
    (task.resubmitListedTxOuts codec olderThan w).1.Matched ∧
      ∀ m, (task.resubmitListedTxOuts codec olderThan w).2 ≠ .panic m := by
  have hkeep : ∀ l ∈ task.toKeep olderThan w, l ∈ task.listedTxOuts :=
    fun l hl => List.mem_of_mem_filter hl
  have hsent : ∀ l ∈ task.toResubmit olderThan w, l ∈ task.listedTxOuts :=
    fun l hl => List.mem_of_mem_filter hl
  by_cases hne : task.toResubmit olderThan w = []
  · rw [resubmitListedTxOuts_of_nil hne]
    exact ⟨h.relist fun l hl => .inl (hkeep l hl), by simp⟩
  · cases ha : w.answer (listedRequest codec (task.toResubmit olderThan w)) with
    | error e =>
        rw [resubmitListedTxOuts_of_error hne ha]
        refine ⟨h.relist fun l hl => .inl ?_, by simp⟩
        rcases List.mem_append.mp hl with hl | hl
        · exact hkeep l hl
        · exact hsent l hl
    | ok resp =>
        by_cases hf : Fits resp (task.toResubmit olderThan w).length
        · have hbody : ∀ e ∈ entries w (task.toResubmit olderThan w) resp,
              ∃ r, settleListed codec e = .ok r ∧ ∀ l, r = some l → l.Matched := by
            intro e he
            obtain ⟨hmem, habout⟩ := about_of_truthful (ht resp ha) he
            exact settleListed_of_about hc habout (h.listed _ (hsent _ hmem))
          obtain ⟨hok, hlisted⟩ := pushEach_matched hbody
          rw [resubmitListedTxOuts_of_fits hne ha hf, hok]
          refine ⟨h.relist fun l hl => ?_, by simp⟩
          rcases List.mem_append.mp hl with hl | hl
          · exact .inl (hkeep l hl)
          · exact .inr (hlisted l hl)
        · obtain ⟨e, he⟩ := resubmitListedTxOuts_of_not_fits hne ha hf
          rw [he]
          exact ⟨h.relist fun l hl => .inl (hkeep l hl), by simp⟩

/-- The SCI made for a TxOut has its key image. -/
def Faithful (offer : Offer) : Prop :=
  ∀ m tokenId rate sci, offer m tokenId rate = .ok sci → sci.keyImage = m.keyImage

theorem matched_createPendingTxOut {offer : Offer} (ho : Faithful offer) {m : MatchedTxOut}
    {p : PendingTxOut} (h : task.createPendingTxOut offer m = .ok p) : p.Matched := by
  unfold createPendingTxOut at h
  split at h
  · cases h
  · obtain ⟨sci, hsci, h⟩ := Outcome.bind_eq_ok.mp h
    cases h
    exact ho _ _ _ _ hsci

theorem Matched.addReceived {offer : Offer} (ho : Faithful offer) :
    ∀ {received : List MatchedTxOut} {task : LiquidityBotTask} {added : Bool}, task.Matched →
      (LiquidityBotTask.addReceived offer task added received).1.Matched
  | [], task, added, h => h
  | m :: received, task, added, h => by
      simp only [LiquidityBotTask.addReceived]
      split
      · cases hp : task.createPendingTxOut offer m with
        | err e => exact h
        | panic msg => exact h
        | ok p =>
            refine Matched.addReceived ho ⟨?_, h.listed⟩
            intro p' hp'
            rcases List.mem_append.mp hp' with hp' | hp'
            · exact h.pending p' hp'
            · obtain rfl := List.mem_singleton.mp hp'
              exact matched_createPendingTxOut ho hp
      · exact Matched.addReceived ho h

theorem Matched.unlistSpentTxOuts : ∀ {spent : List MatchedTxOut} {task : LiquidityBotTask},
    task.Matched → (task.unlistSpentTxOuts spent).1.Matched
  | [], task, h => h
  | m :: spent, task, h => by
      simp only [LiquidityBotTask.unlistSpentTxOuts]
      split
      · exact Matched.unlistSpentTxOuts h
      · exact Matched.unlistSpentTxOuts
          (h.relist fun l hl => .inl (List.mem_of_mem_eraseIdx hl))

theorem Matched.queued {offer : Offer} (ho : Faithful offer) (h : task.Matched)
    (received spent : List MatchedTxOut) : (task.queued received spent offer).1.Matched :=
  Matched.addReceived ho h.unlistSpentTxOuts

end LiquidityBotTask

/-! ## The two together -/

/-- One call of `submit_quotes` over gRPC: the bot's clock, the server's clock, the schedule
of the server's tasks and of what others do meanwhile (`none` if the call does not reach the
server), whether the answer is lost, and the text of a failure. -/
structure Rpc where
  now : UInt64
  clock : Nat → UInt64
  serverClock : Option UInt64
  schedule : Option (List (ParMap.Turn BookAct))
  lost : Bool
  failure : String

/-- What the bot gets to see of a call, and what it leaves of the book. -/
def Rpc.serve (svc : ClientService) (x : Rpc) (book : InMemoryQuoteBook)
    (req : SubmitQuotesRequest) : Except String SubmitQuotesResponse × InMemoryQuoteBook :=
  match x.schedule with
  | none => (.error x.failure, book)
  | some schedule =>
      match svc.submitQuotesImpl x.serverClock req schedule book with
      | some (.ok resp, book', _) => (if x.lost then .error x.failure else .ok resp, book')
      | some (_, book', _) => (.error x.failure, book')
      | none => (.error x.failure, book)

def Rpc.exchange (svc : ClientService) (x : Rpc) (book : InMemoryQuoteBook) : Exchange :=
  ⟨x.now, fun req => (x.serve svc book req).1, x.clock⟩

theorem Rpc.serve_truthful {svc : ClientService} {minimums : TokenId → Option UInt64}
    (hc : svc.codec.Lossless) (hv : svc.sciValidator = quoteMinimumValidator minimums) {x : Rpc}
    {book : InMemoryQuoteBook} {scis : List SignedContingentInput} {resp : SubmitQuotesResponse}
    (h : (x.serve svc book ⟨scis.map svc.codec.toApi⟩).1 = .ok resp) :
    Truthful svc.codec scis resp := by
  unfold Rpc.serve at h
  split at h
  · cases h
  · next schedule _ =>
      split at h
      · next resp' book' msgs himpl =>
          cases hl : x.lost with
          | true => simp [hl] at h
          | false =>
              simp only [hl, Bool.false_eq_true, if_false, Except.ok.injEq] at h
              exact h ▸ ClientService.submitQuotesImpl_truthful hc hv himpl
      · cases h
      · cases h

/-- The bot and the book it shares with others. -/
structure Market where
  task : LiquidityBotTask
  book : InMemoryQuoteBook

namespace Market

def submitPendingTxOuts (svc : ClientService) (m : Market) (x : Rpc) :
    Market × Outcome Error Unit :=
  let (task, r) := m.task.submitPendingTxOuts svc.codec (x.exchange svc m.book)
  (⟨task,
    if m.task.pendingTxOuts = [] then m.book
    else (x.serve svc m.book (m.task.pendingRequest svc.codec)).2⟩, r)

def resubmitListedTxOuts (svc : ClientService) (m : Market) (olderThan : Nat) (x : Rpc) :
    Market × Outcome Error Unit :=
  let w := x.exchange svc m.book
  let (task, r) := m.task.resubmitListedTxOuts svc.codec olderThan w
  (⟨task,
    if m.task.toResubmit olderThan w = [] then m.book
    else (x.serve svc m.book
      (LiquidityBotTask.listedRequest svc.codec (m.task.toResubmit olderThan w))).2⟩, r)

inductive Action where
  /-- Someone else. -/
  | other (a : BookAct)
  | blockProcessed (receivedTxOuts spentTxOuts : List MatchedTxOut) (offer : Offer) (x : Rpc)
  /-- Others act between the two calls. -/
  | tick (resubmission : Rpc) (between : List BookAct) (submission : Rpc)
  | get (channelOpen : Bool)

def survive : Market × Outcome Error Unit → Option Market
  | (m, .ok _) => some m
  | (m, .err _) => some m
  | (_, .panic _) => none

def others (svc : ClientService) (m : Market) (as : List BookAct) : Option Market :=
  (Lts.exec (BookAct.act svc.mc) m.book as).map fun book => { m with book }

def step (svc : ClientService) (m : Market) : Action → Option Market
  | .other a => m.others svc [a]
  | .blockProcessed received spent offer x =>
      match m.task.queued received spent offer with
      | (task, .ok true) => survive (submitPendingTxOuts svc { m with task } x)
      | (task, .ok false) => some { m with task }
      | (task, .err _) => some { m with task }
      | (_, .panic _) => none
  | .tick resubmission between submission =>
      match survive (m.resubmitListedTxOuts svc quoteRefreshInterval resubmission) with
      | none => none
      | some m =>
          match m.others svc between with
          | none => none
          | some m => survive (m.submitPendingTxOuts svc submission)
  | .get true => some m
  | .get false => none

/-- How the calls of the two methods end that one turn of the bot's loop makes. -/
def outcomes (svc : ClientService) (m : Market) : Action → List (Outcome Error Unit)
  | .blockProcessed received spent offer x =>
      match m.task.queued received spent offer with
      | (task, .ok true) => [(submitPendingTxOuts svc { m with task } x).2]
      | _ => []
  | .tick resubmission between submission =>
      (m.resubmitListedTxOuts svc quoteRefreshInterval resubmission).2 ::
        match survive (m.resubmitListedTxOuts svc quoteRefreshInterval resubmission) with
        | none => []
        | some m =>
            match m.others svc between with
            | none => []
            | some m => [(m.submitPendingTxOuts svc submission).2]
  | _ => []

/-- The SCIs the bot makes have the key images of their TxOuts. -/
def FaithfulOffers (_ : Market) : Action → Prop
  | .blockProcessed _ _ offer _ => LiquidityBotTask.Faithful offer
  | _ => True

variable {svc : ClientService} {m m' : Market}

theorem eq_of_survive {r : Market × Outcome Error Unit} (h : survive r = some m) : r.1 = m := by
  obtain ⟨m₁, _ | _ | _⟩ := r
  · exact Option.some.inj h
  · exact Option.some.inj h
  · cases h

theorem survive_ok {r : Market × Outcome Error Unit} (h : r.2 = .ok ()) :
    survive r = some r.1 := by
  obtain ⟨m₁, r₁⟩ := r
  obtain rfl : r₁ = .ok () := h
  rfl

theorem task_others {as : List BookAct} (h : m.others svc as = some m') : m'.task = m.task := by
  obtain ⟨book, -, rfl⟩ := Option.map_eq_some_iff.mp h
  rfl

theorem blockProcessed_cases {received spent : List MatchedTxOut} {offer : Offer} {x : Rpc}
    (h : m.step svc (.blockProcessed received spent offer x) = some m') :
    survive (submitPendingTxOuts svc
        { m with task := (m.task.queued received spent offer).1 } x) = some m' ∨
      m' = { m with task := (m.task.queued received spent offer).1 } := by
  simp only [step] at h
  rcases heq : m.task.queued received spent offer with ⟨task, (_ | _) | _ | _⟩
  · simp only [heq] at h
    exact .inr (Option.some.inj h).symm
  · simp only [heq] at h
    exact .inl h
  · simp only [heq] at h
    exact .inr (Option.some.inj h).symm
  · simp only [heq] at h
    cases h

theorem tick_cases {resubmission submission : Rpc} {between : List BookAct}
    (h : m.step svc (.tick resubmission between submission) = some m') :
    ∃ m₁ m₂, survive (m.resubmitListedTxOuts svc quoteRefreshInterval resubmission) = some m₁ ∧
      m₁.others svc between = some m₂ ∧
      survive (m₂.submitPendingTxOuts svc submission) = some m' := by
  simp only [step] at h
  split at h
  · cases h
  · next m₁ h₁ =>
      split at h
      · cases h
      · next m₂ h₂ => exact ⟨m₁, m₂, h₁, h₂, h⟩

/-! ### The bot's part is a run of the bot

Over this server the bot does nothing it could not do over some server. -/

theorem survive_task {x : Market × Outcome Error Unit} (h : survive x = some m) :
    LiquidityBotTask.survive (x.1.task, x.2) = some m.task := by
  obtain ⟨m₁, _ | _ | _⟩ := x
  · exact congrArg (Option.map Market.task) h
  · exact congrArg (Option.map Market.task) h
  · cases h

theorem bot_step {a : Action} (h : m.step svc a = some m') :
    m'.task = m.task ∨ ∃ b, m.task.step svc.codec b = some m'.task := by
  cases a with
  | other a => exact .inl (task_others h)
  | blockProcessed received spent offer x =>
      refine .inr ⟨.blockProcessed received spent offer (x.exchange svc m.book), ?_⟩
      simp only [step, LiquidityBotTask.queued] at h
      simp only [LiquidityBotTask.step, LiquidityBotTask.blockProcessed]
      rcases hq : (m.task.unlistSpentTxOuts spent).1.updatePendingTxOutsFromReceivedTxOuts offer
        received with ⟨task, (_ | _) | _ | _⟩
      · simp only [hq] at h ⊢
        exact congrArg (Option.map Market.task) h
      · simp only [hq] at h ⊢
        exact survive_task h
      · simp only [hq] at h ⊢
        exact congrArg (Option.map Market.task) h
      · simp only [hq] at h
        cases h
  | tick resubmission between submission =>
      obtain ⟨m₁, m₂, h₁, h₂, h₃⟩ := tick_cases h
      refine .inr ⟨.tick (resubmission.exchange svc m.book)
        (submission.exchange svc m₂.book), ?_⟩
      have hfirst : LiquidityBotTask.survive (m.task.resubmitListedTxOuts svc.codec
          quoteRefreshInterval (resubmission.exchange svc m.book)) = some m₂.task :=
        (survive_task h₁).trans (congrArg some (task_others h₂).symm)
      simp only [LiquidityBotTask.step, hfirst]
      exact survive_task h₃
  | get channelOpen =>
      cases channelOpen with
      | true => exact .inl (congrArg Market.task (Option.some.inj h).symm)
      | false => cases h

/-- **A run over the server is a run of the bot.** -/
theorem bot_run {G : Market → Action → Prop} {as : List Action}
    (h : Lts.Run (step svc) G m as m') :
    ∃ bs, Lts.Run (LiquidityBotTask.step svc.codec) Lts.Any m.task bs m'.task := by
  induction h with
  | nil m => exact ⟨[], .nil _⟩
  | cons _ hs _ ih =>
      obtain ⟨bs, hbs⟩ := ih
      rcases bot_step hs with heq | ⟨b, hb⟩
      · exact ⟨bs, heq ▸ hbs⟩
      · exact ⟨b :: bs, .cons trivial hb hbs⟩

/-! ### What is listed -/

section Trust

variable {minimums : TokenId → Option UInt64} (hc : svc.codec.Lossless)
  (hv : svc.sciValidator = quoteMinimumValidator minimums)
include hc hv

theorem matched_submitPendingTxOuts (h : m.task.Matched) (x : Rpc) :
    (m.submitPendingTxOuts svc x).1.task.Matched ∧
      ∀ msg, (m.submitPendingTxOuts svc x).2 ≠ .panic msg := by
  refine h.submitPendingTxOuts (w := x.exchange svc m.book) hc ?_
  intro resp hresp
  have hserve : (x.serve svc m.book
      ⟨(m.task.pendingTxOuts.map PendingTxOut.sci).map svc.codec.toApi⟩).1 = .ok resp := by
    rw [List.map_map]
    exact hresp
  exact Rpc.serve_truthful hc hv hserve

theorem matched_resubmitListedTxOuts (h : m.task.Matched) (olderThan : Nat) (x : Rpc) :
    (m.resubmitListedTxOuts svc olderThan x).1.task.Matched ∧
      ∀ msg, (m.resubmitListedTxOuts svc olderThan x).2 ≠ .panic msg := by
  refine h.resubmitListedTxOuts (w := x.exchange svc m.book) hc ?_
  intro resp hresp
  have hserve : (x.serve svc m.book
      ⟨((m.task.toResubmit olderThan (x.exchange svc m.book)).map fun l => l.quote.sci).map
        svc.codec.toApi⟩).1 = .ok resp := by
    rw [List.map_map]
    exact hresp
  exact Rpc.serve_truthful hc hv hserve

theorem matched_between {m₁ m₂ : Market} (h : m.task.Matched) {olderThan : Nat} {x : Rpc}
    {between : List BookAct} (h₁ : survive (m.resubmitListedTxOuts svc olderThan x) = some m₁)
    (h₂ : m₁.others svc between = some m₂) : m₂.task.Matched := by
  rw [task_others h₂, ← eq_of_survive h₁]
  exact (matched_resubmitListedTxOuts hc hv h olderThan x).1

theorem matched_step {a : Action} (h : m.task.Matched) (hg : FaithfulOffers m a)
    (hs : m.step svc a = some m') : m'.task.Matched := by
  cases a with
  | other a => exact task_others hs ▸ h
  | blockProcessed received spent offer x =>
      have hq := h.queued hg received spent
      rcases blockProcessed_cases hs with hsub | rfl
      · rw [← eq_of_survive hsub]
        exact (matched_submitPendingTxOuts hc hv (m := ⟨_, m.book⟩) hq x).1
      · exact hq
  | tick resubmission between submission =>
      obtain ⟨m₁, m₂, h₁, h₂, h₃⟩ := tick_cases hs
      rw [← eq_of_survive h₃]
      exact (matched_submitPendingTxOuts hc hv (matched_between hc hv h h₁ h₂) submission).1
  | get channelOpen =>
      cases channelOpen with
      | true => exact Option.some.inj hs ▸ h
      | false => cases hs

theorem outcomes_ne_panic {a : Action} (h : m.task.Matched) (hg : FaithfulOffers m a) :
    ∀ o ∈ m.outcomes svc a, ∀ msg, o ≠ .panic msg := by
  cases a with
  | other a => exact fun o ho => absurd ho List.not_mem_nil
  | get channelOpen => exact fun o ho => absurd ho List.not_mem_nil
  | blockProcessed received spent offer x =>
      have hq := h.queued hg received spent
      simp only [outcomes]
      split
      · next task heq =>
          rw [heq] at hq
          intro o ho
          obtain rfl := List.mem_singleton.mp ho
          exact (matched_submitPendingTxOuts hc hv (m := { m with task }) hq x).2
      · exact fun o ho => absurd ho List.not_mem_nil
  | tick resubmission between submission =>
      intro o ho
      rcases List.mem_cons.mp ho with rfl | ho
      · exact (matched_resubmitListedTxOuts hc hv h _ resubmission).2
      · split at ho
        · exact absurd ho List.not_mem_nil
        · next m₁ h₁ =>
            split at ho
            · exact absurd ho List.not_mem_nil
            · next m₂ h₂ =>
                obtain rfl := List.mem_singleton.mp ho
                have hm₂ := matched_between hc hv h h₁ h₂
                exact (matched_submitPendingTxOuts hc hv hm₂ submission).2

/-- **The bot over this server.**  In every run, with any book to begin with and whatever
others do to it, every listed entry holds a quote with the key image of its TxOut; and at
every point of it no assertion on a response can fail. -/
theorem listed_matched_of_run {pairs : AssocMap TokenId (TokenId × Decimal)}
    {book : InMemoryQuoteBook} {as : List Action}
    (hrun : Lts.Run (step svc) FaithfulOffers ⟨.initial pairs, book⟩ as m) :
    (∀ l ∈ m.task.listedTxOuts, l.quote.sci.keyImage = l.matchedTxOut.keyImage) ∧
      ∀ a, FaithfulOffers m a → ∀ o ∈ m.outcomes svc a, ∀ msg, o ≠ .panic msg := by
  have hm : m.task.Matched := by
    refine hrun.inv (fun m => m.task.Matched) (fun h hg hs => matched_step hc hv h hg hs) ?_
    exact ⟨fun p hp => absurd hp List.not_mem_nil, fun l hl => absurd hl List.not_mem_nil⟩
  exact ⟨hm.listed, fun a hg => outcomes_ne_panic hc hv hm hg⟩

end Trust

/-! ### Another client was first -/

noncomputable def wireCodec : SciCodec where
  toApi sci := ⟨sampleSerial.encode sci⟩
  ofApi source :=
    match sampleSerial.decode source.bytes with
    | .ok sci => .ok sci
    | .error e => .error (.other e)

theorem wireCodec_lossless : wireCodec.Lossless := by
  intro sci
  simp only [wireCodec, sampleSerial_lossless sci]

noncomputable def wireService : ClientService :=
  ⟨sampleCore, wireCodec, quoteMinimumValidator fun _ => none⟩

def tokenOffer : Offer := fun m _ _ => .ok { sampleSci 1 10 20 100 with keyImage := m.keyImage }

def answeredRpc : Rpc := ⟨0, fun _ => 0, some 7, some [.task 0], false, ""⟩

/-- The quote of somebody else for the same input, and the book that holds it. -/
def rivalQuote : Quote := sampleRival 1 9 10 20 100 5

def rivalBook : InMemoryQuoteBook := (InMemoryQuoteBook.default.addQuote rivalQuote).2

/-- Somebody has listed an offer of the TxOut before the bot receives it. -/
def rivalFirst : List Action :=
  [.other (.call (.addQuote rivalQuote)),
    .blockProcessed [LiquidityBotTask.sampleTxOut 1] [] tokenOffer answeredRpc]

theorem serve_rivalBook :
    (answeredRpc.serve wireService rivalBook ⟨[sampleSci 1 10 20 100].map wireCodec.toApi⟩).1 =
      .ok ⟨[.quoteAlreadyExists], ["Quote already exists in book"],
        [rivalQuote.toApi wireCodec]⟩ := by
  have himpl : wireService.submitQuotesImpl (some 7)
      ⟨[sampleSci 1 10 20 100].map wireCodec.toApi⟩ [.task 0] rivalBook =
      some (.ok ⟨[.quoteAlreadyExists], ["Quote already exists in book"],
        [rivalQuote.toApi wireCodec]⟩, rivalBook, []) := by
    unfold ClientService.submitQuotesImpl
    rw [if_neg (by decide)]
    simp only [wireService, wireCodec_lossless.mapM]
    rfl
  simp only [Rpc.serve, answeredRpc, himpl]
  rfl

def queuedTask : LiquidityBotTask :=
  ⟨LiquidityBotTask.samplePairs, [⟨LiquidityBotTask.sampleTxOut 1, sampleSci 1 10 20 100⟩], []⟩

theorem submitPendingTxOuts_queuedTask :
    queuedTask.submitPendingTxOuts wireCodec (answeredRpc.exchange wireService rivalBook) =
      (⟨LiquidityBotTask.samplePairs, [], [⟨LiquidityBotTask.sampleTxOut 1, rivalQuote, 0⟩]⟩,
        .ok ()) := by
  rw [LiquidityBotTask.submitPendingTxOuts_of_fits serve_rivalBook ⟨rfl, rfl, rfl⟩]
  simp [queuedTask, entries, izip, Outcome.pushEach, settlePending,
    tryFromQuote_toApi wireCodec_lossless, Rpc.exchange, answeredRpc]

/-- The bot lists the other client's quote, and it is about the TxOut. -/
theorem rivalFirst_matched : ∃ m : Market,
    Lts.Run (step wireService) FaithfulOffers ⟨.initial LiquidityBotTask.samplePairs, .default⟩
      rivalFirst m ∧
    m.task.listedTxOuts = [⟨LiquidityBotTask.sampleTxOut 1, rivalQuote, 0⟩] ∧
    rivalQuote.sci.keyImage = (LiquidityBotTask.sampleTxOut 1).keyImage := by
  have hoffer : FaithfulOffers ⟨.initial LiquidityBotTask.samplePairs, rivalBook⟩
      (.blockProcessed [LiquidityBotTask.sampleTxOut 1] [] tokenOffer answeredRpc) := by
    rintro m tokenId rate sci ⟨⟩
    rfl
  have hstep : ∃ m, step wireService ⟨.initial LiquidityBotTask.samplePairs, rivalBook⟩
      (.blockProcessed [LiquidityBotTask.sampleTxOut 1] [] tokenOffer answeredRpc) = some m ∧
      m.task.listedTxOuts = [⟨LiquidityBotTask.sampleTxOut 1, rivalQuote, 0⟩] := by
    have hok : (submitPendingTxOuts wireService ⟨queuedTask, rivalBook⟩ answeredRpc).2 = .ok () :=
      congrArg Prod.snd submitPendingTxOuts_queuedTask
    refine ⟨(submitPendingTxOuts wireService ⟨queuedTask, rivalBook⟩ answeredRpc).1, ?_, ?_⟩
    · show survive (submitPendingTxOuts wireService ⟨queuedTask, rivalBook⟩ answeredRpc) = _
      exact survive_ok hok
    · exact congrArg (fun r => r.1.listedTxOuts) submitPendingTxOuts_queuedTask
  obtain ⟨m, hstep, hlisted⟩ := hstep
  have hrun : Lts.Run (step wireService) FaithfulOffers
      ⟨.initial LiquidityBotTask.samplePairs, .default⟩ rivalFirst m :=
    .cons trivial rfl (.cons hoffer hstep (.nil _))
  refine ⟨m, hrun, hlisted, ?_⟩
  have hv : wireService.sciValidator = quoteMinimumValidator fun _ => none := rfl
  exact (listed_matched_of_run wireCodec_lossless hv hrun).1 _
    (hlisted ▸ List.mem_singleton.mpr rfl)

end Market
end Bot
end Deqs
