/-
# `LiquidityBotTask` — the TxOuts the bot offers, and its event loop

The bot watches a wallet.  Each TxOut the wallet receives is made into an SCI and waits
in `pendingTxOuts`; once a DEQS server has taken the SCI the TxOut is in `listedTxOuts`,
whose entries are submitted again every ten minutes so that they stay listed; once the
TxOut is spent it is taken off that list.  The loop handles one thing at a time:

| action | what it is |
| :-- | :-- |
| `blockProcessed` | a wallet event: unlist what was spent, queue what was received, submit |
| `tick` | every 30 seconds: resubmit what is old, then submit what is pending |
| `get` | one of the three queries, answered on a channel |

**What comes from outside.**  An exchange with the server (`Exchange`) is a function from
the request to a gRPC error or any response at all, together with the readings of the
clock; the clock is past the Epoch.  Making an SCI draws random ring members and reads the
ledger, so it is a function of its own for each event (`offer`).  One event never makes two
SCIs for one TxOut: the second is found in the list, or the loop has ended.

**How a call ends.**  The methods have `&mut self` and return a `Result`, so each of them is
a function to the new state and the outcome: what was changed before an error stays
changed.  The loop logs an error and goes on; a failed assertion ends the task, and `step`
is then undefined.

The two loops over a response take their entries out of the list first (`drain(..)`) and
put back those they keep.  Where such a loop is left early, the entries it has not come
to are gone: a `Drain` that is dropped drops the rest of its range.
-/
import Mathlib.Algebra.Group.Nat.Defs
import Deqs.Lib.AssocMap
import Deqs.Lib.PushEach
import Deqs.Lib.Lts
import Deqs.Api.Convert

namespace Deqs.Bot

/-! ## Data -/

/-- `rust_decimal::Decimal`: the number `mantissa / 10 ^ scale`, with a sign. -/
structure Decimal where
  negative : Bool
  mantissa : Nat
  scale : Nat
  mantissa_lt : mantissa < 2 ^ 96
  scale_le : scale ≤ 28
deriving DecidableEq

structure MatchedTxOut where
  blockIndex : BlockIndex
  txOut : TxOut
  amount : Amount
  subaddressIndex : UInt64
  keyImage : KeyImage
deriving DecidableEq

/-- A TxOut we want to submit to the DEQS, with the SCI made from it. -/
structure PendingTxOut where
  matchedTxOut : MatchedTxOut
  sci : SignedContingentInput
deriving DecidableEq

/-- A TxOut we listed on the DEQS, with the quote it answered and the time of the last
submission, in milliseconds since the Epoch. -/
structure ListedTxOut where
  matchedTxOut : MatchedTxOut
  quote : Quote
  lastSubmittedAt : UInt64
deriving DecidableEq

def PendingTxOut.keyImage (p : PendingTxOut) : KeyImage := p.matchedTxOut.keyImage

def ListedTxOut.keyImage (l : ListedTxOut) : KeyImage := l.matchedTxOut.keyImage

/-- The bot's errors.  Those that wrap an error of another crate carry its text. -/
inductive Error where
  | ledgerDb (e : String)
  | txBuilderError (e : String)
  | signedContingentInputBuilder (e : String)
  | amount (e : String)
  | txOutConversion (e : String)
  | key (e : String)
  | io (e : String)
  | json (e : String)
  | grpc (e : String)
  | invalidGrpcResponse (msg : String)
  | apiConversion (e : ConversionError)
  | unknownTokenId (tokenId : TokenId)
  | decimalConversion (msg : String)
  | deserialize (e : String)
  | serialize (e : String)
  | prometheus (e : String)
  | revealedTxOutError (e : String)
deriving DecidableEq

/-- The state of the task.  `pairs` maps a base token to the counter token and the rate it
is offered at. -/
structure LiquidityBotTask where
  pairs : AssocMap TokenId (TokenId × Decimal)
  pendingTxOuts : List PendingTxOut
  listedTxOuts : List ListedTxOut
deriving DecidableEq

def LiquidityBotTask.initial (pairs : AssocMap TokenId (TokenId × Decimal)) : LiquidityBotTask :=
  ⟨pairs, [], []⟩

/-- One call of `submit_quotes` and the clock around it: its reading when the method
starts, and when its loop pushes the `i`th entry. -/
structure Exchange where
  now : UInt64
  answer : SubmitQuotesRequest → Except String SubmitQuotesResponse
  clock : Nat → UInt64

/-- The rest of `create_pending_tx_out` once the pair is known: the counter amount, the
ring, and the builder. -/
abbrev Offer := MatchedTxOut → TokenId → Decimal → Outcome Error SignedContingentInput

/-! ## Reading a response -/

/-- One of the three checks of `sanity_check_submit_quotes_response`. -/
def checkLen (what : String) (expectedLen len : Nat) : Except Error Unit :=
  if len ≠ expectedLen then
    .error (.invalidGrpcResponse (
      s!"Number of {what} in response does not match number of quotes in request. " ++
      s!"Expected {expectedLen}, got {len}."))
  else .ok ()

def sanityCheckSubmitQuotesResponse (resp : SubmitQuotesResponse) (expectedLen : Nat) :
    Except Error Unit := do
  checkLen "status codes" expectedLen resp.statusCodes.length
  checkLen "error messages" expectedLen resp.errorMessages.length
  checkLen "quotes" expectedLen resp.quotes.length

/-- A response has an entry of each kind for each of `n` quotes sent. -/
def Fits (resp : SubmitQuotesResponse) (n : Nat) : Prop :=
  resp.statusCodes.length = n ∧ resp.errorMessages.length = n ∧ resp.quotes.length = n

theorem checkLen_eq_ok {what : String} {expectedLen len : Nat} :
    checkLen what expectedLen len = .ok () ↔ len = expectedLen := by
  unfold checkLen
  split
  · next h => simp [h]
  · next h => simp [not_not.mp h]

theorem sanityCheck_eq_ok {resp : SubmitQuotesResponse} {n : Nat} :
    sanityCheckSubmitQuotesResponse resp n = .ok () ↔ Fits resp n := by
  have hbind : ∀ {x y : Except Error Unit},
      (x >>= fun _ => y) = .ok () ↔ x = .ok () ∧ y = .ok () := by
    intro x y
    cases x with
    | error e => simp [bind, Except.bind]
    | ok u => simp [bind, Except.bind]
  unfold sanityCheckSubmitQuotesResponse Fits
  rw [hbind, hbind, checkLen_eq_ok, checkLen_eq_ok, checkLen_eq_ok]

/-- What a loop over a response sees of one entry sent. -/
structure Entry (α : Type) where
  sent : α
  statusCode : QuoteStatusCode
  errorMsg : String
  quote : ApiQuote
  now : UInt64

/-- `izip!` of the entries sent with the three lists of the response.  It ends with the
shortest of the four. -/
def izip {α : Type} (clock : Nat → UInt64) :
    List α → List QuoteStatusCode → List String → List ApiQuote → List (Entry α)
  | x :: xs, code :: codes, msg :: msgs, quote :: quotes =>
      ⟨x, code, msg, quote, clock 0⟩ :: izip (fun i => clock (i + 1)) xs codes msgs quotes
  | _, _, _, _ => []

def entries {α : Type} (w : Exchange) (sent : List α) (resp : SubmitQuotesResponse) :
    List (Entry α) :=
  izip w.clock sent resp.statusCodes resp.errorMessages resp.quotes

/-- To a response that fits, the loops see every entry sent, in its order. -/
theorem map_sent_izip {α : Type} : ∀ {sent : List α} {codes : List QuoteStatusCode}
    {msgs : List String} {quotes : List ApiQuote} (clock : Nat → UInt64),
    codes.length = sent.length → msgs.length = sent.length → quotes.length = sent.length →
      (izip clock sent codes msgs quotes).map Entry.sent = sent
  | [], _, _, _, _, _, _, _ => by simp [izip]
  | x :: xs, code :: codes, msg :: msgs, quote :: quotes, clock, hc, hm, hq => by
      simp only [List.length_cons, Nat.add_right_cancel_iff] at hc hm hq
      simp only [izip, List.map_cons, map_sent_izip _ hc hm hq]
  | _ :: _, [], _, _, _, hc, _, _ => by simp at hc
  | _ :: _, _ :: _, [], _, _, _, hm, _ => by simp at hm
  | _ :: _, _ :: _, _ :: _, [], _, _, _, hq => by simp at hq

theorem map_key_entries {α κ : Type} (key : α → κ) (w : Exchange) {sent : List α}
    {resp : SubmitQuotesResponse} (h : Fits resp sent.length) :
    (entries w sent resp).map (fun e => key e.sent) = sent.map key := by
  have hsent : (entries w sent resp).map Entry.sent = sent :=
    map_sent_izip w.clock h.1 h.2.1 h.2.2
  calc (entries w sent resp).map (fun e => key e.sent)
      = ((entries w sent resp).map Entry.sent).map key := by rw [List.map_map]; rfl
    _ = sent.map key := by rw [hsent]

namespace Entry

variable {α : Type}

/-- The status codes on which the loops look at the returned quote. -/
def Wanted (e : Entry α) : Prop := e.statusCode = .created ∨ e.statusCode = .quoteAlreadyExists

def Converts (codec : SciCodec) (e : Entry α) : Prop := ∃ q, Quote.ofApi codec e.quote = .ok q

end Entry

/-- `Quote::try_from(quote)?`. -/
def tryFromQuote (codec : SciCodec) (quote : ApiQuote) : Outcome Error Quote :=
  .mapErr .apiConversion (.ofExcept (Quote.ofApi codec quote))

/-- The body of the loop in `submit_pending_tx_outs`: the TxOut to list, if any. -/
def settlePending (codec : SciCodec) (e : Entry PendingTxOut) :
    Outcome Error (Option ListedTxOut) :=
  match e.statusCode with
  | .created | .quoteAlreadyExists => do
      let quote ← tryFromQuote codec e.quote
      -- the quote we list is the one returned, which may hold another SCI than ours
      if quote.sci ≠ e.sent.sci ∧ e.statusCode ≠ .quoteAlreadyExists then
        .panic "assertion failed: status_code == QUOTE_ALREADY_EXISTS"
      else .ok (some ⟨e.sent.matchedTxOut, quote, e.now⟩)
  | .quoteIsStale => .ok none
  | .invalidSci | .unsupportedSci | .other => .ok none

/-- The body of the loop in `resubmit_listed_tx_outs`. -/
def settleListed (codec : SciCodec) (e : Entry ListedTxOut) :
    Outcome Error (Option ListedTxOut) :=
  match e.statusCode with
  | .created => do
      let quote ← tryFromQuote codec e.quote
      if quote.sci ≠ e.sent.quote.sci then
        .panic "assertion failed: quote.sci() == listed_tx_out.quote.sci()"
      else .ok (some { e.sent with quote := quote, lastSubmittedAt := e.now })
  | .quoteAlreadyExists => do
      let quote ← tryFromQuote codec e.quote
      let listedTxOut := if quote = e.sent.quote then e.sent else { e.sent with quote := quote }
      .ok (some { listedTxOut with lastSubmittedAt := e.now })
  | .quoteIsStale => .ok none
  | .invalidSci | .unsupportedSci | .other => .ok none

/-- What the bodies of the two loops have in common: they list a TxOut under the key image
it was sent for, and they fail exactly on a quote they want and cannot read. -/
structure Settles {α : Type} (codec : SciCodec) (key : α → KeyImage)
    (settle : Entry α → Outcome Error (Option ListedTxOut)) : Prop where
  keyImage : ∀ {e l}, settle e = .ok (some l) → l.keyImage = key e.sent
  err_iff : ∀ {e}, (∃ x, settle e = .err x) ↔ e.Wanted ∧ ¬ e.Converts codec

/-- A body that asks for the quote on the wanted codes, and then lists the TxOut it was
sent for or fails an assertion. -/
theorem Settles.of_body {α : Type} {codec : SciCodec} {key : α → KeyImage}
    {settle : Entry α → Outcome Error (Option ListedTxOut)}
    (body : Entry α → Quote → Outcome Error (Option ListedTxOut))
    (hwanted : ∀ e, e.Wanted → settle e = (tryFromQuote codec e.quote >>= body e))
    (hother : ∀ e, ¬ e.Wanted → settle e = .ok none)
    (hbody : ∀ e q, (∃ l, body e q = .ok (some l) ∧ l.keyImage = key e.sent) ∨
      ∃ m, body e q = .panic m) :
    Settles codec key settle := by
  constructor
  · intro e l h
    by_cases he : e.Wanted
    · rw [hwanted e he] at h
      obtain ⟨q, -, h⟩ := Outcome.bind_eq_ok.mp h
      rcases hbody e q with ⟨l', hl, hkey⟩ | ⟨m, hm⟩
      · rw [hl, Outcome.ok.injEq, Option.some.injEq] at h
        exact h ▸ hkey
      · rw [hm] at h
        cases h
    · rw [hother e he] at h
      cases h
  · intro e
    by_cases he : e.Wanted
    · rw [hwanted e he]
      unfold tryFromQuote Entry.Converts
      cases hq : Quote.ofApi codec e.quote with
      | error x => simp [he, Outcome.ofExcept, Outcome.mapErr]
      | ok q =>
          rcases hbody e q with ⟨l, hl, -⟩ | ⟨m, hm⟩
          · simp [Outcome.ofExcept, Outcome.mapErr, hl]
          · simp [Outcome.ofExcept, Outcome.mapErr, hm]
    · simp [hother e he, he]

theorem settles_pending (codec : SciCodec) :
    Settles codec PendingTxOut.keyImage (settlePending codec) := by
  refine .of_body (fun e quote =>
    if quote.sci ≠ e.sent.sci ∧ e.statusCode ≠ .quoteAlreadyExists then
      .panic "assertion failed: status_code == QUOTE_ALREADY_EXISTS"
    else .ok (some ⟨e.sent.matchedTxOut, quote, e.now⟩)) ?_ ?_ ?_
  · rintro e (h | h)
    · simp only [settlePending, h]
    · simp only [settlePending, h]
  · intro e h
    unfold settlePending
    split
    case h_1 h' => exact absurd (.inl h') h
    case h_2 h' => exact absurd (.inr h') h
    all_goals rfl
  · intro e q
    split
    · exact .inr ⟨_, rfl⟩
    · exact .inl ⟨_, rfl, rfl⟩

theorem settles_listed (codec : SciCodec) :
    Settles codec ListedTxOut.keyImage (settleListed codec) := by
  refine .of_body (fun e quote =>
    if e.statusCode = .created then
      if quote.sci ≠ e.sent.quote.sci then
        .panic "assertion failed: quote.sci() == listed_tx_out.quote.sci()"
      else .ok (some { e.sent with quote := quote, lastSubmittedAt := e.now })
    else .ok (some { (if quote = e.sent.quote then e.sent else { e.sent with quote := quote }) with
      lastSubmittedAt := e.now })) ?_ ?_ ?_
  · rintro e (h | h)
    · simp only [settleListed, h, if_true]
    · simp [settleListed, h]
  · intro e h
    unfold settleListed
    split
    case h_1 h' => exact absurd (.inl h') h
    case h_2 h' => exact absurd (.inr h') h
    all_goals rfl
  · intro e q
    dsimp only
    split
    · split
      · exact .inr ⟨_, rfl⟩
      · exact .inl ⟨_, rfl, rfl⟩
    · refine .inl ⟨_, rfl, ?_⟩
      split
      · rfl
      · rfl

/-! ## The methods -/

/-- `QUOTE_REFRESH_INTERVAL`, in milliseconds. -/
def quoteRefreshInterval : Nat := 600 * 1000

/-- The test `resubmit_listed_tx_outs` splits the list by.  The age is 0 where the clock was
set back; `older_than` is cut to 64 bits. -/
def isDue (currentTime : UInt64) (olderThan : Nat) (l : ListedTxOut) : Bool :=
  (checkedSub currentTime l.lastSubmittedAt).getD 0 > UInt64.ofNat olderThan

namespace LiquidityBotTask

/-- `unlist_spent_tx_outs`: the task, and the TxOuts taken off the list. -/
def unlistSpentTxOuts (task : LiquidityBotTask) :
    List MatchedTxOut → LiquidityBotTask × List ListedTxOut
  | [] => (task, [])
  | mtxo :: spent =>
      match task.listedTxOuts.findIdx? (fun ltxo => ltxo.keyImage = mtxo.keyImage) with
      | none => unlistSpentTxOuts task spent
      | some idx =>
          let rest := unlistSpentTxOuts
            { task with listedTxOuts := task.listedTxOuts.eraseIdx idx } spent
          (rest.1, task.listedTxOuts[idx]?.toList ++ rest.2)

def createPendingTxOut (task : LiquidityBotTask) (offer : Offer) (matchedTxOut : MatchedTxOut) :
    Outcome Error PendingTxOut :=
  match task.pairs.get? matchedTxOut.amount.tokenId with
  | none => .err (.unknownTokenId matchedTxOut.amount.tokenId)
  | some (counterTokenId, swapRate) => do
      let sci ← offer matchedTxOut counterTokenId swapRate
      .ok ⟨matchedTxOut, sci⟩

/-- The tests a received TxOut has to pass before an SCI is made from it: its token is one
we trade, and it is in neither list. -/
def isNew (task : LiquidityBotTask) (matchedTxOut : MatchedTxOut) : Bool :=
  (task.pairs.get? matchedTxOut.amount.tokenId).isSome &&
  !task.pendingTxOuts.any (fun ptxo => ptxo.keyImage = matchedTxOut.keyImage) &&
  !task.listedTxOuts.any (fun ltxo => ltxo.keyImage = matchedTxOut.keyImage)

def addReceived (offer : Offer) :
    LiquidityBotTask → Bool → List MatchedTxOut → LiquidityBotTask × Outcome Error Bool
  | task, added, [] => (task, .ok added)
  | task, added, matchedTxOut :: rest =>
      if task.isNew matchedTxOut then
        match task.createPendingTxOut offer matchedTxOut with
        | .ok ptxo =>
            addReceived offer { task with pendingTxOuts := task.pendingTxOuts ++ [ptxo] } true rest
        | .err e => (task, .err e)
        | .panic m => (task, .panic m)
      else addReceived offer task added rest

/-- `update_pending_tx_outs_from_received_tx_outs`: whether anything was added. -/
def updatePendingTxOutsFromReceivedTxOuts (task : LiquidityBotTask) (offer : Offer)
    (matchedTxOuts : List MatchedTxOut) : LiquidityBotTask × Outcome Error Bool :=
  addReceived offer task false matchedTxOuts

def pendingRequest (codec : SciCodec) (task : LiquidityBotTask) : SubmitQuotesRequest :=
  ⟨task.pendingTxOuts.map (fun ptxo => codec.toApi ptxo.sci)⟩

def submitPendingTxOuts (codec : SciCodec) (task : LiquidityBotTask) (w : Exchange) :
    LiquidityBotTask × Outcome Error Unit :=
  if task.pendingTxOuts = [] then (task, .ok ()) else
  let req := task.pendingRequest codec
  match w.answer req with
  | .error e => (task, .err (.grpc e))
  | .ok resp =>
      match sanityCheckSubmitQuotesResponse resp req.quotes.length with
      | .error e => (task, .err e)
      | .ok () =>
          let r := Outcome.pushEach (settlePending codec) (entries w task.pendingTxOuts resp)
          ({ task with pendingTxOuts := [], listedTxOuts := task.listedTxOuts ++ r.1 }, r.2)

def listedRequest (codec : SciCodec) (toResubmit : List ListedTxOut) : SubmitQuotesRequest :=
  ⟨toResubmit.map (fun ltxo => codec.toApi ltxo.quote.sci)⟩

def resubmitListedTxOuts (codec : SciCodec) (task : LiquidityBotTask) (olderThan : Nat)
    (w : Exchange) : LiquidityBotTask × Outcome Error Unit :=
  let (toResubmit, toKeep) := task.listedTxOuts.partition (isDue w.now olderThan)
  let task := { task with listedTxOuts := toKeep }
  if toResubmit = [] then (task, .ok ()) else
  let req := listedRequest codec toResubmit
  match w.answer req with
  | .error e => ({ task with listedTxOuts := task.listedTxOuts ++ toResubmit }, .err (.grpc e))
  | .ok resp =>
      match sanityCheckSubmitQuotesResponse resp req.quotes.length with
      | .error e => (task, .err e)
      | .ok () =>
          let r := Outcome.pushEach (settleListed codec) (entries w toResubmit resp)
          ({ task with listedTxOuts := task.listedTxOuts ++ r.1 }, r.2)

/-! ## The event loop -/

/-- What the loop of `run` can be woken by. -/
inductive Action where
  | blockProcessed (receivedTxOuts spentTxOuts : List MatchedTxOut) (offer : Offer) (w : Exchange)
  | tick (resubmission submission : Exchange)
  | get (channelOpen : Bool)

/-- The loop goes on after a call that returned, with `Ok` or `Err`. -/
def survive {α : Type} : LiquidityBotTask × Outcome Error α → Option LiquidityBotTask
  | (task, .ok _) => some task
  | (task, .err _) => some task
  | (_, .panic _) => none

/-- The arm of `run` for `WalletEvent::BlockProcessed`. -/
def blockProcessed (codec : SciCodec) (task : LiquidityBotTask)
    (receivedTxOuts spentTxOuts : List MatchedTxOut) (offer : Offer) (w : Exchange) :
    Option LiquidityBotTask :=
  let task := (task.unlistSpentTxOuts spentTxOuts).1
  match task.updatePendingTxOutsFromReceivedTxOuts offer receivedTxOuts with
  | (task, .ok true) => survive (task.submitPendingTxOuts codec w)
  | (task, .ok false) => some task
  | (task, .err _) => some task
  | (_, .panic _) => none

/-- One turn of the loop of `run`; `none` when it panics. -/
def step (codec : SciCodec) (task : LiquidityBotTask) : Action → Option LiquidityBotTask
  | .blockProcessed received spent offer w => task.blockProcessed codec received spent offer w
  | .tick resubmission submission =>
      match survive (task.resubmitListedTxOuts codec quoteRefreshInterval resubmission) with
      | none => none
      | some task => survive (task.submitPendingTxOuts codec submission)
  | .get true => some task
  | .get false => none

end LiquidityBotTask

end Deqs.Bot
