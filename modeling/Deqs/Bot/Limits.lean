/-
# The size of the bot's requests

The server refuses a request of `MAX_SIMULTANEOUS_QUOTES` quotes or more as a whole, before
it looks at any of them.  The bot puts its whole pending list into one request, and likewise
all listed entries that are due; the comment "should batch in case we have too many" marks
the place.  Nothing in the bot knows the limit.

So a bot that tracks few TxOuts is served (`requests_within_limit`, first part).  One that
once has too many pending is not served again: a refusal is an error like any other, the
list is kept for the next attempt, and the next attempt sends the whole list with whatever
has been received since (second part).  Nothing takes a pending TxOut off the list but an
answer to it.
-/
import Deqs.Bot.Composition

namespace Deqs

/-- The server refuses the request for its size, whatever else is the case. -/
def ClientService.RefusesSize (svc : ClientService) (req : SubmitQuotesRequest) : Prop :=
  ∀ clock schedule book, svc.submitQuotesImpl clock req schedule book =
    some (.err (.invalidArgument "Too many quotes"
      (.inl (.implementationSpecific "Too many quotes in one request"))), book, [])

theorem ClientService.refusesSize_iff {svc : ClientService} {req : SubmitQuotesRequest} :
    svc.RefusesSize req ↔ MAX_SIMULTANEOUS_QUOTES ≤ req.quotes.length := by
  constructor
  · intro h
    by_contra hlt
    -- below the limit the clock is read first
    have hnone := h none [] .default
    simp [submitQuotesImpl, hlt] at hnone
  · intro hle clock schedule book
    simp [submitQuotesImpl, hle]

namespace Bot
namespace LiquidityBotTask

/-! ## What is sent -/

def pendingSent (codec : SciCodec) (task : LiquidityBotTask) : List SubmitQuotesRequest :=
  if task.pendingTxOuts = [] then [] else [task.pendingRequest codec]

def listedSent (codec : SciCodec) (task : LiquidityBotTask) (olderThan : Nat) (w : Exchange) :
    List SubmitQuotesRequest :=
  if task.toResubmit olderThan w = [] then []
  else [listedRequest codec (task.toResubmit olderThan w)]

def requests (codec : SciCodec) (task : LiquidityBotTask) : Action → List SubmitQuotesRequest
  | .blockProcessed received spent offer _ =>
      match task.queued received spent offer with
      | (task, .ok true) => task.pendingSent codec
      | _ => []
  | .tick resubmission _ =>
      task.listedSent codec quoteRefreshInterval resubmission ++
        match survive (task.resubmitListedTxOuts codec quoteRefreshInterval resubmission) with
        | none => []
        | some task => task.pendingSent codec
  | .get _ => []

/-- A block leaves fewer TxOuts tracked than the server takes at once. -/
def FewTracked (task : LiquidityBotTask) : Action → Prop
  | .blockProcessed received spent offer _ =>
      (task.queued received spent offer).1.keyImages.length < MAX_SIMULTANEOUS_QUOTES
  | _ => True

variable {codec : SciCodec} {task task' : LiquidityBotTask}

theorem length_pendingSent {req : SubmitQuotesRequest} (h : req ∈ task.pendingSent codec) :
    req.quotes.length ≤ task.keyImages.length := by
  unfold pendingSent at h
  split at h
  · exact absurd h List.not_mem_nil
  · obtain rfl := List.mem_singleton.mp h
    simp [pendingRequest, keyImages, pendingKeyImages]

theorem length_listedSent {olderThan : Nat} {w : Exchange} {req : SubmitQuotesRequest}
    (h : req ∈ task.listedSent codec olderThan w) :
    req.quotes.length ≤ task.keyImages.length := by
  unfold listedSent at h
  split at h
  · exact absurd h List.not_mem_nil
  · obtain rfl := List.mem_singleton.mp h
    have hle : (task.toResubmit olderThan w).length ≤ task.listedTxOuts.length :=
      List.length_filter_le _ _
    simp only [listedRequest, keyImages, listedKeyImages, List.length_append, List.length_map]
    omega

theorem length_resubmitted {olderThan : Nat} {w : Exchange} {t : LiquidityBotTask}
    (h : survive (task.resubmitListedTxOuts codec olderThan w) = some t) :
    t.keyImages.length ≤ task.keyImages.length := by
  rw [← eq_of_survive h]
  exact (subperm_resubmitListedTxOuts codec task olderThan w).length_le

theorem few_step {a : Action} (hfew : task.keyImages.length < MAX_SIMULTANEOUS_QUOTES)
    (hg : task.FewTracked a) (h : task.step codec a = some task') :
    task'.keyImages.length < MAX_SIMULTANEOUS_QUOTES := by
  cases a with
  | blockProcessed received spent offer w =>
      rcases blockProcessed_cases h with ⟨-, rfl⟩ | ⟨-, rfl⟩
      · exact lt_of_le_of_lt (subperm_submitPendingTxOuts _ _ _).length_le hg
      · exact hg
  | tick resubmission submission =>
      simp only [step] at h
      split at h
      · cases h
      · next t ht =>
          have hle := length_resubmitted ht
          rw [← eq_of_survive h]
          exact lt_of_le_of_lt ((subperm_submitPendingTxOuts _ _ _).length_le.trans hle) hfew
  | get channelOpen =>
      cases channelOpen with
      | true => exact Option.some.inj h ▸ hfew
      | false => cases h

theorem length_requests {a : Action} (hfew : task.keyImages.length < MAX_SIMULTANEOUS_QUOTES)
    (hg : task.FewTracked a) {req : SubmitQuotesRequest} (h : req ∈ task.requests codec a) :
    req.quotes.length < MAX_SIMULTANEOUS_QUOTES := by
  cases a with
  | blockProcessed received spent offer w =>
      simp only [requests] at h
      split at h
      · next t heq =>
          have hg' : (task.queued received spent offer).1.keyImages.length <
            MAX_SIMULTANEOUS_QUOTES := hg
          rw [heq] at hg'
          exact lt_of_le_of_lt (length_pendingSent h) hg'
      · exact absurd h List.not_mem_nil
  | tick resubmission submission =>
      rcases List.mem_append.mp h with h | h
      · exact lt_of_le_of_lt (length_listedSent h) hfew
      · split at h
        · exact absurd h List.not_mem_nil
        · next t ht =>
            have hle := length_resubmitted ht
            exact lt_of_le_of_lt ((length_pendingSent h).trans hle) hfew
  | get channelOpen => exact absurd h List.not_mem_nil

/-! ## Stuck -/

theorem pendingTxOuts_unlistSpentTxOuts : ∀ (spent : List MatchedTxOut) (task : LiquidityBotTask),
    (task.unlistSpentTxOuts spent).1.pendingTxOuts = task.pendingTxOuts
  | [], task => rfl
  | m :: spent, task => by
      simp only [unlistSpentTxOuts]
      split
      · exact pendingTxOuts_unlistSpentTxOuts spent task
      · exact pendingTxOuts_unlistSpentTxOuts spent _

theorem prefix_queued (task : LiquidityBotTask) (received spent : List MatchedTxOut)
    (offer : Offer) :
    task.pendingTxOuts <+: (task.queued received spent offer).1.pendingTxOuts := by
  obtain ⟨new, heq, -⟩ := addReceived_spec offer received (task.unlistSpentTxOuts spent).1 false
  refine ⟨new, ?_⟩
  rw [queued, updatePendingTxOutsFromReceivedTxOuts, heq, pendingTxOuts_unlistSpentTxOuts]

theorem pendingTxOuts_resubmitListedTxOuts (codec : SciCodec) (task : LiquidityBotTask)
    (olderThan : Nat) (w : Exchange) :
    (task.resubmitListedTxOuts codec olderThan w).1.pendingTxOuts = task.pendingTxOuts := by
  by_cases hne : task.toResubmit olderThan w = []
  · rw [resubmitListedTxOuts_of_nil hne]
  · cases ha : w.answer (listedRequest codec (task.toResubmit olderThan w)) with
    | error e => rw [resubmitListedTxOuts_of_error hne ha]
    | ok resp =>
        by_cases hf : Fits resp (task.toResubmit olderThan w).length
        · rw [resubmitListedTxOuts_of_fits hne ha hf]
        · obtain ⟨e, he⟩ := resubmitListedTxOuts_of_not_fits hne ha hf
          rw [he]

end LiquidityBotTask

namespace Market

variable {svc : ClientService} {m m' : Market}

theorem submitPendingTxOuts_of_refused (svc : ClientService)
    (h : MAX_SIMULTANEOUS_QUOTES ≤ m.task.pendingTxOuts.length) (x : Rpc) :
    (m.submitPendingTxOuts svc x).1.task = m.task ∧
      (m.submitPendingTxOuts svc x).2 = .err (.grpc x.failure) := by
  have hrefused : svc.RefusesSize (m.task.pendingRequest svc.codec) := by
    rw [ClientService.refusesSize_iff]
    simpa [LiquidityBotTask.pendingRequest] using h
  have hserve : (x.serve svc m.book (m.task.pendingRequest svc.codec)).1 = .error x.failure := by
    unfold Rpc.serve
    cases x.schedule with
    | none => rfl
    | some schedule => simp only [hrefused x.serverClock schedule m.book]
  have hne : m.task.pendingTxOuts ≠ [] := by
    intro hnil
    rw [hnil] at h
    exact absurd h (by decide)
  have hmethod : m.task.submitPendingTxOuts svc.codec (x.exchange svc m.book) =
      (m.task, .err (.grpc x.failure)) := by
    unfold LiquidityBotTask.submitPendingTxOuts
    simp only [if_neg hne, Rpc.exchange, hserve]
  simp only [submitPendingTxOuts, hmethod]
  exact ⟨trivial, trivial⟩

theorem stuck_step {a : Action} (h : MAX_SIMULTANEOUS_QUOTES ≤ m.task.pendingTxOuts.length)
    (hs : m.step svc a = some m') : m.task.pendingTxOuts <+: m'.task.pendingTxOuts := by
  cases a with
  | other a =>
      rw [task_others hs]
  | blockProcessed received spent offer x =>
      have hq := m.task.prefix_queued received spent offer
      rcases blockProcessed_cases hs with hsub | rfl
      · have htask := (submitPendingTxOuts_of_refused svc (m := ⟨_, m.book⟩)
          (h.trans hq.length_le) x).1
        rw [← eq_of_survive hsub, htask]
        exact hq
      · exact hq
  | tick resubmission between submission =>
      obtain ⟨m₁, m₂, h₁, h₂, h₃⟩ := tick_cases hs
      have hpending : m₂.task.pendingTxOuts = m.task.pendingTxOuts := by
        rw [task_others h₂, ← eq_of_survive h₁]
        exact LiquidityBotTask.pendingTxOuts_resubmitListedTxOuts ..
      have htask := (submitPendingTxOuts_of_refused svc (m := m₂) (hpending ▸ h) submission).1
      rw [← eq_of_survive h₃, htask, hpending]
  | get channelOpen =>
      cases channelOpen with
      | true => exact Option.some.inj hs ▸ List.prefix_rfl
      | false => cases hs

theorem stuck_of_run {as : List Action} (hrun : Lts.Run (step svc) Lts.Any m as m')
    (h : MAX_SIMULTANEOUS_QUOTES ≤ m.task.pendingTxOuts.length) :
    m.task.pendingTxOuts <+: m'.task.pendingTxOuts := by
  induction hrun with
  | nil m => exact List.prefix_rfl
  | cons _ hs _ ih =>
      have hfirst := stuck_step h hs
      exact hfirst.trans (ih (h.trans hfirst.length_le))

end Market

namespace LiquidityBotTask

/-- **Few are served, many never.**  While no block leaves the bot with as many TxOuts as the
server refuses at once, the server refuses none of its requests for its size.  But once that
many are pending, the list never gets shorter: whatever happens to the bot and the book
from there on, the pending TxOuts stay pending, and every attempt to submit them fails. -/
theorem requests_within_limit (svc : ClientService) {pairs : AssocMap TokenId (TokenId × Decimal)}
    {as : List Action} {task : LiquidityBotTask}
    (hrun : Lts.Run (step svc.codec) FewTracked (.initial pairs) as task) :
    (∀ a, task.FewTracked a → ∀ req ∈ task.requests svc.codec a,
      req.quotes.length < MAX_SIMULTANEOUS_QUOTES ∧ ¬ svc.RefusesSize req) ∧
    ∀ (m m' : Market) (bs : List Market.Action),
      MAX_SIMULTANEOUS_QUOTES ≤ m.task.pendingTxOuts.length →
      Lts.Run (Market.step svc) Lts.Any m bs m' →
      m.task.pendingTxOuts <+: m'.task.pendingTxOuts ∧
      ∀ x, (m'.submitPendingTxOuts svc x).1.task = m'.task ∧
        (m'.submitPendingTxOuts svc x).2 = .err (.grpc x.failure) := by
  have hfew : task.keyImages.length < MAX_SIMULTANEOUS_QUOTES :=
    hrun.inv (fun t => t.keyImages.length < MAX_SIMULTANEOUS_QUOTES)
      (fun h hg hs => few_step h hg hs) (Nat.zero_lt_succ 29)
  refine ⟨?_, ?_⟩
  · intro a hg req hreq
    have hlen := length_requests hfew hg hreq
    exact ⟨hlen, fun hr => absurd (ClientService.refusesSize_iff.mp hr) (not_le.mpr hlen)⟩
  · intro m m' bs hm hbs
    have hgrown := Market.stuck_of_run hbs hm
    exact ⟨hgrown, fun x =>
      Market.submitPendingTxOuts_of_refused svc (hm.trans hgrown.length_le) x⟩

/-- One TxOut is received while the server is away; at the next tick it is sent. -/
theorem one_received_within_limit : ∃ task : LiquidityBotTask,
    Lts.Run (step sampleCodec) FewTracked (.initial samplePairs)
      [.blockProcessed [sampleTxOut 1] [] sampleOffer unreachable] task ∧
    task.requests sampleCodec (.tick unreachable unreachable) ≠ [] ∧
    ∀ req ∈ task.requests sampleCodec (.tick unreachable unreachable),
      req.quotes.length < MAX_SIMULTANEOUS_QUOTES := by
  have hrun : ∃ task : LiquidityBotTask,
      Lts.Run (step sampleCodec) FewTracked (.initial samplePairs)
        [.blockProcessed [sampleTxOut 1] [] sampleOffer unreachable] task ∧
      task.requests sampleCodec (.tick unreachable unreachable) ≠ [] := by
    refine ⟨_, .cons ?_ rfl (.nil _), List.cons_ne_nil _ _⟩
    show 1 < 30
    decide
  obtain ⟨task, hrun, hne⟩ := hrun
  refine ⟨task, hrun, hne, ?_⟩
  have hg : task.FewTracked (.tick unreachable unreachable) := trivial
  intro req hreq
  exact ((requests_within_limit ClientService.sampleService hrun).1 _ hg req hreq).1

def thirtyTxOuts : List MatchedTxOut :=
  (List.range 30).map fun i => sampleTxOut (UInt8.ofNat i)

/-- Thirty TxOuts make one request of thirty quotes.  The server, which could be reached, refuses
it, and they are pending for ever. -/
theorem thirty_received_stuck :
    ((initial samplePairs).requests sampleCodec
      (.blockProcessed thirtyTxOuts [] sampleOffer unreachable)).map
        (fun req => req.quotes.length) = [30] ∧
    ∃ m : Market, Lts.Run (Market.step ClientService.sampleService) Lts.Any
        ⟨.initial samplePairs, .default⟩
        [.blockProcessed thirtyTxOuts [] sampleOffer Market.answeredRpc] m ∧
      m.task.pendingTxOuts.length = 30 ∧
      ∀ bs m', Lts.Run (Market.step ClientService.sampleService) Lts.Any m bs m' →
        30 ≤ m'.task.pendingTxOuts.length := by
  refine ⟨by decide +kernel, ?_⟩
  have hrun : ∃ m : Market, Lts.Run (Market.step ClientService.sampleService) Lts.Any
      ⟨.initial samplePairs, .default⟩
      [.blockProcessed thirtyTxOuts [] sampleOffer Market.answeredRpc] m ∧
      m.task.pendingTxOuts.length = 30 :=
    ⟨_, Lts.run_of_exec rfl, rfl⟩
  obtain ⟨m, hrun, hlen⟩ := hrun
  refine ⟨m, hrun, hlen, ?_⟩
  intro bs m' hbs
  have hgrown := Market.stuck_of_run hbs hlen.ge
  exact hlen ▸ hgrown.length_le

end LiquidityBotTask
end Bot
end Deqs
