/-
# Live updates

`live_updates_impl` forwards what it reads on the message bus, as far as it is about the
pair the subscriber asked for.  A subscriber who wants to know what is in the book applies
the updates to a set, `Replay.replay` of what it was sent.

**Order** (`announced_before_removed`).  Nothing makes the fetcher wait for a submission, so
`SciQuoteRemoved` can be sent before `SciQuoteAdded` of the same quote, and who reads them
in that order keeps the quote for ever (`removed_before_announced`).  It is the only thing
that can go wrong: as long as the fetcher finds no quote that a submission has inserted and
not yet announced, nobody ends up with a quote that is not in the book.

**Peers** (`follows_iff_of_peers`).  What came from a peer is not announced at all, so a
subscriber of a server whose quotes come from peers has the right set only when the book is
empty.
-/
import Deqs.Lib.Replay
import Deqs.Server.Bus

namespace Deqs

open Sync (Ledger)
open Replay

/-! ## `live_updates_impl` -/

structure LiveUpdatesRequest where
  pair : Pair
deriving DecidableEq

inductive LiveUpdate where
  | quoteAdded (quote : ApiQuote)
  | quoteRemoved (id : List UInt8)
deriving DecidableEq

/-- The pair a subscriber is interested in, `none` for all of them. -/
def LiveUpdatesRequest.filterForPair (req : LiveUpdatesRequest) : Option Pair :=
  if req.pair.baseTokenId = 0 ∧ req.pair.counterTokenId = 0 then none else some req.pair

def LiveUpdatesRequest.admits (req : LiveUpdatesRequest) (quote : Quote) : Bool :=
  match req.filterForPair with
  | some pair => quote.pair = pair
  | none => true

/-- One turn of the loop of `live_updates_impl`. -/
def LiveUpdate.ofMsg (codec : SciCodec) (req : LiveUpdatesRequest) : Msg → Option LiveUpdate
  | .sciQuoteAdded quote =>
      if req.admits quote then some (.quoteAdded (quote.toApi codec)) else none
  | .sciQuoteRemoved quote =>
      if req.admits quote then some (.quoteRemoved quote.id.toApi) else none

/-- What `live_updates_impl` sends to a subscriber. -/
def liveUpdates (codec : SciCodec) (req : LiveUpdatesRequest) (msgs : List Msg) :
    List LiveUpdate :=
  msgs.filterMap (LiveUpdate.ofMsg codec req)

def LiveUpdate.update : LiveUpdate → Update (List UInt8)
  | .quoteAdded quote => .added quote.id
  | .quoteRemoved id => .removed id

/-- The updates, for someone who only keeps identifiers. -/
def idUpdates (codec : SciCodec) (req : LiveUpdatesRequest) (msgs : List Msg) :
    List (Update (List UInt8)) :=
  (liveUpdates codec req msgs).map LiveUpdate.update

/-- The identifiers a subscriber holds who has read `msgs`, from nothing. -/
def heldIds (codec : SciCodec) (req : LiveUpdatesRequest) (msgs : List Msg) :
    Finset (List UInt8) :=
  replay (idUpdates codec req msgs)

theorem idUpdates_append (codec : SciCodec) (req : LiveUpdatesRequest) (msgs msgs' : List Msg) :
    idUpdates codec req (msgs ++ msgs') =
      idUpdates codec req msgs ++ idUpdates codec req msgs' := by
  simp [idUpdates, liveUpdates]

theorem QuoteId.toApi_inj {a b : QuoteId} : a.toApi = b.toApi ↔ a = b := by
  refine ⟨?_, congrArg _⟩
  intro h
  have hof := congrArg QuoteId.ofApi h
  rw [QuoteId.ofApi_toApi, QuoteId.ofApi_toApi] at hof
  exact Except.ok.inj hof

def LiveUpdatesRequest.selects (req : LiveUpdatesRequest) (id : QuoteId) (quote : Quote) : Bool :=
  req.admits quote && decide (quote.id = id)

theorem LiveUpdatesRequest.countP_selects_eq_zero {req : LiveUpdatesRequest} {id : QuoteId}
    {qs : List Quote} (h : ∀ q ∈ qs, q.id ≠ id) : qs.countP (req.selects id) = 0 := by
  refine List.countP_eq_zero.mpr ?_
  intro q hq hsel
  simp only [selects, Bool.and_eq_true, decide_eq_true_eq] at hsel
  exact h q hq hsel.2

theorem idUpdates_singleton (codec : SciCodec) (req : LiveUpdatesRequest) (msg : Msg) :
    idUpdates codec req [msg] =
      ((LiveUpdate.ofMsg codec req msg).map LiveUpdate.update).toList := by
  cases h : LiveUpdate.ofMsg codec req msg with
  | none => simp [idUpdates, liveUpdates, h]
  | some update => simp [idUpdates, liveUpdates, h]

variable (codec : SciCodec) (req : LiveUpdatesRequest) (id : QuoteId)

theorem count_idUpdates_singleton (msg : Msg) :
    (idUpdates codec req [msg]).count (.added id.toApi) =
        (announced [msg]).countP (req.selects id) ∧
      (idUpdates codec req [msg]).count (.removed id.toApi) =
        (retracted [msg]).countP (req.selects id) := by
  rw [idUpdates_singleton]
  cases msg with
  | sciQuoteAdded quote =>
      cases hq : req.admits quote with
      | true =>
          simp [LiveUpdate.ofMsg, LiveUpdate.update, Quote.toApi, LiveUpdatesRequest.selects, hq,
            List.count_cons, List.countP_cons, QuoteId.toApi_inj]
      | false => simp [LiveUpdate.ofMsg, LiveUpdatesRequest.selects, hq]
  | sciQuoteRemoved quote =>
      cases hq : req.admits quote with
      | true =>
          simp [LiveUpdate.ofMsg, LiveUpdate.update, LiveUpdatesRequest.selects, hq,
            List.count_cons, List.countP_cons, QuoteId.toApi_inj]
      | false => simp [LiveUpdate.ofMsg, LiveUpdatesRequest.selects, hq]

theorem count_idUpdates : ∀ msgs : List Msg,
    (idUpdates codec req msgs).count (.added id.toApi) =
        (announced msgs).countP (req.selects id) ∧
      (idUpdates codec req msgs).count (.removed id.toApi) =
        (retracted msgs).countP (req.selects id)
  | [] => ⟨rfl, rfl⟩
  | msg :: msgs => by
      obtain ⟨hadd, hrem⟩ := count_idUpdates_singleton codec req id msg
      obtain ⟨ihadd, ihrem⟩ := count_idUpdates msgs
      rw [← List.singleton_append, idUpdates_append, announced_append, retracted_append]
      simp only [List.count_append, List.countP_append, hadd, hrem, ihadd, ihrem, and_self]

/-! ## Order -/

/-- The quotes that the next step of the fetcher takes out of the book. -/
def Sync.State.due (mc : McCore) (sync : Sync.State) : List Quote :=
  match sync.fetcher with
  | .removing _ (k :: _) => sync.book.quotes.filter (fun q => q.keyImage = k)
  | .expire last => sync.book.quotes.filter (InMemoryQuoteBook.expired mc last)
  | _ => []

theorem Sync.State.inHand_subset_due {mc : McCore} {sync sync' : Sync.State}
    {fault : Option String} (h : sync.fetch mc fault = some sync') :
    sync'.fetcher.inHand ⊆ sync.due mc := by
  have hnil : ∀ {f : Sync.Fetcher}, f.inHand = [] → f.inHand ⊆ sync.due mc := by
    intro f hf
    rw [hf]
    exact List.nil_subset _
  cases Sync.State.fetches_of_fetch h with
  | remove hf hr =>
      obtain ⟨-, rfl, -⟩ := InMemoryQuoteBook.removeQuotesByKeyImage_ok hr
      rw [due, hf]
      exact List.Subset.refl _
  | expire hf hr =>
      obtain ⟨-, rfl, -⟩ := InMemoryQuoteBook.removeQuotesByTombstoneBlock_ok hr
      rw [due, hf]
      exact List.Subset.refl _
  | poll hf hnext => rcases hnext with rfl | rfl <;> exact hnil rfl
  | notFound hf hnone => exact hnil (Sync.inHand_leave _ _)
  | again hf hnext =>
      rcases hnext with rfl | rfl
      · exact hnil (Sync.inHand_leave _ _)
      · exact hnil rfl
  | retry hpoisoned =>
      -- a step that hands over never leaves the fetcher where it was
      cases hf : sync.fetcher with
      | handing starting quotes ks =>
          simp only [fetch, hf, Option.some.injEq] at h
          cases (congrArg Sync.State.fetcher h).trans hf
      | handExpired last quotes =>
          simp only [fetch, hf, Option.some.injEq] at h
          cases (congrArg Sync.State.fetcher h).trans hf
      | _ => exact hnil rfl
  | _ => exact hnil rfl

namespace Server

/-- When the fetcher takes a quote with the identifier `id` out of the book, no submission
has one that it inserted and did not announce, and none came from a peer or with the book. -/
def AnnouncedFirst (mc : McCore) (id : QuoteId) (s : Server) : ServerAction → Prop
  | .fetch _ => id ∈ (s.sync.due mc).map Quote.id → id ∉ (s.unannounced ++ s.silent).map Quote.id
  | _ => True

end Server

/-- One more message keeps the updates ordered, if a removal has something to remove. -/
theorem ordered_snoc {msgs : List Msg} {msg : Msg}
    (h : Ordered (idUpdates codec req msgs) id.toApi)
    (hmsg : ∀ q, msg = .sciQuoteRemoved q → q.id = id → req.admits q = true →
      (retracted msgs).countP (req.selects id) < (announced msgs).countP (req.selects id)) :
    Ordered (idUpdates codec req (msgs ++ [msg])) id.toApi := by
  obtain ⟨hadd, hrem⟩ := count_idUpdates codec req id msgs
  rw [idUpdates_append, idUpdates_singleton]
  cases hm : LiveUpdate.ofMsg codec req msg with
  | none => simpa using h
  | some update =>
      refine h.snoc ?_
      intro hup
      rw [hadd, hrem]
      cases msg with
      | sciQuoteAdded q =>
          simp only [LiveUpdate.ofMsg, Option.ite_none_right_eq_some, Option.some.injEq] at hm
          rw [← hm.2] at hup
          cases hup
      | sciQuoteRemoved q =>
          simp only [LiveUpdate.ofMsg, Option.ite_none_right_eq_some, Option.some.injEq] at hm
          rw [← hm.2] at hup
          exact hmsg q rfl (QuoteId.toApi_inj.mp (Update.removed.inj hup)) hm.1

namespace Server

variable {svc : ClientService} {s s' : Server}

/-- Whatever the fetcher has taken out of the book was announced. -/
def Covered (s : Server) : Prop :=
  (retracted s.bus).countP (req.selects id) +
      (s.sync.fetcher.inHand ++ s.outbox).countP (req.selects id) ≤
    (announced s.bus).countP (req.selects id)

theorem covered_move (h : Balanced s) {a : ServerAction} (hc : Covered req id s)
    (hg : AnnouncedFirst svc.mc id s a) (hm : Moves svc s a s') : Covered req id s' := by
  unfold Covered at hc ⊢
  cases hm with
  | quiet ha hbus hout _ _ => rwa [hbus, hout, ha.fetcher]
  | announce hj =>
      simp only [announced_append, retracted_append, announced_map, retracted_map,
        List.countP_append, List.countP_nil] at hc ⊢
      omega
  | @fetch fault sync hout hs =>
      by_cases htake : id ∈ (s.sync.due svc.mc).map Quote.id
      · -- all that was ever inserted has been announced
        have hnone : (s.unannounced ++ s.silent).countP (req.selects id) = 0 := by
          refine LiveUpdatesRequest.countP_selects_eq_zero fun q hq hid => hg htake ?_
          exact List.mem_map.mpr ⟨q, hq, hid⟩
        have hcount := (h.fetch hout hs).countP (req.selects id)
        simp only [unannounced, List.countP_append] at hcount hnone ⊢
        omega
      · -- it takes none with the identifier
        have hnone : sync.fetcher.inHand.countP (req.selects id) = 0 := by
          refine LiveUpdatesRequest.countP_selects_eq_zero fun q hq hid => htake ?_
          exact List.mem_map.mpr ⟨q, Sync.State.inHand_subset_due hs hq, hid⟩
        rw [hout, List.append_nil] at hc
        simp only [List.countP_append, hnone]
        omega
  | sendRemoved hout =>
      rw [hout] at hc
      simp only [announced_append, retracted_append, announced_removed, retracted_removed,
        List.countP_append, List.countP_cons, List.countP_nil] at hc ⊢
      omega

theorem ordered_move {a : ServerAction} (hord : Ordered (idUpdates codec req s.bus) id.toApi)
    (hc : Covered req id s) (hm : Moves svc s a s') :
    Ordered (idUpdates codec req s'.bus) id.toApi := by
  cases hm with
  | quiet ha hbus hout hnew _ => rwa [hbus]
  | @announce j resp resp' r results hj =>
      cases r with
      | ok q => exact ordered_snoc codec req id hord (fun q' hq' => by cases hq')
      | error e => simpa [ClientService.createdOf] using hord
  | fetch hout hs => exact hord
  | @sendRemoved q outbox hout =>
      refine ordered_snoc codec req id hord ?_
      rintro q' ⟨⟩ hid hadmits
      have hq : req.selects id q = true := by simp [LiveUpdatesRequest.selects, hid, hadmits]
      rw [Covered, hout, List.countP_append, List.countP_cons_of_pos hq] at hc
      omega

/-- **Live updates follow removals**, as long as the fetcher takes a quote out of the book only
when every insertion of its identifier has been announced.  What a subscriber is sent about
the identifier is ordered, whatever pair it asked for; and when the quote is neither in the
book nor on its way out of it, nobody holds it, not even who subscribed late. -/
theorem announced_before_removed {id : QuoteId} {ledger : Ledger} {book : InMemoryQuoteBook}
    {as : List ServerAction}
    (hrun : Lts.Run (step svc) (AnnouncedFirst svc.mc id) (initial ledger book) as s)
    (req : LiveUpdatesRequest) :
    Ordered (idUpdates svc.codec req s.bus) id.toApi ∧
    (id ∉ (s.sync.book.quotes ++ (s.sync.fetcher.inHand ++ s.outbox)).map Quote.id →
      ∀ earlier seen, s.bus = earlier ++ seen → id.toApi ∉ heldIds svc.codec req seen) := by
  obtain ⟨hb, hord, -⟩ : Balanced s ∧ Ordered (idUpdates svc.codec req s.bus) id.toApi ∧
      Covered req id s := by
    refine hrun.inv
      (fun t => Balanced t ∧ Ordered (idUpdates svc.codec req t.bus) id.toApi ∧ Covered req id t)
      ?_ ⟨balanced_initial ledger book, ordered_nil, Nat.le_refl _⟩
    intro t a t' ht hg hs
    have hm := moves_of_step hs
    exact ⟨ht.1.move hm, ordered_move _ req id ht.2.1 ht.2.2 hm,
      covered_move req id ht.1 ht.2.2 hg hm⟩
  refine ⟨hord, ?_⟩
  intro hgone earlier seen hbus hheld
  have hcount := hb.countP (req.selects id)
  have hout : (s.sync.book.quotes ++ (s.sync.fetcher.inHand ++ s.outbox)).countP
      (req.selects id) = 0 := by
    refine LiveUpdatesRequest.countP_selects_eq_zero ?_
    intro q hq hid
    exact hgone (List.mem_map.mpr ⟨q, hq, hid⟩)
  obtain ⟨hadd, hrem⟩ := count_idUpdates svc.codec req id s.bus
  have hle := hord _ List.prefix_rfl
  rw [List.countP_append] at hout
  have hmem : id.toApi ∈ replay (idUpdates svc.codec req s.bus) := by
    rw [hbus, idUpdates_append]
    exact replay_suffix_subset _ _ hheld
  refine not_mem_replay hord ?_ hmem
  omega

/-- The offer of tag 1, submitted up to its insertion. -/
def insertActions : List ServerAction :=
  [.submitQuotes (some 7) ⟨[⟨[1]⟩]⟩, .startTask 0 0, .advanceTask 0 0 none,
    .advanceTask 0 0 none, .advanceTask 0 0 none]

def announceActions : List ServerAction := [.collect 0, .respond 0]

/-- The key image of the offer appears in a block, and the fetcher comes to it. -/
def spendActions : List ServerAction :=
  .append ⟨[⟨.fill 1⟩], []⟩ :: List.replicate 7 (.fetch none) ++ [.sendRemoved]

/-- Announced, spent and announced as removed. -/
theorem announced_then_spent : ∃ s : Server,
    Lts.Run (step ClientService.sampleService) (AnnouncedFirst sampleCore ⟨.fill 1⟩)
      (initial [⟨[], []⟩] .default) (insertActions ++ announceActions ++ spendActions) s ∧
    s.bus = [.sciQuoteAdded (sampleQuote 1 10 20 100 7),
      .sciQuoteRemoved (sampleQuote 1 10 20 100 7)] ∧
    QuoteId.toApi ⟨.fill 1⟩ ∉ heldIds sampleCodec ⟨⟨0, 0⟩⟩ s.bus := by
  have hrun : ∃ s : Server,
      Lts.Run (step ClientService.sampleService) (AnnouncedFirst sampleCore ⟨.fill 1⟩)
        (initial [⟨[], []⟩] .default) (insertActions ++ announceActions ++ spendActions) s ∧
      s.bus = [.sciQuoteAdded (sampleQuote 1 10 20 100 7),
        .sciQuoteRemoved (sampleQuote 1 10 20 100 7)] ∧
      s.sync.book.quotes ++ (s.sync.fetcher.inHand ++ s.outbox) = [] := by
    -- while the fetcher moves nothing waits to be announced
    exact ⟨_, .cons trivial rfl (.cons trivial rfl (.cons trivial rfl (.cons trivial rfl
      (.cons trivial rfl (.cons trivial rfl (.cons trivial rfl (.cons trivial rfl
      (.cons (fun _ => List.not_mem_nil) rfl (.cons (fun _ => List.not_mem_nil) rfl
      (.cons (fun _ => List.not_mem_nil) rfl (.cons (fun _ => List.not_mem_nil) rfl
      (.cons (fun _ => List.not_mem_nil) rfl (.cons (fun _ => List.not_mem_nil) rfl
      (.cons (fun _ => List.not_mem_nil) rfl (.cons trivial rfl (.nil _)))))))))))))))),
      rfl, rfl⟩
  obtain ⟨s, hrun, hbus, hgone⟩ := hrun
  refine ⟨s, hrun, hbus, ?_⟩
  refine (announced_before_removed hrun ⟨⟨0, 0⟩⟩).2 ?_ [] s.bus rfl
  rw [hgone]
  exact List.not_mem_nil

/-- The fetcher is faster: a quote that is gone is announced, and held for ever. -/
theorem removed_before_announced : ∃ s : Server,
    Lts.Run (step ClientService.sampleService) Lts.Any (initial [⟨[], []⟩] .default)
      (insertActions ++ spendActions ++ announceActions) s ∧
    s.bus = [.sciQuoteRemoved (sampleQuote 1 10 20 100 7),
      .sciQuoteAdded (sampleQuote 1 10 20 100 7)] ∧
    s.sync.book.quotes = [] ∧ s.sync.fetcher.inHand = [] ∧ s.outbox = [] ∧
    s.unannounced = [] ∧
    ¬ Ordered (idUpdates sampleCodec ⟨⟨0, 0⟩⟩ s.bus) (QuoteId.toApi ⟨.fill 1⟩) ∧
    QuoteId.toApi ⟨.fill 1⟩ ∈ heldIds sampleCodec ⟨⟨0, 0⟩⟩ s.bus := by
  have hrun : ∃ s : Server,
      Lts.Run (step ClientService.sampleService) Lts.Any (initial [⟨[], []⟩] .default)
        (insertActions ++ spendActions ++ announceActions) s ∧
      s.bus = [.sciQuoteRemoved (sampleQuote 1 10 20 100 7),
        .sciQuoteAdded (sampleQuote 1 10 20 100 7)] ∧
      s.sync.book.quotes = [] ∧ s.sync.fetcher.inHand = [] ∧ s.outbox = [] ∧
      s.unannounced = [] :=
    ⟨_, Lts.run_of_exec rfl, rfl, rfl, rfl, rfl, rfl⟩
  obtain ⟨s, hrun, hbus, hbook, hhand, hout, hun⟩ := hrun
  refine ⟨s, hrun, hbus, hbook, hhand, hout, hun, ?_, ?_⟩
  · rw [hbus]
    intro h
    exact absurd (h [.removed (QuoteId.toApi ⟨.fill 1⟩)] ⟨_, rfl⟩) (by decide)
  · rw [hbus]
    decide

/-! ## Peers -/

/-- Who has read the whole bus holds the identifiers of the book and no others. -/
def Follows (codec : SciCodec) (req : LiveUpdatesRequest) (s : Server) : Prop :=
  ∀ id : QuoteId, id.toApi ∈ heldIds codec req s.bus ↔ id ∈ s.sync.book.quotes.map Quote.id

def FromPeers (_ : Server) : ServerAction → Prop
  | .submitQuotes _ _ => False
  | _ => True

theorem silent_move {a : ServerAction} (h : s.submissions = [] ∧ announced s.bus = [])
    (hg : FromPeers s a) (hm : Moves svc s a s') :
    s'.submissions = [] ∧ announced s'.bus = [] := by
  cases hm with
  | quiet ha hbus hout hnew hsub =>
      refine ⟨?_, by rw [hbus]; exact h.2⟩
      rcases hsub h.1 with hnil | ⟨clock, req, rfl⟩
      · exact hnil
      · exact absurd hg id
  | announce hj => exact absurd h.1 (submissions_ne_nil hj)
  | fetch hout hs => exact h
  | sendRemoved hout =>
      refine ⟨h.1, ?_⟩
      rw [announced_append, h.2]
      rfl

theorem heldIds_of_announced_nil {codec : SciCodec} {req : LiveUpdatesRequest} {msgs : List Msg}
    (h : announced msgs = []) : heldIds codec req msgs = ∅ := by
  refine replay_eq_empty ?_
  intro i hi
  obtain ⟨u, hu, hadded⟩ := List.mem_map.mp hi
  obtain ⟨msg, hmsg, hof⟩ := List.mem_filterMap.mp hu
  cases msg with
  | sciQuoteAdded q =>
      have hq : q ∈ announced msgs := List.mem_filterMap.mpr ⟨_, hmsg, rfl⟩
      rw [h] at hq
      cases hq
  | sciQuoteRemoved q =>
      simp only [LiveUpdate.ofMsg, Option.ite_none_right_eq_some, Option.some.injEq] at hof
      rw [← hof.2] at hadded
      cases hadded

/-- **Peers are not heard of.**  In every run in which quotes come from peers, a subscriber
who has followed the bus from the beginning has the right set exactly when the book is
empty. -/
theorem follows_iff_of_peers {ledger : Ledger} {as : List ServerAction}
    (hrun : Lts.Run (step svc) FromPeers (initial ledger .default) as s)
    (req : LiveUpdatesRequest) : s.Follows svc.codec req ↔ s.sync.book.quotes = [] := by
  have hsilent : s.submissions = [] ∧ announced s.bus = [] :=
    hrun.inv (fun t => t.submissions = [] ∧ announced t.bus = [])
      (fun ht hg hs => silent_move ht hg (moves_of_step hs)) ⟨rfl, rfl⟩
  have hheld : heldIds svc.codec req s.bus = ∅ := heldIds_of_announced_nil hsilent.2
  unfold Follows
  rw [hheld]
  constructor
  · intro h
    refine List.eq_nil_iff_forall_not_mem.mpr ?_
    intro q hq
    exact Finset.notMem_empty _ ((h q.id).mpr (List.mem_map_of_mem hq))
  · intro hnil id
    rw [hnil]
    simp

def gossipActions : List ServerAction :=
  [.handleSciQuoteAdded 0 (sampleQuote 1 10 20 100 7), .advancePeer 0 none, .advancePeer 0 none,
    .advancePeer 0 none]

theorem gossip_spent_fromPeers : ∀ a ∈ gossipActions ++ spendActions, ∀ s, FromPeers s a := by
  simp [gossipActions, spendActions, FromPeers]

/-- Once the quote from the peer is spent, the reader is right again. -/
theorem gossip_spent_follows : ∃ s : Server,
    Lts.Run (step ClientService.sampleService) FromPeers (initial [⟨[], []⟩] .default)
      (gossipActions ++ spendActions) s ∧
    s.bus = [.sciQuoteRemoved (sampleQuote 1 10 20 100 7)] ∧
    s.Follows sampleCodec ⟨⟨0, 0⟩⟩ := by
  have hrun : ∃ s : Server,
      Lts.Run (step ClientService.sampleService) Lts.Any (initial [⟨[], []⟩] .default)
        (gossipActions ++ spendActions) s ∧
      s.bus = [.sciQuoteRemoved (sampleQuote 1 10 20 100 7)] ∧ s.sync.book.quotes = [] :=
    ⟨_, Lts.run_of_exec rfl, rfl, rfl⟩
  obtain ⟨s, hrun, hbus, hbook⟩ := hrun
  have hpeers := hrun.of_forall (G := FromPeers) gossip_spent_fromPeers
  exact ⟨s, hpeers, hbus, (follows_iff_of_peers hpeers ⟨⟨0, 0⟩⟩).mpr hbook⟩

/-- The quote from the peer is in the book, and the bus is silent. -/
theorem gossip_not_announced : ∃ s : Server,
    Lts.Run (step ClientService.sampleService) FromPeers (initial [⟨[], []⟩] .default)
      gossipActions s ∧
    s.bus = [] ∧ s.outbox = [] ∧ s.sync.fetcher.inHand = [] ∧
    s.sync.book.quotes = [sampleQuote 1 10 20 100 7] ∧ ¬ s.Follows sampleCodec ⟨⟨0, 0⟩⟩ := by
  have hrun : ∃ s : Server,
      Lts.Run (step ClientService.sampleService) FromPeers (initial [⟨[], []⟩] .default)
        gossipActions s ∧
      s.bus = [] ∧ s.outbox = [] ∧ s.sync.fetcher.inHand = [] ∧
      s.sync.book.quotes = [sampleQuote 1 10 20 100 7] :=
    ⟨_, .cons trivial rfl (.cons trivial rfl (.cons trivial rfl (.cons trivial rfl (.nil _)))),
      rfl, rfl, rfl, rfl⟩
  obtain ⟨s, hrun, hbus, hout, hhand, hbook⟩ := hrun
  refine ⟨s, hrun, hbus, hout, hhand, hbook, ?_⟩
  intro h
  have hid := (h ⟨.fill 1⟩).mpr (by rw [hbook]; exact List.mem_cons_self)
  rw [hbus] at hid
  exact Finset.notMem_empty _ hid

end Server
end Deqs
