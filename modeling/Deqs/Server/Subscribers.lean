/-
# The bus with its readers

The message bus is a `postage` broadcast channel of 1000 messages.  Its first reader is the
event loop of the server, and every `live_updates` call subscribes another one.  The channel
is a parameter: all that is known of it are the laws of `Broadcast`.

Two threads send, and both wait when the channel is full:

| sender | the channel is closed |
| :-- | :-- |
| `submit_quotes_impl` | the error is logged, the response is the same |
| the callback of the fetcher | `panic!`, on the fetcher's own thread |

`Hub` is the server of the previous modules with a channel for its bus.

* `updates_account`: what a `live_updates` client has been sent, with the few messages it has
  not read, accounts for the book.  Of every identifier, the additions less the removals it
  is told of are what the book has gained since it subscribed, but for the quotes that nobody
  is told of or has been told of yet.
* `stalled_reader_blocks`: a subscriber that stops reading stops the others.  After at most
  the capacity of further messages nothing is sent any more, a submission that has created
  a quote does not return, and a fetcher with a removal to announce takes no step: the
  ledger grows and nothing is removed.
* `closed_bus_ends_fetcher`: once the event loop has ended and nobody subscribes, quotes are
  created as before but not announced, and the fetcher ends at the first quote it removes.
-/
import Deqs.Lib.Broadcast
import Deqs.Server.LiveUpdates
import Deqs.Sync.Durable

namespace Deqs

open Broadcast
open Replay
open Sync (Ledger Frozen frozen_of_sameFetcher)

/-! ## The system -/

structure Hub (ch : Channel Msg) where
  server : Server
  channel : ch.State

inductive HubAction where
  | server (a : ServerAction)
  /-- `msg_bus_tx.subscribe()`. -/
  | subscribe
  /-- `msg_bus_rx.recv()`. -/
  | recv (i : Nat)
  /-- A receiver goes out of scope. -/
  | drop (i : Nat)

namespace Hub

variable {ch : Channel Msg}

/-- A server that has just been started: the event loop holds the first reader. -/
def initial (ledger : Ledger) (book : InMemoryQuoteBook) : Hub ch :=
  ⟨.initial ledger book, ch.opened⟩

/-- What becomes of a step whose message nobody can receive.  `s'` is the step as it would
have been. -/
def refused (s s' : Server) : ServerAction → Server
  | .respond _ => { s' with bus := s.bus }
  | .sendRemoved => { s with outbox := [], sync := { s.sync with fetcher := .stopped } }
  | _ => s'

/-- A step of the server.  One that sends waits while the channel is full. -/
def serve (svc : ClientService) (h : Hub ch) (a : ServerAction) : Option (Hub ch) :=
  match h.server.step svc a with
  | none => none
  | some s =>
      match s.bus.drop h.server.bus.length with
      | [] => some { h with server := s }
      | msg :: _ =>
          match ch.send h.channel msg with
          | .accepted c => some ⟨s, c⟩
          | .full => none
          | .closed => some { h with server := refused h.server s a }

def step (svc : ClientService) (h : Hub ch) : HubAction → Option (Hub ch)
  | .server a => h.serve svc a
  | .subscribe => some { h with channel := ch.subscribe h.channel }
  | .recv i => (ch.recv h.channel i).map fun r => { h with channel := r.2 }
  | .drop i => some { h with channel := ch.drop h.channel i }

end Hub

variable {svc : ClientService} {capacity : Nat} {ch : Channel Msg} {laws : Laws capacity ch}
variable {h h' : Hub ch} {s s' : Server}

/-! ## What a step sends -/

/-- A step sends nothing, or one message, as the answer to a result or for the callback. -/
theorem Server.bus_of_step {a : ServerAction} (hs : s.step svc a = some s') :
    s'.bus = s.bus ∨ ∃ m, s'.bus = s.bus ++ [m] ∧
      ((∃ j resp q results, a = .respond j ∧
          s.submissions[j]? = some (.sending resp (.ok q :: results))) ∨
        a = .sendRemoved ∧ s.outbox ≠ []) := by
  cases moves_of_step hs with
  | quiet _ hbus _ _ _ => exact .inl hbus
  | @announce j resp resp' r results hj =>
      cases r with
      | error e => exact .inl (List.append_nil _)
      | ok q => exact .inr ⟨_, rfl, .inl ⟨j, resp, q, results, rfl, hj⟩⟩
  | fetch _ _ => exact .inl rfl
  | sendRemoved hout => exact .inr ⟨_, rfl, .inr ⟨rfl, by rw [hout]; simp⟩⟩

/-- **The four ends of a step of the server**: it sends nothing; its message is sent; it is an
answer whose message is lost; or it is the callback, which panics. -/
theorem Hub.serve_cases {a : ServerAction} (hs : h.serve svc a = some h') :
    ∃ s', h.server.step svc a = some s' ∧
      ((s'.bus = h.server.bus ∧ h' = ⟨s', h.channel⟩) ∨
        (∃ m c, ch.send h.channel m = .accepted c ∧ s'.bus = h.server.bus ++ [m] ∧
          h' = ⟨s', c⟩) ∨
        (∃ m j, ch.send h.channel m = .closed ∧ a = .respond j ∧
          h' = ⟨{ s' with bus := h.server.bus }, h.channel⟩) ∨
        (∃ m, ch.send h.channel m = .closed ∧ a = .sendRemoved ∧ h.server.outbox ≠ [] ∧
          h' = ⟨{ h.server with
            outbox := [], sync := { h.server.sync with fetcher := .stopped } }, h.channel⟩)) := by
  unfold Hub.serve at hs
  cases hstep : h.server.step svc a with
  | none => simp [hstep] at hs
  | some s' =>
      refine ⟨s', rfl, ?_⟩
      simp only [hstep] at hs
      rcases Server.bus_of_step hstep with hbus | ⟨m, hbus, hwho⟩
      · rw [hbus, List.drop_length] at hs
        exact .inl ⟨hbus, (Option.some.inj hs).symm⟩
      · rw [hbus, List.drop_left] at hs
        cases ho : ch.send h.channel m with
        | full => simp [ho] at hs
        | accepted c =>
            simp only [ho] at hs
            exact .inr (.inl ⟨m, c, ho, hbus, (Option.some.inj hs).symm⟩)
        | closed =>
            simp only [ho] at hs
            obtain rfl := Option.some.inj hs
            rcases hwho with ⟨j, resp, q, results, rfl, -⟩ | ⟨rfl, hout⟩
            · exact .inr (.inr (.inl ⟨m, j, ho, rfl, rfl⟩))
            · exact .inr (.inr (.inr ⟨m, ho, rfl, hout, rfl⟩))

/-! ## The channel has the messages of the server -/

/-- The history of the channel is the bus of the server. -/
structure Hub.Carried (laws : Laws capacity ch) (h : Hub ch) : Prop where
  sent : laws.sent h.channel = h.server.bus
  valid : Valid laws h.channel

theorem Hub.carried_initial (ledger : Ledger) (book : InMemoryQuoteBook) :
    Hub.Carried laws (.initial ledger book) :=
  ⟨laws.fifo_opened.1, .opened⟩

theorem Hub.carried_step {a : HubAction} (hc : Hub.Carried laws h)
    (hs : h.step svc a = some h') : Hub.Carried laws h' := by
  cases a with
  | server a =>
      obtain ⟨s', -, hend⟩ := Hub.serve_cases hs
      rcases hend with ⟨hbus, rfl⟩ | ⟨m, c, ho, hbus, rfl⟩ | ⟨m, j, -, -, rfl⟩ |
        ⟨m, -, -, -, rfl⟩
      · exact ⟨hc.sent.trans hbus.symm, hc.valid⟩
      · refine ⟨?_, hc.valid.send ho⟩
        rw [(laws.fifo_send ho).1, hc.sent, hbus]
      · exact ⟨hc.sent, hc.valid⟩
      · exact ⟨hc.sent, hc.valid⟩
  | subscribe =>
      obtain rfl := Option.some.inj hs
      exact ⟨(laws.fifo_subscribe _).1.trans hc.sent, hc.valid.subscribe⟩
  | recv i =>
      obtain ⟨⟨m, c⟩, hr, rfl⟩ := Option.map_eq_some_iff.mp hs
      exact ⟨(laws.fifo_recv hr).1.trans hc.sent, hc.valid.recv hr⟩
  | drop i =>
      obtain rfl := Option.some.inj hs
      exact ⟨(laws.fifo_drop _ i).1.trans hc.sent, hc.valid.drop⟩

theorem Hub.carried_of_run {ledger : Ledger} {book : InMemoryQuoteBook} {as : List HubAction}
    {G : Hub ch → HubAction → Prop}
    (hrun : Lts.Run (Hub.step svc) G (.initial ledger book) as h) : Hub.Carried laws h :=
  hrun.inv (Hub.Carried laws) (fun hc _ hs => Hub.carried_step hc hs)
    (Hub.carried_initial ledger book)

theorem Hub.reader_of_step {a : HubAction} (hs : h.step svc a = some h') {i : Nat}
    {r : Reader Msg} (hi : (laws.readers h.channel)[i]? = some (some r)) (hr : a ≠ .recv i)
    (hd : a ≠ .drop i) : (laws.readers h'.channel)[i]? = some (some r) := by
  cases a with
  | server a =>
      obtain ⟨s', -, hend⟩ := Hub.serve_cases hs
      rcases hend with ⟨-, rfl⟩ | ⟨m, c, ho, -, rfl⟩ | ⟨m, j, -, -, rfl⟩ | ⟨m, -, -, -, rfl⟩
      · exact hi
      · rw [(laws.fifo_send ho).2, hi]
      · exact hi
      · exact hi
  | subscribe =>
      obtain rfl := Option.some.inj hs
      exact reader_subscribe hi
  | recv j =>
      obtain ⟨⟨m, c⟩, hc, rfl⟩ := Option.map_eq_some_iff.mp hs
      exact reader_recv hi (fun heq => hr (by rw [heq])) hc
  | drop j =>
      obtain rfl := Option.some.inj hs
      exact reader_drop hi (fun heq => hd (by rw [heq]))

theorem Hub.since_of_step {a : HubAction} (hs : h.step svc a = some h') {i : Nat}
    {r : Reader Msg} (hi : (laws.readers h.channel)[i]? = some (some r)) (hd : a ≠ .drop i) :
    ∃ r' : Reader Msg, (laws.readers h'.channel)[i]? = some (some r') ∧ r'.since = r.since := by
  by_cases hr : a = .recv i
  · subst hr
    obtain ⟨⟨m, c⟩, hc, rfl⟩ := Option.map_eq_some_iff.mp hs
    obtain ⟨-, r', hi', -, hreaders⟩ := laws.fifo_recv hc
    obtain rfl : r' = r := by
      have heq := hi'.symm.trans hi
      simpa using heq
    have hlt := (List.getElem?_eq_some_iff.mp hi).1
    exact ⟨{ r' with got := r'.got ++ [m] }, by rw [hreaders, List.getElem?_set_self hlt], rfl⟩
  · exact ⟨r, Hub.reader_of_step hs hi hr hd, rfl⟩

/-! ## What a subscriber can make of its updates -/

def LoopStays (_ : Hub ch) (a : HubAction) : Prop := a ≠ .drop 0

/-- The bus has a reader and carries the messages of a server in balance. -/
structure Hub.Heard (laws : Laws capacity ch) (h : Hub ch) : Prop where
  carried : Hub.Carried laws h
  loop : ∃ r, (laws.readers h.channel)[0]? = some (some r)
  balanced : h.server.Balanced

/-- **With the event loop there, no message is lost.** -/
theorem Hub.heard_step {a : HubAction} (hh : Hub.Heard laws h) (hg : LoopStays h a)
    (hs : h.step svc a = some h') : Hub.Heard laws h' := by
  obtain ⟨r, hloop⟩ := hh.loop
  obtain ⟨r', hloop', -⟩ := Hub.since_of_step hs hloop hg
  refine ⟨Hub.carried_step hh.carried hs, ⟨r', hloop'⟩, ?_⟩
  cases a with
  | server a =>
      obtain ⟨s', hstep, hend⟩ := Hub.serve_cases hs
      have hmove : s'.Balanced := hh.balanced.move (Server.moves_of_step hstep)
      rcases hend with ⟨-, rfl⟩ | ⟨m, c, -, -, rfl⟩ | ⟨m, j, ho, -⟩ | ⟨m, ho, -⟩
      · exact hmove
      · exact hmove
      · exact absurd ho (send_ne_closed hloop m)
      · exact absurd ho (send_ne_closed hloop m)
  | subscribe => obtain rfl := Option.some.inj hs; exact hh.balanced
  | recv i => obtain ⟨c, -, rfl⟩ := Option.map_eq_some_iff.mp hs; exact hh.balanced
  | drop i => obtain rfl := Option.some.inj hs; exact hh.balanced

theorem Hub.heard_initial (ledger : Ledger) (book : InMemoryQuoteBook) :
    Hub.Heard laws (.initial ledger book) where
  carried := Hub.carried_initial ledger book
  loop := ⟨_, by rw [Hub.initial, laws.fifo_opened.2]; rfl⟩
  balanced := Server.balanced_initial ledger book

/-- The quotes that are in the book or on their way out of it. -/
def Server.held (s : Server) : List Quote :=
  s.sync.book.quotes ++ (s.sync.fetcher.inHand ++ s.outbox)

/-- The quotes that were inserted and not announced: a submission has still to, or they came
from a peer or with the book. -/
def Server.unheard (s : Server) : List Quote := s.unannounced ++ s.silent

theorem Server.Balanced.updates (hb : s.Balanced) (codec : SciCodec) (req : LiveUpdatesRequest)
    (id : QuoteId) :
    (idUpdates codec req s.bus).count (.added id.toApi) + s.unheard.countP (req.selects id) =
      (idUpdates codec req s.bus).count (.removed id.toApi) +
        s.held.countP (req.selects id) := by
  obtain ⟨hadd, hrem⟩ := count_idUpdates codec req id s.bus
  have hcount := hb.countP (req.selects id)
  rw [hadd, hrem, Server.held, Server.unheard, List.countP_append]
  simp only [List.countP_append] at hcount ⊢
  omega

theorem Hub.bus_grows {a : HubAction} (hs : h.step svc a = some h') :
    ∃ later, h'.server.bus = h.server.bus ++ later := by
  cases a with
  | server a =>
      obtain ⟨s', -, hend⟩ := Hub.serve_cases hs
      rcases hend with ⟨hbus, rfl⟩ | ⟨m, c, -, hbus, rfl⟩ | ⟨m, j, -, -, rfl⟩ |
        ⟨m, -, -, -, rfl⟩
      · exact ⟨[], by rw [hbus, List.append_nil]⟩
      · exact ⟨[m], hbus⟩
      · exact ⟨[], (List.append_nil _).symm⟩
      · exact ⟨[], (List.append_nil _).symm⟩
  | subscribe => obtain rfl := Option.some.inj hs; exact ⟨[], (List.append_nil _).symm⟩
  | recv i =>
      obtain ⟨c, -, rfl⟩ := Option.map_eq_some_iff.mp hs
      exact ⟨[], (List.append_nil _).symm⟩
  | drop i => obtain rfl := Option.some.inj hs; exact ⟨[], (List.append_nil _).symm⟩

/-- **The updates of a subscriber account for the book.**  The messages since a call of
`live_updates` subscribed are those it has read and at most the capacity of the channel that
it has not.  Among them, the additions of an identifier less its removals are what the server
holds of it now less what it held then, but for what was and is inserted without an
announcement. -/
theorem updates_account (laws : Laws capacity ch) {ledger : Ledger} {book : InMemoryQuoteBook}
    {as bs : List HubAction} {h₀ h₁ : Hub ch}
    (hbefore : Lts.Run (Hub.step svc) LoopStays (.initial ledger book) as h₀)
    (hsub : h₀.step svc .subscribe = some h₁)
    (hafter : Lts.Run (Hub.step svc)
      (fun h a => LoopStays h a ∧ a ≠ .drop (laws.readers h₀.channel).length) h₁ bs h) :
    ∃ got unread : List Msg,
      (laws.readers h.channel)[(laws.readers h₀.channel).length]? =
        some (some ⟨h₀.server.bus.length, got⟩) ∧
      h.server.bus = h₀.server.bus ++ (got ++ unread) ∧ unread.length ≤ capacity ∧
      ∀ (req : LiveUpdatesRequest) (id : QuoteId),
        (idUpdates svc.codec req (got ++ unread)).count (.added id.toApi) +
            h₀.server.held.countP (req.selects id) + h.server.unheard.countP (req.selects id) =
          (idUpdates svc.codec req (got ++ unread)).count (.removed id.toApi) +
            h.server.held.countP (req.selects id) +
            h₀.server.unheard.countP (req.selects id) := by
  have hheard₀ : Hub.Heard laws h₀ := hbefore.inv (Hub.Heard laws)
    (fun hh hg hs => Hub.heard_step hh hg hs) (Hub.heard_initial ledger book)
  have hheard₁ : Hub.Heard laws h₁ := Hub.heard_step hheard₀ (by simp [LoopStays]) hsub
  have hheard : Hub.Heard laws h := hafter.inv (Hub.Heard laws)
    (fun hh hg hs => Hub.heard_step hh hg.1 hs) hheard₁
  obtain rfl := Option.some.inj hsub
  -- the reader is there, and the bus has only grown
  obtain ⟨⟨r, hi, hsince⟩, more, hbus⟩ : (∃ r : Reader Msg,
      (laws.readers h.channel)[(laws.readers h₀.channel).length]? = some (some r) ∧
        r.since = h₀.server.bus.length) ∧ ∃ more, h.server.bus = h₀.server.bus ++ more := by
    refine hafter.inv (fun h => (∃ r : Reader Msg,
      (laws.readers h.channel)[(laws.readers h₀.channel).length]? = some (some r) ∧
        r.since = h₀.server.bus.length) ∧ ∃ more, h.server.bus = h₀.server.bus ++ more) ?_ ?_
    · rintro u a u' ⟨⟨r, hi, hsince⟩, more, hbus⟩ hg hs
      obtain ⟨r', hi', hsince'⟩ := Hub.since_of_step hs hi hg.2
      refine ⟨⟨r', hi', hsince'.trans hsince⟩, ?_⟩
      obtain ⟨later, hlater⟩ := Hub.bus_grows hs
      exact ⟨more ++ later, by rw [hlater, hbus, List.append_assoc]⟩
    · refine ⟨⟨⟨h₀.server.bus.length, []⟩, ?_, rfl⟩, [], (List.append_nil _).symm⟩
      rw [(laws.fifo_subscribe h₀.channel).2, hheard₀.carried.sent]
      simp
  obtain ⟨since, got⟩ := r
  obtain rfl : since = h₀.server.bus.length := hsince
  obtain ⟨unread, hunread, hle⟩ := hheard.carried.valid.unread hi
  rw [hheard.carried.sent, hbus, List.drop_left] at hunread
  subst hunread
  refine ⟨got, unread, hi, hbus, hle, ?_⟩
  intro req id
  have hthen := hheard₀.balanced.updates svc.codec req id
  have hnow := hheard.balanced.updates svc.codec req id
  rw [hbus, idUpdates_append] at hnow
  simp only [List.count_append] at hnow
  omega

/-- A client subscribes when a submission has inserted its quote and not announced it, and has
been told of it when the quote is spent. -/
theorem subscriber_updates_account : ∃ (h₀ h : Hub (Broadcast.list Msg 2)) (unread : List Msg),
    h₀.server.held = [sampleQuote 1 10 20 100 7] ∧ h.server.held = [] ∧
    ((listLaws Msg 2).readers h.channel)[1]? =
      some (some ⟨0, [.sciQuoteAdded (sampleQuote 1 10 20 100 7)]⟩) ∧
    h.server.bus = [.sciQuoteAdded (sampleQuote 1 10 20 100 7)] ++ unread ∧
    ∀ (req : LiveUpdatesRequest) (id : QuoteId),
      (idUpdates sampleCodec req
            ([.sciQuoteAdded (sampleQuote 1 10 20 100 7)] ++ unread)).count (.added id.toApi) +
          h₀.server.held.countP (req.selects id) + h.server.unheard.countP (req.selects id) =
        (idUpdates sampleCodec req
            ([.sciQuoteAdded (sampleQuote 1 10 20 100 7)] ++ unread)).count (.removed id.toApi) +
          h.server.held.countP (req.selects id) +
          h₀.server.unheard.countP (req.selects id) := by
  have hruns : ∃ h₀ h₁ h : Hub (Broadcast.list Msg 2),
      Lts.Run (Hub.step ClientService.sampleService) Lts.Any (.initial [⟨[], []⟩] .default)
        (Server.insertActions.map .server) h₀ ∧ h₀.server.bus = [] ∧
      h₀.server.held = [sampleQuote 1 10 20 100 7] ∧
      ((listLaws Msg 2).readers h₀.channel).length = 1 ∧
      h₀.step ClientService.sampleService .subscribe = some h₁ ∧
      Lts.Run (Hub.step ClientService.sampleService) Lts.Any h₁
        ((Server.announceActions ++ Server.spendActions).map .server ++ [.recv 1]) h ∧
      h.server.held = [] ∧ ((listLaws Msg 2).readers h.channel)[1]? =
        some (some ⟨0, [.sciQuoteAdded (sampleQuote 1 10 20 100 7)]⟩) :=
    ⟨_, _, _, Lts.run_of_exec rfl, rfl, rfl, rfl, rfl, Lts.run_of_exec rfl, rfl, rfl⟩
  obtain ⟨h₀, h₁, h, hbefore, hbus₀, hheld₀, hone, hsub, hafter, hheld, hi⟩ := hruns
  have hstays₀ : ∀ a ∈ Server.insertActions.map HubAction.server,
      ∀ u : Hub (Broadcast.list Msg 2), LoopStays u a := by
    intro a ha u
    obtain ⟨b, -, rfl⟩ := List.mem_map.mp ha
    simp [LoopStays]
  have hstays : ∀ a ∈ (Server.announceActions ++ Server.spendActions).map HubAction.server ++
      [.recv 1], ∀ u : Hub (Broadcast.list Msg 2),
      LoopStays u a ∧ a ≠ .drop ((listLaws Msg 2).readers h₀.channel).length := by
    intro a ha u
    rcases List.mem_append.mp ha with ha | ha
    · obtain ⟨b, -, rfl⟩ := List.mem_map.mp ha
      simp [LoopStays]
    · obtain rfl := List.mem_singleton.mp ha
      simp [LoopStays]
  obtain ⟨got, unread, hi', hbus, -, haccount⟩ := updates_account (listLaws Msg 2)
    (hbefore.of_forall hstays₀) hsub (hafter.of_forall hstays)
  rw [hone, hi, hbus₀] at hi'
  simp only [Option.some.injEq, Reader.mk.injEq] at hi'
  obtain ⟨-, rfl⟩ := hi'
  rw [hbus₀, List.nil_append] at hbus
  exact ⟨h₀, h, unread, hheld₀, hheld, hi, hbus, haccount⟩

/-! ## A reader that does not read -/

theorem Server.frozen_of_step {a : ServerAction} (hs : s.step svc a = some s')
    (ha : ∀ fault, a ≠ .fetch fault) : Frozen s.sync s'.sync := by
  have hself : Frozen s.sync s.sync := ⟨rfl, rfl, rfl, rfl, rfl⟩
  have hsync : ∀ {b : Sync.Action} {sync : Sync.State}, (∀ fault, b ≠ .fetch fault) →
      s.sync.step svc.mc b = some sync → Frozen s.sync sync := by
    intro b sync hb hstep
    rcases Sync.State.step_cases hstep with ⟨block, -, rfl⟩ | ⟨fault, rfl, -⟩ | hsame
    · exact ⟨rfl, rfl, rfl, rfl, rfl⟩
    · exact absurd rfl (hb fault)
    · exact frozen_of_sameFetcher hsame
  have henter : ∀ {c : Nat} {o : Outcome Error Quote} {sync : Sync.State},
      s.sync.enter c o = some sync → Frozen s.sync sync := by
    intro c o sync h
    unfold Sync.State.enter at h
    split at h
    · obtain rfl := Option.some.inj h
      exact ⟨rfl, rfl, rfl, rfl, rfl⟩
    · obtain rfl := Option.some.inj h
      exact ⟨rfl, rfl, rfl, rfl, rfl⟩
    · cases h
  have hadvance : ∀ {c : Nat} {fault : Option String} {sync : Sync.State},
      s.sync.advance c fault = some sync → Frozen s.sync sync := by
    intro c fault sync h
    have hstep : s.sync.step svc.mc (.advance c fault) = some sync := h
    exact hsync (fun _ h => by cases h) hstep
  cases a with
  | append block => obtain rfl := Option.some.inj hs; exact ⟨rfl, rfl, rfl, rfl, rfl⟩
  | submitQuotes clock req => obtain rfl := Option.some.inj hs; exact hself
  | startTask j i =>
      obtain ⟨timestamp, tasks, task, sync, task', -, -, hf, rfl⟩ := stepTask_some hs
      cases task with
      | waiting sci =>
          obtain ⟨sync', hsync', heq⟩ := Option.map_eq_some_iff.mp hf
          obtain ⟨rfl, -⟩ := Prod.mk.inj heq
          exact henter hsync'
      | adding => cases hf
      | returned r => cases hf
  | advanceTask j i fault =>
      obtain ⟨timestamp, tasks, task, sync, task', -, -, hf, rfl⟩ := stepTask_some hs
      cases task with
      | adding =>
          obtain ⟨sync', hsync', heq⟩ := Option.map_eq_some_iff.mp hf
          obtain ⟨rfl, -⟩ := Prod.mk.inj heq
          exact hadvance hsync'
      | waiting sci => cases hf
      | returned r => cases hf
  | collect j =>
      simp only [step] at hs
      split at hs
      · obtain ⟨sub, -, rfl⟩ := Option.map_eq_some_iff.mp hs
        exact hself
      · cases hs
  | respond j =>
      simp only [step] at hs
      split at hs
      · obtain rfl := Option.some.inj hs; exact hself
      · obtain rfl := Option.some.inj hs; exact hself
      · cases hs
  | handleSciQuoteAdded k remoteQuote =>
      simp only [step] at hs
      split at hs
      · obtain ⟨sync, hsync', rfl⟩ := Option.map_eq_some_iff.mp hs
        exact henter hsync'
      · cases hs
  | syncQuotesFromPeer k answers =>
      simp only [step] at hs
      split at hs
      · obtain rfl := Option.some.inj hs; exact hself
      · cases hs
  | nextQuote k =>
      simp only [step] at hs
      split at hs
      · cases hs
      · obtain ⟨sync, hsync', rfl⟩ := Option.map_eq_some_iff.mp hs
        exact henter hsync'
  | advancePeer k fault =>
      obtain ⟨sync, hsync', rfl⟩ := Option.map_eq_some_iff.mp hs
      exact hadvance hsync'
  | fetch fault => exact absurd rfl (ha fault)
  | sendRemoved =>
      simp only [step] at hs
      split at hs
      · cases hs
      · obtain rfl := Option.some.inj hs; exact hself
  | requestStop => obtain rfl := Option.some.inj hs; exact ⟨rfl, rfl, rfl, rfl, rfl⟩
  | rehash scis =>
      obtain ⟨sync, hstep, rfl⟩ := Option.map_eq_some_iff.mp hs
      exact hsync (fun _ h => by cases h) hstep

/-- A submission that has a result to send is moved by its own loop only. -/
theorem Server.sending_of_step {a : ServerAction} (hs : s.step svc a = some s') {j : Nat}
    (ha : a ≠ .respond j) {resp : SubmitQuotesResponse} {results : List (Except Error Quote)}
    (hj : s.submissions[j]? = some (.sending resp results)) :
    s'.submissions[j]? = some (.sending resp results) := by
  -- another submission is written
  have hset : ∀ {j' : Nat} {sub sub' : Submission}, s.submissions[j']? = some sub →
      sub ≠ .sending resp results ∨ j' ≠ j →
      (s.submissions.set j' sub')[j]? = some (.sending resp results) := by
    intro j' sub sub' hsub hor
    have hne : j' ≠ j := by
      rcases hor with hsub' | hne
      · rintro rfl
        exact hsub' (Option.some.inj (hsub.symm.trans hj))
      · exact hne
    rw [List.getElem?_set_ne hne, hj]
  have htask : ∀ {j' i : Nat} {f : UInt64 → Task → Option (Sync.State × Task)},
      s.stepTask j' i f = some s' → s'.submissions[j]? = some (.sending resp results) := by
    intro j' i f hf
    obtain ⟨timestamp, tasks, task, sync, task', hj', -, -, rfl⟩ := stepTask_some hf
    exact hset hj' (.inl (by simp))
  cases a with
  | append block => obtain rfl := Option.some.inj hs; exact hj
  | submitQuotes clock req =>
      obtain rfl := Option.some.inj hs
      have hlt := (List.getElem?_eq_some_iff.mp hj).1
      exact (List.getElem?_append_left hlt).trans hj
  | startTask j' i => exact htask hs
  | advanceTask j' i fault => exact htask hs
  | collect j' =>
      simp only [step] at hs
      split at hs
      · next timestamp tasks hj' =>
          obtain ⟨sub, -, rfl⟩ := Option.map_eq_some_iff.mp hs
          exact hset hj' (.inl (by simp))
      · cases hs
  | respond j' =>
      have hne : j' ≠ j := fun heq => ha (by rw [heq])
      simp only [step] at hs
      split at hs
      · next hj' => obtain rfl := Option.some.inj hs; exact hset hj' (.inr hne)
      · next hj' => obtain rfl := Option.some.inj hs; exact hset hj' (.inr hne)
      · cases hs
  | handleSciQuoteAdded k remoteQuote =>
      simp only [step] at hs
      split at hs
      · obtain ⟨sync, -, rfl⟩ := Option.map_eq_some_iff.mp hs; exact hj
      · cases hs
  | syncQuotesFromPeer k answers =>
      simp only [step] at hs
      split at hs
      · obtain rfl := Option.some.inj hs; exact hj
      · cases hs
  | nextQuote k =>
      simp only [step] at hs
      split at hs
      · cases hs
      · obtain ⟨sync, -, rfl⟩ := Option.map_eq_some_iff.mp hs; exact hj
  | advancePeer k fault => obtain ⟨sync, -, rfl⟩ := Option.map_eq_some_iff.mp hs; exact hj
  | fetch fault =>
      simp only [step] at hs
      split at hs
      · obtain ⟨sync, -, rfl⟩ := Option.map_eq_some_iff.mp hs; exact hj
      · cases hs
  | sendRemoved =>
      simp only [step] at hs
      split at hs
      · cases hs
      · obtain rfl := Option.some.inj hs; exact hj
  | requestStop => obtain rfl := Option.some.inj hs; exact hj
  | rehash scis => obtain ⟨sync, -, rfl⟩ := Option.map_eq_some_iff.mp hs; exact hj

/-- The callback runs on the fetcher's thread, which moves on when it has returned. -/
theorem Server.outbox_of_fetch {fault : Option String} (hs : s.step svc (.fetch fault) = some s') :
    s.outbox = [] := by
  simp only [step] at hs
  split at hs
  · next hout => exact hout
  · cases hs

theorem Server.outbox_of_step {a : ServerAction} (hs : s.step svc a = some s')
    (ha : ∀ fault, a ≠ .fetch fault) (hr : a ≠ .sendRemoved) : s'.outbox = s.outbox := by
  cases moves_of_step hs with
  | quiet _ _ hsame _ _ => exact hsame
  | announce hj => rfl
  | fetch _ _ => exact absurd rfl (ha _)
  | sendRemoved _ => exact absurd rfl hr

theorem Server.bus_of_sendRemoved (hs : s.step svc .sendRemoved = some s') :
    s'.bus ≠ s.bus := by
  simp only [step] at hs
  split at hs
  · cases hs
  · obtain rfl := Option.some.inj hs
    simp

/-- The reader `i` neither reads nor goes away. -/
def StalledAt (i : Nat) (_ : Hub ch) (a : HubAction) : Prop := a ≠ .recv i ∧ a ≠ .drop i

/-- Nothing was sent in between, and what had something to send is where it was. -/
structure Blocked (h h' : Hub ch) : Prop where
  bus : h'.server.bus = h.server.bus
  fetcher : h.server.outbox ≠ [] →
    h'.server.outbox = h.server.outbox ∧ Frozen h.server.sync h'.server.sync
  submissions : ∀ (j : Nat) (resp : SubmitQuotesResponse) (q : Quote)
    (results : List (Except Error Quote)),
    h.server.submissions[j]? = some (.sending resp (.ok q :: results)) →
    h'.server.submissions[j]? = some (.sending resp (.ok q :: results))

theorem blocked_of_server_eq (heq : h'.server = h.server) : Blocked h h' := by
  refine ⟨by rw [heq], ?_, ?_⟩
  · intro _
    rw [heq]
    exact ⟨rfl, rfl, rfl, rfl, rfl, rfl⟩
  · intro j resp q results hj
    rw [heq]
    exact hj

theorem Blocked.trans {h₁ : Hub ch} (hb : Blocked h h₁) (hb' : Blocked h₁ h') : Blocked h h' where
  bus := hb'.bus.trans hb.bus
  fetcher := by
    intro hout
    obtain ⟨hsame, hfrozen⟩ := hb.fetcher hout
    obtain ⟨hsame', hfrozen'⟩ := hb'.fetcher (hsame ▸ hout)
    exact ⟨hsame'.trans hsame, hfrozen.trans hfrozen'⟩
  submissions := fun j resp q results hj =>
    hb'.submissions j resp q results (hb.submissions j resp q results hj)

theorem Hub.serve_full {a : ServerAction} (hfull : ∀ m, ch.send h.channel m = .full)
    (hs : h.serve svc a = some h') : Blocked h h' := by
  obtain ⟨s', hstep, hend⟩ := Hub.serve_cases hs
  have hquiet : s'.bus = h.server.bus ∧ h' = ⟨s', h.channel⟩ := by
    rcases hend with hend | ⟨m, c, ho, -⟩ | ⟨m, j, ho, -⟩ | ⟨m, ho, -⟩
    · exact hend
    all_goals exact absurd (ho.symm.trans (hfull m)) (by simp)
  obtain ⟨hbus, rfl⟩ := hquiet
  refine ⟨hbus, ?_, ?_⟩
  · intro hout
    have hfetch : ∀ fault, a ≠ .fetch fault := by
      rintro fault rfl
      exact hout (Server.outbox_of_fetch hstep)
    refine ⟨Server.outbox_of_step hstep hfetch ?_, Server.frozen_of_step hstep hfetch⟩
    rintro rfl
    exact Server.bus_of_sendRemoved hstep hbus
  · intro j resp q results hj
    refine Server.sending_of_step hstep ?_ hj
    rintro rfl
    simp only [Server.step, hj, Option.some.injEq] at hstep
    rw [← hstep] at hbus
    exact absurd hbus (by simp [ClientService.pushResult])

theorem Hub.blocked_step {a : HubAction} (hs : h.step svc a = some h')
    (hfull : ∀ m, ch.send h.channel m = .full) : Blocked h h' := by
  cases a with
  | server a => exact Hub.serve_full hfull hs
  | subscribe => obtain rfl := Option.some.inj hs; exact blocked_of_server_eq rfl
  | recv j =>
      obtain ⟨c, -, rfl⟩ := Option.map_eq_some_iff.mp hs
      exact blocked_of_server_eq rfl
  | drop j => obtain rfl := Option.some.inj hs; exact blocked_of_server_eq rfl

/-- **A reader that stops reading stops the server.**  As long as it neither reads nor goes
away, at most the capacity of further messages are sent.  From then on nothing is: a fetcher
with a removal to announce does not move, so that the blocks that follow are not processed,
and a submission that has created a quote does not return. -/
theorem stalled_reader_blocks (laws : Laws capacity ch) {ledger : Ledger}
    {book : InMemoryQuoteBook} {as bs : List HubAction}
    (hrun : Lts.Run (Hub.step svc) Lts.Any (.initial ledger book) as h)
    {i : Nat} {r : Reader Msg} (hi : (laws.readers h.channel)[i]? = some (some r))
    (hmore : Lts.Run (Hub.step svc) (StalledAt i) h bs h') :
    h'.server.bus.length ≤ r.next + capacity ∧
    (h'.server.bus.length = r.next + capacity →
      ∀ cs h'', Lts.Run (Hub.step svc) (StalledAt i) h' cs h'' → Blocked h' h'') := by
  have hi' : (laws.readers h'.channel)[i]? = some (some r) :=
    hmore.inv (fun h₁ => (laws.readers h₁.channel)[i]? = some (some r))
      (fun hi₁ hg hs => Hub.reader_of_step hs hi₁ hg.1 hg.2) hi
  have hcarried : Hub.Carried laws h' :=
    Hub.carried_of_run (hrun.append (hmore.mono fun _ => trivial))
  have hnear := hcarried.valid.near r (List.mem_of_getElem? hi')
  rw [hcarried.sent] at hnear
  refine ⟨hnear, ?_⟩
  intro hfull cs h'' hrest
  -- the reader stays, the channel stays full, and so every step is blocked
  refine (hrest.inv (fun h₁ => (laws.readers h₁.channel)[i]? = some (some r) ∧
    Hub.Carried laws h₁ ∧ Blocked h' h₁) ?_ ⟨hi', hcarried, blocked_of_server_eq rfl⟩).2.2
  rintro h₁ a h₂ ⟨hi₁, hc₁, hb⟩ hg hs
  have hbehind : r.next + capacity ≤ (laws.sent h₁.channel).length := by
    rw [hc₁.sent, hb.bus, hfull]
  exact ⟨Hub.reader_of_step hs hi₁ hg.1 hg.2, Hub.carried_step hc₁ hs,
    hb.trans (Hub.blocked_step hs (send_of_behind hi₁ hbehind))⟩

/-- The event loop does not come to the quote that was added, the channel holds one message,
and the removal waits. -/
theorem stalled_loop_blocks : ∃ h : Hub (Broadcast.list Msg 1),
    h.server.outbox = [sampleQuote 1 10 20 100 7] ∧
    ∀ cs h', Lts.Run (Hub.step ClientService.sampleService) (StalledAt 0) h cs h' →
      Blocked h h' := by
  have hrun : ∃ h : Hub (Broadcast.list Msg 1),
      Lts.Run (Hub.step ClientService.sampleService) Lts.Any (.initial [⟨[], []⟩] .default)
      ((Server.insertActions ++ Server.announceActions ++ Server.spendActions.dropLast).map
        .server) h ∧
      ((listLaws Msg 1).readers h.channel)[0]? = some (some ⟨0, []⟩) ∧
      h.server.bus.length = 1 ∧ h.server.outbox = [sampleQuote 1 10 20 100 7] :=
    ⟨_, Lts.run_of_exec rfl, rfl, rfl, rfl⟩
  obtain ⟨h, hrun, hi, hfull, hout⟩ := hrun
  exact ⟨h, hout, (stalled_reader_blocks (listLaws Msg 1) hrun hi (.nil h)).2 hfull⟩

/-! ## A bus without readers -/

def Hub.Closed (laws : Laws capacity ch) (h : Hub ch) : Prop :=
  ∀ o ∈ laws.readers h.channel, o = none

theorem Hub.Closed.send (hc : Hub.Closed laws h) (m : Msg) : ch.send h.channel m = .closed :=
  laws.closed_send.mpr hc

theorem Hub.Closed.step (hc : Hub.Closed laws h) {a : HubAction} (ha : a ≠ .subscribe)
    (hs : h.step svc a = some h') : Hub.Closed laws h' := by
  cases a with
  | server a =>
      obtain ⟨s', -, hend⟩ := Hub.serve_cases hs
      rcases hend with ⟨-, rfl⟩ | ⟨m, c, ho, -⟩ | ⟨m, j, -, -, rfl⟩ | ⟨m, -, -, -, rfl⟩
      · exact hc
      · exact absurd (hc.send m ▸ ho) (by simp)
      · exact hc
      · exact hc
  | subscribe => exact absurd rfl ha
  | recv i =>
      obtain ⟨⟨m, c⟩, hrecv, rfl⟩ := Option.map_eq_some_iff.mp hs
      obtain ⟨-, r, hi, -⟩ := laws.fifo_recv hrecv
      exact absurd (hc _ (List.mem_of_getElem? hi)) (by simp)
  | drop i =>
      obtain rfl := Option.some.inj hs
      intro o ho
      rw [(laws.fifo_drop h.channel i).2] at ho
      exact (List.mem_or_eq_of_mem_set ho).elim (hc o) id

theorem Hub.frozen_step (hst : h.server.sync.fetcher = .stopped) {a : HubAction}
    (hs : h.step svc a = some h') : Frozen h.server.sync h'.server.sync := by
  have hself : Frozen h.server.sync h.server.sync := ⟨rfl, rfl, rfl, rfl, rfl⟩
  cases a with
  | server a =>
      obtain ⟨s', hstep, hend⟩ := Hub.serve_cases hs
      have hfrozen : Frozen h.server.sync s'.sync := by
        refine Server.frozen_of_step hstep ?_
        rintro fault rfl
        have hout := Server.outbox_of_fetch hstep
        simp [Server.step, hout, Sync.State.fetch, hst] at hstep
      rcases hend with ⟨-, rfl⟩ | ⟨m, c, -, -, rfl⟩ | ⟨m, j, -, -, rfl⟩ | ⟨m, -, -, -, rfl⟩
      · exact hfrozen
      · exact hfrozen
      · exact hfrozen
      · exact ⟨hst.symm, rfl, rfl, rfl, rfl⟩
  | subscribe => obtain rfl := Option.some.inj hs; exact hself
  | recv i => obtain ⟨c, -, rfl⟩ := Option.map_eq_some_iff.mp hs; exact hself
  | drop i => obtain rfl := Option.some.inj hs; exact hself

/-- The fetcher has taken nothing out since, or is about to announce it, or has ended. -/
def TakenNothing (fetched : List Quote) (s : Server) : Prop :=
  s.sync.fetched = fetched ∨ s.sync.fetcher.inHand ≠ [] ∨ s.outbox ≠ [] ∨
    s.sync.fetcher = .stopped

/-- A step of the fetcher: what it takes is in its hand, and what it has in hand it hands
over. -/
theorem takenNothing_fetch {fetched : List Quote} {fault : Option String} {sync : Sync.State}
    (ht : TakenNothing fetched s) (hout : s.outbox = [])
    (hs : s.sync.fetch svc.mc fault = some sync) :
    TakenNothing fetched { s with sync, outbox := s.sync.fetcher.inHand } := by
  unfold TakenNothing at ht ⊢
  rcases ht with ht | ht | ht | ht
  · cases Sync.State.fetches_of_fetch hs with
    | @remove starting k ks removed book hf hr =>
        by_cases hnil : removed = []
        · exact .inl (by simp [hnil, ht])
        · exact .inr (.inl hnil)
    | @expire last removed book hf hr =>
        by_cases hnil : removed = []
        · exact .inl (by simp [hnil, ht])
        · exact .inr (.inl hnil)
    | _ => exact .inl ht
  · exact .inr (.inr (.inl ht))
  · exact absurd hout ht
  · simp [Sync.State.fetch, ht] at hs

theorem takenNothing_step {fetched : List Quote} (hc : Hub.Closed laws h)
    (ht : TakenNothing fetched h.server) {a : HubAction}
    (hs : h.step svc a = some h') : TakenNothing fetched h'.server := by
  cases a with
  | server a =>
      obtain ⟨s', hstep, hend⟩ := Hub.serve_cases hs
      have hquiet : ∀ {s₁ : Server}, Frozen h.server.sync s₁.sync →
          s₁.outbox = h.server.outbox → TakenNothing fetched s₁ := by
        intro s₁ hfrozen hout
        unfold TakenNothing
        rw [hfrozen.fetched, hfrozen.fetcher, hout]
        exact ht
      rcases hend with ⟨hbus, rfl⟩ | ⟨m, c, ho, -⟩ | ⟨m, j, -, rfl, rfl⟩ | ⟨m, -, -, -, rfl⟩
      · by_cases ha : ∃ fault, a = .fetch fault
        · obtain ⟨fault, rfl⟩ := ha
          have hout := Server.outbox_of_fetch hstep
          simp only [Server.step, hout] at hstep
          obtain ⟨sync, hsync, rfl⟩ := Option.map_eq_some_iff.mp hstep
          exact takenNothing_fetch ht hout hsync
        · have hfetch : ∀ fault, a ≠ .fetch fault := fun fault heq => ha ⟨fault, heq⟩
          refine hquiet (Server.frozen_of_step hstep hfetch) ?_
          refine Server.outbox_of_step hstep hfetch ?_
          rintro rfl
          exact Server.bus_of_sendRemoved hstep hbus
      · exact absurd (hc.send m ▸ ho) (by simp)
      · have hfetch : ∀ fault, ServerAction.respond j ≠ .fetch fault := fun _ heq => by cases heq
        have hout := Server.outbox_of_step hstep hfetch (fun heq => by cases heq)
        have hfrozen := Server.frozen_of_step hstep hfetch
        exact hquiet hfrozen hout
      · exact .inr (.inr (.inr rfl))
  | subscribe => obtain rfl := Option.some.inj hs; exact ht
  | recv i => obtain ⟨c, -, rfl⟩ := Option.map_eq_some_iff.mp hs; exact ht
  | drop i => obtain rfl := Option.some.inj hs; exact ht

theorem Hub.Closed.bus_eq (hc : Hub.Closed laws h) {a : HubAction}
    (hs : h.step svc a = some h') : h'.server.bus = h.server.bus := by
  cases a with
  | server a =>
      obtain ⟨s', -, hend⟩ := Hub.serve_cases hs
      rcases hend with ⟨hbus, rfl⟩ | ⟨m, c, ho, -⟩ | ⟨m, j, -, -, rfl⟩ | ⟨m, -, -, -, rfl⟩
      · exact hbus
      · exact absurd (hc.send m ▸ ho) (by simp)
      · rfl
      · rfl
  | subscribe => obtain rfl := Option.some.inj hs; rfl
  | recv i => obtain ⟨c, -, rfl⟩ := Option.map_eq_some_iff.mp hs; rfl
  | drop i => obtain rfl := Option.some.inj hs; rfl

theorem Hub.Closed.respond (hc : Hub.Closed laws h) {j : Nat} {resp : SubmitQuotesResponse}
    {r : Except Error Quote} {results : List (Except Error Quote)}
    (hj : h.server.submissions[j]? = some (.sending resp (r :: results))) :
    ∃ h', h.step svc (.server (.respond j)) = some h' ∧
      h'.server.submissions =
        h.server.submissions.set j (.sending (svc.pushResult (resp, []) r).1 results) := by
  have hstep : h.server.step svc (.respond j) = some { h.server with
      submissions :=
        h.server.submissions.set j (.sending (svc.pushResult (resp, []) r).1 results)
      bus := h.server.bus ++ (svc.pushResult (resp, []) r).2 } := by
    simp only [Server.step, hj]
  simp only [Hub.step, Hub.serve, hstep, hc.send]
  split
  · exact ⟨_, rfl, rfl⟩
  · exact ⟨_, rfl, rfl⟩

theorem Hub.Closed.sendRemoved (hc : Hub.Closed laws h) (hout : h.server.outbox ≠ []) :
    ∃ h', h.step svc (.server .sendRemoved) = some h' ∧
      h'.server.sync.fetcher = .stopped := by
  obtain ⟨q, qs, hcons⟩ := List.exists_cons_of_ne_nil hout
  have hstep : h.server.step svc .sendRemoved = some { h.server with
      outbox := qs, bus := h.server.bus ++ [.sciQuoteRemoved q] } := by
    simp only [Server.step, hcons]
  simp only [Hub.step, Hub.serve, hstep, hc.send, List.drop_left]
  exact ⟨_, rfl, rfl⟩

/-- **Without readers** (the event loop has ended, nobody subscribes) nothing is announced any
more, and clients are answered as before.  The fetcher lives until it has removed a quote:
after the first removal that finds one it ends, and then no block is processed. -/
theorem closed_bus_ends_fetcher (laws : Laws capacity ch) (hc : Hub.Closed laws h)
    {as : List HubAction}
    (hrun : Lts.Run (Hub.step svc) (fun _ a => a ≠ .subscribe) h as h') :
    h'.server.bus = h.server.bus ∧
    (∀ (j : Nat) (resp : SubmitQuotesResponse) (r : Except Error Quote)
      (results : List (Except Error Quote)),
      h'.server.submissions[j]? = some (.sending resp (r :: results)) →
      ∃ h'', h'.step svc (.server (.respond j)) = some h'' ∧
        h''.server.submissions =
          h'.server.submissions.set j (.sending (svc.pushResult (resp, []) r).1 results)) ∧
    TakenNothing h.server.sync.fetched h'.server ∧
    (h'.server.outbox ≠ [] → ∃ h'', h'.step svc (.server .sendRemoved) = some h'' ∧
      h''.server.sync.fetcher = .stopped) ∧
    (h'.server.sync.fetcher = .stopped → ∀ bs h'',
      Lts.Run (Hub.step svc) Lts.Any h' bs h'' →
        Frozen h'.server.sync h''.server.sync) := by
  have hinv : Hub.Closed laws h' ∧ h'.server.bus = h.server.bus ∧
      TakenNothing h.server.sync.fetched h'.server := by
    refine hrun.inv (fun h₁ => Hub.Closed laws h₁ ∧ h₁.server.bus = h.server.bus ∧
      TakenNothing h.server.sync.fetched h₁.server) ?_ ⟨hc, rfl, .inl rfl⟩
    rintro h₁ a h₂ ⟨hc₁, hbus, ht⟩ ha hs
    exact ⟨hc₁.step ha hs, (hc₁.bus_eq hs).trans hbus, takenNothing_step hc₁ ht hs⟩
  obtain ⟨hc', hbus, ht⟩ := hinv
  refine ⟨hbus, fun j resp r results hj => hc'.respond hj, ht, hc'.sendRemoved, ?_⟩
  intro hst bs h'' hrest
  refine hrest.inv (fun h₁ => Frozen h'.server.sync h₁.server.sync) ?_ ⟨rfl, rfl, rfl, rfl, rfl⟩
  intro h₁ a h₂ hf _ hs
  exact hf.trans (Hub.frozen_step (hf.fetcher.trans hst) hs)

/-- The event loop ends, a quote is created and then spent: the fetcher ends on it. -/
theorem closed_bus_spent : ∃ h h' : Hub (Broadcast.list Msg 2),
    Lts.Run (Hub.step ClientService.sampleService) Lts.Any (.initial [⟨[], []⟩] .default)
      [.drop 0] h ∧ h.server.bus = [] ∧
    h'.server.sync.fetched = [sampleQuote 1 10 20 100 7] ∧ h'.server.bus = [] ∧
    h'.server.sync.fetcher = .stopped ∧
    ∀ bs h'', Lts.Run (Hub.step ClientService.sampleService) Lts.Any h' bs h'' →
      Frozen h'.server.sync h''.server.sync := by
  have hrun : ∃ h h' : Hub (Broadcast.list Msg 2),
      Lts.Run (Hub.step ClientService.sampleService) Lts.Any (.initial [⟨[], []⟩] .default)
        [.drop 0] h ∧ h.server.bus = [] ∧ (listLaws Msg 2).readers h.channel = [none] ∧
      Lts.Run (Hub.step ClientService.sampleService) Lts.Any h
      ((Server.insertActions ++ Server.announceActions ++ Server.spendActions).map .server) h' ∧
      h'.server.sync.fetched = [sampleQuote 1 10 20 100 7] ∧
      h'.server.sync.fetcher = .stopped :=
    ⟨_, _, Lts.run_of_exec rfl, rfl, rfl, Lts.run_of_exec rfl, rfl, rfl⟩
  obtain ⟨h, h', hdrop, hnone, hreaders, hrun, hfetched, hst⟩ := hrun
  have hclosed : Hub.Closed (listLaws Msg 2) h := by
    intro o ho
    rw [hreaders] at ho
    exact List.mem_singleton.mp ho
  have hquiet := hrun.of_forall (G := fun _ a => a ≠ .subscribe) (by
    intro a ha h₁
    obtain ⟨b, -, rfl⟩ := List.mem_map.mp ha
    simp)
  obtain ⟨hbus, -, -, -, hfrozen⟩ := closed_bus_ends_fetcher (listLaws Msg 2) hclosed hquiet
  exact ⟨h, h', hdrop, hnone, hfetched, hbus.trans hnone, hst, hfrozen hst⟩

end Deqs
