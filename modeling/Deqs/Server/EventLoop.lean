/-
# The event loop of the server

`Server::start` spawns one task that holds the P2P object and, in a `select!`, takes up one thing
after the other:

| branch | what is done | and what the loop waits for meanwhile |
| :-- | :-- | :-- |
| `msg_bus_rx.recv()` | an added quote is published | the network loop |
| `p2p_events.recv()` | a sync is started, a quote added, a request answered | the book |
| `metrics_interval.tick()` | the quotes and the peers are counted | the network loop |
| `shutdown_rx.recv()` | the loop ends | |

While it waits it takes up nothing else.  Around it are the network loop (`P2P.Loop`), which it
calls and which it listens to; the other tasks, which call the network loop as well and are never
dropped while they wait; and the node (`Node`) with its book and the other threads.

When the task ends, the P2P object and the receiver of the events are dropped, in this order or
in the other, and the network loop with them.  The loop also ends when one of its queues is
closed for good, and it would end with a panic of what it calls.  All of these are steps here;
`Server.Uptime` says which of them are taken.

A request is answered from the book in one step, as in `P2P.handleRpcRequest`.
-/
import Deqs.P2P.Calls
import Deqs.Server.Mesh

namespace Deqs

open Sync (Ledger AddCall)

/-- `mc_util_serial` on `GossipMsgBusData`, whose only variant is `SciQuoteAdded`. -/
structure GossipCodec where
  serialize : Quote → Except String (List UInt8)
  deserialize : List UInt8 → Except String Quote

def Msg.gossip? (codec : GossipCodec) : Msg → Option (List UInt8)
  | .sciQuoteAdded quote => (codec.serialize quote).toOption
  | .sciQuoteRemoved _ => none

/-- What others than the event loop do at a node. -/
def NodeAction.isForeign : NodeAction → Bool
  | .append _ => true
  | .submit i _ _ => i ≠ 0
  | .syncQuotesFromPeer i _ => i ≠ 0
  | .nextQuote i => i ≠ 0
  | .advance i _ _ => i ≠ 0
  | .call _ _ => true
  | .rehash _ => true
  | .handleSciQuoteAdded _ _ => false
  | .restart _ _ => false

namespace P2P

/-! ## Data -/

def MSG_BUS_TOPIC : String := "mc/deqs/server/msg-bus"

inductive Serving where
  | selecting
  /-- In `add_sci`, with a quote from gossip. -/
  | adding
  /-- In a call of the client. -/
  | calling
  | ended
  | panicked (msg : String)
deriving DecidableEq

def Serving.isOver : Serving → Bool
  | .ended => true
  | .panicked _ => true
  | _ => false

/-- The event loop and what is around it.  At the network loop and at the node it is task 0.
`bus` are the messages it has not received yet, `read` the number of events it has; `taken`,
`answered` and `syncing` are the history. -/
structure Host (ser : Serial) where
  serving : Serving
  bus : List Msg
  busOpen : Bool
  read : Nat
  shutdownRequested : Bool
  net : Loop.State Request Response
  node : Node ser
  taken : List Msg
  answered : List (Nat × Response)
  syncing : List Loop.PeerId

inductive HostAction where
  /-- Someone sends on the bus, or the last sender is dropped. -/
  | post (msg : Msg)
  | closeBus
  /-- `Server::shutdown`, or the server is dropped. -/
  | shutdown
  /-- The network loop, or another task that calls it. -/
  | net (a : Loop.Action Request Response)
  /-- The ledger, the fetcher, or another thread at the book. -/
  | node (a : NodeAction)
  /-- The branches of the `select!`. -/
  | recvMsg
  | recvEvent
  | recvShutdown
  | tick
  /-- The loop goes on with what it is doing. -/
  | resume (fault : Option String) (faults : Faults)
  /-- What happens at its end. -/
  | dropEvents
  | dropP2P

def Loop.Action.isForeign : Loop.Action Request Response → Bool
  | .call i _ => i ≠ 0
  | .retryingRpcRequest i _ _ => i ≠ 0
  | .wake i => i ≠ 0
  | .handleCommand _ => true
  | .handleSwarmEvent _ => true
  | .stop => true
  | .rpcResponse _ _ => false
  | .cancel _ => false
  | .closeEvents => false
  | .shutdown => false

def Loop.NetworkEvent.peer? : Loop.NetworkEvent Request → Option Loop.PeerId
  | .connectionEstablished peerId => some peerId
  | _ => none

def Loop.NetworkEvent.channel? : Loop.NetworkEvent Request → Option Nat
  | .rpcRequest _ _ channel => some channel
  | _ => none

namespace Host

variable {ser : Serial}

def initial (net : Loop.State Request Response) (node : Node ser) : Host ser where
  serving := .selecting
  bus := []
  busOpen := true
  read := 0
  shutdownRequested := false
  net := net
  node := node
  taken := []
  answered := []
  syncing := []

/-! ## The handlers -/

def callClient (h : Host ser) (ask : Loop.Ask Request) : Host ser :=
  { h with net := h.net.attempt 0 ask 0, serving := .calling }

def broadcastSciQuoteAdded (codec : GossipCodec) (h : Host ser) (quote : Quote) : Host ser :=
  match codec.serialize quote with
  | .ok bytes => h.callClient (.publishGossip MSG_BUS_TOPIC bytes)
  | .error _ => h

def handleMsg (codec : GossipCodec) (h : Host ser) : Msg → Host ser
  | .sciQuoteAdded quote => h.broadcastSciQuoteAdded codec quote
  | .sciQuoteRemoved _ => h

/-- `handle_connection_established`: the task that is started is another one. -/
def handleConnectionEstablished (h : Host ser) (peerId : Loop.PeerId) : Host ser :=
  { h with syncing := h.syncing ++ [peerId] }

/-- `handle_gossip_message`, up to the call of `add_sci`. -/
def handleGossipMessage (svc : ClientService) (codec : GossipCodec) (h : Host ser)
    (topic : String) (data : List UInt8) : Host ser :=
  if topic = MSG_BUS_TOPIC then
    match codec.deserialize data with
    | .ok quote => { h with
        node := h.node.setThread 0 ⟨.gossip, .ofOffer (peerOffer svc.mc quote), []⟩
        serving := .adding }
    | .error _ => h
  else h

def handleRpcRequest (h : Host ser) (request : Request) (channel : Nat) : Host ser :=
  match P2P.handleRpcRequest h.node.book.inner request with
  | some response => { h with
      net := (h.net.step (.rpcResponse response channel)).getD h.net
      answered := h.answered ++ [(channel, response)] }
  | none => { h with serving := .panicked "handle_rpc_request" }

def handleNetworkEvent (svc : ClientService) (codec : GossipCodec) (h : Host ser) :
    Loop.NetworkEvent Request → Host ser
  | .connectionEstablished peerId => h.handleConnectionEstablished peerId
  | .gossipMessage topic data => h.handleGossipMessage svc codec topic data
  | .rpcRequest _ request channel => h.handleRpcRequest request channel
  | .newListenAddr _ => h

def updatePeriodicMetrics (h : Host ser) : Host ser :=
  match h.node.book.inner.numScis with
  | .ok _ => h.callClient .connectedPeerList
  | .err _ => h
  | .panic m => { h with serving := .panicked m }

/-- The loop goes on in `add_sci`, or with what it returned. -/
def resumeAdding (h : Host ser) (fault : Option String) (faults : Faults) : Option (Host ser) :=
  match (h.node.threads 0).call with
  | .done (.panic m) => some { h with serving := .panicked m }
  | .done _ => some { h with serving := .selecting }
  | _ => (h.node.advance 0 fault faults).map fun node => { h with node }

def resumeCalling (h : Host ser) : Option (Host ser) :=
  (h.net.wake 0).map fun net =>
    { h with net, serving := if net.idle 0 then .selecting else .calling }

/-! ## One step -/

def select (svc : ClientService) (codec : GossipCodec) (h : Host ser) :
    HostAction → Option (Host ser)
  | .recvMsg =>
      match h.bus with
      | msg :: bus => some ({ h with bus, taken := h.taken ++ [msg] }.handleMsg codec msg)
      | [] => if h.busOpen then none else some { h with serving := .ended }
  | .recvEvent =>
      match h.net.events[h.read]? with
      | some event => some ({ h with read := h.read + 1 }.handleNetworkEvent svc codec event)
      | none => if h.net.status = .running then none else some { h with serving := .ended }
  | .recvShutdown => if h.shutdownRequested then some { h with serving := .ended } else none
  | .tick => some h.updatePeriodicMetrics
  | _ => none

def step (svc : ClientService) (codec : GossipCodec) (h : Host ser) :
    HostAction → Option (Host ser)
  | .post msg => if h.busOpen then some { h with bus := h.bus ++ [msg] } else none
  | .closeBus => some { h with busOpen := false }
  | .shutdown => some { h with shutdownRequested := true }
  | .net a => if a.isForeign then (h.net.step a).map fun net => { h with net } else none
  | .node a => if a.isForeign then (h.node.step svc a).map fun node => { h with node } else none
  | .resume fault faults =>
      match h.serving with
      | .adding => h.resumeAdding fault faults
      | .calling => h.resumeCalling
      | _ => none
  | .dropEvents =>
      if h.serving.isOver then (h.net.step .closeEvents).map fun net => { h with net } else none
  | .dropP2P =>
      if h.serving.isOver then (h.net.step .shutdown).map fun net => { h with net } else none
  | a => if h.serving = .selecting then h.select svc codec a else none

/-- What the swarm gives is new, and what clients and peers bring is in `S`. -/
def Guard (svc : ClientService) (codec : GossipCodec) (S : Set Quote) (h : Host ser) :
    HostAction → Prop
  | .net a => h.net.Fresh a
  | .node a => Mesh.Brings svc S h.node a
  | .recvEvent => ∀ data quote q,
      h.net.events[h.read]? = some (.gossipMessage MSG_BUS_TOPIC data) →
      codec.deserialize data = .ok quote → peerOffer svc.mc quote = .ok q → q ∈ S
  | _ => True

/-! ## What a step does -/

variable {svc : ClientService} {codec : GossipCodec} {h h' : Host ser}

inductive Handles (svc : ClientService) (codec : GossipCodec) (h : Host ser) :
    Loop.NetworkEvent Request → Host ser → Prop
  | sync (peerId : Loop.PeerId) : Handles svc codec h (.connectionEstablished peerId)
      { h with read := h.read + 1, syncing := h.syncing ++ [peerId] }
  | gossip {data : List UInt8} {quote : Quote} (hok : codec.deserialize data = .ok quote) :
      Handles svc codec h (.gossipMessage MSG_BUS_TOPIC data) { h with
        read := h.read + 1
        node := h.node.setThread 0 ⟨.gossip, .ofOffer (peerOffer svc.mc quote), []⟩
        serving := .adding }
  | respond {peer : Loop.PeerId} {request : Request} {channel : Nat} {response : Response}
      {net : Loop.State Request Response}
      (hanswer : P2P.handleRpcRequest h.node.book.inner request = some response)
      (hnet : h.net.step (.rpcResponse response channel) = some net) :
      Handles svc codec h (.rpcRequest peer request channel) { h with
        read := h.read + 1
        net
        answered := h.answered ++ [(channel, response)] }
  | ignore {event : Loop.NetworkEvent Request} (hpeer : event.peer? = none)
      (hchannel : event.channel? = none) :
      Handles svc codec h event { h with read := h.read + 1 }

/-- What a step does.  The queries of the book do not panic. -/
inductive Does (svc : ClientService) (codec : GossipCodec) (h : Host ser) :
    HostAction → Host ser → Prop
  | post (msg : Msg) : Does svc codec h (.post msg) { h with bus := h.bus ++ [msg] }
  | closeBus : Does svc codec h .closeBus { h with busOpen := false }
  | shutdown : Does svc codec h .shutdown { h with shutdownRequested := true }
  | net {a : Loop.Action Request Response} {net : Loop.State Request Response}
      (hforeign : a.isForeign = true) (hnet : h.net.step a = some net) :
      Does svc codec h (.net a) { h with net }
  | node {a : NodeAction} {node : Node ser} (hforeign : a.isForeign = true)
      (hnode : h.node.step svc a = some node) : Does svc codec h (.node a) { h with node }
  | publish {msg : Msg} {bus : List Msg} {bytes : List UInt8} (hsel : h.serving = .selecting)
      (hbus : h.bus = msg :: bus) (hbytes : msg.gossip? codec = some bytes) :
      Does svc codec h .recvMsg { h with
        bus
        taken := h.taken ++ [msg]
        net := h.net.attempt 0 (.publishGossip MSG_BUS_TOPIC bytes) 0
        serving := .calling }
  | skip {msg : Msg} {bus : List Msg} (hsel : h.serving = .selecting) (hbus : h.bus = msg :: bus)
      (hnone : msg.gossip? codec = none) :
      Does svc codec h .recvMsg { h with bus, taken := h.taken ++ [msg] }
  | event {event : Loop.NetworkEvent Request} {h' : Host ser} (hsel : h.serving = .selecting)
      (hevent : h.net.events[h.read]? = some event) (hhandles : Handles svc codec h event h') :
      Does svc codec h .recvEvent h'
  | count (hsel : h.serving = .selecting) : Does svc codec h .tick { h with
      net := h.net.attempt 0 .connectedPeerList 0
      serving := .calling }
  | countFails : Does svc codec h .tick h
  | endBus (hsel : h.serving = .selecting) (hclosed : h.busOpen = false) :
      Does svc codec h .recvMsg { h with serving := .ended }
  | endEvents (hsel : h.serving = .selecting) (hended : h.net.status ≠ .running) :
      Does svc codec h .recvEvent { h with serving := .ended }
  | endShutdown (hsel : h.serving = .selecting) (hrequested : h.shutdownRequested = true) :
      Does svc codec h .recvShutdown { h with serving := .ended }
  | add {fault : Option String} {faults : Faults} {node : Node ser}
      (hadding : h.serving = .adding)
      (hnode : h.node.step svc (.advance 0 fault faults) = some node) :
      Does svc codec h (.resume fault faults) { h with node }
  | added {fault : Option String} {faults : Faults} (hadding : h.serving = .adding) :
      Does svc codec h (.resume fault faults) { h with serving := .selecting }
  | addPanics {fault : Option String} {faults : Faults} {m : String}
      (hadding : h.serving = .adding) (hpanic : (h.node.threads 0).call = .done (.panic m)) :
      Does svc codec h (.resume fault faults) { h with serving := .panicked m }
  | back {fault : Option String} {faults : Faults} {net : Loop.State Request Response}
      (hcalling : h.serving = .calling) (hnet : h.net.step (.wake 0) = some net) :
      Does svc codec h (.resume fault faults)
        { h with net, serving := if net.idle 0 then .selecting else .calling }
  | dropEvents {net : Loop.State Request Response} (hover : h.serving.isOver = true)
      (hnet : h.net.step .closeEvents = some net) : Does svc codec h .dropEvents { h with net }
  | dropP2P {net : Loop.State Request Response} (hover : h.serving.isOver = true)
      (hnet : h.net.step .shutdown = some net) : Does svc codec h .dropP2P { h with net }

theorem handleRpcRequest_some (book : InMemoryQuoteBook) (request : Request) :
    ∃ response, P2P.handleRpcRequest book request = some response := by
  have hquery : ∀ quoteId, ∃ r, P2P.answered (book.getQuoteById quoteId) = some r := by
    intro quoteId
    unfold InMemoryQuoteBook.getQuoteById
    split
    · exact ⟨_, rfl⟩
    · exact ⟨_, rfl⟩
  cases request with
  | getAllQuoteIds =>
      simp only [P2P.handleRpcRequest, InMemoryQuoteBook.getQuoteIds]
      split
      · exact ⟨_, rfl⟩
      · exact ⟨_, rfl⟩
  | getQuotesById quoteIds =>
      simp only [P2P.handleRpcRequest]
      split
      · suffices hall : ∀ quoteIds : List QuoteId, ∃ rs,
            (quoteIds.mapM fun quoteId => P2P.answered (book.getQuoteById quoteId)) = some rs by
          obtain ⟨rs, hrs⟩ := hall quoteIds
          exact ⟨_, by rw [hrs]; rfl⟩
        intro quoteIds
        induction quoteIds with
        | nil => exact ⟨[], rfl⟩
        | cons quoteId quoteIds ih =>
            obtain ⟨r, hr⟩ := hquery quoteId
            obtain ⟨rs, hrs⟩ := ih
            exact ⟨r :: rs, by rw [List.mapM_cons, hr, hrs]; rfl⟩
      · exact ⟨_, rfl⟩

theorem rpcResponse_some (s : Loop.State Request Response) (response : Response) (channel : Nat) :
    ∃ s', s.step (.rpcResponse response channel) = some s' := by
  simp only [Loop.State.step]
  split
  · exact ⟨_, rfl⟩
  · exact ⟨_, rfl⟩

theorem handles_of_handleNetworkEvent (event : Loop.NetworkEvent Request) :
    Handles svc codec h event
      ({ h with read := h.read + 1 }.handleNetworkEvent svc codec event) := by
  cases event with
  | connectionEstablished peerId => exact .sync peerId
  | newListenAddr address => exact .ignore rfl rfl
  | rpcRequest peer request channel =>
      obtain ⟨response, hresponse⟩ := handleRpcRequest_some h.node.book.inner request
      obtain ⟨net, hnet⟩ := rpcResponse_some h.net response channel
      have heq : ({ h with read := h.read + 1 }.handleRpcRequest request channel) =
          { h with
            read := h.read + 1
            net
            answered := h.answered ++ [(channel, response)] } := by
        simp only [Host.handleRpcRequest, hresponse, hnet, Option.getD_some]
      simp only [handleNetworkEvent, heq]
      exact .respond hresponse hnet
  | gossipMessage topic data =>
      simp only [handleNetworkEvent, handleGossipMessage]
      split
      · next htopic =>
          subst htopic
          split
          · next quote hok => exact .gossip hok
          · exact .ignore rfl rfl
      · exact .ignore rfl rfl

theorem does_of_handleMsg (hsel : h.serving = .selecting) {msg : Msg} {bus : List Msg}
    (hbus : h.bus = msg :: bus) : Does svc codec h .recvMsg
      ({ h with bus, taken := h.taken ++ [msg] }.handleMsg codec msg) := by
  cases msg with
  | sciQuoteRemoved quote => exact .skip hsel hbus rfl
  | sciQuoteAdded quote =>
      simp only [handleMsg, broadcastSciQuoteAdded]
      split
      · next bytes hok => exact .publish hsel hbus (by simp [Msg.gossip?, hok, Except.toOption])
      · next e he => exact .skip hsel hbus (by simp [Msg.gossip?, he, Except.toOption])

theorem does_of_select {a : HostAction} (hsel : h.serving = .selecting)
    (hs : h.select svc codec a = some h') : Does svc codec h a h' := by
  cases a with
  | recvMsg =>
      simp only [select] at hs
      split at hs
      · next msg bus hbus => exact Option.some.inj hs ▸ does_of_handleMsg hsel hbus
      · split at hs
        · cases hs
        · next hclosed => exact Option.some.inj hs ▸ .endBus hsel (by simpa using hclosed)
  | recvEvent =>
      simp only [select] at hs
      split at hs
      · next event hevent =>
          exact Option.some.inj hs ▸ .event hsel hevent (handles_of_handleNetworkEvent event)
      · split at hs
        · cases hs
        · next hended => exact Option.some.inj hs ▸ .endEvents hsel hended
  | recvShutdown =>
      simp only [select] at hs
      split at hs
      · next hrequested => exact Option.some.inj hs ▸ .endShutdown hsel hrequested
      · cases hs
  | tick =>
      obtain rfl := Option.some.inj hs
      unfold updatePeriodicMetrics InMemoryQuoteBook.numScis
      split
      · exact .count hsel
      · exact .countFails
      · next m hm => split at hm <;> cases hm
  | _ => cases hs

theorem does_of_resume {fault : Option String} {faults : Faults}
    (hs : h.step svc codec (.resume fault faults) = some h') :
    Does svc codec h (.resume fault faults) h' := by
  simp only [step] at hs
  split at hs
  · next hadding =>
      simp only [resumeAdding] at hs
      split at hs
      · next m hpanic => exact Option.some.inj hs ▸ .addPanics hadding hpanic
      · exact Option.some.inj hs ▸ .added hadding
      · obtain ⟨node, hnode, rfl⟩ := Option.map_eq_some_iff.mp hs
        exact .add hadding hnode
  · next hcalling =>
      obtain ⟨net, hnet, rfl⟩ := Option.map_eq_some_iff.mp hs
      exact .back hcalling hnet
  · cases hs

theorem does_of_step {a : HostAction} (hs : h.step svc codec a = some h') :
    Does svc codec h a h' := by
  have hselect : (if h.serving = .selecting then h.select svc codec a else none) = some h' →
      Does svc codec h a h' := by
    intro hs
    split at hs
    · next hsel => exact does_of_select hsel hs
    · cases hs
  cases a with
  | post msg =>
      simp only [step] at hs
      split at hs
      · exact Option.some.inj hs ▸ .post msg
      · cases hs
  | closeBus => exact Option.some.inj hs ▸ .closeBus
  | shutdown => exact Option.some.inj hs ▸ .shutdown
  | net a =>
      simp only [step] at hs
      split at hs
      · next hforeign =>
          obtain ⟨net, hnet, rfl⟩ := Option.map_eq_some_iff.mp hs
          exact .net hforeign hnet
      · cases hs
  | node a =>
      simp only [step] at hs
      split at hs
      · next hforeign =>
          obtain ⟨node, hnode, rfl⟩ := Option.map_eq_some_iff.mp hs
          exact .node hforeign hnode
      · cases hs
  | recvMsg => exact hselect hs
  | recvEvent => exact hselect hs
  | recvShutdown => exact hselect hs
  | tick => exact hselect hs
  | resume fault faults => exact does_of_resume hs
  | dropEvents =>
      simp only [step] at hs
      split at hs
      · next hover =>
          obtain ⟨net, hnet, rfl⟩ := Option.map_eq_some_iff.mp hs
          exact .dropEvents hover hnet
      · cases hs
  | dropP2P =>
      simp only [step] at hs
      split at hs
      · next hover =>
          obtain ⟨net, hnet, rfl⟩ := Option.map_eq_some_iff.mp hs
          exact .dropP2P hover hnet
      · cases hs

end Host
end P2P
end Deqs
