/-
# The whole network event loop

`EventLoop` follows the RPC requests through the loop.  Here is all of it: the eight commands of
the client, the events of the swarm, the queue of events for the owner, the shutdown, the tasks
that call the client and may be dropped while they wait, and the panics.

| a call of the client | its sender is | and gets |
| :-- | :-- | :-- |
| `rpc_request` | kept under the request id | the response or the failure for that id |
| `listen` | kept under the listener id | the first address of that listener |
| `listen` that fails, and all others | not kept | what the swarm said, at once |

Every send is `expect`ed to find its receiver.  So a task that goes away while it waits, or an
owner that drops the event queue, takes the loop with it as soon as there is something to send;
and a loop that has ended, for this or for any other reason, drops its commands and its two
maps, whereupon everybody who waits gets `ChannelRecv`, and whoever comes later `ChannelSend`.

**What comes from outside.**  What the swarm answers to a call (`Swarm`) and what it reports is
arbitrary, but it gives no id twice (`Fresh`).
-/
import Deqs.P2P.EventLoop

namespace Deqs.P2P.Loop

open Rpc (RequestId Sender maxRetries)

/-! ## Data -/

abbrev ListenerId := Nat

structure PeerId where
  multihash : List UInt8
deriving DecidableEq

inductive Protocol where
  | p2p (multihash : List UInt8)
  | other (text : String)
deriving DecidableEq

abbrev Multiaddr := List Protocol

inductive Error where
  | channelSend
  | channelRecv
  | outboundFailure (e : String)
  | gossipSubscription (e : String)
  | gossipPublish (e : String)
  | transport (e : String)
deriving DecidableEq

/-- The commands that come with a sender, without it. -/
inductive Ask (REQ : Type) where
  | peerList
  | listen (address : Multiaddr)
  | listenAddrList
  | connectedPeerList
  | publishGossip (topic : String) (msg : List UInt8)
  | subscribeGossip (topic : String)
  | rpcRequest (peer : PeerId) (request : REQ)
deriving DecidableEq

inductive Command (REQ RESP : Type) where
  | ask (ask : Ask REQ) (responseSender : Sender)
  | rpcResponse (response : RESP) (channel : Nat)
deriving DecidableEq

inductive Answer (RESP : Type) where
  | peerIds (peerIds : List PeerId)
  | address (address : Multiaddr)
  | addresses (addresses : List Multiaddr)
  | messageId (messageId : String)
  | subscribed (new : Bool)
  | response (response : RESP)
deriving DecidableEq

/-- What is sent to it, with the errors the client makes of those of the swarm. -/
abbrev Reply (RESP : Type) := Except Error (Answer RESP)

def rpcOutcome? {RESP : Type} : Reply RESP → Option (Except Rpc.Error RESP)
  | .ok (.response response) => some (.ok response)
  | .error (.outboundFailure error) => some (.error (.outboundFailure error))
  | _ => none

/-- `SwarmEvent`, as far as the loop tells its cases apart; pings, queries of Kademlia, listeners
that close and all the rest are logged. -/
inductive SwarmEvent (REQ RESP : Type) where
  | newListenAddr (address : Multiaddr) (listenerId : ListenerId)
  | connectionEstablished (peerId : PeerId) (numEstablished : Nat)
  | request (peer : PeerId) (request : REQ) (channel : Nat)
  | response (requestId : RequestId) (response : RESP)
  | outboundFailure (requestId : RequestId) (error : String)
  | gossipMessage (topic : String) (data : List UInt8)
  | identifyReceived (peerId : PeerId) (listenAddrs : List Multiaddr) (protocols : List String)
  | other
deriving DecidableEq

inductive NetworkEvent (REQ : Type) where
  | rpcRequest (peer : PeerId) (request : REQ) (channel : Nat)
  | connectionEstablished (peerId : PeerId)
  | newListenAddr (address : Multiaddr)
  | gossipMessage (topic : String) (data : List UInt8)
deriving DecidableEq

/-- What the swarm says when the loop turns to it with a command. -/
structure Swarm where
  localPeerId : PeerId
  allPeers : List PeerId
  connectedPeers : List PeerId
  listeners : List Multiaddr
  listenOn : Multiaddr → Except String ListenerId
  publish : String → List UInt8 → Except String String
  subscribe : String → Except String Bool
  sendRequest : RequestId

variable {REQ RESP : Type}

/-! ## The loop -/

structure NetworkEventLoop where
  pendingRpcRequests : AssocMap RequestId Sender
  listenerRequests : AssocMap ListenerId Sender

namespace NetworkEventLoop

/-- `handle_command`: the loop, and what is sent to whom. -/
def handleCommand (eventLoop : NetworkEventLoop) (swarm : Swarm) :
    Command REQ RESP → NetworkEventLoop × Option (Sender × Reply RESP)
  | .ask .peerList sender => (eventLoop, some (sender, .ok (.peerIds swarm.allPeers)))
  | .ask (.listen address) sender =>
      match swarm.listenOn address with
      | .ok listenerId =>
          ({ eventLoop with
            listenerRequests := eventLoop.listenerRequests.set listenerId sender }, none)
      | .error e => (eventLoop, some (sender, .error (.transport e)))
  | .ask .listenAddrList sender =>
      (eventLoop, some (sender, .ok (.addresses
        (swarm.listeners.map (· ++ [.p2p swarm.localPeerId.multihash])))))
  | .ask .connectedPeerList sender =>
      (eventLoop, some (sender, .ok (.peerIds swarm.connectedPeers)))
  | .ask (.rpcRequest _ _) sender =>
      ({ eventLoop with
        pendingRpcRequests := eventLoop.pendingRpcRequests.set swarm.sendRequest sender }, none)
  | .rpcResponse _ _ => (eventLoop, none)
  | .ask (.publishGossip topic msg) sender =>
      (eventLoop, some (sender, match swarm.publish topic msg with
        | .ok messageId => .ok (.messageId messageId)
        | .error e => .error (.gossipPublish e)))
  | .ask (.subscribeGossip topic) sender =>
      (eventLoop, some (sender, match swarm.subscribe topic with
        | .ok new => .ok (.subscribed new)
        | .error e => .error (.gossipSubscription e)))

def completeRpc (eventLoop : NetworkEventLoop) (requestId : RequestId) (reply : Reply RESP) :
    NetworkEventLoop × Option (Sender × Reply RESP) :=
  match eventLoop.pendingRpcRequests.get? requestId with
  | some sender =>
      ({ eventLoop with pendingRpcRequests := eventLoop.pendingRpcRequests.erase requestId },
        some (sender, reply))
  | none => (eventLoop, none)

def completeListen (eventLoop : NetworkEventLoop) (listenerId : ListenerId) (reply : Reply RESP) :
    NetworkEventLoop × Option (Sender × Reply RESP) :=
  match eventLoop.listenerRequests.get? listenerId with
  | some sender =>
      ({ eventLoop with listenerRequests := eventLoop.listenerRequests.erase listenerId },
        some (sender, reply))
  | none => (eventLoop, none)

/-- `handle_swarm_event`, as far as it is about the maps.  What `identify` reports goes to the
routing table of the swarm. -/
def handleSwarmEvent (eventLoop : NetworkEventLoop) :
    SwarmEvent REQ RESP → NetworkEventLoop × Option (Sender × Reply RESP)
  | .newListenAddr address listenerId =>
      eventLoop.completeListen listenerId (.ok (.address address))
  | .response requestId response => eventLoop.completeRpc requestId (.ok (.response response))
  | .outboundFailure requestId error =>
      eventLoop.completeRpc requestId (.error (.outboundFailure error))
  | _ => (eventLoop, none)

end NetworkEventLoop

/-- What an event puts into the queue of the owner. -/
def SwarmEvent.networkEvent? : SwarmEvent REQ RESP → Option (NetworkEvent REQ)
  | .newListenAddr address _ => some (.newListenAddr address)
  | .connectionEstablished peerId numEstablished =>
      if numEstablished = 1 then some (.connectionEstablished peerId) else none
  | .request peer req channel => some (.rpcRequest peer req channel)
  | .gossipMessage topic data => some (.gossipMessage topic data)
  | _ => none

/-- What the `expect` of a send says. -/
def SwarmEvent.expectation : SwarmEvent REQ RESP → String
  | .newListenAddr _ _ => "receiver should not be dropped"
  | _ => "receiver should not be closed"

/-! ## Bootstrap -/

/-- The errors of `bootstrap`; `found` is what was there in place of the peer id. -/
inductive BootstrapError where
  | multihash (multihash : List UInt8)
  | invalidPeerAddress (address : Multiaddr) (found : Option Protocol)
  | bootstrap (e : String)
  | kadStore (e : String)
deriving DecidableEq

structure Kademlia where
  fromMultihash : List UInt8 → Option PeerId
  bootstrap : Except String Unit
  startProviding : Except String Unit

def addAddresses (kademlia : Kademlia) :
    List Multiaddr → List (PeerId × Multiaddr) × Except BootstrapError Unit
  | [] => ([], .ok ())
  | address :: addresses =>
      match address.getLast? with
      | some (.p2p multihash) =>
          match kademlia.fromMultihash multihash with
          | some peerId =>
              let (added, result) := addAddresses kademlia addresses
              ((peerId, address.dropLast) :: added, result)
          | none => ([], .error (.multihash multihash))
      | found => ([], .error (.invalidPeerAddress address found))

def bootstrap (kademlia : Kademlia) (bootstrapPeers : List Multiaddr) :
    Except BootstrapError Unit := do
  (addAddresses kademlia bootstrapPeers).2
  if bootstrapPeers ≠ [] then
    kademlia.bootstrap.mapError .bootstrap
  kademlia.startProviding.mapError .kadStore

theorem addAddresses_ok_iff (kademlia : Kademlia) : ∀ bootstrapPeers : List Multiaddr,
    (addAddresses kademlia bootstrapPeers).2 = .ok () ↔ ∀ address ∈ bootstrapPeers,
      ∃ multihash peerId, address.getLast? = some (.p2p multihash) ∧
        kademlia.fromMultihash multihash = some peerId
  | [] => by simp [addAddresses]
  | address :: addresses => by
      rw [List.forall_mem_cons, ← addAddresses_ok_iff kademlia addresses, addAddresses]
      split
      · next multihash hlast =>
          split
          · next peerId hpeer => simp [hlast, hpeer]
          · next hpeer => simp [hlast, hpeer]
      · next found hlast =>
          refine iff_of_false (by simp) ?_
          rintro ⟨⟨multihash, peerId, hp2p, -⟩, -⟩
          exact hlast multihash hp2p

theorem bootstrap_ok_iff (kademlia : Kademlia) (bootstrapPeers : List Multiaddr) :
    bootstrap kademlia bootstrapPeers = .ok () ↔
      (∀ address ∈ bootstrapPeers, ∃ multihash peerId,
        address.getLast? = some (.p2p multihash) ∧
          kademlia.fromMultihash multihash = some peerId) ∧
      (bootstrapPeers ≠ [] → kademlia.bootstrap = .ok ()) ∧ kademlia.startProviding = .ok () := by
  rw [← addAddresses_ok_iff, bootstrap]
  cases hadd : (addAddresses kademlia bootstrapPeers).2 with
  | error e => simp [bind, Except.bind]
  | ok u =>
      by_cases hpeers : bootstrapPeers = []
      · cases hprovide : kademlia.startProviding with
        | error e => simp [hpeers, bind, Except.bind, Except.mapError]
        | ok u => simp [hpeers, bind, Except.bind, Except.mapError]
      · cases hboot : kademlia.bootstrap with
        | error e => simp [hpeers, bind, Except.bind, Except.mapError]
        | ok u =>
            cases hprovide : kademlia.startProviding with
            | error e => simp [hpeers, bind, Except.bind, Except.mapError]
            | ok u => simp [hpeers, bind, Except.bind, Except.mapError]

/-! ## Tasks -/

/-- Where a call stands.  An attempt that could not even send its command has `failed`. -/
inductive Phase (RESP : Type) where
  | waiting (sender : Sender)
  | failed (error : Error)
  | cancelled
  | done (outcome : Reply RESP)
deriving DecidableEq

structure Caller (REQ RESP : Type) where
  ask : Ask REQ
  retries : Nat
  phase : Phase RESP
deriving DecidableEq

inductive Status where
  | running
  | stopped
  | panicked (msg : String)
deriving DecidableEq

/-- The names of requests, for the history. -/
inductive Tag where
  | rpc (requestId : RequestId)
  | listener (listenerId : ListenerId)
  | command (n : Nat)
deriving DecidableEq

/-- The loop, what is on its way to it and from it, and the tasks.  The history, at the end, is
read by no step. -/
structure State (REQ RESP : Type) where
  status : Status
  eventLoop : NetworkEventLoop
  commands : List (Command REQ RESP)
  shutdownRequested : Bool
  events : List (NetworkEvent REQ)
  eventsOpen : Bool
  callers : Nat → Option (Caller REQ RESP)
  nextSender : Sender
  closed : List Sender
  sent : List (Sender × Reply RESP)
  handled : Nat
  asked : List (Sender × Nat × Ask REQ)
  issued : List (Tag × Sender)
  reported : List (Tag × Reply RESP)

inductive Action (REQ RESP : Type) where
  /-- A task calls a method of the client. -/
  | call (i : Nat) (ask : Ask REQ)
  | retryingRpcRequest (i : Nat) (peer : PeerId) (request : REQ)
  | rpcResponse (response : RESP) (channel : Nat)
  /-- The loop takes the next command. -/
  | handleCommand (swarm : Swarm)
  | handleSwarmEvent (event : SwarmEvent REQ RESP)
  /-- A task goes on. -/
  | wake (i : Nat)
  /-- A task is dropped. -/
  | cancel (i : Nat)
  /-- The owner drops the event queue. -/
  | closeEvents
  /-- `shutdown`, or the handle is dropped; then the loop sees it. -/
  | shutdown
  | stop

def Action.task? : Action REQ RESP → Option Nat
  | .call i _ => some i
  | .retryingRpcRequest i _ _ => some i
  | .wake i => some i
  | .cancel i => some i
  | _ => none

def Command.responseSender? : Command REQ RESP → Option Sender
  | .ask _ sender => some sender
  | .rpcResponse _ _ => none

def Action.networkEvent? : Action REQ RESP → Option (NetworkEvent REQ)
  | .handleSwarmEvent event => event.networkEvent?
  | _ => none

def Ask.tag (swarm : Swarm) (n : Nat) : Ask REQ → Tag
  | .rpcRequest _ _ => .rpc swarm.sendRequest
  | .listen address =>
      match swarm.listenOn address with
      | .ok listenerId => .listener listenerId
      | .error _ => .command n
  | _ => .command n

def Tag.Fits : Tag → Ask REQ → Prop
  | .rpc _, .rpcRequest _ _ => True
  | .listener _, .listen _ => True
  | .command _, .rpcRequest _ _ => False
  | .command _, _ => True
  | _, _ => False

def SwarmEvent.report? : SwarmEvent REQ RESP → Option (Tag × Reply RESP)
  | .newListenAddr address listenerId => some (.listener listenerId, .ok (.address address))
  | .response requestId resp => some (.rpc requestId, .ok (.response resp))
  | .outboundFailure requestId error => some (.rpc requestId, .error (.outboundFailure error))
  | _ => none

namespace State

/-- `NetworkEventLoop::start`.  The first bootstrap must not fail. -/
def start (kademlia : Kademlia) (bootstrapPeers : List Multiaddr) : State REQ RESP where
  status :=
    match bootstrap kademlia bootstrapPeers with
    | .ok _ => .running
    | .error _ => .panicked "network should run"
  eventLoop := ⟨.empty, .empty⟩
  commands := []
  shutdownRequested := false
  events := []
  eventsOpen := true
  callers := fun _ => none
  nextSender := 0
  closed := []
  sent := []
  handled := 0
  asked := []
  issued := []
  reported := []

/-- `sender.send(..)`; `none` where the receiver is gone. -/
def send? (s : State REQ RESP) : Option (Sender × Reply RESP) → Option (State REQ RESP)
  | none => some s
  | some (sender, reply) =>
      if sender ∈ s.closed then none else some { s with sent := (sender, reply) :: s.sent }

/-- `event_sender.send(..)`. -/
def forward? (s : State REQ RESP) : Option (NetworkEvent REQ) → Option (State REQ RESP)
  | none => some s
  | some event => if s.eventsOpen then some { s with events := s.events ++ [event] } else none

def handleCommand (s : State REQ RESP) (swarm : Swarm) (command : Command REQ RESP)
    (commands : List (Command REQ RESP)) : State REQ RESP :=
  let (eventLoop, completion) := s.eventLoop.handleCommand swarm command
  match s.send? completion with
  | none => { s with status := .panicked "receiver should not be closed" }
  | some s' => { s' with
      eventLoop, commands
      handled := s.handled + 1
      issued :=
        match command with
        | .ask ask sender => (ask.tag swarm s.handled, sender) :: s.issued
        | .rpcResponse _ _ => s.issued
      reported := (completion.map fun c => (Tag.command s.handled, c.2)).toList ++ s.reported }

def handleSwarmEvent (s : State REQ RESP) (event : SwarmEvent REQ RESP) : State REQ RESP :=
  let (eventLoop, completion) := s.eventLoop.handleSwarmEvent event
  match s.send? completion with
  | none => { s with status := .panicked event.expectation }
  | some s' =>
      let s' := { s' with eventLoop, reported := event.report?.toList ++ s.reported }
      match s'.forward? event.networkEvent? with
      | none => { s' with status := .panicked "event queue should not be closed" }
      | some s'' => s''

/-- A new channel, and a command with its sender. -/
def dispatch (s : State REQ RESP) (i : Nat) (ask : Ask REQ) (retries : Nat) : State REQ RESP :=
  { s with
    commands := s.commands ++ [.ask ask s.nextSender]
    callers := Function.update s.callers i (some ⟨ask, retries, .waiting s.nextSender⟩)
    nextSender := s.nextSender + 1
    asked := (s.nextSender, i, ask) :: s.asked }

/-- One attempt, if the loop is still there to receive its command. -/
def attempt (s : State REQ RESP) (i : Nat) (ask : Ask REQ) (retries : Nat) : State REQ RESP :=
  if s.status = .running then s.dispatch i ask retries
  else { s with
    callers := Function.update s.callers i (some ⟨ask, retries, .failed .channelSend⟩) }

def idle (s : State REQ RESP) (i : Nat) : Bool :=
  match s.callers i with
  | some ⟨_, _, .waiting _⟩ => false
  | some ⟨_, _, .failed _⟩ => false
  | _ => true

def received (s : State REQ RESP) (sender : Sender) : Option (Reply RESP) :=
  Rpc.inChannel s.sent sender

/-- The sending half exists.  The loop has them all, and takes them with it. -/
def alive (s : State REQ RESP) (sender : Sender) : Bool :=
  s.status = .running && (sender ∈ s.commands.filterMap Command.responseSender? ||
    sender ∈ s.eventLoop.pendingRpcRequests.values ||
    sender ∈ s.eventLoop.listenerRequests.values)

def outcome? (s : State REQ RESP) : Phase RESP → Option (Reply RESP)
  | .waiting sender =>
      match s.received sender with
      | some reply => some reply
      | none => if s.alive sender then none else some (.error .channelRecv)
  | .failed error => some (.error error)
  | _ => none

/-- A task goes on: it tries again after an error, if it may, and returns otherwise. -/
def wake (s : State REQ RESP) (i : Nat) : Option (State REQ RESP) :=
  match s.callers i with
  | none => none
  | some ⟨ask, retries, phase⟩ =>
      match s.outcome? phase, retries with
      | none, _ => none
      | some (.error _), retries + 1 => some (s.attempt i ask retries)
      | some outcome, retries => some { s with
          callers := Function.update s.callers i (some ⟨ask, retries, .done outcome⟩) }

/-- A task is dropped, and with it the receiver it waits on. -/
def cancel (s : State REQ RESP) (i : Nat) : Option (State REQ RESP) :=
  match s.callers i with
  | some ⟨ask, retries, .waiting sender⟩ => some { s with
      closed := sender :: s.closed
      callers := Function.update s.callers i (some ⟨ask, retries, .cancelled⟩) }
  | some ⟨ask, retries, .failed _⟩ => some { s with
      callers := Function.update s.callers i (some ⟨ask, retries, .cancelled⟩) }
  | _ => none

def step (s : State REQ RESP) : Action REQ RESP → Option (State REQ RESP)
  | .call i ask => if s.idle i then some (s.attempt i ask 0) else none
  | .retryingRpcRequest i peer request =>
      if s.idle i then some (s.attempt i (.rpcRequest peer request) maxRetries) else none
  | .rpcResponse response channel =>
      if s.status = .running then
        some { s with commands := s.commands ++ [.rpcResponse response channel] }
      else some s
  | .handleCommand swarm =>
      match s.status, s.commands with
      | .running, command :: commands => some (s.handleCommand swarm command commands)
      | _, _ => none
  | .handleSwarmEvent event =>
      if s.status = .running then some (s.handleSwarmEvent event) else none
  | .wake i => s.wake i
  | .cancel i => s.cancel i
  | .closeEvents => some { s with eventsOpen := false }
  | .shutdown => some { s with shutdownRequested := true }
  | .stop =>
      if s.status = .running ∧ s.shutdownRequested = true then some { s with status := .stopped }
      else none

/-- The swarm gives no id twice. -/
def Fresh (s : State REQ RESP) : Action REQ RESP → Prop
  | .handleCommand swarm =>
      .rpc swarm.sendRequest ∉ s.issued.map Prod.fst ∧
        ∀ address listenerId, swarm.listenOn address = .ok listenerId →
          .listener listenerId ∉ s.issued.map Prod.fst
  | _ => True

end State

end Deqs.P2P.Loop
