/-
# What a step of the loop does

`Does` lists what a step of the system can do, with `Handles` for a command and `Observes` for an
event of the swarm; everything later goes by its cases.

**Refinement.**  The maps of the loop and its answers are one `Correlation.Table`, whose tags are
request ids, listener ids and the numbers of commands (`Refines`): the two maps are the two halves
of what is pending there, and a command that is answered at once is issued and reported in one
step.
-/
import Deqs.P2P.Loop

namespace Deqs.P2P.Loop

open Rpc (RequestId Sender maxRetries)

variable {REQ RESP : Type}

/-! ## What a step does -/

namespace NetworkEventLoop

/-- Who waits under a tag, in whichever of the two maps. -/
def waiting (eventLoop : NetworkEventLoop) : Tag → Option Sender
  | .rpc requestId => eventLoop.pendingRpcRequests.get? requestId
  | .listener listenerId => eventLoop.listenerRequests.get? listenerId
  | .command _ => none

def insert (eventLoop : NetworkEventLoop) (sender : Sender) : Tag → NetworkEventLoop
  | .rpc requestId =>
      { eventLoop with pendingRpcRequests := eventLoop.pendingRpcRequests.set requestId sender }
  | .listener listenerId =>
      { eventLoop with listenerRequests := eventLoop.listenerRequests.set listenerId sender }
  | .command _ => eventLoop

def remove (eventLoop : NetworkEventLoop) : Tag → NetworkEventLoop
  | .rpc requestId =>
      { eventLoop with pendingRpcRequests := eventLoop.pendingRpcRequests.erase requestId }
  | .listener listenerId =>
      { eventLoop with listenerRequests := eventLoop.listenerRequests.erase listenerId }
  | .command _ => eventLoop

variable {eventLoop : NetworkEventLoop}

theorem waiting_insert {sender : Sender} {tag : Tag} (h : ∀ n, tag ≠ .command n) (tag' : Tag) :
    (eventLoop.insert sender tag).waiting tag' =
      if tag = tag' then some sender else eventLoop.waiting tag' := by
  cases tag with
  | rpc requestId => cases tag' <;> simp [insert, waiting, AssocMap.get?_set]
  | listener listenerId => cases tag' <;> simp [insert, waiting, AssocMap.get?_set]
  | command n => exact absurd rfl (h n)

theorem waiting_remove (tag tag' : Tag) : (eventLoop.remove tag).waiting tag' =
    if tag = tag' then none else eventLoop.waiting tag' := by
  cases tag with
  | rpc requestId => cases tag' <;> simp [remove, waiting, AssocMap.get?_erase]
  | listener listenerId => cases tag' <;> simp [remove, waiting, AssocMap.get?_erase]
  | command n =>
      simp only [remove]
      split
      · next h => rw [← h]; rfl
      · rfl

def report (eventLoop : NetworkEventLoop) :
    Option (Tag × Reply RESP) → NetworkEventLoop × Option (Sender × Reply RESP)
  | none => (eventLoop, none)
  | some (tag, reply) =>
      match eventLoop.waiting tag with
      | some sender => (eventLoop.remove tag, some (sender, reply))
      | none => (eventLoop, none)

theorem handleSwarmEvent_eq (event : SwarmEvent REQ RESP) :
    eventLoop.handleSwarmEvent event = eventLoop.report event.report? := by
  cases event <;> rfl

end NetworkEventLoop

namespace State

variable {s s' : State REQ RESP}

inductive Handles (s : State REQ RESP) (swarm : Swarm) (commands : List (Command REQ RESP)) :
    Command REQ RESP → State REQ RESP → Prop where
  | respond (response : RESP) (channel : Nat) : Handles s swarm commands
      (.rpcResponse response channel) { s with commands, handled := s.handled + 1 }
  | keep (ask : Ask REQ) (sender : Sender) (htag : ∀ n, ask.tag swarm s.handled ≠ .command n) :
      Handles s swarm commands (.ask ask sender) { s with
        eventLoop := s.eventLoop.insert sender (ask.tag swarm s.handled)
        commands
        handled := s.handled + 1
        issued := (ask.tag swarm s.handled, sender) :: s.issued }
  | answer (ask : Ask REQ) (sender : Sender) (reply : Reply RESP)
      (htag : ask.tag swarm s.handled = .command s.handled) (hreply : rpcOutcome? reply = none)
      (hopen : sender ∉ s.closed) : Handles s swarm commands (.ask ask sender) { s with
        commands
        handled := s.handled + 1
        sent := (sender, reply) :: s.sent
        issued := (.command s.handled, sender) :: s.issued
        reported := (.command s.handled, reply) :: s.reported }
  | panic (ask : Ask REQ) (sender : Sender) (hclosed : sender ∈ s.closed) :
      Handles s swarm commands (.ask ask sender)
        { s with status := .panicked "receiver should not be closed" }

theorem handles_answer {swarm : Swarm} {commands : List (Command REQ RESP)} {ask : Ask REQ}
    {sender : Sender} {reply : Reply RESP} (htag : ask.tag swarm s.handled = .command s.handled)
    (hreply : rpcOutcome? reply = none)
    (h : s.eventLoop.handleCommand swarm (.ask ask sender) = (s.eventLoop, some (sender, reply))) :
    Handles s swarm commands (.ask ask sender)
      (s.handleCommand swarm (.ask ask sender) commands) := by
  by_cases hclosed : sender ∈ s.closed
  · have hs : s.handleCommand swarm (.ask ask sender) commands =
        { s with status := .panicked "receiver should not be closed" } := by
      simp only [handleCommand, h, send?, if_pos hclosed]
    rw [hs]
    exact .panic ask sender hclosed
  · have hs : s.handleCommand swarm (.ask ask sender) commands = { s with
        commands
        handled := s.handled + 1
        sent := (sender, reply) :: s.sent
        issued := (.command s.handled, sender) :: s.issued
        reported := (.command s.handled, reply) :: s.reported } := by
      simp only [handleCommand, h, send?, if_neg hclosed, htag]
      rfl
    rw [hs]
    exact .answer ask sender reply htag hreply hclosed

theorem handles_of_handleCommand (swarm : Swarm) (command : Command REQ RESP)
    (commands : List (Command REQ RESP)) :
    Handles s swarm commands command (s.handleCommand swarm command commands) := by
  cases command with
  | rpcResponse response channel => exact .respond response channel
  | ask ask sender =>
      cases ask with
      | peerList => exact handles_answer rfl rfl rfl
      | listenAddrList => exact handles_answer rfl rfl rfl
      | connectedPeerList => exact handles_answer rfl rfl rfl
      | publishGossip topic msg =>
          refine handles_answer rfl ?_ rfl
          cases swarm.publish topic msg <;> rfl
      | subscribeGossip topic =>
          refine handles_answer rfl ?_ rfl
          cases swarm.subscribe topic <;> rfl
      | rpcRequest peer request => exact .keep _ _ (fun n hn => by cases hn)
      | listen address =>
          cases hlisten : swarm.listenOn address with
          | error e =>
              have htag : (Ask.listen address : Ask REQ).tag swarm s.handled =
                  .command s.handled := by simp only [Ask.tag, hlisten]
              have hreply :
                  s.eventLoop.handleCommand swarm (.ask (.listen address : Ask REQ) sender) =
                    (s.eventLoop, some (sender, (.error (.transport e) : Reply RESP))) := by
                simp only [NetworkEventLoop.handleCommand, hlisten]
              exact handles_answer htag rfl hreply
          | ok listenerId =>
              have htag : (Ask.listen address : Ask REQ).tag swarm s.handled =
                  .listener listenerId := by simp only [Ask.tag, hlisten]
              have hs : s.handleCommand swarm (.ask (.listen address) sender) commands = { s with
                  eventLoop := s.eventLoop.insert sender
                    ((Ask.listen address : Ask REQ).tag swarm s.handled)
                  commands
                  handled := s.handled + 1
                  issued := ((Ask.listen address : Ask REQ).tag swarm s.handled, sender) ::
                    s.issued } := by
                rw [htag]
                simp only [handleCommand, NetworkEventLoop.handleCommand, hlisten, send?, htag]
                rfl
              rw [hs]
              refine .keep _ _ ?_
              rw [htag]
              exact fun n hn => by cases hn

/-- The event is in the queue of the owner, or the loop has panicked over it. -/
def Forwards (s : State REQ RESP) (event : SwarmEvent REQ RESP)
    (events : List (NetworkEvent REQ)) (status : Status) : Prop :=
  status = s.status ∧ events = s.events ++ event.networkEvent?.toList ∨
  s.eventsOpen = false ∧ events = s.events ∧ status = .panicked "event queue should not be closed"

inductive Observes (s : State REQ RESP) (event : SwarmEvent REQ RESP) : State REQ RESP → Prop where
  | ignore {events : List (NetworkEvent REQ)} {status : Status} (hreport : event.report? = none)
      (hforward : Forwards s event events status) : Observes s event { s with events, status }
  | unknown {events : List (NetworkEvent REQ)} {status : Status} {tag : Tag} {reply : Reply RESP}
      (hreport : event.report? = some (tag, reply)) (hwaiting : s.eventLoop.waiting tag = none)
      (hforward : Forwards s event events status) : Observes s event { s with
        events, status
        reported := (tag, reply) :: s.reported }
  | complete {events : List (NetworkEvent REQ)} {status : Status} {tag : Tag} {reply : Reply RESP}
      {sender : Sender} (hreport : event.report? = some (tag, reply))
      (hwaiting : s.eventLoop.waiting tag = some sender) (hopen : sender ∉ s.closed)
      (hforward : Forwards s event events status) : Observes s event { s with
        eventLoop := s.eventLoop.remove tag
        events, status
        sent := (sender, reply) :: s.sent
        reported := (tag, reply) :: s.reported }
  | panic {tag : Tag} {reply : Reply RESP} {sender : Sender}
      (hreport : event.report? = some (tag, reply))
      (hwaiting : s.eventLoop.waiting tag = some sender) (hclosed : sender ∈ s.closed) :
      Observes s event { s with status := .panicked event.expectation }

theorem forwards_of_forward? (s : State REQ RESP) (event : SwarmEvent REQ RESP) :
    ∃ events status, Forwards s event events status ∧
      (s.forward? event.networkEvent?).getD
        { s with status := .panicked "event queue should not be closed" } =
          { s with events, status } := by
  cases hevent : event.networkEvent? with
  | none =>
      refine ⟨s.events, s.status, .inl ⟨rfl, ?_⟩, rfl⟩
      rw [hevent, Option.toList_none, List.append_nil]
  | some e =>
      cases hopen : s.eventsOpen with
      | true =>
          refine ⟨s.events ++ [e], s.status, .inl ⟨rfl, ?_⟩, ?_⟩
          · rw [hevent, Option.toList_some]
          · simp [forward?, hopen]
      | false =>
          refine ⟨s.events, _, .inr ⟨hopen, rfl, rfl⟩, ?_⟩
          simp [forward?, hopen]

theorem handleSwarmEvent_of_send {event : SwarmEvent REQ RESP} {eventLoop : NetworkEventLoop}
    {completion : Option (Sender × Reply RESP)} {s₁ : State REQ RESP}
    (h : s.eventLoop.report event.report? = (eventLoop, completion))
    (hsend : s.send? completion = some s₁) : ∃ events status, Forwards s₁ event events status ∧
      s.handleSwarmEvent event = { s₁ with
        eventLoop, events, status
        reported := event.report?.toList ++ s.reported } := by
  obtain ⟨events, status, hforward, heq⟩ := forwards_of_forward?
    { s₁ with eventLoop, reported := event.report?.toList ++ s.reported } event
  refine ⟨events, status, hforward, ?_⟩
  rw [← NetworkEventLoop.handleSwarmEvent_eq] at h
  simp only [handleSwarmEvent, h, hsend]
  rw [← heq]
  split
  · next hf => rw [hf]; rfl
  · next hf => rw [hf, Option.getD_some]

theorem observes_of_handleSwarmEvent (event : SwarmEvent REQ RESP) :
    Observes s event (s.handleSwarmEvent event) := by
  cases hreport : event.report? with
  | none =>
      have h : s.eventLoop.report event.report? = (s.eventLoop, none) := by rw [hreport]; rfl
      obtain ⟨events, status, hforward, heq⟩ := handleSwarmEvent_of_send h rfl
      rw [heq, hreport]
      exact .ignore hreport hforward
  | some report =>
      obtain ⟨tag, reply⟩ := report
      cases hwaiting : s.eventLoop.waiting tag with
      | none =>
          have h : s.eventLoop.report event.report? = (s.eventLoop, none) := by
            simp only [hreport, NetworkEventLoop.report, hwaiting]
          obtain ⟨events, status, hforward, heq⟩ := handleSwarmEvent_of_send h rfl
          rw [heq, hreport]
          exact .unknown hreport hwaiting hforward
      | some sender =>
          have h : s.eventLoop.report event.report? =
              (s.eventLoop.remove tag, some (sender, reply)) := by
            simp only [hreport, NetworkEventLoop.report, hwaiting]
          by_cases hclosed : sender ∈ s.closed
          · have hs : s.handleSwarmEvent event =
                { s with status := .panicked event.expectation } := by
              rw [← NetworkEventLoop.handleSwarmEvent_eq] at h
              simp only [handleSwarmEvent, h, send?, if_pos hclosed]
            rw [hs]
            exact .panic hreport hwaiting hclosed
          · obtain ⟨events, status, hforward, heq⟩ := handleSwarmEvent_of_send h (if_neg hclosed)
            rw [heq, hreport]
            exact .complete hreport hwaiting hclosed hforward

inductive Does (s : State REQ RESP) : Action REQ RESP → State REQ RESP → Prop where
  | call (i : Nat) (ask : Ask REQ) (hidle : s.idle i = true) :
      Does s (.call i ask) (s.attempt i ask 0)
  | retryingCall (i : Nat) (peer : PeerId) (request : REQ) (hidle : s.idle i = true) :
      Does s (.retryingRpcRequest i peer request)
        (s.attempt i (.rpcRequest peer request) maxRetries)
  | retry {i : Nat} {caller : Caller REQ RESP} {error : Error} {retries : Nat}
      (hi : s.callers i = some caller) (hout : s.outcome? caller.phase = some (.error error))
      (hretries : caller.retries = retries + 1) :
      Does s (.wake i) (s.attempt i caller.ask retries)
  | finish {i : Nat} {caller : Caller REQ RESP} {outcome : Reply RESP}
      (hi : s.callers i = some caller) (hout : s.outcome? caller.phase = some outcome)
      (hlast : ∀ error, outcome = .error error → caller.retries = 0) :
      Does s (.wake i) { s with
        callers :=
          Function.update s.callers i (some ⟨caller.ask, caller.retries, .done outcome⟩) }
  | cancel {i : Nat} {caller : Caller REQ RESP} {closed : List Sender}
      (hi : s.callers i = some caller)
      (hclosed : (∃ sender, caller.phase = .waiting sender ∧ closed = sender :: s.closed) ∨
        (∃ error, caller.phase = .failed error) ∧ closed = s.closed) :
      Does s (.cancel i) { s with
        closed
        callers :=
          Function.update s.callers i (some ⟨caller.ask, caller.retries, .cancelled⟩) }
  | respond (response : RESP) (channel : Nat) (hrunning : s.status = .running) :
      Does s (.rpcResponse response channel)
        { s with commands := s.commands ++ [.rpcResponse response channel] }
  | refuse (response : RESP) (channel : Nat) (hended : s.status ≠ .running) :
      Does s (.rpcResponse response channel) s
  | handle {swarm : Swarm} {command : Command REQ RESP} {commands : List (Command REQ RESP)}
      {s' : State REQ RESP} (hrunning : s.status = .running)
      (hcommands : s.commands = command :: commands)
      (hhandles : Handles s swarm commands command s') : Does s (.handleCommand swarm) s'
  | observe {event : SwarmEvent REQ RESP} {s' : State REQ RESP} (hrunning : s.status = .running)
      (hobserves : Observes s event s') : Does s (.handleSwarmEvent event) s'
  | closeEvents : Does s .closeEvents { s with eventsOpen := false }
  | shutdown : Does s .shutdown { s with shutdownRequested := true }
  | stop (hrunning : s.status = .running) : Does s .stop { s with status := .stopped }

/-- A task that goes on has the outcome of its attempt.  It tries again after an error, if it
may, and returns otherwise. -/
theorem does_of_wake {i : Nat} (h : s.wake i = some s') : Does s (.wake i) s' := by
  unfold wake at h
  split at h
  · cases h
  · next ask retries phase hi =>
      split at h
      · cases h
      · next error retries hout => exact Option.some.inj h ▸ .retry hi hout rfl
      · next outcome hout hlast =>
          refine Option.some.inj h ▸ .finish hi hout ?_
          rintro error rfl
          exact Nat.eq_zero_of_not_pos fun hpos =>
            hlast error _ (Nat.succ_pred_eq_of_pos hpos).symm rfl

theorem does_of_step {a : Action REQ RESP} (h : s.step a = some s') : Does s a s' := by
  cases a with
  | call i ask =>
      simp only [step] at h
      split at h
      · next hidle => exact Option.some.inj h ▸ .call i ask hidle
      · cases h
  | retryingRpcRequest i peer request =>
      simp only [step] at h
      split at h
      · next hidle => exact Option.some.inj h ▸ .retryingCall i peer request hidle
      · cases h
  | rpcResponse response channel =>
      simp only [step] at h
      split at h
      · next hrunning => exact Option.some.inj h ▸ .respond response channel hrunning
      · next hended => exact Option.some.inj h ▸ .refuse response channel hended
  | handleCommand swarm =>
      simp only [step] at h
      split at h
      · next command commands hrunning hcommands =>
          exact Option.some.inj h ▸ .handle hrunning hcommands
            (handles_of_handleCommand swarm command commands)
      · cases h
  | handleSwarmEvent event =>
      simp only [step] at h
      split at h
      · next hrunning =>
          exact Option.some.inj h ▸ .observe hrunning (observes_of_handleSwarmEvent event)
      · cases h
  | wake i => exact does_of_wake h
  | cancel i =>
      simp only [step, State.cancel] at h
      split at h
      · next ask retries sender hi =>
          exact Option.some.inj h ▸ .cancel hi (.inl ⟨sender, rfl, rfl⟩)
      · next ask retries error hi =>
          exact Option.some.inj h ▸ .cancel hi (.inr ⟨⟨error, rfl⟩, rfl⟩)
      · cases h
  | closeEvents => exact Option.some.inj h ▸ .closeEvents
  | shutdown => exact Option.some.inj h ▸ .shutdown
  | stop =>
      simp only [step] at h
      split at h
      · next hrunning => exact Option.some.inj h ▸ .stop hrunning.1
      · cases h

/-! ## The loop refines a correlation table -/

/-- The table the loop stands for. -/
structure Refines (t : Correlation.Table Tag Sender (Reply RESP)) (s : State REQ RESP) : Prop where
  issued : t.issued = s.issued
  reported : t.reported = s.reported
  completed : t.completed = s.sent
  pending : ∀ tag, t.pending.get? tag = s.eventLoop.waiting tag

/-- A table that is in order, and behind it the loop. -/
def Correlated (s : State REQ RESP) : Prop :=
  ∃ t : Correlation.Table Tag Sender (Reply RESP), Refines t s ∧ t.Correlated

theorem correlated_start (kademlia : Kademlia) (bootstrapPeers : List Multiaddr) :
    (start kademlia bootstrapPeers : State REQ RESP).Correlated := by
  refine ⟨.empty, ⟨rfl, rfl, rfl, ?_⟩, .empty⟩
  intro tag
  cases tag <;> rfl

theorem Correlated.congr (h : s.Correlated) (hissued : s'.issued = s.issued)
    (hreported : s'.reported = s.reported) (hsent : s'.sent = s.sent)
    (hloop : s'.eventLoop = s.eventLoop) : s'.Correlated := by
  obtain ⟨t, ⟨h₁, h₂, h₃, h₄⟩, ht⟩ := h
  refine ⟨t, ⟨h₁.trans hissued.symm, h₂.trans hreported.symm, h₃.trans hsent.symm, ?_⟩, ht⟩
  rw [hloop]
  exact h₄

/-- **A command** is issued under a new tag; one that is answered at once is also reported. -/
theorem Correlated.handles (h : s.Correlated) {swarm : Swarm} {command : Command REQ RESP}
    {commands : List (Command REQ RESP)}
    (hsender : ∀ sender, command.responseSender? = some sender → sender ∉ s.issued.map Prod.snd)
    (htag : ∀ ask sender, command = .ask ask sender →
      ask.tag swarm s.handled ∉ s.issued.map Prod.fst)
    (hhandles : Handles s swarm commands command s') : s'.Correlated := by
  obtain ⟨t, hr, ht⟩ := h
  cases hhandles with
  | respond response channel => exact Correlated.congr ⟨t, hr, ht⟩ rfl rfl rfl rfl
  | panic ask sender hclosed => exact Correlated.congr ⟨t, hr, ht⟩ rfl rfl rfl rfl
  | keep ask sender hnew =>
      have htag' := htag ask sender rfl
      have hsender' := hsender sender rfl
      rw [← hr.issued] at htag' hsender'
      refine ⟨t.issue (ask.tag swarm s.handled) sender, ⟨?_, hr.reported, hr.completed, ?_⟩,
        ht.issue htag' hsender'⟩
      · exact congrArg _ hr.issued
      · intro tag
        rw [NetworkEventLoop.waiting_insert hnew, ← hr.pending tag]
        exact AssocMap.get?_set _ _ _ _
  | answer ask sender reply hcommand hreply hopen =>
      have htag' := htag ask sender rfl
      have hsender' := hsender sender rfl
      rw [hcommand, ← hr.issued] at htag'
      rw [← hr.issued] at hsender'
      refine ⟨(t.issue (.command s.handled) sender).report (.command s.handled) reply, ?_,
        (ht.issue htag' hsender').report _ _⟩
      rw [Correlation.Table.report_issue]
      refine ⟨congrArg _ hr.issued, congrArg _ hr.reported, congrArg _ hr.completed, ?_⟩
      intro tag
      show ((t.pending.set (.command s.handled) sender).erase (.command s.handled)).get? tag = _
      rw [AssocMap.get?_erase, AssocMap.get?_set]
      split
      · next heq => rw [← heq]; rfl
      · exact hr.pending tag

/-- **An event** reports for a tag what it reports. -/
theorem Correlated.observes (h : s.Correlated) {event : SwarmEvent REQ RESP}
    (hobserves : Observes s event s') : s'.Correlated := by
  obtain ⟨t, hr, ht⟩ := h
  cases hobserves with
  | ignore hreport hforward => exact Correlated.congr ⟨t, hr, ht⟩ rfl rfl rfl rfl
  | panic hreport hwaiting hclosed => exact Correlated.congr ⟨t, hr, ht⟩ rfl rfl rfl rfl
  | @unknown events status tag reply hreport hwaiting hforward =>
      rw [← hr.pending] at hwaiting
      refine ⟨t.report tag reply, ?_, ht.report tag reply⟩
      simp only [Correlation.Table.report, hwaiting]
      exact ⟨hr.issued, congrArg _ hr.reported, hr.completed, hr.pending⟩
  | @complete events status tag reply sender hreport hwaiting hopen hforward =>
      rw [← hr.pending] at hwaiting
      refine ⟨t.report tag reply, ?_, ht.report tag reply⟩
      simp only [Correlation.Table.report, hwaiting]
      refine ⟨hr.issued, congrArg _ hr.reported, congrArg _ hr.completed, ?_⟩
      intro tag'
      rw [NetworkEventLoop.waiting_remove, ← hr.pending tag']
      exact AssocMap.get?_erase _ _ _

end State

end Deqs.P2P.Loop
