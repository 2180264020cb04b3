/-
# The requests of the whole loop

`EventLoop` follows the requests of peers alone, `Loop` has everything.  Here the two are put
together: as long as the whole loop runs and nobody who waits goes away, what it does with
requests is what the smaller one does (`rpc_of_loop`).

| whole loop | requests |
| :-- | :-- |
| `rpc_request`, first or again | the same |
| any other command | `other`, with the channel of its sender |
| a response to a peer | `other`, without one |
| an event of the swarm | the response or the failure it is, or `other` |

What is compared (`Projects`): the map, the commands, the numbers of the channels, what was
issued, reported and sent where it is about requests, and where every task stands.
-/
import Deqs.P2P.Endings

namespace Deqs.P2P.Loop

open Rpc (RequestId Sender maxRetries inChannel)

variable {REQ RESP : Type}

/-! ## What is about requests -/

def Command.rpc : Command REQ RESP → Rpc.Command PeerId REQ
  | .ask (.rpcRequest peer request) sender => .rpcRequest peer request sender
  | _ => .other

def SwarmEvent.rpc : SwarmEvent REQ RESP → Rpc.SwarmEvent RESP
  | .response requestId resp => .response requestId resp
  | .outboundFailure requestId error => .outboundFailure requestId error
  | _ => .other

def rpcIssued? : Tag × Sender → Option (RequestId × Sender)
  | (.rpc requestId, sender) => some (requestId, sender)
  | _ => none

def rpcReported? : Tag × Reply RESP → Option (RequestId × Except Rpc.Error RESP)
  | (.rpc requestId, reply) => (rpcOutcome? reply).map (requestId, ·)
  | _ => none

def rpcSent? (e : Sender × Reply RESP) : Option (Sender × Except Rpc.Error RESP) :=
  (rpcOutcome? e.2).map (e.1, ·)

theorem mem_rpcIssued {issued : List (Tag × Sender)} {requestId : RequestId}
    (h : .rpc requestId ∉ issued.map Prod.fst) :
    requestId ∉ (issued.filterMap rpcIssued?).map Prod.fst := by
  intro hin
  obtain ⟨⟨id, sender⟩, hmem, rfl⟩ := List.mem_map.mp hin
  obtain ⟨⟨tag, sender'⟩, hmem', heq⟩ := List.mem_filterMap.mp hmem
  cases tag with
  | rpc id' =>
      obtain ⟨rfl, -⟩ := Prod.mk.inj (Option.some.inj heq)
      exact h (List.mem_map.mpr ⟨_, hmem', rfl⟩)
  | listener id' => cases heq
  | command n => cases heq

theorem inChannel_rpcSent {sender : Sender} {reply : Reply RESP}
    {outcome : Except Rpc.Error RESP} (hout : rpcOutcome? reply = some outcome) :
    ∀ {sent : List (Sender × Reply RESP)}, inChannel sent sender = some reply →
      inChannel (sent.filterMap rpcSent?) sender = some outcome
  | [], h => by cases h
  | (sender', reply') :: sent, h => by
      by_cases heq : sender' = sender
      · subst heq
        simp only [inChannel, List.find?_cons, decide_true, Option.map_some,
          Option.some.injEq] at h
        subst h
        simp [inChannel, rpcSent?, hout]
      · have hrest : inChannel sent sender = some reply := by
          simpa [inChannel, List.find?_cons, heq] using h
        have ih := inChannel_rpcSent hout hrest
        cases hreply : rpcOutcome? reply' with
        | none => simpa [rpcSent?, hreply] using ih
        | some outcome' => simpa [inChannel, rpcSent?, hreply, heq] using ih

/-- A task, as the two systems see it. -/
structure Shows (caller : Option (Caller REQ RESP))
    (caller' : Option (Rpc.Caller PeerId REQ RESP)) : Prop where
  waiting : ∀ peer request retries sender,
    caller = some ⟨.rpcRequest peer request, retries, .waiting sender⟩ →
      ∃ attempts, caller' = some ⟨peer, request, retries, sender :: attempts, none⟩
  done : ∀ peer request retries reply,
    caller = some ⟨.rpcRequest peer request, retries, .done reply⟩ →
      ∃ attempts outcome, rpcOutcome? reply = some outcome ∧
        caller' = some ⟨peer, request, retries, attempts, some outcome⟩
  idle : (∀ peer request retries sender,
    caller ≠ some ⟨.rpcRequest peer request, retries, .waiting sender⟩) →
      ∀ c, caller' = some c → c.result ≠ none

theorem shows_other {caller : Option (Caller REQ RESP)}
    {caller' : Option (Rpc.Caller PeerId REQ RESP)} {ask : Ask REQ} {retries : Nat}
    {phase : Phase RESP} (hask : ∀ peer request, ask ≠ .rpcRequest peer request)
    (h : Shows caller caller') (hidle : ∀ peer request retries sender,
      caller ≠ some ⟨.rpcRequest peer request, retries, .waiting sender⟩) :
    Shows (some ⟨ask, retries, phase⟩) caller' := by
  refine ⟨?_, ?_, fun _ => h.idle hidle⟩
  · rintro peer request retries' sender ⟨⟩
    exact absurd rfl (hask peer request)
  · rintro peer request retries' reply ⟨⟩
    exact absurd rfl (hask peer request)

theorem shows_waiting (peer : PeerId) (request : REQ) (retries : Nat) (sender : Sender)
    (attempts : List Sender) :
    Shows (some ⟨.rpcRequest peer request, retries, .waiting sender⟩ : Option (Caller REQ RESP))
      (some ⟨peer, request, retries, sender :: attempts, none⟩) := by
  refine ⟨?_, ?_, fun hnot => absurd rfl (hnot _ _ _ _)⟩
  · rintro _ _ _ _ ⟨⟩
    exact ⟨attempts, rfl⟩
  · rintro _ _ _ _ ⟨⟩

theorem shows_done {peer : PeerId} {request : REQ} {retries : Nat} {reply : Reply RESP}
    {outcome : Except Rpc.Error RESP} (hout : rpcOutcome? reply = some outcome)
    (attempts : List Sender) :
    Shows (some ⟨.rpcRequest peer request, retries, .done reply⟩)
      (some ⟨peer, request, retries, attempts, some outcome⟩) := by
  refine ⟨?_, ?_, ?_⟩
  · rintro _ _ _ _ ⟨⟩
  · rintro _ _ _ _ ⟨⟩
    exact ⟨attempts, outcome, hout, rfl⟩
  · rintro - _ ⟨⟩
    simp

section Update

variable {callers : Nat → Option (Caller REQ RESP)}
  {callers' : Nat → Option (Rpc.Caller PeerId REQ RESP)} {caller : Option (Caller REQ RESP)}
  {caller' : Option (Rpc.Caller PeerId REQ RESP)} {i : Nat}

theorem shows_update (h : ∀ j, Shows (callers j) (callers' j)) (hi : Shows caller caller')
    (j : Nat) :
    Shows (Function.update callers i caller j) (Function.update callers' i caller' j) := by
  rcases eq_or_ne j i with rfl | hne
  · rw [Function.update_self, Function.update_self]
    exact hi
  · rw [Function.update_of_ne hne, Function.update_of_ne hne]
    exact h j

theorem shows_update_left (h : ∀ j, Shows (callers j) (callers' j))
    (hi : Shows caller (callers' i)) (j : Nat) :
    Shows (Function.update callers i caller j) (callers' j) := by
  have hboth := shows_update (i := i) h hi j
  rwa [Function.update_eq_self] at hboth

end Update

structure Projects (s : State REQ RESP) (r : Rpc.State PeerId REQ RESP) : Prop where
  pending : r.eventLoop = ⟨s.eventLoop.pendingRpcRequests⟩
  commands : r.commands = s.commands.map Command.rpc
  nextSender : r.nextSender = s.nextSender
  issued : r.issued = s.issued.filterMap rpcIssued?
  reported : r.reported = s.reported.filterMap rpcReported?
  sent : r.sent = s.sent.filterMap rpcSent?
  callers : ∀ i, Shows (s.callers i) (r.callers i)

/-- What a run of the whole loop keeps, as long as it goes on undisturbed. -/
structure Undisturbed (s : State REQ RESP) : Prop where
  sound : s.Sound
  intact : s.Intact
  running : s.status = .running
  retrying : ∀ i caller, s.callers i = some caller → caller.retries ≠ 0 →
    ∃ peer request, caller.ask = .rpcRequest peer request
  reported : ∀ requestId reply, (.rpc requestId, reply) ∈ s.reported →
    ∃ outcome, rpcOutcome? reply = some outcome

def Quiet (s : State REQ RESP) (a : Action REQ RESP) : Prop :=
  s.Fresh a ∧ State.Stays a ∧ a ≠ .stop

open State

variable {s s' : State REQ RESP} {r : Rpc.State PeerId REQ RESP}

/-! ## Undisturbed runs -/

theorem running_of_does (h : Undisturbed s) {a : Action REQ RESP} (hquiet : Quiet s a)
    (hdoes : Does s a s') : s'.status = .running := by
  have hintact := (h.intact.step hquiet.2.1 hdoes).1
  rcases hdoes.status_eq_or hquiet.2.2 with hsame | ⟨msg, hpanicked⟩
  · exact hsame.trans h.running
  · exact absurd hpanicked (hintact.status msg)

theorem retrying_update {i : Nat} {caller : Caller REQ RESP}
    (h : ∀ i caller, s.callers i = some caller → caller.retries ≠ 0 →
      ∃ peer request, caller.ask = .rpcRequest peer request)
    (hcaller : caller.retries ≠ 0 → ∃ peer request, caller.ask = .rpcRequest peer request) :
    ∀ j caller', Function.update s.callers i (some caller) j = some caller' →
      caller'.retries ≠ 0 → ∃ peer request, caller'.ask = .rpcRequest peer request := by
  intro j caller' hj
  rcases eq_or_ne j i with rfl | hne
  · rw [Function.update_self] at hj
    exact Option.some.inj hj ▸ hcaller
  · rw [Function.update_of_ne hne] at hj
    exact h j caller' hj

theorem rpcOutcome_of_report {event : SwarmEvent REQ RESP} {requestId : RequestId}
    {reply : Reply RESP} (h : event.report? = some (.rpc requestId, reply)) :
    ∃ outcome, rpcOutcome? reply = some outcome := by
  cases event with
  | response requestId' resp => cases h; exact ⟨_, rfl⟩
  | outboundFailure requestId' error => cases h; exact ⟨_, rfl⟩
  | _ => cases h

theorem Undisturbed.step (h : Undisturbed s) {a : Action REQ RESP} (hquiet : Quiet s a)
    (hdoes : Does s a s') : Undisturbed s' := by
  refine ⟨h.sound.step hquiet.1 hdoes, (h.intact.step hquiet.2.1 hdoes).1,
    running_of_does h hquiet hdoes, ?_, ?_⟩
  · have hattempt : ∀ i ask retries,
        (retries ≠ 0 → ∃ peer request, ask = Ask.rpcRequest peer request) →
        ∀ j caller, (s.attempt i ask retries).callers j = some caller → caller.retries ≠ 0 →
          ∃ peer request, caller.ask = .rpcRequest peer request := by
      intro i ask retries hask
      rw [attempt, if_pos h.running]
      exact retrying_update h.retrying hask
    cases hdoes with
    | call i ask hidle => exact hattempt i ask 0 (fun hne => absurd rfl hne)
    | retryingCall i peer request hidle => exact hattempt _ _ _ (fun _ => ⟨peer, request, rfl⟩)
    | @retry i caller error retries hi hout hretries =>
        exact hattempt _ _ _ (fun _ => h.retrying i caller hi (by omega))
    | @finish i caller outcome hi hout hlast =>
        exact retrying_update h.retrying (h.retrying i caller hi)
    | @cancel i caller closed hi hclosed => exact absurd rfl (hquiet.2.1.1 i)
    | handle hrunning hcommands hhandles => cases hhandles <;> exact h.retrying
    | observe hrunning hobserves => cases hobserves <;> exact h.retrying
    | _ => exact h.retrying
  · have hnew : ∀ {requestId reply tag reply'}, (Tag.rpc requestId, reply) ∈
        (tag, reply') :: s.reported → ((tag, reply') = (.rpc requestId, reply) →
          ∃ outcome, rpcOutcome? reply = some outcome) →
        ∃ outcome, rpcOutcome? reply = some outcome := by
      intro requestId reply tag reply' hin hhead
      rcases List.mem_cons.mp hin with heq | hin
      · exact hhead heq.symm
      · exact h.reported requestId reply hin
    have hattempt : ∀ i ask retries, (s.attempt i ask retries).reported = s.reported := by
      intro i ask retries
      rw [attempt, if_pos h.running]
      rfl
    intro requestId reply hin
    cases hdoes with
    | call i ask hidle => exact h.reported _ _ (hattempt .. ▸ hin)
    | retryingCall i peer request hidle => exact h.reported _ _ (hattempt .. ▸ hin)
    | retry hi hout hretries => exact h.reported _ _ (hattempt .. ▸ hin)
    | handle hrunning hcommands hhandles =>
        cases hhandles with
        | answer ask sender reply' htag hreply hopen => exact hnew hin fun heq => by cases heq
        | _ => exact h.reported _ _ hin
    | observe hrunning hobserves =>
        cases hobserves with
        | unknown hreport hwaiting hforward =>
            exact hnew hin fun heq => rpcOutcome_of_report (heq ▸ hreport)
        | complete hreport hwaiting hopen hforward =>
            exact hnew hin fun heq => rpcOutcome_of_report (heq ▸ hreport)
        | _ => exact h.reported _ _ hin
    | _ => exact h.reported _ _ hin

theorem undisturbed_start {kademlia : Kademlia} {bootstrapPeers : List Multiaddr}
    (hboot : bootstrap kademlia bootstrapPeers = .ok ()) :
    Undisturbed (start kademlia bootstrapPeers : State REQ RESP) := by
  have hrunning : (start kademlia bootstrapPeers : State REQ RESP).status = .running := by
    simp only [start, hboot]
  refine ⟨sound_start kademlia bootstrapPeers, ⟨rfl, rfl, ?_⟩, hrunning, ?_, ?_⟩
  · intro msg hmsg
    rw [hrunning] at hmsg
    cases hmsg
  · intro i caller hi
    cases hi
  · intro requestId reply hin
    cases hin

/-! ## The simulation -/

theorem Undisturbed.received (h : Undisturbed s) {i : Nat} {caller : Caller REQ RESP}
    {reply : Reply RESP} (hi : s.callers i = some caller)
    (hout : s.outcome? caller.phase = some reply) :
    ∃ sender, caller.phase = .waiting sender ∧ s.received sender = some reply := by
  have hcaller := h.sound.callers i caller hi
  cases hphase : caller.phase with
  | failed error => exact absurd h.running (hcaller.failed error hphase).1
  | cancelled => rw [hphase] at hout; cases hout
  | done outcome => rw [hphase] at hout; cases hout
  | waiting sender =>
      refine ⟨sender, rfl, ?_⟩
      rw [hphase] at hout
      simp only [outcome?] at hout
      cases hreceived : s.received sender with
      | some reply' => rw [hreceived] at hout; exact hout
      | none =>
          -- nobody has used the sender, so the loop still has it
          have hnot : sender ∉ s.sent.map Prod.fst := by
            intro hsent
            obtain ⟨reply', hreply'⟩ := received_of_mem_sent hsent
            rw [hreceived] at hreply'
            cases hreply'
          have halive := alive_of_outstanding h.running
            (h.sound.outstanding (hcaller.waiting sender hphase).2 hnot)
          simp [hreceived, halive] at hout

theorem Undisturbed.outcome (h : Undisturbed s) (hp : Projects s r) {i : Nat} {peer : PeerId}
    {request : REQ} {retries : Nat} {sender : Sender} {reply : Reply RESP}
    (hi : s.callers i = some ⟨.rpcRequest peer request, retries, .waiting sender⟩)
    (hreceived : s.received sender = some reply) :
    ∃ outcome, rpcOutcome? reply = some outcome ∧ r.received sender = some outcome := by
  have hasked := ((h.sound.callers i _ hi).waiting sender rfl).1
  have hsent : (sender, reply) ∈ s.sent := Rpc.mem_of_inChannel hreceived
  obtain ⟨outcome, hout⟩ : ∃ outcome, rpcOutcome? reply = some outcome := by
    rcases h.sound.returns_of_sent hasked hsent with ⟨hended, -⟩ | ⟨_, tag, -, -, hin, hfits⟩
    · exact absurd h.running hended
    · cases tag with
      | rpc requestId => exact h.reported requestId reply hin
      | listener listenerId => exact absurd hfits id
      | command n => exact absurd hfits id
  refine ⟨outcome, hout, ?_⟩
  rw [Rpc.State.received, hp.sent]
  exact inChannel_rpcSent hout hreceived

theorem call_of_idle {i : Nat} {peer : PeerId} {request : REQ} {retries : Nat}
    (h : ∀ c, r.callers i = some c → c.result ≠ none) :
    r.call i peer request retries = some (r.attempt i ⟨peer, request, retries, [], none⟩) := by
  unfold Rpc.State.call
  split
  · next hi => exact absurd rfl (h _ hi)
  · rfl

theorem not_waiting_of_idle {i : Nat} (h : s.idle i = true) : ∀ peer request retries sender,
    s.callers i ≠ some ⟨.rpcRequest peer request, retries, .waiting sender⟩ := by
  intro peer request retries sender hi
  simp [idle, hi] at h

theorem Projects.request (hp : Projects s r) (hrunning : s.status = .running) (i : Nat)
    (peer : PeerId) (request : REQ) (retries : Nat) (attempts : List Sender) :
    Projects (s.attempt i (.rpcRequest peer request) retries)
      (r.attempt i ⟨peer, request, retries, attempts, none⟩) := by
  rw [State.attempt, if_pos hrunning]
  refine ⟨hp.pending, ?_, congrArg (· + 1) hp.nextSender, hp.issued, hp.reported, hp.sent, ?_⟩
  · simp [State.dispatch, Rpc.State.attempt, hp.commands, hp.nextSender, Command.rpc]
  · simp only [State.dispatch, Rpc.State.attempt, hp.nextSender]
    exact shows_update hp.callers (shows_waiting peer request retries s.nextSender attempts)

theorem Projects.other (hp : Projects s r) (hrunning : s.status = .running) {i : Nat}
    (hidle : s.idle i = true) {ask : Ask REQ}
    (hask : ∀ peer request, ask ≠ .rpcRequest peer request) :
    Projects (s.attempt i ask 0)
      { r with commands := r.commands ++ [.other], nextSender := r.nextSender + 1 } := by
  have hrpc : (Command.ask ask s.nextSender : Command REQ RESP).rpc = .other := by
    cases ask with
    | rpcRequest peer request => exact absurd rfl (hask peer request)
    | _ => rfl
  rw [State.attempt, if_pos hrunning]
  refine ⟨hp.pending, ?_, congrArg (· + 1) hp.nextSender, hp.issued, hp.reported, hp.sent, ?_⟩
  · simp [State.dispatch, hp.commands, hrpc]
  · exact shows_update_left hp.callers
      (shows_other hask (hp.callers i) (not_waiting_of_idle hidle))

/-- **A command** is handled on both sides. -/
theorem Projects.handles (hp : Projects s r) (h : Undisturbed s) {swarm : Swarm}
    (hfresh : s.Fresh (.handleCommand swarm)) {command : Command REQ RESP}
    {commands : List (Command REQ RESP)} (hcommands : s.commands = command :: commands)
    (hhandles : Handles s swarm commands command s') :
    ∃ r', Lts.Run Rpc.State.step Rpc.State.Fresh r [.handleCommand swarm.sendRequest] r' ∧
      Projects s' r' := by
  have hnew : r.Fresh (.handleCommand swarm.sendRequest) := by
    show swarm.sendRequest ∉ r.issued.map Prod.fst
    rw [hp.issued]
    exact mem_rpcIssued hfresh.1
  have hqueue : r.commands = command.rpc :: commands.map Command.rpc := by
    rw [hp.commands, hcommands, List.map_cons]
  -- a command that is no request leaves the map alone
  have hother : command.rpc = .other → r.step (.handleCommand swarm.sendRequest) =
      some { r with commands := commands.map Command.rpc } := by
    intro hrpc
    simp only [Rpc.State.step, hqueue, hrpc]
    rfl
  cases hhandles with
  | respond response channel =>
      exact ⟨_, .single hnew (hother rfl), hp.pending, rfl, hp.nextSender, hp.issued,
        hp.reported, hp.sent, hp.callers⟩
  | panic ask sender hclosed =>
      rw [h.intact.closed] at hclosed
      cases hclosed
  | answer ask sender reply htag hreply hopen =>
      have hrpc : (Command.ask ask sender : Command REQ RESP).rpc = .other := by
        cases ask with
        | rpcRequest peer request => cases htag
        | _ => rfl
      refine ⟨_, .single hnew (hother hrpc), hp.pending, rfl, hp.nextSender, hp.issued,
        hp.reported, ?_, hp.callers⟩
      show r.sent = ((sender, reply) :: s.sent).filterMap rpcSent?
      rw [List.filterMap_cons_none (by simp [rpcSent?, hreply]), hp.sent]
  | keep ask sender htag =>
      cases ask with
      | rpcRequest peer request =>
          have hstep : r.step (.handleCommand swarm.sendRequest) = some { r with
              eventLoop := ⟨r.eventLoop.pendingRpcRequests.set swarm.sendRequest sender⟩
              commands := commands.map Command.rpc
              issued := (swarm.sendRequest, sender) :: r.issued } := by
            simp only [Rpc.State.step, hqueue]
            rfl
          refine ⟨_, .single hnew hstep, ?_, rfl, hp.nextSender, ?_, hp.reported, hp.sent,
            hp.callers⟩
          · simp only [hp.pending]
            rfl
          · simp only [hp.issued]
            rfl
      | listen address =>
          cases hlisten : swarm.listenOn address with
          | error e => exact absurd (by simp only [Ask.tag, hlisten]) (htag s.handled)
          | ok listenerId =>
              have hkept : (Ask.listen address : Ask REQ).tag swarm s.handled =
                  .listener listenerId := by simp only [Ask.tag, hlisten]
              rw [hkept]
              exact ⟨_, .single hnew (hother rfl), hp.pending, rfl, hp.nextSender, hp.issued,
                hp.reported, hp.sent, hp.callers⟩
      | _ => exact absurd rfl (htag s.handled)

theorem report_rpc {event : SwarmEvent REQ RESP} {tag : Tag} {reply : Reply RESP}
    (h : event.report? = some (tag, reply)) :
    (∃ requestId outcome, tag = .rpc requestId ∧ rpcOutcome? reply = some outcome ∧
      event.rpc.report? = some (requestId, outcome)) ∨
    ∃ listenerId, tag = .listener listenerId ∧ rpcOutcome? reply = none ∧ event.rpc = .other := by
  cases event with
  | newListenAddr address listenerId => cases h; exact .inr ⟨listenerId, rfl, rfl, rfl⟩
  | response requestId resp => cases h; exact .inl ⟨requestId, _, rfl, rfl, rfl⟩
  | outboundFailure requestId error => cases h; exact .inl ⟨requestId, _, rfl, rfl, rfl⟩
  | _ => cases h

theorem step_of_report {event : Rpc.SwarmEvent RESP} {requestId : RequestId}
    {outcome : Except Rpc.Error RESP} (h : event.report? = some (requestId, outcome)) :
    r.step (.handleSwarmEvent event) = some { r with
      eventLoop := (r.eventLoop.complete requestId outcome).1
      reported := (requestId, outcome) :: r.reported
      sent := (r.eventLoop.complete requestId outcome).2.toList ++ r.sent } := by
  cases event with
  | response requestId' resp => cases h; rfl
  | outboundFailure requestId' error => cases h; rfl
  | other => cases h

/-- **An event** is one on both sides. -/
theorem Projects.observes (hp : Projects s r) (h : Undisturbed s) {event : SwarmEvent REQ RESP}
    (hobserves : Observes s event s') :
    ∃ r', Lts.Run Rpc.State.step Rpc.State.Fresh r [.handleSwarmEvent event.rpc] r' ∧
      Projects s' r' := by
  have hfresh : r.Fresh (.handleSwarmEvent event.rpc) := trivial
  have hother : event.rpc = .other → r.step (.handleSwarmEvent event.rpc) = some r := by
    intro hrpc
    rw [hrpc]
    rfl
  have hpending : ∀ requestId, r.eventLoop.pendingRpcRequests.get? requestId =
      s.eventLoop.waiting (.rpc requestId) := by
    intro requestId
    rw [hp.pending]
    rfl
  cases hobserves with
  | ignore hreport hforward =>
      have hrpc : event.rpc = .other := by
        cases event with
        | response requestId resp => cases hreport
        | outboundFailure requestId error => cases hreport
        | _ => rfl
      exact ⟨r, .single hfresh (hother hrpc), hp.pending, hp.commands, hp.nextSender, hp.issued,
        hp.reported, hp.sent, hp.callers⟩
  | panic hreport hwaiting hclosed =>
      rw [h.intact.closed] at hclosed
      cases hclosed
  | @unknown events status tag reply hreport hwaiting hforward =>
      rcases report_rpc hreport with ⟨requestId, outcome, rfl, hout, hrpc⟩ |
        ⟨listenerId, rfl, hout, hrpc⟩
      · have hnone : r.eventLoop.complete requestId outcome = (r.eventLoop, none) := by
          simp only [Rpc.NetworkEventLoop.complete, hpending, hwaiting]
        refine ⟨_, .single hfresh (step_of_report hrpc), ?_, hp.commands, hp.nextSender,
          hp.issued, ?_, ?_, hp.callers⟩
        · rw [hnone]
          exact hp.pending
        · rw [List.filterMap_cons_some (b := (requestId, outcome)) (by simp [rpcReported?, hout]),
            hp.reported]
        · rw [hnone]
          exact hp.sent
      · refine ⟨r, .single hfresh (hother hrpc), hp.pending, hp.commands, hp.nextSender,
          hp.issued, ?_, hp.sent, hp.callers⟩
        rw [List.filterMap_cons_none rfl, hp.reported]
  | @complete events status tag reply sender hreport hwaiting hopen hforward =>
      rcases report_rpc hreport with ⟨requestId, outcome, rfl, hout, hrpc⟩ |
        ⟨listenerId, rfl, hout, hrpc⟩
      · have hsome : r.eventLoop.complete requestId outcome =
            (⟨r.eventLoop.pendingRpcRequests.erase requestId⟩, some (sender, outcome)) := by
          simp only [Rpc.NetworkEventLoop.complete, hpending, hwaiting]
        refine ⟨_, .single hfresh (step_of_report hrpc), ?_, hp.commands, hp.nextSender,
          hp.issued, ?_, ?_, hp.callers⟩
        · rw [hsome, hp.pending]
          rfl
        · rw [List.filterMap_cons_some (b := (requestId, outcome)) (by simp [rpcReported?, hout]),
            hp.reported]
        · rw [hsome, List.filterMap_cons_some (b := (sender, outcome)) (by simp [rpcSent?, hout]),
            hp.sent]
          rfl
      · refine ⟨r, .single hfresh (hother hrpc), hp.pending, hp.commands, hp.nextSender,
          hp.issued, ?_, ?_, hp.callers⟩
        · rw [List.filterMap_cons_none rfl, hp.reported]
        · rw [List.filterMap_cons_none (by simp [rpcSent?, hout]), hp.sent]

/-- **A failed request is tried again** on both sides. -/
theorem Projects.retries (hp : Projects s r) (h : Undisturbed s) {i : Nat}
    {caller : Caller REQ RESP} {error : Error} {retries : Nat} (hi : s.callers i = some caller)
    (hout : s.outcome? caller.phase = some (.error error))
    (hretries : caller.retries = retries + 1) :
    ∃ r', r.step (.wake i) = some r' ∧ Projects (s.attempt i caller.ask retries) r' := by
  obtain ⟨ask, retries', phase⟩ := caller
  obtain rfl : retries' = retries + 1 := hretries
  obtain ⟨peer, request, rfl⟩ : ∃ peer request, ask = .rpcRequest peer request :=
    h.retrying i _ hi (by simp)
  obtain ⟨sender, rfl, hreceived⟩ : ∃ sender, phase = .waiting sender ∧
    s.received sender = some (.error error) := h.received hi hout
  obtain ⟨outcome, hoc, hin⟩ := h.outcome hp hi hreceived
  obtain ⟨attempts, hr⟩ := (hp.callers i).waiting _ _ _ _ hi
  obtain ⟨error', rfl⟩ : ∃ error', outcome = .error error' := by
    cases error with
    | outboundFailure e => exact ⟨_, (Option.some.inj hoc).symm⟩
    | _ => cases hoc
  have hstep : r.step (.wake i) =
      some (r.attempt i ⟨peer, request, retries, sender :: attempts, none⟩) := by
    simp only [Rpc.State.step, Rpc.State.wake, hr, hin]
  exact ⟨_, hstep, hp.request h.running i peer request retries _⟩

theorem Projects.update (hp : Projects s r) {i : Nat} {caller : Option (Caller REQ RESP)}
    {callers' : Nat → Option (Rpc.Caller PeerId REQ RESP)}
    (hshows : ∀ j, Shows (Function.update s.callers i caller j) (callers' j)) :
    Projects { s with callers := Function.update s.callers i caller }
      { r with callers := callers' } :=
  ⟨hp.pending, hp.commands, hp.nextSender, hp.issued, hp.reported, hp.sent, hshows⟩

/-- **A request returns** on both sides. -/
theorem Projects.returns (hp : Projects s r) (h : Undisturbed s) {i : Nat} {peer : PeerId}
    {request : REQ} {retries : Nat} {sender : Sender} {reply : Reply RESP}
    (hi : s.callers i = some ⟨.rpcRequest peer request, retries, .waiting sender⟩)
    (hreceived : s.received sender = some reply)
    (hlast : ∀ error, reply = .error error → retries = 0) :
    ∃ r', r.step (.wake i) = some r' ∧ Projects { s with
      callers := Function.update s.callers i
        (some ⟨.rpcRequest peer request, retries, .done reply⟩) } r' := by
  obtain ⟨outcome, hoc, hin⟩ := h.outcome hp hi hreceived
  obtain ⟨attempts, hr⟩ := (hp.callers i).waiting _ _ _ _ hi
  have hstep : r.step (.wake i) = some { r with
      callers := Function.update r.callers i
        (some ⟨peer, request, retries, sender :: attempts, some outcome⟩) } := by
    cases outcome with
    | ok resp => simp only [Rpc.State.step, Rpc.State.wake, hr, hin]
    | error e =>
        -- it was the last attempt
        obtain ⟨error, rfl⟩ : ∃ error, reply = .error error := by
          rcases reply with error | answer
          · exact ⟨error, rfl⟩
          · cases answer <;> cases hoc
        obtain rfl : retries = 0 := hlast error rfl
        simp only [Rpc.State.step, Rpc.State.wake, hr, hin]
  exact ⟨_, hstep, hp.update (shows_update hp.callers (shows_done hoc _))⟩

/-- **A task goes on** on both sides, if it is a request it waits for. -/
theorem Projects.wakes (hp : Projects s r) (h : Undisturbed s) {i : Nat}
    (hdoes : Does s (.wake i) s') :
    ∃ bs r', Lts.Run Rpc.State.step Rpc.State.Fresh r bs r' ∧ Projects s' r' := by
  have hfresh : r.Fresh (.wake i) := trivial
  cases hdoes with
  | retry hi hout hretries =>
      obtain ⟨r', hstep, hp'⟩ := hp.retries h hi hout hretries
      exact ⟨_, r', .single hfresh hstep, hp'⟩
  | @finish i caller reply hi hout hlast =>
      obtain ⟨ask, retries, phase⟩ := caller
      obtain ⟨sender, rfl, hreceived⟩ : ∃ sender, phase = .waiting sender ∧
        s.received sender = some reply := h.received hi hout
      by_cases hask : ∃ peer request, ask = .rpcRequest peer request
      · obtain ⟨peer, request, rfl⟩ := hask
        obtain ⟨r', hstep, hp'⟩ := hp.returns h hi hreceived hlast
        exact ⟨_, r', .single hfresh hstep, hp'⟩
      · -- the smaller system knows nothing of it
        have hask' : ∀ peer request, ask ≠ .rpcRequest peer request :=
          fun peer request heq => hask ⟨peer, request, heq⟩
        refine ⟨[], r, .nil r, hp.update (shows_update_left hp.callers ?_)⟩
        refine shows_other hask' (hp.callers i) ?_
        intro peer request retries' sender' heq
        rw [hi] at heq
        cases heq
        exact hask' peer request rfl

/-- **One step** of the whole loop is at most one of the smaller system. -/
theorem Projects.step (hp : Projects s r) (h : Undisturbed s) {a : Action REQ RESP}
    (hquiet : Quiet s a) (hs : s.step a = some s') :
    ∃ bs r', Lts.Run Rpc.State.step Rpc.State.Fresh r bs r' ∧ Projects s' r' := by
  have hdoes := does_of_step hs
  cases a with
  | call i ask =>
      cases hdoes with
      | call _ _ hidle =>
          by_cases hask : ∃ peer request, ask = .rpcRequest peer request
          · obtain ⟨peer, request, rfl⟩ := hask
            have hfresh : r.Fresh (.rpcRequest i peer request) := trivial
            have hcall : r.step (.rpcRequest i peer request) =
                some (r.attempt i ⟨peer, request, 0, [], none⟩) :=
              call_of_idle ((hp.callers i).idle (not_waiting_of_idle hidle))
            exact ⟨_, _, .single hfresh hcall, hp.request h.running i peer request 0 []⟩
          · have hfresh : r.Fresh (.other 1) := trivial
            refine ⟨_, _, .single hfresh rfl, hp.other h.running hidle ?_⟩
            exact fun peer request heq => hask ⟨peer, request, heq⟩
  | retryingRpcRequest i peer request =>
      cases hdoes with
      | retryingCall _ _ _ hidle =>
          have hfresh : r.Fresh (.retryingRpcRequest i peer request) := trivial
          have hcall : r.step (.retryingRpcRequest i peer request) =
              some (r.attempt i ⟨peer, request, maxRetries, [], none⟩) :=
            call_of_idle ((hp.callers i).idle (not_waiting_of_idle hidle))
          exact ⟨_, _, .single hfresh hcall, hp.request h.running i peer request maxRetries []⟩
  | rpcResponse response channel =>
      cases hdoes with
      | respond _ _ hrunning =>
          have hfresh : r.Fresh (.other 0) := trivial
          refine ⟨_, _, .single hfresh rfl, hp.pending, ?_, hp.nextSender, hp.issued, hp.reported,
            hp.sent, hp.callers⟩
          simp [hp.commands, Command.rpc]
      | refuse _ _ hended => exact absurd h.running hended
  | handleCommand swarm =>
      cases hdoes with
      | handle hrunning hcommands hhandles =>
          obtain ⟨r', hrun, hp'⟩ := hp.handles h hquiet.1 hcommands hhandles
          exact ⟨_, r', hrun, hp'⟩
  | handleSwarmEvent event =>
      cases hdoes with
      | observe hrunning hobserves =>
          obtain ⟨r', hrun, hp'⟩ := hp.observes h hobserves
          exact ⟨_, r', hrun, hp'⟩
  | wake i => exact hp.wakes h hdoes
  | cancel i => exact absurd rfl (hquiet.2.1.1 i)
  | closeEvents => exact absurd rfl hquiet.2.1.2
  | shutdown =>
      obtain rfl := Option.some.inj hs
      exact ⟨[], r, .nil r, hp.pending, hp.commands, hp.nextSender, hp.issued, hp.reported,
        hp.sent, hp.callers⟩
  | stop => exact absurd rfl hquiet.2.2

theorem projects_start (kademlia : Kademlia) (bootstrapPeers : List Multiaddr) :
    Projects (start kademlia bootstrapPeers : State REQ RESP) .initial where
  pending := rfl
  commands := rfl
  nextSender := rfl
  issued := rfl
  reported := rfl
  sent := rfl
  callers _ := ⟨fun _ _ _ _ h => (by cases h), fun _ _ _ _ h => (by cases h),
    fun _ _ h => by cases h⟩

/-- **What the whole loop does with requests is what the loop of requests does.**  To every run
of the one in which nobody goes away and the loop is not stopped there is one of the other that
has the same map and the same history of requests, and in which every task stands where it
does. -/
theorem State.rpc_of_loop {kademlia : Kademlia} {bootstrapPeers : List Multiaddr}
    (hboot : bootstrap kademlia bootstrapPeers = .ok ()) {as : List (Action REQ RESP)}
    (hrun : Lts.Run State.step Quiet (start kademlia bootstrapPeers) as s) :
    ∃ bs r, Lts.Run Rpc.State.step Rpc.State.Fresh .initial bs r ∧ Projects s r := by
  obtain ⟨bs, r, hruns, -, hp⟩ := hrun.simulate (fun s r => Undisturbed s ∧ Projects s r)
    (fun ⟨h, hp⟩ hquiet hs => by
      obtain ⟨bs, r', hruns, hp'⟩ := hp.step h hquiet hs
      exact ⟨bs, r', hruns, h.step hquiet (does_of_step hs), hp'⟩)
    ⟨undisturbed_start hboot, projects_start kademlia bootstrapPeers⟩
  exact ⟨bs, r, hruns, hp⟩

end Deqs.P2P.Loop
