/-
# The p2p event loop — RPC requests and their answers

A task that wants something of a peer sends the event loop a command with the sending half
of a channel and waits on the other half.  The loop passes the request to the swarm, which
gives it a request id, and keeps the sender under that id.  The swarm reports, some time
later and in any order, a response or a failure for an id; the loop takes the sender out
and sends it the outcome.  A report for an id that is not there is logged and dropped.

| action | what it is |
| :-- | :-- |
| `rpcRequest`, `retryingRpcRequest` | a task calls the client |
| `handleCommand` | the loop takes the next command; the swarm answers with a request id |
| `handleSwarmEvent` | the swarm reports something |
| `wake` | a task that waits finds something in its channel |
| `other` | something else is sent to the loop |

A request that is retried, 50 times at most, makes a new channel for each attempt.  All
tasks, all attempts and both kinds of report share the one map `pending_rpc_requests`.

**What comes from outside.**  The swarm gives each request an id of its own (`Fresh`); what
it reports is arbitrary, and may be late, repeated, or for an id it never gave.  Receivers
stay open.

The history of the map is that of `Correlation.Table`, and each step of the loop is one of
the operations there (`table_handleCommand`, `table_handleSwarmEvent`).  That the senders
are different is a matter of the tasks: `Sound` keeps track of where they all are.

    rpc_correlation       every sender is completed at most once, with what was reported for
                          its own request, and never with that of an earlier attempt

All else that the loop does is left out here.  That the whole loop, as long as it runs, is this
one where requests are concerned is `Loop.State.rpc_of_loop`.
-/
import Deqs.Lib.Correlation
import Deqs.Lib.Lts

namespace Deqs.P2P.Rpc

abbrev RequestId := Nat

/-- `oneshot::Sender`, by the number of the channel it belongs to. -/
abbrev Sender := Nat

/-- `client::Error`, as far as requests are concerned. -/
inductive Error where
  | channelSend
  | channelRecv
  | outboundFailure (error : String)
deriving DecidableEq

/-- `Command`; the commands that are no RPC requests do not touch their map. -/
inductive Command (PEER REQ : Type) where
  | rpcRequest (peer : PEER) (request : REQ) (responseSender : Sender)
  | other

/-- `SwarmEvent`; so with the events that are no answers. -/
inductive SwarmEvent (RESP : Type) where
  | response (requestId : RequestId) (response : RESP)
  | outboundFailure (requestId : RequestId) (error : String)
  | other

variable {PEER REQ RESP : Type}

def Command.responseSender? : Command PEER REQ → Option Sender
  | .rpcRequest _ _ responseSender => some responseSender
  | .other => none

def SwarmEvent.report? : SwarmEvent RESP → Option (RequestId × Except Error RESP)
  | .response requestId resp => some (requestId, .ok resp)
  | .outboundFailure requestId error => some (requestId, .error (.outboundFailure error))
  | .other => none

/-! ## The loop -/

structure NetworkEventLoop where
  pendingRpcRequests : AssocMap RequestId Sender

namespace NetworkEventLoop

/-- `handle_command`, where `send_request` returns `requestId`. -/
def handleCommand (eventLoop : NetworkEventLoop) (requestId : RequestId) :
    Command PEER REQ → NetworkEventLoop
  | .rpcRequest _ _ responseSender => ⟨eventLoop.pendingRpcRequests.set requestId responseSender⟩
  | .other => eventLoop

/-- Both arms of `handle_swarm_event`: the loop, and what is sent to whom. -/
def complete (eventLoop : NetworkEventLoop) (requestId : RequestId) (outcome : Except Error RESP) :
    NetworkEventLoop × Option (Sender × Except Error RESP) :=
  match eventLoop.pendingRpcRequests.get? requestId with
  | some sender => (⟨eventLoop.pendingRpcRequests.erase requestId⟩, some (sender, outcome))
  | none => (eventLoop, none)

def handleSwarmEvent (eventLoop : NetworkEventLoop) :
    SwarmEvent RESP → NetworkEventLoop × Option (Sender × Except Error RESP)
  | .response requestId resp => eventLoop.complete requestId (.ok resp)
  | .outboundFailure requestId error =>
      eventLoop.complete requestId (.error (.outboundFailure error))
  | .other => (eventLoop, none)

end NetworkEventLoop

/-! ## The tasks -/

/-- A task in `rpc_request` or `retrying_rpc_request`.  `attempts` are the channels it has
made, the newest first. -/
structure Caller (PEER REQ RESP : Type) where
  peer : PEER
  request : REQ
  retries : Nat
  attempts : List Sender
  result : Option (Except Error RESP)

/-- The number of delays of the retry strategy. -/
def maxRetries : Nat := 50

def inChannel {ρ : Type} (sent : List (Sender × ρ)) (sender : Sender) : Option ρ :=
  (sent.find? (fun e => e.1 = sender)).map Prod.snd

theorem mem_of_inChannel {ρ : Type} {sent : List (Sender × ρ)} {sender : Sender} {outcome : ρ}
    (h : inChannel sent sender = some outcome) : (sender, outcome) ∈ sent := by
  obtain ⟨⟨sender', outcome'⟩, hfind, rfl⟩ := Option.map_eq_some_iff.mp h
  obtain rfl : sender' = sender := by simpa using List.find?_some hfind
  exact List.mem_of_find?_eq_some hfind

theorem inChannel_of_mem {ρ : Type} {sent : List (Sender × ρ)} {sender : Sender}
    (h : sender ∈ sent.map Prod.fst) : ∃ outcome, inChannel sent sender = some outcome := by
  obtain ⟨x, hx, rfl⟩ := List.mem_map.mp h
  have hsome : (sent.find? (fun e => e.1 = x.1)).isSome :=
    List.find?_isSome.mpr ⟨x, hx, by simp⟩
  obtain ⟨e, he⟩ := Option.isSome_iff_exists.mp hsome
  exact ⟨e.2, by rw [inChannel, he]; rfl⟩

structure State (PEER REQ RESP : Type) where
  eventLoop : NetworkEventLoop
  commands : List (Command PEER REQ)
  callers : Nat → Option (Caller PEER REQ RESP)
  nextSender : Sender
  issued : List (RequestId × Sender)
  reported : List (RequestId × Except Error RESP)
  sent : List (Sender × Except Error RESP)

inductive Action (PEER REQ RESP : Type) where
  | rpcRequest (i : Nat) (peer : PEER) (request : REQ)
  | retryingRpcRequest (i : Nat) (peer : PEER) (request : REQ)
  | handleCommand (requestId : RequestId)
  | handleSwarmEvent (event : SwarmEvent RESP)
  | wake (i : Nat)
  /-- A command that is no request, with so many channels of its own. -/
  | other (channels : Nat)

namespace State

/-- `NetworkEventLoop::start`, and no one has called yet. -/
def initial : State PEER REQ RESP where
  eventLoop := ⟨.empty⟩
  commands := []
  callers := fun _ => none
  nextSender := 0
  issued := []
  reported := []
  sent := []

def attempt (s : State PEER REQ RESP) (i : Nat) (caller : Caller PEER REQ RESP) :
    State PEER REQ RESP :=
  { s with
    commands := s.commands ++ [.rpcRequest caller.peer caller.request s.nextSender]
    callers := Function.update s.callers i
      (some { caller with attempts := s.nextSender :: caller.attempts })
    nextSender := s.nextSender + 1 }

def call (s : State PEER REQ RESP) (i : Nat) (peer : PEER) (request : REQ) (retries : Nat) :
    Option (State PEER REQ RESP) :=
  match s.callers i with
  | some ⟨_, _, _, _, none⟩ => none
  | _ => some (s.attempt i ⟨peer, request, retries, [], none⟩)

def received (s : State PEER REQ RESP) (sender : Sender) : Option (Except Error RESP) :=
  inChannel s.sent sender

/-- A task goes on with what it received: it is done, or tries again. -/
def wake (s : State PEER REQ RESP) (i : Nat) : Option (State PEER REQ RESP) :=
  match s.callers i with
  | some ⟨peer, request, retries, sender :: attempts, none⟩ =>
      match s.received sender, retries with
      | none, _ => none
      | some (.error _), retries + 1 =>
          some (s.attempt i ⟨peer, request, retries, sender :: attempts, none⟩)
      | some outcome, retries =>
          some { s with
            callers := Function.update s.callers i
              (some ⟨peer, request, retries, sender :: attempts, some outcome⟩) }
  | _ => none

def step (s : State PEER REQ RESP) : Action PEER REQ RESP → Option (State PEER REQ RESP)
  | .rpcRequest i peer request => s.call i peer request 0
  | .retryingRpcRequest i peer request => s.call i peer request maxRetries
  | .handleCommand requestId =>
      match s.commands with
      | [] => none
      | command :: commands => some { s with
          eventLoop := s.eventLoop.handleCommand requestId command
          commands
          issued := (command.responseSender?.map (fun sender => (requestId, sender))).toList ++
            s.issued }
  | .handleSwarmEvent event =>
      let (eventLoop, completion) := s.eventLoop.handleSwarmEvent event
      some { s with
        eventLoop
        reported := event.report?.toList ++ s.reported
        sent := completion.toList ++ s.sent }
  | .wake i => s.wake i
  | .other channels => some { s with
      commands := s.commands ++ [.other]
      nextSender := s.nextSender + channels }

/-- The swarm gives no id twice. -/
def Fresh (s : State PEER REQ RESP) : Action PEER REQ RESP → Prop
  | .handleCommand requestId => requestId ∉ s.issued.map Prod.fst
  | _ => True

/-! ## What a step does -/

variable {s s' : State PEER REQ RESP} {i : Nat}

theorem call_some {peer : PEER} {request : REQ} {retries : Nat}
    (h : s.call i peer request retries = some s') :
    s' = s.attempt i ⟨peer, request, retries, [], none⟩ := by
  unfold call at h
  split at h
  · cases h
  · exact (Option.some.inj h).symm

/-- A task that wakes has the outcome of its newest attempt.  It tries again after an error,
if it may, and is done otherwise. -/
theorem wake_cases (h : s.wake i = some s') : ∃ caller sender attempts outcome,
    s.callers i = some caller ∧ caller.result = none ∧ caller.attempts = sender :: attempts ∧
    (sender, outcome) ∈ s.sent ∧
    ((∃ error retries, outcome = .error error ∧ caller.retries = retries + 1 ∧
        s' = s.attempt i { caller with retries := retries }) ∨
      s' = { s with callers :=
        Function.update s.callers i (some { caller with result := some outcome }) }) := by
  unfold wake at h
  split at h
  · next peer request retries sender attempts hi =>
      split at h
      · cases h
      · next error retries hreceived =>
          exact ⟨_, sender, attempts, .error error, hi, rfl, rfl, mem_of_inChannel hreceived,
            .inl ⟨error, retries, rfl, rfl, (Option.some.inj h).symm⟩⟩
      · next outcome hreceived _ =>
          exact ⟨_, sender, attempts, outcome, hi, rfl, rfl, mem_of_inChannel hreceived,
            .inr (Option.some.inj h).symm⟩
  · cases h

def table (s : State PEER REQ RESP) : Correlation.Table RequestId Sender (Except Error RESP) :=
  ⟨s.eventLoop.pendingRpcRequests, s.issued, s.reported, s.sent⟩

theorem complete_report (s : State PEER REQ RESP) (requestId : RequestId)
    (outcome : Except Error RESP) : s.table.report requestId outcome =
      ⟨(s.eventLoop.complete requestId outcome).1.pendingRpcRequests, s.issued,
        (requestId, outcome) :: s.reported,
        (s.eventLoop.complete requestId outcome).2.toList ++ s.sent⟩ := by
  unfold NetworkEventLoop.complete Correlation.Table.report
  simp only [table]
  cases s.eventLoop.pendingRpcRequests.get? requestId with
  | none => rfl
  | some sender => rfl

theorem table_handleSwarmEvent {event : SwarmEvent RESP}
    (h : s.step (.handleSwarmEvent event) = some s') : s'.commands = s.commands ∧
      s'.callers = s.callers ∧ s'.nextSender = s.nextSender ∧ s'.issued = s.issued ∧
      (s'.table = s.table ∨ ∃ requestId outcome, event.report? = some (requestId, outcome) ∧
        s'.table = s.table.report requestId outcome) := by
  obtain rfl := Option.some.inj h
  refine ⟨rfl, rfl, rfl, rfl, ?_⟩
  cases event with
  | response requestId resp =>
      exact .inr ⟨requestId, .ok resp, rfl, (s.complete_report requestId _).symm⟩
  | outboundFailure requestId error =>
      exact .inr ⟨requestId, _, rfl, (s.complete_report requestId _).symm⟩
  | other => exact .inl rfl

theorem handleCommand_cases {requestId : RequestId}
    (h : s.step (.handleCommand requestId) = some s') : ∃ command commands,
      s.commands = command :: commands ∧ s'.commands = commands ∧ s'.callers = s.callers ∧
      s'.nextSender = s.nextSender ∧
      (command.responseSender? = none ∧ s'.table = s.table ∨
        ∃ sender, command.responseSender? = some sender ∧
          s'.table = s.table.issue requestId sender) := by
  simp only [step] at h
  split at h
  · cases h
  · next command commands hcommands =>
      obtain rfl := Option.some.inj h
      refine ⟨command, commands, hcommands, rfl, rfl, rfl, ?_⟩
      cases command with
      | rpcRequest peer request responseSender => exact .inr ⟨responseSender, rfl, rfl⟩
      | other => exact .inl ⟨rfl, rfl⟩

end State

/-! ## Where the senders are -/

/-- A task has made a new channel for each attempt, and not too many of them; its earlier
attempts have failed, and its result is what the newest one was given. -/
structure Caller.Sound (nextSender : Sender) (sent : List (Sender × Except Error RESP))
    (caller : Caller PEER REQ RESP) : Prop where
  nodup : caller.attempts.Nodup
  budget : caller.attempts.length + caller.retries ≤ maxRetries + 1
  below : ∀ sender ∈ caller.attempts, sender < nextSender
  failed : ∀ sender ∈ caller.attempts.tail, ∃ error, (sender, .error error) ∈ sent
  result : ∀ outcome, caller.result = some outcome →
    ∃ sender attempts, caller.attempts = sender :: attempts ∧ (sender, outcome) ∈ sent

theorem Caller.Sound.mono {n n' : Sender} {sent sent' : List (Sender × Except Error RESP)}
    {caller : Caller PEER REQ RESP} (h : caller.Sound n sent) (hn : n ≤ n')
    (hsent : sent ⊆ sent') : caller.Sound n' sent' where
  nodup := h.nodup
  budget := h.budget
  below sender hmem := Nat.lt_of_lt_of_le (h.below sender hmem) hn
  failed sender hmem := by
    obtain ⟨error, herror⟩ := h.failed sender hmem
    exact ⟨error, hsent herror⟩
  result outcome hresult := by
    obtain ⟨sender, attempts, heq, hmem⟩ := h.result outcome hresult
    exact ⟨sender, attempts, heq, hsent hmem⟩

namespace State

variable {s s' : State PEER REQ RESP}

/-- The senders on their way to the loop, and those that have come there. -/
def senders (s : State PEER REQ RESP) : List Sender :=
  s.commands.filterMap Command.responseSender? ++ s.issued.map Prod.snd

structure Sound (s : State PEER REQ RESP) : Prop where
  table : s.table.Correlated
  nodup : s.senders.Nodup
  below : ∀ sender ∈ s.senders, sender < s.nextSender
  callers : ∀ i caller, s.callers i = some caller → caller.Sound s.nextSender s.sent

theorem sound_initial : Sound (initial : State PEER REQ RESP) where
  table := .empty
  nodup := List.nodup_nil
  below _ h := absurd h List.not_mem_nil
  callers _ _ h := by cases h

theorem callers_update {i : Nat} {caller : Caller PEER REQ RESP} {n n' : Sender}
    {sent : List (Sender × Except Error RESP)} (hn : n ≤ n')
    (h : ∀ i caller, s.callers i = some caller → caller.Sound n sent)
    (hcaller : caller.Sound n' sent) : ∀ j caller',
    Function.update s.callers i (some caller) j = some caller' → caller'.Sound n' sent := by
  intro j caller' hj
  by_cases heq : j = i
  · subst heq
    rw [Function.update_self] at hj
    exact Option.some.inj hj ▸ hcaller
  · rw [Function.update_of_ne heq] at hj
    exact (h j caller' hj).mono hn (List.Subset.refl _)

theorem Sound.attempt (h : Sound s) (i : Nat) {caller : Caller PEER REQ RESP}
    (hnodup : caller.attempts.Nodup)
    (hbudget : caller.attempts.length + 1 + caller.retries ≤ maxRetries + 1)
    (hbelow : ∀ sender ∈ caller.attempts, sender < s.nextSender)
    (hfailed : ∀ sender ∈ caller.attempts, ∃ error, (sender, .error error) ∈ s.sent)
    (hresult : caller.result = none) : Sound (s.attempt i caller) := by
  have hsenders : (s.attempt i caller).senders.Perm (s.nextSender :: s.senders) := by
    simp only [senders, State.attempt, List.filterMap_append, List.append_assoc]
    exact List.perm_middle
  refine ⟨h.table, ?_, ?_, ?_⟩
  · rw [hsenders.nodup_iff]
    exact List.nodup_cons.mpr ⟨fun hmem => Nat.lt_irrefl _ (h.below _ hmem), h.nodup⟩
  · intro sender hmem
    rcases List.mem_cons.mp (hsenders.mem_iff.mp hmem) with rfl | hmem
    · exact Nat.lt_succ_self _
    · exact Nat.lt_succ_of_lt (h.below sender hmem)
  · refine callers_update (Nat.le_succ _) h.callers ⟨?_, hbudget, ?_, hfailed, ?_⟩
    · exact List.nodup_cons.mpr ⟨fun hmem => Nat.lt_irrefl _ (hbelow _ hmem), hnodup⟩
    · intro sender hmem
      rcases List.mem_cons.mp hmem with rfl | hmem
      · exact Nat.lt_succ_self _
      · exact Nat.lt_succ_of_lt (hbelow sender hmem)
    · intro outcome houtcome
      rw [show _ = _ from hresult] at houtcome
      cases houtcome

/-- What is sent: nothing, or what an event reports, to the sender of the request that it
reports it for. -/
theorem sent_of_step (hs : Sound s) {a : Action PEER REQ RESP} (h : s.step a = some s') :
    s'.sent = s.sent ∨ ∃ event requestId sender outcome, a = .handleSwarmEvent event ∧
      event.report? = some (requestId, outcome) ∧ (requestId, sender) ∈ s.issued ∧
      s'.sent = (sender, outcome) :: s.sent := by
  cases a with
  | rpcRequest i peer request => rw [call_some h]; exact .inl rfl
  | retryingRpcRequest i peer request => rw [call_some h]; exact .inl rfl
  | other channels => obtain rfl := Option.some.inj h; exact .inl rfl
  | wake i =>
      obtain ⟨caller, sender, attempts, outcome, -, -, -, -, ⟨error, retries, -, -, rfl⟩ | rfl⟩ :=
        wake_cases h
      · exact .inl rfl
      · exact .inl rfl
  | handleCommand requestId =>
      obtain ⟨command, commands, -, -, -, -, ⟨-, htable⟩ | ⟨sender, -, htable⟩⟩ :=
        handleCommand_cases h
      · exact .inl (congrArg Correlation.Table.completed htable)
      · exact .inl (congrArg Correlation.Table.completed htable)
  | handleSwarmEvent event =>
      obtain ⟨-, -, -, -, htable | ⟨requestId, outcome, hreport, htable⟩⟩ :=
        table_handleSwarmEvent h
      · exact .inl (congrArg Correlation.Table.completed htable)
      · have hsent : s'.sent = (s.table.report requestId outcome).completed :=
          congrArg Correlation.Table.completed htable
        rcases s.table.completed_report requestId outcome with heq | ⟨sender, hget, heq⟩
        · exact .inl (hsent.trans heq)
        · exact .inr ⟨event, requestId, sender, outcome, rfl, hreport,
            ((hs.table.pending requestId sender).mp hget).1, hsent.trans heq⟩

theorem Sound.wake (h : Sound s) {i : Nat} (hstep : s.wake i = some s') : Sound s' := by
  obtain ⟨caller, sender, attempts, outcome, hi, hresult, hattempts, hmem, hcase⟩ :=
    wake_cases hstep
  have hcaller := h.callers i caller hi
  rcases hcase with ⟨error, retries, rfl, hretries, rfl⟩ | rfl
  · have hbudget := hcaller.budget
    refine h.attempt i hcaller.nodup (by simp only; omega) hcaller.below ?_ hresult
    -- the newest attempt has failed just now, the others before
    intro sender' hsender'
    rw [show _ = _ from hattempts] at hsender'
    rcases List.mem_cons.mp hsender' with rfl | htail
    · exact ⟨error, hmem⟩
    · exact hcaller.failed sender' (by rw [hattempts]; exact htail)
  · refine ⟨h.table, h.nodup, h.below, callers_update (Nat.le_refl _) h.callers ?_⟩
    refine ⟨hcaller.nodup, hcaller.budget, hcaller.below, hcaller.failed, ?_⟩
    intro outcome' houtcome'
    obtain rfl := Option.some.inj houtcome'
    exact ⟨sender, attempts, hattempts, hmem⟩

theorem Sound.handleCommand (h : Sound s) {requestId : RequestId}
    (hfresh : requestId ∉ s.issued.map Prod.fst)
    (hstep : s.step (.handleCommand requestId) = some s') : Sound s' := by
  obtain ⟨command, commands, hcommands, hcommands', hcallers, hnext, hcase⟩ :=
    handleCommand_cases hstep
  have hsenders : s.senders =
      (command :: commands).filterMap Command.responseSender? ++ s.issued.map Prod.snd := by
    rw [senders, hcommands]
  have hsame : s'.senders.Perm s.senders ∧ s'.sent = s.sent ∧ s'.table.Correlated := by
    rcases hcase with ⟨hnone, htable⟩ | ⟨sender, hsome, htable⟩
    · have hissued : s'.issued = s.issued := congrArg Correlation.Table.issued htable
      refine ⟨?_, congrArg Correlation.Table.completed htable, by rw [htable]; exact h.table⟩
      rw [hsenders, List.filterMap_cons_none hnone, senders, hcommands', hissued]
    · have hissued : s'.issued = (requestId, sender) :: s.issued :=
        congrArg Correlation.Table.issued htable
      have hperm : s'.senders.Perm s.senders := by
        rw [hsenders, List.filterMap_cons_some hsome, senders, hcommands', hissued, List.map_cons]
        exact List.perm_middle
      refine ⟨hperm, congrArg Correlation.Table.completed htable, ?_⟩
      rw [htable]
      refine h.table.issue hfresh ?_
      have hnodup := h.nodup
      rw [hsenders, List.filterMap_cons_some hsome, List.cons_append] at hnodup
      exact fun hmem => (List.nodup_cons.mp hnodup).1 (List.mem_append_right _ hmem)
  obtain ⟨hperm, hsent, htable⟩ := hsame
  refine ⟨htable, hperm.nodup_iff.mpr h.nodup, ?_, ?_⟩
  · intro sender hmem
    rw [hnext]
    exact h.below sender (hperm.mem_iff.mp hmem)
  · rw [hcallers, hnext, hsent]
    exact h.callers

theorem Sound.handleSwarmEvent (h : Sound s) {event : SwarmEvent RESP}
    (hstep : s.step (.handleSwarmEvent event) = some s') : Sound s' := by
  have hsubset : s.sent ⊆ s'.sent := by
    rcases sent_of_step h hstep with heq | ⟨_, _, _, _, -, -, -, heq⟩
    · rw [heq]
      exact List.Subset.refl _
    · rw [heq]
      exact List.subset_cons_self _ _
  obtain ⟨hcommands, hcallers, hnext, hissued, hcase⟩ := table_handleSwarmEvent hstep
  have hsenders : s'.senders = s.senders := by rw [senders, senders, hcommands, hissued]
  refine ⟨?_, by rw [hsenders]; exact h.nodup, by rw [hsenders, hnext]; exact h.below, ?_⟩
  · rcases hcase with htable | ⟨requestId, outcome, -, htable⟩
    · rw [htable]
      exact h.table
    · rw [htable]
      exact h.table.report requestId outcome
  · intro i caller hi
    rw [hcallers] at hi
    exact (h.callers i caller hi).mono (Nat.le_of_eq hnext.symm) hsubset

theorem Sound.other (h : Sound s) (channels : Nat) : Sound { s with
    commands := s.commands ++ [.other], nextSender := s.nextSender + channels } := by
  have hsenders : State.senders { s with
      commands := s.commands ++ [.other], nextSender := s.nextSender + channels } =
        s.senders := by
    simp [senders, Command.responseSender?]
  refine ⟨h.table, hsenders ▸ h.nodup, ?_, ?_⟩
  · intro sender hmem
    exact Nat.lt_add_right _ (h.below sender (hsenders ▸ hmem))
  · intro i caller hi
    exact (h.callers i caller hi).mono (Nat.le_add_right _ _) (List.Subset.refl _)

theorem Sound.step (h : Sound s) {a : Action PEER REQ RESP} (hfresh : Fresh s a)
    (hstep : s.step a = some s') : Sound s' := by
  have hcall : ∀ {i peer request retries}, retries ≤ maxRetries →
      s.call i peer request retries = some s' → Sound s' := by
    intro i peer request retries hretries hcall
    rw [call_some hcall]
    exact h.attempt i List.nodup_nil (by simp only [List.length_nil]; omega)
      (fun _ hmem => absurd hmem List.not_mem_nil) (fun _ hmem => absurd hmem List.not_mem_nil) rfl
  cases a with
  | rpcRequest i peer request => exact hcall (Nat.zero_le _) hstep
  | retryingRpcRequest i peer request => exact hcall (Nat.le_refl _) hstep
  | handleCommand requestId => exact h.handleCommand hfresh hstep
  | handleSwarmEvent event => exact h.handleSwarmEvent hstep
  | wake i => exact h.wake hstep
  | other channels => exact Option.some.inj hstep ▸ h.other channels

/-- **RPC correlation.**  In every run, whatever the swarm reports and in which order: no
sender is completed twice; a sender is completed by the report for the request it was
issued with, and there is one such request; the attempts of a task, 51 at most, have
different channels, hence different requests, each is made after the one before it has
failed, and the task's result is what the newest was given; and the map holds exactly the
senders that were issued and not completed. -/
theorem rpc_correlation {as : List (Action PEER REQ RESP)} {s : State PEER REQ RESP}
    (hrun : Lts.Run State.step Fresh initial as s) :
    (s.sent.map Prod.fst).Nodup ∧
    (∀ sender outcome, (sender, outcome) ∈ s.sent → ∃ requestId,
      (requestId, sender) ∈ s.issued ∧ (requestId, outcome) ∈ s.reported ∧
      ∀ requestId', (requestId', sender) ∈ s.issued → requestId' = requestId) ∧
    (∀ a s', s.step a = some s' → s'.sent = s.sent ∨
      ∃ event requestId sender outcome, a = .handleSwarmEvent event ∧
        event.report? = some (requestId, outcome) ∧ (requestId, sender) ∈ s.issued ∧
        s'.sent = (sender, outcome) :: s.sent) ∧
    (∀ i caller, s.callers i = some caller →
      (∀ sender ∈ caller.attempts, ∀ sender' ∈ caller.attempts, ∀ requestId,
        (requestId, sender) ∈ s.issued → (requestId, sender') ∈ s.issued → sender = sender') ∧
      caller.attempts.Nodup ∧ caller.attempts.length ≤ maxRetries + 1 ∧
      (∀ sender ∈ caller.attempts.tail, ∃ error, (sender, .error error) ∈ s.sent) ∧
      ∀ outcome, caller.result = some outcome → ∃ sender attempts,
        caller.attempts = sender :: attempts ∧ (sender, outcome) ∈ s.sent) ∧
    ∀ requestId sender, s.eventLoop.pendingRpcRequests.get? requestId = some sender ↔
      (requestId, sender) ∈ s.issued ∧ sender ∉ s.sent.map Prod.fst := by
  have hsound : Sound s := hrun.inv Sound (fun h hg hs => h.step hg hs) sound_initial
  refine ⟨hsound.table.once, ?_, fun a s' h => sent_of_step hsound h, ?_, hsound.table.pending⟩
  · intro sender outcome hmem
    obtain ⟨requestId, hissued, hreported⟩ := hsound.table.own sender outcome hmem
    exact ⟨requestId, hissued, hreported, fun _ h => hsound.table.tag_eq h hissued⟩
  · intro i caller hi
    have hcaller := hsound.callers i caller hi
    refine ⟨?_, hcaller.nodup, Nat.le_trans (Nat.le_add_right _ _) hcaller.budget,
      hcaller.failed, hcaller.result⟩
    intro sender _ sender' _ requestId hissued hissued'
    exact hsound.table.waiter_eq hissued hissued'

/-- A request fails and is tried again; then the first one is answered after all, the second
one as well, and a third answer comes for neither. -/
def lateAnswer : List (Action Unit Unit Nat) :=
  [.retryingRpcRequest 0 () (), .handleCommand 7,
    .handleSwarmEvent (.outboundFailure 7 "timeout"), .wake 0, .handleCommand 8,
    .handleSwarmEvent (.response 7 1), .handleSwarmEvent (.response 8 2),
    .handleSwarmEvent (.response 8 3), .handleSwarmEvent (.response 9 4), .wake 0]

/-- The task gets the answer to its second request, and no one waits any more. -/
theorem lateAnswer_correlated : ∃ s : State Unit Unit Nat,
    Lts.Run State.step Fresh initial lateAnswer s ∧
    s.callers 0 = some ⟨(), (), 49, [1, 0], some (.ok 2)⟩ ∧
    (s.sent.map Prod.fst).Nodup ∧
    ∀ requestId sender, s.eventLoop.pendingRpcRequests.get? requestId = some sender ↔
      (requestId, sender) ∈ s.issued ∧ sender ∉ s.sent.map Prod.fst := by
  have hrun : ∃ s : State Unit Unit Nat, Lts.Run State.step Fresh initial lateAnswer s ∧
      s.callers 0 = some ⟨(), (), 49, [1, 0], some (.ok 2)⟩ :=
    ⟨_, .cons trivial rfl (.cons List.not_mem_nil rfl (.cons trivial rfl (.cons trivial rfl
      (.cons (show 8 ∉ [7] by decide) rfl (.cons trivial rfl (.cons trivial rfl
      (.cons trivial rfl (.cons trivial rfl (.cons trivial rfl (.nil _)))))))))), rfl⟩
  obtain ⟨s, hrun, hcaller⟩ := hrun
  obtain ⟨honce, -, -, -, hpending⟩ := rpc_correlation hrun
  exact ⟨s, hrun, hcaller, honce, hpending⟩

end State

end Deqs.P2P.Rpc
