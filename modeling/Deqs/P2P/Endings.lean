/-
# How the loop ends

Every send of the loop is expected to find its receiver, so the loop depends on the tasks that
call it as they depend on the loop.

    ended_calls_return           when the loop has ended, nobody waits any longer
    cancelled_call_ends_loop     one task that goes away ends the loop for all
    loop_runs_on                 where nobody goes away the loop does not panic
-/
import Deqs.P2P.Calls

namespace Deqs.P2P.Loop

open Rpc (RequestId Sender maxRetries)

variable {REQ RESP : Type}

namespace State

variable {s s' : State REQ RESP}

/-! ## When the loop has ended -/

theorem callers_attempt (i : Nat) (ask : Ask REQ) (retries : Nat) {j : Nat} (hj : i ≠ j) :
    (s.attempt i ask retries).callers j = s.callers j := by
  unfold attempt
  split
  · exact Function.update_of_ne (Ne.symm hj) _ _
  · exact Function.update_of_ne (Ne.symm hj) _ _

theorem status_attempt (i : Nat) (ask : Ask REQ) (retries : Nat) :
    (s.attempt i ask retries).status = s.status := by
  unfold attempt
  split
  · rfl
  · rfl

theorem Does.callers_eq {a : Action REQ RESP} (h : Does s a s') {i : Nat}
    (hi : a.task? ≠ some i) : s'.callers i = s.callers i := by
  cases h with
  | call j ask hidle => exact callers_attempt j ask 0 (fun heq => hi (congrArg some heq))
  | retryingCall j peer request hidle =>
      exact callers_attempt j _ _ (fun heq => hi (congrArg some heq))
  | retry hj hout hretries => exact callers_attempt _ _ _ (fun heq => hi (congrArg some heq))
  | finish hj hout => exact Function.update_of_ne (fun heq => hi (congrArg some heq.symm)) _ _
  | cancel hj hclosed => exact Function.update_of_ne (fun heq => hi (congrArg some heq.symm)) _ _
  | handle hrunning hcommands hhandles => cases hhandles <;> rfl
  | observe hrunning hobserves => cases hobserves <;> rfl
  | respond response channel hrunning => rfl
  | refuse response channel hended => rfl
  | closeEvents => rfl
  | shutdown => rfl
  | stop hrunning => rfl

theorem Does.ended {a : Action REQ RESP} (h : Does s a s') (hended : s.status ≠ .running) :
    s'.status ≠ .running := by
  cases h with
  | call i ask hidle => rwa [status_attempt]
  | retryingCall i peer request hidle => rwa [status_attempt]
  | retry hi hout hretries => rwa [status_attempt]
  | handle hrunning hcommands hhandles => exact absurd hrunning hended
  | observe hrunning hobserves => exact absurd hrunning hended
  | stop hrunning => exact absurd hrunning hended
  | _ => exact hended

/-- But for the shutdown, a panic is the only way for the loop to end. -/
theorem Does.status_eq_or {a : Action REQ RESP} (h : Does s a s') (hstop : a ≠ .stop) :
    s'.status = s.status ∨ ∃ msg, s'.status = .panicked msg := by
  have hforwards : ∀ {event events status}, Forwards s event events status →
      status = s.status ∨ ∃ msg, status = .panicked msg := by
    rintro event events status (⟨hstatus, -⟩ | ⟨-, -, hstatus⟩)
    · exact .inl hstatus
    · exact .inr ⟨_, hstatus⟩
  cases h with
  | call i ask hidle => exact .inl (status_attempt ..)
  | retryingCall i peer request hidle => exact .inl (status_attempt ..)
  | retry hi hout hretries => exact .inl (status_attempt ..)
  | handle hrunning hcommands hhandles =>
      cases hhandles with
      | panic ask sender hclosed => exact .inr ⟨_, rfl⟩
      | _ => exact .inl rfl
  | observe hrunning hobserves =>
      cases hobserves with
      | ignore hreport hforward => exact hforwards hforward
      | unknown hreport hwaiting hforward => exact hforwards hforward
      | complete hreport hwaiting hopen hforward => exact hforwards hforward
      | panic hreport hwaiting hclosed => exact .inr ⟨_, rfl⟩
  | stop hrunning => exact absurd rfl hstop
  | _ => exact .inl rfl

def wakes (i : Nat) : Action REQ RESP → Bool
  | .wake j => j = i
  | _ => false

/-- The command is in the queue, or its sender in one of the maps. -/
def Outstanding (s : State REQ RESP) (sender : Sender) : Prop :=
  sender ∈ s.commands.filterMap Command.responseSender? ∨
    ∃ tag, s.eventLoop.waiting tag = some sender

/-- The receiver is gone; and if the loop runs, it has not found out. -/
structure Doomed (sender : Sender) (s : State REQ RESP) : Prop where
  closed : sender ∈ s.closed
  outstanding : s.status = .running → s.Outstanding sender

theorem Sound.issued_of_waiting (h : Sound s) {tag : Tag} {sender : Sender}
    (hwaiting : s.eventLoop.waiting tag = some sender) : (tag, sender) ∈ s.issued := by
  obtain ⟨t, hr, ht⟩ := h.correlated
  rw [← hr.pending] at hwaiting
  exact hr.issued ▸ ((ht.pending tag sender).mp hwaiting).1

theorem Doomed.handles (h : Sound s) {sender : Sender} (hd : Doomed sender s) {swarm : Swarm}
    {command : Command REQ RESP} {commands : List (Command REQ RESP)}
    (hrunning : s.status = .running) (hcommands : s.commands = command :: commands)
    (hfresh : s.Fresh (.handleCommand swarm)) (hhandles : Handles s swarm commands command s') :
    Doomed sender s' := by
  have hout := hd.outstanding hrunning
  rw [Outstanding, hcommands] at hout
  cases hhandles with
  | respond response channel => exact ⟨hd.closed, fun _ => hout⟩
  | panic ask sender' hclosed => exact ⟨hd.closed, fun hrunning => by cases hrunning⟩
  | keep ask sender' htag =>
      refine ⟨hd.closed, fun _ => ?_⟩
      rcases hout with hin | ⟨tag, hwaiting⟩
      · rcases List.mem_cons.mp hin with rfl | hin
        · refine .inr ⟨ask.tag swarm s.handled, ?_⟩
          rw [NetworkEventLoop.waiting_insert htag, if_pos rfl]
        · exact .inl hin
      · refine .inr ⟨tag, ?_⟩
        have hne : ask.tag swarm s.handled ≠ tag := by
          rintro rfl
          exact h.tag_fresh hfresh ask
            (List.mem_map.mpr ⟨_, h.issued_of_waiting hwaiting, rfl⟩)
        rw [NetworkEventLoop.waiting_insert htag, if_neg hne]
        exact hwaiting
  | answer ask sender' reply htag hreply hopen =>
      refine ⟨hd.closed, fun _ => ?_⟩
      rcases hout with hin | hwaiting
      · rcases List.mem_cons.mp hin with rfl | hin
        · exact absurd hd.closed hopen
        · exact .inl hin
      · exact .inr hwaiting

theorem Doomed.observes {sender : Sender} (hd : Doomed sender s) {event : SwarmEvent REQ RESP}
    (hrunning : s.status = .running) (hobserves : Observes s event s') : Doomed sender s' := by
  have hout := hd.outstanding hrunning
  cases hobserves with
  | ignore hreport hforward => exact ⟨hd.closed, fun _ => hout⟩
  | unknown hreport hwaiting hforward => exact ⟨hd.closed, fun _ => hout⟩
  | panic hreport hwaiting hclosed => exact ⟨hd.closed, fun hrunning => by cases hrunning⟩
  | @complete events status tag reply sender' hreport hwaiting hopen hforward =>
      refine ⟨hd.closed, fun _ => hout.imp_right ?_⟩
      rintro ⟨tag', hwaiting'⟩
      refine ⟨tag', ?_⟩
      have hne : tag ≠ tag' := by
        rintro rfl
        obtain rfl := Option.some.inj (hwaiting.symm.trans hwaiting')
        exact hopen hd.closed
      rw [NetworkEventLoop.waiting_remove, if_neg hne]
      exact hwaiting'

theorem Doomed.attempt {sender : Sender} (hd : Doomed sender s) (i : Nat) (ask : Ask REQ)
    (retries : Nat) : Doomed sender (s.attempt i ask retries) := by
  unfold State.attempt
  split
  · refine ⟨hd.closed, fun hrunning => (hd.outstanding hrunning).imp_left ?_⟩
    intro hin
    simp only [State.dispatch, List.filterMap_append]
    exact List.mem_append_left _ hin
  · exact ⟨hd.closed, hd.outstanding⟩

theorem Doomed.step (h : Sound s) {sender : Sender} (hd : Doomed sender s)
    {a : Action REQ RESP} (hfresh : s.Fresh a) (hdoes : Does s a s') : Doomed sender s' := by
  cases hdoes with
  | call i ask hidle => exact hd.attempt i ask 0
  | retryingCall i peer request hidle => exact hd.attempt i _ _
  | retry hi hout hretries => exact hd.attempt _ _ _
  | finish hi hout => exact ⟨hd.closed, hd.outstanding⟩
  | cancel hi hclosed =>
      refine ⟨?_, hd.outstanding⟩
      rcases hclosed with ⟨sender', -, rfl⟩ | ⟨-, rfl⟩
      · exact List.mem_cons_of_mem _ hd.closed
      · exact hd.closed
  | respond response channel hrunning =>
      refine ⟨hd.closed, fun hrunning => (hd.outstanding hrunning).imp_left ?_⟩
      intro hin
      rw [List.filterMap_append]
      exact List.mem_append_left _ hin
  | refuse response channel hended => exact hd
  | handle hrunning hcommands hhandles => exact hd.handles h hrunning hcommands hfresh hhandles
  | observe hrunning hobserves => exact hd.observes hrunning hobserves
  | closeEvents => exact ⟨hd.closed, hd.outstanding⟩
  | shutdown => exact ⟨hd.closed, hd.outstanding⟩
  | stop hrunning => exact ⟨hd.closed, fun hrunning => by cases hrunning⟩

/-- Once issued, a sender is not in the queue, and waits under its one tag. -/
theorem Sound.waiting_of_outstanding (h : Sound s) {tag : Tag} {sender : Sender}
    (hissued : (tag, sender) ∈ s.issued) (hout : s.Outstanding sender) :
    s.eventLoop.waiting tag = some sender := by
  rcases hout with hin | ⟨tag', hwaiting⟩
  · have hnodup := h.nodup
    rw [senders] at hnodup
    exact absurd (List.mem_map.mpr ⟨_, hissued, rfl⟩) ((List.nodup_append'.mp hnodup).2.2 hin)
  · obtain ⟨t, hr, ht⟩ := h.correlated
    have hissued' := h.issued_of_waiting hwaiting
    rw [← hr.issued] at hissued hissued'
    rwa [ht.tag_eq hissued hissued']

theorem Does.ended_of_report {event : SwarmEvent REQ RESP} (h : Does s (.handleSwarmEvent event) s')
    {tag : Tag} {reply : Reply RESP} (hreport : event.report? = some (tag, reply))
    {sender : Sender} (hwaiting : s.eventLoop.waiting tag = some sender)
    (hclosed : sender ∈ s.closed) : s'.status ≠ .running := by
  cases h with
  | observe hrunning hobserves =>
      cases hobserves with
      | ignore hnone hforward =>
          rw [hreport] at hnone
          cases hnone
      | unknown hsome hnobody hforward =>
          obtain ⟨rfl, -⟩ := Prod.mk.inj (Option.some.inj (hreport.symm.trans hsome))
          rw [hwaiting] at hnobody
          cases hnobody
      | complete hsome hsender hopen hforward =>
          obtain ⟨rfl, -⟩ := Prod.mk.inj (Option.some.inj (hreport.symm.trans hsome))
          obtain rfl := Option.some.inj (hwaiting.symm.trans hsender)
          exact absurd hclosed hopen
      | panic hsome hsender hgone => exact fun hrunning => by cases hrunning

/-- **One task that goes away ends the loop for all.**  A task is dropped before its call was
answered.  Then, in whatever happens next, as long as the loop runs it still has the command
before it or keeps the sender; and the moment the swarm reports anything for the id that the
command was given, before the task was dropped or later, the loop is over. -/
theorem cancelled_call_ends_loop {kademlia : Kademlia} {bootstrapPeers : List Multiaddr}
    {as bs : List (Action REQ RESP)} {s₁ s₂ : State REQ RESP}
    (hrun : Lts.Run State.step Fresh (start kademlia bootstrapPeers) as s) {i : Nat}
    {caller : Caller REQ RESP} {sender : Sender} (hi : s.callers i = some caller)
    (hphase : caller.phase = .waiting sender) (hunanswered : s.received sender = none)
    (hcancel : s.step (.cancel i) = some s₁) (hlater : Lts.Run State.step Fresh s₁ bs s₂) :
    (s₂.status = .running → s₂.Outstanding sender) ∧
    ∀ t event tag reply, Lts.Occurs State.step s₁ bs t (.handleSwarmEvent event) →
      (tag, sender) ∈ t.issued → event.report? = some (tag, reply) →
      s₂.status ≠ .running := by
  have h := sound_of_run hrun
  have hfresh : s.Fresh (.cancel i) := trivial
  have h₁ : Sound s₁ := h.step hfresh (does_of_step hcancel)
  have hnot : sender ∉ s.sent.map Prod.fst := by
    intro hsent
    obtain ⟨reply, hreply⟩ := received_of_mem_sent hsent
    rw [hunanswered] at hreply
    cases hreply
  have hout : s.Outstanding sender := by
    rcases h.outstanding ((h.callers i caller hi).waiting sender hphase).2 hnot with
      hin | ⟨tag, -, hwaiting⟩
    · exact .inl hin
    · exact .inr ⟨tag, hwaiting⟩
  have hdoomed₁ : Doomed sender s₁ := by
    cases does_of_step hcancel with
    | @cancel _ caller' closed hi' hclosed =>
        obtain rfl := Option.some.inj (hi.symm.trans hi')
        rcases hclosed with ⟨sender', hphase', rfl⟩ | ⟨⟨error, hphase'⟩, -⟩
        · rw [hphase] at hphase'
          obtain rfl := Phase.waiting.inj hphase'
          exact ⟨List.mem_cons_self, fun _ => hout⟩
        · rw [hphase] at hphase'
          cases hphase'
  -- along the rest of the run
  have hstay : ∀ {cs t}, Lts.Run State.step Fresh s₁ cs t → Sound t ∧ Doomed sender t := by
    intro cs t hcs
    refine hcs.inv (fun t => Sound t ∧ Doomed sender t) ?_ ⟨h₁, hdoomed₁⟩
    rintro t a t' ⟨ht, hd⟩ hg hs
    exact ⟨ht.step hg (does_of_step hs), hd.step ht hg (does_of_step hs)⟩
  refine ⟨(hstay hlater).2.outstanding, ?_⟩
  intro t event tag reply hoccurs hissued hreport
  obtain ⟨cs, t', ds, hbefore, -, hstep, hafter⟩ := hlater.of_occurs hoccurs
  obtain ⟨ht, hd⟩ := hstay hbefore
  have hrunning : t.status = .running := by
    cases does_of_step hstep with
    | observe hrunning hobserves => exact hrunning
  have hended : t'.status ≠ .running := (does_of_step hstep).ended_of_report hreport
    (ht.waiting_of_outstanding hissued (hd.outstanding hrunning)) hd.closed
  exact hafter.inv (fun t => t.status ≠ .running) (fun hend _ hs => (does_of_step hs).ended hend)
    hended

/-- A request that times out at its task while it is still in the queue of the loop; then the
loop sends it, and the peer answers. -/
theorem cancelled_call_ends_loop_late : ∃ s s₁ s₂ : State Unit Nat,
    Lts.Run State.step Fresh (start quietKademlia []) [.call 0 (.rpcRequest ⟨[2]⟩ ())] s ∧
    s.step (.cancel 0) = some s₁ ∧
    Lts.Run State.step Fresh s₁
      [.call 1 .peerList, .handleCommand (quietSwarm 5), .handleSwarmEvent (.response 5 7)] s₂ ∧
    s₂.status ≠ .running := by
  have hrun : ∃ s s₁ t s₂ : State Unit Nat,
      Lts.Run State.step Fresh (start quietKademlia []) [.call 0 (.rpcRequest ⟨[2]⟩ ())] s ∧
      s.callers 0 = some ⟨.rpcRequest ⟨[2]⟩ (), 0, .waiting 0⟩ ∧ s.received 0 = none ∧
      s.step (.cancel 0) = some s₁ ∧
      Lts.Run State.step Fresh s₁ [.call 1 .peerList, .handleCommand (quietSwarm 5)] t ∧
      (.rpc 5, 0) ∈ t.issued ∧ t.step (.handleSwarmEvent (.response 5 7)) = some s₂ := by
    refine ⟨_, _, _, _, .cons trivial rfl (.nil _), rfl, rfl, rfl,
      .cons trivial rfl (.cons ?_ rfl (.nil _)), List.mem_singleton.mpr rfl, rfl⟩
    exact ⟨List.not_mem_nil, fun _ _ _ => List.not_mem_nil⟩
  obtain ⟨s, s₁, t, s₂, hrun, hcaller, hnothing, hcancel, hbefore, hissued, hreport⟩ := hrun
  have hfresh : t.Fresh (.handleSwarmEvent (.response 5 7)) := trivial
  have hlater := hbefore.append (.single hfresh hreport)
  have hover := (cancelled_call_ends_loop hrun hcaller rfl hnothing hcancel hlater).2
  exact ⟨s, s₁, s₂, hrun, hcancel, hlater,
    hover t (.response 5 7) _ _ (hbefore.occurs_next _ []) hissued rfl⟩

/-! ## Where nobody goes away -/

/-- All receivers are there, and the loop has not panicked. -/
structure Intact (s : State REQ RESP) : Prop where
  closed : s.closed = []
  eventsOpen : s.eventsOpen = true
  status : ∀ msg, s.status ≠ .panicked msg

def Stays (a : Action REQ RESP) : Prop := (∀ i, a ≠ .cancel i) ∧ a ≠ .closeEvents

theorem Intact.attempt (h : Intact s) (i : Nat) (ask : Ask REQ) (retries : Nat) :
    Intact (s.attempt i ask retries) ∧ (s.attempt i ask retries).events = s.events := by
  unfold State.attempt
  split
  · exact ⟨⟨h.closed, h.eventsOpen, h.status⟩, rfl⟩
  · exact ⟨⟨h.closed, h.eventsOpen, h.status⟩, rfl⟩

/-- **One step**: the loop does not panic, and forwards what there is to forward. -/
theorem Intact.step (h : Intact s) {a : Action REQ RESP} (hstays : Stays a)
    (hdoes : Does s a s') : Intact s' ∧ s'.events = s.events ++ a.networkEvent?.toList := by
  have hopen : ∀ {sender}, sender ∉ s.closed := by
    intro sender hin
    rw [h.closed] at hin
    cases hin
  have hnothing : s.events = s.events ++ [] := (List.append_nil _).symm
  cases hdoes with
  | call i ask hidle =>
      obtain ⟨hintact, hevents⟩ := h.attempt i ask 0
      exact ⟨hintact, hevents.trans hnothing⟩
  | retryingCall i peer request hidle =>
      obtain ⟨hintact, hevents⟩ := h.attempt i (.rpcRequest peer request) maxRetries
      exact ⟨hintact, hevents.trans hnothing⟩
  | @retry i caller error retries hi hout hretries =>
      obtain ⟨hintact, hevents⟩ := h.attempt i caller.ask retries
      exact ⟨hintact, hevents.trans hnothing⟩
  | finish hi hout => exact ⟨⟨h.closed, h.eventsOpen, h.status⟩, hnothing⟩
  | @cancel i caller closed hi hclosed => exact absurd rfl (hstays.1 i)
  | closeEvents => exact absurd rfl hstays.2
  | respond response channel hrunning => exact ⟨⟨h.closed, h.eventsOpen, h.status⟩, hnothing⟩
  | refuse response channel hended => exact ⟨h, hnothing⟩
  | shutdown => exact ⟨⟨h.closed, h.eventsOpen, h.status⟩, hnothing⟩
  | stop hrunning => exact ⟨⟨h.closed, h.eventsOpen, fun msg hmsg => by cases hmsg⟩, hnothing⟩
  | handle hrunning hcommands hhandles =>
      cases hhandles with
      | respond response channel => exact ⟨⟨h.closed, h.eventsOpen, h.status⟩, hnothing⟩
      | keep ask sender htag => exact ⟨⟨h.closed, h.eventsOpen, h.status⟩, hnothing⟩
      | answer ask sender reply htag hreply hnot =>
          exact ⟨⟨h.closed, h.eventsOpen, h.status⟩, hnothing⟩
      | panic ask sender hclosed => exact absurd hclosed hopen
  | @observe event _ hrunning hobserves =>
      have hforwards : ∀ {events status}, Forwards s event events status →
          status = s.status ∧ events = s.events ++ event.networkEvent?.toList := by
        rintro events status (hforward | ⟨hshut, -⟩)
        · exact hforward
        · rw [h.eventsOpen] at hshut
          cases hshut
      cases hobserves with
      | ignore hreport hforward =>
          obtain ⟨rfl, rfl⟩ := hforwards hforward
          exact ⟨⟨h.closed, h.eventsOpen, h.status⟩, rfl⟩
      | unknown hreport hwaiting hforward =>
          obtain ⟨rfl, rfl⟩ := hforwards hforward
          exact ⟨⟨h.closed, h.eventsOpen, h.status⟩, rfl⟩
      | complete hreport hwaiting hnot hforward =>
          obtain ⟨rfl, rfl⟩ := hforwards hforward
          exact ⟨⟨h.closed, h.eventsOpen, h.status⟩, rfl⟩
      | panic hreport hwaiting hclosed => exact absurd hclosed hopen

theorem intact_of_run {as : List (Action REQ RESP)} (hstays : ∀ a ∈ as, Stays a)
    (hrun : Lts.Run State.step Fresh s as s') (h : Intact s) :
    Intact s' ∧ s'.events = s.events ++ as.filterMap Action.networkEvent? := by
  induction hrun with
  | nil s => exact ⟨h, (List.append_nil _).symm⟩
  | @cons s s₁ s' a as hg hs hrest ih =>
      obtain ⟨h₁, hevents₁⟩ := h.step (hstays a List.mem_cons_self) (does_of_step hs)
      obtain ⟨h', hevents⟩ := ih (fun b hb => hstays b (List.mem_cons_of_mem _ hb)) h₁
      refine ⟨h', ?_⟩
      rw [hevents, hevents₁, List.append_assoc]
      cases hevent : a.networkEvent? with
      | none => rw [List.filterMap_cons_none hevent]; rfl
      | some event => rw [List.filterMap_cons_some hevent]; rfl

theorem intact_start {kademlia : Kademlia} {bootstrapPeers : List Multiaddr}
    (hboot : bootstrap kademlia bootstrapPeers = .ok ()) :
    Intact (start kademlia bootstrapPeers : State REQ RESP) := by
  refine ⟨rfl, rfl, ?_⟩
  intro msg
  simp [start, hboot]

/-- **Where nobody goes away the loop does not panic**, whatever the peers and the swarm do: if
every bootstrap peer has an address with a peer id and Kademlia takes the first bootstrap, then,
as long as no waiting task and no event queue is dropped, the loop ends by a shutdown or not at
all, and the owner gets every event that concerns it, once and in order. -/
theorem loop_runs_on {kademlia : Kademlia} {bootstrapPeers : List Multiaddr}
    (hpeers : ∀ address ∈ bootstrapPeers, ∃ multihash peerId,
      address.getLast? = some (.p2p multihash) ∧ kademlia.fromMultihash multihash = some peerId)
    (hboot : bootstrapPeers ≠ [] → kademlia.bootstrap = .ok ())
    (hprovide : kademlia.startProviding = .ok ()) {as : List (Action REQ RESP)}
    (hstays : ∀ a ∈ as, (∀ i, a ≠ .cancel i) ∧ a ≠ .closeEvents)
    (hrun : Lts.Run State.step Fresh (start kademlia bootstrapPeers) as s) :
    (∀ msg, s.status ≠ .panicked msg) ∧ s.events = as.filterMap Action.networkEvent? := by
  have hok := (bootstrap_ok_iff kademlia bootstrapPeers).mpr ⟨hpeers, hboot, hprovide⟩
  obtain ⟨hintact, hevents⟩ := intact_of_run hstays hrun (intact_start hok)
  exact ⟨hintact.status, hevents⟩

def visit : List (Action Nat Nat) :=
  [.handleSwarmEvent (.connectionEstablished ⟨[2]⟩ 1),
    .handleSwarmEvent (.connectionEstablished ⟨[2]⟩ 2), .handleSwarmEvent (.request ⟨[2]⟩ 7 0)]

theorem loop_runs_on_visit : ∃ s : State Nat Nat,
    Lts.Run State.step Fresh (start quietKademlia []) visit s ∧
      (∀ msg, s.status ≠ .panicked msg) ∧
      s.events = [.connectionEstablished ⟨[2]⟩, .rpcRequest ⟨[2]⟩ 7 0] := by
  have hrun : ∃ s, Lts.Run State.step Fresh (start quietKademlia []) visit s :=
    ⟨_, .cons trivial rfl (.cons trivial rfl (.cons trivial rfl (.nil _)))⟩
  obtain ⟨s, hrun⟩ := hrun
  have hstays : ∀ a ∈ visit, (∀ i, a ≠ .cancel i) ∧ a ≠ .closeEvents := by simp [visit]
  exact ⟨s, hrun, loop_runs_on (by simp) (by simp) rfl hstays hrun⟩

end State

end Deqs.P2P.Loop
