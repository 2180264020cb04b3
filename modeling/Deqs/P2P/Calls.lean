/-
# The calls of the client

What a task that calls the client may expect of the loop.  `Sound` keeps track of the senders:
where they are, in the queue of commands or in one of the maps, and whose they are.

    answered_by_own     a call returns what the swarm reported for its own command
-/
import Deqs.P2P.Steps

namespace Deqs.P2P.Loop

open Rpc (RequestId Sender maxRetries)

variable {REQ RESP : Type}

namespace State

variable {s s' : State REQ RESP}

/-! ## Where the senders are, and whose -/

/-- The senders on their way to the loop, and those that have come there. -/
def senders (s : State REQ RESP) : List Sender :=
  s.commands.filterMap Command.responseSender? ++ s.issued.map Prod.snd

/-- What a call of task `i` may return: that the loop is gone, when it is, or what was reported
for its own command. -/
def Returns (s : State REQ RESP) (i : Nat) (ask : Ask REQ) (outcome : Reply RESP) : Prop :=
  (s.status ≠ .running ∧ (outcome = .error .channelSend ∨ outcome = .error .channelRecv)) ∨
  ∃ sender tag, (sender, i, ask) ∈ s.asked ∧ (tag, sender) ∈ s.issued ∧
    (tag, outcome) ∈ s.reported ∧ tag.Fits ask

structure CallSound (s : State REQ RESP) (i : Nat) (caller : Caller REQ RESP) : Prop where
  retries : caller.retries ≤ maxRetries
  waiting : ∀ sender, caller.phase = .waiting sender →
    (sender, i, caller.ask) ∈ s.asked ∧ sender ∈ s.senders
  failed : ∀ error, caller.phase = .failed error → s.status ≠ .running ∧ error = .channelSend
  done : ∀ outcome, caller.phase = .done outcome → s.Returns i caller.ask outcome

structure Sound (s : State REQ RESP) : Prop where
  correlated : s.Correlated
  nodup : s.senders.Nodup
  below : ∀ sender ∈ s.senders, sender < s.nextSender
  owners : (s.asked.map Prod.fst).Nodup
  ownersBelow : ∀ sender ∈ s.asked.map Prod.fst, sender < s.nextSender
  numbered : ∀ n, .command n ∈ s.issued.map Prod.fst → n < s.handled
  queued : ∀ ask sender, .ask ask sender ∈ s.commands → ∃ i, (sender, i, ask) ∈ s.asked
  issued : ∀ tag sender, (tag, sender) ∈ s.issued →
    ∃ i ask, (sender, i, ask) ∈ s.asked ∧ tag.Fits ask
  callers : ∀ i caller, s.callers i = some caller → CallSound s i caller

theorem sound_start (kademlia : Kademlia) (bootstrapPeers : List Multiaddr) :
    (start kademlia bootstrapPeers : State REQ RESP).Sound where
  correlated := correlated_start kademlia bootstrapPeers
  nodup := List.nodup_nil
  below _ h := absurd h List.not_mem_nil
  owners := List.nodup_nil
  ownersBelow _ h := absurd h List.not_mem_nil
  numbered _ h := absurd h List.not_mem_nil
  queued _ _ h := absurd h List.not_mem_nil
  issued _ _ h := absurd h List.not_mem_nil
  callers _ _ h := by cases h

/-- What a call rests on stays. -/
structure Later (s s' : State REQ RESP) : Prop where
  asked : s.asked ⊆ s'.asked
  senders : s.senders ⊆ s'.senders
  issued : s.issued ⊆ s'.issued
  reported : s.reported ⊆ s'.reported
  ended : s.status ≠ .running → s'.status ≠ .running

theorem Returns.later {i : Nat} {ask : Ask REQ} {outcome : Reply RESP}
    (h : s.Returns i ask outcome) (hl : Later s s') : s'.Returns i ask outcome := by
  rcases h with ⟨hended, hout⟩ | ⟨sender, tag, hasked, hissued, hreported, hfits⟩
  · exact .inl ⟨hl.ended hended, hout⟩
  · exact .inr ⟨sender, tag, hl.asked hasked, hl.issued hissued, hl.reported hreported, hfits⟩

theorem CallSound.later {i : Nat} {caller : Caller REQ RESP} (h : CallSound s i caller)
    (hl : Later s s') : CallSound s' i caller where
  retries := h.retries
  waiting sender hphase :=
    ⟨hl.asked (h.waiting sender hphase).1, hl.senders (h.waiting sender hphase).2⟩
  failed error hphase := ⟨hl.ended (h.failed error hphase).1, (h.failed error hphase).2⟩
  done outcome hphase := (h.done outcome hphase).later hl

theorem Sound.congr (h : Sound s) (hcorrelated : s'.Correlated)
    (hqueue : s'.commands.filterMap Command.responseSender? =
      s.commands.filterMap Command.responseSender?)
    (hcommands : ∀ ask sender, .ask ask sender ∈ s'.commands → .ask ask sender ∈ s.commands)
    (hissued : s'.issued = s.issued) (hasked : s'.asked = s.asked)
    (hhandled : s.handled ≤ s'.handled) (hnext : s'.nextSender = s.nextSender)
    (hcallers : s'.callers = s.callers) (hreported : s.reported ⊆ s'.reported)
    (hended : s.status ≠ .running → s'.status ≠ .running) : Sound s' := by
  have hsenders : s'.senders = s.senders := by rw [senders, senders, hqueue, hissued]
  have hlater : Later s s' := by
    refine ⟨?_, ?_, ?_, hreported, hended⟩
    · rw [hasked]; exact List.Subset.refl _
    · rw [hsenders]; exact List.Subset.refl _
    · rw [hissued]; exact List.Subset.refl _
  refine ⟨hcorrelated, ?_, ?_, ?_, ?_, ?_, ?_, ?_, ?_⟩
  · rw [hsenders]; exact h.nodup
  · rw [hsenders, hnext]; exact h.below
  · rw [hasked]; exact h.owners
  · rw [hasked, hnext]; exact h.ownersBelow
  · rw [hissued]
    exact fun n hin => Nat.lt_of_lt_of_le (h.numbered n hin) hhandled
  · rw [hasked]
    exact fun ask sender hin => h.queued ask sender (hcommands ask sender hin)
  · rw [hissued, hasked]; exact h.issued
  · rw [hcallers]
    exact fun i caller hi => (h.callers i caller hi).later hlater

theorem Sound.setStatus (h : Sound s) {status : Status} {shutdownRequested eventsOpen : Bool}
    (hended : s.status ≠ .running → status ≠ .running) :
    Sound { s with status, shutdownRequested, eventsOpen } :=
  h.congr (h.correlated.congr rfl rfl rfl rfl) rfl (fun _ _ => id) rfl rfl (Nat.le_refl _) rfl rfl
    (List.Subset.refl _) hended

theorem Sound.callers_update (h : Sound s) (hl : Later s s') {i : Nat} {caller : Caller REQ RESP}
    (hcaller : CallSound s' i caller) : ∀ j caller',
      Function.update s.callers i (some caller) j = some caller' → CallSound s' j caller' := by
  intro j caller' hj
  by_cases heq : j = i
  · subst heq
    rw [Function.update_self] at hj
    exact Option.some.inj hj ▸ hcaller
  · rw [Function.update_of_ne heq] at hj
    exact (h.callers j caller' hj).later hl

theorem Sound.setCaller (h : Sound s) {i : Nat} {caller : Caller REQ RESP}
    (hcaller : CallSound s i caller) (closed : List Sender) :
    Sound { s with closed, callers := Function.update s.callers i (some caller) } := by
  have hlater : Later s { s with closed, callers := Function.update s.callers i (some caller) } :=
    ⟨List.Subset.refl _, List.Subset.refl _, List.Subset.refl _, List.Subset.refl _, id⟩
  exact ⟨h.correlated.congr rfl rfl rfl rfl, h.nodup, h.below, h.owners, h.ownersBelow, h.numbered,
    h.queued, h.issued, h.callers_update hlater (hcaller.later hlater)⟩

theorem senders_dispatch (s : State REQ RESP) (i : Nat) (ask : Ask REQ) (retries : Nat) :
    (s.dispatch i ask retries).senders.Perm (s.nextSender :: s.senders) := by
  simp only [senders, dispatch, List.filterMap_append, List.append_assoc]
  exact List.perm_middle

theorem later_dispatch (s : State REQ RESP) (i : Nat) (ask : Ask REQ) (retries : Nat) :
    Later s (s.dispatch i ask retries) where
  asked := List.subset_cons_self _ _
  senders _ hin := (senders_dispatch s i ask retries).mem_iff.mpr (List.mem_cons_of_mem _ hin)
  issued := List.Subset.refl _
  reported := List.Subset.refl _
  ended := id

/-- **A command is dispatched** with a channel of its own. -/
theorem Sound.dispatch (h : Sound s) (i : Nat) (ask : Ask REQ) {retries : Nat}
    (hretries : retries ≤ maxRetries) : Sound (s.dispatch i ask retries) := by
  have hperm := senders_dispatch s i ask retries
  refine ⟨h.correlated.congr rfl rfl rfl rfl, ?_, ?_, ?_, ?_, h.numbered, ?_, ?_, ?_⟩
  · rw [hperm.nodup_iff]
    exact List.nodup_cons.mpr ⟨fun hin => Nat.lt_irrefl _ (h.below _ hin), h.nodup⟩
  · intro sender hin
    rcases List.mem_cons.mp (hperm.mem_iff.mp hin) with rfl | hin
    · exact Nat.lt_succ_self _
    · exact Nat.lt_succ_of_lt (h.below sender hin)
  · exact List.nodup_cons.mpr ⟨fun hin => Nat.lt_irrefl _ (h.ownersBelow _ hin), h.owners⟩
  · intro sender hin
    rcases List.mem_cons.mp hin with rfl | hin
    · exact Nat.lt_succ_self _
    · exact Nat.lt_succ_of_lt (h.ownersBelow sender hin)
  · intro ask' sender hin
    rcases List.mem_append.mp hin with hin | hin
    · obtain ⟨j, hj⟩ := h.queued ask' sender hin
      exact ⟨j, List.mem_cons_of_mem _ hj⟩
    · obtain ⟨rfl, rfl⟩ := Command.ask.inj (List.mem_singleton.mp hin)
      exact ⟨i, List.mem_cons_self⟩
  · intro tag sender hin
    obtain ⟨j, ask', hj, hfits⟩ := h.issued tag sender hin
    exact ⟨j, ask', List.mem_cons_of_mem _ hj, hfits⟩
  · have hcaller : CallSound (s.dispatch i ask retries) i
        ⟨ask, retries, .waiting s.nextSender⟩ := by
      refine ⟨hretries, ?_, fun _ hphase => (by cases hphase), fun _ hphase => (by cases hphase)⟩
      rintro _ ⟨⟩
      exact ⟨List.mem_cons_self, hperm.mem_iff.mpr List.mem_cons_self⟩
    exact h.callers_update (later_dispatch s i ask retries) hcaller

/-- **An attempt** dispatches a command, or finds that the loop is gone. -/
theorem Sound.attempt (h : Sound s) (i : Nat) (ask : Ask REQ) {retries : Nat}
    (hretries : retries ≤ maxRetries) : Sound (s.attempt i ask retries) := by
  unfold State.attempt
  split
  · exact h.dispatch i ask hretries
  · next hended =>
      have hcaller : CallSound s i ⟨ask, retries, .failed .channelSend⟩ := by
        refine ⟨hretries, fun _ hphase => (by cases hphase), ?_, fun _ hphase => (by cases hphase)⟩
        rintro _ ⟨⟩
        exact ⟨hended, rfl⟩
      exact h.setCaller hcaller s.closed

/-- **An event of the swarm** changes nothing about the calls. -/
theorem Sound.observes (h : Sound s) {event : SwarmEvent REQ RESP}
    (hrunning : s.status = .running) (hobserves : Observes s event s') : Sound s' := by
  have hcorrelated := h.correlated.observes hobserves
  cases hobserves with
  | ignore hreport hforward =>
      exact h.congr hcorrelated rfl (fun _ _ => id) rfl rfl (Nat.le_refl _) rfl rfl
        (List.Subset.refl _) (absurd hrunning)
  | unknown hreport hwaiting hforward =>
      exact h.congr hcorrelated rfl (fun _ _ => id) rfl rfl (Nat.le_refl _) rfl rfl
        (List.subset_cons_self _ _) (absurd hrunning)
  | complete hreport hwaiting hopen hforward =>
      exact h.congr hcorrelated rfl (fun _ _ => id) rfl rfl (Nat.le_refl _) rfl rfl
        (List.subset_cons_self _ _) (absurd hrunning)
  | panic hreport hwaiting hclosed => exact h.setStatus (absurd hrunning)

theorem fits_tag (swarm : Swarm) (n : Nat) (ask : Ask REQ) : (ask.tag swarm n).Fits ask := by
  cases ask with
  | listen address =>
      simp only [Ask.tag]
      cases swarm.listenOn address with
      | ok listenerId => exact trivial
      | error e => exact trivial
  | _ => exact trivial

theorem Sound.tag_fresh (h : Sound s) {swarm : Swarm} (hfresh : s.Fresh (.handleCommand swarm))
    (ask : Ask REQ) : ask.tag swarm s.handled ∉ s.issued.map Prod.fst := by
  have hcommand : .command s.handled ∉ s.issued.map Prod.fst :=
    fun hin => Nat.lt_irrefl _ (h.numbered _ hin)
  cases ask with
  | rpcRequest peer request => exact hfresh.1
  | listen address =>
      simp only [Ask.tag]
      cases hlisten : swarm.listenOn address with
      | ok listenerId => exact hfresh.2 address listenerId hlisten
      | error e => exact hcommand
  | _ => exact hcommand

theorem Sound.issue (h : Sound s) {ask : Ask REQ} {sender : Sender} {tag : Tag}
    {commands : List (Command REQ RESP)} (hcommands : s.commands = .ask ask sender :: commands)
    (hs' : s'.commands = commands) (hcorrelated : s'.Correlated) (hfits : tag.Fits ask)
    (hnumbered : ∀ n, tag = .command n → n ≤ s.handled)
    (hissued : s'.issued = (tag, sender) :: s.issued) (hasked : s'.asked = s.asked)
    (hhandled : s'.handled = s.handled + 1) (hnext : s'.nextSender = s.nextSender)
    (hcallers : s'.callers = s.callers) (hreported : s.reported ⊆ s'.reported)
    (hstatus : s'.status = s.status) : Sound s' := by
  have hsender : Command.responseSender? (.ask ask sender : Command REQ RESP) = some sender := rfl
  have hperm : s'.senders.Perm s.senders := by
    rw [senders, senders, hs', hcommands, hissued, List.filterMap_cons_some hsender]
    exact List.perm_middle
  have hlater : Later s s' := by
    refine ⟨?_, fun _ hin => hperm.mem_iff.mpr hin, ?_, hreported, fun hended => hstatus ▸ hended⟩
    · rw [hasked]; exact List.Subset.refl _
    · rw [hissued]; exact List.subset_cons_self _ _
  refine ⟨hcorrelated, hperm.nodup_iff.mpr h.nodup, ?_, ?_, ?_, ?_, ?_, ?_, ?_⟩
  · intro sender' hin
    rw [hnext]
    exact h.below sender' (hperm.mem_iff.mp hin)
  · rw [hasked]; exact h.owners
  · rw [hasked, hnext]; exact h.ownersBelow
  · intro n hin
    rw [hissued, List.map_cons, List.mem_cons] at hin
    rw [hhandled]
    rcases hin with heq | hin
    · exact Nat.lt_succ_of_le (hnumbered n heq.symm)
    · exact Nat.lt_succ_of_lt (h.numbered n hin)
  · intro ask' sender' hin
    rw [hasked]
    rw [hs'] at hin
    exact h.queued ask' sender' (hcommands ▸ List.mem_cons_of_mem _ hin)
  · intro tag' sender' hin
    rw [hasked]
    rw [hissued] at hin
    rcases List.mem_cons.mp hin with heq | hin
    · obtain ⟨rfl, rfl⟩ := Prod.mk.inj heq
      obtain ⟨i, hi⟩ := h.queued ask sender' (hcommands ▸ List.mem_cons_self)
      exact ⟨i, ask, hi, hfits⟩
    · exact h.issued tag' sender' hin
  · rw [hcallers]
    exact fun i caller hi => (h.callers i caller hi).later hlater

/-- **The next command.** -/
theorem Sound.handles (h : Sound s) {swarm : Swarm} {command : Command REQ RESP}
    {commands : List (Command REQ RESP)} (hcommands : s.commands = command :: commands)
    (hfresh : s.Fresh (.handleCommand swarm)) (hhandles : Handles s swarm commands command s') :
    Sound s' := by
  -- the sender is in the queue, and so was not issued
  have hsender : ∀ sender, command.responseSender? = some sender →
      sender ∉ s.issued.map Prod.snd := by
    intro sender hsome hin
    have hnodup := h.nodup
    rw [senders, hcommands, List.filterMap_cons_some hsome, List.cons_append] at hnodup
    exact (List.nodup_cons.mp hnodup).1 (List.mem_append_right _ hin)
  have hcorrelated := h.correlated.handles hsender (fun ask _ _ => h.tag_fresh hfresh ask) hhandles
  cases hhandles with
  | respond response channel =>
      refine h.congr hcorrelated ?_ ?_ rfl rfl (Nat.le_succ _) rfl rfl (List.Subset.refl _) id
      · rw [hcommands]
        rfl
      · rw [hcommands]
        exact fun ask sender hin => List.mem_cons_of_mem _ hin
  | keep ask sender htag =>
      exact h.issue hcommands rfl hcorrelated (fits_tag swarm s.handled ask)
        (fun n hn => absurd hn (htag n)) rfl rfl rfl rfl rfl (List.Subset.refl _) rfl
  | answer ask sender reply htag hreply hopen =>
      exact h.issue hcommands rfl hcorrelated (htag ▸ fits_tag swarm s.handled ask)
        (fun n hn => Nat.le_of_eq (Tag.command.inj hn).symm) rfl rfl rfl rfl rfl
        (List.subset_cons_self _ _) rfl
  | panic ask sender hclosed => exact h.setStatus (fun _ hrunning => by cases hrunning)

theorem Sound.owner_eq (h : Sound s) {i j : Nat} {ask ask' : Ask REQ} {sender : Sender}
    (hi : (sender, i, ask) ∈ s.asked) (hj : (sender, j, ask') ∈ s.asked) : i = j ∧ ask = ask' := by
  have heq : (sender, i, ask) = (sender, j, ask') := List.inj_on_of_nodup_map h.owners hi hj rfl
  simpa using heq

theorem Sound.returns_of_sent (h : Sound s) {i : Nat} {ask : Ask REQ} {sender : Sender}
    {outcome : Reply RESP} (hasked : (sender, i, ask) ∈ s.asked)
    (hsent : (sender, outcome) ∈ s.sent) : s.Returns i ask outcome := by
  obtain ⟨t, hr, ht⟩ := h.correlated
  rw [← hr.completed] at hsent
  obtain ⟨tag, hissued, hreported⟩ := ht.own sender outcome hsent
  rw [hr.issued] at hissued
  rw [hr.reported] at hreported
  obtain ⟨j, ask', hasked', hfits⟩ := h.issued tag sender hissued
  obtain ⟨-, rfl⟩ := h.owner_eq hasked hasked'
  exact .inr ⟨sender, tag, hasked, hissued, hreported, hfits⟩

theorem received_of_mem_sent {sender : Sender} (h : sender ∈ s.sent.map Prod.fst) :
    ∃ outcome, s.received sender = some outcome :=
  Rpc.inChannel_of_mem h

/-- **No sender is lost**: one that has not been used is in the queue, or in one of the maps. -/
theorem Sound.outstanding (h : Sound s) {sender : Sender} (hin : sender ∈ s.senders)
    (hnot : sender ∉ s.sent.map Prod.fst) :
    sender ∈ s.commands.filterMap Command.responseSender? ∨
      ∃ tag, (tag, sender) ∈ s.issued ∧ s.eventLoop.waiting tag = some sender := by
  rcases List.mem_append.mp hin with hin | hin
  · exact .inl hin
  · obtain ⟨⟨tag, _⟩, hissued, rfl⟩ := List.mem_map.mp hin
    obtain ⟨t, hr, ht⟩ := h.correlated
    rw [← hr.completed] at hnot
    have hpending := (ht.pending tag _).mpr ⟨hr.issued ▸ hissued, hnot⟩
    rw [hr.pending] at hpending
    exact .inr ⟨tag, hissued, hpending⟩

theorem alive_of_outstanding (hrunning : s.status = .running) {sender : Sender}
    (h : sender ∈ s.commands.filterMap Command.responseSender? ∨
      ∃ tag, (tag, sender) ∈ s.issued ∧ s.eventLoop.waiting tag = some sender) :
    s.alive sender = true := by
  simp only [State.alive, hrunning, decide_true, Bool.true_and, Bool.or_eq_true,
    decide_eq_true_eq]
  rcases h with hin | ⟨tag, -, hwaiting⟩
  · exact .inl (.inl hin)
  · cases tag with
    | rpc requestId => exact .inl (.inr (AssocMap.mem_values_iff.mpr ⟨requestId, hwaiting⟩))
    | listener listenerId => exact .inr (AssocMap.mem_values_iff.mpr ⟨listenerId, hwaiting⟩)
    | command n => cases hwaiting

/-- **The outcome of an attempt.** -/
theorem Sound.returns_of_outcome (h : Sound s) {i : Nat} {caller : Caller REQ RESP}
    (hi : s.callers i = some caller) {outcome : Reply RESP}
    (hout : s.outcome? caller.phase = some outcome) : s.Returns i caller.ask outcome := by
  have hcaller := h.callers i caller hi
  cases hphase : caller.phase with
  | waiting sender =>
      obtain ⟨hasked, hin⟩ := hcaller.waiting sender hphase
      simp only [hphase, outcome?] at hout
      cases hreceived : s.received sender with
      | some reply =>
          simp only [hreceived, Option.some.injEq] at hout
          subst hout
          exact h.returns_of_sent hasked (Rpc.mem_of_inChannel hreceived)
      | none =>
          simp only [hreceived] at hout
          split at hout
          · cases hout
          · next hdead =>
              refine .inl ⟨?_, .inr (Option.some.inj hout).symm⟩
              -- while the loop runs it has the sender
              intro hrunning
              have hnot : sender ∉ s.sent.map Prod.fst := by
                intro hsent
                obtain ⟨reply, hreply⟩ := received_of_mem_sent hsent
                rw [hreceived] at hreply
                cases hreply
              exact hdead (alive_of_outstanding hrunning (h.outstanding hin hnot))
  | failed error =>
      obtain ⟨hended, rfl⟩ := hcaller.failed error hphase
      simp only [hphase, outcome?, Option.some.injEq] at hout
      exact .inl ⟨hended, .inl hout.symm⟩
  | cancelled => simp [hphase, outcome?] at hout
  | done result => simp [hphase, outcome?] at hout

/-- **Every step.** -/
theorem Sound.step (h : Sound s) {a : Action REQ RESP} (hfresh : s.Fresh a)
    (hdoes : Does s a s') : Sound s' := by
  cases hdoes with
  | call i ask hidle => exact h.attempt i ask (Nat.zero_le _)
  | retryingCall i peer request hidle => exact h.attempt i _ (Nat.le_refl _)
  | @retry i caller error retries hi hout hretries =>
      have hle := (h.callers i caller hi).retries
      exact h.attempt i caller.ask (by omega)
  | @finish i caller outcome hi hout =>
      have hdone : CallSound s i ⟨caller.ask, caller.retries, .done outcome⟩ := by
        refine ⟨(h.callers i caller hi).retries, fun _ hphase => (by cases hphase),
          fun _ hphase => (by cases hphase), ?_⟩
        rintro _ ⟨⟩
        exact h.returns_of_outcome hi hout
      exact h.setCaller hdone s.closed
  | @cancel i caller closed hi hclosed =>
      have hgone : CallSound s i ⟨caller.ask, caller.retries, .cancelled⟩ :=
        ⟨(h.callers i caller hi).retries, fun _ hphase => (by cases hphase),
          fun _ hphase => (by cases hphase), fun _ hphase => (by cases hphase)⟩
      exact h.setCaller hgone closed
  | respond response channel hrunning =>
      refine h.congr (h.correlated.congr rfl rfl rfl rfl) ?_ ?_ rfl rfl (Nat.le_refl _) rfl rfl
        (List.Subset.refl _) id
      · rw [List.filterMap_append]
        exact List.append_nil _
      · intro ask sender hin
        exact (List.mem_append.mp hin).resolve_right (by simp)
  | refuse response channel hended => exact h
  | handle hrunning hcommands hhandles => exact h.handles hcommands hfresh hhandles
  | observe hrunning hobserves => exact h.observes hrunning hobserves
  | closeEvents => exact h.setStatus id
  | shutdown => exact h.setStatus id
  | stop hrunning => exact h.setStatus (fun _ hrunning => by cases hrunning)

theorem sound_of_run {kademlia : Kademlia} {bootstrapPeers : List Multiaddr}
    {as : List (Action REQ RESP)}
    (hrun : Lts.Run State.step Fresh (start kademlia bootstrapPeers) as s) : Sound s :=
  hrun.inv Sound (fun h hg hs => h.step hg (does_of_step hs)) (sound_start kademlia bootstrapPeers)

theorem wake_of_outcome {i : Nat} {caller : Caller REQ RESP} (hi : s.callers i = some caller)
    {outcome : Reply RESP} (hout : s.outcome? caller.phase = some outcome) :
    ∃ s', s.wake i = some s' := by
  obtain ⟨ask, retries, phase⟩ := caller
  simp only [wake, hi, hout]
  split
  · next heq => cases heq
  · exact ⟨_, rfl⟩
  · exact ⟨_, rfl⟩

/-- What a task that is blocked waits for. -/
theorem Sound.waits (h : Sound s) {i : Nat} {caller : Caller REQ RESP} {sender : Sender}
    (hi : s.callers i = some caller) (hphase : caller.phase = .waiting sender)
    (hblocked : s.wake i = none) : .ask caller.ask sender ∈ s.commands ∨
      ∃ tag, (tag, sender) ∈ s.issued ∧ s.eventLoop.waiting tag = some sender ∧
        tag.Fits caller.ask := by
  obtain ⟨hasked, hin⟩ := (h.callers i caller hi).waiting sender hphase
  have hnot : sender ∉ s.sent.map Prod.fst := by
    intro hsent
    obtain ⟨reply, hreply⟩ := received_of_mem_sent hsent
    have hout : s.outcome? caller.phase = some reply := by
      simp only [hphase, outcome?, hreply]
    obtain ⟨s', hs'⟩ := wake_of_outcome hi hout
    rw [hblocked] at hs'
    cases hs'
  rcases h.outstanding hin hnot with hin | ⟨tag, hissued, hwaiting⟩
  · obtain ⟨command, hcommand, hsome⟩ := List.mem_filterMap.mp hin
    cases command with
    | rpcResponse response channel => cases hsome
    | ask ask' sender' =>
        obtain rfl := Option.some.inj hsome
        obtain ⟨j, hj⟩ := h.queued ask' sender' hcommand
        obtain ⟨-, rfl⟩ := h.owner_eq hasked hj
        exact .inl hcommand
  · obtain ⟨j, ask', hj, hfits⟩ := h.issued tag sender hissued
    obtain ⟨-, rfl⟩ := h.owner_eq hasked hj
    exact .inr ⟨tag, hissued, hwaiting, hfits⟩

/-! ## The answers -/

/-- A swarm that gives `id` to the next request and to the next listener. -/
def quietSwarm (id : Nat) : Swarm where
  localPeerId := ⟨[1]⟩
  allPeers := []
  connectedPeers := []
  listeners := []
  listenOn _ := .ok id
  publish _ _ := .error "InsufficientPeers"
  subscribe _ := .ok true
  sendRequest := id

def quietKademlia : Kademlia where
  fromMultihash multihash := some ⟨multihash⟩
  bootstrap := .error "No known peers."
  startProviding := .ok ()

end State

end Deqs.P2P.Loop
