/-
# The network loop, while it is attended to

`P2P.Endings` says what may end the network loop.  Here is a loop that none of it happens to
(`Attended`): nobody it owes something goes away, and nobody asks it to stop.  It runs on, and
its queue of commands is first in, first out:

    s.commands ++ new = old ++ s'.commands

where `old` are the commands a step has taken, one or none, and `new` those that others have sent
meanwhile (`Does.fifo`).  A call that is answered as soon as the loop gets to it (`isImmediate`)
therefore waits for what was in the queue before it, and for nothing else.
-/
import Deqs.P2P.Endings

namespace Deqs

namespace P2P.Loop

variable {REQ RESP : Type}

/-- The calls that are answered as soon as the loop gets to them. -/
def Ask.isImmediate : Ask REQ → Bool
  | .listen _ => false
  | .rpcRequest _ _ => false
  | _ => true

def Action.handlesCommand : Action REQ RESP → Bool
  | .handleCommand _ => true
  | _ => false

theorem Tag.Fits.of_immediate {tag : Tag} {ask : Ask REQ} (h : tag.Fits ask)
    (himm : ask.isImmediate = true) : ∃ n, tag = .command n := by
  cases tag with
  | command n => exact ⟨n, rfl⟩
  | rpc requestId => cases ask <;> simp [Tag.Fits, Ask.isImmediate] at h himm
  | listener listenerId => cases ask <;> simp [Tag.Fits, Ask.isImmediate] at h himm

namespace State

variable {s s' : State REQ RESP}

/-- The loop runs, nobody it owes something has gone away, and nobody has asked it to stop. -/
structure Attended (s : State REQ RESP) : Prop where
  intact : Intact s
  running : s.status = .running
  unasked : s.shutdownRequested = false

theorem Does.shutdownRequested_eq {a : Action REQ RESP} (h : Does s a s')
    (hshutdown : a ≠ .shutdown) : s'.shutdownRequested = s.shutdownRequested := by
  have hattempt : ∀ i ask retries,
      (s.attempt i ask retries).shutdownRequested = s.shutdownRequested := by
    intro i ask retries
    unfold State.attempt
    split
    · rfl
    · rfl
  cases h with
  | call i ask hidle => exact hattempt ..
  | retryingCall i peer request hidle => exact hattempt ..
  | retry hi hout hretries => exact hattempt ..
  | handle hrunning hcommands hhandles => cases hhandles <;> rfl
  | observe hrunning hobserves => cases hobserves <;> rfl
  | shutdown => exact absurd rfl hshutdown
  | _ => rfl

theorem Attended.step (h : Attended s) {a : Action REQ RESP} (hstays : Stays a)
    (hshutdown : a ≠ .shutdown) (hs : s.step a = some s') : Attended s' := by
  have hdoes := does_of_step hs
  have hintact := (h.intact.step hstays hdoes).1
  have hstop : a ≠ .stop := by
    rintro rfl
    simp [State.step, h.unasked] at hs
  refine ⟨hintact, ?_, (hdoes.shutdownRequested_eq hshutdown).trans h.unasked⟩
  rcases hdoes.status_eq_or hstop with hsame | ⟨msg, hpanicked⟩
  · exact hsame.trans h.running
  · exact absurd hpanicked (hintact.status msg)

theorem attended_of_run {kademlia : Kademlia} {bootstrapPeers : List Multiaddr}
    (hboot : bootstrap kademlia bootstrapPeers = .ok ()) {as : List (Action REQ RESP)}
    (hstays : ∀ a ∈ as, Stays a ∧ a ≠ .shutdown)
    (hrun : Lts.Run State.step Fresh (start kademlia bootstrapPeers) as s) : Attended s := by
  refine hrun.recorded.inv Attended ?_ ⟨intact_start hboot, by simp [start, hboot], rfl⟩
  intro s a s' h hg hs
  obtain ⟨hstay, hshutdown⟩ := hstays a hg.2.mem
  exact h.step hstay hshutdown hs

theorem Sound.queued_of_blocked (h : Sound s) {i retries : Nat} {ask : Ask REQ}
    {sender : Rpc.Sender}
    (hi : s.callers i = some ⟨ask, retries, .waiting sender⟩) (himm : ask.isImmediate = true)
    (hblocked : s.wake i = none) : .ask ask sender ∈ s.commands := by
  rcases h.waits hi rfl hblocked with hin | ⟨tag, -, hwaiting, hfits⟩
  · exact hin
  · obtain ⟨n, rfl⟩ := hfits.of_immediate himm
    cases hwaiting

/-- **First in, first out.**  A step takes the first command or none, and what it adds comes
behind the others with senders that are new. -/
theorem Does.fifo {a : Action REQ RESP} (h : Does s a s') (hintact : Intact s) :
    s.nextSender ≤ s'.nextSender ∧ ∃ old new, s.commands ++ new = old ++ s'.commands ∧
      old.length = (if a.handlesCommand then 1 else 0) ∧
      ∀ c ∈ new, ∀ sender, c.responseSender? = some sender → s.nextSender ≤ sender := by
  have hsame : s.nextSender ≤ s.nextSender ∧ ∃ old new, s.commands ++ new = old ++ s.commands ∧
      old.length = 0 ∧
      ∀ c ∈ new, ∀ sender, c.responseSender? = some sender → s.nextSender ≤ sender :=
    ⟨Nat.le_refl _, [], [], List.append_nil _, rfl, by simp⟩
  have hattempt : ∀ i ask retries, s.nextSender ≤ (s.attempt i ask retries).nextSender ∧
      ∃ old new, s.commands ++ new = old ++ (s.attempt i ask retries).commands ∧
        old.length = 0 ∧
        ∀ c ∈ new, ∀ sender, c.responseSender? = some sender → s.nextSender ≤ sender := by
    intro i ask retries
    unfold State.attempt
    split
    · refine ⟨Nat.le_succ _, [], [.ask ask s.nextSender], rfl, rfl, ?_⟩
      simp [Command.responseSender?]
    · exact hsame
  cases h with
  | call i ask hidle => exact hattempt i ask 0
  | retryingCall i peer request hidle => exact hattempt i _ _
  | retry hi hout hretries => exact hattempt _ _ _
  | respond response channel hrunning =>
      refine ⟨Nat.le_refl _, [], [.rpcResponse response channel], rfl, rfl, ?_⟩
      simp [Command.responseSender?]
  | @handle swarm command commands _ hrunning hcommands hhandles =>
      have hpopped : s.commands ++ [] = [command] ++ commands := by
        rw [List.append_nil, hcommands, List.singleton_append]
      cases hhandles with
      | panic ask sender hclosed =>
          rw [hintact.closed] at hclosed
          cases hclosed
      | _ => exact ⟨Nat.le_refl _, [_], [], hpopped, rfl, by simp⟩
  | observe hrunning hobserves => cases hobserves <;> exact hsame
  | _ => exact hsame

end State
end P2P.Loop

end Deqs
