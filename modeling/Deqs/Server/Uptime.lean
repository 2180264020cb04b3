/-
# What keeps a server up

The event loop of the server and the network loop each hold on to the other.  The server's loop
waits for the network loop whenever it calls the client, and it ends when the network loop is
gone; the network loop panics when a task goes away that it owes an answer, or when the server's
loop no longer listens.  So a panic anywhere could bring both down, and a call that is never
answered could stop both.

    stays_up       neither of them ends before the server is shut down or the bus is closed
    never_stuck    a call of the server's loop returns once the commands before it are handled

Both are about every run: whatever clients submit and peers send, whatever the ledger and
the database do, and in whatever order the tasks are scheduled.

**Why nothing panics.**  The server's loop has three calls that could: `Quote::new`, which
indexes into the required output amounts, of which there are enough if `validate` counts them
(`McCore.ChecksLengths`); the insertion into the book, whose assertion holds since identifiers do
not collide; and the queries, which do not.  The network loop does not because nobody it owes
something goes away (`Intact`).
-/
import Deqs.Quote.Cost
import Deqs.P2P.Attended
import Deqs.Server.EventLoop

namespace Deqs

open Sync (Ledger AddCall)

/-! ## The two loops -/

def P2P.HostAction.isBranch : P2P.HostAction → Bool
  | .recvMsg => true
  | .recvEvent => true
  | .recvShutdown => true
  | .tick => true
  | _ => false

def P2P.HostAction.isResume : P2P.HostAction → Bool
  | .resume _ _ => true
  | _ => false

def P2P.HostAction.handlesCommand : P2P.HostAction → Bool
  | .net a => a.handlesCommand
  | _ => false

def Sync.AddCall.stepsLeft : AddCall → Nat
  | .start quote => quote.sci.txIn.ring.length + 3
  | .readBlocks quote _ => quote.sci.txIn.ring.length + 2
  | .checkingRing _ _ rest => rest.length + 1
  | .idle => 0
  | .done _ => 0

theorem Sync.AddCall.stepsLeft_next {ledger : Ledger} {fault : Option String} {c c' : AddCall}
    (h : c.next ledger fault = some c') : c'.stepsLeft + 1 ≤ c.stepsLeft := by
  have hpos : 0 < c.stepsLeft := by
    cases c with
    | idle => cases h
    | done r => cases h
    | start q => exact Nat.succ_pos _
    | readBlocks q n => exact Nat.succ_pos _
    | checkingRing q n rest => exact Nat.succ_pos _
  rcases next_cases h with ⟨e, rfl⟩ | ⟨q, rfl, rfl, -⟩ | ⟨q, n, rfl, rfl, -⟩ |
    ⟨q, n, i, txOut, rest, rfl, rfl, -⟩
  · exact hpos
  · exact Nat.le_refl _
  · simp only [stepsLeft, List.length_zip]
    omega
  · exact Nat.le_refl _

theorem Node.stepsLeft_advance {ser : Serial} {node node' : Node ser} {i : Nat}
    {fault : Option String} {faults : Faults} (h : node.advance i fault faults = some node') :
    (node'.threads i).call.stepsLeft + 1 ≤ (node.threads i).call.stepsLeft := by
  rcases Node.advance_cases h with ⟨quote, c, hi, rfl⟩ | ⟨c', hnext, rfl⟩
  · simp [Node.setThread, hi, AddCall.stepsLeft]
  · simpa [Node.setThread] using AddCall.stepsLeft_next hnext

namespace P2P.Host

variable {ser : Serial} {svc : ClientService} {codec : GossipCodec} {S : Set Quote}
  {h h' : Host ser} {as bs : List HostAction}

/-- The server's loop as the network loop sees it.  As long as it is not over it attends to the
network loop, and it is in a call there exactly when it says so. -/
structure Linked (h : Host ser) : Prop where
  sound : h.net.Sound
  attended : h.serving.isOver = false → h.net.Attended
  idle : h.serving ≠ .calling → h.net.idle 0 = true
  calling : h.serving = .calling → ∃ ask sender,
    h.net.callers 0 = some ⟨ask, 0, .waiting sender⟩ ∧ ask.isImmediate = true

theorem stays_of_isForeign {a : Loop.Action Request Response} (h : a.isForeign = true) :
    Loop.State.Stays a ∧ a ≠ .shutdown ∧ a.task? ≠ some 0 := by
  cases a <;> simp_all [Loop.Action.isForeign, Loop.State.Stays, Loop.Action.task?]

theorem Linked.foreign (hl : Linked h) {a : Loop.Action Request Response}
    {net : Loop.State Request Response} (hnet : h.net.step a = some net) (hfresh : h.net.Fresh a)
    (htask : a.task? ≠ some 0)
    (hup : h.serving.isOver = false → Loop.State.Stays a ∧ a ≠ .shutdown) :
    Linked { h with net } := by
  have hdoes := Loop.State.does_of_step hnet
  have hcallers := hdoes.callers_eq htask
  refine ⟨hl.sound.step hfresh hdoes, ?_, ?_, ?_⟩
  · intro hnot
    exact (hl.attended hnot).step (hup hnot).1 (hup hnot).2 hnet
  · intro hne
    rw [← hl.idle hne, Loop.State.idle, Loop.State.idle, hcallers]
  · intro hcalling
    rw [hcallers]
    exact hl.calling hcalling

theorem Linked.call (hl : Linked h) (hsel : h.serving = .selecting) {ask : Loop.Ask Request}
    (himm : ask.isImmediate = true) (bus taken : List Msg) :
    Linked { h with bus, taken, net := h.net.attempt 0 ask 0, serving := .calling } := by
  have hup := hl.attended (by rw [hsel]; rfl)
  have hidle := hl.idle (by rw [hsel]; simp)
  have hcall : h.net.step (.call 0 ask) = some (h.net.attempt 0 ask 0) := by
    simp [Loop.State.step, hidle]
  have hsound := hl.sound.step (a := .call 0 ask) trivial (Loop.State.does_of_step hcall)
  refine ⟨hsound, fun _ => ?_, by simp, fun _ => ?_⟩
  · exact hup.step ⟨by simp, by simp⟩ (by simp) hcall
  · refine ⟨ask, h.net.nextSender, ?_, himm⟩
    simp [Loop.State.attempt, hup.running, Loop.State.dispatch]

/-- The call of the server's loop returns, since it has no retries. -/
theorem Linked.back (hl : Linked h) (hcalling : h.serving = .calling)
    {net : Loop.State Request Response} (hnet : h.net.step (.wake 0) = some net) :
    net.idle 0 = true ∧ net.Sound ∧ net.Attended := by
  obtain ⟨ask, sender, hcaller, -⟩ := hl.calling hcalling
  have hup := hl.attended (by rw [hcalling]; rfl)
  have hdoes := Loop.State.does_of_step hnet
  have hsound := hl.sound.step (a := .wake 0) trivial hdoes
  refine ⟨?_, hsound, hup.step ⟨by simp, by simp⟩ (by simp) hnet⟩
  cases hdoes with
  | retry hi hout hretries =>
      obtain rfl := Option.some.inj (hcaller.symm.trans hi)
      cases hretries
  | finish hi hout => simp [Loop.State.idle]

theorem Linked.step (hl : Linked h) {a : HostAction} (hg : Guard svc codec S h a)
    (hd : Does svc codec h a h') : Linked h' := by
  have hover : ∀ {serving : Serving}, h.serving ≠ .calling → serving.isOver = true →
      Linked { h with serving } := by
    intro serving hne hover
    refine ⟨hl.sound, fun hnot => by simp [hover] at hnot, fun _ => hl.idle hne, ?_⟩
    rintro rfl
    cases hover
  cases hd with
  | net hforeign hnet =>
      obtain ⟨hstays, hshutdown, htask⟩ := stays_of_isForeign hforeign
      exact hl.foreign hnet hg htask fun _ => ⟨hstays, hshutdown⟩
  | publish hsel hbus hbytes => exact hl.call hsel rfl _ _
  | count hsel => exact hl.call hsel rfl _ _
  | event hsel hevent hhandles =>
      have hne : h.serving ≠ .calling := by rw [hsel]; simp
      cases hhandles with
      | sync peerId => exact ⟨hl.sound, hl.attended, hl.idle, hl.calling⟩
      | ignore hpeer hchannel => exact ⟨hl.sound, hl.attended, hl.idle, hl.calling⟩
      | gossip hok =>
          exact ⟨hl.sound, fun _ => hl.attended (by rw [hsel]; rfl), fun _ => hl.idle hne, by simp⟩
      | respond hanswer hnet =>
          have hlinked := hl.foreign hnet trivial (by simp [Loop.Action.task?])
            fun _ => ⟨⟨by simp, by simp⟩, by simp⟩
          exact ⟨hlinked.sound, hlinked.attended, hlinked.idle, hlinked.calling⟩
  | endBus hsel hclosed => exact hover (by rw [hsel]; simp) rfl
  | endEvents hsel hended => exact hover (by rw [hsel]; simp) rfl
  | endShutdown hsel hrequested => exact hover (by rw [hsel]; simp) rfl
  | addPanics hadding hpanic => exact hover (by rw [hadding]; simp) rfl
  | added hadding =>
      have hne : h.serving ≠ .calling := by rw [hadding]; simp
      exact ⟨hl.sound, fun _ => hl.attended (by rw [hadding]; rfl), fun _ => hl.idle hne, by simp⟩
  | back hcalling hnet =>
      obtain ⟨hidle, hsound, hup⟩ := hl.back hcalling hnet
      rw [hidle, if_pos rfl]
      exact ⟨hsound, fun _ => hup, fun _ => hidle, by simp⟩
  | dropEvents hover hnet =>
      exact hl.foreign hnet trivial (by simp [Loop.Action.task?]) fun hnot => by
        rw [hover] at hnot
        cases hnot
  | dropP2P hover hnet =>
      exact hl.foreign hnet trivial (by simp [Loop.Action.task?]) fun hnot => by
        rw [hover] at hnot
        cases hnot
  | _ => exact ⟨hl.sound, hl.attended, hl.idle, hl.calling⟩

/-! ## The loop and the book -/

/-- A call of `add_sci` that has begun and has not panicked. -/
def UnderWay (c : AddCall) : Prop := c ≠ .idle ∧ ∀ m, c ≠ .done (.panic m)

/-- The server's loop as the book sees it. -/
structure Kept (S : Set Quote) (h : Host ser) : Prop where
  stocked : ∃ gone, Mesh.Stocked S gone Set.univ h.node
  adding : h.serving = .adding → UnderWay (h.node.threads 0).call

theorem threads_zero_of_isForeign {node node' : Node ser} {a : NodeAction}
    (hforeign : a.isForeign = true) (hs : node.step svc a = some node') :
    node'.threads 0 = node.threads 0 := by
  have hset : ∀ {i : Nat} {t : Thread}, i ≠ 0 → (node.setThread i t).threads 0 = node.threads 0 :=
    fun hi => Function.update_of_ne (Ne.symm hi) _ _
  cases a with
  | append block => obtain rfl := Option.some.inj hs; rfl
  | submit i sci timestamp =>
      obtain ⟨-, rfl⟩ := Node.enter_some hs
      exact hset (by simpa [NodeAction.isForeign] using hforeign)
  | handleSciQuoteAdded i remoteQuote => cases hforeign
  | syncQuotesFromPeer i answers =>
      obtain ⟨-, rfl⟩ := Node.enter_some hs
      exact hset (by simpa [NodeAction.isForeign] using hforeign)
  | nextQuote i =>
      obtain ⟨remoteQuote, rest, -, rfl⟩ := Node.nextQuote_some hs
      exact hset (by simpa [NodeAction.isForeign] using hforeign)
  | advance i fault faults =>
      have hi : i ≠ 0 := by simpa [NodeAction.isForeign] using hforeign
      rcases Node.advance_cases hs with ⟨quote, c, -, rfl⟩ | ⟨c', -, rfl⟩
      · exact hset hi
      · exact hset hi
  | call faults c =>
      cases c with
      | addQuote quote => cases hs
      | _ => obtain rfl := Option.some.inj hs; rfl
  | rehash scis =>
      obtain ⟨book, -, rfl⟩ := Option.map_eq_some_iff.mp hs
      rfl
  | restart faults rows => cases hforeign

theorem underWay_ofOffer (hmc : svc.mc.ChecksLengths) (quote : Quote) :
    UnderWay (.ofOffer (peerOffer svc.mc quote)) := by
  cases hoffer : peerOffer svc.mc quote with
  | ok q => exact ⟨by simp [AddCall.ofOffer], by simp [AddCall.ofOffer]⟩
  | err e => exact ⟨by simp [AddCall.ofOffer], by simp [AddCall.ofOffer]⟩
  | panic m => exact absurd hoffer (Quote.new_ne_panic hmc _ _ _ m)

theorem underWay_advance (hS : Genuine svc.mc S) {node node' : Node ser} {gone : List Quote}
    (hstocked : Mesh.Stocked S gone Set.univ node) {i : Nat} {fault : Option String}
    {faults : Faults} (hs : node.advance i fault faults = some node') :
    UnderWay (node'.threads i).call := by
  rcases Node.advance_cases hs with ⟨quote, c, hi, rfl⟩ | ⟨c', hnext, rfl⟩
  · have hq : quote ∈ S := hstocked.calls i quote (by rw [hi]; rfl)
    simp only [Node.setThread, Function.update_self]
    refine ⟨by simp, fun m hm => ?_⟩
    exact NodeBook.addQuote_ne_panic hS hstocked.keyed faults hq m (AddCall.done.inj hm)
  · simp only [Node.setThread, Function.update_self]
    rcases AddCall.next_cases hnext with ⟨e, rfl⟩ | ⟨q, -, rfl, -⟩ | ⟨q, n, -, rfl, -⟩ |
      ⟨q, n, j, txOut, rest, -, rfl, -⟩
    · exact ⟨by simp, by simp⟩
    · exact ⟨by simp, by simp⟩
    · exact ⟨by simp, by simp⟩
    · exact ⟨by simp, by simp⟩

theorem Kept.step (hmc : svc.mc.ChecksLengths) (hS : Genuine svc.mc S) (hser : ser.Lossless)
    (hk : Kept S h) {a : HostAction} (hg : Guard svc codec S h a) (hd : Does svc codec h a h') :
    Kept S h' := by
  obtain ⟨gone, hstocked⟩ := hk.stocked
  cases hd with
  | node hforeign hnode =>
      refine ⟨⟨_, hstocked.step hS hser hg hnode⟩, fun hadding => ?_⟩
      rw [threads_zero_of_isForeign hforeign hnode]
      exact hk.adding hadding
  | @event event _ hsel hevent hhandles =>
      cases hhandles with
      | @gossip data quote hok =>
          refine ⟨⟨_, hstocked.setThread 0 fun q hq => ?_⟩, fun _ => ?_⟩
          · exact hg data quote q hevent hok (AddCall.quote?_ofOffer hq)
          · simp only [Node.setThread, Function.update_self]
            exact underWay_ofOffer hmc quote
      | _ => exact ⟨hk.stocked, hk.adding⟩
  | add hadding hnode =>
      have hnext := hstocked.step hS hser (a := .advance 0 _ _) trivial hnode
      exact ⟨⟨_, hnext⟩, fun _ => underWay_advance hS hstocked hnode⟩
  | @back _ _ net hcalling hnet =>
      refine ⟨hk.stocked, fun hadding => ?_⟩
      cases hidle : net.idle 0 <;> simp [hidle] at hadding
  | dropEvents hover hnet => exact ⟨hk.stocked, hk.adding⟩
  | dropP2P hover hnet => exact ⟨hk.stocked, hk.adding⟩
  | publish hsel hbus hbytes => exact ⟨hk.stocked, by simp⟩
  | count hsel => exact ⟨hk.stocked, by simp⟩
  | endBus hsel hclosed => exact ⟨hk.stocked, by simp⟩
  | endEvents hsel hended => exact ⟨hk.stocked, by simp⟩
  | endShutdown hsel hrequested => exact ⟨hk.stocked, by simp⟩
  | added hadding => exact ⟨hk.stocked, by simp⟩
  | addPanics hadding hpanic => exact ⟨hk.stocked, by simp⟩
  | _ => exact ⟨hk.stocked, hk.adding⟩

/-- Both sides, and why the loop is over if it is. -/
structure Serves (S : Set Quote) (h : Host ser) : Prop where
  linked : Linked h
  kept : Kept S h
  unpanicked : ∀ m, h.serving ≠ .panicked m
  ended : h.serving = .ended → h.shutdownRequested = true ∨ h.busOpen = false

theorem Serves.step (hmc : svc.mc.ChecksLengths) (hS : Genuine svc.mc S) (hser : ser.Lossless)
    (hv : Serves S h) {a : HostAction} (hg : Guard svc codec S h a)
    (hs : h.step svc codec a = some h') : Serves S h' := by
  have hd := does_of_step hs
  have hlinked := hv.linked.step hg hd
  have hkept := hv.kept.step hmc hS hser hg hd
  cases hd with
  | closeBus => exact ⟨hlinked, hkept, hv.unpanicked, fun _ => .inr rfl⟩
  | shutdown => exact ⟨hlinked, hkept, hv.unpanicked, fun _ => .inl rfl⟩
  | event hsel hevent hhandles =>
      cases hhandles with
      | gossip hok => exact ⟨hlinked, hkept, by simp, by simp⟩
      | _ => exact ⟨hlinked, hkept, hv.unpanicked, hv.ended⟩
  | endBus hsel hclosed => exact ⟨hlinked, hkept, by simp, fun _ => .inr hclosed⟩
  | endEvents hsel hended =>
      exact absurd (hv.linked.attended (by rw [hsel]; rfl)).running hended
  | endShutdown hsel hrequested => exact ⟨hlinked, hkept, by simp, fun _ => .inl hrequested⟩
  | addPanics hadding hpanic => exact absurd hpanic ((hv.kept.adding hadding).2 _)
  | @back _ _ net hcalling hnet =>
      refine ⟨hlinked, hkept, ?_, ?_⟩
      · cases hidle : net.idle 0 <;> simp
      · cases hidle : net.idle 0 <;> simp
  | publish hsel hbus hbytes => exact ⟨hlinked, hkept, by simp, by simp⟩
  | count hsel => exact ⟨hlinked, hkept, by simp, by simp⟩
  | added hadding => exact ⟨hlinked, hkept, by simp, by simp⟩
  | _ => exact ⟨hlinked, hkept, hv.unpanicked, hv.ended⟩

/-! ## The loop comes back to its `select!` -/

/-- The loop takes up nothing new. -/
def Busy (svc : ClientService) (codec : GossipCodec) (S : Set Quote) (h : Host ser)
    (a : HostAction) : Prop := Guard svc codec S h a ∧ a.isBranch = false

theorem selecting_of_run (hrun : Lts.Run (step svc codec) (Busy svc codec S) h bs h')
    (hsel : h.serving = .selecting) : h'.serving = .selecting := by
  refine hrun.inv (fun h => h.serving = .selecting) ?_ hsel
  intro h a h' hsel hg hs
  have hne : ∀ {serving : Serving}, serving ≠ .selecting → h.serving ≠ serving := by
    intro serving hne heq
    exact hne (heq.symm.trans hsel)
  have hnot := hg.2
  cases does_of_step hs with
  | post msg => exact hsel
  | closeBus => exact hsel
  | shutdown => exact hsel
  | net hforeign hnet => exact hsel
  | node hforeign hnode => exact hsel
  | add hadding hnode => exact absurd hadding (hne (by simp))
  | added hadding => rfl
  | addPanics hadding hpanic => exact absurd hadding (hne (by simp))
  | back hcalling hnet => exact absurd hcalling (hne (by simp))
  | dropEvents hover hnet => exact hsel
  | dropP2P hover hnet => exact hsel
  | _ => cases hnot

theorem adding_of_step (hv : Serves S h) (hadding : h.serving = .adding) {a : HostAction}
    (hnot : a.isBranch = false) (hs : h.step svc codec a = some h') :
    h'.serving = .selecting ∨ h'.serving = .adding ∧
      (h'.node.threads 0).call.stepsLeft + (if a.isResume then 1 else 0) ≤
        (h.node.threads 0).call.stepsLeft := by
  cases does_of_step hs with
  | post msg => exact .inr ⟨hadding, Nat.le_refl _⟩
  | closeBus => exact .inr ⟨hadding, Nat.le_refl _⟩
  | shutdown => exact .inr ⟨hadding, Nat.le_refl _⟩
  | net hforeign hnet => exact .inr ⟨hadding, Nat.le_refl _⟩
  | node hforeign hnode =>
      refine .inr ⟨hadding, ?_⟩
      rw [threads_zero_of_isForeign hforeign hnode]
      exact Nat.le_refl _
  | add _ hnode => exact .inr ⟨hadding, Node.stepsLeft_advance hnode⟩
  | added _ => exact .inl rfl
  | addPanics _ hpanic => exact absurd hpanic ((hv.kept.adding hadding).2 _)
  | back hcalling hnet => exact absurd (hcalling.symm.trans hadding) (by simp)
  | dropEvents hover hnet => rw [hadding] at hover; cases hover
  | dropP2P hover hnet => rw [hadding] at hover; cases hover
  | _ => cases hnot

theorem selecting_of_adding (hmc : svc.mc.ChecksLengths) (hS : Genuine svc.mc S)
    (hser : ser.Lossless) (hrun : Lts.Run (step svc codec) (Busy svc codec S) h bs h')
    (hv : Serves S h) (hadding : h.serving = .adding)
    (hcount : (h.node.threads 0).call.stepsLeft < bs.countP HostAction.isResume) :
    h'.serving = .selecting := by
  refine hrun.reaches HostAction.isResume (fun _ => false)
    (fun h => (h.node.threads 0).call.stepsLeft)
    (fun h => Serves S h ∧ (h.serving = .adding ∨ h.serving = .selecting))
    (fun h => h.serving = .selecting) ?_ ?_ ?_ ⟨hv, .inl hadding⟩ (by simpa using hcount)
  · rintro h a h' ⟨hv, hadding | hsel⟩ hg hs
    · exact ⟨hv.step hmc hS hser hg.1 hs,
        (adding_of_step hv hadding hg.2 hs).symm.imp And.left id⟩
    · exact ⟨hv.step hmc hS hser hg.1 hs, .inr (selecting_of_run (.single hg hs) hsel)⟩
  · intro h a h' _ hsel hg hs
    exact selecting_of_run (.single hg hs) hsel
  · rintro h a h' ⟨hv, hadding | hsel⟩ hnot hg hs
    · exact (adding_of_step hv hadding hg.2 hs).imp id fun hle => by simpa using hle.2
    · exact absurd hsel hnot

/-- **The queue while the loop waits.**  It is back, or it still waits, and what has been handled
since stood before what has been sent since. -/
theorem calling_of_run (hmc : svc.mc.ChecksLengths) (hS : Genuine svc.mc S) (hser : ser.Lossless)
    (hrun : Lts.Run (step svc codec) (Busy svc codec S) h bs h')
    (hv : Serves S h) (hcalling : h.serving = .calling) :
    h'.serving = .selecting ∨ h'.serving = .calling ∧ h'.net.callers 0 = h.net.callers 0 ∧
      ∃ old new, h.net.commands ++ new = old ++ h'.net.commands ∧
        old.length = bs.countP HostAction.handlesCommand ∧
        ∀ c ∈ new, ∀ sender, c.responseSender? = some sender → h.net.nextSender ≤ sender := by
  induction hrun with
  | nil h => exact .inr ⟨hcalling, rfl, [], [], List.append_nil _, rfl, by simp⟩
  | @cons h h₁ h' a bs hg hs hrest ih =>
      have hv₁ := hv.step hmc hS hser hg.1 hs
      have hother : h₁.serving = h.serving → h₁.net = h.net → a.handlesCommand = false →
          h'.serving = .selecting ∨ h'.serving = .calling ∧
            h'.net.callers 0 = h.net.callers 0 ∧
            ∃ old new, h.net.commands ++ new = old ++ h'.net.commands ∧
              old.length = (a :: bs).countP HostAction.handlesCommand ∧
              ∀ c ∈ new, ∀ sender, c.responseSender? = some sender → h.net.nextSender ≤ sender := by
        intro hserving hnet hcounted
        rw [← hnet, List.countP_cons, hcounted]
        exact ih hv₁ (hserving.trans hcalling)
      cases does_of_step hs with
      | post msg => exact hother rfl rfl rfl
      | closeBus => exact hother rfl rfl rfl
      | shutdown => exact hother rfl rfl rfl
      | node hforeign hnode => exact hother rfl rfl rfl
      | @net b net hforeign hnet =>
          have hdoes := Loop.State.does_of_step hnet
          obtain ⟨-, -, htask⟩ := stays_of_isForeign hforeign
          have hup := hv.linked.attended (by rw [hcalling]; rfl)
          obtain ⟨hle, old, new, hqueue, hlen, hfresh⟩ := hdoes.fifo hup.intact
          refine (ih hv₁ hcalling).imp id ?_
          rintro ⟨hstill, hcallers, old', new', hqueue', hlen', hfresh'⟩
          refine ⟨hstill, hcallers.trans (hdoes.callers_eq htask), old ++ old', new ++ new', ?_,
            ?_, ?_⟩
          · rw [← List.append_assoc, hqueue, List.append_assoc, hqueue', List.append_assoc]
          · rw [List.length_append, hlen, hlen', List.countP_cons, Nat.add_comm]
            rfl
          · intro c hc sender hsender
            rcases List.mem_append.mp hc with hc | hc
            · exact hfresh c hc sender hsender
            · exact Nat.le_trans hle (hfresh' c hc sender hsender)
      | back _ hnet =>
          obtain ⟨hidle, -, -⟩ := hv.linked.back hcalling hnet
          exact .inl (selecting_of_run hrest (if_pos hidle))
      | add hadding hnode => exact absurd (hadding.symm.trans hcalling) (by simp)
      | added hadding => exact absurd (hadding.symm.trans hcalling) (by simp)
      | addPanics hadding hpanic => exact absurd (hadding.symm.trans hcalling) (by simp)
      | dropEvents hover hnet => rw [hcalling] at hover; cases hover
      | dropP2P hover hnet => rw [hcalling] at hover; cases hover
      | _ => cases hg.2

theorem resume_of_adding (hv : Serves S h) (hadding : h.serving = .adding)
    (fault : Option String) (faults : Faults) :
    ∃ h₁, h.step svc codec (.resume fault faults) = some h₁ := by
  obtain ⟨hbegun, -⟩ := hv.kept.adding hadding
  simp only [Host.step, hadding, resumeAdding, Node.advance]
  cases hcall : (h.node.threads 0).call with
  | idle => exact absurd hcall hbegun
  | start q => exact ⟨_, rfl⟩
  | readBlocks q n => exact ⟨_, rfl⟩
  | checkingRing q n rest => cases rest <;> exact ⟨_, rfl⟩
  | done r => cases r <;> exact ⟨_, rfl⟩

theorem resume_of_handled (hv : Serves S h) (hv' : Serves S h')
    (hcalling : h'.serving = .calling) (hcallers : h'.net.callers 0 = h.net.callers 0)
    {old new : List (Loop.Command Request Response)}
    (hqueue : h.net.commands ++ new = old ++ h'.net.commands)
    (hlen : h.net.commands.length ≤ old.length)
    (hfresh : ∀ c ∈ new, ∀ sender, c.responseSender? = some sender → h.net.nextSender ≤ sender)
    (fault : Option String) (faults : Faults) :
    ∃ h'', h'.step svc codec (.resume fault faults) = some h'' ∧ h''.serving = .selecting := by
  obtain ⟨ask, sender, hcaller, himm⟩ := hv'.linked.calling hcalling
  cases hwake : h'.net.wake 0 with
  | some net =>
      obtain ⟨hidle, -, -⟩ := hv'.linked.back hcalling hwake
      refine ⟨{ h' with net, serving := .selecting }, ?_, rfl⟩
      simp [Host.step, hcalling, resumeCalling, hwake, hidle]
  | none =>
      -- it would still be in the queue, behind commands that were sent after it
      have hin := hv'.linked.sound.queued_of_blocked hcaller himm hwake
      have hnew : .ask ask sender ∈ new := by
        rcases List.append_eq_append_iff.mp hqueue with ⟨rest, -, rfl⟩ | ⟨rest, heq, hsuffix⟩
        · exact List.mem_append_right _ hin
        · rw [heq, List.length_append] at hlen
          obtain rfl : rest = [] := List.eq_nil_of_length_eq_zero (by omega)
          simpa [hsuffix] using hin
      have hbelow : sender < h.net.nextSender := by
        have hsound := hv.linked.sound.callers 0 _ (hcallers ▸ hcaller)
        exact hv.linked.sound.below sender (hsound.waiting sender rfl).2
      exact absurd (hfresh _ hnew sender rfl) (Nat.not_le.mpr hbelow)

/-! ## When the loop starts -/

/-- What the event loop finds when it starts: a network loop that has bootstrapped and that
others, `P2P::new` among them, have called; and a book of quotes of `S`. -/
structure Ready (S : Set Quote) (net : Loop.State Request Response) (book : NodeBook ser) :
    Prop where
  started : ∃ kademlia bootstrapPeers startup,
    Loop.bootstrap kademlia bootstrapPeers = .ok () ∧ (∀ a ∈ startup, a.isForeign = true) ∧
      Lts.Run Loop.State.step Loop.State.Fresh (.start kademlia bootstrapPeers) startup net
  keyed : book.inner.Keyed S
  rows : ∀ r ∈ book.rows, ∃ q ∈ S, r = Row.ofQuote ser q

theorem serves_initial {net : Loop.State Request Response} {book : NodeBook ser}
    (hready : Ready S net book) (ledger : Ledger) :
    Serves S (initial net (.initial ledger book)) := by
  obtain ⟨kademlia, bootstrapPeers, startup, hboot, hforeign, hrun⟩ := hready.started
  have hup : net.Attended := by
    refine Loop.State.attended_of_run hboot (fun a ha => ?_) hrun
    obtain ⟨hstays, hshutdown, -⟩ := stays_of_isForeign (hforeign a ha)
    exact ⟨hstays, hshutdown⟩
  have hcallers : net.callers 0 = none := by
    refine hrun.recorded.inv (fun s => s.callers 0 = none) ?_ rfl
    intro s a s' hnone hg hs
    obtain ⟨-, -, htask⟩ := stays_of_isForeign (hforeign a hg.2.mem)
    exact ((Loop.State.does_of_step hs).callers_eq htask).trans hnone
  have hidle : net.idle 0 = true := by simp [Loop.State.idle, hcallers]
  refine ⟨⟨Loop.State.sound_of_run hrun, fun _ => hup, fun _ => hidle, ?_⟩, ⟨⟨[], ?_⟩, ?_⟩,
    ?_, ?_⟩
  · intro hcalling
    cases hcalling
  · refine ⟨hready.keyed, fun r hr => ?_, fun i q hq => by cases hq⟩
    obtain ⟨q, hq, hrow⟩ := hready.rows r hr
    exact ⟨q, hq, hrow, .inr (.inr trivial)⟩
  · intro hadding
    cases hadding
  · intro m hm
    cases hm
  · intro hended
    cases hended

/-! ## A server that is asked and told something -/

/-- The sample offers, checked for their amounts. -/
def countingService : ClientService :=
  ⟨sampleFillCore, sampleCodec, quoteMinimumValidator fun _ => none⟩

def tagCodec : GossipCodec where
  serialize quote := .ok quote.sci.rest
  deserialize
    | [tag] => .ok (sampleQuote tag 10 20 100 7)
    | _ => .error "not a quote"

theorem sampleQuote_made_counting (tag : UInt8) :
    (sampleQuote tag 10 20 100 7).Made countingService.mc := by
  exact ⟨none, sampleSci tag 10 20 100, some 7, rfl⟩

theorem genuine_counting : Genuine countingService.mc {sampleQuote 1 10 20 100 7} where
  made := by
    rintro q rfl
    exact sampleQuote_made_counting 1
  collisionFree := by
    rintro q q' rfl rfl _
    rfl

def quietNet : Loop.State Request Response := .start Loop.State.quietKademlia []

theorem ready_quiet :
    Ready {sampleQuote 1 10 20 100 7} quietNet (.inMemory .default : NodeBook sampleSerial) where
  started := ⟨Loop.State.quietKademlia, [], [], rfl, fun a ha => (by cases ha), .nil _⟩
  keyed := InMemoryQuoteBook.keyed_default
  rows := fun r hr => (by cases hr)

/-- A peer connects, asks for all quotes and tells of a quote, and the loop takes up all three. -/
def told : List HostAction :=
  [.net (.handleSwarmEvent (.connectionEstablished ⟨[2]⟩ 1)),
    .net (.handleSwarmEvent (.request ⟨[2]⟩ .getAllQuoteIds 5)),
    .net (.handleSwarmEvent (.gossipMessage MSG_BUS_TOPIC [1])), .recvEvent, .recvEvent, .recvEvent]

/-- The steps of `add_quote`, and the return. -/
def resumed : List HostAction := .replicate 4 (.resume none .none)

/-- The callback of the book puts the quote on the bus, and the loop takes it up. -/
def published : List HostAction :=
  [.post (.sciQuoteAdded (sampleQuote 1 10 20 100 7)), .recvMsg]

def visited : List HostAction := told ++ (resumed ++ published)

def bothHandled : List HostAction :=
  [.net (.handleCommand (Loop.State.quietSwarm 0)), .net (.handleCommand (Loop.State.quietSwarm 0))]

/-- The run of `visited`, cut where the loop adds the quote and where it is about to be called
back. -/
theorem told_run : ∃ h : Host sampleSerial,
    Lts.Run (step countingService tagCodec)
      (Guard countingService tagCodec {sampleQuote 1 10 20 100 7})
      (initial quietNet (.initial Sync.origin (.inMemory .default))) told h ∧
    h.serving = .adding ∧ (h.node.threads 0).call.stepsLeft = 3 ∧ ∃ h₁ : Host sampleSerial,
    Lts.Run (step countingService tagCodec)
      (Busy countingService tagCodec {sampleQuote 1 10 20 100 7}) h resumed h₁ ∧
    ∃ h₂ : Host sampleSerial, Lts.Run (step countingService tagCodec)
      (Guard countingService tagCodec {sampleQuote 1 10 20 100 7}) h₁ published h₂ ∧
    h₂.serving = .calling ∧ h₂.net.commands.length = 2 ∧
    h₂.taken = [.sciQuoteAdded (sampleQuote 1 10 20 100 7)] ∧ h₂.read = 3 ∧
    h₂.node.book.inner.quotes = [sampleQuote 1 10 20 100 7] ∧ ∃ h₃ : Host sampleSerial,
    Lts.Run (step countingService tagCodec)
      (Busy countingService tagCodec {sampleQuote 1 10 20 100 7}) h₂ bothHandled h₃ ∧
    h₃.serving = .calling := by
  refine ⟨_, .cons trivial rfl (.cons trivial rfl (.cons trivial rfl (.cons ?_ rfl
    (.cons ?_ rfl (.cons ?_ rfl (.nil _)))))), rfl, rfl, ?_⟩
  · rintro data quote q hevent
    cases hevent
  · rintro data quote q hevent
    cases hevent
  · rintro data quote q ⟨⟩ ⟨⟩ ⟨⟩
    rfl
  refine ⟨_, .cons ⟨trivial, rfl⟩ rfl (.cons ⟨trivial, rfl⟩ rfl (.cons ⟨trivial, rfl⟩ rfl
    (.cons ⟨trivial, rfl⟩ rfl (.nil _)))), ?_⟩
  refine ⟨_, .cons trivial rfl (.cons trivial rfl (.nil _)), rfl, rfl, rfl, rfl, rfl, ?_⟩
  refine ⟨_, .cons ⟨?_, rfl⟩ rfl (.cons ⟨?_, rfl⟩ rfl (.nil _)), rfl⟩
  · exact ⟨List.not_mem_nil, fun _ _ _ => List.not_mem_nil⟩
  · exact ⟨List.not_mem_nil, fun _ _ _ => List.not_mem_nil⟩

theorem visited_run : ∃ h : Host sampleSerial,
    Lts.Run (step countingService tagCodec)
      (Guard countingService tagCodec {sampleQuote 1 10 20 100 7})
      (initial quietNet (.initial Sync.origin (.inMemory .default))) visited h ∧
    h.serving = .calling ∧ h.net.commands.length = 2 ∧
    h.taken = [.sciQuoteAdded (sampleQuote 1 10 20 100 7)] ∧ h.read = 3 ∧
    h.node.book.inner.quotes = [sampleQuote 1 10 20 100 7] ∧ ∃ h' : Host sampleSerial,
      Lts.Run (step countingService tagCodec)
        (Busy countingService tagCodec {sampleQuote 1 10 20 100 7}) h bothHandled h' ∧
      h'.serving = .calling := by
  obtain ⟨h, htold, -, -, h₁, hresumed, h₂, hpublished, hrest⟩ := told_run
  exact ⟨h₂, htold.append ((hresumed.mono fun hg => hg.1).append hpublished), hrest⟩

/-! ## The results -/

section Runs

variable (hmc : svc.mc.ChecksLengths) (hS : Genuine svc.mc S) (hser : ser.Lossless)
  {net : Loop.State Request Response} {book : NodeBook ser} (hready : Ready S net book)
  {ledger : Ledger}

include hmc hS hser hready

theorem serves_of_run (hrun : Lts.Run (step svc codec) (Guard svc codec S)
    (initial net (.initial ledger book)) as h) : Serves S h :=
  hrun.inv (Serves S) (fun hv hg hs => hv.step hmc hS hser hg hs) (serves_initial hready ledger)

omit hmc hS hser hready in
theorem asked_of_run (hrun : Lts.Run (step svc codec) (Guard svc codec S)
    (initial net (.initial ledger book)) as h) :
    (h.shutdownRequested = true → .shutdown ∈ as) ∧ (h.busOpen = false → .closeBus ∈ as) := by
  refine hrun.recorded.inv (fun h => (h.shutdownRequested = true → .shutdown ∈ as) ∧
    (h.busOpen = false → .closeBus ∈ as)) ?_ ⟨fun hf => (by cases hf), fun hf => (by cases hf)⟩
  intro h a h' hi hg hs
  have hmem := hg.2.mem
  cases does_of_step hs with
  | shutdown => exact ⟨fun _ => hmem, hi.2⟩
  | closeBus => exact ⟨hi.1, fun _ => hmem⟩
  | event hsel hevent hhandles => cases hhandles <;> exact hi
  | _ => exact hi

/-- **The server stays up.**  Whatever clients and peers send, and whatever fails in the ledger
and in the database, the event loop of the server and the network loop go on until the server is
shut down or the bus is closed; and the event loop never panics. -/
theorem stays_up (hrun : Lts.Run (step svc codec) (Guard svc codec S)
    (initial net (.initial ledger book)) as h) :
    h.serving.isOver = false ∧ h.net.status = .running ∨
      h.serving = .ended ∧ (.shutdown ∈ as ∨ .closeBus ∈ as) := by
  have hv := serves_of_run hmc hS hser hready hrun
  obtain ⟨hshutdown, hclose⟩ := asked_of_run hrun
  cases hserving : h.serving with
  | panicked m => exact absurd hserving (hv.unpanicked m)
  | ended => exact .inr ⟨rfl, (hv.ended hserving).imp hshutdown hclose⟩
  | selecting => exact .inl ⟨rfl, (hv.linked.attended (by rw [hserving]; rfl)).running⟩
  | adding => exact .inl ⟨rfl, (hv.linked.attended (by rw [hserving]; rfl)).running⟩
  | calling => exact .inl ⟨rfl, (hv.linked.attended (by rw [hserving]; rfl)).running⟩

omit hmc hS hser hready in
/-- The server of the example is up. -/
theorem visited_stays_up : ∃ h : Host sampleSerial,
    Lts.Run (step countingService tagCodec)
      (Guard countingService tagCodec {sampleQuote 1 10 20 100 7})
      (initial quietNet (.initial Sync.origin (.inMemory .default))) visited h ∧
    h.node.book.inner.quotes = [sampleQuote 1 10 20 100 7] ∧
    h.serving.isOver = false ∧ h.net.status = .running := by
  obtain ⟨h, hrun, -, -, -, -, hquotes, -⟩ := visited_run
  have hup := stays_up sampleFillCore_checksLengths genuine_counting sampleSerial_lossless
    ready_quiet hrun
  exact ⟨h, hrun, hquotes, hup.resolve_right (by simp [visited, told, resumed, published])⟩

/-- **The server's loop is never stuck.**  From any point of any run, while it takes up nothing
new: a quote from gossip is added or turned away within as many steps as `add_quote` has left, and
one more, none of which it has to wait for; and a call of the client can return, or has, once the
network loop has handled as many commands as were then in its queue. -/
theorem never_stuck (hrun : Lts.Run (step svc codec) (Guard svc codec S)
    (initial net (.initial ledger book)) as h)
    (hlater : Lts.Run (step svc codec) (Busy svc codec S) h bs h') :
    (h.serving = .adding →
      (∀ fault faults, ∃ h₁, h.step svc codec (.resume fault faults) = some h₁) ∧
      ((h.node.threads 0).call.stepsLeft < bs.countP HostAction.isResume →
        h'.serving = .selecting)) ∧
    (h.serving = .calling → h.net.commands.length ≤ bs.countP HostAction.handlesCommand →
      h'.serving = .selecting ∨ ∀ fault faults, ∃ h₁,
        h'.step svc codec (.resume fault faults) = some h₁ ∧ h₁.serving = .selecting) := by
  have hv := serves_of_run hmc hS hser hready hrun
  refine ⟨fun hadding => ⟨?_, selecting_of_adding hmc hS hser hlater hv hadding⟩, ?_⟩
  · exact resume_of_adding hv hadding
  · intro hcalling hcount
    have hv' : Serves S h' :=
      hlater.inv (Serves S) (fun hv hg hs => hv.step hmc hS hser hg.1 hs) hv
    refine (calling_of_run hmc hS hser hlater hv hcalling).imp id ?_
    rintro ⟨hstill, hcallers, old, new, hqueue, hlen, hfresh⟩
    exact resume_of_handled hv hv' hstill hcallers hqueue (hlen ▸ hcount) hfresh

omit hmc hS hser hready in
/-- The quote is added after four steps, and the call can return after the two commands. -/
theorem visited_never_stuck : (∃ h h' : Host sampleSerial,
    Lts.Run (step countingService tagCodec)
      (Guard countingService tagCodec {sampleQuote 1 10 20 100 7})
      (initial quietNet (.initial Sync.origin (.inMemory .default))) told h ∧ h.serving = .adding ∧
    Lts.Run (step countingService tagCodec)
      (Busy countingService tagCodec {sampleQuote 1 10 20 100 7}) h resumed h' ∧
    h'.serving = .selecting) ∧
    ∃ h h' : Host sampleSerial,
    Lts.Run (step countingService tagCodec)
      (Guard countingService tagCodec {sampleQuote 1 10 20 100 7})
      (initial quietNet (.initial Sync.origin (.inMemory .default))) visited h ∧
    h.serving = .calling ∧
    Lts.Run (step countingService tagCodec)
      (Busy countingService tagCodec {sampleQuote 1 10 20 100 7}) h bothHandled h' ∧
    ∀ fault faults, ∃ h₁, h'.step countingService tagCodec (.resume fault faults) = some h₁ ∧
      h₁.serving = .selecting := by
  constructor
  · obtain ⟨h, hrun, hadding, hleft, h', hlater, -⟩ := told_run
    have hstuck := never_stuck sampleFillCore_checksLengths genuine_counting
      sampleSerial_lossless ready_quiet hrun hlater
    exact ⟨h, h', hrun, hadding, hlater, (hstuck.1 hadding).2 (by rw [hleft]; decide)⟩
  · obtain ⟨h, hrun, hcalling, hlen, -, -, -, h', hlater, hstill⟩ := visited_run
    have hstuck := never_stuck sampleFillCore_checksLengths genuine_counting
      sampleSerial_lossless ready_quiet hrun hlater
    refine ⟨h, h', hrun, hcalling, hlater, ?_⟩
    exact (hstuck.2 hcalling (by rw [hlen]; decide)).resolve_left (by simp [hstill])

end Runs

end P2P.Host

end Deqs
