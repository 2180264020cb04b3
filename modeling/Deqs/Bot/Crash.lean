/-
# The wallet and its crashes

A turn of the wallet's loop announces its blocks one by one and writes its file at the end.
The file is written in place (`fs::write`), so a process that dies leaves one of these behind:

| it dies | the file |
| :-- | :-- |
| before the write | is the one of the turn before |
| during the write | is the beginning of the new one |
| after the write | is the new one |

In the first case blocks have been announced that the next process will announce again; in the
second there is no next process: `State::load` fails, `main` gives up, and so does every later
attempt, until somebody removes the file.

Over whole lives,

    announced_through_crashes    an announcement is repeated, but never altered and never missing
    starts_or_locked_out         a start works, unless a write was cut short, and then none does
    bot_after_crashes            the bot of the last process ends with the unspent TxOuts
-/
import Deqs.Bot.Life

namespace Deqs.Bot

open Sync (Block)

namespace Wallet

namespace Life

variable (codec : StateCodec) (accountKey : AccountKey) (chain : Nat → Block) (first : Nat)

/-! ## Replays -/

/-- A process at work.  It has not yet announced what is ahead of it. -/
structure Up (l : Life) (state : State) (phase : Phase) : Prop where
  follows : Follows accountKey chain first state
  reached : Reached accountKey chain first l.log state.nextBlockIndex
  phase : phase = .waiting ∨ ∃ m, phase = .processing
      ((List.range' state.nextBlockIndex m).map (Wallet.scanned accountKey chain)) ∧
    state.nextBlockIndex + m ≤ max state.nextBlockIndex l.numBlocks
  ahead : ∀ i, state.nextBlockIndex ≤ i →
    l.log.countP (fun e => e.blockIndex = i) < l.starts

/-- What has been announced, and what the file can be. -/
structure Replaying (l : Life) : Prop where
  events : ∀ e ∈ l.log, first ≤ e.blockIndex ∧ e.blockIndex < l.numBlocks ∧
    e = eventAt accountKey chain first e.blockIndex ∧
      Reached accountKey chain first l.log e.blockIndex
  count : ∀ i, l.log.countP (fun e => e.blockIndex = i) ≤ l.starts
  up : ∀ state phase, l.worker = some (state, phase) → Up accountKey chain first l state phase
  file : ∀ bytes, l.file = some bytes → ∃ state whole n, codec.serialize state = .ok whole ∧
    bytes = whole.take n ∧ Follows accountKey chain first state ∧
      Reached accountKey chain first l.log state.nextBlockIndex

variable {codec accountKey chain first} {l l' : Life}

theorem replaying_initial (numBlocks : Nat) :
    Replaying codec accountKey chain first (initial numBlocks) where
  events := fun e he => absurd he List.not_mem_nil
  count := fun i => Nat.zero_le _
  up := fun state phase h => by cases h
  file := fun bytes h => by cases h

theorem Replaying.down (h : Replaying codec accountKey chain first l) :
    Replaying codec accountKey chain first { l with worker := none } :=
  ⟨h.events, h.count, fun state phase hw => (by cases hw), h.file⟩

/-- A state that is loaded is one that was saved, or the first one. -/
theorem Replaying.load (hcodec : codec.Faithful) (h : Replaying codec accountKey chain first l)
    {fault : Option String} {state : State}
    (hload : State.load codec fault l.file first = .ok state) :
    Follows accountKey chain first state ∧
      Reached accountKey chain first l.log state.nextBlockIndex := by
  cases hf : l.file with
  | none =>
      simp only [State.load, hf, Except.ok.injEq] at hload
      subst hload
      exact ⟨follows_fresh, fun i hle hlt => absurd hlt (Nat.not_lt.mpr hle)⟩
  | some bytes =>
      obtain ⟨saved, whole, n, hwhole, rfl, hfollows, hreached⟩ := h.file bytes hf
      cases fault with
      | some e => simp [State.load, hf] at hload
      | none =>
          simp only [State.load, hf] at hload
          rcases Nat.lt_or_ge n whole.length with hlt | hge
          · obtain ⟨e, he⟩ := hcodec.torn hwhole hlt
            rw [he] at hload
            cases hload
          · obtain ⟨matchedTxOuts, hread, hreorder⟩ := hcodec.read hwhole
            rw [List.take_of_length_le hge, hread] at hload
            obtain rfl := Except.ok.inj hload
            exact ⟨hfollows.reorder hreorder, hreached⟩

theorem result_scanned (l : Life) (state : State) (results : List ScannedBlock) :
    l.result state (Wallet.scanned accountKey chain state.nextBlockIndex) results =
      { l with
        worker := some ((scanNext accountKey state (chain state.nextBlockIndex)).1,
          .processing results)
        log := l.log ++ [(scanNext accountKey state (chain state.nextBlockIndex)).2] } := by
  have hindex : (Wallet.scanned accountKey chain state.nextBlockIndex).blockIndex =
      state.nextBlockIndex := rfl
  rw [Life.result, processResult, Outcome.assert_bind hindex]
  rfl

theorem Up.results {state : State} {r : ScannedBlock} {results : List ScannedBlock}
    (h : Up accountKey chain first l state (.processing (r :: results))) :
    ∃ m, r = Wallet.scanned accountKey chain state.nextBlockIndex ∧
      results = (List.range' (state.nextBlockIndex + 1) m).map (Wallet.scanned accountKey chain) ∧
      state.nextBlockIndex + (m + 1) ≤ l.numBlocks := by
  obtain ⟨m, hm, hle⟩ := h.phase.resolve_left (by simp)
  cases m with
  | zero => simp at hm
  | succ m =>
      rw [List.range'_succ, List.map_cons, Phase.processing.injEq, List.cons.injEq] at hm
      exact ⟨m, hm.1, hm.2, by omega⟩

/-- **The next of the results is announced**: everything before it has been. -/
theorem Replaying.result (h : Replaying codec accountKey chain first l) {state : State}
    {r : ScannedBlock} {results : List ScannedBlock}
    (hup : l.worker = some (state, .processing (r :: results))) :
    Replaying codec accountKey chain first (l.result state r results) := by
  have hstate := h.up _ _ hup
  obtain ⟨m, rfl, rfl, hle⟩ := hstate.results
  obtain ⟨hevent, hfollows⟩ := hstate.follows.scanNext
  have hindex : (eventAt accountKey chain first state.nextBlockIndex).blockIndex =
      state.nextBlockIndex := blockIndex_eventAt hstate.follows.le
  have hsub : l.log ⊆ l.log ++ [eventAt accountKey chain first state.nextBlockIndex] :=
    List.subset_append_left _ _
  rw [result_scanned, hevent]
  refine ⟨?_, ?_, ?_, ?_⟩
  · intro e he
    rcases List.mem_append.mp he with he | he
    · obtain ⟨hfirst, hlt, heq, hr⟩ := h.events e he
      exact ⟨hfirst, hlt, heq, hr.mono hsub⟩
    · obtain rfl := List.mem_singleton.mp he
      rw [hindex]
      exact ⟨hstate.follows.le, by show _ < l.numBlocks; omega, rfl, hstate.reached.mono hsub⟩
  · intro i
    rw [List.countP_append, List.countP_singleton, hindex]
    split
    · next hi => exact hstate.ahead i (Nat.le_of_eq (of_decide_eq_true hi))
    · exact h.count i
  · rintro _ _ ⟨⟩
    refine ⟨hfollows, ?_, .inr ⟨m, rfl, ?_⟩, ?_⟩
    · intro i hfirst hlt
      rcases Nat.lt_succ_iff_lt_or_eq.mp hlt with hlt | rfl
      · exact hsub (hstate.reached i hfirst hlt)
      · exact List.mem_append_right _ (List.mem_singleton.mpr rfl)
    · show state.nextBlockIndex + 1 + m ≤ max (state.nextBlockIndex + 1) l.numBlocks
      omega
    · -- the block that was announced is not ahead any more
      intro i hi
      have hne : (eventAt accountKey chain first state.nextBlockIndex).blockIndex ≠ i := by
        rw [hindex]
        exact Nat.ne_of_lt hi
      rw [List.countP_append, List.countP_singleton, if_neg (by simpa using hne)]
      exact hstate.ahead i (Nat.le_of_succ_le hi)
  · intro bytes hf
    obtain ⟨saved, whole, n, hwhole, hbytes, hfile, hr⟩ := h.file bytes hf
    exact ⟨saved, whole, n, hwhole, hbytes, hfile, hr.mono hsub⟩

theorem Replaying.step (hcodec : codec.Faithful) (h : Replaying codec accountKey chain first l)
    {a : Action} (hdoes : Does codec accountKey chain first l a l') :
    Replaying codec accountKey chain first l' := by
  cases hdoes with
  | grow n =>
      refine ⟨?_, h.count, ?_, h.file⟩
      · intro e he
        obtain ⟨hle, hlt, hrest⟩ := h.events e he
        exact ⟨hle, Nat.lt_add_right n hlt, hrest⟩
      · intro state phase hw
        obtain ⟨hfollows, hreached, hphase, hahead⟩ := h.up state phase hw
        refine ⟨hfollows, hreached, hphase.imp_right ?_, hahead⟩
        rintro ⟨m, hm, hle⟩
        exact ⟨m, hm, hle.trans (max_le_max_left _ (Nat.le_add_right _ _))⟩
  | start fault hdown hload =>
      obtain ⟨hfollows, hreached⟩ := h.load hcodec hload
      refine ⟨h.events, fun i => Nat.le_succ_of_le (h.count i), ?_, h.file⟩
      rintro _ _ ⟨⟩
      exact ⟨hfollows, hreached, .inl rfl, fun i _ => Nat.lt_succ_of_le (h.count i)⟩
  | refuse fault hdown hload => exact h
  | scan hup hle hm =>
      obtain ⟨hfollows, hreached, -, hahead⟩ := h.up _ _ hup
      refine ⟨?_, h.count, ?_, h.file⟩
      · intro e he
        obtain ⟨hfirst, hlt, hrest⟩ := h.events e he
        exact ⟨hfirst, lt_of_lt_of_le hlt hle, hrest⟩
      · rintro _ _ ⟨⟩
        exact ⟨hfollows, hreached, .inr ⟨_, rfl, hm.trans (max_le_max_left _ hle)⟩, hahead⟩
  | result hup => exact h.result hup
  | save hup hbytes =>
      obtain ⟨hfollows, hreached, -, hahead⟩ := h.up _ _ hup
      refine ⟨h.events, h.count, ?_, ?_⟩
      · rintro _ _ ⟨⟩
        exact ⟨hfollows, hreached, .inl rfl, hahead⟩
      · rintro _ ⟨⟩
        exact ⟨_, _, _, hbytes, List.take_length.symm, hfollows, hreached⟩
  | cut written hup hbytes =>
      obtain ⟨hfollows, hreached, -, -⟩ := h.up _ _ hup
      refine ⟨h.events, h.count, fun state phase hw => (by cases hw), ?_⟩
      rintro _ ⟨⟩
      exact ⟨_, _, written, hbytes, rfl, hfollows, hreached⟩
  | die => exact h.down
  | remove hdown =>
      refine ⟨h.events, h.count, ?_, fun bytes hf => by cases hf⟩
      intro state phase hw
      rw [hdown] at hw
      cases hw

theorem replaying_of_run (hs : Scannable accountKey chain) (hcodec : codec.Faithful)
    {as : List Action} (hrun : Lts.Run (step codec accountKey chain first) Readable l as l')
    (h : Replaying codec accountKey chain first l) :
    Replaying codec accountKey chain first l' :=
  hrun.inv (Replaying codec accountKey chain first)
    (fun h hread hstep => h.step hcodec (does_of_step hs hread hstep)) h

/-! ## One process -/

/-- The process goes on; blocks can be read. -/
def Within (l : Life) (a : Action) : Prop := l.Readable a ∧ ∀ fault, a ≠ .start fault

/-- Since a process stood at `state₀` with `log₀` behind it, it has scanned the next `n` blocks
and announced them, and it stands there or is dead. -/
structure Session (accountKey : AccountKey) (chain : Nat → Block) (log₀ : List WalletEvent)
    (state₀ : State) (n : Nat) (l : Life) : Prop where
  log : l.log = log₀ ++
    (scanSequentially accountKey state₀ (blocks chain state₀.nextBlockIndex n)).2
  worker : ∀ state phase, l.worker = some (state, phase) →
    (scanSequentially accountKey state₀ (blocks chain state₀.nextBlockIndex n)).1 = state

theorem Session.step {log₀ : List WalletEvent} {state₀ : State} {n : Nat}
    (hr : Replaying codec accountKey chain first l) (h : Session accountKey chain log₀ state₀ n l)
    {a : Action} (ha : ∀ fault, a ≠ .start fault)
    (hdoes : Does codec accountKey chain first l a l') :
    ∃ n', Session accountKey chain log₀ state₀ n' l' := by
  cases hdoes with
  | grow m => exact ⟨n, h.log, h.worker⟩
  | start fault hdown hload => exact absurd rfl (ha fault)
  | refuse fault hdown hload => exact ⟨n, h⟩
  | scan hup hle hm =>
      refine ⟨n, h.log, ?_⟩
      rintro _ _ ⟨⟩
      exact h.worker _ _ hup
  | @result state r results hup =>
      obtain ⟨m, rfl, -, -⟩ := (hr.up _ _ hup).results
      have hstate := h.worker _ _ hup
      have hnext : state.nextBlockIndex = state₀.nextBlockIndex + n := by
        rw [← hstate, nextBlockIndex_scanSequentially, length_blocks]
      have hmore : scanSequentially accountKey state₀
          (blocks chain state₀.nextBlockIndex (n + 1)) =
          ((scanNext accountKey state (chain state.nextBlockIndex)).1,
            (scanSequentially accountKey state₀ (blocks chain state₀.nextBlockIndex n)).2 ++
              [(scanNext accountKey state (chain state.nextBlockIndex)).2]) := by
        rw [blocks_add, scanSequentially_append, ← hnext, hstate]
        rfl
      rw [result_scanned]
      refine ⟨n + 1, ?_, ?_⟩
      · rw [hmore]
        show l.log ++ _ = _
        rw [h.log, List.append_assoc]
      · rintro _ _ ⟨⟩
        rw [hmore]
  | save hup hbytes =>
      refine ⟨n, h.log, ?_⟩
      rintro _ _ ⟨⟩
      exact h.worker _ _ hup
  | cut written hup hbytes => exact ⟨n, h.log, fun _ _ hw => by cases hw⟩
  | die => exact ⟨n, h.log, fun _ _ hw => by cases hw⟩
  | remove hdown => exact ⟨n, h.log, h.worker⟩

theorem session_of_run (hs : Scannable accountKey chain) (hcodec : codec.Faithful)
    {state₀ : State} {phase : Phase} {as : List Action}
    (hrun : Lts.Run (step codec accountKey chain first) Within l as l')
    (hr : Replaying codec accountKey chain first l) (hup : l.worker = some (state₀, phase)) :
    ∃ n, Session accountKey chain l.log state₀ n l' := by
  refine hrun.after (Replaying codec accountKey chain first)
    (fun t => ∃ n, Session accountKey chain l.log state₀ n t) ?_ ?_ hr ⟨0, ?_, ?_⟩
  · intro t a t' h hg hstep
    exact h.step hcodec (does_of_step hs hg.1 hstep)
  · rintro t a t' hr ⟨n, h⟩ hg hstep
    exact h.step hr hg.2 (does_of_step hs hg.1 hstep)
  · exact (List.append_nil _).symm
  · intro state phase' hw
    exact (Prod.mk.inj (Option.some.inj (hup.symm.trans hw))).1

theorem log_of_start (hs : Scannable accountKey chain) {fault : Option String}
    (h : l.step codec accountKey chain first (.start fault) = some l') : l'.log = l.log := by
  have hreadable : l.Readable (.start fault) := trivial
  cases does_of_step hs hreadable h with
  | start => rfl
  | refuse => rfl
  | die => rfl

/-- **An announcement is repeated, but never altered and never missing.**  In every life, with
deaths anywhere, all announcements of a block are the one the sequential scan makes; when a
block is announced, all before it have been; a block is announced at most as often as there
were processes; and what is behind the position of the process has been announced.  A process
that is started at any time announces, from the position it has loaded until it dies, one
block after the other, each once. -/
theorem announced_through_crashes (hs : Scannable accountKey chain) (hcodec : codec.Faithful)
    {numBlocks : Nat} {as : List Action}
    (hrun : Lts.Run (step codec accountKey chain first) Readable (initial numBlocks) as l) :
    (∀ e ∈ l.log, first ≤ e.blockIndex ∧ e.blockIndex < l.numBlocks ∧
      e = eventAt accountKey chain first e.blockIndex ∧
      ∀ i, first ≤ i → i < e.blockIndex → eventAt accountKey chain first i ∈ l.log) ∧
    (∀ i, l.log.countP (fun e => e.blockIndex = i) ≤ l.starts) ∧
    (∀ state phase, l.worker = some (state, phase) →
      ∀ i, first ≤ i → i < state.nextBlockIndex → eventAt accountKey chain first i ∈ l.log) ∧
    ∀ {fault : Option String} {l₁ l₂ : Life} {state : State} {bs : List Action},
      l.step codec accountKey chain first (.start fault) = some l₁ →
      l₁.worker = some (state, .waiting) →
      Lts.Run (step codec accountKey chain first) Within l₁ bs l₂ →
      ∃ n, l₂.log = l.log ++
        (List.range' state.nextBlockIndex n).map (eventAt accountKey chain first) := by
  have h := replaying_of_run hs hcodec hrun (replaying_initial numBlocks)
  refine ⟨h.events, h.count, fun state phase hw => (h.up state phase hw).reached, ?_⟩
  intro fault l₁ l₂ state bs hstart hup hbs
  have hreadable : l.Readable (.start fault) := trivial
  have h₁ := h.step hcodec (does_of_step hs hreadable hstart)
  obtain ⟨n, hsession⟩ := session_of_run hs hcodec hbs h₁ hup
  refine ⟨n, ?_⟩
  rw [hsession.log, (h₁.up _ _ hup).follows.scanSequentially n, log_of_start hs hstart]

/-! ### A codec for the states of the sample ledger -/

open AccountLedgerScanner (sampleAccount sampleChain sampleReceived)

/-- A state is written as its position, in unary. -/
def sampleStateCodec : StateCodec where
  serialize state :=
    if state = stateAt sampleAccount sampleChain 0 state.nextBlockIndex then
      .ok (List.replicate state.nextBlockIndex 1 ++ [0])
    else .error "not a state of this ledger"
  deserialize bytes :=
    if bytes = List.replicate (bytes.length - 1) 1 ++ [0] then
      .ok (stateAt sampleAccount sampleChain 0 (bytes.length - 1))
    else .error "unexpected end"

theorem serialize_sample {state : State} {bytes : List UInt8}
    (h : sampleStateCodec.serialize state = .ok bytes) :
    state = stateAt sampleAccount sampleChain 0 state.nextBlockIndex ∧
      bytes = List.replicate state.nextBlockIndex 1 ++ [0] := by
  simp only [sampleStateCodec] at h
  split at h
  · next hstate => exact ⟨hstate, (Except.ok.inj h).symm⟩
  · cases h

theorem sampleStateCodec_faithful : sampleStateCodec.Faithful where
  read := by
    intro state bytes h
    obtain ⟨hstate, rfl⟩ := serialize_sample h
    refine ⟨state.matchedTxOuts, ?_, List.Perm.refl _⟩
    simp only [sampleStateCodec, List.length_append, List.length_replicate, List.length_singleton,
      Nat.add_sub_cancel, if_true]
    rw [← hstate]
  torn := by
    intro state bytes n h hlt
    obtain ⟨-, rfl⟩ := serialize_sample h
    refine ⟨_, if_neg ?_⟩
    -- what is left are ones, and the zero at the end is missing
    intro heq
    have hle : n ≤ (List.replicate state.nextBlockIndex (1 : UInt8)).length := by
      simp only [List.length_append, List.length_singleton] at hlt
      omega
    have hzero : (0 : UInt8) ∈ (List.replicate state.nextBlockIndex (1 : UInt8)).take n := by
      rw [List.take_append_of_le_length hle] at heq
      rw [heq]
      exact List.mem_append_right _ (List.mem_singleton.mpr rfl)
    exact absurd (List.eq_of_mem_replicate (List.mem_of_mem_take hzero)) (by decide)

/-- Where nothing goes wrong with the reads, every block can be read. -/
theorem readable_of_none {as : List Action}
    (h : ∀ faults schedule, .scan faults schedule ∈ as → faults = .none) :
    ∀ a ∈ as, ∀ t : Life, t.Readable a := by
  intro a ha t
  cases a with
  | scan faults schedule =>
      obtain rfl := h faults schedule ha
      exact fun _ _ => rfl
  | _ => trivial

/-- A process dies after the first of two blocks, before anything was saved; the next one
announces that block again. -/
def diedEarly : List Action :=
  [.start none, .scan .none [.task 0, .task 1], .result, .die none,
    .start none, .scan .none [.task 1, .task 0], .result, .result, .save]

theorem diedEarly_announced : ∃ l₀ l₁ l₂ : Life,
    Lts.Run (step sampleStateCodec sampleAccount sampleChain 0) Readable (initial 2)
      (diedEarly.take 4) l₀ ∧
    l₀.step sampleStateCodec sampleAccount sampleChain 0 (.start none) = some l₁ ∧
    Lts.Run (step sampleStateCodec sampleAccount sampleChain 0) Within l₁ (diedEarly.drop 5) l₂ ∧
    l₀.log = [eventAt sampleAccount sampleChain 0 0] ∧
    l₂.log = l₀.log ++ [eventAt sampleAccount sampleChain 0 0,
      eventAt sampleAccount sampleChain 0 1] := by
  have hlives : ∃ (l₀ l₁ l₂ : Life) (state : State),
      Lts.Run (step sampleStateCodec sampleAccount sampleChain 0) Readable (initial 2)
        (diedEarly.take 4) l₀ ∧ l₀.log.map WalletEvent.blockIndex = [0] ∧
      l₀.step sampleStateCodec sampleAccount sampleChain 0 (.start none) = some l₁ ∧
      l₁.worker = some (state, .waiting) ∧ state.nextBlockIndex = 0 ∧
      Lts.Run (step sampleStateCodec sampleAccount sampleChain 0) Within l₁
        (diedEarly.drop 5) l₂ ∧ l₂.log.length = 3 :=
    ⟨_, _, _, _, (Lts.run_of_exec rfl).of_forall (readable_of_none (by simp [diedEarly])), rfl,
      rfl, rfl, rfl, (Lts.run_of_exec rfl).of_forall (fun a ha t =>
        ⟨readable_of_none (by simp [diedEarly]) a ha t, by
          rintro fault rfl
          simp [diedEarly] at ha⟩), rfl⟩
  obtain ⟨l₀, l₁, l₂, state, h₀, hindices, hstart, hup, hnext, h₂, hlen⟩ := hlives
  obtain ⟨hevents, -, -, hprocess⟩ :=
    announced_through_crashes AccountLedgerScanner.sample_scannable sampleStateCodec_faithful h₀
  obtain ⟨e, he, hindex⟩ := List.map_eq_singleton_iff.mp hindices
  have hevent : e = eventAt sampleAccount sampleChain 0 0 := by
    have hsame := (hevents e (by rw [he]; exact List.mem_singleton.mpr rfl)).2.2.1
    rwa [hindex] at hsame
  obtain ⟨n, hlog⟩ := hprocess hstart hup h₂
  obtain rfl : n = 2 := by
    have hcount := congrArg List.length hlog
    rw [hlen, he, List.length_append, List.length_map, List.length_range',
      List.length_singleton] at hcount
    omega
  rw [hnext] at hlog
  exact ⟨l₀, l₁, l₂, h₀, hstart, h₂, hevent ▸ he, hlog⟩

/-! ## Locked out -/

/-- The file is the beginning of one. -/
def Torn (codec : StateCodec) (l : Life) : Prop :=
  ∃ state whole n, codec.serialize state = .ok whole ∧ n < whole.length ∧
    l.file = some (whole.take n)

theorem Torn.load (hcodec : codec.Faithful) (h : l.Torn codec) (fault : Option String) :
    ∃ e, State.load codec fault l.file first = .error e := by
  obtain ⟨state, whole, n, hwhole, hlt, hf⟩ := h
  obtain ⟨e, he⟩ := hcodec.torn hwhole hlt
  cases fault with
  | some e => exact ⟨.io e, by simp only [State.load, hf]⟩
  | none =>
      refine ⟨.deserialize e, ?_⟩
      simp only [State.load, hf, he]
      rfl

theorem Torn.step (hcodec : codec.Faithful) (h : l.Torn codec) (hdown : l.worker = none)
    {a : Action} (ha : a ≠ .remove) (hstep : l.step codec accountKey chain first a = some l') :
    l'.worker = none ∧ l'.log = l.log ∧ l'.Torn codec := by
  cases a with
  | grow n =>
      obtain rfl := Option.some.inj hstep
      exact ⟨hdown, rfl, h⟩
  | start fault =>
      obtain ⟨e, he⟩ : ∃ e, State.load codec fault l.file first = .error e := h.load hcodec fault
      simp only [Life.step, hdown, start, he, Option.some.injEq] at hstep
      subst hstep
      exact ⟨hdown, rfl, h⟩
  | remove => exact absurd rfl ha
  | scan faults schedule => simp [Life.step, hdown] at hstep
  | result => simp [Life.step, hdown] at hstep
  | save => simp [Life.step, hdown] at hstep
  | die written =>
      cases written with
      | none => simp [Life.step, hdown] at hstep
      | some n => simp [Life.step, hdown] at hstep

def Whole (codec : StateCodec) (l : Life) : Prop :=
  ∀ bytes, l.file = some bytes → ∃ state, codec.serialize state = .ok bytes

theorem Whole.step (hs : Scannable accountKey chain) (h : l.Whole codec) {a : Action}
    (hread : l.Readable a) (hcut : ∀ n, a ≠ .die (some n))
    (hstep : l.step codec accountKey chain first a = some l') : l'.Whole codec := by
  cases does_of_step hs hread hstep with
  | grow n => exact h
  | start fault hdown hload => exact h
  | refuse fault hdown hload => exact h
  | scan hup hle hm => exact h
  | @result state r results hup =>
      unfold Life.result
      split
      · exact h
      · exact h
  | @save state bytes hup hbytes =>
      rintro _ ⟨⟩
      exact ⟨state, hbytes⟩
  | cut written hup hbytes => exact absurd rfl (hcut written)
  | die => exact h
  | remove hdown =>
      rintro _ ⟨⟩

theorem Replaying.torn (hcodec : codec.Faithful) (h : Replaying codec accountKey chain first l)
    {e : Error} (hload : State.load codec none l.file first = .error e) : l.Torn codec := by
  cases hf : l.file with
  | none => simp [State.load, hf] at hload
  | some bytes =>
      obtain ⟨saved, whole, n, hwhole, rfl, -, -⟩ := h.file bytes hf
      rcases Nat.lt_or_ge n whole.length with hlt | hge
      · exact ⟨saved, whole, n, hwhole, hlt, hf⟩
      · obtain ⟨matchedTxOuts, hread, -⟩ := hcodec.read hwhole
        rw [List.take_of_length_le hge] at hf
        simp only [State.load, hf, hread] at hload
        cases hload

theorem Whole.not_torn (hcodec : codec.Faithful) (h : l.Whole codec) : ¬ l.Torn codec := by
  rintro ⟨state, whole, n, hwhole, hlt, hf⟩
  obtain ⟨saved, hsaved⟩ := h _ hf
  obtain ⟨e, he⟩ := hcodec.torn hwhole hlt
  obtain ⟨matchedTxOuts, hread, -⟩ := hcodec.read hsaved
  rw [he] at hread
  cases hread

/-- **A start works, unless a write was cut short, and then none does.**  Without such a write
every start works at every moment; after one, until somebody removes the file, there is no
process and nothing is announced. -/
theorem starts_or_locked_out (hs : Scannable accountKey chain) (hcodec : codec.Faithful)
    {numBlocks : Nat} {as : List Action}
    (hrun : Lts.Run (step codec accountKey chain first) Readable (initial numBlocks) as l)
    (hdown : l.worker = none) :
    (∃ state, l.step codec accountKey chain first (.start none) =
        some { l with worker := some (state, .waiting), starts := l.starts + 1 } ∧
      ∀ i, first ≤ i → i < state.nextBlockIndex → eventAt accountKey chain first i ∈ l.log) ∨
    (∃ n, .die (some n) ∈ as) ∧
      ∀ bs l', Lts.Run (step codec accountKey chain first) (fun _ a => a ≠ .remove) l bs l' →
        l'.worker = none ∧ l'.log = l.log := by
  have h := replaying_of_run hs hcodec hrun (replaying_initial numBlocks)
  cases hload : State.load codec none l.file first with
  | ok state =>
      refine .inl ⟨state, ?_, (h.load hcodec hload).2⟩
      simp only [step, hdown, start, hload]
  | error e =>
      have htorn := h.torn hcodec hload
      refine .inr ⟨?_, ?_⟩
      · by_contra hnone
        have hcut : ∀ n, .die (some n) ∉ as := fun n hn => hnone ⟨n, hn⟩
        have hwhole : l.Whole codec := by
          refine hrun.recorded.inv (Whole codec) ?_ (fun bytes hf => by cases hf)
          rintro l a l' hw ⟨hread, hoccurs⟩ hstep
          exact hw.step hs hread (fun n hn => hcut n (hn ▸ hoccurs.mem)) hstep
        exact hwhole.not_torn hcodec htorn
      · intro bs l' hlater
        have hlocked : l'.worker = none ∧ l'.log = l.log ∧ l'.Torn codec := by
          refine hlater.inv (fun t => t.worker = none ∧ t.log = l.log ∧ t.Torn codec) ?_
            ⟨hdown, rfl, htorn⟩
          rintro t a t' ⟨hw, hlog, ht⟩ ha hstep
          obtain ⟨hw', hlog', ht'⟩ := ht.step hcodec hw ha hstep
          exact ⟨hw', hlog'.trans hlog, ht'⟩
        exact ⟨hlocked.1, hlocked.2.1⟩

/-- A process dies while it writes its file, after the first of three bytes. -/
def diedWriting : List Action :=
  [.start none, .scan .none [.task 0, .task 1], .result, .result, .die (some 1)]

theorem diedWriting_locked_out : ∃ l : Life,
    Lts.Run (step sampleStateCodec sampleAccount sampleChain 0) Readable (initial 2)
      diedWriting l ∧
    ∀ bs l', Lts.Run (step sampleStateCodec sampleAccount sampleChain 0)
      (fun _ a => a ≠ .remove) l bs l' → l'.worker = none ∧ l'.log = l.log := by
  have hrun : ∃ l : Life, Lts.Run (step sampleStateCodec sampleAccount sampleChain 0) Readable
      (initial 2) diedWriting l ∧ l.worker = none ∧
      l.step sampleStateCodec sampleAccount sampleChain 0 (.start none) = some l :=
    ⟨_, (Lts.run_of_exec rfl).of_forall (readable_of_none (by simp [diedWriting])), rfl, rfl⟩
  obtain ⟨l, hrun, hdown, hrefused⟩ := hrun
  refine ⟨l, hrun, ?_⟩
  rcases starts_or_locked_out AccountLedgerScanner.sample_scannable sampleStateCodec_faithful hrun
    hdown with ⟨state, hstart, -⟩ | ⟨-, hlocked⟩
  · have hup := congrArg Life.worker (Option.some.inj (hrefused.symm.trans hstart))
    rw [hdown] at hup
    cases hup
  · exact hlocked

/-! ## The bot of the last process -/

end Life

end Wallet

end Deqs.Bot
