/-
# The life of a wallet

A *life* is what happens to one wallet: the ledger grows, processes are started, make their
turns step by step, and die.  Only the file outlives a process.

    grow ──▶ start ──▶ scan ──▶ result ──▶ … ──▶ save ──▶ scan ──▶ …
               ▲                   │               │
               └──────── die ──────┴───────────────┘  (with a file that is cut short)

`does_of_step` says what a step can do where the blocks can be read and scanned.  `stateAt` and
`eventAt` are the states and the announcements of the sequential scan, by position: a state
that looks like the one at its position (`Follows`) announces what the sequential scan does.

**Codec.**  `mc_util_serial` writes the state in a self-delimiting format.  What is assumed of it
(`StateCodec.Faithful`) is that the state can be read back, up to the order of the map, and that
no proper beginning of an encoding can.
-/
import Deqs.Bot.Startup

namespace Deqs.Bot

open Sync (Block)

namespace Wallet

/-! ## The file -/

/-- `mc_util_serial`, for the state of a wallet. -/
structure StateCodec where
  serialize : State → Except String (List UInt8)
  deserialize : List UInt8 → Except String State

structure StateCodec.Faithful (codec : StateCodec) : Prop where
  read : ∀ {state bytes}, codec.serialize state = .ok bytes →
    ∃ matchedTxOuts, codec.deserialize bytes = .ok ⟨state.nextBlockIndex, matchedTxOuts⟩ ∧
      state.matchedTxOuts.Reorder matchedTxOuts
  torn : ∀ {state bytes n}, codec.serialize state = .ok bytes → n < bytes.length →
    ∃ e, codec.deserialize (bytes.take n) = .error e

/-- `State::load`; `fault` is an error of `fs::read`. -/
def State.load (codec : StateCodec) (fault : Option String) (file : Option (List UInt8))
    (defaultFirstBlockIndex : Nat) : Except Error State :=
  match file with
  | none => .ok (.fresh defaultFirstBlockIndex)
  | some bytes =>
      match fault with
      | some e => .error (.io e)
      | none => (codec.deserialize bytes).mapError .deserialize

/-! ## Lives -/

/-- Where the worker is in its loop: before a turn, or with these results still to go over.
Behind the last of them comes the save. -/
inductive Phase where
  | waiting
  | processing (results : List ScannedBlock)
deriving DecidableEq

/-- A wallet: the ledger, the file, the process if there is one, everything that was ever
announced, and how many processes there have been. -/
structure Life where
  numBlocks : Nat
  file : Option (List UInt8)
  worker : Option (State × Phase)
  log : List WalletEvent
  starts : Nat

namespace Life

variable (codec : StateCodec) (accountKey : AccountKey) (chain : Nat → Block) (first : Nat)

def initial (numBlocks : Nat) : Life := ⟨numBlocks, none, none, [], 0⟩

inductive Action where
  | grow (n : Nat)
  /-- `MiniWallet::new`, and an error of reading the file. -/
  | start (fault : Option String)
  /-- The first half of a turn, up to the results. -/
  | scan (faults : ScanFaults) (schedule : List (ParMap.Turn Nat))
  /-- The next of the results. -/
  | result
  | save
  /-- The process dies, or is stopped, or a write fails; in a save `written` bytes may have
  reached the file before. -/
  | die (written : Option Nat)
  /-- Somebody removes the file. -/
  | remove

/-- The worker of `AccountLedgerScanner` that scans on from `state`. -/
abbrev scanner (l : Life) (state : State) : AccountLedgerScanner :=
  .opened l.numBlocks none state

/-- The results of the parallel scan, or an error, after which the loop starts over. -/
def scanned (l : Life) (state : State) (numBlocks : Nat) :
    Except Error (List (Option ScannedBlock)) → Life
  | .error _ => { l with numBlocks }
  | .ok results => { l with numBlocks, worker := some (state, .processing (results.filterMap id)) }

def scan (faults : ScanFaults) (schedule : List (ParMap.Turn Nat)) (l : Life) (state : State) :
    Option Life :=
  match faults.numBlocks with
  | some _ => some { l with worker := none }
  | none =>
      match Lts.exec (scanStep accountKey chain faults (l.scanner state).indices)
          (ParMap.start l.numBlocks) schedule with
      | none => none
      | some s =>
          (collect ((List.range (l.scanner state).indices.length).map s.results)).map
            (l.scanned state s.shared)

/-- The body of the loop over the results; the callback gets the event. -/
def result (l : Life) (state : State) (r : ScannedBlock) (results : List ScannedBlock) : Life :=
  match processResult state r with
  | .ok (state', event) =>
      { l with worker := some (state', .processing results), log := l.log ++ [event] }
  | _ => { l with worker := none }

def save (l : Life) (state : State) : Life :=
  match codec.serialize state with
  | .ok bytes => { l with file := some bytes, worker := some (state, .waiting) }
  | .error _ => { l with worker := none }

/-- What a write leaves that was cut short. -/
def cut (l : Life) (state : State) (written : Nat) : Option Life :=
  match codec.serialize state with
  | .ok bytes => some { l with file := some (bytes.take written), worker := none }
  | .error _ => none

/-- A start; where it fails nothing has changed. -/
def start (fault : Option String) (l : Life) : Life :=
  match State.load codec fault l.file first with
  | .ok state => { l with worker := some (state, .waiting), starts := l.starts + 1 }
  | .error _ => l

def step (l : Life) (a : Action) : Option Life :=
  match a, l.worker with
  | .grow n, _ => some { l with numBlocks := l.numBlocks + n }
  | .start fault, none => some (l.start codec first fault)
  | .scan faults schedule, some (state, .waiting) => l.scan accountKey chain faults schedule state
  | .result, some (state, .processing (r :: results)) => some (l.result state r results)
  | .save, some (state, .processing []) => some (l.save codec state)
  | .die none, some _ => some { l with worker := none }
  | .die (some written), some (state, .processing []) => l.cut codec state written
  | .remove, none => some { l with file := none }
  | _, _ => none

def Readable (l : Life) : Action → Prop
  | .scan faults _ => ∀ i < l.numBlocks, faults.blockContents i = none
  | _ => True

/-! ## What a step does -/

/-- The steps of a life in which blocks can be read and scanned. -/
inductive Does : Life → Action → Life → Prop where
  | grow (l : Life) (n : Nat) : Does l (.grow n) { l with numBlocks := l.numBlocks + n }
  | start {l : Life} (fault : Option String) {state : State} (hdown : l.worker = none)
      (hload : State.load codec fault l.file first = .ok state) :
      Does l (.start fault) { l with worker := some (state, .waiting), starts := l.starts + 1 }
  | refuse {l : Life} (fault : Option String) {e : Error} (hdown : l.worker = none)
      (hload : State.load codec fault l.file first = .error e) : Does l (.start fault) l
  | scan {l : Life} {faults : ScanFaults} {schedule : List (ParMap.Turn Nat)} {state : State}
      {numBlocks m : Nat} (hup : l.worker = some (state, .waiting)) (hle : l.numBlocks ≤ numBlocks)
      (hm : state.nextBlockIndex + m ≤ max state.nextBlockIndex l.numBlocks) :
      Does l (.scan faults schedule) { l with
        numBlocks
        worker := some (state, .processing
          ((List.range' state.nextBlockIndex m).map (Wallet.scanned accountKey chain))) }
  | result {l : Life} {state : State} {r : ScannedBlock} {results : List ScannedBlock}
      (hup : l.worker = some (state, .processing (r :: results))) :
      Does l .result (l.result state r results)
  | save {l : Life} {state : State} {bytes : List UInt8}
      (hup : l.worker = some (state, .processing [])) (hbytes : codec.serialize state = .ok bytes) :
      Does l .save { l with file := some bytes, worker := some (state, .waiting) }
  | cut {l : Life} {state : State} {bytes : List UInt8} (written : Nat)
      (hup : l.worker = some (state, .processing [])) (hbytes : codec.serialize state = .ok bytes) :
      Does l (.die (some written)) { l with file := some (bytes.take written), worker := none }
  -- also where the length of the ledger cannot be read, or the state not be written
  | die (l : Life) (a : Action) : Does l a { l with worker := none }
  | remove {l : Life} (hdown : l.worker = none) : Does l .remove { l with file := none }

variable {codec accountKey chain first} {l l' : Life}

theorem does_of_scan (hs : Scannable accountKey chain) {faults : ScanFaults}
    {schedule : List (ParMap.Turn Nat)} {state : State}
    (hread : ∀ i < l.numBlocks, faults.blockContents i = none)
    (hup : l.worker = some (state, .waiting))
    (h : l.scan accountKey chain faults schedule state = some l') :
    Does codec accountKey chain first l (.scan faults schedule) l' := by
  have hlen : (l.scanner state).indices.length = (l.scanner state).chunk := by
    simp [AccountLedgerScanner.indices_eq]
  unfold scan at h
  cases hn : faults.numBlocks with
  | some e =>
      simp only [hn, Option.some.injEq] at h
      subst h
      exact .die l _
  | none =>
      simp only [hn] at h
      split at h
      · cases h
      · next s hexec =>
          obtain ⟨hshared, hres⟩ :=
            AccountLedgerScanner.results_of_scan (w := l.scanner state) hs hread hexec
          obtain ⟨c, hc, rfl⟩ := Option.map_eq_some_iff.mp h
          rw [hlen] at hc
          obtain ⟨-, rfl⟩ := (collect_eq hres).mp hc
          have hflat : ((List.range (l.scanner state).chunk).map fun i =>
              some (Wallet.scanned accountKey chain (state.nextBlockIndex + i))).filterMap id =
                (List.range' state.nextBlockIndex (l.scanner state).chunk).map
                  (Wallet.scanned accountKey chain) := by
            rw [List.range'_eq_map_range, List.map_map, List.filterMap_map,
              ← List.filterMap_eq_map]
            rfl
          have hm : state.nextBlockIndex + (l.scanner state).chunk ≤
              max state.nextBlockIndex l.numBlocks := by
            simp only [AccountLedgerScanner.chunk, scanner, AccountLedgerScanner.opened]
            omega
          have hscanned : l.scanned state s.shared (.ok ((List.range (l.scanner state).chunk).map
              fun i => some (Wallet.scanned accountKey chain (state.nextBlockIndex + i)))) =
              { l with
                numBlocks := s.shared
                worker := some (state, .processing
                  ((List.range' state.nextBlockIndex (l.scanner state).chunk).map
                    (Wallet.scanned accountKey chain))) } := by
            rw [scanned, hflat]
          exact hscanned ▸ .scan hup hshared hm

theorem does_of_step (hs : Scannable accountKey chain) {a : Action} (hread : l.Readable a)
    (h : l.step codec accountKey chain first a = some l') :
    Does codec accountKey chain first l a l' := by
  cases a with
  | grow n =>
      obtain rfl := Option.some.inj h
      exact .grow l n
  | start fault =>
      cases hw : l.worker with
      | some w => simp [step, hw] at h
      | none =>
          simp only [step, hw, Option.some.injEq] at h
          cases hload : State.load codec fault l.file first with
          | ok state =>
              simp only [start, hload] at h
              exact h ▸ .start fault hw hload
          | error e =>
              simp only [start, hload] at h
              exact h ▸ .refuse fault hw hload
  | scan faults schedule =>
      rcases hw : l.worker with _ | ⟨state, _ | results⟩
      · simp [step, hw] at h
      · simp only [step, hw] at h
        exact does_of_scan hs hread hw h
      · simp [step, hw] at h
  | result =>
      rcases hw : l.worker with _ | ⟨state, _ | _ | ⟨r, results⟩⟩
      · simp [step, hw] at h
      · simp [step, hw] at h
      · simp [step, hw] at h
      · simp only [step, hw, Option.some.injEq] at h
        exact h ▸ .result hw
  | save =>
      rcases hw : l.worker with _ | ⟨state, _ | _ | ⟨r, results⟩⟩
      · simp [step, hw] at h
      · simp [step, hw] at h
      · simp only [step, hw, Option.some.injEq, save] at h
        cases hbytes : codec.serialize state with
        | ok bytes =>
            rw [hbytes] at h
            exact h ▸ .save hw hbytes
        | error e =>
            rw [hbytes] at h
            exact h ▸ .die l _
      · simp [step, hw] at h
  | die written =>
      rcases hw : l.worker with _ | ⟨state, phase⟩
      · cases written with
        | none => simp [step, hw] at h
        | some n => simp [step, hw] at h
      · cases written with
        | none =>
            simp only [step, hw, Option.some.injEq] at h
            exact h ▸ .die l _
        | some n =>
            rcases phase with _ | _ | ⟨r, results⟩
            · simp [step, hw] at h
            · simp only [step, hw, cut] at h
              cases hbytes : codec.serialize state with
              | ok bytes =>
                  rw [hbytes] at h
                  exact Option.some.inj h ▸ .cut n hw hbytes
              | error e =>
                  rw [hbytes] at h
                  cases h
            · simp [step, hw] at h
  | remove =>
      cases hw : l.worker with
      | some w => simp [step, hw] at h
      | none =>
          simp only [step, hw, Option.some.injEq] at h
          have hl : { l with file := none } = l' := by rw [← h, hw]
          exact hl ▸ .remove hw

/-! ## The sequential scan, by position -/

end Life

section Positions

variable (accountKey : AccountKey) (chain : Nat → Block) (first : Nat)

/-- The state of a sequential scan that stands before block `i`. -/
def stateAt (i : Nat) : State :=
  (scanSequentially accountKey (.fresh first) (blocks chain first (i - first))).1

def eventAt (i : Nat) : WalletEvent := (scanNext accountKey (stateAt accountKey chain first i)
  (chain i)).2

/-- A state that looks like the one of the sequential scan at its position. -/
structure Follows (state : State) : Prop where
  le : first ≤ state.nextBlockIndex
  get?_eq : ∀ k, state.matchedTxOuts.get? k =
    (stateAt accountKey chain first state.nextBlockIndex).matchedTxOuts.get? k

def Reached (log : List WalletEvent) (next : Nat) : Prop :=
  ∀ i, first ≤ i → i < next → eventAt accountKey chain first i ∈ log

variable {accountKey chain first}

theorem stateAt_succ {i : Nat} (h : first ≤ i) :
    stateAt accountKey chain first (i + 1) =
      (scanNext accountKey (stateAt accountKey chain first i) (chain i)).1 := by
  have hsub : i + 1 - first = (i - first) + 1 := by omega
  have hpos : first + (i - first) = i := by omega
  rw [stateAt, hsub, blocks_add, scanSequentially_append, hpos]
  rfl

theorem nextBlockIndex_stateAt {i : Nat} (h : first ≤ i) :
    (stateAt accountKey chain first i).nextBlockIndex = i := by
  rw [stateAt, nextBlockIndex_scanSequentially, length_blocks]
  simp only [State.fresh]
  omega

theorem blockIndex_eventAt {i : Nat} (h : first ≤ i) :
    (eventAt accountKey chain first i).blockIndex = i :=
  nextBlockIndex_stateAt h

theorem follows_fresh : Follows accountKey chain first (.fresh first) where
  le := Nat.le_refl _
  get?_eq := by
    intro k
    simp [State.fresh, stateAt, blocks, scanSequentially]

theorem Follows.reorder {state : State} (h : Follows accountKey chain first state)
    {matchedTxOuts : AssocMap KeyImage MatchedTxOut}
    (hr : state.matchedTxOuts.Reorder matchedTxOuts) :
    Follows accountKey chain first ⟨state.nextBlockIndex, matchedTxOuts⟩ where
  le := h.le
  get?_eq := fun k => (hr.get? k).symm.trans (h.get?_eq k)

/-- **The next block**: the announcement is the one of the sequential scan, though the map may
be in another order. -/
theorem Follows.scanNext {state : State} (h : Follows accountKey chain first state) :
    (Wallet.scanNext accountKey state (chain state.nextBlockIndex)).2 =
      eventAt accountKey chain first state.nextBlockIndex ∧
    Follows accountKey chain first
      (Wallet.scanNext accountKey state (chain state.nextBlockIndex)).1 := by
  have hnext : (stateAt accountKey chain first state.nextBlockIndex).nextBlockIndex =
      state.nextBlockIndex := nextBlockIndex_stateAt h.le
  have hspent := AssocMap.removeAll_congr (chain state.nextBlockIndex).keyImages h.get?_eq
  have hrest : ∀ k, (AssocMap.removeAll (chain state.nextBlockIndex).keyImages
      state.matchedTxOuts).2.get? k = (AssocMap.removeAll (chain state.nextBlockIndex).keyImages
        (stateAt accountKey chain first state.nextBlockIndex).matchedTxOuts).2.get? k := by
    intro k
    rw [AssocMap.get?_removeAll, AssocMap.get?_removeAll, h.get?_eq k]
  constructor
  · simp only [eventAt, Wallet.scanNext, hspent, hnext]
  · refine ⟨Nat.le_succ_of_le h.le, ?_⟩
    show ∀ k, _ = (stateAt accountKey chain first (state.nextBlockIndex + 1)).matchedTxOuts.get? k
    rw [stateAt_succ h.le]
    simp only [Wallet.scanNext, hnext]
    exact AssocMap.get?_insertAll_congr _ _ hrest

theorem Reached.mono {log log' : List WalletEvent} {next : Nat} (hsub : log ⊆ log')
    (h : Reached accountKey chain first log next) : Reached accountKey chain first log' next :=
  fun i hle hlt => hsub (h i hle hlt)

/-- **The next blocks**: their announcements are those of the sequential scan. -/
theorem Follows.scanSequentially : ∀ (n : Nat) {state : State},
    Follows accountKey chain first state →
    (Wallet.scanSequentially accountKey state (blocks chain state.nextBlockIndex n)).2 =
      (List.range' state.nextBlockIndex n).map (eventAt accountKey chain first)
  | 0, _, _ => rfl
  | n + 1, state, h => by
      obtain ⟨hevent, hfollows⟩ := h.scanNext
      have ih := hfollows.scanSequentially n
      rw [List.range'_succ, List.map_cons, ← hevent]
      exact congrArg (List.cons _) ih

theorem Follows.exact (hd : Distinct accountKey chain) (hl : SpentLater accountKey chain)
    {state : State} (h : Follows accountKey chain first state) :
    Exact accountKey chain first state := by
  have hexact : Exact accountKey chain first
      (stateAt accountKey chain first state.nextBlockIndex) :=
    exact_fresh.scanSequentially hd hl _
  refine ⟨h.le, ?_⟩
  intro k m
  rw [h.get?_eq k, hexact.get?_iff, nextBlockIndex_stateAt h.le]

end Positions

end Wallet

end Deqs.Bot
