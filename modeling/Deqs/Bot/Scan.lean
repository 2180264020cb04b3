/-
# The chunked parallel scan is a sequential one

A turn of the scanner's loop reads a chunk of blocks in parallel and resolves spending
afterwards, against a map that the earlier chunks have filled.  What it is for is said in a
few lines: take the blocks one after the other (`scanSequentially`).

| assumption | |
| :-- | :-- |
| `Readable` | blocks below the length that was read can be read |
| `Scannable` | view key scanning does not fail on the TxOuts of the ledger |
| `Distinct` | the account's TxOuts have distinct key images |
| `SpentLater` | a key image appears in a block after its TxOut, if at all |

Under the first two, whatever the schedule of the reads, however the ledger grows and wherever
the process is restarted, the state and the events are those of the sequential scan
(`synced_of_run`), so the assertion on the block index holds.  The other two make the map
meaningful: it holds the account's TxOuts of the scanned blocks that no scanned block spends
(`exact_of_run`).
-/
import Deqs.Bot.Wallet

namespace Deqs.Bot

open Sync (Block)

namespace Wallet

variable (accountKey : AccountKey) (chain : Nat → Block)

/-! ## One block at a time -/

def recognised (blockIndex : BlockIndex) (txOut : TxOut) : Option MatchedTxOut :=
  match scanTxOut accountKey blockIndex txOut with
  | .ok matchedTxOut => matchedTxOut
  | .error _ => none

def received (blockIndex : BlockIndex) (block : Block) : List MatchedTxOut :=
  block.outputs.filterMap (recognised accountKey blockIndex)

/-- The next block: what it spends leaves the map, what it brings enters it. -/
def scanNext (state : State) (block : Block) : State × WalletEvent :=
  let (spent, rest) := state.matchedTxOuts.removeAll block.keyImages
  let brought := received accountKey state.nextBlockIndex block
  (⟨state.nextBlockIndex + 1, rest.insertAll MatchedTxOut.keyImage brought⟩,
    ⟨state.nextBlockIndex, brought, spent⟩)

def scanSequentially : State → List Block → State × List WalletEvent
  | state, [] => (state, [])
  | state, block :: blocks =>
      let (state, event) := scanNext accountKey state block
      let (state, events) := scanSequentially state blocks
      (state, event :: events)

/-- The `n` blocks from `start` on. -/
def blocks (start n : Nat) : List Block := (List.range' start n).map chain

/-- What the parallel scan is to find in a block. -/
def scanned (blockIndex : BlockIndex) : ScannedBlock :=
  ⟨blockIndex, received accountKey blockIndex (chain blockIndex), (chain blockIndex).keyImages⟩

/-- View key scanning does not fail on the TxOuts of the ledger. -/
def Scannable : Prop :=
  ∀ i, ∀ txOut ∈ (chain i).outputs, ∃ r, scanTxOut accountKey i txOut = .ok r

variable {accountKey chain}

theorem scanSequentially_append (cs : List Block) : ∀ (bs : List Block) (state : State),
    scanSequentially accountKey state (bs ++ cs) =
      ((scanSequentially accountKey (scanSequentially accountKey state bs).1 cs).1,
        (scanSequentially accountKey state bs).2 ++
          (scanSequentially accountKey (scanSequentially accountKey state bs).1 cs).2)
  | [], state => rfl
  | b :: bs, state => by
      simp only [scanSequentially, List.cons_append, scanSequentially_append cs bs]

theorem nextBlockIndex_scanSequentially : ∀ (bs : List Block) (state : State),
    (scanSequentially accountKey state bs).1.nextBlockIndex = state.nextBlockIndex + bs.length
  | [], state => rfl
  | b :: bs, state => by
      simp only [scanSequentially, nextBlockIndex_scanSequentially bs, scanNext, List.length_cons]
      omega

theorem blockIndex_scanSequentially : ∀ (bs : List Block) (state : State),
    (scanSequentially accountKey state bs).2.map WalletEvent.blockIndex =
      List.range' state.nextBlockIndex bs.length
  | [], state => rfl
  | b :: bs, state => by
      simp only [scanSequentially, List.map_cons, blockIndex_scanSequentially bs,
        List.length_cons, List.range'_succ]
      rfl

theorem blocks_add (start m n : Nat) :
    blocks chain start (m + n) = blocks chain start m ++ blocks chain (start + m) n := by
  rw [blocks, ← List.range'_append_1, List.map_append]
  rfl

theorem length_blocks (start n : Nat) : (blocks chain start n).length = n := by
  simp [blocks]

/-! ## The scan of a chunk -/

theorem matchOutputs_eq {i : Nat} : ∀ {outputs : List TxOut},
    (∀ txOut ∈ outputs, ∃ r, scanTxOut accountKey i txOut = .ok r) →
      matchOutputs accountKey i outputs = .ok (outputs.filterMap (recognised accountKey i))
  | [], _ => rfl
  | txOut :: outputs, h => by
      obtain ⟨r, hr⟩ := h txOut List.mem_cons_self
      have ih := matchOutputs_eq fun t ht => h t (List.mem_cons_of_mem _ ht)
      have hrec : recognised accountKey i txOut = r := by simp only [recognised, hr]
      rw [matchOutputs, hr, ih]
      cases r with
      | none => simp [bind, Except.bind, hrec]
      | some m => simp [bind, Except.bind, hrec]

theorem scanBlock_eq (hs : Scannable accountKey chain) {faults : ScanFaults} {i numBlocks : Nat}
    (hf : faults.blockContents i = none) (hi : i < numBlocks) :
    scanBlock accountKey chain faults i numBlocks =
      (.ok (some (scanned accountKey chain i)), numBlocks) := by
  simp only [scanBlock, getBlockContents, hf, if_pos hi, processBlock, matchOutputs_eq (hs i)]
  rfl

/-- The loop over the results of consecutive blocks is the sequential scan; in particular its
assertion holds. -/
theorem processResults_scanned : ∀ (n : Nat) (state : State),
    processResults state ((List.range' state.nextBlockIndex n).map (scanned accountKey chain)) =
      .ok (scanSequentially accountKey state (blocks chain state.nextBlockIndex n))
  | 0, state => rfl
  | n + 1, state => by
      have hresult : processResult state (scanned accountKey chain state.nextBlockIndex) =
          .ok (scanNext accountKey state (chain state.nextBlockIndex)) := by
        have hindex : (scanned accountKey chain state.nextBlockIndex).blockIndex =
            state.nextBlockIndex := rfl
        rw [processResult, Outcome.assert_bind hindex]
        rfl
      have hnext : (scanNext accountKey state (chain state.nextBlockIndex)).1.nextBlockIndex =
          state.nextBlockIndex + 1 := rfl
      have ih := processResults_scanned n
        (scanNext accountKey state (chain state.nextBlockIndex)).1
      rw [hnext] at ih
      simp only [List.range'_succ, List.map_cons, processResults, hresult, Outcome.bind_ok, ih,
        blocks, scanSequentially]

/-- Tasks that found their blocks, if they have run: collecting waits for all of them, and
returns what they found. -/
theorem collect_eq {f : Nat → Option (Except Error (Option ScannedBlock))} {g : Nat → ScannedBlock}
    {n : Nat} (h : ∀ i < n, ∀ r, f i = some r → r = .ok (some (g i)))
    {c : Except Error (List (Option ScannedBlock))} :
    collect ((List.range n).map f) = some c ↔
      (∀ i < n, f i = some (.ok (some (g i)))) ∧
        c = .ok ((List.range n).map fun i => some (g i)) := by
  have herror : ((List.range n).map f).findSome? errorOf = none := by
    simp only [List.findSome?_eq_none_iff, List.forall_mem_map, List.mem_range]
    intro i hi
    cases hf : f i with
    | none => rfl
    | some r => rw [h i hi r hf]; rfl
  simp only [collect, herror, Option.map_eq_some_iff, ParMap.mapM_eq_some_iff, List.map_map]
  constructor
  · rintro ⟨l, hl, rfl⟩
    -- a task that has not run would leave a hole
    have hall : ∀ i < n, f i = some (.ok (some (g i))) := by
      intro i hi
      cases hf : f i with
      | some r => rw [h i hi r hf]
      | none =>
          have hmem : none ∈ (List.range n).map (scannedOf ∘ f) :=
            List.mem_map.mpr ⟨i, List.mem_range.mpr hi, by simp [hf, scannedOf]⟩
          rw [hl] at hmem
          simp at hmem
    refine ⟨hall, congrArg Except.ok (List.map_injective_iff.mpr (Option.some_injective _) ?_)⟩
    rw [← hl, List.map_map]
    refine List.map_congr_left fun i hi => ?_
    simp [hall i (List.mem_range.mp hi), scannedOf]
  · rintro ⟨hall, rfl⟩
    refine ⟨_, ?_, rfl⟩
    rw [List.map_map]
    refine List.map_congr_left fun i hi => ?_
    simp [hall i (List.mem_range.mp hi), scannedOf]

end Wallet

namespace AccountLedgerScanner

open Wallet

variable {accountKey : AccountKey} {chain : Nat → Block}

def chunk (w : AccountLedgerScanner) : Nat :=
  min w.numBlocks (w.state.nextBlockIndex + SCAN_CHUNK_SIZE) - w.state.nextBlockIndex

theorem indices_eq (w : AccountLedgerScanner) :
    w.indices = List.range' w.state.nextBlockIndex w.chunk := rfl

def Readable (w : AccountLedgerScanner) : Action → Prop
  | .iterate faults _ => ∀ i < w.numBlocks, faults.blockContents i = none
  | _ => True

def advanced (accountKey : AccountKey) (chain : Nat → Block) (w : AccountLedgerScanner)
    (numBlocks : Nat) : AccountLedgerScanner :=
  let (state, events) :=
    scanSequentially accountKey w.state (blocks chain w.state.nextBlockIndex w.chunk)
  ⟨numBlocks, some state, w.origin, state, w.events ++ events⟩

theorem lt_of_mem_indices {w : AccountLedgerScanner} {i : Nat} (h : i ∈ w.indices) :
    i < w.numBlocks := by
  rw [indices_eq, List.mem_range'_1, chunk] at h
  omega

theorem finish_eq (faults : ScanFaults) (w : AccountLedgerScanner) (numBlocks : Nat) :
    w.finish faults numBlocks (.ok ((List.range w.chunk).map fun i =>
      some (scanned accountKey chain (w.state.nextBlockIndex + i)))) =
      match faults.save with
      | some e => .panic s!"Could not save state: {e}"
      | none => .ok (w.advanced accountKey chain numBlocks) := by
  have hflat : ((List.range w.chunk).map fun i =>
      some (scanned accountKey chain (w.state.nextBlockIndex + i))).filterMap id =
        (List.range' w.state.nextBlockIndex w.chunk).map (scanned accountKey chain) := by
    rw [List.range'_eq_map_range, List.map_map, List.filterMap_map, ← List.filterMap_eq_map]
    rfl
  simp only [finish, hflat, processResults_scanned, Outcome.bind_ok]
  rfl

/-- The reads of a chunk, in whatever order and whatever is appended meanwhile: each that was
made has found its block, and the ledger is no shorter. -/
theorem results_of_scan (hs : Scannable accountKey chain) {faults : ScanFaults}
    {w : AccountLedgerScanner} (hread : ∀ i < w.numBlocks, faults.blockContents i = none)
    {schedule : List (ParMap.Turn Nat)}
    {s : ParMap.State Nat (Except Error (Option ScannedBlock))}
    (h : Lts.exec (scanStep accountKey chain faults w.indices) (ParMap.start w.numBlocks)
      schedule = some s) :
    w.numBlocks ≤ s.shared ∧ ∀ i < w.chunk, ∀ r, s.results i = some r →
      r = .ok (some (scanned accountKey chain (w.state.nextBlockIndex + i))) := by
  have htask : ∀ {i n : Nat}, i ∈ w.indices → w.numBlocks ≤ n →
      (scanBlock accountKey chain faults i n).1 = .ok (some (scanned accountKey chain i)) ∧
        w.numBlocks ≤ (scanBlock accountKey chain faults i n).2 := by
    intro i n hi hle
    have hlt := lt_of_mem_indices hi
    rw [scanBlock_eq hs (hread i hlt) (lt_of_lt_of_le hlt hle)]
    exact ⟨rfl, hle⟩
  obtain ⟨hshared, hres⟩ := ParMap.results_of_run (I := fun n => w.numBlocks ≤ n)
    (P := fun i r => r = .ok (some (scanned accountKey chain i))) htask
    (fun {s n b} _ hle hact => by
      obtain rfl := Option.some.inj hact
      exact Nat.le_add_right_of_le hle)
    (Lts.run_of_exec h) (Nat.le_refl _) (fun i r hr => by cases hr)
  refine ⟨hshared, ?_⟩
  intro i hi r hr
  obtain ⟨x, hx, rfl⟩ := hres i r hr
  have hget : w.indices[i]? = some (w.state.nextBlockIndex + i) := by
    simp [indices_eq, hi]
  rw [Option.some.inj (hx.symm.trans hget)]

/-- **One turn of the loop.**  Where the blocks can be read and scanned, it panics only if the
length cannot be read or the state not be saved, and otherwise takes its chunk of blocks one
by one. -/
theorem iterate_cases (hs : Scannable accountKey chain) {faults : ScanFaults}
    {schedule : List (ParMap.Turn Nat)} {w : AccountLedgerScanner}
    (hread : ∀ i < w.numBlocks, faults.blockContents i = none)
    {r : Outcome Error AccountLedgerScanner}
    (h : w.iterate accountKey chain faults schedule = some r) :
    (∃ e, faults.numBlocks = some e ∧ r = .panic s!"Could not get num blocks: {e}") ∨
    (∃ e, faults.save = some e ∧ r = .panic s!"Could not save state: {e}") ∨
    ∃ numBlocks, w.numBlocks ≤ numBlocks ∧ r = .ok (w.advanced accountKey chain numBlocks) := by
  have hlen : w.indices.length = w.chunk := by simp [indices_eq]
  unfold iterate at h
  cases hn : faults.numBlocks with
  | some e =>
      simp only [hn, Option.some.injEq] at h
      exact .inl ⟨e, rfl, h.symm⟩
  | none =>
      simp only [hn] at h
      split at h
      · cases h
      · next s hexec =>
          obtain ⟨hshared, hres⟩ := results_of_scan hs hread hexec
          obtain ⟨c, hc, rfl⟩ := Option.map_eq_some_iff.mp h
          rw [hlen] at hc
          obtain ⟨-, rfl⟩ := (collect_eq hres).mp hc
          rw [finish_eq]
          cases hsave : faults.save with
          | some e => exact .inr (.inl ⟨e, rfl, rfl⟩)
          | none => exact .inr (.inr ⟨s.shared, hshared, rfl⟩)

theorem iterate_of_order (hs : Scannable accountKey chain) (w : AccountLedgerScanner)
    {order : List Nat} (ho : order.Perm (List.range w.chunk)) :
    ∃ numBlocks, w.iterate accountKey chain .none (order.map .task) =
      some (.ok (w.advanced accountKey chain numBlocks)) := by
  have hlen : w.indices.length = w.chunk := by simp [indices_eq]
  obtain ⟨s, hexec⟩ := ParMap.exec_tasks (scanBlock accountKey chain .none)
    (fun numBlocks n => some (numBlocks + n)) w.indices (s := ParMap.start w.numBlocks)
    (ho.nodup_iff.mpr List.nodup_range)
    (fun i hi => ⟨hlen ▸ List.mem_range.mp (ho.mem_iff.mp hi), rfl⟩)
  have hres := (results_of_scan hs (fun _ _ => rfl) hexec).2
  have hall : ∀ i < w.chunk, s.results i =
      some (.ok (some (scanned accountKey chain (w.state.nextBlockIndex + i)))) := by
    intro i hi
    have hsome : (s.results i).isSome := by
      refine (ParMap.isSome_results (Lts.run_of_exec hexec) i).mpr (.inr ?_)
      exact List.mem_map_of_mem (ho.mem_iff.mpr (List.mem_range.mpr hi))
    obtain ⟨r, hr⟩ := Option.isSome_iff_exists.mp hsome
    rw [hr, hres i hi r hr]
  refine ⟨s.shared, ?_⟩
  have hc := (collect_eq hres).mpr ⟨hall, rfl⟩
  have hn : ScanFaults.none.numBlocks = none := rfl
  simp only [iterate, hn, hexec, hlen, hc, Option.map_some]
  exact congrArg some (finish_eq .none w s.shared)

/-- **The steps of a wallet**, where blocks can be read and scanned. -/
theorem step_cases (hs : Scannable accountKey chain) {first : Nat} {w w' : AccountLedgerScanner}
    {a : Action} (hread : w.Readable a) (h : w.step accountKey chain first a = some w') :
    (∃ n, w' = { w with numBlocks := w.numBlocks + n }) ∨
    (∃ n, w.numBlocks ≤ n ∧ w' = w.advanced accountKey chain n) ∨
    (w.file = none ∧ w' = .opened w.numBlocks none (.fresh first)) ∨
    ∃ saved matchedTxOuts, w.file = some saved ∧ saved.matchedTxOuts.Reorder matchedTxOuts ∧
      w' = .opened w.numBlocks (some saved) ⟨saved.nextBlockIndex, matchedTxOuts⟩ := by
  cases a with
  | grow n => exact .inl ⟨n, (Option.some.inj h).symm⟩
  | iterate faults schedule =>
      simp only [step] at h
      split at h
      · next w'' hw =>
          obtain rfl := Option.some.inj h
          rcases iterate_cases hs hread hw with ⟨e, -, hr⟩ | ⟨e, -, hr⟩ | ⟨n, hn, hr⟩
          · cases hr
          · cases hr
          · exact .inr (.inl ⟨n, hn, Outcome.ok.inj hr⟩)
      · cases h
  | reopen matchedTxOuts =>
      simp only [step] at h
      split at h
      · next hf => exact .inr (.inr (.inl ⟨hf, (Option.some.inj h).symm⟩))
      · next saved hf =>
          split at h
          · next hp =>
              refine .inr (.inr (.inr ⟨saved, matchedTxOuts, hf, hp, ?_⟩))
              rw [← hf]
              exact (Option.some.inj h).symm
          · cases h

/-- The state and the events are those of the sequential scan, from where the process was
started. -/
structure Synced (accountKey : AccountKey) (chain : Nat → Block) (w : AccountLedgerScanner) :
    Prop where
  le : w.origin.nextBlockIndex ≤ w.state.nextBlockIndex
  eq : scanSequentially accountKey w.origin (blocks chain w.origin.nextBlockIndex
    (w.state.nextBlockIndex - w.origin.nextBlockIndex)) = (w.state, w.events)

theorem synced_opened (numBlocks : Nat) (file : Option State) (state : State) :
    Synced accountKey chain (.opened numBlocks file state) where
  le := Nat.le_refl _
  eq := by simp [opened, blocks, scanSequentially]

theorem nextBlockIndex_advanced (w : AccountLedgerScanner) (numBlocks : Nat) :
    (w.advanced accountKey chain numBlocks).state.nextBlockIndex =
      w.state.nextBlockIndex + w.chunk := by
  simp only [advanced, nextBlockIndex_scanSequentially, length_blocks]

theorem Synced.advanced {w : AccountLedgerScanner} (h : Synced accountKey chain w)
    (numBlocks : Nat) : Synced accountKey chain (w.advanced accountKey chain numBlocks) := by
  have hle := h.le
  have hnext : (w.advanced accountKey chain numBlocks).state.nextBlockIndex =
      w.state.nextBlockIndex + w.chunk := nextBlockIndex_advanced w numBlocks
  have horigin : (w.advanced accountKey chain numBlocks).origin = w.origin := rfl
  refine ⟨by rw [horigin, hnext]; omega, ?_⟩
  -- the blocks from the origin are those before the chunk and those of the chunk
  have hsplit : w.state.nextBlockIndex + w.chunk - w.origin.nextBlockIndex =
      (w.state.nextBlockIndex - w.origin.nextBlockIndex) + w.chunk := by omega
  have hstart : w.origin.nextBlockIndex + (w.state.nextBlockIndex - w.origin.nextBlockIndex) =
      w.state.nextBlockIndex := by omega
  rw [horigin, hnext, hsplit, blocks_add, scanSequentially_append, h.eq, hstart]
  rfl

theorem synced_of_run (hs : Scannable accountKey chain) {first : Nat}
    {w w' : AccountLedgerScanner} {as : List Action}
    (h : Lts.Run (step accountKey chain first) Readable w as w') (h0 : Synced accountKey chain w) :
    Synced accountKey chain w' := by
  refine h.inv (Synced accountKey chain) ?_ h0
  intro w a w' hw hread hstep
  rcases step_cases hs hread hstep with ⟨n, rfl⟩ | ⟨n, -, rfl⟩ | ⟨-, rfl⟩ | ⟨saved, m, -, -, rfl⟩
  · exact ⟨hw.le, hw.eq⟩
  · exact hw.advanced n
  · exact synced_opened _ _ _
  · exact synced_opened _ _ _

end AccountLedgerScanner

/-! ## What the map holds -/

namespace Wallet

/-- The account's TxOuts in the ledger have distinct key images. -/
def Distinct (accountKey : AccountKey) (chain : Nat → Block) : Prop :=
  ∀ {i j m m'}, m ∈ received accountKey i (chain i) → m' ∈ received accountKey j (chain j) →
    m.keyImage = m'.keyImage → m = m'

/-- The key image of a TxOut appears in a block after it, if at all. -/
def SpentLater (accountKey : AccountKey) (chain : Nat → Block) : Prop :=
  ∀ {i j m}, m ∈ received accountKey i (chain i) → m.keyImage ∈ (chain j).keyImages → i < j

/-- An account's TxOut in the blocks from `first` on and before `next`. -/
def Received (accountKey : AccountKey) (chain : Nat → Block) (first next : Nat)
    (m : MatchedTxOut) : Prop :=
  ∃ i, first ≤ i ∧ i < next ∧ m ∈ received accountKey i (chain i)

def Spent (chain : Nat → Block) (first next : Nat) (k : KeyImage) : Prop :=
  ∃ j, first ≤ j ∧ j < next ∧ k ∈ (chain j).keyImages

/-- The map holds, under its key image, every TxOut that was received and not spent. -/
structure Exact (accountKey : AccountKey) (chain : Nat → Block) (first : Nat) (state : State) :
    Prop where
  le : first ≤ state.nextBlockIndex
  get?_iff : ∀ k m, state.matchedTxOuts.get? k = some m ↔
    m.keyImage = k ∧ Received accountKey chain first state.nextBlockIndex m ∧
      ¬ Spent chain first state.nextBlockIndex k

variable {accountKey : AccountKey} {chain : Nat → Block} {first : Nat}

theorem exact_fresh : Exact accountKey chain first (.fresh first) where
  le := Nat.le_refl _
  get?_iff := by
    intro k m
    refine iff_of_false (by simp [State.fresh, AssocMap.empty, AssocMap.get?, AssocMap.lookup]) ?_
    rintro ⟨-, ⟨i, hle, hlt, -⟩, -⟩
    simp only [State.fresh] at hlt
    omega

theorem received_succ {next : Nat} (h : first ≤ next) {m : MatchedTxOut} :
    Received accountKey chain first (next + 1) m ↔
      Received accountKey chain first next m ∨ m ∈ received accountKey next (chain next) := by
  constructor
  · rintro ⟨i, hle, hlt, hm⟩
    rcases Nat.lt_succ_iff_lt_or_eq.mp hlt with hlt | rfl
    · exact .inl ⟨i, hle, hlt, hm⟩
    · exact .inr hm
  · rintro (⟨i, hle, hlt, hm⟩ | hm)
    · exact ⟨i, hle, Nat.lt_succ_of_lt hlt, hm⟩
    · exact ⟨next, h, Nat.lt_succ_self _, hm⟩

theorem spent_succ {next : Nat} (h : first ≤ next) {k : KeyImage} :
    Spent chain first (next + 1) k ↔ Spent chain first next k ∨ k ∈ (chain next).keyImages := by
  constructor
  · rintro ⟨j, hle, hlt, hk⟩
    rcases Nat.lt_succ_iff_lt_or_eq.mp hlt with hlt | rfl
    · exact .inl ⟨j, hle, hlt, hk⟩
    · exact .inr hk
  · rintro (⟨j, hle, hlt, hk⟩ | hk)
    · exact ⟨j, hle, Nat.lt_succ_of_lt hlt, hk⟩
    · exact ⟨next, h, Nat.lt_succ_self _, hk⟩

/-- What the map has under a key image after a block: a TxOut of the block, or else what it had
and the block has not spent. -/
theorem get?_scanNext (accountKey : AccountKey) (state : State) (block : Block) (k : KeyImage) :
    (∃ v ∈ received accountKey state.nextBlockIndex block, v.keyImage = k ∧
      (Wallet.scanNext accountKey state block).1.matchedTxOuts.get? k = some v) ∨
    (∀ v ∈ received accountKey state.nextBlockIndex block, v.keyImage ≠ k) ∧
      (Wallet.scanNext accountKey state block).1.matchedTxOuts.get? k =
        if k ∈ block.keyImages then none else state.matchedTxOuts.get? k := by
  rw [← AssocMap.get?_removeAll k block.keyImages state.matchedTxOuts]
  exact AssocMap.get?_insertAll MatchedTxOut.keyImage k _ _

/-- **One block.**  What it brings was not spent before, and is not spent by it. -/
theorem Exact.scanNext (hd : Distinct accountKey chain) (hl : SpentLater accountKey chain)
    {state : State} (h : Exact accountKey chain first state) :
    Exact accountKey chain first
      (Wallet.scanNext accountKey state (chain state.nextBlockIndex)).1 := by
  refine ⟨Nat.le_succ_of_le h.le, ?_⟩
  intro k m
  show _ ↔ m.keyImage = k ∧ Received accountKey chain first (state.nextBlockIndex + 1) m ∧
    ¬ Spent chain first (state.nextBlockIndex + 1) k
  rw [received_succ h.le, spent_succ h.le, not_or]
  rcases get?_scanNext accountKey state (chain state.nextBlockIndex) k with
    ⟨v, hv, rfl, hget⟩ | ⟨hnone, hget⟩
  · -- the block brings a TxOut with this key image, and that is the only one there is
    rw [hget, Option.some.injEq]
    constructor
    · rintro rfl
      refine ⟨rfl, .inr hv, ?_, ?_⟩
      · rintro ⟨j, -, hlt, hk⟩
        exact absurd (hl hv hk) (Nat.lt_asymm hlt)
      · exact fun hk => Nat.lt_irrefl _ (hl hv hk)
    · rintro ⟨hk, ⟨i, -, -, hm⟩ | hm, -⟩
      · exact hd hv hm hk.symm
      · exact hd hv hm hk.symm
  · rw [hget]
    have hnew : m.keyImage = k → m ∉ received accountKey state.nextBlockIndex
        (chain state.nextBlockIndex) := fun hk hm => hnone m hm hk
    split
    · next hk => simp [hk]
    · next hk =>
        rw [h.get?_iff k m]
        constructor
        · rintro ⟨hm, hr, hs⟩
          exact ⟨hm, .inl hr, hs, hk⟩
        · rintro ⟨hm, hr, hs, -⟩
          exact ⟨hm, hr.resolve_right (hnew hm), hs⟩

theorem Exact.scanSequentially (hd : Distinct accountKey chain)
    (hl : SpentLater accountKey chain) : ∀ (n : Nat) {state : State},
    Exact accountKey chain first state → Exact accountKey chain first
      (Wallet.scanSequentially accountKey state (blocks chain state.nextBlockIndex n)).1
  | 0, _, h => h
  | n + 1, state, h => by
      have ih := Exact.scanSequentially hd hl n (h.scanNext hd hl)
      simp only [blocks, List.range'_succ, List.map_cons, Wallet.scanSequentially]
      exact ih

theorem Exact.reorder {state : State} (h : Exact accountKey chain first state)
    {matchedTxOuts : AssocMap KeyImage MatchedTxOut}
    (hr : state.matchedTxOuts.Reorder matchedTxOuts) :
    Exact accountKey chain first ⟨state.nextBlockIndex, matchedTxOuts⟩ := by
  refine ⟨h.le, ?_⟩
  intro k m
  rw [← hr.get? k]
  exact h.get?_iff k m

theorem Exact.mem_values {state : State} (h : Exact accountKey chain first state)
    (m : MatchedTxOut) : m ∈ state.matchedTxOuts.values ↔
      Received accountKey chain first state.nextBlockIndex m ∧
        ¬ Spent chain first state.nextBlockIndex m.keyImage := by
  rw [AssocMap.mem_values_iff]
  constructor
  · rintro ⟨k, hk⟩
    obtain ⟨rfl, hr, hs⟩ := (h.get?_iff k m).mp hk
    exact ⟨hr, hs⟩
  · rintro ⟨hr, hs⟩
    exact ⟨m.keyImage, (h.get?_iff _ m).mpr ⟨rfl, hr, hs⟩⟩

end Wallet

namespace AccountLedgerScanner

open Wallet

variable {accountKey : AccountKey} {chain : Nat → Block} {first : Nat}

structure ExactState (accountKey : AccountKey) (chain : Nat → Block) (first : Nat)
    (w : AccountLedgerScanner) : Prop where
  state : Exact accountKey chain first w.state
  file : ∀ saved, w.file = some saved → Exact accountKey chain first saved

theorem exact_of_run (hs : Scannable accountKey chain) (hd : Distinct accountKey chain)
    (hl : SpentLater accountKey chain) {w w' : AccountLedgerScanner} {as : List Action}
    (h : Lts.Run (step accountKey chain first) Readable w as w')
    (h0 : ExactState accountKey chain first w) : ExactState accountKey chain first w' := by
  refine h.inv (ExactState accountKey chain first) ?_ h0
  intro w a w' hw hread hstep
  rcases step_cases hs hread hstep with ⟨n, rfl⟩ | ⟨n, -, rfl⟩ | ⟨-, rfl⟩ |
    ⟨saved, m, hf, hr, rfl⟩
  · exact ⟨hw.state, hw.file⟩
  · have hexact := hw.state.scanSequentially hd hl w.chunk
    refine ⟨hexact, ?_⟩
    intro saved hsaved
    exact Option.some.inj hsaved ▸ hexact
  · exact ⟨exact_fresh, fun saved hsaved => by cases hsaved⟩
  · refine ⟨(hw.file saved hf).reorder hr, ?_⟩
    intro saved' hsaved
    exact Option.some.inj hsaved ▸ hw.file saved hf

/-- **The chunked parallel scan is a sequential one**, along every run of a wallet that began
without a file: the ledger grows as it likes, the reads of a chunk are made in any order, and
the process is restarted anywhere. -/
theorem scan_refines_sequential (hs : Scannable accountKey chain) (hd : Distinct accountKey chain)
    (hl : SpentLater accountKey chain) {numBlocks : Nat} {as : List Action}
    {w : AccountLedgerScanner}
    (hrun : Lts.Run (step accountKey chain first) Readable
      (.opened numBlocks none (.fresh first)) as w) :
    -- one event for each block, in order, with the lists of the sequential scan
    w.events = (scanSequentially accountKey w.origin (blocks chain w.origin.nextBlockIndex
      (w.state.nextBlockIndex - w.origin.nextBlockIndex))).2 ∧
    w.events.map WalletEvent.blockIndex = List.range' w.origin.nextBlockIndex
      (w.state.nextBlockIndex - w.origin.nextBlockIndex) ∧
    -- the assertion does not fire: a turn panics on a ledger or file error only
    (∀ faults schedule msg, w.Readable (.iterate faults schedule) →
      w.iterate accountKey chain faults schedule = some (.panic msg) →
      (∃ e, faults.numBlocks = some e ∧ msg = s!"Could not get num blocks: {e}") ∨
        ∃ e, faults.save = some e ∧ msg = s!"Could not save state: {e}") ∧
    -- and whatever the order of its reads, it takes the blocks that are there, up to a chunk
    (∀ order : List Nat, order.Perm (List.range w.chunk) →
      ∃ w', w.iterate accountKey chain .none (order.map .task) = some (.ok w') ∧
        w'.state.nextBlockIndex = max w.state.nextBlockIndex
          (min w.numBlocks (w.state.nextBlockIndex + SCAN_CHUNK_SIZE))) ∧
    -- the map holds what was received and not spent
    ∀ m, m ∈ w.state.matchedTxOuts.values ↔
      (∃ i, first ≤ i ∧ i < w.state.nextBlockIndex ∧ m ∈ received accountKey i (chain i)) ∧
        ¬ ∃ j, first ≤ j ∧ j < w.state.nextBlockIndex ∧ m.keyImage ∈ (chain j).keyImages := by
  have hsynced := synced_of_run hs hrun (synced_opened _ _ _)
  have hexact : ExactState accountKey chain first w :=
    exact_of_run hs hd hl hrun ⟨exact_fresh, fun saved h => by cases h⟩
  refine ⟨by rw [hsynced.eq], ?_, ?_, ?_, hexact.state.mem_values⟩
  · calc w.events.map WalletEvent.blockIndex
        = (scanSequentially accountKey w.origin (blocks chain w.origin.nextBlockIndex
            (w.state.nextBlockIndex - w.origin.nextBlockIndex))).2.map WalletEvent.blockIndex := by
          rw [hsynced.eq]
      _ = _ := by rw [blockIndex_scanSequentially, length_blocks]
  · intro faults schedule msg hread hpanic
    rcases iterate_cases hs hread hpanic with ⟨e, he, hr⟩ | ⟨e, he, hr⟩ | ⟨n, -, hr⟩
    · exact .inl ⟨e, he, Outcome.panic.inj hr⟩
    · exact .inr ⟨e, he, Outcome.panic.inj hr⟩
    · cases hr
  · intro order ho
    obtain ⟨n, hn⟩ := iterate_of_order hs w ho
    refine ⟨_, hn, ?_⟩
    rw [nextBlockIndex_advanced, chunk]
    omega

/-! ### On a concrete ledger -/

/-- An account that recognises the TxOuts that carry nothing else, as 10 of token 1. -/
def sampleAccount : AccountKey where
  decompressPublicKey _ := .ok ()
  maskedAmount txOut := if txOut.rest = [] then .ok ⟨10, 1⟩ else .error "not ours"
  decompressTargetKey _ := .ok ()
  recoverPublicSubaddressSpendKey _ := .fill 0
  keyImage txOut _ := ⟨txOut.publicKey⟩
  spendPublicKey idx := .fill idx.toUInt8
  defaultSubaddressIndex := 0
  changeSubaddressIndex := 2

/-- Block 0 has a TxOut of the account and one of somebody else, block 1 spends the first and
brings another one, and then nothing happens. -/
def sampleChain : Nat → Block
  | 0 => ⟨[], [⟨.fill 1, []⟩, ⟨.fill 9, [0]⟩]⟩
  | 1 => ⟨[⟨.fill 1⟩], [⟨.fill 2, []⟩]⟩
  | _ => ⟨[], []⟩

def sampleReceived (i : Nat) (tag : UInt8) : MatchedTxOut :=
  ⟨i, ⟨.fill tag, []⟩, ⟨10, 1⟩, 0, ⟨.fill tag⟩⟩

theorem mem_received_sample {i : Nat} {m : MatchedTxOut}
    (h : m ∈ received sampleAccount i (sampleChain i)) :
    i = 0 ∧ m = sampleReceived 0 1 ∨ i = 1 ∧ m = sampleReceived 1 2 := by
  rcases i with _ | _ | i
  · exact .inl ⟨rfl, List.mem_singleton.mp h⟩
  · exact .inr ⟨rfl, List.mem_singleton.mp h⟩
  · exact absurd h List.not_mem_nil

theorem sample_scannable : Scannable sampleAccount sampleChain := by
  intro i txOut htx
  have hscan : scanTxOut sampleAccount i txOut =
      if txOut.rest = [] then .ok (some ⟨i, txOut, ⟨10, 1⟩, 0, ⟨txOut.publicKey⟩⟩)
      else .ok none := by
    by_cases hrest : txOut.rest = []
    · simp only [scanTxOut, MatchedTxOut.viewKeyScan, sampleAccount, hrest, if_true]
      rfl
    · simp only [scanTxOut, MatchedTxOut.viewKeyScan, sampleAccount, hrest, if_false]
      rfl
  rw [hscan]
  split
  · exact ⟨_, rfl⟩
  · exact ⟨_, rfl⟩

theorem sample_distinct : Distinct sampleAccount sampleChain := by
  intro i j m m' hm hm' hk
  rcases mem_received_sample hm with ⟨-, rfl⟩ | ⟨-, rfl⟩
  · rcases mem_received_sample hm' with ⟨-, rfl⟩ | ⟨-, rfl⟩
    · rfl
    · exact absurd hk (by decide)
  · rcases mem_received_sample hm' with ⟨-, rfl⟩ | ⟨-, rfl⟩
    · exact absurd hk (by decide)
    · rfl

theorem sample_spentLater : SpentLater sampleAccount sampleChain := by
  intro i j m hm hk
  rcases mem_received_sample hm with ⟨rfl, rfl⟩ | ⟨rfl, rfl⟩
  · rcases j with _ | j
    · exact absurd hk List.not_mem_nil
    · exact Nat.succ_pos j
  · rcases j with _ | _ | j
    · exact absurd hk List.not_mem_nil
    · exact absurd (List.mem_singleton.mp hk) (by decide)
    · exact absurd hk List.not_mem_nil

/-- Two blocks in one chunk, the second read first and a third appended meanwhile; then the
process is restarted and scans that one.  The TxOut of block 0 came and went within the
chunk. -/
theorem scan_of_two_chunks : ∃ w : AccountLedgerScanner,
    Lts.Run (step sampleAccount sampleChain 0) Readable (.opened 2 none (.fresh 0))
      [.iterate .none [.task 1, .other 1, .task 0],
        .reopen ⟨[(⟨.fill 2⟩, sampleReceived 1 2)], by decide⟩, .iterate .none [.task 0]] w ∧
    w.events = [⟨2, [], []⟩] ∧ w.origin.nextBlockIndex = 2 ∧
    sampleReceived 0 1 ∉ w.state.matchedTxOuts.values ∧
    sampleReceived 1 2 ∈ w.state.matchedTxOuts.values := by
  have hrun : ∃ w : AccountLedgerScanner,
      Lts.Run (step sampleAccount sampleChain 0) Readable (.opened 2 none (.fresh 0))
        [.iterate .none [.task 1, .other 1, .task 0],
          .reopen ⟨[(⟨.fill 2⟩, sampleReceived 1 2)], by decide⟩, .iterate .none [.task 0]] w ∧
      w.origin.nextBlockIndex = 2 ∧ w.state.nextBlockIndex = 3 ∧ w.events = [⟨2, [], []⟩] :=
    ⟨_, .cons (fun _ _ => rfl) rfl (.cons trivial rfl (.cons (fun _ _ => rfl) rfl (.nil _))),
      rfl, rfl, rfl⟩
  obtain ⟨w, hrun, horigin, hnext, hevents⟩ := hrun
  obtain ⟨-, -, -, -, hvalues⟩ := scan_refines_sequential sample_scannable sample_distinct
    sample_spentLater hrun
  refine ⟨w, hrun, hevents, horigin, ?_, ?_⟩
  · rw [hvalues, hnext]
    exact fun h => h.2 ⟨1, by decide, by decide, List.mem_singleton.mpr rfl⟩
  · rw [hvalues, hnext]
    refine ⟨⟨1, by decide, by decide, List.mem_singleton.mpr rfl⟩, ?_⟩
    rintro ⟨j, -, -, hk⟩
    have hlater := sample_spentLater (i := 1) (j := j) (m := sampleReceived 1 2)
      (List.mem_singleton.mpr rfl) hk
    rcases j with _ | _ | j
    · exact absurd hlater (by decide)
    · exact absurd hlater (by decide)
    · exact absurd hk List.not_mem_nil

end AccountLedgerScanner

end Deqs.Bot
