/-
# `MiniWallet` — a scanner that follows the ledger for one account

The wallet of the bot is a background thread.  Each turn of its loop reads how long the
ledger is, loads and scans up to a thousand blocks in parallel, and then, under the lock of
the state, goes over the results in order:

    the block is the next one                          (assert_eq!)
    its key images are taken out of the map            spent
    its TxOuts are put into the map                     received
    one `WalletEvent::BlockProcessed` is emitted

after which the state is written to a file.  The ledger is written by somebody else while all
this happens.

**The ledger.**  An append-only ledger is the sequence of the blocks it will ever have and the
number of those that are there by now.  So growing is counting up, and a block that could be
read once will always read the same.  Where the length is read the source computes
`num_blocks() - 1` and later adds the one back; on a ledger without blocks the two wrap around
each other.

**What comes from outside.**  The account's keys (`AccountKey`) are functions of the crates
for curve points and amounts.  A read of the ledger may fail, and so may writing the file;
which ones do is a parameter of the turn (`ScanFaults`).  The parallel scan is a schedule of
`ParMap`: the reads in any order, the ledger growing in between.  The file holds the state
that was written to it; only the order of a hash map may differ when it is read back.
-/
import Deqs.Lib.ParMap
import Deqs.Sync.Model
import Deqs.Bot.Task

namespace Deqs.Bot

open Sync (Block)

/-! ## Recognising a TxOut -/

/-- What the keys of an account make of a TxOut, and the two subaddress indices the crates
name. -/
structure AccountKey where
  /-- `RistrettoPublic::try_from(&tx_out.public_key)`. -/
  decompressPublicKey : TxOut → Except String Unit
  /-- The masked amount, opened with the secret the account shares with the sender. -/
  maskedAmount : TxOut → Except String Amount
  /-- `RistrettoPublic::try_from(&tx_out.target_key)`. -/
  decompressTargetKey : TxOut → Except String Unit
  recoverPublicSubaddressSpendKey : TxOut → Bytes32
  /-- The key image, from the one-time private key for a subaddress. -/
  keyImage : TxOut → UInt64 → KeyImage
  /-- `subaddress(index).spend_public_key()`. -/
  spendPublicKey : UInt64 → Bytes32
  defaultSubaddressIndex : UInt64
  changeSubaddressIndex : UInt64

/-- `default_spsk_to_index_map`.  Index 1 is the historical change subaddress. -/
def AccountKey.defaultSpskToIndexMap (accountKey : AccountKey) : AssocMap Bytes32 UInt64 :=
  [accountKey.defaultSubaddressIndex, 1, accountKey.changeSubaddressIndex].foldl
    (fun spskToIndex idx => spskToIndex.set (accountKey.spendPublicKey idx) idx) .empty

/-- `MatchedTxOut::view_key_scan`.  An amount that does not open means that the TxOut is
somebody else's. -/
def MatchedTxOut.viewKeyScan (blockIndex : BlockIndex) (txOut : TxOut) (accountKey : AccountKey)
    (spskToIndex : AssocMap Bytes32 UInt64) : Except Error (Option MatchedTxOut) := do
  (accountKey.decompressPublicKey txOut).mapError .key
  match accountKey.maskedAmount txOut with
  | .error _ => .ok none
  | .ok amount =>
      (accountKey.decompressTargetKey txOut).mapError .key
      match spskToIndex.get? (accountKey.recoverPublicSubaddressSpendKey txOut) with
      | none => .ok none
      | some subaddressIndex =>
          .ok (some ⟨blockIndex, txOut, amount, subaddressIndex,
            accountKey.keyImage txOut subaddressIndex⟩)

namespace Wallet

/-! ## Data -/

/-- `mc_ledger_db::Error`, of which one case is told apart. -/
inductive LedgerError where
  | notFound
  | other (e : String)
deriving DecidableEq

structure WalletEvent where
  blockIndex : BlockIndex
  receivedTxOuts : List MatchedTxOut
  spentTxOuts : List MatchedTxOut
deriving DecidableEq

structure State where
  nextBlockIndex : Nat
  matchedTxOuts : AssocMap KeyImage MatchedTxOut
deriving DecidableEq

/-- The state of a wallet without a file. -/
def State.fresh (defaultFirstBlockIndex : Nat) : State := ⟨defaultFirstBlockIndex, .empty⟩

structure ScannedBlock where
  blockIndex : BlockIndex
  matchedTxOuts : List MatchedTxOut
  keyImages : List KeyImage
deriving DecidableEq

/-- What goes wrong in one turn of the loop. -/
structure ScanFaults where
  numBlocks : Option String
  blockContents : BlockIndex → Option LedgerError
  save : Option String

def ScanFaults.none : ScanFaults := ⟨Option.none, fun _ => Option.none, Option.none⟩

def SCAN_CHUNK_SIZE : Nat := 1000

variable (accountKey : AccountKey) (chain : Nat → Block)

/-! ## Scanning blocks -/

/-- The scan of one TxOut, with the subaddresses the worker knows. -/
def scanTxOut (blockIndex : BlockIndex) (txOut : TxOut) : Except Error (Option MatchedTxOut) :=
  MatchedTxOut.viewKeyScan blockIndex txOut accountKey accountKey.defaultSpskToIndexMap

def matchOutputs (blockIndex : BlockIndex) : List TxOut → Except Error (List MatchedTxOut)
  | [] => .ok []
  | txOut :: outputs => do
      let matchedTxOut ← scanTxOut accountKey blockIndex txOut
      let matchedTxOuts ← matchOutputs blockIndex outputs
      .ok (matchedTxOut.toList ++ matchedTxOuts)

/-- `process_block`.  All key images are passed on; which of them are ours is seen later. -/
def processBlock (blockIndex : BlockIndex) (blockContents : Block) :
    Except Error ScannedBlock := do
  let matchedTxOuts ← matchOutputs accountKey blockIndex blockContents.outputs
  .ok ⟨blockIndex, matchedTxOuts, blockContents.keyImages⟩

/-- `get_block_contents`, on a ledger of `numBlocks` blocks. -/
def getBlockContents (faults : ScanFaults) (numBlocks : Nat) (blockIndex : BlockIndex) :
    Except LedgerError Block :=
  match faults.blockContents blockIndex with
  | some e => .error e
  | none => if blockIndex < numBlocks then .ok (chain blockIndex) else .error .notFound

def scanBlock (faults : ScanFaults) (blockIndex : BlockIndex) (numBlocks : Nat) :
    Except Error (Option ScannedBlock) × Nat :=
  (match getBlockContents chain faults numBlocks blockIndex with
    | .ok blockContents => (processBlock accountKey blockIndex blockContents).map some
    | .error .notFound => .ok none
    | .error (.other e) => .error (.ledgerDb e), numBlocks)

/-- The step function of the parallel scan; what others do to the ledger is make it
longer. -/
abbrev scanStep (faults : ScanFaults) (indices : List BlockIndex) :
    ParMap.State Nat (Except Error (Option ScannedBlock)) → ParMap.Turn Nat →
      Option (ParMap.State Nat (Except Error (Option ScannedBlock))) :=
  ParMap.step (scanBlock accountKey chain faults) (fun numBlocks n => some (numBlocks + n)) indices

def errorOf : Option (Except Error (Option ScannedBlock)) → Option Error
  | some (.error e) => some e
  | _ => none

def scannedOf : Option (Except Error (Option ScannedBlock)) → Option (Option ScannedBlock)
  | some (.ok scanned) => some scanned
  | _ => none

/-- `collect::<Result<Vec<_>, Error>>()`.  An error is the result whether or not the other
tasks have run; `none` is a schedule that stops too early. -/
def collect (results : List (Option (Except Error (Option ScannedBlock)))) :
    Option (Except Error (List (Option ScannedBlock))) :=
  match results.findSome? errorOf with
  | some e => some (.error e)
  | none => (results.mapM scannedOf).map Except.ok

/-! ## The results -/

def processResult (state : State) (result : ScannedBlock) :
    Outcome Error (State × WalletEvent) := do
  .assert (result.blockIndex = state.nextBlockIndex) "result.block_index == state.next_block_index"
  let (spentTxOuts, matchedTxOuts) := state.matchedTxOuts.removeAll result.keyImages
  .ok (⟨state.nextBlockIndex + 1,
      matchedTxOuts.insertAll MatchedTxOut.keyImage result.matchedTxOuts⟩,
    ⟨result.blockIndex, result.matchedTxOuts, spentTxOuts⟩)

/-- The loop over the results: the state it leaves, and the events it emits. -/
def processResults : State → List ScannedBlock → Outcome Error (State × List WalletEvent)
  | state, [] => .ok (state, [])
  | state, result :: results => do
      let (state, event) ← processResult state result
      let (state, events) ← processResults state results
      .ok (state, event :: events)

end Wallet

open Wallet

/-! ## The worker -/

/-- The worker, its ledger and its file.  `origin`, the state it was started with, is for the
statements only; `events` are those emitted since. -/
structure AccountLedgerScanner where
  numBlocks : Nat
  file : Option State
  origin : State
  state : State
  events : List WalletEvent
deriving DecidableEq

namespace AccountLedgerScanner

variable (accountKey : AccountKey) (chain : Nat → Block)

def opened (numBlocks : Nat) (file : Option State) (state : State) : AccountLedgerScanner :=
  ⟨numBlocks, file, state, state, []⟩

def indices (w : AccountLedgerScanner) : List BlockIndex :=
  let lastBlockIndex := min w.numBlocks (w.state.nextBlockIndex + SCAN_CHUNK_SIZE)
  List.range' w.state.nextBlockIndex (lastBlockIndex - w.state.nextBlockIndex)

/-- What follows the parallel scan.  After an error the loop starts over. -/
def finish (faults : ScanFaults) (w : AccountLedgerScanner) (numBlocks : Nat) :
    Except Error (List (Option ScannedBlock)) → Outcome Error AccountLedgerScanner
  | .error _ => .ok { w with numBlocks }
  | .ok results => do
      let (state, events) ← processResults w.state (results.filterMap id)
      match faults.save with
      | some e => .panic s!"Could not save state: {e}"
      | none => .ok ⟨numBlocks, some state, w.origin, state, w.events ++ events⟩

/-- One turn of the loop of `run`; `none` when the schedule leaves tasks out. -/
def iterate (faults : ScanFaults) (schedule : List (ParMap.Turn Nat)) (w : AccountLedgerScanner) :
    Option (Outcome Error AccountLedgerScanner) :=
  match faults.numBlocks with
  | some e => some (.panic s!"Could not get num blocks: {e}")
  | none =>
      match Lts.exec (scanStep accountKey chain faults w.indices)
          (ParMap.start w.numBlocks) schedule with
      | none => none
      | some s =>
          (collect ((List.range w.indices.length).map s.results)).map (w.finish faults s.shared)

inductive Action where
  /-- The ledger grows. -/
  | grow (n : Nat)
  | iterate (faults : ScanFaults) (schedule : List (ParMap.Turn Nat))
  /-- The process is started anew, with the state in the file; `matchedTxOuts` is the map as
  it was read back. -/
  | reopen (matchedTxOuts : AssocMap KeyImage MatchedTxOut)

/-- One step of a wallet that starts at `defaultFirstBlockIndex`; undefined on a panic. -/
def step (defaultFirstBlockIndex : Nat) (w : AccountLedgerScanner) :
    Action → Option AccountLedgerScanner
  | .grow n => some { w with numBlocks := w.numBlocks + n }
  | .iterate faults schedule =>
      match w.iterate accountKey chain faults schedule with
      | some (.ok w') => some w'
      | _ => none
  | .reopen matchedTxOuts =>
      match w.file with
      | none => some (.opened w.numBlocks none (.fresh defaultFirstBlockIndex))
      | some state =>
          if state.matchedTxOuts.entries.Perm matchedTxOuts.entries then
            some (.opened w.numBlocks w.file ⟨state.nextBlockIndex, matchedTxOuts⟩)
          else none

end AccountLedgerScanner

end Deqs.Bot
