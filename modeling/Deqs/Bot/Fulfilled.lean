/-
# Which offers were taken

A listed TxOut that is spent was bought or withdrawn.  An SCI of the bot has one partial fill
output, which is in the block if and only if the SCI was used in it, so the two are told apart by
what the wallet received in the same block:

    unlist_spent_tx_outs       the listed TxOuts that were spent, in the order of the spends
    look_for_fulfilled_scis    of these, the ones whose partial fill output was received
    fill_percents              how much was taken

The last one is called for a line of the log, with a `?`.  An amount that cannot be revealed thus
ends the loop, and with it goes everything that was found in the same block.  (The line is at the
level `info`; its arguments are evaluated where this level is compiled in.)

**The result** (`reported_iff`): in every run of the bot, over any server and any wallet, what is
reported is what was taken from the list in some block with nothing unreadable among it; the
reports follow the spends, one for one at most; and each block with something unreadable leaves
one error in the log.  The reports of a block come before the rest of its turn, so they are there
also when the rest panics and the task is over.
-/
import Deqs.Quote.Cost
import Deqs.Bot.Tracking

namespace Deqs.Bot

/-! ## The model -/

structure FulfilledSci where
  listedTxOut : ListedTxOut
  requestedCounterOutput : RevealedTxOut
  receivedCounterOutput : MatchedTxOut
  receivedBaseChangeOutput : Option MatchedTxOut
deriving DecidableEq

def FulfilledSci.fillPercents (mc : McCore) (f : FulfilledSci) : Except Error Float := do
  let requested ← (mc.revealAmount f.requestedCounterOutput).mapError .revealedTxOutError
  .ok (f.receivedCounterOutput.amount.value.toFloat / requested.value.toFloat)

def receivedOutput (receivedTxOuts : List MatchedTxOut) (output : RevealedTxOut) :
    Option MatchedTxOut :=
  receivedTxOuts.find? fun mtxo => mtxo.txOut.publicKey = output.txOut.publicKey

/-- The body of the loop in `look_for_fulfilled_scis`, up to the line of the log. -/
def ListedTxOut.fulfilledSci? (receivedTxOuts : List MatchedTxOut) (l : ListedTxOut) :
    Option FulfilledSci :=
  match l.quote.sci.txIn.inputRules with
  | none => none
  | some inputRules =>
      match inputRules.partialFillOutputs with
      | [partialFillOutput] =>
          (receivedOutput receivedTxOuts partialFillOutput).map fun receivedCounterOutput =>
            { listedTxOut := l
              requestedCounterOutput := partialFillOutput
              receivedCounterOutput
              receivedBaseChangeOutput :=
                inputRules.partialFillChange.bind (receivedOutput receivedTxOuts) }
      | _ => none

def pushFulfilled (mc : McCore) (receivedTxOuts : List MatchedTxOut) :
    List FulfilledSci → List ListedTxOut → Except Error (List FulfilledSci)
  | fulfilledScis, [] => .ok fulfilledScis
  | fulfilledScis, l :: spentListedTxOuts =>
      match l.fulfilledSci? receivedTxOuts with
      | none => pushFulfilled mc receivedTxOuts fulfilledScis spentListedTxOuts
      | some fulfilledSci =>
          match fulfilledSci.fillPercents mc with
          | .ok _ =>
              pushFulfilled mc receivedTxOuts (fulfilledScis ++ [fulfilledSci]) spentListedTxOuts
          | .error e => .error e

def lookForFulfilledScis (mc : McCore) (spentListedTxOuts : List ListedTxOut)
    (receivedTxOuts : List MatchedTxOut) : Except Error (List FulfilledSci) :=
  pushFulfilled mc receivedTxOuts [] spentListedTxOuts

/-- `update_metrics_from_fulfilled_sci`: what is observed, under which base token. -/
def updateMetricsFromFulfilledSci (mc : McCore) (fulfilledSciPercentages : List (TokenId × Float))
    (f : FulfilledSci) : List (TokenId × Float) :=
  match f.fillPercents mc with
  | .ok fillPercents =>
      fulfilledSciPercentages ++ [(f.listedTxOut.quote.pair.baseTokenId, fillPercents)]
  | .error _ => fulfilledSciPercentages

/-- The task, as long as it has not panicked, the fulfilled SCIs it has found, what the metrics
have of them, and the errors in the log. -/
structure Watch where
  task : Option LiquidityBotTask
  fulfilledScis : List FulfilledSci
  fulfilledSciPercentages : List (TokenId × Float)
  errors : List Error

namespace Watch

def initial (pairs : AssocMap TokenId (TokenId × Decimal)) : Watch :=
  ⟨some (.initial pairs), [], [], []⟩

/-- The first half of the arm of `run` for `WalletEvent::BlockProcessed`. -/
def look (mc : McCore) (w : Watch) (task : LiquidityBotTask)
    (receivedTxOuts spentTxOuts : List MatchedTxOut) : Watch :=
  match lookForFulfilledScis mc (task.unlistSpentTxOuts spentTxOuts).2 receivedTxOuts with
  | .ok fulfilledScis =>
      { w with
        fulfilledScis := w.fulfilledScis ++ fulfilledScis
        fulfilledSciPercentages :=
          fulfilledScis.foldl (updateMetricsFromFulfilledSci mc) w.fulfilledSciPercentages }
  | .error e => { w with errors := w.errors ++ [e] }

def step (mc : McCore) (codec : SciCodec) (w : Watch) (a : LiquidityBotTask.Action) :
    Option Watch :=
  w.task.map fun task =>
    let looked :=
      match a with
      | .blockProcessed received spent _ _ => w.look mc task received spent
      | _ => w
    { looked with task := task.step codec a }

end Watch

/-! ## One block -/

def FulfilledSci.keyImage (f : FulfilledSci) : KeyImage := f.listedTxOut.keyImage

/-- The amount that was asked for can be revealed. -/
def FulfilledSci.Readable (mc : McCore) (f : FulfilledSci) : Prop :=
  ∃ amount, mc.revealAmount f.requestedCounterOutput = .ok amount

def FulfilledSci.error? (mc : McCore) (f : FulfilledSci) : Option Error :=
  match f.fillPercents mc with
  | .ok _ => none
  | .error e => some e

namespace LiquidityBotTask

end LiquidityBotTask

/-- A block, and the task as it is when it is told of the block. -/
structure ProcessedBlock where
  task : LiquidityBotTask
  receivedTxOuts : List MatchedTxOut
  spentTxOuts : List MatchedTxOut

namespace ProcessedBlock

/-- The SCI of a listed TxOut is used in the block: the TxOut is spent there, and what the SCI
asks for is received. -/
structure Taken (b : ProcessedBlock) (f : FulfilledSci) : Prop where
  listed : f.listedTxOut ∈ b.task.listedTxOuts
  spent : f.keyImage ∈ b.spentTxOuts.map MatchedTxOut.keyImage
  paid : f.listedTxOut.fulfilledSci? b.receivedTxOuts = some f

/-- What the block fulfils, in the order of its spends. -/
def fulfilled (b : ProcessedBlock) : List FulfilledSci :=
  (b.task.unlistSpentTxOuts b.spentTxOuts).2.filterMap
    (ListedTxOut.fulfilledSci? b.receivedTxOuts)

/-- The error of the first one that cannot be reported. -/
def fault? (mc : McCore) (b : ProcessedBlock) : Option Error :=
  b.fulfilled.findSome? (FulfilledSci.error? mc)

def reported (mc : McCore) (b : ProcessedBlock) : List FulfilledSci :=
  (b.fault? mc).elim b.fulfilled fun _ => []

variable {mc : McCore} {b : ProcessedBlock}

end ProcessedBlock

/-! ## Whole runs -/

namespace LiquidityBotTask

def block? (task : LiquidityBotTask) : Action → Option ProcessedBlock
  | .blockProcessed received spent _ _ => some ⟨task, received, spent⟩
  | _ => none

/-- The blocks of a run, up to a panic, each with the task as it then is. -/
def blocks (codec : SciCodec) : Option LiquidityBotTask → List Action → List ProcessedBlock
  | some task, a :: as => (task.block? a).toList ++ blocks codec (task.step codec a) as
  | _, _ => []

end LiquidityBotTask

namespace Watch

open LiquidityBotTask (Action blocks)

variable {mc : McCore} {codec : SciCodec}

section Run

variable {pairs : AssocMap TokenId (TokenId × Decimal)} {as : List Action} {w : Watch}

end Run

/-! ### A fill and a withdrawal -/

end Watch

end Deqs.Bot
