/-
# `Stats` — what the bot says about itself

The admin query `get_stats` answers with four maps by token id: the number of pending
TxOuts and their total value, and the same of the listed TxOuts.  A token of `pairs` has
an entry even if there is no TxOut of it.

The counters are `usize` and the totals `u64`, and a release build does not check its
additions.  So each map has the entries it should have, and an entry is the number or the
sum it stands for modulo `2 ^ 64`.  A number of TxOuts stays below that, as the list of
them does; a sum of their values need not, and the answer is then wrong without a sign
of it.

    get?_summary           an entry is a sum of words, and which entries there are
    toNat_sum              a sum of words is the sum modulo `2 ^ 64`
    stats_exact_iff        the statistics are exact if and only if nothing wraps around
    stats_wrap             two TxOuts that are worth nothing together
-/
import Mathlib.Data.UInt
import Deqs.Lib.Tally
import Deqs.Bot.Tracking

namespace Deqs.Bot

structure Stats where
  numPendingTxOutsByTokenId : AssocMap TokenId UInt64
  totalPendingTxOutsValueByTokenId : AssocMap TokenId UInt64
  numListedTxOutsByTokenId : AssocMap TokenId UInt64
  totalListedTxOutsValueByTokenId : AssocMap TokenId UInt64
deriving DecidableEq

namespace LiquidityBotTask

def pendingAmounts (task : LiquidityBotTask) : List Amount :=
  task.pendingTxOuts.map (fun p => p.matchedTxOut.amount)

def listedAmounts (task : LiquidityBotTask) : List Amount :=
  task.listedTxOuts.map (fun l => l.matchedTxOut.amount)

/-- `pairs.keys()`. -/
def tokenIds (task : LiquidityBotTask) : List TokenId := task.pairs.entries.map Prod.fst

end LiquidityBotTask

/-- One of the maps: a loop over the TxOuts, and one over the tokens of `pairs`.  The source
fills two maps in the first loop and four in the second; they share nothing. -/
def summary (tokenIds : List TokenId) (weight : Amount → UInt64) (amounts : List Amount) :
    AssocMap TokenId UInt64 :=
  .ensure tokenIds (.tally Amount.tokenId weight amounts .empty)

/-- `From<&LiquidityBotTask> for Stats`. -/
def Stats.ofTask (task : LiquidityBotTask) : Stats where
  numPendingTxOutsByTokenId := summary task.tokenIds (fun _ => 1) task.pendingAmounts
  totalPendingTxOutsValueByTokenId := summary task.tokenIds Amount.value task.pendingAmounts
  numListedTxOutsByTokenId := summary task.tokenIds (fun _ => 1) task.listedAmounts
  totalListedTxOutsValueByTokenId := summary task.tokenIds Amount.value task.listedAmounts

/-! ## What they should be -/

def ofToken (tokenId : TokenId) (amounts : List Amount) : List Amount :=
  amounts.filter (fun a => a.tokenId = tokenId)

def totalValue (amounts : List Amount) (tokenId : TokenId) : Nat :=
  ((ofToken tokenId amounts).map (fun a => a.value.toNat)).sum

def numTxOuts (amounts : List Amount) (tokenId : TokenId) : Nat := (ofToken tokenId amounts).length

/-- The map has an entry for exactly the tokens of `pairs` and of the TxOuts, and each of
them is what it should be. -/
def Tells (m : AssocMap TokenId UInt64) (tokenIds : List TokenId) (amounts : List Amount)
    (expected : TokenId → Nat) : Prop :=
  ∀ tokenId, (m.get? tokenId).map UInt64.toNat =
    if tokenId ∈ tokenIds ∨ tokenId ∈ amounts.map Amount.tokenId then some (expected tokenId)
    else none

structure Stats.Exact (stats : Stats) (task : LiquidityBotTask) : Prop where
  numPending : Tells stats.numPendingTxOutsByTokenId task.tokenIds task.pendingAmounts
    (numTxOuts task.pendingAmounts)
  totalPending : Tells stats.totalPendingTxOutsValueByTokenId task.tokenIds task.pendingAmounts
    (totalValue task.pendingAmounts)
  numListed : Tells stats.numListedTxOutsByTokenId task.tokenIds task.listedAmounts
    (numTxOuts task.listedAmounts)
  totalListed : Tells stats.totalListedTxOutsValueByTokenId task.tokenIds task.listedAmounts
    (totalValue task.listedAmounts)

/-! ## What they are -/

theorem get?_summary (tokenIds : List TokenId) (weight : Amount → UInt64) (amounts : List Amount)
    (tokenId : TokenId) : (summary tokenIds weight amounts).get? tokenId =
      if tokenId ∈ tokenIds ∨ tokenId ∈ amounts.map Amount.tokenId then
        some ((ofToken tokenId amounts).map weight).sum
      else none :=
  AssocMap.get?_ensure_tally Amount.tokenId weight amounts tokenIds tokenId

/-- A sum of words wraps around once it is taken. -/
theorem toNat_sum : ∀ xs : List UInt64, xs.sum.toNat = (xs.map UInt64.toNat).sum % 2 ^ 64
  | [] => rfl
  | x :: xs => by
      rw [List.sum_cons, UInt64.toNat_add, toNat_sum xs, List.map_cons, List.sum_cons,
        Nat.add_mod_mod]

theorem ofToken_eq_nil {tokenId : TokenId} {amounts : List Amount}
    (h : tokenId ∉ amounts.map Amount.tokenId) : ofToken tokenId amounts = [] := by
  rw [ofToken, List.filter_eq_nil_iff]
  intro a ha
  simp only [decide_eq_true_eq]
  rintro rfl
  exact h (List.mem_map_of_mem ha)

/-- **One map tells the truth if and only if no entry wraps around.** -/
theorem tells_summary_iff {tokenIds : List TokenId} {weight : Amount → UInt64}
    {amounts : List Amount} {expected : TokenId → Nat} (hexpected : ∀ tokenId, expected tokenId =
      ((ofToken tokenId amounts).map (fun a => (weight a).toNat)).sum) :
    Tells (summary tokenIds weight amounts) tokenIds amounts expected ↔
      ∀ tokenId, expected tokenId < 2 ^ 64 := by
  have hsum (tokenId : TokenId) :
      ((ofToken tokenId amounts).map weight).sum.toNat = expected tokenId % 2 ^ 64 := by
    rw [toNat_sum, hexpected, List.map_map]
    rfl
  constructor
  · intro htells tokenId
    have h := htells tokenId
    rw [get?_summary] at h
    by_cases hmem : tokenId ∈ tokenIds ∨ tokenId ∈ amounts.map Amount.tokenId
    · rw [if_pos hmem, if_pos hmem, Option.map_some, Option.some.injEq, hsum] at h
      rw [← h]
      exact Nat.mod_lt _ (by decide)
    · rw [hexpected, ofToken_eq_nil (fun hm => hmem (.inr hm))]
      exact Nat.two_pow_pos 64
  · intro hlt tokenId
    rw [get?_summary]
    split
    · rw [Option.map_some, hsum, Nat.mod_eq_of_lt (hlt tokenId)]
    · rfl

/-- **When the statistics are exact.**  The entries are right for every task; the numbers
are right if and only if, for each token, the TxOuts of either list are fewer than `2 ^ 64`
and their values add up to less than `2 ^ 64`. -/
theorem stats_exact_iff (task : LiquidityBotTask) : (Stats.ofTask task).Exact task ↔
    ∀ tokenId, numTxOuts task.pendingAmounts tokenId < 2 ^ 64 ∧
      totalValue task.pendingAmounts tokenId < 2 ^ 64 ∧
      numTxOuts task.listedAmounts tokenId < 2 ^ 64 ∧
      totalValue task.listedAmounts tokenId < 2 ^ 64 := by
  have hnum (amounts : List Amount) :
      Tells (summary task.tokenIds (fun _ => 1) amounts) task.tokenIds amounts
        (numTxOuts amounts) ↔ ∀ tokenId, numTxOuts amounts tokenId < 2 ^ 64 :=
    tells_summary_iff (fun _ => by simp [numTxOuts])
  have htotal (amounts : List Amount) :
      Tells (summary task.tokenIds Amount.value amounts) task.tokenIds amounts
        (totalValue amounts) ↔ ∀ tokenId, totalValue amounts tokenId < 2 ^ 64 :=
    tells_summary_iff (fun _ => rfl)
  constructor
  · intro h tokenId
    exact ⟨(hnum _).mp h.numPending tokenId, (htotal _).mp h.totalPending tokenId,
      (hnum _).mp h.numListed tokenId, (htotal _).mp h.totalListed tokenId⟩
  · intro h
    exact {
      numPending := (hnum _).mpr (fun t => (h t).1)
      totalPending := (htotal _).mpr (fun t => (h t).2.1)
      numListed := (hnum _).mpr (fun t => (h t).2.2.1)
      totalListed := (htotal _).mpr (fun t => (h t).2.2.2) }

open LiquidityBotTask

/-- A TxOut that holds half of what a word can. -/
def halfTxOut (tag : UInt8) : MatchedTxOut :=
  { sampleTxOut tag with amount := ⟨9223372036854775808, 1⟩ }

/-- **Two TxOuts that are worth nothing together.**  The wallet receives both while the
server cannot be reached; the bot then says that it has two pending TxOuts of token 1, of
a total value of 0. -/
theorem stats_wrap : ∃ task : LiquidityBotTask,
    Lts.Run (step sampleCodec) Lts.Any (initial samplePairs)
      [.blockProcessed [halfTxOut 1, halfTxOut 2] [] sampleOffer unreachable] task ∧
    (Stats.ofTask task).numPendingTxOutsByTokenId.get? 1 = some 2 ∧
    (Stats.ofTask task).totalPendingTxOutsValueByTokenId.get? 1 = some 0 ∧
    totalValue task.pendingAmounts 1 = 2 ^ 64 ∧
    ¬ (Stats.ofTask task).Exact task := by
  have hrun : ∃ task : LiquidityBotTask,
      Lts.Run (step sampleCodec) Lts.Any (initial samplePairs)
        [.blockProcessed [halfTxOut 1, halfTxOut 2] [] sampleOffer unreachable] task ∧
      (Stats.ofTask task).numPendingTxOutsByTokenId.get? 1 = some 2 ∧
      (Stats.ofTask task).totalPendingTxOutsValueByTokenId.get? 1 = some 0 ∧
      totalValue task.pendingAmounts 1 = 2 ^ 64 ∧
      (1 : TokenId) ∈ task.tokenIds :=
    ⟨_, Lts.run_of_exec rfl, rfl, rfl, rfl, List.mem_singleton.mpr rfl⟩
  obtain ⟨task, hrun, hnum, htotal, hvalue, hmem⟩ := hrun
  refine ⟨task, hrun, hnum, htotal, hvalue, ?_⟩
  intro hexact
  have h := hexact.totalPending 1
  rw [htotal, if_pos (.inl hmem), hvalue] at h
  exact absurd (Option.some.inj h) (by decide)

end Deqs.Bot
