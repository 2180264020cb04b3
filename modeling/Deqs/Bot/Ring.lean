/-
# The ring — among which TxOuts the bot hides its own

An SCI is signed with a ring of eleven TxOuts of the ledger, one of which is the bot's.
`create_pending_tx_out` draws indices until it has eleven different ones, and then writes
its own over one of them: over the first, in whatever order the hash set is walked, which
"is safe since `InputCredentials::new` sorts the ring".

The ring then has eleven indices, all of them in the ledger, the first of them the bot's.
They need not be different.  If the bot's own index was drawn, and is not the one that is
written over, it is in the ring twice, and the TxOut hides among ten and not eleven.

    ringIndices_eq             what the selection gives: the drawn indices, the first replaced
    isRing_iff                 when it is a ring: the own index is not among the others
    createPendingTxOut_ok      the SCI is built from that ring and from the counter amount
-/
import Mathlib.Data.Finset.Sort
import Deqs.Lib.Sampling
import Deqs.Sync.Model
import Deqs.Bot.CounterAmount

namespace Deqs.Bot

open Sampling
open Sync (Ledger Block)

/-! ## The ledger -/

/-- The TxOuts of the ledger, by their global index.  A ledger has fewer than `2 ^ 64`. -/
def txOuts (ledger : Ledger) : List TxOut := ledger.flatMap Block.outputs

def numTxos (ledger : Ledger) : Nat := (txOuts ledger).length

def getTxOutIndexByPublicKey (ledger : Ledger) (publicKey : Bytes32) : Outcome Error Nat :=
  match (txOuts ledger).findIdx? (fun txOut => txOut.publicKey = publicKey) with
  | some index => .ok index
  | none => .err (.ledgerDb "NotFound")

theorem getTxOutIndexByPublicKey_lt {ledger : Ledger} {publicKey : Bytes32} {index : Nat}
    (h : getTxOutIndexByPublicKey ledger publicKey = .ok index) : index < numTxos ledger := by
  unfold getTxOutIndexByPublicKey at h
  split at h
  · next hfind =>
      rw [← Outcome.ok.inj h]
      exact (List.findIdx?_eq_some_iff_getElem.mp hfind).1
  · cases h

/-! ## The selection -/

def ringSize : Nat := 11

/-- The loop that draws, given what `gen_range(0..num_txos)` returns each time.  `none` is
a loop that is not over; without a TxOut to draw from, `gen_range` panics. -/
def sampleIndices (ledger : Ledger) (draws : List Nat) : Option (Outcome Error (Finset Nat)) :=
  if numTxos ledger = 0 then some (.panic "cannot sample empty range")
  else (collect ringSize ∅ draws).map .ok

/-- The drawn indices in the order the set is walked in, the first replaced by the bot's
own. -/
def includeOurs (ledger : Ledger) (order : Iteration Nat) (publicKey : Bytes32)
    (sampledIndices : Finset Nat) : Outcome Error (List Nat) := do
  let ourTxOutIndex ← getTxOutIndexByPublicKey ledger publicKey
  match order.toList sampledIndices with
  | [] => .panic "index out of bounds: the len is 0 but the index is 0"
  | _ :: rest => .ok (ourTxOutIndex :: rest)

def ringIndices (ledger : Ledger) (draws : List Nat) (order : Iteration Nat)
    (publicKey : Bytes32) : Option (Outcome Error (List Nat)) :=
  (sampleIndices ledger draws).map (fun sampled => sampled >>= includeOurs ledger order publicKey)

structure IsRing (ledger : Ledger) (ourTxOutIndex : Nat) (indices : List Nat) : Prop where
  length : indices.length = ringSize
  nodup : indices.Nodup
  lt : ∀ index ∈ indices, index < numTxos ledger
  ours : ourTxOutIndex ∈ indices

section

variable {ledger : Ledger} {draws : List Nat} {publicKey : Bytes32} {ourTxOutIndex : Nat}

/-- Enough draws give a selection: eleven of the indices that were drawn, in some order,
with the first of them replaced. -/
theorem ringIndices_eq (order : Iteration Nat)
    (hours : getTxOutIndexByPublicKey ledger publicKey = .ok ourTxOutIndex)
    (henough : ringSize ≤ draws.toFinset.card) :
    ∃ sampledIndices first rest, collect ringSize ∅ draws = some sampledIndices ∧
      sampledIndices ⊆ draws.toFinset ∧ order.toList sampledIndices = first :: rest ∧
      (first :: rest).length = ringSize ∧ (first :: rest).Nodup ∧
      ringIndices ledger draws order publicKey = some (.ok (ourTxOutIndex :: rest)) := by
  obtain ⟨sampledIndices, hcollect⟩ : ∃ set, collect ringSize ∅ draws = some set :=
    exists_collect (by rwa [Finset.empty_union])
  obtain ⟨hcard, hsub⟩ := collect_eq_some hcollect (Nat.zero_le _)
  rw [Finset.empty_union] at hsub
  have hlength := order.length_toList sampledIndices
  rw [hcard] at hlength
  have hnodup := order.nodup_toList sampledIndices
  cases hlist : order.toList sampledIndices with
  | nil => simp [hlist, ringSize] at hlength
  | cons first rest =>
      rw [hlist] at hlength hnodup
      refine ⟨sampledIndices, first, rest, hcollect, hsub, hlist, hlength, hnodup, ?_⟩
      have hpos : numTxos ledger ≠ 0 :=
        Nat.ne_of_gt (Nat.zero_lt_of_lt (getTxOutIndexByPublicKey_lt hours))
      have hinclude : includeOurs ledger order publicKey sampledIndices =
          .ok (ourTxOutIndex :: rest) := by
        rw [includeOurs, hours, Outcome.bind_ok, hlist]
      rw [ringIndices, sampleIndices, if_neg hpos, hcollect, Option.map_some, Option.map_some,
        Outcome.bind_ok, hinclude]

/-- **When the selection is a ring.**  It always ends, with eleven indices of the ledger,
the bot's own one first; they are different if and only if the bot's own index is not
among those that were drawn and not written over. -/
theorem isRing_iff (ledger : Ledger) (draws : List Nat) (order : Iteration Nat)
    (publicKey : Bytes32)
    (hours : getTxOutIndexByPublicKey ledger publicKey = .ok ourTxOutIndex)
    (hdraws : ∀ draw ∈ draws, draw < numTxos ledger) (henough : ringSize ≤ draws.toFinset.card) :
    ∃ sampledIndices indices, collect ringSize ∅ draws = some sampledIndices ∧
      ringIndices ledger draws order publicKey = some (.ok indices) ∧
      (IsRing ledger ourTxOutIndex indices ↔
        ourTxOutIndex ∉ (order.toList sampledIndices).tail) := by
  obtain ⟨sampledIndices, first, rest, hcollect, hsub, hlist, hlength, hnodup, hring⟩ :=
    ringIndices_eq order hours henough
  refine ⟨sampledIndices, ourTxOutIndex :: rest, hcollect, hring, ?_⟩
  rw [hlist, List.tail_cons]
  constructor
  · intro h
    exact (List.nodup_cons.mp h.nodup).1
  · intro hnotMem
    refine ⟨hlength, List.nodup_cons.mpr ⟨hnotMem, (List.nodup_cons.mp hnodup).2⟩, ?_,
      List.mem_cons_self⟩
    intro index hindex
    rcases List.mem_cons.mp hindex with rfl | hrest
    · exact getTxOutIndexByPublicKey_lt hours
    · have hmem : index ∈ sampledIndices := by
        rw [← order.mem_toList, hlist]
        exact List.mem_cons_of_mem _ hrest
      exact hdraws index (List.mem_toFinset.mp (hsub hmem))

end

/-- A ledger of `n` TxOuts, with the public keys 0, 1, … -/
def ledgerOf (n : Nat) : Ledger :=
  [⟨[], (List.range n).map (fun i => ⟨.fill (UInt8.ofNat i), []⟩)⟩]

/-- The first indices are walked in ascending order, and so is every other set. -/
def ascending : Iteration Nat where
  toList set := if set = Finset.range ringSize then List.range ringSize else set.sort (· ≤ ·)
  coe_toList set := by
    split
    · next h => rw [h]; rfl
    · exact Finset.sort_eq set (· ≤ ·)

theorem collect_range : collect ringSize ∅ (List.range 11) = some (Finset.range 11) := by
  decide

/-- The bot's TxOut is the twelfth of the ledger, and the first eleven were drawn. -/
theorem isRing_of_last : ∃ indices,
    ringIndices (ledgerOf 12) (List.range 11) ascending (.fill 11) = some (.ok indices) ∧
    IsRing (ledgerOf 12) 11 indices := by
  obtain ⟨sampledIndices, indices, hcollect, hring, hiff⟩ :=
    isRing_iff (ledgerOf 12) (List.range 11) ascending (.fill 11) rfl (by decide) (by decide)
  obtain rfl : Finset.range 11 = sampledIndices :=
    Option.some.inj (collect_range.symm.trans hcollect)
  exact ⟨indices, hring, hiff.mpr (by decide)⟩

/-- **A TxOut in its ring twice.**  The ledger has eleven TxOuts, so all of them are drawn;
the bot's is the sixth, and the first is written over. -/
theorem ring_repeats :
    getTxOutIndexByPublicKey (ledgerOf 11) (.fill 5) = .ok 5 ∧ numTxos (ledgerOf 11) = 11 ∧
    (∀ draw ∈ List.range 11, draw < numTxos (ledgerOf 11)) ∧
    ringIndices (ledgerOf 11) (List.range 11) ascending (.fill 5) =
      some (.ok [5, 1, 2, 3, 4, 5, 6, 7, 8, 9, 10]) ∧
    ¬ IsRing (ledgerOf 11) 5 [5, 1, 2, 3, 4, 5, 6, 7, 8, 9, 10] :=
  ⟨rfl, rfl, by decide, by decide, fun h => absurd h.nodup (by decide)⟩

/-! ## The SCI -/

def getTxOutByIndex (ledger : Ledger) (index : Nat) : Outcome Error TxOut :=
  match (txOuts ledger)[index]? with
  | some txOut => .ok txOut
  | none => .err (.ledgerDb "NotFound")

/-- The rest of `create_pending_tx_out` once the pair is known and the indices are drawn.
`build` is what the transaction builder makes of the TxOut, its ring with the indices the
proofs are for, and the amount that is asked. -/
def createSci (R : Rounding) (ledger : Ledger) (sampled : Outcome Error (Finset Nat))
    (order : Iteration Nat)
    (build : MatchedTxOut → List TxOut → List Nat → Amount → Outcome Error SignedContingentInput) :
    Offer := fun matchedTxOut counterTokenId swapRate => do
  let counterAmount ← counterAmount R matchedTxOut.amount.value swapRate
  let sampledIndices ← sampled
  let indices ← includeOurs ledger order matchedTxOut.txOut.publicKey sampledIndices
  let ring ← indices.mapM (getTxOutByIndex ledger)
  build matchedTxOut ring indices ⟨counterAmount, counterTokenId⟩

theorem includeOurs_ok {ledger : Ledger} {order : Iteration Nat} {publicKey : Bytes32}
    {sampledIndices : Finset Nat} {indices : List Nat}
    (h : includeOurs ledger order publicKey sampledIndices = .ok indices) :
    ∃ index rest txOut, indices = index :: rest ∧ getTxOutByIndex ledger index = .ok txOut ∧
      txOut.publicKey = publicKey := by
  obtain ⟨index, hindex, h⟩ := Outcome.bind_eq_ok.mp h
  unfold getTxOutIndexByPublicKey at hindex
  split at hindex
  · next index' hfind =>
      obtain rfl : index' = index := Outcome.ok.inj hindex
      obtain ⟨hlt, hkey, -⟩ := List.findIdx?_eq_some_iff_getElem.mp hfind
      split at h
      · cases h
      · next rest _ =>
          refine ⟨index', rest, (txOuts ledger)[index'], (Outcome.ok.inj h).symm, ?_, ?_⟩
          · rw [getTxOutByIndex, List.getElem?_eq_getElem hlt]
          · exact of_decide_eq_true hkey
  · cases hindex

/-- **What a pending TxOut is made of.**  Its SCI is built from a ring whose first TxOut has
the bot's public key, and asks the price of the pair, or one unit less. -/
theorem createPendingTxOut_ok {task : LiquidityBotTask} {R : Rounding} {ledger : Ledger}
    {sampled : Outcome Error (Finset Nat)} {order : Iteration Nat}
    {build : MatchedTxOut → List TxOut → List Nat → Amount → Outcome Error SignedContingentInput}
    {matchedTxOut : MatchedTxOut} {ptxo : PendingTxOut}
    (hrates : ∀ tokenId counterTokenId swapRate,
      task.pairs.get? tokenId = some (counterTokenId, swapRate) → swapRate.IsNonneg)
    (h : task.createPendingTxOut (createSci R ledger sampled order build) matchedTxOut = .ok ptxo) :
    ptxo.matchedTxOut = matchedTxOut ∧
    ∃ counterTokenId swapRate counterAmount indices ring txOut,
      task.pairs.get? matchedTxOut.amount.tokenId = some (counterTokenId, swapRate) ∧
      build matchedTxOut ring indices ⟨counterAmount, counterTokenId⟩ = .ok ptxo.sci ∧
      ring.head? = some txOut ∧ txOut.publicKey = matchedTxOut.txOut.publicKey ∧
      (counterAmount.toNat = price matchedTxOut.amount.value swapRate ∨
        counterAmount.toNat + 1 = price matchedTxOut.amount.value swapRate) := by
  unfold LiquidityBotTask.createPendingTxOut at h
  split at h
  · cases h
  · next counterTokenId swapRate hpair =>
      obtain ⟨sci, hsci, h⟩ := Outcome.bind_eq_ok.mp h
      obtain ⟨amount, hamount, hsci⟩ := Outcome.bind_eq_ok.mp hsci
      obtain ⟨sampledIndices, -, hsci⟩ := Outcome.bind_eq_ok.mp hsci
      obtain ⟨indices, hindices, hsci⟩ := Outcome.bind_eq_ok.mp hsci
      obtain ⟨ring, hring, hbuild⟩ := Outcome.bind_eq_ok.mp hsci
      obtain ⟨index, rest, txOut, rfl, htxOut, hkey⟩ := includeOurs_ok hindices
      rw [List.mapM_cons, htxOut, Outcome.bind_ok] at hring
      obtain ⟨others, -, hring⟩ := Outcome.bind_eq_ok.mp hring
      obtain rfl := Outcome.ok.inj h
      obtain rfl := Outcome.ok.inj hring
      exact ⟨rfl, counterTokenId, swapRate, amount, index :: rest, txOut :: others, txOut, hpair,
        hbuild, rfl, hkey, counterAmount_ok (hrates _ _ _ hpair) hamount⟩

end Deqs.Bot
