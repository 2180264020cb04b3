/-
# One TxOut that cannot be offered, and those behind it

`update_pending_tx_outs_from_received_tx_outs` makes an SCI for each new TxOut of a block and
returns with the first error:

    let tracked_tx_out = self.create_pending_tx_out(matched_tx_out)?;

What was queued before the error stays queued.  What comes after it in the list is not looked
at, and no later event brings it again.

| | in a list `before ++ bad :: after` |
| :-- | :-- |
| `before` | queued, as far as it is new |
| `bad` | untracked, and its SCI cannot be made |
| `after` | tracked only if it was already, or if its key image occurs in `before` |

**The result** (`all_received_tracked_iff`): everything that could have been offered is tracked
afterwards exactly when the list has no such `bad` with something new behind it.
-/
import Deqs.Bot.Tracking

namespace Deqs.Bot.LiquidityBotTask

/-! ## How the loop ends -/

/-- An SCI can be made from the TxOut; in particular its token is one we trade. -/
def Quotable (task : LiquidityBotTask) (offer : Offer) (m : MatchedTxOut) : Prop :=
  ∃ p, task.createPendingTxOut offer m = .ok p

/-- The token is one we trade, and making the SCI fails. -/
def Unquotable (task : LiquidityBotTask) (offer : Offer) (m : MatchedTxOut) : Prop :=
  (task.pairs.get? m.amount.tokenId).isSome ∧ ∃ e, task.createPendingTxOut offer m = .err e

/-- The TxOut is in neither list once everything in `before` that can be offered is. -/
def UntrackedAfter (task : LiquidityBotTask) (offer : Offer) (before : List MatchedTxOut)
    (m : MatchedTxOut) : Prop :=
  m.keyImage ∉ task.keyImages ∧ ∀ m' ∈ before, task.Quotable offer m' → m'.keyImage ≠ m.keyImage

section Loop

variable {offer : Offer} {task : LiquidityBotTask} {m : MatchedTxOut}

theorem Quotable.isSome (h : task.Quotable offer m) :
    (task.pairs.get? m.amount.tokenId).isSome = true := by
  obtain ⟨p, hp⟩ := h
  unfold createPendingTxOut at hp
  split at hp
  · cases hp
  · next heq => rw [heq]; rfl

theorem isNew_iff : task.isNew m = true ↔
    (task.pairs.get? m.amount.tokenId).isSome = true ∧ m.keyImage ∉ task.keyImages := by
  constructor
  · intro h
    refine ⟨?_, not_mem_keyImages_of_isNew h⟩
    simp only [isNew, Bool.and_eq_true] at h
    exact h.1.1
  · rintro ⟨hpair, hk⟩
    simp only [keyImages, pendingKeyImages, listedKeyImages, List.mem_append, not_or,
      List.mem_map, not_exists, not_and] at hk
    simp only [isNew, hpair, Bool.and_eq_true, Bool.not_eq_true', List.any_eq_false,
      decide_eq_true_eq, true_and]
    exact hk

/-- A loop over two lists is two loops, if the first comes to its end. -/
theorem addReceived_append (received' : List MatchedTxOut) :
    ∀ {received : List MatchedTxOut} {task task' : LiquidityBotTask} {added b : Bool},
      addReceived offer task added received = (task', .ok b) →
      addReceived offer task added (received ++ received') = addReceived offer task' b received'
  | [], task, task', added, b, h => by
      obtain ⟨rfl, hb⟩ := Prod.mk.inj h
      obtain rfl := Outcome.ok.inj hb
      rfl
  | m :: received, task, task', added, b, h => by
      simp only [addReceived, List.cons_append] at h ⊢
      split at h
      · next hnew =>
          rw [if_pos hnew]
          split at h
          · exact addReceived_append received' h
          · cases h
          · cases h
      · next hnew =>
          rw [if_neg hnew]
          exact addReceived_append received' h

theorem addReceived_append_of_ne_ok (received' : List MatchedTxOut) :
    ∀ {received : List MatchedTxOut} {task : LiquidityBotTask} {added : Bool},
      (∀ b, (addReceived offer task added received).2 ≠ .ok b) →
      addReceived offer task added (received ++ received') =
        addReceived offer task added received
  | [], task, added, h => absurd rfl (h added)
  | m :: received, task, added, h => by
      simp only [addReceived, List.cons_append] at h ⊢
      split at h
      · next hnew =>
          rw [if_pos hnew, if_pos hnew]
          cases hp : task.createPendingTxOut offer m with
          | ok p =>
              simp only [hp] at h ⊢
              exact addReceived_append_of_ne_ok received' h
          | err e => rfl
          | panic msg => rfl
      · next hnew =>
          rw [if_neg hnew, if_neg hnew]
          exact addReceived_append_of_ne_ok received' h

/-- **A loop that fails** has come to its end on a first part of the list, and then met a new
TxOut whose SCI cannot be made. -/
theorem addReceived_err {received : List MatchedTxOut} :
    ∀ {task task' : LiquidityBotTask} {added : Bool} {e : Error},
      addReceived offer task added received = (task', .err e) →
      ∃ before bad after b, received = before ++ bad :: after ∧
        addReceived offer task added before = (task', .ok b) ∧
        task'.isNew bad = true ∧ task'.createPendingTxOut offer bad = .err e := by
  induction received with
  | nil => intro task task' added e h; cases h
  | cons m received ih =>
      intro task task' added e h
      simp only [addReceived] at h
      split at h
      · next hnew =>
          split at h
          · next p hp =>
              obtain ⟨before, bad, after, b, rfl, hok, hbad⟩ := ih h
              refine ⟨m :: before, bad, after, b, rfl, ?_, hbad⟩
              simp only [addReceived, hnew, if_true, hp, hok]
          · next e' he =>
              obtain ⟨rfl, heq⟩ := Prod.mk.inj h
              obtain rfl := Outcome.err.inj heq
              exact ⟨[], m, received, added, rfl, rfl, hnew, he⟩
          · cases h
      · next hnew =>
          obtain ⟨before, bad, after, b, rfl, hok, hbad⟩ := ih h
          refine ⟨m :: before, bad, after, b, rfl, ?_, hbad⟩
          simp only [addReceived, if_neg hnew, hok]

/-- **A loop that comes to its end** tracks what was tracked and what can be offered.  The
pairs do not change. -/
theorem keyImages_of_addReceived_ok {received : List MatchedTxOut} :
    ∀ {task task' : LiquidityBotTask} {added b : Bool},
      addReceived offer task added received = (task', .ok b) →
      task'.pairs = task.pairs ∧ ∀ k, k ∈ task'.keyImages ↔
        k ∈ task.keyImages ∨ ∃ m ∈ received, task.Quotable offer m ∧ m.keyImage = k := by
  induction received with
  | nil =>
      intro task task' added b h
      obtain ⟨rfl, -⟩ := Prod.mk.inj h
      simp
  | cons m received ih =>
      intro task task' added b h
      simp only [addReceived] at h
      split at h
      · next hnew =>
          split at h
          · next p hp =>
              have hkey := keyImage_createPendingTxOut hp
              obtain ⟨hpairs, hkeys⟩ := ih h
              refine ⟨hpairs, ?_⟩
              intro k
              have hmem : k ∈ ({ task with
                  pendingTxOuts := task.pendingTxOuts ++ [p] } : LiquidityBotTask).keyImages ↔
                    k = m.keyImage ∨ k ∈ task.keyImages := by
                rw [(keyImages_push task p).mem_iff, List.mem_cons, hkey]
              rw [hkeys k, hmem]
              constructor
              · rintro ((rfl | hk) | ⟨m', hm', hq, rfl⟩)
                · exact .inr ⟨m, List.mem_cons_self, ⟨p, hp⟩, rfl⟩
                · exact .inl hk
                · exact .inr ⟨m', List.mem_cons_of_mem _ hm', hq, rfl⟩
              · rintro (hk | ⟨m', hm', hq, rfl⟩)
                · exact .inl (.inr hk)
                · rcases List.mem_cons.mp hm' with rfl | hm'
                  · exact .inl (.inl rfl)
                  · exact .inr ⟨m', hm', hq, rfl⟩
          · cases h
          · cases h
      · next hnew =>
          obtain ⟨hpairs, hkeys⟩ := ih h
          refine ⟨hpairs, ?_⟩
          intro k
          rw [hkeys k]
          constructor
          · rintro (hk | ⟨m', hm', hq, rfl⟩)
            · exact .inl hk
            · exact .inr ⟨m', List.mem_cons_of_mem _ hm', hq, rfl⟩
          · rintro (hk | ⟨m', hm', hq, rfl⟩)
            · exact .inl hk
            · rcases List.mem_cons.mp hm' with rfl | hm'
              · -- it was skipped, and its token is one we trade: it is tracked
                refine .inl (not_not.mp fun hk => hnew (isNew_iff.mpr ⟨?_, hk⟩))
                exact hq.isSome
              · exact .inr ⟨m', hm', hq, rfl⟩

theorem quotable_congr {task' : LiquidityBotTask} (h : task'.pairs = task.pairs) :
    task'.createPendingTxOut offer m = task.createPendingTxOut offer m := by
  unfold createPendingTxOut
  rw [h]

theorem not_mem_iff_untrackedAfter {before : List MatchedTxOut} {task' : LiquidityBotTask}
    {added b : Bool} (h : addReceived offer task added before = (task', .ok b)) :
    m.keyImage ∉ task'.keyImages ↔ task.UntrackedAfter offer before m := by
  rw [(keyImages_of_addReceived_ok h).2, not_or]
  refine and_congr_right fun _ => ?_
  constructor
  · intro hn m' hm' hq heq
    exact hn ⟨m', hm', hq, heq⟩
  · rintro hn ⟨m', hm', hq, heq⟩
    exact hn m' hm' hq heq

end Loop

/-! ## What is hidden -/

/-- **Everything that can be offered is tracked afterwards, exactly when no TxOut that cannot
be comes, untracked, before an untracked one that can.**  For every state, every list and
every way the SCIs come out, as long as the call returns. -/
theorem all_received_tracked_iff {task : LiquidityBotTask} {offer : Offer}
    {received : List MatchedTxOut}
    (hret : ∀ msg, (task.updatePendingTxOutsFromReceivedTxOuts offer received).2 ≠ .panic msg) :
    (∀ m ∈ received, (task.pairs.get? m.amount.tokenId).isSome → task.Quotable offer m →
      m.keyImage ∈ (task.updatePendingTxOutsFromReceivedTxOuts offer received).1.keyImages) ↔
    ¬ ∃ before bad after m, received = before ++ bad :: after ∧ m ∈ after ∧
        task.Unquotable offer bad ∧ task.UntrackedAfter offer before bad ∧
        task.Quotable offer m ∧ task.UntrackedAfter offer before m := by
  unfold updatePendingTxOutsFromReceivedTxOuts at hret ⊢
  constructor
  · rintro htracked ⟨before, bad, after, m, rfl, hm, ⟨hpair, e, he⟩, hbad, hq, hnew⟩
    have hmem := htracked m (List.mem_append_right _ (List.mem_cons_of_mem _ hm)) hq.isSome hq
    rcases hb : addReceived offer task false before with ⟨t, r⟩
    cases r with
    | ok b =>
        -- the loop comes to `bad`, and goes no further
        have hpairs := (keyImages_of_addReceived_ok hb).1
        have hisNew : t.isNew bad = true :=
          isNew_iff.mpr ⟨hpairs ▸ hpair, (not_mem_iff_untrackedAfter hb).mpr hbad⟩
        rw [addReceived_append _ hb, addReceived, if_pos hisNew, quotable_congr hpairs, he] at hmem
        exact (not_mem_iff_untrackedAfter hb).mpr hnew hmem
    | err e' =>
        -- it has ended before
        obtain ⟨before', bad', after', b, rfl, hok, -⟩ := addReceived_err hb
        rw [addReceived_append_of_ne_ok _ (by simp [hb]), hb] at hmem
        refine (not_mem_iff_untrackedAfter hok).mpr ⟨hnew.1, ?_⟩ hmem
        exact fun m' hm' => hnew.2 m' (List.mem_append_left _ hm')
    | panic msg =>
        refine absurd ?_ (hret msg)
        rw [addReceived_append_of_ne_ok _ (by simp [hb]), hb]
  · intro hnone m hm hpair hq
    rcases hb : addReceived offer task false received with ⟨t, r⟩
    cases r with
    | ok b => exact ((keyImages_of_addReceived_ok hb).2 _).mpr (.inr ⟨m, hm, hq, rfl⟩)
    | panic msg => exact absurd (congrArg Prod.snd hb) (hret msg)
    | err e =>
        obtain ⟨before, bad, after, b, rfl, hok, hisNew, hfail⟩ := addReceived_err hb
        obtain ⟨hpairs, hkeys⟩ := keyImages_of_addReceived_ok hok
        obtain ⟨hbadPair, hbadNew⟩ := isNew_iff.mp hisNew
        rw [quotable_congr hpairs] at hfail
        rcases List.mem_append.mp hm with hm | hm
        · exact (hkeys _).mpr (.inr ⟨m, hm, hq, rfl⟩)
        · rcases List.mem_cons.mp hm with rfl | hm
          · obtain ⟨p, hp⟩ := hq
            rw [hp] at hfail
            cases hfail
          · refine not_not.mp fun hk => hnone ⟨before, bad, after, m, rfl, hm, ?_, ?_, hq, ?_⟩
            · exact ⟨hpairs ▸ hbadPair, e, hfail⟩
            · exact (not_mem_iff_untrackedAfter hok).mp hbadNew
            · exact (not_mem_iff_untrackedAfter hok).mp hk

/-! ### On concrete TxOuts -/

/-- A TxOut of token 1 with more in it than can be offered at 2 to 1. -/
def largeTxOut (tag : UInt8) : MatchedTxOut :=
  { sampleTxOut tag with amount := ⟨UInt64.ofNat (2 ^ 63), 1⟩ }

/-- Offers at 2 to 1, as far as the counter amount is a `u64`. -/
def doublingOffer : Offer := fun m _ _ =>
  if m.amount.value.toNat * 2 < 2 ^ 64 then
    .ok (sampleSci (m.txOut.publicKey.bytes.headD 0) 10 20 100)
  else
    .err (.decimalConversion s!"Could not convert {m.amount.value} times 2 to u64")

/-- Of two TxOuts in one block the first is too large.  The second could be offered, and is
in neither list. -/
theorem received_behind_error_hidden :
    (∃ e, ((initial samplePairs).updatePendingTxOutsFromReceivedTxOuts doublingOffer
      [largeTxOut 1, sampleTxOut 2]).2 = .err e) ∧
    (initial samplePairs).Quotable doublingOffer (sampleTxOut 2) ∧
    ((initial samplePairs).pairs.get? (sampleTxOut 2).amount.tokenId).isSome = true ∧
    ((initial samplePairs).updatePendingTxOutsFromReceivedTxOuts doublingOffer
      [largeTxOut 1, sampleTxOut 2]).1.keyImages = [] :=
  ⟨⟨_, rfl⟩, ⟨_, rfl⟩, rfl, rfl⟩

/-- The other way round nothing is lost. -/
theorem received_before_error_tracked :
    (sampleTxOut 2).keyImage ∈ ((initial samplePairs).updatePendingTxOutsFromReceivedTxOuts
      doublingOffer [sampleTxOut 2, largeTxOut 1]).1.keyImages := by
  have hend : ((initial samplePairs).updatePendingTxOutsFromReceivedTxOuts doublingOffer
      [sampleTxOut 2, largeTxOut 1]).2 =
        .err (.decimalConversion "Could not convert 9223372036854775808 times 2 to u64") := rfl
  have hret : ∀ msg, ((initial samplePairs).updatePendingTxOutsFromReceivedTxOuts doublingOffer
      [sampleTxOut 2, largeTxOut 1]).2 ≠ .panic msg := by
    intro msg h
    rw [hend] at h
    cases h
  refine (all_received_tracked_iff hret).mpr ?_ _ List.mem_cons_self rfl ⟨_, rfl⟩
  -- the one that fails is the last
  rintro ⟨before, bad, after, m, heq, hm, ⟨-, e, he⟩, -⟩
  rcases before with _ | ⟨m₁, _ | ⟨m₂, before⟩⟩
  · obtain rfl : sampleTxOut 2 = bad := (List.cons.inj heq).1
    cases he
  · obtain rfl : [] = after := (List.cons.inj (List.cons.inj heq).2).2
    exact List.not_mem_nil hm
  · have hlen := congrArg List.length heq
    simp at hlen

end Deqs.Bot.LiquidityBotTask
