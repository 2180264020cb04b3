/-
# The start-up race between wallet and bot

`main` starts the wallet, whose thread begins to scan and queues an event for each block;
then it asks the wallet for the TxOuts it holds (`matched_tx_outs`), feeds them to the bot, one
event for each block they came in, and only then passes on the queued events.  How far the
scan has got when the question is asked is a matter of chance:

    p             s                    n
    |-------------|--------------------|
    saved         snapshot             now
    |====== queued events ============>|

so the bot hears of the blocks from `p` to `s` twice: their TxOuts may be in the snapshot and
are in the queued events again, and a TxOut that was received and spent before `s` is not in
the snapshot and is in the queue, first as received and then as spent.

Two things follow one log.  What the wallet holds of the tokens we trade (`held`) and what the
bot tracks change with each event in the same way (`updates`): the spent key images leave, the
received ones enter.  The snapshot starts the bot where the wallet was at `s`, the queue
replays from `p`, and `Replay.foldl_apply_snapshot` says that the difference is none.

| what the bot is spared | |
| :-- | :-- |
| `Succeeds` | every SCI can be made, every submission is answered `CREATED` |
| `SameToken` | a key image belongs to TxOuts of one token |

The second is how key images are: one stands for one TxOut.
-/
import Mathlib.Data.List.Sort
import Mathlib.Data.List.SplitBy
import Deqs.Lib.Replay
import Deqs.Bot.Composition
import Deqs.Bot.Receiving
import Deqs.Bot.Scan

namespace Deqs.Bot

open Sync (Block)

/-! ## What `main` feeds the bot -/

/-- `matched_tx_outs`: the values of the map, as they come, sorted by block.  The sort is
stable. -/
def Wallet.State.sortedTxOuts (state : Wallet.State) : List MatchedTxOut :=
  state.matchedTxOuts.values.insertionSort (fun m m' => m.blockIndex ≤ m'.blockIndex)

/-- The events `main` makes of them: neighbours from one block together, nothing spent. -/
def existingEvents (existingTxOuts : List MatchedTxOut) : List Wallet.WalletEvent :=
  (existingTxOuts.splitBy (fun m m' => m.blockIndex = m'.blockIndex)).filterMap fun group =>
    group.head?.map fun m => ⟨m.blockIndex, group, []⟩

theorem receivedTxOuts_existingEvents (existingTxOuts : List MatchedTxOut) :
    (existingEvents existingTxOuts).flatMap Wallet.WalletEvent.receivedTxOuts = existingTxOuts ∧
      ∀ e ∈ existingEvents existingTxOuts, e.spentTxOuts = [] := by
  unfold existingEvents
  constructor
  · rw [List.flatMap_def, List.map_filterMap]
    have hgroup : ∀ group ∈ existingTxOuts.splitBy (fun m m' => m.blockIndex = m'.blockIndex),
        ((group.head?.map fun m => (⟨m.blockIndex, group, []⟩ : Wallet.WalletEvent)).map
          Wallet.WalletEvent.receivedTxOuts) = some group := by
      intro group hg
      obtain ⟨m, ms, rfl⟩ := List.exists_cons_of_ne_nil (List.ne_nil_of_mem_splitBy hg)
      rfl
    rw [List.filterMap_congr hgroup, List.filterMap_some, List.flatten_splitBy]
  · intro e he
    obtain ⟨group, -, hg⟩ := List.mem_filterMap.mp he
    obtain ⟨m, -, rfl⟩ := Option.map_eq_some_iff.mp hg
    rfl

/-! ## Following a log -/

def isPaired (pairs : AssocMap TokenId (TokenId × Decimal)) (m : MatchedTxOut) : Bool :=
  (pairs.get? m.amount.tokenId).isSome

/-- What an event says about the key images of the tokens we trade. -/
def updates (pairs : AssocMap TokenId (TokenId × Decimal)) (received spent : List MatchedTxOut) :
    List (Replay.Update KeyImage) :=
  Replay.batch (spent.map MatchedTxOut.keyImage)
    ((received.filter (isPaired pairs)).map MatchedTxOut.keyImage)

def eventUpdates (pairs : AssocMap TokenId (TokenId × Decimal)) (e : Wallet.WalletEvent) :
    List (Replay.Update KeyImage) :=
  updates pairs e.receivedTxOuts e.spentTxOuts

namespace Wallet

/-! ### The wallet -/

/-- The key images the wallet holds of the tokens we trade. -/
def held (pairs : AssocMap TokenId (TokenId × Decimal)) (state : State) : Finset KeyImage :=
  ((state.matchedTxOuts.values.filter (isPaired pairs)).map MatchedTxOut.keyImage).toFinset

/-- The map has every TxOut under its key image, and the key image tells the token. -/
def Known (tokenOf : KeyImage → TokenId) (state : State) : Prop :=
  ∀ k m, state.matchedTxOuts.get? k = some m → m.keyImage = k ∧ m.amount.tokenId = tokenOf k

variable {pairs : AssocMap TokenId (TokenId × Decimal)} {tokenOf : KeyImage → TokenId}
  {accountKey : AccountKey} {chain : Nat → Block} {state : State}

theorem mem_held {k : KeyImage} : k ∈ held pairs state ↔
    ∃ m ∈ state.matchedTxOuts.values, m.keyImage = k ∧
      (pairs.get? m.amount.tokenId).isSome = true := by
  simp only [held, List.mem_toFinset, List.mem_map, List.mem_filter, isPaired]
  constructor
  · rintro ⟨m, ⟨hm, hp⟩, hk⟩
    exact ⟨m, hm, hk, hp⟩
  · rintro ⟨m, hm, hk, hp⟩
    exact ⟨m, ⟨hm, hp⟩, hk⟩

/-- Where the key image tells the token, it is enough to look the key image up. -/
theorem Known.mem_held (h : Known tokenOf state) {k : KeyImage} : k ∈ held pairs state ↔
    (state.matchedTxOuts.get? k).isSome = true ∧ (pairs.get? (tokenOf k)).isSome = true := by
  rw [Wallet.mem_held, Option.isSome_iff_exists]
  constructor
  · rintro ⟨m, hm, rfl, hp⟩
    obtain ⟨k, hk⟩ := AssocMap.mem_values_iff.mp hm
    obtain ⟨rfl, htok⟩ := h k m hk
    exact ⟨⟨m, hk⟩, htok ▸ hp⟩
  · rintro ⟨⟨m, hm⟩, hp⟩
    obtain ⟨hk, htok⟩ := h k m hm
    exact ⟨m, AssocMap.mem_values_iff.mpr ⟨k, hm⟩, hk, htok ▸ hp⟩

theorem Known.scanNext (h : Known tokenOf state) {block : Block}
    (hnew : ∀ m ∈ received accountKey state.nextBlockIndex block,
      m.amount.tokenId = tokenOf m.keyImage) :
    Known tokenOf (Wallet.scanNext accountKey state block).1 := by
  intro k m hm
  rcases get?_scanNext accountKey state block k with ⟨v, hv, rfl, hget⟩ | ⟨-, hget⟩
  · obtain rfl : v = m := Option.some.inj (hget.symm.trans hm)
    exact ⟨rfl, hnew v hv⟩
  · have hold := hget.symm.trans hm
    split at hold
    · cases hold
    · exact h k m hold

theorem Known.mem_spentTxOuts (h : Known tokenOf state) {block : Block} {k : KeyImage}
    (hk : (state.matchedTxOuts.get? k).isSome = true) :
    k ∈ (Wallet.scanNext accountKey state block).2.spentTxOuts.map MatchedTxOut.keyImage ↔
      k ∈ block.keyImages := by
  obtain ⟨m, hm⟩ := Option.isSome_iff_exists.mp hk
  show k ∈ (AssocMap.removeAll block.keyImages state.matchedTxOuts).1.map _ ↔ _
  simp only [List.mem_map, AssocMap.mem_removeAll]
  constructor
  · rintro ⟨m', ⟨k', hk', hget⟩, rfl⟩
    rw [(h k' m' hget).1]
    exact hk'
  · intro hk
    exact ⟨m, ⟨k, hk, hm⟩, (h k m hm).1⟩

theorem mem_map_filter_isPaired {ms : List MatchedTxOut}
    (hms : ∀ m ∈ ms, m.amount.tokenId = tokenOf m.keyImage) {k : KeyImage} :
    k ∈ (ms.filter (isPaired pairs)).map MatchedTxOut.keyImage ↔
      (∃ m ∈ ms, m.keyImage = k) ∧ (pairs.get? (tokenOf k)).isSome = true := by
  simp only [List.mem_map, List.mem_filter, isPaired]
  constructor
  · rintro ⟨m, ⟨hm, hp⟩, rfl⟩
    exact ⟨⟨m, hm, rfl⟩, hms m hm ▸ hp⟩
  · rintro ⟨⟨m, hm, rfl⟩, hp⟩
    exact ⟨m, ⟨hm, (hms m hm).symm ▸ hp⟩, rfl⟩

/-- **One block**: what the wallet holds follows its event. -/
theorem Known.held_scanNext (h : Known tokenOf state) {block : Block}
    (hnew : ∀ m ∈ received accountKey state.nextBlockIndex block,
      m.amount.tokenId = tokenOf m.keyImage) :
    held pairs (Wallet.scanNext accountKey state block).1 =
      (eventUpdates pairs (Wallet.scanNext accountKey state block).2).foldl Replay.apply
        (held pairs state) := by
  have hreceived : (Wallet.scanNext accountKey state block).2.receivedTxOuts =
      received accountKey state.nextBlockIndex block := rfl
  ext k
  rw [eventUpdates, updates, Replay.mem_foldl_batch, (h.scanNext hnew).mem_held, h.mem_held,
    hreceived, mem_map_filter_isPaired hnew]
  rcases get?_scanNext accountKey state block k with ⟨v, hv, hk, hget⟩ | ⟨hnone, hget⟩
  · -- the block brings the key image
    have hsome : ((Wallet.scanNext accountKey state block).1.matchedTxOuts.get? k).isSome = true :=
      Option.isSome_iff_exists.mpr ⟨v, hget⟩
    constructor
    · rintro ⟨-, hp⟩
      exact .inl ⟨⟨v, hv, hk⟩, hp⟩
    · rintro (⟨-, hp⟩ | ⟨⟨-, hp⟩, -⟩)
      · exact ⟨hsome, hp⟩
      · exact ⟨hsome, hp⟩
  · rw [hget]
    constructor
    · rintro ⟨hsome, hp⟩
      split at hsome
      · cases hsome
      · next hk => exact .inr ⟨⟨hsome, hp⟩, fun hm => hk ((h.mem_spentTxOuts hsome).mp hm)⟩
    · rintro (⟨⟨m, hm, hk⟩, -⟩ | ⟨⟨hsome, hp⟩, hk⟩)
      · exact absurd hk (hnone m hm)
      · rw [if_neg fun hm => hk ((h.mem_spentTxOuts hsome).mpr hm)]
        exact ⟨hsome, hp⟩

/-- **Any number of blocks.** -/
theorem Known.held_scanSequentially (pairs : AssocMap TokenId (TokenId × Decimal)) :
    ∀ (n : Nat) {state : State}, Known tokenOf state →
    (∀ m, Received accountKey chain state.nextBlockIndex (state.nextBlockIndex + n) m →
      m.amount.tokenId = tokenOf m.keyImage) →
    held pairs (scanSequentially accountKey state (blocks chain state.nextBlockIndex n)).1 =
      ((scanSequentially accountKey state (blocks chain state.nextBlockIndex n)).2.flatMap
        (eventUpdates pairs)).foldl Replay.apply (held pairs state)
  | 0, _, _, _ => rfl
  | n + 1, state, h, hnew => by
      have hfirst : ∀ m ∈ received accountKey state.nextBlockIndex (chain state.nextBlockIndex),
          m.amount.tokenId = tokenOf m.keyImage :=
        fun m hm => hnew m ⟨_, Nat.le_refl _, Nat.lt_add_of_pos_right (Nat.succ_pos n), hm⟩
      have hlater : ∀ m, Received accountKey chain (state.nextBlockIndex + 1)
          (state.nextBlockIndex + 1 + n) m → m.amount.tokenId = tokenOf m.keyImage := by
        rintro m ⟨i, hle, hlt, hm⟩
        exact hnew m ⟨i, Nat.le_of_succ_le hle, by omega, hm⟩
      have ih := Known.held_scanSequentially pairs n (h.scanNext hfirst) hlater
      rw [h.held_scanNext hfirst, ← List.foldl_append] at ih
      simp only [blocks, List.range'_succ, List.map_cons, scanSequentially, List.flatMap_cons]
      exact ih

/-- Where nothing is spent, several events are one. -/
theorem updates_of_unspent {es : List WalletEvent} (h : ∀ e ∈ es, e.spentTxOuts = []) :
    es.flatMap (eventUpdates pairs) =
      updates pairs (es.flatMap WalletEvent.receivedTxOuts) [] := by
  have heach : ∀ e ∈ es, eventUpdates pairs e =
      ((e.receivedTxOuts.filter (isPaired pairs)).map MatchedTxOut.keyImage).map .added := by
    intro e he
    rw [eventUpdates, h e he]
    rfl
  rw [List.flatMap_congr heach, updates, Replay.batch, List.filter_flatMap, List.map_flatMap,
    List.map_flatMap]
  rfl

theorem foldl_existingEvents (state : State) :
    ((existingEvents state.sortedTxOuts).flatMap (eventUpdates pairs)).foldl Replay.apply ∅ =
      held pairs state := by
  obtain ⟨hall, hspent⟩ := receivedTxOuts_existingEvents state.sortedTxOuts
  have hperm : state.sortedTxOuts.Perm state.matchedTxOuts.values := List.perm_insertionSort _ _
  ext k
  rw [updates_of_unspent hspent, hall, updates, Replay.mem_foldl_batch, held, List.mem_toFinset,
    ((hperm.filter _).map _).mem_iff]
  simp

end Wallet

namespace LiquidityBotTask

/-! ### The bot -/

/-- The server answers `CREATED` for every SCI, with the quote it made of it. -/
def AllCreated (codec : SciCodec) (w : Exchange) : Prop :=
  ∀ scis : List SignedContingentInput, ∃ resp, w.answer ⟨scis.map codec.toApi⟩ = .ok resp ∧
    Fits resp scis.length ∧ (∀ code ∈ resp.statusCodes, code = .created) ∧
    Truthful codec scis resp

/-- An SCI can be made from the TxOut, whatever the pair. -/
def Offers (offer : Offer) (m : MatchedTxOut) : Prop :=
  ∀ counterTokenId swapRate, ∃ sci, offer m counterTokenId swapRate = .ok sci

/-- Nothing goes wrong in a turn of the loop. -/
def Succeeds (codec : SciCodec) : Action → Prop
  | .blockProcessed received _ offer w => (∀ m ∈ received, Offers offer m) ∧ AllCreated codec w
  | .tick resubmission submission => AllCreated codec resubmission ∧ AllCreated codec submission
  | .get channelOpen => channelOpen = true

def walletEvent? : Action → Option (List MatchedTxOut × List MatchedTxOut)
  | .blockProcessed received spent _ _ => some (received, spent)
  | _ => none

/-- Between two turns of a loop in which nothing goes wrong, nothing is pending. -/
structure Tracks (pairs : AssocMap TokenId (TokenId × Decimal)) (keys : Finset KeyImage)
    (task : LiquidityBotTask) : Prop where
  pairs_eq : task.pairs = pairs
  pending_eq : task.pendingTxOuts = []
  distinct : task.Distinct
  mem_iff : ∀ k, k ∈ task.keyImages ↔ k ∈ keys

theorem tracks_initial (pairs : AssocMap TokenId (TokenId × Decimal)) :
    Tracks pairs ∅ (initial pairs) :=
  ⟨rfl, rfl, List.nodup_nil, fun k => by simp [initial, keyImages, pendingKeyImages,
    listedKeyImages]⟩

variable {codec : SciCodec} {pairs : AssocMap TokenId (TokenId × Decimal)}
  {keys : Finset KeyImage} {task : LiquidityBotTask}

theorem settled_of_created {α : Type} {key : α → KeyImage} {sciOf : α → SignedContingentInput}
    {settle : Entry α → Outcome Error (Option ListedTxOut)} (hs : Settles codec key settle)
    (hsettle : ∀ {e : Entry α}, e.statusCode = .created → e.About codec (sciOf e.sent) →
      ∃ l, settle e = .ok (some l))
    {w : Exchange} {sent : List α} {resp : SubmitQuotesResponse} (hf : Fits resp sent.length)
    (hcode : ∀ code ∈ resp.statusCodes, code = .created)
    (ht : Truthful codec (sent.map sciOf) resp) :
    (Outcome.pushEach settle (entries w sent resp)).2 = .ok () ∧
      (Outcome.pushEach settle (entries w sent resp)).1.map ListedTxOut.keyImage =
        sent.map key := by
  have hall : ∀ e ∈ entries w sent resp, ∃ l, settle e = .ok (some l) := by
    intro e he
    obtain ⟨i, -, hi, -⟩ := mem_izip he
    exact hsettle (hcode _ (List.mem_of_getElem? hi)) (about_of_truthful ht he).2
  have hlen : (entries w sent resp).length = sent.length := by
    simpa using congrArg List.length (map_key_entries key w hf)
  refine ⟨Outcome.pushEach_ok fun e he => ?_, ?_⟩
  · obtain ⟨l, hl⟩ := hall e he
    exact ⟨some l, hl⟩
  · refine (keyImages_settled hs hf).eq_of_length ?_
    rw [List.length_map, List.length_map, Outcome.length_pushEach hall, hlen]

theorem settlePending_of_created (hc : codec.Lossless) {e : Entry PendingTxOut}
    (hcode : e.statusCode = .created) (he : e.About codec e.sent.sci) :
    ∃ l, settlePending codec e = .ok (some l) := by
  obtain ⟨q, hq, hsci⟩ := he.created hcode
  refine ⟨⟨e.sent.matchedTxOut, q, e.now⟩, ?_⟩
  simp [settlePending, hcode, hq, tryFromQuote_toApi hc, hsci]

theorem settleListed_of_created (hc : codec.Lossless) {e : Entry ListedTxOut}
    (hcode : e.statusCode = .created) (he : e.About codec e.sent.quote.sci) :
    ∃ l, settleListed codec e = .ok (some l) := by
  obtain ⟨q, hq, hsci⟩ := he.created hcode
  refine ⟨{ e.sent with quote := q, lastSubmittedAt := e.now }, ?_⟩
  simp [settleListed, hcode, hq, tryFromQuote_toApi hc, hsci]

theorem submitPendingTxOuts_of_created (hc : codec.Lossless) (task : LiquidityBotTask)
    {w : Exchange} (hw : AllCreated codec w) :
    ∃ listed, task.submitPendingTxOuts codec w =
        ({ task with pendingTxOuts := [], listedTxOuts := task.listedTxOuts ++ listed }, .ok ()) ∧
      listed.map ListedTxOut.keyImage = task.pendingKeyImages := by
  obtain ⟨resp, ha, hf, hcode, ht⟩ := hw (task.pendingTxOuts.map PendingTxOut.sci)
  rw [List.map_map] at ha
  rw [List.length_map] at hf
  obtain ⟨hok, hkeys⟩ := settled_of_created (w := w) (settles_pending codec)
    (settlePending_of_created hc) hf hcode ht
  rw [submitPendingTxOuts_of_fits ha hf, hok]
  exact ⟨_, rfl, hkeys⟩

theorem resubmitListedTxOuts_of_created (hc : codec.Lossless) (task : LiquidityBotTask)
    (olderThan : Nat) {w : Exchange} (hw : AllCreated codec w) :
    ∃ listed, task.resubmitListedTxOuts codec olderThan w =
        ({ task with listedTxOuts := listed }, .ok ()) ∧
      (listed.map ListedTxOut.keyImage).Perm task.listedKeyImages := by
  have hperm := (toKeep_append_toResubmit task olderThan w).map ListedTxOut.keyImage
  rw [List.map_append] at hperm
  by_cases hne : task.toResubmit olderThan w = []
  · rw [resubmitListedTxOuts_of_nil hne]
    refine ⟨_, rfl, ?_⟩
    rwa [hne, List.map_nil, List.append_nil] at hperm
  · obtain ⟨resp, ha, hf, hcode, ht⟩ := hw ((task.toResubmit olderThan w).map fun l => l.quote.sci)
    rw [List.map_map] at ha
    rw [List.length_map] at hf
    obtain ⟨hok, hkeys⟩ := settled_of_created (w := w) (settles_listed codec)
      (settleListed_of_created hc) hf hcode ht
    rw [resubmitListedTxOuts_of_fits hne ha hf, hok]
    refine ⟨_, rfl, ?_⟩
    rw [List.map_append, hkeys]
    exact hperm

theorem addReceived_ok {offer : Offer} {received : List MatchedTxOut} :
    ∀ (task : LiquidityBotTask) (added : Bool),
      (∀ m ∈ received, Offers offer m) →
      ∃ task' b, addReceived offer task added received = (task', .ok b) ∧
        (b = false → task' = task) ∧ (added = true → b = true) := by
  induction received with
  | nil =>
      intro task added _
      exact ⟨task, added, rfl, fun _ => rfl, id⟩
  | cons m received ih =>
      intro task added ho
      have hrest : ∀ m ∈ received, Offers offer m := fun m hm => ho m (List.mem_cons_of_mem _ hm)
      cases hnew : task.isNew m with
      | false =>
          simp only [addReceived, hnew, Bool.false_eq_true, if_false]
          exact ih task added hrest
      | true =>
          obtain ⟨⟨counterTokenId, swapRate⟩, hpair⟩ :=
            Option.isSome_iff_exists.mp (isNew_iff.mp hnew).1
          obtain ⟨sci, hsci⟩ := ho m List.mem_cons_self counterTokenId swapRate
          have hp : task.createPendingTxOut offer m = .ok ⟨m, sci⟩ := by
            simp [createPendingTxOut, hpair, hsci]
          simp only [addReceived, hnew, hp, if_true]
          obtain ⟨task', b, heq, -, hb⟩ :=
            ih { task with pendingTxOuts := task.pendingTxOuts ++ [⟨m, sci⟩] } true hrest
          refine ⟨task', b, heq, ?_, fun _ => hb rfl⟩
          intro hfalse
          rw [hb rfl] at hfalse
          cases hfalse

theorem quotable_iff {offer : Offer} {m : MatchedTxOut} (ho : Offers offer m) :
    task.Quotable offer m ↔ isPaired task.pairs m = true := by
  constructor
  · exact Quotable.isSome
  · intro hp
    obtain ⟨⟨counterTokenId, swapRate⟩, hpair⟩ := Option.isSome_iff_exists.mp hp
    obtain ⟨sci, hsci⟩ := ho counterTokenId swapRate
    exact ⟨⟨m, sci⟩, by simp [createPendingTxOut, hpair, hsci]⟩

theorem Tracks.mem_unlistSpentTxOuts (h : Tracks pairs keys task) {spent : List MatchedTxOut}
    {k : KeyImage} : k ∈ (task.unlistSpentTxOuts spent).1.keyImages ↔
      k ∈ keys ∧ k ∉ spent.map MatchedTxOut.keyImage := by
  rw [← h.mem_iff, unlistSpentTxOuts_eq h.distinct.listed spent]
  simp only [keyImages, pendingKeyImages, listedKeyImages, h.pending_eq, List.map_nil,
    List.nil_append, List.mem_map, List.mem_filter, decide_eq_true_eq]
  constructor
  · rintro ⟨l, ⟨hl, hk⟩, rfl⟩
    exact ⟨⟨l, hl, rfl⟩, hk⟩
  · rintro ⟨⟨l, hl, rfl⟩, hk⟩
    exact ⟨l, ⟨hl, hk⟩, rfl⟩

/-- **A wallet event**: what the bot tracks follows it. -/
theorem Tracks.blockProcessed (hc : codec.Lossless) (h : Tracks pairs keys task)
    {received spent : List MatchedTxOut} {offer : Offer} {w : Exchange}
    (ho : ∀ m ∈ received, Offers offer m) (hw : AllCreated codec w) :
    ∃ task', task.blockProcessed codec received spent offer w = some task' ∧
      Tracks pairs ((updates pairs received spent).foldl Replay.apply keys) task' := by
  -- the task without what was spent
  have hunlist := unlistSpentTxOuts_eq h.distinct.listed spent
  have hpairs : (task.unlistSpentTxOuts spent).1.pairs = pairs := by rw [hunlist, h.pairs_eq]
  have hpending : (task.unlistSpentTxOuts spent).1.pendingTxOuts = [] := by
    rw [hunlist, h.pending_eq]
  -- and with what was received
  obtain ⟨t, b, hadd, hfalse, -⟩ := addReceived_ok (task.unlistSpentTxOuts spent).1 false ho
  obtain ⟨htpairs, htkeys⟩ := keyImages_of_addReceived_ok hadd
  have hqueued : task.queued received spent offer = (t, .ok b) := hadd
  have htdist : t.Distinct := by
    obtain ⟨-, -, -, hd⟩ := queued_spec h.distinct received spent offer
    rwa [hqueued] at hd
  have htmem : ∀ k, k ∈ t.keyImages ↔
      k ∈ (updates pairs received spent).foldl Replay.apply keys := by
    intro k
    rw [htkeys, h.mem_unlistSpentTxOuts, updates, Replay.mem_foldl_batch]
    refine or_comm.trans (or_congr ?_ Iff.rfl)
    rw [List.mem_map]
    constructor
    · rintro ⟨m, hm, hq, hk⟩
      rw [quotable_iff (ho m hm), hpairs] at hq
      exact ⟨m, List.mem_filter.mpr ⟨hm, hq⟩, hk⟩
    · rintro ⟨m, hm, hk⟩
      obtain ⟨hm, hp⟩ := List.mem_filter.mp hm
      refine ⟨m, hm, ?_, hk⟩
      rw [quotable_iff (ho m hm), hpairs]
      exact hp
  unfold LiquidityBotTask.blockProcessed updatePendingTxOutsFromReceivedTxOuts
  cases b with
  | false =>
      simp only [hadd]
      refine ⟨t, rfl, htpairs.trans hpairs, ?_, htdist, htmem⟩
      rw [hfalse rfl, hpending]
  | true =>
      obtain ⟨listed, hsubmit, hkeys⟩ := submitPendingTxOuts_of_created hc t hw
      have hperm : ({ t with
          pendingTxOuts := []
          listedTxOuts := t.listedTxOuts ++ listed } : LiquidityBotTask).keyImages.Perm
            t.keyImages := by
        simp only [keyImages, pendingKeyImages, listedKeyImages, List.map_nil, List.nil_append,
          List.map_append]
        rw [hkeys]
        exact List.perm_append_comm
      simp only [hadd, hsubmit, survive]
      exact ⟨_, rfl, htpairs.trans hpairs, rfl, hperm.nodup_iff.mpr htdist,
        fun k => hperm.mem_iff.trans (htmem k)⟩

theorem Tracks.tick (hc : codec.Lossless) (h : Tracks pairs keys task)
    {resubmission submission : Exchange} (hr : AllCreated codec resubmission)
    (hs : AllCreated codec submission) :
    ∃ task', task.step codec (.tick resubmission submission) = some task' ∧
      Tracks pairs keys task' := by
  obtain ⟨relisted, hresubmit, hrekeys⟩ :=
    resubmitListedTxOuts_of_created hc task quoteRefreshInterval hr
  obtain ⟨listed, hsubmit, hkeys⟩ := submitPendingTxOuts_of_created hc
    { task with listedTxOuts := relisted } hs
  have hnone : listed.map ListedTxOut.keyImage = [] := by
    rw [hkeys, pendingKeyImages, h.pending_eq, List.map_nil]
  have hperm : ({ task with
      pendingTxOuts := []
      listedTxOuts := relisted ++ listed } : LiquidityBotTask).keyImages.Perm
        task.keyImages := by
    simp only [keyImages, pendingKeyImages, listedKeyImages, h.pending_eq, List.map_nil,
      List.nil_append, List.map_append, hnone, List.append_nil]
    exact hrekeys
  simp only [LiquidityBotTask.step, hresubmit, survive, hsubmit]
  exact ⟨_, rfl, h.pairs_eq, rfl, hperm.nodup_iff.mpr h.distinct,
    fun k => hperm.mem_iff.trans (h.mem_iff k)⟩

def actionUpdates (pairs : AssocMap TokenId (TokenId × Decimal)) (a : Action) :
    List (Replay.Update KeyImage) :=
  match walletEvent? a with
  | some (received, spent) => updates pairs received spent
  | none => []

/-- **One turn of the loop.** -/
theorem Tracks.step (hc : codec.Lossless) (h : Tracks pairs keys task) {a : Action}
    (ha : Succeeds codec a) :
    ∃ task', task.step codec a = some task' ∧
      Tracks pairs ((actionUpdates pairs a).foldl Replay.apply keys) task' := by
  cases a with
  | blockProcessed received spent offer w => exact h.blockProcessed hc ha.1 ha.2
  | tick resubmission submission => exact h.tick hc ha.1 ha.2
  | get channelOpen =>
      cases channelOpen with
      | true => exact ⟨task, rfl, h⟩
      | false => cases ha

/-- **Any number of turns.** -/
theorem Tracks.exec (hc : codec.Lossless) : ∀ {as : List Action} {keys : Finset KeyImage}
    {task : LiquidityBotTask}, Tracks pairs keys task → (∀ a ∈ as, Succeeds codec a) →
    ∃ task', Lts.exec (LiquidityBotTask.step codec) task as = some task' ∧
      Tracks pairs ((as.flatMap (actionUpdates pairs)).foldl Replay.apply keys) task'
  | [], _, task, h, _ => ⟨task, rfl, h⟩
  | a :: as, keys, task, h, ha => by
      obtain ⟨t, hstep, ht⟩ := h.step hc (ha a List.mem_cons_self)
      obtain ⟨t', hexec, ht'⟩ := ht.exec hc fun a' ha' => ha a' (List.mem_cons_of_mem _ ha')
      refine ⟨t', ?_, ?_⟩
      · simp only [Lts.exec, hstep, hexec]
      · rw [List.flatMap_cons, List.foldl_append]
        exact ht'

theorem flatMap_actionUpdates (pairs : AssocMap TokenId (TokenId × Decimal)) :
    ∀ {as : List Action} {es : List Wallet.WalletEvent},
      as.filterMap walletEvent? = es.map (fun e => (e.receivedTxOuts, e.spentTxOuts)) →
      as.flatMap (actionUpdates pairs) = es.flatMap (eventUpdates pairs) := by
  intro as es h
  have hevents : as.flatMap (actionUpdates pairs) =
      (as.filterMap walletEvent?).flatMap (fun e => updates pairs e.1 e.2) := by
    clear h
    induction as with
    | nil => rfl
    | cons a as ih =>
        rw [List.flatMap_cons, ih, List.filterMap_cons, actionUpdates]
        cases walletEvent? a with
        | none => rfl
        | some e => rfl
  rw [hevents, h, List.flatMap_map]
  rfl

end LiquidityBotTask

namespace AccountLedgerScanner

open Wallet

/-! ### Between two starts of the wallet -/

def Running (w : AccountLedgerScanner) (a : Action) : Prop :=
  w.Readable a ∧ ∀ matchedTxOuts, a ≠ .reopen matchedTxOuts

theorem origin_of_running {accountKey : AccountKey} {chain : Nat → Block}
    (hs : Scannable accountKey chain) {first : Nat} {w w' : AccountLedgerScanner}
    {as : List Action} (h : Lts.Run (step accountKey chain first) Running w as w') :
    w'.origin = w.origin ∧ w.state.nextBlockIndex ≤ w'.state.nextBlockIndex := by
  refine h.inv (fun t => t.origin = w.origin ∧
    w.state.nextBlockIndex ≤ t.state.nextBlockIndex) ?_ ⟨rfl, Nat.le_refl _⟩
  rintro t a t' ⟨horigin, hle⟩ ⟨hread, hrunning⟩ hstep
  cases a with
  | grow n =>
      obtain rfl := Option.some.inj hstep
      exact ⟨horigin, hle⟩
  | iterate faults schedule =>
      simp only [step] at hstep
      split at hstep
      · next t'' ht =>
          obtain rfl := Option.some.inj hstep
          rcases iterate_cases hs hread ht with ⟨e, -, hr⟩ | ⟨e, -, hr⟩ | ⟨n, -, hr⟩
          · cases hr
          · cases hr
          · obtain rfl := Outcome.ok.inj hr
            refine ⟨horigin, ?_⟩
            rw [nextBlockIndex_advanced]
            exact Nat.le_add_right_of_le hle
      · cases hstep
  | reopen matchedTxOuts => exact absurd rfl (hrunning matchedTxOuts)

end AccountLedgerScanner

/-! ## The race -/

open Wallet

/-- A TxOut of the saved state, or of the blocks up to `next`. -/
def Wallet.Seen (accountKey : AccountKey) (chain : Nat → Block) (saved : State) (next : Nat)
    (m : MatchedTxOut) : Prop :=
  m ∈ saved.matchedTxOuts.values ∨ Received accountKey chain saved.nextBlockIndex next m

/-- A key image belongs to TxOuts of one token. -/
def Wallet.SameToken (accountKey : AccountKey) (chain : Nat → Block) (saved : State)
    (next : Nat) : Prop :=
  ∀ m m', Seen accountKey chain saved next m → Seen accountKey chain saved next m' →
    m.keyImage = m'.keyImage → m.amount.tokenId = m'.amount.tokenId

section Race

variable {accountKey : AccountKey} {chain : Nat → Block} {saved : State} {codec : SciCodec}
  {pairs : AssocMap TokenId (TokenId × Decimal)}

theorem Wallet.SameToken.exists_tokenOf {next : Nat} (h : SameToken accountKey chain saved next) :
    ∃ tokenOf : KeyImage → TokenId,
      ∀ m, Seen accountKey chain saved next m → m.amount.tokenId = tokenOf m.keyImage := by
  have hall : ∀ k, ∃ tokenId : TokenId, ∀ m, Seen accountKey chain saved next m →
      m.keyImage = k → m.amount.tokenId = tokenId := by
    intro k
    by_cases hk : ∃ m, Seen accountKey chain saved next m ∧ m.keyImage = k
    · obtain ⟨m, hm, rfl⟩ := hk
      exact ⟨m.amount.tokenId, fun m' hm' hk' => h m' m hm' hm hk'⟩
    · exact ⟨0, fun m hm hmk => absurd ⟨m, hm, hmk⟩ hk⟩
  choose tokenOf htokenOf using hall
  exact ⟨tokenOf, fun m hm => htokenOf _ m hm rfl⟩

/-- What is announced from `p` to `n`, read from the snapshot at `s`, leads to what the wallet
holds at `n`.  Here `n = p + i + j` and `s = p + i`. -/
theorem Wallet.foldl_from_snapshot {tokenOf : KeyImage → TokenId} (hknown : Known tokenOf saved)
    (i j : Nat)
    (htoken : ∀ m, Received accountKey chain saved.nextBlockIndex
      (saved.nextBlockIndex + (i + j)) m → m.amount.tokenId = tokenOf m.keyImage) :
    ((scanSequentially accountKey saved (blocks chain saved.nextBlockIndex (i + j))).2.flatMap
        (eventUpdates pairs)).foldl Replay.apply
      (held pairs
        (scanSequentially accountKey saved (blocks chain saved.nextBlockIndex i)).1) =
    held pairs
      (scanSequentially accountKey saved (blocks chain saved.nextBlockIndex (i + j))).1 := by
  have hearly := hknown.held_scanSequentially pairs i fun m ⟨b, hle, hlt, hm⟩ =>
    htoken m ⟨b, hle, by omega, hm⟩
  rw [hknown.held_scanSequentially pairs (i + j) htoken, hearly, blocks_add,
    scanSequentially_append, List.flatMap_append, Replay.foldl_apply_snapshot]

theorem tracks_after_startup (hc : codec.Lossless)
    (hkeyed : ∀ k m, saved.matchedTxOuts.get? k = some m → m.keyImage = k)
    (i j : Nat) (htoken : SameToken accountKey chain saved (saved.nextBlockIndex + (i + j)))
    {snapshot : AssocMap KeyImage MatchedTxOut}
    (hsnapshot : (scanSequentially accountKey saved
      (blocks chain saved.nextBlockIndex i)).1.matchedTxOuts.Reorder snapshot)
    {as : List LiquidityBotTask.Action} (hgood : ∀ a ∈ as, LiquidityBotTask.Succeeds codec a)
    (hfed : as.filterMap LiquidityBotTask.walletEvent? =
      (existingEvents (State.sortedTxOuts ⟨saved.nextBlockIndex + i, snapshot⟩) ++
        (scanSequentially accountKey saved (blocks chain saved.nextBlockIndex (i + j))).2).map
          (fun e => (e.receivedTxOuts, e.spentTxOuts))) :
    ∃ task, Lts.exec (LiquidityBotTask.step codec) (.initial pairs) as = some task ∧
      LiquidityBotTask.Tracks pairs (held pairs (scanSequentially accountKey saved
        (blocks chain saved.nextBlockIndex (i + j))).1) task := by
  obtain ⟨tokenOf, htok⟩ := htoken.exists_tokenOf
  have hknown : Known tokenOf saved := by
    intro k m hm
    refine ⟨hkeyed k m hm, ?_⟩
    rw [htok m (.inl (AssocMap.mem_values_iff.mpr ⟨k, hm⟩)), hkeyed k m hm]
  obtain ⟨task, hexec, htask⟩ := (LiquidityBotTask.tracks_initial pairs).exec hc hgood
  refine ⟨task, hexec, ?_⟩
  -- the order of the map is lost in the snapshot, and does not matter
  have hheld : held pairs ⟨saved.nextBlockIndex + i, snapshot⟩ = held pairs
      (scanSequentially accountKey saved (blocks chain saved.nextBlockIndex i)).1 := by
    ext k
    rw [mem_held, mem_held]
    simp only [hsnapshot.values.mem_iff]
  rw [LiquidityBotTask.flatMap_actionUpdates pairs hfed, List.flatMap_append, List.foldl_append,
    foldl_existingEvents, hheld,
    foldl_from_snapshot hknown i j fun m hm => htok m (.inr hm)] at htask
  exact htask

theorem Wallet.Exact.sameToken {first : Nat} (h : Exact accountKey chain first saved)
    (hd : Distinct accountKey chain) (next : Nat) : SameToken accountKey chain saved next := by
  have hseen : ∀ m, Seen accountKey chain saved next m →
      ∃ b, m ∈ received accountKey b (chain b) := by
    rintro m (hm | ⟨b, -, -, hm⟩)
    · obtain ⟨⟨b, -, -, hm⟩, -⟩ := (h.mem_values m).mp hm
      exact ⟨b, hm⟩
    · exact ⟨b, hm⟩
  intro m m' hm hm' hk
  obtain ⟨b, hb⟩ := hseen m hm
  obtain ⟨b', hb'⟩ := hseen m' hm'
  rw [hd hb hb' hk]

/-- The same over runs of the scanner itself.  The wallet has run before and has just been
started, perhaps from its file, when `w₀` is its state; the snapshot is taken at `w₁` and the
last event queued at `w₂`. -/
theorem startup_of_scanner (hc : codec.Lossless) (hs : Scannable accountKey chain)
    (hd : Distinct accountKey chain) (hl : SpentLater accountKey chain) {first numBlocks : Nat}
    {w₀ w₁ w₂ : AccountLedgerScanner} {as₀ as₁ as₂ : List AccountLedgerScanner.Action}
    (h₀ : Lts.Run (AccountLedgerScanner.step accountKey chain first) AccountLedgerScanner.Readable
      (.opened numBlocks none (.fresh first)) as₀ w₀) (hstarted : w₀.state = w₀.origin)
    (h₁ : Lts.Run (AccountLedgerScanner.step accountKey chain first) AccountLedgerScanner.Running
      w₀ as₁ w₁)
    (h₂ : Lts.Run (AccountLedgerScanner.step accountKey chain first) AccountLedgerScanner.Running
      w₁ as₂ w₂)
    {snapshot : AssocMap KeyImage MatchedTxOut}
    (hsnapshot : w₁.state.matchedTxOuts.Reorder snapshot)
    {as : List LiquidityBotTask.Action} (hgood : ∀ a ∈ as, LiquidityBotTask.Succeeds codec a)
    (hfed : as.filterMap LiquidityBotTask.walletEvent? =
      (existingEvents (State.sortedTxOuts ⟨w₁.state.nextBlockIndex, snapshot⟩) ++ w₂.events).map
        (fun e => (e.receivedTxOuts, e.spentTxOuts))) :
    ∃ task, Lts.exec (LiquidityBotTask.step codec) (.initial pairs) as = some task ∧
      LiquidityBotTask.Tracks pairs (held pairs w₂.state) task := by
  obtain ⟨horigin₁, hle₁⟩ := AccountLedgerScanner.origin_of_running hs h₁
  obtain ⟨horigin₂, hle₂⟩ := AccountLedgerScanner.origin_of_running hs h₂
  have hsynced₀ := AccountLedgerScanner.synced_of_run hs h₀
    (AccountLedgerScanner.synced_opened _ _ _)
  have hsynced₁ := AccountLedgerScanner.synced_of_run hs (h₁.mono And.left) hsynced₀
  have hsynced₂ := AccountLedgerScanner.synced_of_run hs (h₂.mono And.left) hsynced₁
  have hexact₀ : Exact accountKey chain first w₀.state :=
    (AccountLedgerScanner.exact_of_run hs hd hl h₀
      ⟨exact_fresh, fun saved h => by cases h⟩).state
  -- everything on the way was scanned from where the wallet was started
  have heq₁ := hsynced₁.eq
  have heq₂ := hsynced₂.eq
  rw [horigin₁, ← hstarted] at heq₁
  rw [horigin₂, horigin₁, ← hstarted] at heq₂
  obtain ⟨i, hi⟩ := Nat.exists_eq_add_of_le hle₁
  obtain ⟨j, hj⟩ := Nat.exists_eq_add_of_le hle₂
  rw [hi, Nat.add_sub_cancel_left] at heq₁
  rw [hj, hi, Nat.add_assoc, Nat.add_sub_cancel_left] at heq₂
  have hkeyed : ∀ k m, w₀.state.matchedTxOuts.get? k = some m → m.keyImage = k :=
    fun k m hm => ((hexact₀.get?_iff k m).mp hm).1
  have htoken : SameToken accountKey chain w₀.state (w₀.state.nextBlockIndex + (i + j)) :=
    hexact₀.sameToken hd _
  have hstate₁ : (scanSequentially accountKey w₀.state
      (blocks chain w₀.state.nextBlockIndex i)).1 = w₁.state := congrArg Prod.fst heq₁
  have hstate₂ : (scanSequentially accountKey w₀.state
      (blocks chain w₀.state.nextBlockIndex (i + j))).1 = w₂.state := congrArg Prod.fst heq₂
  have hevents₂ : (scanSequentially accountKey w₀.state
      (blocks chain w₀.state.nextBlockIndex (i + j))).2 = w₂.events := congrArg Prod.snd heq₂
  rw [← hstate₁] at hsnapshot
  rw [hi, ← hevents₂] at hfed
  rw [← hstate₂]
  exact tracks_after_startup hc hkeyed i j htoken hsnapshot hgood hfed

end Race

/-! ### A TxOut that the bot hears of three times -/

end Deqs.Bot
