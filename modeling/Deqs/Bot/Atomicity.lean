/-
# What a failed submission loses

Both submissions can return an error, and the event loop logs it and goes on with the
lists as they are then.  The comment in `resubmit_listed_tx_outs` says what is meant: "if it
fails we need to put them back and assume they are still listed".  Whether that happens
depends on where the call failed.

| the call fails at | `submit_pending_tx_outs` | `resubmit_listed_tx_outs` |
| :-- | :-- | :-- |
| the gRPC call | nothing taken out yet | put back |
| the lengths of the response | nothing taken out yet | **lost**, all of them |
| a returned quote | **lost**, from that one on | **lost**, from that one on |

A TxOut that is lost here is not queued again: its block has been processed.  The two
theorems say that these are the only losses, so that a submission keeps what it is given
exactly when the server's answer gets past the points marked above.

`Readable` is the condition on the returned quotes.  It asks about the entries the loop comes
to: behind an entry that fails an assertion nothing is returned any more.
-/
import Deqs.Bot.Tracking

namespace Deqs.Bot

section Loop

variable {α : Type} {codec : SciCodec} {key : α → KeyImage}
  {settle : Entry α → Outcome Error (Option ListedTxOut)}

/-- Every quote that the loop comes to and wants can be read. -/
def Readable (codec : SciCodec) (settle : Entry α → Outcome Error (Option ListedTxOut))
    (es : List (Entry α)) : Prop :=
  ∀ e, Outcome.Reached settle es e → e.Wanted → e.Converts codec

theorem readable_iff (hs : Settles codec key settle) {es : List (Entry α)} :
    Readable codec settle es ↔ ∀ x, (Outcome.pushEach settle es).2 ≠ .err x := by
  constructor
  · intro h x hx
    obtain ⟨e, he, hex⟩ := Outcome.pushEach_err_iff.mp hx
    obtain ⟨hw, hc⟩ := hs.err_iff.mp ⟨x, hex⟩
    exact hc (h e he hw)
  · intro h e he hw
    by_contra hc
    obtain ⟨x, hx⟩ := hs.err_iff.mpr ⟨hw, hc⟩
    exact h x (Outcome.pushEach_err_iff.mpr ⟨e, he, hx⟩)

theorem exists_lost (hs : Settles codec key settle) {w : Exchange} {sent : List α}
    {resp : SubmitQuotesResponse} (hf : Fits resp sent.length) (hn : (sent.map key).Nodup)
    (h : ¬ Readable codec settle (entries w sent resp)) :
    ∃ x, (Outcome.pushEach settle (entries w sent resp)).2 = .err x ∧
      ∃ k ∈ sent.map key,
        k ∉ (Outcome.pushEach settle (entries w sent resp)).1.map ListedTxOut.keyImage := by
  rw [readable_iff hs] at h
  push Not at h
  obtain ⟨x, hx⟩ := h
  have hkeys := map_key_entries key w hf
  obtain ⟨e, he, hlost⟩ :=
    Outcome.pushEach_err_lost (fun e => key e.sent) hs.keyImage (hkeys ▸ hn) hx
  exact ⟨x, hx, key e.sent, hkeys ▸ List.mem_map_of_mem he, hlost⟩

end Loop

namespace LiquidityBotTask

/-! ## Resubmission -/

/-- If `resubmit_listed_tx_outs` returns an error, what was listed is listed. -/
def KeepsListed (codec : SciCodec) (task : LiquidityBotTask) (olderThan : Nat) (w : Exchange) :
    Prop :=
  ∀ e, (task.resubmitListedTxOuts codec olderThan w).2 = .err e →
    ∀ k ∈ task.listedKeyImages, k ∈ (task.resubmitListedTxOuts codec olderThan w).1.listedKeyImages

/-- If anything is sent and the server answers, the answer has the right lengths and its
quotes can be read. -/
def ResubmissionAnswered (codec : SciCodec) (task : LiquidityBotTask) (olderThan : Nat)
    (w : Exchange) : Prop :=
  task.toResubmit olderThan w ≠ [] →
    ∀ resp, w.answer (listedRequest codec (task.toResubmit olderThan w)) = .ok resp →
      Fits resp (task.toResubmit olderThan w).length ∧
      Readable codec (settleListed codec) (entries w (task.toResubmit olderThan w) resp)

section

variable {codec : SciCodec} {task : LiquidityBotTask} {olderThan : Nat} {w : Exchange}

theorem keepsListed_of_answered (h : task.ResubmissionAnswered codec olderThan w) :
    task.KeepsListed codec olderThan w := by
  intro e he k hk
  by_cases hne : task.toResubmit olderThan w = []
  · rw [resubmitListedTxOuts_of_nil hne] at he
    cases he
  · cases ha : w.answer (listedRequest codec (task.toResubmit olderThan w)) with
    | error msg =>
        rw [resubmitListedTxOuts_of_error hne ha]
        exact ((toKeep_append_toResubmit task olderThan w).map _).mem_iff.mpr hk
    | ok resp =>
        obtain ⟨hf, hread⟩ := h hne resp ha
        rw [resubmitListedTxOuts_of_fits hne ha hf] at he
        exact absurd he ((readable_iff (settles_listed codec)).mp hread e)

theorem not_mem_toKeep (hn : task.listedKeyImages.Nodup) {k : KeyImage}
    (hk : k ∈ (task.toResubmit olderThan w).map ListedTxOut.keyImage) :
    k ∉ (task.toKeep olderThan w).map ListedTxOut.keyImage := by
  have hn' := ((toKeep_append_toResubmit task olderThan w).map _).nodup_iff.mpr hn
  rw [List.map_append] at hn'
  exact fun hk' => (List.nodup_append.mp hn').2.2 _ hk' _ hk rfl

theorem answered_of_keepsListed (hn : task.listedKeyImages.Nodup)
    (h : task.KeepsListed codec olderThan w) : task.ResubmissionAnswered codec olderThan w := by
  intro hne resp ha
  have hlisted : ∀ k ∈ (task.toResubmit olderThan w).map ListedTxOut.keyImage,
      k ∈ task.listedKeyImages :=
    (List.filter_sublist.map _).subset
  have hf : Fits resp (task.toResubmit olderThan w).length := by
    by_contra hf
    obtain ⟨e, he⟩ := resubmitListedTxOuts_of_not_fits hne ha hf
    obtain ⟨l, hl⟩ := List.exists_mem_of_ne_nil _ hne
    have hk : l.keyImage ∈ (task.toResubmit olderThan w).map ListedTxOut.keyImage :=
      List.mem_map_of_mem hl
    have hkept := h e (by rw [he]) _ (hlisted _ hk)
    rw [he] at hkept
    exact not_mem_toKeep hn hk hkept
  refine ⟨hf, ?_⟩
  by_contra hread
  obtain ⟨e, he, k, hk, hlost⟩ :=
    exists_lost (settles_listed codec) hf (hn.sublist (List.filter_sublist.map _)) hread
  have heq := resubmitListedTxOuts_of_fits hne ha hf
  have hkept := h e (by rw [heq]; exact he) k (hlisted k hk)
  rw [heq] at hkept
  simp only [listedKeyImages, List.map_append, List.mem_append] at hkept
  rcases hkept with hkept | hkept
  · exact not_mem_toKeep hn hk hkept
  · exact hlost hkept

end

/-- **What a failed resubmission keeps.**  Where the server does not answer, or answers with
the right lengths and readable quotes, no listed TxOut is lost.  Where listed key images are
distinct, as they are in every state the bot reaches, that is the only way not to lose one. -/
theorem resubmission_keeps_listed_iff (codec : SciCodec) (task : LiquidityBotTask)
    (olderThan : Nat) (w : Exchange) :
    (task.ResubmissionAnswered codec olderThan w → task.KeepsListed codec olderThan w) ∧
    (task.listedKeyImages.Nodup →
      (task.KeepsListed codec olderThan w ↔ task.ResubmissionAnswered codec olderThan w)) :=
  ⟨keepsListed_of_answered,
    fun hn => ⟨answered_of_keepsListed hn, keepsListed_of_answered⟩⟩

def oneListed : LiquidityBotTask :=
  ⟨samplePairs, [], [⟨sampleTxOut 1, sampleQuote 1 10 20 100 1, 0⟩]⟩

def answering (resp : SubmitQuotesResponse) : Exchange := ⟨1000, fun _ => .ok resp, fun _ => 1000⟩

/-- A response in which the quote of the last entry was not filled in. -/
def unfilled (quotes : List ApiQuote) : SubmitQuotesResponse :=
  ⟨List.replicate (quotes.length + 1) .created, List.replicate (quotes.length + 1) "",
    quotes ++ [.default]⟩

/-- With the server out of reach the listed TxOut is put back. -/
theorem unreachable_keeps_listed :
    (oneListed.resubmitListedTxOuts sampleCodec 0 { unreachable with now := 1000 }).2 =
      .err (.grpc "unavailable") ∧
    oneListed.KeepsListed sampleCodec 0 { unreachable with now := 1000 } ∧
    oneListed.listedKeyImages.Nodup ∧
    oneListed.ResubmissionAnswered sampleCodec 0 { unreachable with now := 1000 } := by
  have hn : oneListed.listedKeyImages.Nodup := List.nodup_singleton _
  have ha : oneListed.ResubmissionAnswered sampleCodec 0 { unreachable with now := 1000 } := by
    intro _ resp h
    cases h
  have hiff :=
    resubmission_keeps_listed_iff sampleCodec oneListed 0 { unreachable with now := 1000 }
  exact ⟨rfl, hiff.1 ha, hn, (hiff.2 hn).mp (hiff.1 ha)⟩

/-- An answer without any entry, and an answer whose quote was not filled in: the call
returns an error and the listed TxOut is gone. -/
theorem resubmission_loses_listed :
    (sampleTxOut 1).keyImage ∈ oneListed.listedKeyImages ∧
    (∃ e, (oneListed.resubmitListedTxOuts sampleCodec 0 (answering ⟨[], [], []⟩)).2 = .err e) ∧
    (oneListed.resubmitListedTxOuts sampleCodec 0 (answering ⟨[], [], []⟩)).1.keyImages = [] ∧
    (∃ e, (oneListed.resubmitListedTxOuts sampleCodec 0 (answering (unfilled []))).2 = .err e) ∧
    (oneListed.resubmitListedTxOuts sampleCodec 0 (answering (unfilled []))).1.keyImages = [] :=
  ⟨List.mem_singleton.mpr rfl, ⟨_, rfl⟩, rfl, ⟨_, rfl⟩, rfl⟩

/-! ## First submission -/

/-- If `submit_pending_tx_outs` returns an error, what was pending is tracked. -/
def KeepsPending (codec : SciCodec) (task : LiquidityBotTask) (w : Exchange) : Prop :=
  ∀ e, (task.submitPendingTxOuts codec w).2 = .err e →
    ∀ k ∈ task.pendingKeyImages, k ∈ (task.submitPendingTxOuts codec w).1.keyImages

/-- If the server answers with the right lengths, its quotes can be read. -/
def SubmissionAnswered (codec : SciCodec) (task : LiquidityBotTask) (w : Exchange) : Prop :=
  ∀ resp, w.answer (task.pendingRequest codec) = .ok resp →
    Fits resp task.pendingTxOuts.length →
      Readable codec (settlePending codec) (entries w task.pendingTxOuts resp)

section

variable {codec : SciCodec} {task : LiquidityBotTask} {w : Exchange}

theorem keepsPending_of_answered (h : task.SubmissionAnswered codec w) :
    task.KeepsPending codec w := by
  intro e he k hk
  by_cases hfits : ∃ resp, w.answer (task.pendingRequest codec) = .ok resp ∧
      Fits resp task.pendingTxOuts.length
  · obtain ⟨resp, ha, hf⟩ := hfits
    rw [submitPendingTxOuts_of_fits ha hf] at he
    exact absurd he ((readable_iff (settles_pending codec)).mp (h resp ha hf) e)
  · rw [submitPendingTxOuts_of_not_fits fun resp ha hf => hfits ⟨resp, ha, hf⟩]
    exact List.mem_append_left _ hk

theorem answered_of_keepsPending (hd : task.Distinct) (h : task.KeepsPending codec w) :
    task.SubmissionAnswered codec w := by
  intro resp ha hf
  by_contra hread
  obtain ⟨hn, -, hdisjoint⟩ := List.nodup_append.mp hd
  obtain ⟨e, he, k, hk, hlost⟩ := exists_lost (settles_pending codec) hf hn hread
  have heq := submitPendingTxOuts_of_fits ha hf
  have hkept := h e (by rw [heq]; exact he) k hk
  rw [heq] at hkept
  simp only [keyImages, pendingKeyImages, listedKeyImages, List.map_nil, List.nil_append,
    List.map_append, List.mem_append] at hkept
  rcases hkept with hkept | hkept
  · exact hdisjoint k hk k hkept rfl
  · exact hlost hkept

end

/-- **What a failed submission keeps.**  Where the server does not answer, answers with the
wrong lengths, or answers with readable quotes, no pending TxOut is lost.  Where tracked key
images are distinct, as they are in every state the bot reaches, that is the only way not
to lose one. -/
theorem submission_keeps_pending_iff (codec : SciCodec) (task : LiquidityBotTask)
    (w : Exchange) :
    (task.SubmissionAnswered codec w → task.KeepsPending codec w) ∧
    (task.Distinct → (task.KeepsPending codec w ↔ task.SubmissionAnswered codec w)) :=
  ⟨keepsPending_of_answered,
    fun hd => ⟨answered_of_keepsPending hd, keepsPending_of_answered⟩⟩

def twoPending : LiquidityBotTask :=
  ⟨samplePairs,
    [⟨sampleTxOut 1, sampleSci 1 10 20 100⟩, ⟨sampleTxOut 2, sampleSci 2 10 20 100⟩], []⟩

theorem twoPending_distinct : twoPending.Distinct := by
  decide

/-- An answer without any entry leaves both pending. -/
theorem short_answer_keeps_pending :
    (∃ e, (twoPending.submitPendingTxOuts sampleCodec (answering ⟨[], [], []⟩)).2 = .err e) ∧
    twoPending.KeepsPending sampleCodec (answering ⟨[], [], []⟩) ∧
    twoPending.SubmissionAnswered sampleCodec (answering ⟨[], [], []⟩) := by
  have ha : twoPending.SubmissionAnswered sampleCodec (answering ⟨[], [], []⟩) := by
    intro resp h hf
    cases h
    exact absurd hf.1 (by decide)
  have hiff := submission_keeps_pending_iff sampleCodec twoPending (answering ⟨[], [], []⟩)
  exact ⟨⟨_, rfl⟩, hiff.1 ha, (hiff.2 twoPending_distinct).mp (hiff.1 ha)⟩

/-- The server takes both, and the second quote it returns was not filled in: the first
TxOut is listed, and the second is tracked no more. -/
theorem submission_loses_pending :
    (∃ e, (twoPending.submitPendingTxOuts sampleCodec
      (answering (unfilled [(sampleQuote 1 10 20 100 1).toApi sampleCodec]))).2 = .err e) ∧
    (sampleTxOut 2).keyImage ∈ twoPending.pendingKeyImages ∧
    (twoPending.submitPendingTxOuts sampleCodec
      (answering (unfilled [(sampleQuote 1 10 20 100 1).toApi sampleCodec]))).1.keyImages =
        [(sampleTxOut 1).keyImage] :=
  ⟨⟨_, rfl⟩, List.mem_cons_of_mem _ List.mem_cons_self, rfl⟩

end LiquidityBotTask

end Deqs.Bot
