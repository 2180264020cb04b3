/-
# Which TxOuts the bot tracks

A TxOut is tracked while an entry of either list has its key image.  This file says of each
method what it does to the tracked key images, and draws from it what holds along every
run of the event loop.

    unlistSpentTxOuts      drops exactly the listed entries that were spent
    addReceived            adds entries for received TxOuts that were not tracked
    submitPendingTxOuts    moves entries from pending to listed, or drops them
    resubmitListedTxOuts   keeps listed entries, or drops them

The last two never add a key image and never double one: the new key images, with their
multiplicity, are among the old ones (`List.Subperm`).  So no key image is ever tracked twice
(`distinct_of_run`), and that makes the first line exact: `unlist_spent_tx_outs` removes one
entry for each spent TxOut, which is all of them only if there is one.

**Spent and still tracked.**  The spent TxOuts of a block are looked for in the listed list
and not in the pending one.  A TxOut whose submission has failed so far is pending; when its
spend is processed it stays there, and is submitted again.
-/
import Mathlib.Data.List.Perm.Subperm
import Deqs.Lib.Lists
import Deqs.Bot.Task

namespace Deqs.Bot.LiquidityBotTask

def pendingKeyImages (task : LiquidityBotTask) : List KeyImage :=
  task.pendingTxOuts.map PendingTxOut.keyImage

def listedKeyImages (task : LiquidityBotTask) : List KeyImage :=
  task.listedTxOuts.map ListedTxOut.keyImage

def keyImages (task : LiquidityBotTask) : List KeyImage :=
  task.pendingKeyImages ++ task.listedKeyImages

/-- No TxOut is tracked twice. -/
def Distinct (task : LiquidityBotTask) : Prop := task.keyImages.Nodup

instance (task : LiquidityBotTask) : Decidable task.Distinct :=
  inferInstanceAs (Decidable task.keyImages.Nodup)

theorem Distinct.listed {task : LiquidityBotTask} (h : task.Distinct) :
    task.listedKeyImages.Nodup :=
  (List.nodup_append.mp h).2.1

/-! ## Unlisting -/

/-- **`unlist_spent_tx_outs`** touches the listed list only, and with distinct key images it
leaves exactly the entries that were not spent. -/
theorem unlistSpentTxOuts_eq {task : LiquidityBotTask}
    (hn : (task.listedTxOuts.map ListedTxOut.keyImage).Nodup) (spent : List MatchedTxOut) :
    (task.unlistSpentTxOuts spent).1 = { task with
      listedTxOuts := task.listedTxOuts.filter
        (fun l => l.keyImage ∉ spent.map MatchedTxOut.keyImage) } := by
  induction spent generalizing task with
  | nil => simp [unlistSpentTxOuts]
  | cons m spent ih =>
      -- either way the rest of the loop runs on the entries without `m`'s key image
      have hfilter : (task.unlistSpentTxOuts (m :: spent)).1 =
          (LiquidityBotTask.unlistSpentTxOuts { task with
            listedTxOuts := task.listedTxOuts.filter
              (fun l => l.keyImage ≠ m.keyImage) } spent).1 := by
        simp only [unlistSpentTxOuts]
        cases h : task.listedTxOuts.findIdx? (fun l => l.keyImage = m.keyImage) with
        | none =>
            have hself : task.listedTxOuts.filter (fun l => l.keyImage ≠ m.keyImage) =
                task.listedTxOuts := by
              refine List.filter_eq_self.mpr fun l hl => ?_
              simpa using List.findIdx?_eq_none_iff.mp h l hl
            simp only [hself]
        | some i => simp only [Lists.eraseIdx_findIdx? hn h]
      rw [hfilter, ih (hn.sublist (List.filter_sublist.map _))]
      simp only [List.filter_filter, List.map_cons, List.mem_cons, not_or]
      congr 2
      funext l
      simp [Bool.and_comm]


/-! ## Receiving -/

theorem keyImage_createPendingTxOut {task : LiquidityBotTask} {offer : Offer} {m : MatchedTxOut}
    {p : PendingTxOut} (h : task.createPendingTxOut offer m = .ok p) : p.keyImage = m.keyImage := by
  unfold createPendingTxOut at h
  split at h
  · cases h
  · obtain ⟨sci, -, h⟩ := Outcome.bind_eq_ok.mp h
    cases h
    rfl

theorem not_mem_keyImages_of_isNew {task : LiquidityBotTask} {m : MatchedTxOut}
    (h : task.isNew m = true) : m.keyImage ∉ task.keyImages := by
  simp only [isNew, Bool.and_eq_true, Bool.not_eq_true', List.any_eq_false,
    decide_eq_true_eq] at h
  intro hm
  rcases List.mem_append.mp hm with hm | hm
  · obtain ⟨p, hp, hk⟩ := List.mem_map.mp hm
    exact h.1.2 p hp hk
  · obtain ⟨l, hl, hk⟩ := List.mem_map.mp hm
    exact h.2 l hl hk

theorem keyImages_push (task : LiquidityBotTask) (p : PendingTxOut) :
    ({ task with pendingTxOuts := task.pendingTxOuts ++ [p] } : LiquidityBotTask).keyImages.Perm
      (p.keyImage :: task.keyImages) := by
  simp only [keyImages, pendingKeyImages, listedKeyImages, List.map_append, List.map_cons,
    List.map_nil, List.append_assoc, List.singleton_append]
  exact List.perm_middle

theorem Distinct.push {task : LiquidityBotTask} (hd : task.Distinct) {m : MatchedTxOut}
    (hnew : task.isNew m = true) {p : PendingTxOut} (hkey : p.keyImage = m.keyImage) :
    ({ task with pendingTxOuts := task.pendingTxOuts ++ [p] } : LiquidityBotTask).Distinct := by
  refine (keyImages_push task p).nodup_iff.mpr (List.nodup_cons.mpr ⟨?_, hd⟩)
  rw [hkey]
  exact not_mem_keyImages_of_isNew hnew

/-- **`update_pending_tx_outs_from_received_tx_outs`** appends entries for received TxOuts,
and none for a TxOut that is tracked already. -/
theorem addReceived_spec (offer : Offer) (received : List MatchedTxOut) :
    ∀ (task : LiquidityBotTask) (added : Bool), ∃ new : List PendingTxOut,
      (addReceived offer task added received).1 =
        { task with pendingTxOuts := task.pendingTxOuts ++ new } ∧
      (∀ p ∈ new, p.keyImage ∈ received.map MatchedTxOut.keyImage) ∧
      (task.Distinct → (addReceived offer task added received).1.Distinct) := by
  induction received with
  | nil =>
      intro task added
      exact ⟨[], by simp [addReceived], by simp, id⟩
  | cons m received ih =>
      intro task added
      -- nothing is added where `m` is skipped, or where the loop ends at it
      have hskip : ∀ {new : List PendingTxOut},
          (∀ p ∈ new, p.keyImage ∈ received.map MatchedTxOut.keyImage) →
          ∀ p ∈ new, p.keyImage ∈ (m :: received).map MatchedTxOut.keyImage :=
        fun h p hp => List.mem_cons_of_mem _ (h p hp)
      cases hnew : task.isNew m with
      | false =>
          obtain ⟨new, heq, hmem, hdist⟩ := ih task added
          simp only [addReceived, hnew, Bool.false_eq_true, if_false]
          exact ⟨new, heq, hskip hmem, hdist⟩
      | true =>
          cases hp : task.createPendingTxOut offer m with
          | ok p =>
              have hkey := keyImage_createPendingTxOut hp
              obtain ⟨new, heq, hmem, hdist⟩ :=
                ih { task with pendingTxOuts := task.pendingTxOuts ++ [p] } true
              simp only [addReceived, hnew, hp, if_true]
              refine ⟨p :: new, by rw [heq]; simp, ?_, fun hd => hdist (hd.push hnew hkey)⟩
              intro p' hp'
              rcases List.mem_cons.mp hp' with rfl | hp'
              · exact hkey ▸ List.mem_cons_self
              · exact hskip hmem p' hp'
          | err e =>
              simp only [addReceived, hnew, hp, if_true]
              exact ⟨[], by simp, by simp, id⟩
          | panic msg =>
              simp only [addReceived, hnew, hp, if_true]
              exact ⟨[], by simp, by simp, id⟩

theorem isNew_append {task : LiquidityBotTask} {m : MatchedTxOut} (h : task.isNew m = false)
    (new : List PendingTxOut) :
    ({ task with pendingTxOuts := task.pendingTxOuts ++ new } : LiquidityBotTask).isNew m =
      false := by
  simp only [isNew, Bool.and_eq_false_iff, Bool.not_eq_false', List.any_append,
    Bool.or_eq_true] at h ⊢
  rcases h with (h | h) | h
  · exact .inl (.inl h)
  · exact .inl (.inr (.inl h))
  · exact .inr h

/-- A loop that came to its end has left nothing new behind.  By induction on the TxOuts;
what one turn has made old, the later ones keep so. -/
theorem isNew_addReceived {offer : Offer} {received : List MatchedTxOut} :
    ∀ {task : LiquidityBotTask} {added b : Bool},
      (addReceived offer task added received).2 = .ok b →
      ∀ m ∈ received, (addReceived offer task added received).1.isNew m = false := by
  induction received with
  | nil =>
      intro task added b _ m hm
      exact absurd hm List.not_mem_nil
  | cons m₀ received ih =>
      intro task added b hok m hm
      cases hnew : task.isNew m₀ with
      | false =>
          simp only [addReceived, hnew, Bool.false_eq_true, if_false] at hok ⊢
          rcases List.mem_cons.mp hm with rfl | hm
          · obtain ⟨new, heq, -⟩ := addReceived_spec offer received task added
            rw [heq]
            exact isNew_append hnew new
          · exact ih hok m hm
      | true =>
          cases hp : task.createPendingTxOut offer m₀ with
          | err e => simp [addReceived, hnew, hp] at hok
          | panic msg => simp [addReceived, hnew, hp] at hok
          | ok p =>
              simp only [addReceived, hnew, hp, if_true] at hok ⊢
              rcases List.mem_cons.mp hm with rfl | hm
              · -- its own entry is in the list now
                have hold : ({ task with
                    pendingTxOuts := task.pendingTxOuts ++ [p] } : LiquidityBotTask).isNew m =
                      false := by
                  simp [isNew, keyImage_createPendingTxOut hp]
                obtain ⟨new, heq, -⟩ := addReceived_spec offer received
                  { task with pendingTxOuts := task.pendingTxOuts ++ [p] } true
                rw [heq]
                exact isNew_append hold new
              · exact ih hok m hm

theorem addReceived_of_not_new {offer : Offer} {task : LiquidityBotTask} {added : Bool} :
    ∀ {received : List MatchedTxOut}, (∀ m ∈ received, task.isNew m = false) →
      addReceived offer task added received = (task, .ok added)
  | [], _ => rfl
  | m :: received, h => by
      simp only [addReceived, h m List.mem_cons_self, Bool.false_eq_true, if_false]
      exact addReceived_of_not_new fun m' hm' => h m' (List.mem_cons_of_mem _ hm')

theorem updatePendingTxOuts_again {task task' : LiquidityBotTask} {offer : Offer}
    {received : List MatchedTxOut} {b : Bool}
    (h : task.updatePendingTxOutsFromReceivedTxOuts offer received = (task', .ok b))
    (offer' : Offer) :
    task'.updatePendingTxOutsFromReceivedTxOuts offer' received = (task', .ok false) := by
  unfold updatePendingTxOutsFromReceivedTxOuts at h ⊢
  have hold := isNew_addReceived (congrArg Prod.snd h)
  rw [h] at hold
  exact addReceived_of_not_new hold

/-! ## Submitting -/

/-- The loop over a response that fits.  On an empty pending list it has nothing to do. -/
theorem submitPendingTxOuts_of_fits {codec : SciCodec} {task : LiquidityBotTask} {w : Exchange}
    {resp : SubmitQuotesResponse} (ha : w.answer (task.pendingRequest codec) = .ok resp)
    (hf : Fits resp task.pendingTxOuts.length) :
    task.submitPendingTxOuts codec w =
      ({ task with
          pendingTxOuts := []
          listedTxOuts := task.listedTxOuts ++
            (Outcome.pushEach (settlePending codec) (entries w task.pendingTxOuts resp)).1 },
        (Outcome.pushEach (settlePending codec) (entries w task.pendingTxOuts resp)).2) := by
  unfold submitPendingTxOuts
  split
  · next h =>
      cases task
      simp only at h
      subst h
      simp [entries, izip, Outcome.pushEach]
  · have hs : sanityCheckSubmitQuotesResponse resp (task.pendingRequest codec).quotes.length =
        .ok () := by
      rw [sanityCheck_eq_ok]
      simpa [pendingRequest] using hf
    simp only [ha, hs]

theorem submitPendingTxOuts_of_not_fits {codec : SciCodec} {task : LiquidityBotTask}
    {w : Exchange} (h : ∀ resp, w.answer (task.pendingRequest codec) = .ok resp →
      ¬ Fits resp task.pendingTxOuts.length) :
    (task.submitPendingTxOuts codec w).1 = task := by
  unfold submitPendingTxOuts
  split
  · rfl
  · cases ha : w.answer (task.pendingRequest codec) with
    | error e => simp only [ha]
    | ok resp =>
        have hlen : (task.pendingRequest codec).quotes.length = task.pendingTxOuts.length := by
          simp [pendingRequest]
        cases hs : sanityCheckSubmitQuotesResponse resp task.pendingTxOuts.length with
        | error e => simp only [ha, hlen, hs]
        | ok _ => exact absurd (sanityCheck_eq_ok.mp hs) (h resp ha)

theorem submitPendingTxOuts_ne_panic {codec : SciCodec} {task : LiquidityBotTask}
    {w : Exchange} (h : ∀ resp, w.answer (task.pendingRequest codec) = .ok resp →
      ¬ Fits resp task.pendingTxOuts.length) (m : String) :
    (task.submitPendingTxOuts codec w).2 ≠ .panic m := by
  unfold submitPendingTxOuts
  split
  · simp
  · cases ha : w.answer (task.pendingRequest codec) with
    | error e => simp [ha]
    | ok resp =>
        have hlen : (task.pendingRequest codec).quotes.length = task.pendingTxOuts.length := by
          simp [pendingRequest]
        cases hs : sanityCheckSubmitQuotesResponse resp task.pendingTxOuts.length with
        | error e => simp [ha, hlen, hs]
        | ok _ => exact absurd (sanityCheck_eq_ok.mp hs) (h resp ha)

theorem keyImages_settled {α : Type} {codec : SciCodec} {key : α → KeyImage}
    {settle : Entry α → Outcome Error (Option ListedTxOut)} (hs : Settles codec key settle)
    {w : Exchange} {sent : List α} {resp : SubmitQuotesResponse} (hf : Fits resp sent.length) :
    ((Outcome.pushEach settle (entries w sent resp)).1.map ListedTxOut.keyImage).Sublist
      (sent.map key) := by
  have h := Outcome.keys_pushEach (fun e => key e.sent) hs.keyImage (entries w sent resp)
  rwa [map_key_entries key w hf] at h

/-- **`submit_pending_tx_outs`** tracks nothing new. -/
theorem subperm_submitPendingTxOuts (codec : SciCodec) (task : LiquidityBotTask) (w : Exchange) :
    (task.submitPendingTxOuts codec w).1.keyImages.Subperm task.keyImages := by
  by_cases h : ∃ resp, w.answer (task.pendingRequest codec) = .ok resp ∧
      Fits resp task.pendingTxOuts.length
  · obtain ⟨resp, ha, hf⟩ := h
    rw [submitPendingTxOuts_of_fits ha hf]
    have hsettled := keyImages_settled (settles_pending codec) (w := w) hf
    simp only [keyImages, pendingKeyImages, listedKeyImages, List.map_nil, List.nil_append,
      List.map_append]
    refine List.perm_append_comm.subperm_right.mpr ?_
    exact (hsettled.append (List.Sublist.refl _)).subperm
  · rw [submitPendingTxOuts_of_not_fits fun resp ha hf => h ⟨resp, ha, hf⟩]

/-! ## Resubmitting -/

def toResubmit (task : LiquidityBotTask) (olderThan : Nat) (w : Exchange) : List ListedTxOut :=
  task.listedTxOuts.filter (isDue w.now olderThan)

def toKeep (task : LiquidityBotTask) (olderThan : Nat) (w : Exchange) : List ListedTxOut :=
  task.listedTxOuts.filter (fun l => !isDue w.now olderThan l)

theorem toKeep_append_toResubmit (task : LiquidityBotTask) (olderThan : Nat) (w : Exchange) :
    (task.toKeep olderThan w ++ task.toResubmit olderThan w).Perm task.listedTxOuts :=
  List.perm_append_comm.trans (List.filter_append_perm _ _)

theorem subperm_toKeep_append (task : LiquidityBotTask) (olderThan : Nat) (w : Exchange)
    (new : List ListedTxOut)
    (h : (new.map ListedTxOut.keyImage).Sublist
      ((task.toResubmit olderThan w).map ListedTxOut.keyImage)) :
    ({ task with
        listedTxOuts := task.toKeep olderThan w ++ new } : LiquidityBotTask).keyImages.Subperm
      task.keyImages := by
  have hperm := (toKeep_append_toResubmit task olderThan w).map ListedTxOut.keyImage
  simp only [keyImages, pendingKeyImages, listedKeyImages]
  refine (List.subperm_append_left _).mpr ?_
  rw [List.map_append] at hperm ⊢
  exact ((List.Sublist.refl _).append h).subperm.trans hperm.subperm

section Resubmit

variable {codec : SciCodec} {task : LiquidityBotTask} {olderThan : Nat} {w : Exchange}

theorem resubmitListedTxOuts_of_nil (h : task.toResubmit olderThan w = []) :
    task.resubmitListedTxOuts codec olderThan w =
      ({ task with listedTxOuts := task.toKeep olderThan w }, .ok ()) := by
  unfold toResubmit at h
  simp [resubmitListedTxOuts, List.partition_eq_filter_filter, h, toKeep, Function.comp_def]

theorem resubmitListedTxOuts_of_error (hne : task.toResubmit olderThan w ≠ []) {e : String}
    (ha : w.answer (listedRequest codec (task.toResubmit olderThan w)) = .error e) :
    task.resubmitListedTxOuts codec olderThan w =
      ({ task with listedTxOuts := task.toKeep olderThan w ++ task.toResubmit olderThan w },
        .err (.grpc e)) := by
  unfold toResubmit at hne ha ⊢
  simp only [resubmitListedTxOuts, List.partition_eq_filter_filter, if_neg hne, ha]
  rfl

/-- A response of the wrong lengths: what was taken out is not put back. -/
theorem resubmitListedTxOuts_of_not_fits (hne : task.toResubmit olderThan w ≠ [])
    {resp : SubmitQuotesResponse}
    (ha : w.answer (listedRequest codec (task.toResubmit olderThan w)) = .ok resp)
    (hf : ¬ Fits resp (task.toResubmit olderThan w).length) :
    ∃ e, task.resubmitListedTxOuts codec olderThan w =
      ({ task with listedTxOuts := task.toKeep olderThan w }, .err e) := by
  unfold toResubmit at hne ha hf
  simp only [resubmitListedTxOuts, List.partition_eq_filter_filter, if_neg hne, ha]
  have hlen :
      (listedRequest codec (task.listedTxOuts.filter (isDue w.now olderThan))).quotes.length =
        (task.listedTxOuts.filter (isDue w.now olderThan)).length := by
    simp [listedRequest]
  rw [hlen]
  cases hs : sanityCheckSubmitQuotesResponse resp
      (task.listedTxOuts.filter (isDue w.now olderThan)).length with
  | error e => exact ⟨e, rfl⟩
  | ok _ => exact absurd (sanityCheck_eq_ok.mp hs) hf

theorem resubmitListedTxOuts_of_fits (hne : task.toResubmit olderThan w ≠ [])
    {resp : SubmitQuotesResponse}
    (ha : w.answer (listedRequest codec (task.toResubmit olderThan w)) = .ok resp)
    (hf : Fits resp (task.toResubmit olderThan w).length) :
    task.resubmitListedTxOuts codec olderThan w =
      ({ task with
          listedTxOuts := task.toKeep olderThan w ++ (Outcome.pushEach (settleListed codec)
            (entries w (task.toResubmit olderThan w) resp)).1 },
        (Outcome.pushEach (settleListed codec)
          (entries w (task.toResubmit olderThan w) resp)).2) := by
  have hs : sanityCheckSubmitQuotesResponse resp
      (listedRequest codec (task.toResubmit olderThan w)).quotes.length = .ok () := by
    rw [sanityCheck_eq_ok]
    simpa [listedRequest] using hf
  unfold toResubmit at hne ha hs ⊢
  simp only [resubmitListedTxOuts, List.partition_eq_filter_filter, if_neg hne, ha, hs]
  rfl

variable (codec task olderThan w)

/-- **`resubmit_listed_tx_outs`** tracks nothing new. -/
theorem subperm_resubmitListedTxOuts :
    (task.resubmitListedTxOuts codec olderThan w).1.keyImages.Subperm task.keyImages := by
  have hkeep := subperm_toKeep_append task olderThan w [] (List.nil_sublist _)
  rw [List.append_nil] at hkeep
  by_cases hne : task.toResubmit olderThan w = []
  · rw [resubmitListedTxOuts_of_nil hne]
    exact hkeep
  · cases ha : w.answer (listedRequest codec (task.toResubmit olderThan w)) with
    | error e =>
        rw [resubmitListedTxOuts_of_error hne ha]
        exact subperm_toKeep_append _ _ _ _ (List.Sublist.refl _)
    | ok resp =>
        by_cases hf : Fits resp (task.toResubmit olderThan w).length
        · rw [resubmitListedTxOuts_of_fits hne ha hf]
          exact subperm_toKeep_append _ _ _ _ (keyImages_settled (settles_listed codec) hf)
        · obtain ⟨e, he⟩ := resubmitListedTxOuts_of_not_fits hne ha hf
          rw [he]
          exact hkeep

end Resubmit

/-! ## The event loop -/

theorem Distinct.of_subperm {task task' : LiquidityBotTask} (h : task.Distinct)
    (hs : task'.keyImages.Subperm task.keyImages) : task'.Distinct := by
  obtain ⟨l, hperm, hsub⟩ := hs
  exact hperm.nodup_iff.mp (h.sublist hsub)

theorem eq_of_survive {α : Type} {r : LiquidityBotTask × Outcome Error α}
    {task : LiquidityBotTask} (h : survive r = some task) : r.1 = task := by
  obtain ⟨t, _ | _ | _⟩ := r
  · exact Option.some.inj h
  · exact Option.some.inj h
  · cases h

/-- The task once the TxOuts of a block are unlisted and queued. -/
def queued (task : LiquidityBotTask) (received spent : List MatchedTxOut) (offer : Offer) :
    LiquidityBotTask × Outcome Error Bool :=
  (task.unlistSpentTxOuts spent).1.updatePendingTxOutsFromReceivedTxOuts offer received

section BlockProcessed

variable {codec : SciCodec} {task task' : LiquidityBotTask}
  {received spent : List MatchedTxOut} {offer : Offer} {w : Exchange}

theorem blockProcessed_cases (h : task.blockProcessed codec received spent offer w = some task') :
    ((task.queued received spent offer).2 = .ok true ∧
      task' = ((task.queued received spent offer).1.submitPendingTxOuts codec w).1) ∨
    ((task.queued received spent offer).2 ≠ .ok true ∧
      task' = (task.queued received spent offer).1) := by
  simp only [blockProcessed] at h
  unfold queued
  generalize (task.unlistSpentTxOuts spent).1.updatePendingTxOutsFromReceivedTxOuts
    offer received = q at h ⊢
  obtain ⟨t, (_ | _) | _ | _⟩ := q
  · exact .inr ⟨by simp, (Option.some.inj h).symm⟩
  · exact .inl ⟨rfl, (eq_of_survive h).symm⟩
  · exact .inr ⟨by simp, (Option.some.inj h).symm⟩
  · cases h

theorem queued_spec (hd : task.Distinct) (received spent : List MatchedTxOut) (offer : Offer) :
    ∃ new : List PendingTxOut,
      (task.queued received spent offer).1 = { task with
        pendingTxOuts := task.pendingTxOuts ++ new
        listedTxOuts := task.listedTxOuts.filter
          (fun l => l.keyImage ∉ spent.map MatchedTxOut.keyImage) } ∧
      (∀ p ∈ new, p.keyImage ∈ received.map MatchedTxOut.keyImage) ∧
      (task.queued received spent offer).1.Distinct := by
  unfold queued updatePendingTxOutsFromReceivedTxOuts
  rw [unlistSpentTxOuts_eq hd.listed spent]
  obtain ⟨new, heq, hmem, hdist⟩ := addReceived_spec offer received { task with
    listedTxOuts := task.listedTxOuts.filter
      (fun l => l.keyImage ∉ spent.map MatchedTxOut.keyImage) } false
  refine ⟨new, heq, hmem, hdist ?_⟩
  have hsub : (task.listedTxOuts.filter
      (fun l => l.keyImage ∉ spent.map MatchedTxOut.keyImage)).Sublist task.listedTxOuts :=
    List.filter_sublist
  exact hd.sublist ((List.Sublist.refl _).append (hsub.map _))

end BlockProcessed

theorem Distinct.step {codec : SciCodec} {task task' : LiquidityBotTask} {a : Action}
    (hd : task.Distinct) (h : task.step codec a = some task') : task'.Distinct := by
  cases a with
  | blockProcessed received spent offer w =>
      obtain ⟨-, -, -, hq⟩ := queued_spec hd received spent offer
      rcases blockProcessed_cases h with ⟨-, rfl⟩ | ⟨-, rfl⟩
      · exact hq.of_subperm (subperm_submitPendingTxOuts _ _ _)
      · exact hq
  | tick resubmission submission =>
      simp only [LiquidityBotTask.step] at h
      split at h
      · cases h
      · next t ht =>
          have ht := eq_of_survive ht
          have hd' : t.Distinct := ht ▸ hd.of_subperm (subperm_resubmitListedTxOuts _ _ _ _)
          exact eq_of_survive h ▸ hd'.of_subperm (subperm_submitPendingTxOuts _ _ _)
  | get channelOpen =>
      cases channelOpen with
      | true => exact Option.some.inj h ▸ hd
      | false => cases h

/-- **No TxOut is tracked twice**, in any state the bot can reach. -/
theorem distinct_of_run {codec : SciCodec} {pairs : AssocMap TokenId (TokenId × Decimal)}
    {as : List Action} {task : LiquidityBotTask}
    (h : Lts.Run (step codec) Lts.Any (initial pairs) as task) : task.Distinct :=
  h.inv Distinct (fun hd _ hs => hd.step hs) List.nodup_nil

/-- **Once only.**  In every state the bot can reach, the entries of both lists have distinct
key images; and a list of received TxOuts that was taken in whole is not taken in again. -/
theorem tracked_once {codec : SciCodec} {pairs : AssocMap TokenId (TokenId × Decimal)}
    {as : List Action} {task : LiquidityBotTask}
    (h : Lts.Run (step codec) Lts.Any (initial pairs) as task) :
    task.keyImages.Nodup ∧
      ∀ (t t' : LiquidityBotTask) (offer offer' : Offer) (received : List MatchedTxOut) (b : Bool),
        t.updatePendingTxOutsFromReceivedTxOuts offer received = (t', .ok b) →
        t'.updatePendingTxOutsFromReceivedTxOuts offer' received = (t', .ok false) := by
  refine ⟨distinct_of_run h, ?_⟩
  intro t t' offer offer' received b ht
  exact updatePendingTxOuts_again ht offer'

/-! ## Spent TxOuts -/

/-- Behind the queueing of a block, a spent TxOut that was not received in it is tracked
just when it was pending. -/
theorem mem_keyImages_queued {task : LiquidityBotTask} (hd : task.Distinct)
    {received spent : List MatchedTxOut} (offer : Offer) {k : KeyImage}
    (hs : k ∈ spent.map MatchedTxOut.keyImage) (hr : k ∉ received.map MatchedTxOut.keyImage) :
    k ∈ (task.queued received spent offer).1.keyImages ↔ k ∈ task.pendingKeyImages := by
  obtain ⟨new, heq, hnew, -⟩ := queued_spec hd received spent offer
  have hnotNew : k ∉ new.map PendingTxOut.keyImage := by
    intro hk
    obtain ⟨p, hp, rfl⟩ := List.mem_map.mp hk
    exact hr (hnew p hp)
  have hnotListed : k ∉ (task.listedTxOuts.filter
      (fun l => l.keyImage ∉ spent.map MatchedTxOut.keyImage)).map ListedTxOut.keyImage := by
    intro hk
    obtain ⟨l, hl, rfl⟩ := List.mem_map.mp hk
    exact of_decide_eq_true (List.mem_filter.mp hl).2 hs
  rw [heq]
  simp only [keyImages, pendingKeyImages, listedKeyImages, List.map_append, List.mem_append,
    hnotNew, hnotListed, or_false]

/-- **A spend is noticed unless the TxOut is pending.**  After a block is handled, in any run,
a TxOut that it spent and did not bring is tracked only if it was pending before; so
none that was listed is.  And where the block brought nothing to submit, what was
pending still is. -/
theorem spent_tracked_only_if_pending {codec : SciCodec}
    {pairs : AssocMap TokenId (TokenId × Decimal)} {as : List Action}
    {task task' : LiquidityBotTask} {received spent : List MatchedTxOut} {offer : Offer}
    {w : Exchange} (hrun : Lts.Run (step codec) Lts.Any (initial pairs) as task)
    (hstep : task.step codec (.blockProcessed received spent offer w) = some task')
    {m : MatchedTxOut} (hm : m ∈ spent)
    (hr : m.keyImage ∉ received.map MatchedTxOut.keyImage) :
    (m.keyImage ∈ task'.keyImages → m.keyImage ∈ task.pendingKeyImages) ∧
    (m.keyImage ∈ task.listedKeyImages → m.keyImage ∉ task'.keyImages) ∧
    ((task.queued received spent offer).2 ≠ .ok true →
      (m.keyImage ∈ task'.keyImages ↔ m.keyImage ∈ task.pendingKeyImages)) := by
  have hd := distinct_of_run hrun
  have hqueued := mem_keyImages_queued hd offer (List.mem_map_of_mem hm) hr
  have hpending : m.keyImage ∈ task'.keyImages → m.keyImage ∈ task.pendingKeyImages := by
    intro hk
    rcases blockProcessed_cases hstep with ⟨-, rfl⟩ | ⟨-, rfl⟩
    · exact hqueued.mp ((subperm_submitPendingTxOuts _ _ _).subset hk)
    · exact hqueued.mp hk
  refine ⟨hpending, ?_, ?_⟩
  · intro hl hk
    exact (List.nodup_append.mp hd).2.2 _ (hpending hk) _ hl rfl
  · intro hne
    rcases blockProcessed_cases hstep with ⟨h, -⟩ | ⟨-, rfl⟩
    · exact absurd h hne
    · exact hqueued

def sampleTxOut (tag : UInt8) : MatchedTxOut := ⟨0, ⟨.fill tag, []⟩, ⟨10, 1⟩, 0, ⟨.fill tag⟩⟩

def samplePairs : AssocMap TokenId (TokenId × Decimal) :=
  ⟨[(1, 2, ⟨false, 2, 0, by decide, by decide⟩)], by simp⟩

def sampleOffer : Offer := fun m _ _ =>
  .ok (sampleSci (m.txOut.publicKey.bytes.headD 0) 10 20 100)

def unreachable : Exchange := ⟨0, fun _ => .error "unavailable", fun _ => 0⟩

def accepting (tag : UInt8) : Exchange where
  now := 0
  answer _ := .ok ⟨[.created], [""], [(sampleQuote tag 10 20 100 1).toApi sampleCodec]⟩
  clock _ := 0

/-- One TxOut is received three times, in two blocks, and a second one between. -/
theorem received_again_tracked_once : ∃ task : LiquidityBotTask,
    Lts.Run (step sampleCodec) Lts.Any (initial samplePairs)
      [.blockProcessed [sampleTxOut 1, sampleTxOut 1] [] sampleOffer (accepting 1),
        .blockProcessed [sampleTxOut 2, sampleTxOut 1] [] sampleOffer unreachable] task ∧
    task.pendingKeyImages = [(sampleTxOut 2).keyImage] ∧
    task.listedKeyImages = [(sampleTxOut 1).keyImage] ∧
    task.keyImages.Nodup := by
  have hrun : ∃ task : LiquidityBotTask,
      Lts.Run (step sampleCodec) Lts.Any (initial samplePairs)
        [.blockProcessed [sampleTxOut 1, sampleTxOut 1] [] sampleOffer (accepting 1),
          .blockProcessed [sampleTxOut 2, sampleTxOut 1] [] sampleOffer unreachable] task ∧
      task.pendingKeyImages = [(sampleTxOut 2).keyImage] ∧
      task.listedKeyImages = [(sampleTxOut 1).keyImage] :=
    ⟨_, Lts.run_of_exec rfl, rfl, rfl⟩
  obtain ⟨task, hrun, hp, hl⟩ := hrun
  exact ⟨task, hrun, hp, hl, (tracked_once hrun).1⟩

/-- A TxOut that was listed is not tracked once its spend is processed. -/
theorem listed_spend_noticed : ∃ task task' : LiquidityBotTask,
    Lts.Run (step sampleCodec) Lts.Any (initial samplePairs)
      [.blockProcessed [sampleTxOut 1] [] sampleOffer (accepting 1)] task ∧
    task.step sampleCodec (.blockProcessed [] [sampleTxOut 1] sampleOffer unreachable) =
      some task' ∧
    (sampleTxOut 1).keyImage ∈ task.listedKeyImages ∧
    (sampleTxOut 1).keyImage ∉ task'.keyImages := by
  have hrun : ∃ task task' : LiquidityBotTask,
      Lts.Run (step sampleCodec) Lts.Any (initial samplePairs)
        [.blockProcessed [sampleTxOut 1] [] sampleOffer (accepting 1)] task ∧
      task.step sampleCodec (.blockProcessed [] [sampleTxOut 1] sampleOffer unreachable) =
        some task' ∧
      (sampleTxOut 1).keyImage ∈ task.listedKeyImages :=
    ⟨_, _, Lts.run_of_exec rfl, rfl, List.mem_singleton.mpr rfl⟩
  obtain ⟨task, task', hrun, hstep, hl⟩ := hrun
  exact ⟨task, task', hrun, hstep, hl,
    (spent_tracked_only_if_pending hrun hstep List.mem_cons_self List.not_mem_nil).2.1 hl⟩

/-- A TxOut is received while the server cannot be reached, and is spent before the next
attempt.  The block that spends it leaves it pending. -/
theorem pending_spend_unnoticed : ∃ task task' : LiquidityBotTask,
    Lts.Run (step sampleCodec) Lts.Any (initial samplePairs)
      [.blockProcessed [sampleTxOut 1] [] sampleOffer unreachable] task ∧
    task.step sampleCodec (.blockProcessed [] [sampleTxOut 1] sampleOffer unreachable) =
      some task' ∧
    (sampleTxOut 1).keyImage ∈ task'.pendingKeyImages :=
  ⟨_, _, Lts.run_of_exec rfl, rfl, List.mem_singleton.mpr rfl⟩

end Deqs.Bot.LiquidityBotTask
