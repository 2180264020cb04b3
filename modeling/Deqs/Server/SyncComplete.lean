/-
# What a sync brings

With an honest peer, in whatever order the chunks are answered and however the calls of
`add_sci` of ten tasks fall between each other:

* every identifier we miss is requested, once, in chunks the peer takes;
* no task leaves its chunk, and what was in our book stays in it (`Safe`);
* the sync is never stuck (`CanGoOn`), and takes no more than `syncBound` steps;
* when it returns, each quote of `R` is covered, or `add_sci` has rejected it (`Complete`).

The bound is a sum over the tasks.  Each stage of a task is worth more than all that can come
after it:

    not spawned  >  waiting  >  its entries, a call at a time  >  done

so every step of the sync makes the sum smaller, whichever task takes it.
-/
import Mathlib.Algebra.Order.BigOperators.Group.List
import Deqs.Server.SyncHonest

namespace Deqs.P2P

open Sync (Ledger AddCall)

/-! ## The sync comes to its end -/

def Action.isSync : Action → Bool
  | .append _ => false
  | _ => true

/-- The members of the ring that `add_quote` reads. -/
def ringSize (q : Quote) : Nat := (q.sci.txOutGlobalIndices.zip q.sci.txIn.ring).length

/-- The steps a call of `add_sci` has before it, with the one that records its result. -/
def callWork : AddCall → Nat
  | .idle => 0
  | .start quote => ringSize quote + 4
  | .readBlocks quote _ => ringSize quote + 3
  | .checkingRing _ _ rest => rest.length + 2
  | .done _ => 1

def entryWork (R : InMemoryQuoteBook) : Nat := (R.quotes.map ringSize).sum + 5

def taskWork (R : InMemoryQuoteBook) : ChunkTask → Nat
  | .waiting => MAX_QUOTES_PER_REQUEST * entryWork R + 2
  | .adding rest call _ => rest.length * entryWork R + callWork call + 1
  | .done _ => 0
  | .panicked _ => 0
  | .outOfRange => 0

def chunkWork (R : InMemoryQuoteBook) : Nat := MAX_QUOTES_PER_REQUEST * entryWork R + 3

theorem callWork_next {ledger : Ledger} {fault : Option String} {call call' : AddCall}
    (h : call.next ledger fault = some call') : callWork call' < callWork call := by
  rcases AddCall.next_cases h with ⟨e, rfl⟩ | ⟨q, rfl, rfl, -⟩ | ⟨q, n, rfl, rfl, -⟩ |
    ⟨q, n, j, txOut, rest, rfl, rfl, -⟩
  · cases call with
    | idle => cases h
    | done r => cases h
    | start quote => simp [callWork]
    | readBlocks quote c => simp [callWork]
    | checkingRing quote c rest => simp [callWork]
  · simp [callWork]
  · simp [callWork, ringSize]
  · simp [callWork]

theorem ringSize_le {R : InMemoryQuoteBook} {q : Quote} (h : q ∈ R.quotes) :
    ringSize q + 5 ≤ entryWork R := by
  have hle : ringSize q ≤ (R.quotes.map ringSize).sum :=
    List.single_le_sum (fun _ _ => Nat.zero_le _) _ (List.mem_map_of_mem h)
  unfold entryWork
  omega

section Work

variable {mc : McCore} {ser : Serial} {R : InMemoryQuoteBook}
  {E : PeerSync ser → Action → Prop} {book : NodeBook ser} {quoteIds : List QuoteId}
  {task task' : ChunkTask}

theorem Follows.mem_of_answer {rest : List MaybeQuote} {call : AddCall}
    {results : List (Except Error Unit)}
    (h : Follows E R book quoteIds (.adding rest call results)) {q : Quote}
    (hq : .ok (some q) ∈ rest) : q ∈ R.quotes := by
  have hanswer : ∃ todo : List QuoteId, rest = todo.map (answer R) := by
    cases h with
    | between ids answers settled => exact ⟨_, answers⟩
    | calling ids answers settled mem quote => exact ⟨_, answers⟩
    | returned ids answers settled mem result decided => exact ⟨_, answers⟩
  obtain ⟨todo, rfl⟩ := hanswer
  obtain ⟨quoteId, -, heq⟩ := List.mem_map.mp hq
  exact List.mem_of_find?_eq_some (Except.ok.inj heq)

theorem taskWork_respond (hlen : quoteIds.length ≤ MAX_QUOTES_PER_REQUEST)
    {response : Except String Response}
    (h : ChunkTask.respond quoteIds response task = some task') :
    taskWork R task' < taskWork R task := by
  have hin := ChunkTask.InRange.respond h
  obtain ⟨rfl, ⟨e, -, rfl⟩ | ⟨quotes, -, rfl⟩⟩ := ChunkTask.respond_cases h
  · simp [taskWork]
  · simp only [ChunkTask.InRange, entriesOf, List.length_nil, Nat.zero_add] at hin
    have hle := Nat.mul_le_mul_right (entryWork R) (hin.trans_le hlen)
    simp only [taskWork, callWork]
    omega

theorem taskWork_next (hmade : ∀ q ∈ R.quotes, q.Made mc)
    (h : Follows E R book quoteIds task) (hn : ChunkTask.next mc quoteIds task = some task') :
    taskWork R task' < taskWork R task := by
  have hpos : 0 < entryWork R := by simp [entryWork]
  rcases ChunkTask.next_cases hn with ⟨results, rfl, rfl⟩ |
    ⟨maybeQuote, rest, results, rfl, -, rfl⟩ | ⟨quote, rest, results, rfl, rfl⟩ |
    ⟨maybeQuote, rest, results, r, rfl, -, rfl⟩ | ⟨rest, outcome, results, r, rfl, -, rfl⟩ |
    ⟨rest, m, results, rfl, rfl⟩
  · simp [taskWork]
  · simp [taskWork]
  · -- the steps of the call are those of the entry
    have hmem := h.mem_of_answer List.mem_cons_self
    have hle := ringSize_le hmem
    rw [peerOffer_of_made (hmade quote hmem)]
    simp only [taskWork, AddCall.ofOffer, callWork, List.length_cons, Nat.add_one_mul]
    omega
  · simp only [taskWork, callWork, List.length_cons, Nat.add_one_mul]
    omega
  · simp only [taskWork, callWork]
    omega
  · simp [taskWork]

end Work

namespace PeerSync

variable {mc : McCore} {ser : Serial} {S : Set Quote} {R : InMemoryQuoteBook}
  {E : PeerSync ser → Action → Prop} {b₀ : NodeBook ser} {s s' : PeerSync ser}

def work (R : InMemoryQuoteBook) (b₀ : NodeBook ser) (s : PeerSync ser) : Nat :=
  s.chunks.isNone.toNat + s.returned.isNone.toNat +
    ((plan R b₀).length - s.chunkResults.length) +
    (s.tasks.map (taskWork R)).sum +
    ((plan R b₀).length - s.tasks.length) * chunkWork R

/-- The steps of a sync from `R`, at most. -/
def syncBound (R : InMemoryQuoteBook) (b₀ : NodeBook ser) : Nat :=
  2 + (plan R b₀).length * (chunkWork R + 1)

theorem work_initial (ledger : Ledger) : (initial ledger b₀).work R b₀ = syncBound R b₀ := by
  simp only [work, initial, syncBound, Option.isNone_none, Bool.toNat_true, List.length_nil,
    List.map_nil, List.sum_nil, Nat.sub_zero, Nat.mul_add, Nat.mul_one]
  omega

theorem work_setTask {i : Nat} {task task' : ChunkTask} (ht : s.tasks[i]? = some task)
    (hlt : taskWork R task' < taskWork R task) (book : NodeBook ser) :
    work R b₀ { s.setTask i task' with book } < work R b₀ s := by
  have hsum : ((s.tasks.set i task').map (taskWork R)).sum < (s.tasks.map (taskWork R)).sum := by
    rw [List.map_set]
    exact Lists.sum_set_lt hlt (by rw [List.getElem?_map, ht]; rfl)
  simp only [work, setTask, List.length_set]
  omega

theorem Begun.work_step (hS : Genuine mc S) (hR : ∀ q ∈ R.quotes, q ∈ S)
    (h : Begun E S R b₀ s) {a : Action} (hs : s.step mc a = some s') :
    work R b₀ s' + (if a.isSync then 1 else 0) ≤ work R b₀ s := by
  have hle := h.length_tasks_le
  cases a with
  | append block =>
      obtain rfl := Option.some.inj hs
      exact Nat.le_refl _
  | begin response =>
      have hnone := (begin_cases hs).1
      rw [h.chunks] at hnone
      cases hnone
  | spawn =>
      obtain ⟨quoteIds, hc, -, rfl⟩ := spawn_cases hs
      rw [h.chunk_eq] at hc
      obtain ⟨hlt, -⟩ := List.getElem?_eq_some_iff.mp hc
      obtain ⟨k, hk⟩ := Nat.exists_eq_add_of_lt hlt
      have hk₀ : (plan R b₀).length - s.tasks.length = k + 1 := by omega
      have hk₁ : (plan R b₀).length - (s.tasks.length + 1) = k := by omega
      simp only [work, List.map_append, List.sum_append, List.length_append, List.length_singleton,
        List.map_singleton, List.sum_singleton, hk₀, hk₁, Nat.add_one_mul, taskWork, chunkWork,
        Action.isSync, if_true]
      omega
  | respond i response =>
      obtain ⟨quoteIds, task, task', hc, ht, hf, rfl⟩ := stepTask_cases hs
      rw [h.chunk_eq] at hc
      have hlen := length_le_of_mem_plan (List.mem_of_getElem? hc)
      exact work_setTask ht (taskWork_respond hlen hf) _
  | next i =>
      obtain ⟨quoteIds, task, task', hc, ht, hf, rfl⟩ := stepTask_cases hs
      rw [h.chunk_eq] at hc
      obtain ⟨quoteIds', hc', hfollows⟩ := h.tasks i task ht
      obtain rfl := Option.some.inj (hc.symm.trans hc')
      exact work_setTask ht (taskWork_next (fun q hq => hS.made (hR q hq)) hfollows hf) _
  | advance i fault faults =>
      obtain ⟨rest, call, results, ht, ⟨quote, c, rfl, rfl⟩ | ⟨call', hcall, rfl⟩⟩ :=
        advance_cases hs
      · exact work_setTask ht (by simp [taskWork, callWork]) _
      · refine work_setTask ht ?_ _
        have hlt := callWork_next hcall
        simp only [taskWork]
        omega
  | collect =>
      have hlt : s.chunkResults.length < s.tasks.length := by
        rcases collect_cases hs with ⟨r, ht, -⟩ | ⟨ht | ⟨m, ht⟩, -⟩
        · exact (List.getElem?_eq_some_iff.mp ht).1
        · exact (List.getElem?_eq_some_iff.mp ht).1
        · exact (List.getElem?_eq_some_iff.mp ht).1
      rcases collect_cases hs with ⟨r, -, rfl⟩ | ⟨-, rfl⟩
      · simp only [work, List.length_append, List.length_singleton, Action.isSync, if_true]
        omega
      · simp only [work, List.length_append, List.length_singleton, Action.isSync, if_true]
        omega
  | finish =>
      obtain ⟨chunks, -, hr, -, rfl⟩ := finish_cases hs
      simp only [work, hr, Option.isNone_none, Option.isNone_some, Bool.toNat_true,
        Bool.toNat_false, Action.isSync, if_true]
      omega

theorem Inv.work_step (hS : Genuine mc S) (hR : ∀ q ∈ R.quotes, q ∈ S)
    (h : Inv E S R b₀ s) {a : Action} (hs : s.step mc a = some s') :
    work R b₀ s' + (if a.isSync then 1 else 0) ≤ work R b₀ s := by
  rcases h with hinit | h
  · rw [hinit] at hs ⊢
    rcases initial_cases hs with ⟨block, rfl, rfl⟩ | ⟨response, rfl, hs⟩
    · exact Nat.le_refl _
    · rcases begin_cases hs with ⟨-, -, ⟨e, rfl, -⟩ | ⟨_, _, -, -, rfl⟩⟩
      all_goals
        simp only [work, initial, Option.isNone_none, Option.isNone_some, Bool.toNat_true,
          Bool.toNat_false, Action.isSync, if_true]
        omega
  · exact h.work_step hS hR hs

/-! ## A sync is never stuck -/

def CanGoOn (mc : McCore) (R : InMemoryQuoteBook) (s : PeerSync ser) : Prop :=
  ∃ a : Action, a.isSync = true ∧ Honest R s a ∧ (s.step mc a).isSome

theorem next_isSome (quoteIds : List QuoteId) (rest : List MaybeQuote) {call : AddCall}
    (hcall : call = .idle ∨ ∃ outcome, call = .done outcome)
    (results : List (Except Error Unit)) :
    (ChunkTask.next mc quoteIds (.adding rest call results)).isSome := by
  rcases hcall with rfl | ⟨outcome, rfl⟩
  · cases rest with
    | nil => rfl
    | cons maybeQuote rest =>
        simp only [ChunkTask.next]
        split
        · rfl
        · split <;> rfl
  · cases outcome with
    | ok u => simp [ChunkTask.next]
    | err e => simp [ChunkTask.next]
    | panic m => simp [ChunkTask.next]

theorem advance_isSome {i : Nat} {rest : List MaybeQuote} {call : AddCall}
    {results : List (Except Error Unit)} (ht : s.tasks[i]? = some (.adding rest call results))
    {q : Quote} (hq : call.quote? = some q) : (s.advance i none .none).isSome := by
  simp only [advance, ht]
  cases call with
  | idle => cases hq
  | done outcome => cases hq
  | start quote => rfl
  | readBlocks quote c => rfl
  | checkingRing quote c ring =>
      cases ring with
      | nil => rfl
      | cons member ring => rfl

theorem stepTask_isSome {i : Nat} {f : List QuoteId → ChunkTask → Option ChunkTask}
    {quoteIds : List QuoteId} {task : ChunkTask} (hc : s.chunk i = some quoteIds)
    (ht : s.tasks[i]? = some task) (hf : (f quoteIds task).isSome) : (s.stepTask i f).isSome := by
  simp only [stepTask, hc, ht, Option.isSome_map]
  exact hf

/-- The first task whose result is not collected can go on, or there is no such task, and one
can be spawned; or all the results are there. -/
theorem Begun.canGoOn (hp : R.poisoned = false) (h : Begun E S R b₀ s)
    (hr : s.returned = none) : s.CanGoOn mc R := by
  have hle := h.length_chunkResults_le
  have hle' := h.length_tasks_le
  by_cases hlen : s.chunkResults.length = (plan R b₀).length
  · refine ⟨.finish, rfl, trivial, ?_⟩
    simp only [PeerSync.step, finish, h.chunks, hr, if_pos hlen, Option.isSome_some]
  cases ht : s.tasks[s.chunkResults.length]? with
  | none =>
      have heq := List.getElem?_eq_none_iff.mp ht
      have hlt : s.tasks.length < (plan R b₀).length := by omega
      have hfew : s.tasks.length < s.chunkResults.length + PEER_SYNC_MAX_CONCURRENT_REQUESTS := by
        simp only [PEER_SYNC_MAX_CONCURRENT_REQUESTS]
        omega
      refine ⟨.spawn, rfl, trivial, ?_⟩
      simp only [PeerSync.step, PeerSync.spawn, h.chunk_eq, List.getElem?_eq_getElem hlt,
        if_pos hfew, Option.isSome_some]
  | some task =>
      obtain ⟨quoteIds, hc, hfollows⟩ := h.tasks _ task ht
      have hchunk := (h.chunk_eq _).trans hc
      have hlen' := length_le_of_mem_plan (List.mem_of_getElem? hc)
      cases hfollows with
      | waiting =>
          refine ⟨.respond s.chunkResults.length (.ok (.maybeQuotes (quoteIds.map (answer R)))),
            rfl, ⟨quoteIds, _, hchunk, handle_getQuotesById hp hlen', rfl⟩,
            stepTask_isSome hchunk ht ?_⟩
          rw [ChunkTask.respond, getQuotesById_answers]
          rfl
      | between ids answers settled =>
          exact ⟨.next s.chunkResults.length, rfl, trivial,
            stepTask_isSome hchunk ht (next_isSome _ _ (.inl rfl) _)⟩
      | calling ids answers settled mem quote =>
          exact ⟨.advance s.chunkResults.length none .none, rfl, trivial,
            advance_isSome ht quote⟩
      | returned ids answers settled mem result decided =>
          exact ⟨.next s.chunkResults.length, rfl, trivial,
            stepTask_isSome hchunk ht (next_isSome _ _ (.inr ⟨_, rfl⟩) _)⟩
      | done settled =>
          refine ⟨.collect, rfl, trivial, ?_⟩
          simp only [PeerSync.step, PeerSync.collect, ht, Option.isSome_some]

theorem Inv.canGoOn (hp : R.poisoned = false) (hb : b₀.Writable S) (h : Inv E S R b₀ s)
    (hr : s.returned = none) : s.CanGoOn mc R := by
  rcases h with hinit | h
  · rw [hinit]
    refine ⟨.begin (.ok (.allQuoteIds (R.quotes.map Quote.id))), rfl,
      ⟨_, handle_getAllQuoteIds hp, rfl⟩, ?_⟩
    simp only [PeerSync.step, PeerSync.begin, initial, getAllQuoteIds,
      getQuoteIds_all hb.unpoisoned, Option.isSome_some]
  · exact h.canGoOn hp hr

/-! ## The result -/

def requestedIds (s : PeerSync ser) : List QuoteId :=
  s.requests.flatMap fun
    | .getAllQuoteIds => []
    | .getQuotesById quoteIds => quoteIds

/-- What holds at every moment of a sync from `R`. -/
structure Safe (R : InMemoryQuoteBook) (b₀ : NodeBook ser) (s : PeerSync ser) : Prop where
  requestedOnce : s.requestedIds.Nodup
  requestedMissing : ∀ quoteId ∈ s.requestedIds,
    (∃ q ∈ R.quotes, q.id = quoteId) ∧ ∀ x ∈ b₀.inner.quotes, x.id ≠ quoteId
  notRefused : ∀ request ∈ s.requests,
    handleRpcRequest R request ≠ some (.error .tooManyQuotesRequested)
  noPanic : ∀ task ∈ s.tasks, task ≠ .outOfRange ∧ ∀ m, task ≠ .panicked m
  kept : b₀.Grows s.book
  rows : b₀.RowsInMemory → s.book.RowsInMemory

/-- What holds when it has returned; `E` are the steps it has taken. -/
structure Complete (E : PeerSync ser → Action → Prop) (R : InMemoryQuoteBook)
    (b₀ : NodeBook ser) (s : PeerSync ser) : Prop where
  result : s.returned = some (.ok (tally s.chunkResults))
  requested : ∀ q ∈ R.quotes, (∀ x ∈ b₀.inner.quotes, x.id ≠ q.id) →
    s.requestedIds.count q.id = 1
  settled : ∀ q ∈ R.quotes, s.book.Covered q ∨
    ∃ q' ∈ R.quotes, q'.sci = q.sci ∧
      ∃ e, Rejected E q' e ∧ .error (.quoteBook e) ∈ flatResults s.chunkResults

/-- An answer with the wrong number of entries adds nothing, then or later. -/
def DropsWrongLength (mc : McCore) (s : PeerSync ser) : Prop :=
  ∀ (i : Nat) (quoteIds : List QuoteId) (quotes : List MaybeQuote) (s₁ : PeerSync ser),
    s.chunk i = some quoteIds → quotes.length ≠ quoteIds.length →
    s.step mc (.respond i (.ok (.maybeQuotes quotes))) = some s₁ →
    s₁.book = s.book ∧ ∀ as s₂, Lts.Run (step mc) Lts.Any s₁ as s₂ →
      s₂.tasks[i]? = some (.done (.error (.p2pRpc .unexpectedResponse))) ∧
        ∀ fault faults, s₂.step mc (.advance i fault faults) = none

namespace Begun

theorem requestedIds_eq (h : Begun E S R b₀ s) :
    s.requestedIds = ((plan R b₀).take s.tasks.length).flatten := by
  rw [requestedIds, h.requests, List.flatMap_cons, List.nil_append, List.flatMap_map,
    List.flatten_eq_flatMap]
  rfl

theorem requestedIds_append (h : Begun E S R b₀ s) :
    s.requestedIds ++ ((plan R b₀).drop s.tasks.length).flatten = missing R b₀ := by
  rw [h.requestedIds_eq, ← List.flatten_append, List.take_append_drop, flatten_plan]

theorem safe (hp : R.poisoned = false) (h : Begun E S R b₀ s) : s.Safe R b₀ where
  requestedOnce := by
    have hn : (missing R b₀).Nodup := nodup_missing
    rw [← h.requestedIds_append] at hn
    exact hn.of_append_left
  requestedMissing := by
    intro quoteId hid
    exact mem_missing.mp (h.requestedIds_append ▸ List.mem_append_left _ hid)
  notRefused := by
    intro request hreq
    rw [h.requests] at hreq
    rcases List.mem_cons.mp hreq with rfl | hreq
    · rw [handle_getAllQuoteIds hp]
      simp
    · obtain ⟨quoteIds, hmem, rfl⟩ := List.mem_map.mp hreq
      rw [handle_getQuotesById hp (length_le_of_mem_plan (List.mem_of_mem_take hmem))]
      simp
  noPanic := by
    intro task htask
    obtain ⟨i, ht⟩ := List.mem_iff_getElem?.mp htask
    obtain ⟨quoteIds, -, hf⟩ := h.tasks i task ht
    constructor
    · rintro rfl
      cases hf
    · rintro m rfl
      cases hf
  kept := h.grows
  rows := fun hrows => hrows.mono h.grows

theorem settled_of_collected (h : Begun E S R b₀ s) {i : Nat} {quoteIds : List QuoteId}
    (hc : (plan R b₀)[i]? = some quoteIds) (hi : i < s.chunkResults.length) {quoteId : QuoteId}
    (hid : quoteId ∈ quoteIds) :
    ∃ r ∈ flatResults s.chunkResults, Settled E R s.book quoteId r := by
  obtain ⟨x, hx, ht⟩ := h.results i _ (List.getElem?_eq_getElem hi)
  obtain ⟨quoteIds', hc', hf⟩ := h.tasks i _ ht
  obtain rfl := Option.some.inj (hc.symm.trans hc')
  cases hf with
  | @done results settled =>
      obtain ⟨k, hk, rfl⟩ := List.getElem_of_mem hid
      have hk' : k < results.length := settled.length_eq ▸ hk
      refine ⟨results.get ⟨k, hk'⟩, ?_, settled.get hk hk'⟩
      exact List.mem_flatMap.mpr ⟨_, List.getElem_mem hi, hx ▸ List.get_mem _ _⟩

theorem complete (hS : Genuine mc S) (hR : ∀ q ∈ R.quotes, q ∈ S) (h : Begun E S R b₀ s)
    (hr : s.returned.isSome) : s.Complete E R b₀ := by
  obtain ⟨r, hr⟩ := Option.isSome_iff_exists.mp hr
  obtain ⟨rfl, hlen⟩ := h.returned r hr
  have hle := h.length_chunkResults_le
  have hall : s.requestedIds = missing R b₀ := by
    rw [h.requestedIds_eq, List.take_of_length_le (hlen ▸ hle), flatten_plan]
  refine ⟨hr, ?_, ?_⟩
  · intro q hq hnot
    rw [hall]
    exact List.count_eq_one_of_mem nodup_missing (mem_missing.mpr ⟨⟨q, hq, rfl⟩, hnot⟩)
  · intro q hq
    by_cases hnot : ∀ x ∈ b₀.inner.quotes, x.id ≠ q.id
    · -- the identifier is in a chunk, and the chunk has its results
      have hmem : q.id ∈ (plan R b₀).flatten := by
        rw [flatten_plan]
        exact mem_missing.mpr ⟨⟨q, hq, rfl⟩, hnot⟩
      obtain ⟨quoteIds, hchunk, hid⟩ := List.mem_flatten.mp hmem
      obtain ⟨i, hi⟩ := List.mem_iff_getElem?.mp hchunk
      have hlt : i < s.chunkResults.length := hlen ▸ (List.getElem?_eq_some_iff.mp hi).1
      obtain ⟨r, hrmem, q', hq', hid', hd⟩ := h.settled_of_collected hi hlt hid
      rcases hd with hcov | ⟨e, rfl, hrej⟩
      · left
        obtain ⟨hpair, hki⟩ := Quote.key_eq_iff.mp (hS.key_eq_of_id (hR q' hq') (hR q hq) hid')
        rcases hcov with hold | ⟨x, hx, hxp, hxk⟩
        · exact .inl (hid' ▸ hold)
        · exact .inr ⟨x, hx, hxp.trans hpair, hxk.trans hki⟩
      · exact .inr ⟨q', hq', hS.sci_eq_of_id (hR q' hq') (hR q hq) hid', e, hrej, hrmem⟩
    · push Not at hnot
      obtain ⟨x, hx, hid⟩ := hnot
      exact .inl (.inl (.inl ⟨x, h.grows.quotes x hx, hid⟩))

end Begun

theorem Inv.safe (hp : R.poisoned = false) (h : Inv E S R b₀ s) : s.Safe R b₀ := by
  rcases h with hinit | h
  · rw [hinit]
    exact {
      requestedOnce := List.nodup_nil
      requestedMissing := fun _ hid => absurd hid List.not_mem_nil
      notRefused := fun _ hreq => absurd hreq List.not_mem_nil
      noPanic := fun _ htask => absurd htask List.not_mem_nil
      kept := .refl b₀
      rows := fun hrows => hrows }
  · exact h.safe hp

theorem Inv.complete (hS : Genuine mc S) (hR : ∀ q ∈ R.quotes, q ∈ S) (h : Inv E S R b₀ s)
    (hr : s.returned.isSome) : s.Complete E R b₀ := by
  rcases h with hinit | h
  · rw [hinit] at hr
    cases hr
  · exact h.complete hS hR hr

theorem dropsWrongLength (mc : McCore) (s : PeerSync ser) : s.DropsWrongLength mc := by
  intro i quoteIds quotes s₁ hc hlen hs
  obtain ⟨hbook, hdone⟩ := respond_wrong_length hc hlen hs
  refine ⟨hbook, fun as s₂ hrun => ?_⟩
  have hstays := hrun.inv (fun t => t.tasks[i]? =
    some (.done (.error (.p2pRpc .unexpectedResponse)))) (fun h _ hs => done_step h hs) hdone
  refine ⟨hstays, fun fault faults => ?_⟩
  rw [PeerSync.step, advance, hstays]

/-- **Peer sync is complete and safe.**  In every run of a sync with an honest peer: nothing
goes wrong on the way; if it has returned, each quote of `R` is in our book or has something
in its way there, or was turned down by `add_sci`; if it has not, it can go on, and it does so
for a bounded number of steps only.  And whatever a peer answers, no task leaves its chunk, and
an answer of the wrong length adds nothing. -/
theorem peer_sync_complete (hS : Genuine mc S) (hR : ∀ q ∈ R.quotes, q ∈ S)
    (hp : R.poisoned = false) (hb : b₀.Writable S) {ledger : Ledger} {as : List Action}
    (hrun : Lts.Run (step mc) (Honest R) (.initial ledger b₀) as s) :
    s.Safe R b₀ ∧
    (s.returned.isSome → s.Complete (Lts.Occurs (step mc) (.initial ledger b₀) as) R b₀) ∧
    (s.returned = none → s.CanGoOn mc R) ∧
    as.countP Action.isSync ≤ syncBound R b₀ ∧
    ∀ as' (t : PeerSync ser), Lts.Run (step mc) Lts.Any (.initial ledger b₀) as' t →
      (∀ task ∈ t.tasks, task ≠ .outOfRange) ∧ t.DropsWrongLength mc := by
  have hstart : Inv (Lts.Occurs (step mc) (.initial ledger b₀) as) S R b₀ (.initial ledger b₀) :=
    .inl rfl
  have hinv : Inv (Lts.Occurs (step mc) (.initial ledger b₀) as) S R b₀ s :=
    hrun.recorded.inv _ (fun h hg hs => h.step hS hR hp hb hg.1 hg.2 hs) hstart
  have hcount := hrun.recorded.countP_le Action.isSync (work R b₀) _
    (fun h hg hs => Inv.step hS hR hp hb h hg.1 hg.2 hs)
    (fun h _ hs => h.work_step hS hR hs) hstart
  rw [work_initial] at hcount
  refine ⟨hinv.safe hp, hinv.complete hS hR, hinv.canGoOn hp hb, by omega, ?_⟩
  intro as' t hany
  refine ⟨?_, dropsWrongLength mc t⟩
  have hrange : t.InRange :=
    hany.inv InRange (fun h _ hs => inRange_step h hs) (fun i task ht => by cases ht)
  rintro task htask rfl
  obtain ⟨i, ht⟩ := List.mem_iff_getElem?.mp htask
  obtain ⟨quoteIds, -, hin⟩ := hrange i _ ht
  exact hin

/-- Our own quote, one of the peer that has its key image, and another one of the peer. -/
def sampleQuotes : Set Quote :=
  {q | q = sampleQuote 1 10 20 0 1 ∨ q = sampleRival 1 9 10 20 0 2 ∨ q = sampleQuote 2 10 20 0 3}

theorem sampleQuotes_genuine : Genuine sampleCore sampleQuotes where
  made := by
    rintro q (rfl | rfl | rfl)
    · exact sampleQuote_made ..
    · exact sampleRival_made ..
    · exact sampleQuote_made ..
  collisionFree := by
    rintro q q' (rfl | rfl | rfl) (rfl | rfl | rfl) <;> decide

def peerBook : InMemoryQuoteBook :=
  ((InMemoryQuoteBook.default.addQuote (sampleRival 1 9 10 20 0 2)).2.addQuote
    (sampleQuote 2 10 20 0 3)).2

theorem peerBook_subset : ∀ q ∈ peerBook.quotes, q ∈ sampleQuotes := by
  have hkeyed : peerBook.Keyed sampleQuotes :=
    (InMemoryQuoteBook.keyed_default.addQuote sampleQuotes_genuine (.inr (.inl rfl))).addQuote
      sampleQuotes_genuine (.inr (.inr rfl))
  exact fun q hq => hkeyed.subset hq

noncomputable def ownBook : NodeBook sampleSerial :=
  .inMemory (InMemoryQuoteBook.default.addQuote (sampleQuote 1 10 20 0 1)).2

theorem ownBook_writable : ownBook.Writable sampleQuotes :=
  ⟨InMemoryQuoteBook.keyed_default.addQuote sampleQuotes_genuine (.inl rfl), rfl⟩

noncomputable def syncActions : List Action :=
  [.begin (.ok (.allQuoteIds (peerBook.quotes.map Quote.id))), .spawn,
    .respond 0 (.ok (.maybeQuotes ((missing peerBook ownBook).map (answer peerBook)))),
    .next 0, .advance 0 none .none, .advance 0 none .none, .advance 0 none .none, .next 0,
    .next 0, .advance 0 none .none, .advance 0 none .none, .advance 0 none .none, .next 0,
    .next 0, .collect, .finish]

/-- The quote with our key image is a duplicate, the other one is added. -/
theorem sync_with_rival : ∃ s : PeerSync sampleSerial,
    Lts.Run (step sampleCore) (Honest peerBook) (.initial [⟨[], []⟩] ownBook) syncActions s ∧
    s.returned = some (.ok ⟨1, 1, 0, 0⟩) ∧
    s.Complete (Lts.Occurs (step sampleCore) (.initial [⟨[], []⟩] ownBook) syncActions)
      peerBook ownBook := by
  have hrun : ∃ s : PeerSync sampleSerial,
      Lts.Run (step sampleCore) (Honest peerBook) (.initial [⟨[], []⟩] ownBook) syncActions s ∧
      s.returned = some (.ok ⟨1, 1, 0, 0⟩) := by
    refine ⟨_, .cons ⟨_, rfl, rfl⟩ rfl (.cons trivial rfl (.cons ⟨_, _, rfl, rfl, rfl⟩ rfl
      (.cons trivial rfl (.cons trivial rfl (.cons trivial rfl (.cons trivial rfl
      (.cons trivial rfl (.cons trivial rfl (.cons trivial rfl (.cons trivial rfl
      (.cons trivial rfl (.cons trivial rfl (.cons trivial rfl (.cons trivial rfl
      (.cons trivial rfl (.nil _)))))))))))))))), rfl⟩
  obtain ⟨s, hrun, hr⟩ := hrun
  have hcomplete :=
    (peer_sync_complete sampleQuotes_genuine peerBook_subset rfl ownBook_writable hrun).2.1
  exact ⟨s, hrun, hr, hcomplete (by rw [hr]; rfl)⟩

end PeerSync

end Deqs.P2P
