/-
# What meetings bring

At its end a sync logs a line:

    Queried {} quotes from {}: {} added, {} duplicates, {} missing, {} errors

A chunk whose request fails counts for nothing, an answer may say that the peer does not have the
quote any longer, and `add_sci` may fail.  But where added and duplicates make up what was
queried, the sync has brought everything (`logged_sync_complete`).  So, where nothing leaves the
books, quotes pass from node to node along every chain of such syncs, and nodes that have heard of
each other in this way have the same pairs and key images on offer (`met_nodes_agree`), though
all gossip be lost.

The argument for one sync is in three parts.

* **What the peer lists** (`Covers`): its answer has the identifiers of all it has on offer at the
  time, and that is all it had before, but for what it has dropped since.
* **What is asked for**: what is listed is here already, or in one of the chunks.
* **What is counted** (`has_of_chunks`): there are no more results than identifiers, and none is
  counted without its key being known; so where the counts add up, every key is known.
-/
import Deqs.Server.Tracing

namespace Deqs.P2P.Mesh

open Sync (Ledger AddCall)

variable {n : Nat} {ser : Serial} {svc : ClientService} {validators : Fin n → SciValidator}
  {S : Set Quote} {w w' : Mesh n ser} {m : Meeting n ser} {stale : Fin n → Set Quote}
  {watched : Nat → Prop} {gone : List Quote} {K K' : Set (Pair × KeyImage)}
  {quoteIds : List QuoteId}

/-! ## What the counters say -/

theorem counts_add (t : Tally) (r : Except Error Unit) :
    (t.add r).numAddedQuotes + (t.add r).numDuplicateQuotes =
      t.numAddedQuotes + t.numDuplicateQuotes + if counted r then 1 else 0 := by
  cases r with
  | ok u => exact Nat.add_right_comm ..
  | error e =>
      cases e with
      | p2pClient e => rfl
      | p2pRpc e => rfl
      | quoteBook e =>
          cases e with
          | quoteAlreadyExists x => exact (Nat.add_assoc ..).symm
          | _ => rfl

theorem counts_foldl (results : List (Except Error Unit)) : ∀ t : Tally,
    (results.foldl Tally.add t).numAddedQuotes + (results.foldl Tally.add t).numDuplicateQuotes =
      t.numAddedQuotes + t.numDuplicateQuotes + results.countP counted := by
  induction results with
  | nil => exact fun t => rfl
  | cons r results ih =>
      intro t
      rw [List.foldl_cons, ih, counts_add, List.countP_cons]
      omega

theorem counts_tally (chunkResults : List (Option ChunkResult)) :
    (tally chunkResults).numAddedQuotes + (tally chunkResults).numDuplicateQuotes =
      (flatResults chunkResults).countP counted :=
  (counts_foldl _ _).trans (Nat.zero_add _)

theorem has_of_chunk {results : List (Except Error Unit)}
    (h : List.Forall₂ (Told S K) quoteIds results)
    (hall : quoteIds.length ≤ results.countP counted) : ∀ quoteId ∈ quoteIds, Has S K quoteId := by
  induction h with
  | nil => exact fun quoteId hin => absurd hin List.not_mem_nil
  | @cons quoteId r quoteIds results htold hrest ih =>
      have hle := List.countP_le_length (p := counted) (l := results)
      have hlen := hrest.length_eq
      rw [List.length_cons, List.countP_cons] at hall
      have hr : counted r = true := by
        by_contra hnot
        rw [if_neg hnot] at hall
        omega
      rw [if_pos hr] at hall
      rw [List.forall_mem_cons]
      exact ⟨htold hr, ih (by omega)⟩

def Collects (S : Set Quote) (K : Set (Pair × KeyImage)) (quoteIds : List QuoteId)
    (r : Option ChunkResult) : Prop :=
  ∀ results, r = some (.ok results) → List.Forall₂ (Told S K) quoteIds results

theorem flatResults_cons (r : Option ChunkResult) (chunkResults : List (Option ChunkResult)) :
    flatResults (r :: chunkResults) = flatResults [r] ++ flatResults chunkResults := by
  simp [flatResults]

theorem countP_chunk_le {r : Option ChunkResult} (h : Collects S K quoteIds r) :
    (flatResults [r]).countP counted ≤ quoteIds.length := by
  unfold flatResults
  rw [List.flatMap_singleton]
  split
  · next results =>
      rw [(h results rfl).length_eq]
      exact List.countP_le_length
  · exact Nat.zero_le _

theorem countP_le_flatten {chunks : List (List QuoteId)} {chunkResults : List (Option ChunkResult)}
    (h : List.Forall₂ (Collects S K) chunks chunkResults) :
    (flatResults chunkResults).countP counted ≤ chunks.flatten.length := by
  induction h with
  | nil => exact Nat.le_refl _
  | cons hr hrest ih =>
      rw [flatResults_cons, List.countP_append, List.flatten_cons, List.length_append]
      exact Nat.add_le_add (countP_chunk_le hr) ih

/-- **Added and duplicates make up all that was queried** only if everything is in `K`. -/
theorem has_of_chunks {chunks : List (List QuoteId)} {chunkResults : List (Option ChunkResult)}
    (h : List.Forall₂ (Collects S K) chunks chunkResults)
    (hall : chunks.flatten.length ≤ (flatResults chunkResults).countP counted) :
    ∀ quoteId ∈ chunks.flatten, Has S K quoteId := by
  induction h with
  | nil => exact fun quoteId hin => absurd hin List.not_mem_nil
  | @cons quoteIds r chunks chunkResults hr hrest ih =>
      have hle := countP_chunk_le hr
      have hle' := countP_le_flatten hrest
      rw [flatResults_cons, List.countP_append, List.flatten_cons, List.length_append] at hall
      intro quoteId hin
      rw [List.flatten_cons] at hin
      rcases List.mem_append.mp hin with hin | hin
      · have hfull : quoteIds.length ≤ (flatResults [r]).countP counted := by omega
        cases r with
        | none =>
            have hnil : quoteIds = [] := List.length_eq_zero_iff.mp (Nat.le_zero.mp hfull)
            rw [hnil] at hin
            cases hin
        | some r =>
            cases r with
            | error e =>
                have hnil : quoteIds = [] := List.length_eq_zero_iff.mp (Nat.le_zero.mp hfull)
                rw [hnil] at hin
                cases hin
            | ok results =>
                have hflat : flatResults [some (.ok results)] = results := List.flatMap_singleton ..
                rw [hflat] at hfull
                exact has_of_chunk (hr results rfl) hfull quoteId hin
      · exact ih (by omega) quoteId hin

theorem Tracked.collects (h : Tracked S K m) {chunks : List (List QuoteId)}
    (hchunks : m.sync.chunks = some chunks)
    (hlen : m.sync.chunkResults.length = chunks.length) :
    List.Forall₂ (Collects S K) chunks m.sync.chunkResults := by
  rw [List.forall₂_iff_get]
  refine ⟨hlen.symm, ?_⟩
  intro i hi hi' results hr
  have hget : m.sync.chunkResults[i]? = some (some (.ok results)) := by
    rw [List.getElem?_eq_getElem hi']
    exact congrArg some hr
  have hchunk : m.sync.chunk i = some (chunks.get ⟨i, hi⟩) := by
    rw [PeerSync.chunk, hchunks]
    exact List.getElem?_eq_getElem _
  cases h.tasks i _ (h.collected i _ hget) _ hchunk with
  | done htold => exact htold

/-! ## What a sync has to bring -/

/-- The quotes `T` of the peer are listed by its answers and asked for in the chunks, or the peer
has dropped them, or they are known. -/
structure Covers (T : Set Quote) (gone : List Quote) (K : Set (Pair × KeyImage))
    (m : Meeting n ser) : Prop where
  listed : ∀ quoteIds, (.getAllQuoteIds, .allQuoteIds quoteIds) ∈ m.responses →
    ∀ q ∈ T, q ∈ gone ∨ q.id ∈ quoteIds
  planned : ∀ chunks, m.sync.chunks = some chunks →
    ∀ q ∈ T, q ∈ gone ∨ q.key ∈ K ∨ q.id ∈ chunks.flatten

theorem Covers.mono {T : Set Quote} {gone' : List Quote} (h : Covers T gone K m)
    (hgone : gone ⊆ gone') (hK : K ⊆ K') : Covers T gone' K' m :=
  ⟨fun quoteIds hin q hq => (h.listed quoteIds hin q hq).imp_left (@hgone q),
    fun chunks hc q hq => (h.planned chunks hc q hq).imp (@hgone q) (Or.imp_left (@hK q.key))⟩

theorem Covers.begin {mc : McCore} (hS : Genuine mc S) {T : Set Quote} (hT : T ⊆ S)
    (h : Covers T gone K m) {p p' : PeerSync ser} {response : Except String Response}
    (hbook : ∀ x ∈ p.book.inner.quotes, x ∈ S ∧ x.key ∈ K)
    (hanswer : ∀ r, response = .ok r → (.getAllQuoteIds, r) ∈ m.responses)
    (hs : p.begin response = some p') : Covers T gone K { m with sync := p' } := by
  refine ⟨h.listed, ?_⟩
  intro chunks hc q hq
  obtain ⟨hnone, -, ⟨e, rfl, -⟩ | ⟨remoteQuoteIds, localQuoteIds, hremote, hlocal, rfl⟩⟩ :=
    PeerSync.begin_cases hs
  · cases hnone.symm.trans hc
  · obtain rfl := Option.some.inj hc
    have hresponse : response = .ok (.allQuoteIds remoteQuoteIds) := by
      unfold getAllQuoteIds at hremote
      split at hremote
      · obtain rfl := Except.ok.inj hremote
        rfl
      · cases hremote
      · cases hremote
      · cases hremote
    rcases h.listed _ (hanswer _ hresponse) q hq with hgone | hid
    · exact .inl hgone
    · right
      by_cases hhere : q.id ∈ localQuoteIds
      · left
        have hp : p.book.inner.poisoned = false := by
          cases hp : p.book.inner.poisoned with
          | true => simp [InMemoryQuoteBook.getQuoteIds, hp] at hlocal
          | false => rfl
        rw [getQuoteIds_all hp] at hlocal
        obtain rfl := Outcome.ok.inj hlocal
        obtain ⟨x, hx, hxid⟩ := List.mem_map.mp hhere
        obtain ⟨hxS, hxK⟩ := hbook x hx
        exact hS.key_eq_of_id hxS (hT hq) hxid ▸ hxK
      · right
        rw [Chunks.flatten_chunks (by decide), missingQuoteIds, List.mem_filter,
          OrdSet.mem_ofList OrdSet.lawfulOn_compare]
        refine ⟨hid, ?_⟩
        simpa [OrdSet.mem_ofList OrdSet.lawfulOn_compare] using hhere

/-- Since `w₀`: nothing is forgotten, and the meetings since cover what their peers had then. -/
structure Since (S : Set Quote) (stale : Fin n → Set Quote) (w₀ w : Mesh n ser) : Prop where
  sound : Sound S stale (w₀.meetings.length ≤ ·) w
  later : Later w₀ w
  length : w₀.meetings.length ≤ w.meetings.length
  covers : ∀ (j : Nat) m, w.meetings[j]? = some m → w₀.meetings.length ≤ j →
    Covers {q | q ∈ (w₀.nodes m.peer).book.inner.quotes} (w.gone m.peer) (w.known stale m.node) m

theorem Since.step (hS : Genuine svc.mc S) (hser : ser.Lossless) {w₀ : Mesh n ser}
    (h₀ : ∀ k, ∀ q ∈ (w₀.nodes k).book.inner.quotes, q ∈ S) (h : Since S stale w₀ w)
    {a : MeshAction n} (hg : Guard svc validators S w a) (hdoes : Does svc validators w a w') :
    Since S stale w₀ w' := by
  have hlater := hdoes.later
  have hold : ∀ (j : Nat) m, w.meetings[j]? = some m → w₀.meetings.length ≤ j →
      Covers {q | q ∈ (w₀.nodes m.peer).book.inner.quotes} (w'.gone m.peer)
        (w'.known stale m.node) m :=
    fun j m hm hj => (h.covers j m hm hj).mono (hlater.gone m.peer) (hlater.known m.node)
  refine ⟨h.sound.step hS hser hg hdoes, h.later.trans hlater, ?_, ?_⟩
  · cases hdoes with
    | node hs hlives => exact h.length
    | restart hs => exact (List.length_map _).symm ▸ h.length
    | meet k peer => exact Nat.le_trans h.length (by simp)
    | answer hj hr => exact (List.length_set ..).symm ▸ h.length
    | sync hj hp => exact (List.length_set ..).symm ▸ h.length
  · cases hdoes with
    | node hs hlives => exact hold
    | restart hs =>
        intro j m' hm' hj
        rw [crash, List.getElem?_map] at hm'
        obtain ⟨m, hm, rfl⟩ := Option.map_eq_some_iff.mp hm'
        have hcovers := hold j m hm hj
        split
        · exact ⟨hcovers.listed, hcovers.planned⟩
        · exact hcovers
    | meet k peer =>
        refine Lists.forall_concat hold fun _ => ⟨?_, ?_⟩
        · intro quoteIds hin
          exact absurd hin List.not_mem_nil
        · intro chunks hc
          cases hc
    | @answer j request m response hj hr =>
        refine Lists.forall_set hold fun hnew => ?_
        have hcovers := hold j m hj hnew
        refine ⟨?_, hcovers.planned⟩
        intro quoteIds hin q hq
        rcases List.mem_append.mp hin with hin | hin
        · exact hcovers.listed quoteIds hin q hq
        · obtain ⟨rfl, rfl⟩ := Prod.mk.inj (List.mem_singleton.mp hin)
          rcases h.later.remembers m.peer q (.inl hq) with hhere | hgone
          · exact .inr (mem_of_handle_getAllQuoteIds hr hhere)
          · exact .inl hgone
    | @sync j a m p hj hp =>
        refine Lists.forall_set hold fun hnew => ?_
        have hcovers := hold j m hj hnew
        rcases (frame_of_sync hp).1 with hsame | ⟨response, rfl⟩
        · refine ⟨hcovers.listed, ?_⟩
          intro chunks hc
          exact hcovers.planned chunks (hsame ▸ hc)
        · refine hcovers.begin hS (fun q hq => h₀ m.peer q hq) ?_ ?_ hp
          · intro x hx
            exact ⟨(h.sound.nodes m.node).keyed.subset hx,
              hlater.known m.node ⟨x, .inl hx, rfl⟩⟩
          · rintro r rfl
            exact hg m hj

theorem since_forget {old : Fin n → Set Quote} {watched : Nat → Prop}
    (h : Sound S old watched w) :
    Since S (fun k => {q | Stale (w.nodes k) q}) w.forget w.forget := by
  refine ⟨⟨?_, ?_⟩, .refl _, Nat.le_refl _, ?_⟩
  · intro k
    refine ⟨(h.nodes k).keyed, ?_, (h.nodes k).calls⟩
    intro r hr
    obtain ⟨q, hq, rfl, -⟩ := (h.nodes k).rows r hr
    refine ⟨q, hq, rfl, ?_⟩
    by_cases hin : q ∈ (w.nodes k).book.inner.quotes
    · exact .inl hin
    · exact .inr (.inr ⟨hr, hin⟩)
  · -- the meetings so far are not watched
    intro j m hj
    refine ((h.meetings j m hj).mono (Set.subset_univ _)).mono ?_
    intro key _ hnew
    exact absurd (List.getElem?_eq_some_iff.mp hj).1 (Nat.not_lt.mpr hnew)
  · intro j m hj hnew
    exact absurd (List.getElem?_eq_some_iff.mp hj).1 (Nat.not_lt.mpr hnew)

/-- The sync of meeting `j`, made since `w₀`, has returned, and reports as many quotes added and
duplicate as it has queried. -/
structure Reports (w₀ w : Mesh n ser) (j : Nat) (m : Meeting n ser) : Prop where
  made : w₀.meetings.length ≤ j
  meeting : w.meetings[j]? = some m
  counts : ∃ chunks t, m.sync.chunks = some chunks ∧ m.sync.returned = some (.ok t) ∧
    t.numAddedQuotes + t.numDuplicateQuotes = chunks.flatten.length

theorem Since.complete {w₀ : Mesh n ser} (h₀ : ∀ k, ∀ q ∈ (w₀.nodes k).book.inner.quotes, q ∈ S)
    (h : Since S stale w₀ w) {j : Nat} (hreports : Reports w₀ w j m) :
    ∀ q ∈ (w₀.nodes m.peer).book.inner.quotes,
      q ∈ w.gone m.peer ∨ q.key ∈ w.known stale m.node := by
  obtain ⟨hnew, hj, chunks, t, hchunks, hreturned, hall⟩ := hreports
  have hm := h.sound.meetings j m hj
  obtain ⟨rfl, chunks', hchunks', hlen⟩ := hm.returned t hreturned
  obtain rfl := Option.some.inj (hchunks.symm.trans hchunks')
  rw [counts_tally] at hall
  intro q hq
  rcases (h.covers j m hj hnew).planned chunks hchunks q hq with hgone | hkey | hid
  · exact .inl hgone
  · exact .inr hkey
  · have hhas := has_of_chunks (hm.collects hchunks hlen) hall.ge q.id hid
    exact .inr (hhas q (h₀ m.peer q hq) rfl hnew)

section Runs

variable {ledgers : Fin n → Ledger} {books : Fin n → NodeBook ser} {w₀ : Mesh n ser}
  {as bs : List (MeshAction n)}

theorem since_of_run (hS : Genuine svc.mc S) (hser : ser.Lossless) (hb : ∀ k, (books k).Empty)
    (hbefore : Lts.Run (step svc validators) (Guard svc validators S) (initial ledgers books) as w₀)
    (hrun : Lts.Run (step svc validators) (Guard svc validators S) w₀.forget bs w) :
    (∀ k, ∀ q ∈ (w₀.forget.nodes k).book.inner.quotes, q ∈ S) ∧
      Since S (fun k => {q | Stale (w₀.nodes k) q}) w₀.forget w := by
  have h₀ : Sound S (fun _ => Set.univ) (fun _ => False) w₀ :=
    hbefore.inv (Sound S (fun _ => Set.univ) fun _ => False)
      (fun h hg hs => h.step hS hser hg (does_of_step hs)) (sound_initial hb)
  have hsub : ∀ k, ∀ q ∈ (w₀.forget.nodes k).book.inner.quotes, q ∈ S :=
    fun k q hq => (h₀.nodes k).keyed.subset hq
  exact ⟨hsub, hrun.inv (Since S (fun k => {q | Stale (w₀.nodes k) q}) w₀.forget)
    (fun h hg hs => h.step hS hser hsub hg (does_of_step hs)) (since_forget h₀)⟩

/-- **The log line tells the truth.**  A sync that reports as many quotes added and duplicate as
it has queried has brought everything.  Whatever its peer had on offer before the two met, the
peer has dropped since; or the node has its key on offer, or has dropped it since; or it was in
the node's table without being in memory.  Nothing else is assumed of the run: gossip may be
lost, ledgers grow, databases fail, tasks interleave, answers arrive late or never, and nodes
restart. -/
theorem logged_sync_complete (hS : Genuine svc.mc S) (hser : ser.Lossless)
    (hb : ∀ k, (books k).Empty)
    (hbefore : Lts.Run (step svc validators) (Guard svc validators S) (initial ledgers books) as w₀)
    (hrun : Lts.Run (step svc validators) (Guard svc validators S) w₀.forget bs w) {j : Nat}
    (hreports : Reports w₀ w j m) :
    ∀ q ∈ (w₀.nodes m.peer).book.inner.quotes, q ∈ w.gone m.peer ∨
      q.key ∈ (w.nodes m.node).book.keys ∨ (∃ x ∈ w.gone m.node, x.key = q.key) ∨
      ∃ x, Stale (w₀.nodes m.node) x ∧ x.key = q.key := by
  obtain ⟨h₀, h⟩ := since_of_run hS hser hb hbefore hrun
  have hreports' : Reports w₀.forget w j m := ⟨hreports.made, hreports.meeting, hreports.counts⟩
  intro q hq
  rcases h.complete h₀ hreports' q hq with hgone | ⟨x, hx | hx | hx, hkey⟩
  · exact .inl hgone
  · exact .inr (.inl ⟨x, hx, hkey⟩)
  · exact .inr (.inr (.inl ⟨x, hx, hkey⟩))
  · exact .inr (.inr (.inr ⟨x, hx, hkey⟩))

def anyAmount : Fin n → SciValidator := fun _ => quoteMinimumValidator fun _ => none

/-- A quote is submitted at node `k`, and the gossip about it is lost. -/
def alone (k : Fin n) : List (MeshAction n) :=
  [.node k (.submit 0 (sampleSci 1 10 20 100) 7), .node k (.advance 0 none .none),
    .node k (.advance 0 none .none), .node k (.advance 0 none .none)]

/-- Node `k` meets the one that has the quote, whose first answer is lost. -/
def firstMeeting (k peer : Fin n) : List (MeshAction n) :=
  [.handleConnectionEstablished k peer, .handleRpcRequest 0 .getAllQuoteIds,
    .handleRpcRequest 0 .getAllQuoteIds,
    .sync 0 (.begin (.ok (.allQuoteIds [(sampleQuote 1 10 20 100 7).id]))), .sync 0 .spawn,
    .handleRpcRequest 0 (.getQuotesById [(sampleQuote 1 10 20 100 7).id]),
    .sync 0 (.respond 0 (.ok (.maybeQuotes [.ok (some (sampleQuote 1 10 20 100 7))]))),
    .sync 0 (.next 0), .sync 0 (.advance 0 none .none), .sync 0 (.advance 0 none .none),
    .sync 0 (.advance 0 none .none), .sync 0 (.next 0), .sync 0 (.next 0), .sync 0 .collect,
    .sync 0 .finish]

/-- The other way round there is nothing new. -/
def secondMeeting (k peer : Fin n) : List (MeshAction n) :=
  [.handleConnectionEstablished k peer, .handleRpcRequest 1 .getAllQuoteIds,
    .sync 1 (.begin (.ok (.allQuoteIds [(sampleQuote 1 10 20 100 7).id]))), .sync 1 .finish]

theorem meetings_run : ∃ w₀ w₁ w : Mesh 2 sampleSerial,
    Lts.Run (step ClientService.sampleService anyAmount)
      (Guard ClientService.sampleService anyAmount Network.contenders)
      (initial (fun _ => [⟨[], []⟩]) fun _ => .inMemory .default) (alone 0) w₀ ∧
    Lts.Run (step ClientService.sampleService anyAmount)
      (Guard ClientService.sampleService anyAmount Network.contenders) w₀.forget
      (firstMeeting 1 0) w₁ ∧
    Lts.Run (step ClientService.sampleService anyAmount)
      (Guard ClientService.sampleService anyAmount Network.contenders) w₁
      (secondMeeting 0 1) w ∧
    (∃ m, Reports w₀ w₁ 0 m ∧ m.peer = 0 ∧ m.node = 1) ∧
    (∃ m, Reports w₁ w 1 m ∧ m.peer = 1 ∧ m.node = 0) ∧
    (w₀.nodes 0).book.inner.quotes = [sampleQuote 1 10 20 100 7] ∧
    (∀ k, (w.nodes k).book.inner.quotes = [sampleQuote 1 10 20 100 7]) ∧
    (∀ k, w₁.gone k = [] ∧ w.gone k = []) ∧ ∀ k q, ¬ Stale (w₀.nodes k) q := by
  refine ⟨_, _, _, .cons ?_ rfl (.cons trivial rfl (.cons trivial rfl (.cons trivial rfl
      (.nil _)))),
    .cons trivial rfl (.cons trivial rfl (.cons trivial rfl (.cons ?_ rfl (.cons trivial rfl
      (.cons trivial rfl (.cons ?_ rfl (.cons trivial rfl (.cons trivial rfl (.cons trivial rfl
      (.cons trivial rfl (.cons trivial rfl (.cons trivial rfl (.cons trivial rfl
      (.cons trivial rfl (.nil _))))))))))))))),
    .cons trivial rfl (.cons trivial rfl (.cons ?_ rfl (.cons trivial rfl (.nil _)))),
    ⟨_, ⟨Nat.le_refl _, rfl, _, _, rfl, rfl, rfl⟩, rfl, rfl⟩,
    ⟨_, ⟨Nat.le_refl _, rfl, _, _, rfl, rfl, rfl⟩, rfl, rfl⟩, rfl, ?_, ?_, ?_⟩
  · rintro q ⟨⟩
    exact .inl rfl
  · rintro m ⟨⟩
    exact List.mem_cons_self
  · rintro m quoteIds ⟨⟩ ⟨⟩
    exact List.mem_of_getElem? (i := 2) rfl
  · rintro m ⟨⟩
    exact List.mem_cons_self
  · exact Fin.forall_fin_two.mpr ⟨rfl, rfl⟩
  · exact Fin.forall_fin_two.mpr ⟨⟨rfl, rfl⟩, rfl, rfl⟩
  · exact Fin.forall_fin_two.mpr ⟨fun q h => absurd h.1 List.not_mem_nil,
      fun q h => absurd h.1 List.not_mem_nil⟩

theorem logged_sync_complete_first : ∃ w₀ w : Mesh 2 sampleSerial,
    Lts.Run (step ClientService.sampleService anyAmount)
      (Guard ClientService.sampleService anyAmount Network.contenders)
      (initial (fun _ => [⟨[], []⟩]) fun _ => .inMemory .default) (alone 0) w₀ ∧
    Lts.Run (step ClientService.sampleService anyAmount)
      (Guard ClientService.sampleService anyAmount Network.contenders) w₀.forget
      (firstMeeting 1 0) w ∧
    (sampleQuote 1 10 20 100 7).key ∈ (w.nodes 1).book.keys := by
  obtain ⟨w₀, w₁, w, hbefore, hfirst, -, ⟨m, hreports, hpeer, hnode⟩, -, hquotes, -, hkept,
    hstale⟩ := meetings_run
  have hempty : (NodeBook.inMemory .default : NodeBook sampleSerial).Empty := rfl
  have hcomplete := logged_sync_complete Network.contenders_genuine sampleSerial_lossless
    (fun _ => hempty) hbefore hfirst hreports
  rw [hpeer, hnode, hquotes] at hcomplete
  rcases hcomplete _ List.mem_cons_self with hgone | hkey | ⟨x, hgone, -⟩ | ⟨x, hx, -⟩
  · rw [(hkept 0).1] at hgone
    exact absurd hgone List.not_mem_nil
  · exact ⟨w₀, w₁, hbefore, hfirst, hkey⟩
  · rw [(hkept 1).1] at hgone
    exact absurd hgone List.not_mem_nil
  · exact absurd hx (hstale 1 x)

/-! ## From node to node -/

/-- What node `k` had on offer in `w₀` has been passed on to node `m` by the time of `w`, in one
sync after the other. -/
inductive Heard (svc : ClientService) (validators : Fin n → SciValidator) (S : Set Quote)
    (w₀ : Mesh n ser) (k : Fin n) : Mesh n ser → Fin n → Prop
  | start : Heard svc validators S w₀ k w₀ k
  | wait {w w' : Mesh n ser} {m : Fin n} {bs : List (MeshAction n)}
      (h : Heard svc validators S w₀ k w m)
      (hrun : Lts.Run (step svc validators) (Guard svc validators S) w bs w') :
      Heard svc validators S w₀ k w' m
  | sync {w w' : Mesh n ser} {bs : List (MeshAction n)} {j : Nat} {meeting : Meeting n ser}
      (h : Heard svc validators S w₀ k w meeting.peer)
      (hrun : Lts.Run (step svc validators) (Guard svc validators S) w bs w')
      (hreports : Reports w w' j meeting) : Heard svc validators S w₀ k w' meeting.node

theorem later_of_run (hrun : Lts.Run (step svc validators) (Guard svc validators S) w bs w') :
    Later w w' :=
  hrun.inv (Later w) (fun h _ hs => h.trans (does_of_step hs).later) (.refl w)

/-- Where nothing has left, there are no stale rows either. -/
theorem Sound.not_stale (hser : ser.Lossless) (h : Sound S (fun _ => ∅) watched w)
    (hkept : ∀ k, w.gone k = []) (k : Fin n) (q : Quote) : ¬ Stale (w.nodes k) q := by
  rintro ⟨hrow, hnot⟩
  obtain ⟨x, -, heq, hin | hin | hin⟩ := (h.nodes k).rows _ hrow
  · exact hnot (Row.ofQuote_injective hser heq ▸ hin)
  · rw [hkept k] at hin
    exact absurd hin List.not_mem_nil
  · exact absurd hin (Set.notMem_empty x)

/-- **One sync**, where nothing leaves: the node gets the keys of its peer. -/
theorem Sound.keys_subset (hS : Genuine svc.mc S) (hser : ser.Lossless)
    (h : Sound S (fun _ => ∅) watched w)
    (hrun : Lts.Run (Mesh.step svc validators) (Guard svc validators S) w bs w')
    (hkept : ∀ k, w'.gone k = []) {j : Nat} (hreports : Reports w w' j m) :
    (w.nodes m.peer).book.keys ⊆ (w'.nodes m.node).book.keys := by
  have hkept₀ : ∀ k, w.gone k = [] :=
    fun k => List.subset_nil.mp (hkept k ▸ (later_of_run hrun).gone k)
  have hforget : w.forget = w := by
    have hgone : w.gone = fun _ => [] := funext hkept₀
    rw [forget, ← hgone]
  have hsince := since_forget h
  rw [hforget] at hsince
  have hsub : ∀ k, ∀ q ∈ (w.nodes k).book.inner.quotes, q ∈ S :=
    fun k q hq => (h.nodes k).keyed.subset hq
  have hsince' := hrun.inv (Since S (fun k => {q | Stale (w.nodes k) q}) w)
    (fun h hg hs => h.step hS hser hsub hg (does_of_step hs)) hsince
  rintro key ⟨q, hq, rfl⟩
  rcases hsince'.complete hsub hreports q hq with hgone | ⟨x, hx | hx | hx, hkey⟩
  · rw [hkept] at hgone
    exact absurd hgone List.not_mem_nil
  · exact ⟨x, hx, hkey⟩
  · rw [hkept] at hx
    exact absurd hx List.not_mem_nil
  · exact absurd hx (h.not_stale hser hkept₀ m.node x)

/-- **From sync to sync.** -/
theorem keys_of_heard (hS : Genuine svc.mc S) (hser : ser.Lossless)
    (h₀ : Sound S (fun _ => ∅) watched w₀) {k p : Fin n} (h : Heard svc validators S w₀ k w p) :
    Sound S (fun _ => ∅) watched w ∧ ((∀ k, w.gone k = []) →
      (w₀.nodes k).book.keys ⊆ (w.nodes p).book.keys) := by
  have hsound : ∀ {w w' : Mesh n ser} {bs}, Sound S (fun _ => ∅) watched w →
      Lts.Run (step svc validators) (Guard svc validators S) w bs w' →
      Sound S (fun _ => ∅) watched w' := fun h hrun =>
    hrun.inv (Sound S (fun _ => ∅) watched) (fun h hg hs => h.step hS hser hg (does_of_step hs)) h
  have hbefore : ∀ {w w' : Mesh n ser} {bs},
      Lts.Run (step svc validators) (Guard svc validators S) w bs w' →
      (∀ k, w'.gone k = []) → ∀ k, w.gone k = [] := fun hrun hkept k =>
    List.subset_nil.mp (hkept k ▸ (later_of_run hrun).gone k)
  induction h with
  | start => exact ⟨h₀, fun _ => Set.Subset.rfl⟩
  | @wait w w' m bs h hrun ih =>
      refine ⟨hsound ih.1 hrun, fun hkept => (ih.2 (hbefore hrun hkept)).trans ?_⟩
      rintro key ⟨q, hq, rfl⟩
      rcases (later_of_run hrun).remembers m q (.inl hq) with hin | hgone
      · exact ⟨q, hin, rfl⟩
      · rw [hkept] at hgone
        exact absurd hgone List.not_mem_nil
  | sync h hrun hreports ih =>
      exact ⟨hsound ih.1 hrun, fun hkept => (ih.2 (hbefore hrun hkept)).trans
        (ih.1.keys_subset hS hser hrun hkept hreports)⟩

/-- **Nodes that meet agree, though all gossip is lost.**  If from some time on nothing leaves
the books, nothing new comes, and what each node had has been passed on to each other one in a
chain of syncs whose log lines add up, then all have the same pairs and key images on offer. -/
theorem met_nodes_agree (hS : Genuine svc.mc S) (hser : ser.Lossless) (hb : ∀ k, (books k).Empty)
    (hbefore : Lts.Run (step svc validators) (Guard svc validators S) (initial ledgers books) as w₀)
    (hstale : ∀ k q, ¬ Stale (w₀.nodes k) q) (hkept : ∀ k, w.gone k = [])
    (hold : ∀ k, ∀ key ∈ (w.nodes k).book.keys, ∃ p, key ∈ (w₀.nodes p).book.keys)
    (hheard : ∀ k p, Heard svc validators S w₀.forget k w p) (k p : Fin n) :
    (w.nodes k).book.keys = (w.nodes p).book.keys := by
  obtain ⟨-, hsince⟩ := since_of_run hS hser hb hbefore (.nil w₀.forget)
  have hnone : (fun k => {q | Stale (w₀.nodes k) q}) = fun _ => (∅ : Set Quote) := by
    funext k
    exact Set.eq_empty_iff_forall_notMem.mpr (hstale k)
  rw [hnone] at hsince
  have hsub : ∀ k p, (w.nodes k).book.keys ⊆ (w.nodes p).book.keys := by
    intro k p key hkey
    obtain ⟨o, ho⟩ := hold k key hkey
    exact (keys_of_heard hS hser hsince.sound (hheard o p)).2 hkept ho
  exact Set.Subset.antisymm (hsub k p) (hsub p k)

theorem met_nodes_agree_two : ∃ w₀ w : Mesh 2 sampleSerial,
    Lts.Run (step ClientService.sampleService anyAmount)
      (Guard ClientService.sampleService anyAmount Network.contenders) w₀.forget
      (firstMeeting 1 0 ++ secondMeeting 0 1) w ∧
    (w.nodes 0).book.keys = (w.nodes 1).book.keys ∧
      (sampleQuote 1 10 20 100 7).key ∈ (w.nodes 0).book.keys := by
  obtain ⟨w₀, w₁, w, hbefore, hfirst, hsecond, ⟨m, hreports, hpeer, hnode⟩,
    ⟨m', hreports', hpeer', hnode'⟩, hquotes₀, hquotes, hkept, hstale⟩ := meetings_run
  have hempty : (NodeBook.inMemory .default : NodeBook sampleSerial).Empty := rfl
  have hstart : Reports w₀.forget w₁ 0 m := ⟨hreports.made, hreports.meeting, hreports.counts⟩
  have hself : ∀ k,
      Heard ClientService.sampleService anyAmount Network.contenders w₀.forget k w k := fun k =>
    .wait (.wait .start hfirst) hsecond
  have hto : Heard ClientService.sampleService anyAmount Network.contenders w₀.forget 0 w 1 :=
    .wait (hnode ▸ .sync (hpeer ▸ .start) hfirst hstart) hsecond
  have hfro : Heard ClientService.sampleService anyAmount Network.contenders w₀.forget 1 w 0 :=
    hnode' ▸ .sync (hpeer' ▸ .wait .start hfirst) hsecond hreports'
  have hkey : (sampleQuote 1 10 20 100 7).key ∈ (w.nodes 0).book.keys :=
    ⟨_, hquotes 0 ▸ List.mem_cons_self, rfl⟩
  refine ⟨w₀, w, hfirst.append hsecond, ?_, hkey⟩
  refine met_nodes_agree Network.contenders_genuine sampleSerial_lossless (fun _ => hempty) hbefore
    hstale (fun k => (hkept k).2) ?_ ?_ 0 1
  · rintro k key ⟨q, hq, rfl⟩
    rw [hquotes k] at hq
    exact ⟨0, q, hquotes₀ ▸ hq, rfl⟩
  · exact Fin.forall_fin_two.mpr ⟨Fin.forall_fin_two.mpr ⟨hself 0, hto⟩,
      Fin.forall_fin_two.mpr ⟨hfro, hself 1⟩⟩

end Runs

end Deqs.P2P.Mesh
