/-
# Nodes that meet — the syncs, followed

A sync of `Mesh` runs over a book that others change under it, and with answers that were given
from another such book.  What it has found out nevertheless stays true, if it is said of what a
node has or has had.  Of a task in the middle of its chunk, `Traces` says

    quoteIds = processed ++ [quoteId] ++ todo

with a result for each of `processed`, a call about `quoteId`, and an answer for each of `todo`.
A result that is counted as added or duplicate says that the key is there (`Told`), or was, or
that its row is stale.

`Tracked` says so of each task of a meeting, and `Sound` of every meeting that is watched, next to
what is known of the nodes (`Stocked`); every step of the mesh keeps it (`Sound.step`).
-/
import Deqs.Server.Mesh

namespace Deqs

open Sync (Ledger AddCall)

namespace P2P.Mesh

variable {n : Nat} {ser : Serial} {svc : ClientService} {validators : Fin n → SciValidator}
  {S : Set Quote} {w w' : Mesh n ser} {s s' : Node ser} {k : Fin n}
  {stale : Fin n → Set Quote} {gone : List Quote} {old : Set Quote}

/-! ## The syncs -/

def counted : Except Error Unit → Bool
  | .ok () => true
  | .error (.quoteBook (.quoteAlreadyExists _)) => true
  | _ => false

/-- The answer for an identifier is about it. -/
def Answers (S : Set Quote) (quoteId : QuoteId) (maybeQuote : MaybeQuote) : Prop :=
  ∀ q, maybeQuote = .ok (some q) → q ∈ S ∧ q.id = quoteId

/-- A quote with this identifier has its key in `K`. -/
def Has (S : Set Quote) (K : Set (Pair × KeyImage)) (quoteId : QuoteId) : Prop :=
  ∀ q ∈ S, q.id = quoteId → q.key ∈ K

def Told (S : Set Quote) (K : Set (Pair × KeyImage)) (quoteId : QuoteId) (r : Except Error Unit) :
    Prop :=
  counted r = true → Has S K quoteId

/-- Where a task is in its chunk, when the answers it gets are about what it asks for: there is a
result for what it has processed, a call for one identifier at most, and an answer for each one
to come. -/
inductive Traces (S : Set Quote) (K : Set (Pair × KeyImage)) (quoteIds : List QuoteId) :
    ChunkTask → Prop
  | waiting : Traces S K quoteIds .waiting
  | idle {processed todo : List QuoteId} {results : List (Except Error Unit)}
      {rest : List MaybeQuote} (hids : quoteIds = processed ++ todo)
      (htold : List.Forall₂ (Told S K) processed results)
      (hrest : List.Forall₂ (Answers S) todo rest) :
      Traces S K quoteIds (.adding rest .idle results)
  | calling {processed todo : List QuoteId} {quoteId : QuoteId}
      {results : List (Except Error Unit)} {rest : List MaybeQuote} {call : AddCall}
      (hids : quoteIds = processed ++ quoteId :: todo)
      (htold : List.Forall₂ (Told S K) processed results)
      (hrest : List.Forall₂ (Answers S) todo rest) (hbusy : call ≠ .idle)
      (hcall : ∀ q, call.quote? = some q → q ∈ S ∧ q.id = quoteId)
      (hdone : ∀ outcome, call = .done outcome → NodeBook.Taken outcome → Has S K quoteId) :
      Traces S K quoteIds (.adding rest call results)
  | done {results : List (Except Error Unit)} (htold : List.Forall₂ (Told S K) quoteIds results) :
      Traces S K quoteIds (.done (.ok results))
  | failed (e : Error) : Traces S K quoteIds (.done (.error e))
  | panicked (m : String) : Traces S K quoteIds (.panicked m)
  | outOfRange : Traces S K quoteIds .outOfRange

variable {K K' : Set (Pair × KeyImage)} {quoteIds : List QuoteId} {task task' : ChunkTask}

theorem Told.mono (hK : K ⊆ K') {quoteId : QuoteId} {r : Except Error Unit}
    (h : Told S K quoteId r) : Told S K' quoteId r :=
  fun hr q hq hid => hK (h hr q hq hid)

theorem Traces.mono (hK : K ⊆ K') (h : Traces S K quoteIds task) : Traces S K' quoteIds task := by
  have hmono : ∀ {ids results}, List.Forall₂ (Told S K) ids results →
      List.Forall₂ (Told S K') ids results := fun h => h.imp fun _ _ => Told.mono hK
  cases h with
  | waiting => exact .waiting
  | idle hids htold hrest => exact .idle hids (hmono htold) hrest
  | calling hids htold hrest hbusy hcall hdone =>
      exact .calling hids (hmono htold) hrest hbusy hcall
        fun outcome ho ht q hq hid => hK (hdone outcome ho ht q hq hid)
  | done htold => exact .done (hmono htold)
  | failed e => exact .failed e
  | panicked m => exact .panicked m
  | outOfRange => exact .outOfRange

theorem Traces.respond {response : Except String Response}
    (hanswers : ∀ quotes, response = .ok (.maybeQuotes quotes) →
      List.Forall₂ (Answers S) quoteIds quotes)
    (hs : ChunkTask.respond quoteIds response task = some task') : Traces S K quoteIds task' := by
  obtain ⟨-, ⟨e, -, rfl⟩ | ⟨quotes, hquotes, rfl⟩⟩ := ChunkTask.respond_cases hs
  · exact .failed e
  · have hids : quoteIds = [] ++ quoteIds := rfl
    refine .idle hids .nil (hanswers quotes ?_)
    unfold getQuotesById at hquotes
    split at hquotes
    · split at hquotes
      · exact congrArg _ (congrArg _ (Except.ok.inj hquotes))
      · cases hquotes
    · cases hquotes
    · cases hquotes
    · cases hquotes

theorem counted_of_resultOf {outcome : Outcome Deqs.Error Unit} {r : Except Error Unit}
    (h : ChunkTask.resultOf outcome = some r) (hc : counted r = true) : NodeBook.Taken outcome := by
  cases outcome with
  | ok u => exact .inl rfl
  | panic m => cases h
  | err e =>
      obtain rfl := Option.some.inj h
      cases e with
      | quoteAlreadyExists x => exact .inr ⟨x, rfl⟩
      | _ => cases hc

theorem not_counted_of_unanswered {maybeQuote : MaybeQuote} {r : Except Error Unit}
    (h : ChunkTask.unansweredResult maybeQuote = some r) : counted r = false := by
  cases maybeQuote with
  | error e => exact Option.some.inj h ▸ rfl
  | ok found =>
      cases found with
      | none => exact Option.some.inj h ▸ rfl
      | some q => cases h

theorem Traces.next {mc : McCore} (hS : Genuine mc S) (h : Traces S K quoteIds task)
    (hs : ChunkTask.next mc quoteIds task = some task') : Traces S K quoteIds task' := by
  have hone : ∀ {quoteId r}, Told S K quoteId r → List.Forall₂ (Told S K) [quoteId] [r] :=
    fun h => .cons h .nil
  rcases ChunkTask.next_cases hs with ⟨results, rfl, rfl⟩ |
    ⟨maybeQuote, rest, results, rfl, -, rfl⟩ | ⟨quote, rest, results, rfl, rfl⟩ |
    ⟨maybeQuote, rest, results, r, rfl, hr, rfl⟩ | ⟨rest, outcome, results, r, rfl, hr, rfl⟩ |
    ⟨rest, m, results, rfl, rfl⟩
  · cases h with
    | idle hids htold hrest =>
        cases hrest
        rw [List.append_nil] at hids
        exact .done (hids ▸ htold)
    | calling hids htold hrest hbusy hcall hdone => exact absurd rfl hbusy
  · exact .outOfRange
  · cases h with
    | calling hids htold hrest hbusy hcall hdone => exact absurd rfl hbusy
    | idle hids htold hrest =>
        cases hrest with
        | cons hanswer hrest =>
            obtain ⟨hquote, hid⟩ := hanswer quote rfl
            have hoffer : peerOffer mc quote = .ok quote := (hS.made hquote).new_eq.2 none
            rw [hoffer]
            refine .calling hids htold hrest (by simp [AddCall.ofOffer]) ?_ ?_
            · rintro q ⟨⟩
              exact ⟨hquote, hid⟩
            · rintro outcome ⟨⟩
  · cases h with
    | calling hids htold hrest hbusy hcall hdone => exact absurd rfl hbusy
    | idle hids htold hrest =>
        cases hrest with
        | cons hanswer hrest =>
            refine .idle (hids.trans (List.append_cons ..)) (List.rel_append htold (hone ?_)) hrest
            intro hc
            rw [not_counted_of_unanswered hr] at hc
            cases hc
  · cases h with
    | calling hids htold hrest hbusy hcall hdone =>
        refine .idle (hids.trans (List.append_cons ..)) (List.rel_append htold (hone ?_)) hrest
        exact fun hc => hdone outcome rfl (counted_of_resultOf hr hc)
  · exact .panicked m

theorem Traces.check {ledger : Ledger} {fault : Option String} {rest : List MaybeQuote}
    {call call' : AddCall} {results : List (Except Error Unit)}
    (h : Traces S K quoteIds (.adding rest call results))
    (hnext : call.next ledger fault = some call') :
    Traces S K quoteIds (.adding rest call' results) := by
  cases h with
  | idle hids htold hrest => cases hnext
  | calling hids htold hrest hbusy hcall hdone =>
      refine .calling hids htold hrest ?_ ?_ ?_
      · rintro rfl
        rcases AddCall.next_cases hnext with ⟨e, h⟩ | ⟨q, -, h, -⟩ | ⟨q, c, -, h, -⟩ |
          ⟨q, c, i, txOut, rest, -, h, -⟩
        · cases h
        · cases h
        · cases h
        · cases h
      · exact fun q hq => hcall q (AddCall.quote?_next hnext hq)
      · rintro outcome rfl ht
        exact absurd ht (AddCall.next_ne_taken hnext)

theorem Traces.insert {rest : List MaybeQuote} {quote : Quote} {c : BlockIndex}
    {results : List (Except Error Unit)} {outcome : Outcome Deqs.Error Unit}
    (h : Traces S K quoteIds (.adding rest (.checkingRing quote c []) results)) (hK : K ⊆ K')
    (hkey : NodeBook.Taken outcome → Has S K' quote.id) :
    Traces S K' quoteIds (.adding rest (.done outcome) results) := by
  cases h with
  | calling hids htold hrest hbusy hcall hdone =>
      obtain ⟨-, rfl⟩ := hcall quote rfl
      refine .calling hids (htold.imp fun _ _ => Told.mono hK) hrest (by simp)
        (fun q hq => by cases hq) ?_
      rintro _ ⟨⟩ ht
      exact hkey ht

/-- What is known of a meeting, `K` being what its node has or has had. -/
structure Tracked (S : Set Quote) (K : Set (Pair × KeyImage)) (m : Meeting n ser) : Prop where
  answers : ∀ quoteIds quotes, (.getQuotesById quoteIds, .maybeQuotes quotes) ∈ m.responses →
    List.Forall₂ (Answers S) quoteIds quotes
  fresh : m.sync.chunks = none → m.sync.tasks = []
  bounded : ∀ chunks, m.sync.chunks = some chunks → m.sync.tasks.length ≤ chunks.length
  tasks : ∀ (i : Nat) task, m.sync.tasks[i]? = some task →
    ∀ quoteIds, m.sync.chunk i = some quoteIds → Traces S K quoteIds task
  collected : ∀ (i : Nat) r, m.sync.chunkResults[i]? = some (some r) →
    m.sync.tasks[i]? = some (.done r)
  returned : ∀ t, m.sync.returned = some (.ok t) → t = tally m.sync.chunkResults ∧
    ∃ chunks, m.sync.chunks = some chunks ∧ m.sync.chunkResults.length = chunks.length

variable {m : Meeting n ser}

theorem Tracked.mono (hK : K ⊆ K') (h : Tracked S K m) : Tracked S K' m :=
  ⟨h.answers, h.fresh, h.bounded,
    fun i task ht quoteIds hc => (h.tasks i task ht quoteIds hc).mono hK, h.collected, h.returned⟩

theorem Tracked.mem_of_adding (h : Tracked S K m) {i : Nat} {rest : List MaybeQuote}
    {call : AddCall} {results : List (Except Error Unit)} {q : Quote}
    (htask : m.sync.tasks[i]? = some (.adding rest call results)) (hq : call.quote? = some q) :
    q ∈ S := by
  obtain ⟨hlt, -⟩ := List.getElem?_eq_some_iff.mp htask
  cases hc : m.sync.chunks with
  | none =>
      rw [h.fresh hc] at htask
      cases htask
  | some chunks =>
      have hlt' := Nat.lt_of_lt_of_le hlt (h.bounded chunks hc)
      have hchunk : m.sync.chunk i = some (chunks.get ⟨i, hlt'⟩) := by
        rw [PeerSync.chunk, hc]
        exact List.getElem?_eq_getElem _
      cases h.tasks i _ htask _ hchunk with
      | idle hids htold hrest => cases hq
      | calling hids htold hrest hbusy hcall hdone => exact (hcall q hq).1

theorem Tracked.setTask (hK : K ⊆ K') (h : Tracked S K m) {i : Nat} {p : PeerSync ser}
    (htask : m.sync.tasks[i]? = some task) (hrunning : ∀ r, task ≠ .done r)
    (htasks : p.tasks = m.sync.tasks.set i task') (hchunks : p.chunks = m.sync.chunks)
    (hresults : p.chunkResults = m.sync.chunkResults) (hreturned : p.returned = m.sync.returned)
    (htraces : ∀ quoteIds, m.sync.chunk i = some quoteIds → Traces S K quoteIds task →
      Traces S K' quoteIds task') : Tracked S K' { m with sync := p } := by
  have hchunk : p.chunk = m.sync.chunk := by
    funext j
    rw [PeerSync.chunk, PeerSync.chunk, hchunks]
  refine ⟨h.answers, ?_, ?_, ?_, ?_, ?_⟩
  · intro hnone
    rw [hchunks] at hnone
    rw [h.fresh hnone] at htask
    cases htask
  · intro chunks hc
    rw [hchunks] at hc
    rw [htasks, List.length_set]
    exact h.bounded chunks hc
  · show ∀ (j : Nat) t, p.tasks[j]? = some t → _
    rw [hchunk, htasks]
    refine Lists.forall_set (fun j t ht quoteIds hc => (h.tasks j t ht quoteIds hc).mono hK) ?_
    exact fun quoteIds hc => htraces quoteIds hc (h.tasks i task htask quoteIds hc)
  · intro j r hr
    rw [hresults] at hr
    have hdone := h.collected j r hr
    have hne : i ≠ j := by
      rintro rfl
      exact hrunning r (Option.some.inj (htask.symm.trans hdone))
    rw [htasks, List.getElem?_set_ne hne]
    exact hdone
  · intro t ht
    rw [hreturned] at ht
    rw [hresults, hchunks]
    exact h.returned t ht

/-! A sync goes on with the book and the ledger its node has now, and with its own tasks and
results (`now`). -/

theorem Tracked.begin (h : Tracked S K m) {response : Except String Response} {p : PeerSync ser}
    (hs : (w.now m).step svc.mc (.begin response) = some p) : Tracked S K { m with sync := p } := by
  obtain ⟨hnone, -, ⟨e, rfl, -⟩ | ⟨remoteQuoteIds, localQuoteIds, -, -, rfl⟩⟩ :=
    PeerSync.begin_cases hs
  · refine ⟨h.answers, h.fresh, h.bounded, h.tasks, h.collected, ?_⟩
    intro t ht
    cases ht
  · have hnil := h.fresh hnone
    refine ⟨h.answers, by simp, ?_, ?_, h.collected, ?_⟩
    · intro chunks _
      show m.sync.tasks.length ≤ _
      rw [hnil]
      exact Nat.zero_le _
    · intro i task ht
      have ht' : m.sync.tasks[i]? = some task := ht
      rw [hnil] at ht'
      cases ht'
    · intro t ht
      obtain ⟨-, chunks, hc, -⟩ := h.returned t ht
      cases hnone.symm.trans hc

theorem Tracked.spawn (h : Tracked S K m) {p : PeerSync ser}
    (hs : (w.now m).step svc.mc .spawn = some p) : Tracked S K { m with sync := p } := by
  obtain ⟨quoteIds, hchunk, -, rfl⟩ := PeerSync.spawn_cases hs
  refine ⟨h.answers, ?_, ?_, ?_, ?_, h.returned⟩
  · intro hnone
    have hnone' : m.sync.chunks = none := hnone
    simp [PeerSync.chunk, now, hnone'] at hchunk
  · intro chunks hc
    have hc' : m.sync.chunks = some chunks := hc
    simp only [PeerSync.chunk, now, hc', Option.bind_some] at hchunk
    have hlt := (List.getElem?_eq_some_iff.mp hchunk).1
    show (m.sync.tasks ++ [ChunkTask.waiting]).length ≤ chunks.length
    rw [List.length_append]
    exact hlt
  · exact Lists.forall_concat h.tasks fun _ _ => .waiting
  · intro i r hr
    have hdone := h.collected i r hr
    exact List.getElem?_append_left (List.getElem?_eq_some_iff.mp hdone).1 ▸ hdone

/-- While a task is still to be collected, the sync has not returned. -/
theorem Tracked.not_returned (h : Tracked S K m)
    (htask : m.sync.tasks[m.sync.chunkResults.length]? = some task) (t : Tally) :
    m.sync.returned ≠ some (.ok t) := by
  intro hr
  obtain ⟨-, chunks, hc, hlen⟩ := h.returned t hr
  have hlt := (List.getElem?_eq_some_iff.mp htask).1
  have hle := h.bounded chunks hc
  omega

theorem Tracked.collect (h : Tracked S K m) {p : PeerSync ser}
    (hs : (w.now m).step svc.mc .collect = some p) : Tracked S K { m with sync := p } := by
  have hcollected : ∀ {last : Option ChunkResult}, (∀ r, last = some r →
      m.sync.tasks[m.sync.chunkResults.length]? = some (.done r)) → ∀ (i : Nat) r,
      (m.sync.chunkResults ++ [last])[i]? = some (some r) →
        m.sync.tasks[i]? = some (.done r) := by
    intro last hlast i r hr
    exact Lists.forall_concat (P := fun i r' => ∀ r, r' = some r →
      m.sync.tasks[i]? = some (.done r)) (fun i r' hr r heq => h.collected i r (heq ▸ hr))
      hlast i _ hr r rfl
  rcases PeerSync.collect_cases hs with ⟨r, ht, rfl⟩ | ⟨ht, rfl⟩
  · exact ⟨h.answers, h.fresh, h.bounded, h.tasks,
      hcollected fun r' heq => Option.some.inj heq ▸ ht,
      fun t hr => absurd hr (h.not_returned ht t)⟩
  · refine ⟨h.answers, h.fresh, h.bounded, h.tasks, hcollected (fun r' heq => by cases heq), ?_⟩
    intro t hr
    rcases ht with ht | ⟨msg, ht⟩
    · exact absurd hr (h.not_returned ht t)
    · exact absurd hr (h.not_returned ht t)

theorem known_resume (w : Mesh n ser) (j : Nat) (m : Meeting n ser) (p : PeerSync ser)
    (k : Fin n) : w.known stale k ⊆ (w.resume j m p).known stale k :=
  ((later_setNode w m.node { w.nodes m.node with book := p.book }).known k).trans_eq rfl

theorem has_of_taken (hS : Genuine svc.mc S) {faults : Faults} {quote : Quote}
    (hstock : Stocked S (w.gone k) (stale k) (w.nodes k)) (hquote : quote ∈ S)
    (ht : NodeBook.Taken ((w.nodes k).book.addQuote faults quote).1) :
    Has S ((w.setNode k { w.nodes k with
      book := ((w.nodes k).book.addQuote faults quote).2 }).known stale k) quote.id := by
  intro q hq hid
  rw [hS.key_eq_of_id hq hquote hid]
  have hlater := later_setNode w k { w.nodes k with
    book := ((w.nodes k).book.addQuote faults quote).2 }
  rcases (NodeBook.leaves_addQuote hS hstock.keyed faults hquote).taken ht with
    ⟨x, hx, hkey⟩ | hrow
  · refine ⟨x, .inl ?_, hkey⟩
    simp only [setNode, Function.update_self]
    exact hx
  · -- a row with the identifier is that of a quote that was in memory, or is stale
    obtain ⟨r, hr, hrid⟩ := List.mem_map.mp hrow
    obtain ⟨x, hx, rfl, hin⟩ := hstock.rows r hr
    have hxid : x.id = quote.id := Row.ofQuote_id_eq_iff.mp hrid
    exact hlater.known k ⟨x, hin, hS.key_eq_of_id hx hquote hxid⟩

/-- What the meetings are to tell of: all of them of anything, and those that are watched of
what their node knows. -/
def scope (w : Mesh n ser) (stale : Fin n → Set Quote) (watched : Nat → Prop) (j : Nat)
    (k : Fin n) : Set (Pair × KeyImage) :=
  {key | watched j → key ∈ w.known stale k}

variable {watched : Nat → Prop}

theorem Later.scope (h : Later w w') (j : Nat) (k : Fin n) :
    w.scope stale watched j k ⊆ w'.scope stale watched j k :=
  fun _ hkey hj => h.known k (hkey hj)

theorem Tracked.sync (hS : Genuine svc.mc S) {j : Nat} {a : Action} {p : PeerSync ser}
    (hstock : Stocked S (w.gone m.node) (stale m.node) (w.nodes m.node))
    (h : Tracked S (w.scope stale watched j m.node) m)
    (hj : w.meetings[j]? = some m) (hg : Guard svc validators S w (.sync j a))
    (hs : (w.now m).step svc.mc a = some p) :
    Tracked S ((w.resume j m p).scope stale watched j m.node) { m with sync := p } := by
  have hK : w.scope stale watched j m.node ⊆ (w.resume j m p).scope stale watched j m.node :=
    fun _ hkey hw => known_resume w j m p m.node (hkey hw)
  have hm := h.mono hK
  cases a with
  | append block => exact absurd hg id
  | begin response => exact hm.begin hs
  | spawn => exact hm.spawn hs
  | respond i response =>
      obtain ⟨quoteIds, task, task', hchunk, htask, hf, rfl⟩ := PeerSync.stepTask_cases hs
      obtain ⟨rfl, -⟩ := ChunkTask.respond_cases hf
      refine h.setTask hK htask (by simp) rfl rfl rfl rfl ?_
      intro quoteIds' hchunk' _
      obtain rfl := Option.some.inj (hchunk.symm.trans hchunk')
      refine Traces.respond ?_ hf
      rintro quotes rfl
      exact h.answers _ _ (hg m quoteIds hj hchunk')
  | next i =>
      obtain ⟨quoteIds, task, task', hchunk, htask, hf, rfl⟩ := PeerSync.stepTask_cases hs
      refine h.setTask hK htask ?_ rfl rfl rfl rfl ?_
      · rintro r rfl
        cases hf
      · intro quoteIds' hchunk' htraces
        obtain rfl := Option.some.inj (hchunk.symm.trans hchunk')
        exact (htraces.mono hK).next hS hf
  | advance i fault faults =>
      obtain ⟨rest, call, results, htask, ⟨quote, c, rfl, rfl⟩ | ⟨call', hnext, rfl⟩⟩ :=
        PeerSync.advance_cases hs
      · refine h.setTask hK htask (by simp) rfl rfl rfl rfl ?_
        intro quoteIds hchunk htraces
        have hquote : quote ∈ S := h.mem_of_adding htask rfl
        exact htraces.insert hK fun ht q hq hid _ => has_of_taken hS hstock hquote ht q hq hid
      · refine h.setTask hK htask (by simp) rfl rfl rfl rfl ?_
        intro quoteIds hchunk htraces
        exact (htraces.mono hK).check hnext
  | collect => exact hm.collect hs
  | finish =>
      obtain ⟨chunks, hc, -, hlen, rfl⟩ := PeerSync.finish_cases hs
      refine ⟨hm.answers, hm.fresh, hm.bounded, hm.tasks, hm.collected, ?_⟩
      rintro t ⟨⟩
      exact ⟨rfl, chunks, hc, hlen⟩

/-! ## What a peer answers -/

theorem mem_of_answered {R : InMemoryQuoteBook} {quoteId : QuoteId} {q : Quote}
    (h : answered (R.getQuoteById quoteId) = some (.ok (some q))) :
    q ∈ R.quotes ∧ q.id = quoteId := by
  unfold InMemoryQuoteBook.getQuoteById at h
  split at h
  · cases h
  · have hfind : R.quotes.find? (fun entry => entry.id = quoteId) = some q := by
      rw [InMemoryQuoteBook.quotes, List.find?_flatten]
      exact Except.ok.inj (Option.some.inj h)
    exact ⟨List.mem_of_find?_eq_some hfind, by simpa using List.find?_some hfind⟩

theorem answers_of_handle {R : InMemoryQuoteBook} (hR : ∀ q ∈ R.quotes, q ∈ S)
    {quotes : List MaybeQuote}
    (h : handleRpcRequest R (.getQuotesById quoteIds) = some (.maybeQuotes quotes)) :
    List.Forall₂ (Answers S) quoteIds quotes := by
  simp only [handleRpcRequest] at h
  split at h
  · next =>
      obtain ⟨quotes', hall, hquotes⟩ := Option.map_eq_some_iff.mp h
      obtain rfl := Response.maybeQuotes.inj hquotes
      rw [ParMap.mapM_eq_some_iff, ← List.forall₂_eq_eq_eq, List.forall₂_map_left_iff,
        List.forall₂_map_right_iff] at hall
      refine hall.imp ?_
      rintro quoteId maybeQuote heq q rfl
      obtain ⟨hmem, hid⟩ := mem_of_answered heq
      exact ⟨hR q hmem, hid⟩
  · cases h

theorem mem_of_handle_getAllQuoteIds {R : InMemoryQuoteBook} {quoteIds : List QuoteId}
    (h : handleRpcRequest R .getAllQuoteIds = some (.allQuoteIds quoteIds)) {q : Quote}
    (hq : q ∈ R.quotes) : q.id ∈ quoteIds := by
  cases hp : R.poisoned with
  | true =>
      simp [handleRpcRequest, InMemoryQuoteBook.getQuoteIds, hp, answered] at h
  | false =>
      rw [handle_getAllQuoteIds hp] at h
      obtain rfl := Response.allQuoteIds.inj (Option.some.inj h)
      exact List.mem_map_of_mem hq

/-! ## The whole mesh -/

structure Sound (S : Set Quote) (stale : Fin n → Set Quote) (watched : Nat → Prop)
    (w : Mesh n ser) : Prop where
  nodes : ∀ k, Stocked S (w.gone k) (stale k) (w.nodes k)
  meetings : ∀ (j : Nat) m, w.meetings[j]? = some m →
    Tracked S (w.scope stale watched j m.node) m

theorem sound_initial {ledgers : Fin n → Ledger} {books : Fin n → NodeBook ser}
    (hb : ∀ k, (books k).Empty) : Sound S stale watched (initial ledgers books) :=
  ⟨fun k => stocked_initial (hb k), fun j m hm => by cases hm⟩

theorem Sound.nodes_setNode (h : Sound S stale watched w)
    (hk : Stocked S (w.gone k ++ left (w.nodes k).book s.book) (stale k) s) :
    ∀ m, Stocked S ((w.setNode k s).gone m) (stale m) ((w.setNode k s).nodes m) := by
  intro m
  by_cases hm : m = k
  · subst hm
    simp only [setNode, Function.update_self]
    exact hk
  · simp only [setNode, Function.update_of_ne hm]
    exact h.nodes m

/-- What a step of a sync leaves alone: only the first answer makes the chunks, and only an
insertion touches the book. -/
theorem frame_of_sync {mc : McCore} {p p' : PeerSync ser} {a : Action}
    (h : p.step mc a = some p') :
    (p'.chunks = p.chunks ∨ ∃ response, a = .begin response) ∧
      (p'.book = p.book ∨ ∃ (i : Nat) (faults : Faults) (rest : List MaybeQuote) (quote : Quote)
        (c : BlockIndex) (results : List (Except Error Unit)),
        p.tasks[i]? = some (.adding rest (.checkingRing quote c []) results) ∧
          p'.book = (p.book.addQuote faults quote).2) := by
  cases a with
  | append block => exact Option.some.inj h ▸ ⟨.inl rfl, .inl rfl⟩
  | begin response =>
      refine ⟨.inr ⟨response, rfl⟩, .inl ?_⟩
      obtain ⟨-, -, ⟨e, rfl, -⟩ | ⟨remoteQuoteIds, localQuoteIds, -, -, rfl⟩⟩ :=
        PeerSync.begin_cases h
      · rfl
      · rfl
  | spawn =>
      obtain ⟨quoteIds, -, -, rfl⟩ := PeerSync.spawn_cases h
      exact ⟨.inl rfl, .inl rfl⟩
  | respond i response =>
      obtain ⟨quoteIds, task, task', -, -, -, rfl⟩ := PeerSync.stepTask_cases h
      exact ⟨.inl rfl, .inl rfl⟩
  | next i =>
      obtain ⟨quoteIds, task, task', -, -, -, rfl⟩ := PeerSync.stepTask_cases h
      exact ⟨.inl rfl, .inl rfl⟩
  | advance i fault faults =>
      obtain ⟨rest, call, results, htask, ⟨quote, c, rfl, rfl⟩ | ⟨call', -, rfl⟩⟩ :=
        PeerSync.advance_cases h
      · exact ⟨.inl rfl, .inr ⟨i, faults, rest, quote, c, results, htask, rfl⟩⟩
      · exact ⟨.inl rfl, .inl rfl⟩
  | collect =>
      rcases PeerSync.collect_cases h with ⟨r, -, rfl⟩ | ⟨-, rfl⟩
      · exact ⟨.inl rfl, .inl rfl⟩
      · exact ⟨.inl rfl, .inl rfl⟩
  | finish =>
      obtain ⟨chunks, -, -, -, rfl⟩ := PeerSync.finish_cases h
      exact ⟨.inl rfl, .inl rfl⟩

theorem Stocked.sync (hS : Genuine svc.mc S) {a : Action} {p : PeerSync ser}
    (h : Stocked S (w.gone m.node) old (w.nodes m.node)) (hm : Tracked S K m)
    (hs : (w.now m).step svc.mc a = some p) :
    Stocked S (w.gone m.node ++ left (w.nodes m.node).book p.book) old
      { w.nodes m.node with book := p.book } := by
  rcases (frame_of_sync hs).2 with hsame | ⟨i, faults, rest, quote, c, results, htask, hbook⟩
  · rw [hsame]
    exact ⟨h.keyed, h.rows_of_subset fun _ hr => hr, h.calls⟩
  · rw [hbook]
    exact h.insert hS faults (hm.mem_of_adding htask rfl) h.calls

theorem Sound.step (hS : Genuine svc.mc S) (hser : ser.Lossless) (h : Sound S stale watched w)
    {a : MeshAction n} (hg : Guard svc validators S w a) (hdoes : Does svc validators w a w') :
    Sound S stale watched w' := by
  have hold : ∀ (j : Nat) m, w.meetings[j]? = some m →
      Tracked S (w'.scope stale watched j m.node) m :=
    fun j m hm => (h.meetings j m hm).mono (hdoes.later.scope j m.node)
  cases hdoes with
  | @node k a s hs hlives =>
      have hS' : Genuine (Network.service svc validators k).mc S := hS
      exact ⟨h.nodes_setNode ((h.nodes k).step hS' hser hg hs), hold⟩
  | @restart k a s hs =>
      have hS' : Genuine (Network.service svc validators k).mc S := hS
      refine ⟨h.nodes_setNode ((h.nodes k).step hS' hser hg hs), ?_⟩
      intro j m' hm'
      rw [crash, List.getElem?_map] at hm'
      obtain ⟨m, hm, rfl⟩ := Option.map_eq_some_iff.mp hm'
      have htracked := hold j m hm
      split
      · exact ⟨htracked.answers, htracked.fresh, htracked.bounded, htracked.tasks,
          htracked.collected, htracked.returned⟩
      · exact htracked
  | meet k peer =>
      refine ⟨h.nodes, Lists.forall_concat hold ?_⟩
      refine ⟨?_, fun _ => rfl, ?_, ?_, ?_, ?_⟩
      · intro quoteIds quotes hin
        exact absurd hin List.not_mem_nil
      · intro chunks hc
        cases hc
      · intro i task ht
        cases ht
      · intro i r hr
        cases hr
      · intro t ht
        cases ht
  | @answer j request m response hj hr =>
      refine ⟨h.nodes, Lists.forall_set hold ?_⟩
      have hm := hold j m hj
      refine ⟨?_, hm.fresh, hm.bounded, hm.tasks, hm.collected, hm.returned⟩
      intro quoteIds quotes hin
      rcases List.mem_append.mp hin with hin | hin
      · exact hm.answers quoteIds quotes hin
      · obtain ⟨rfl, rfl⟩ := Prod.mk.inj (List.mem_singleton.mp hin)
        exact answers_of_handle (fun q hq => (h.nodes m.peer).keyed.subset hq) hr
  | @sync j a m p hj hp =>
      have hm := h.meetings j m hj
      refine ⟨h.nodes_setNode ((h.nodes m.node).sync hS hm hp), ?_⟩
      exact Lists.forall_set hold (hm.sync hS (h.nodes m.node) hj hg hp)

end P2P.Mesh
end Deqs
