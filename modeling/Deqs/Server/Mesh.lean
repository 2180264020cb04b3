/-
# Nodes that meet — the model

When a node connects to a peer it starts a sync (`PeerSync`).  Here are any number of nodes, each
with its own book, ledger and threads (`Node`), and any number of syncs between them, each in its
own state and all over the same books.

| action | what it is |
| :-- | :-- |
| `node` | anything at one node: clients, gossip, the fetcher, failures, a restart |
| `handleConnectionEstablished` | a node meets a peer: a new call of `sync_quotes_from_peer` |
| `handleRpcRequest` | the peer answers a request, from its book as it is then |
| `sync` | one step of a sync, over the book of its node as it is then |

**What comes from outside.**  Gossip is a step of a node like any other, so it may be lost,
repeated or forged.  A request may be answered several times, as a request that is retried is,
and an answer may arrive late or never: a sync goes on with one of the answers that were given,
or with an error of the transport (`Guard`).  All that enters comes from one set `S` of quotes
whose identifiers do not collide.

**What is kept.**  A quote that has left a book is not forgotten here: `gone` remembers it, from
the time one chooses (`forget`).  So what a node has or has had only grows, and what a sync has
found out stays true, whatever the fetcher and the other threads do.  A row in the table without
its quote in memory is `Stale`; a removal whose `COMMIT` fails leaves such rows.
`Server.Tracing` follows the syncs.
-/
import Deqs.Server.Insertion
import Deqs.Server.SyncHonest

namespace Deqs

open Sync (Ledger AddCall)

def NodeAction.isRestart : NodeAction → Bool
  | .restart _ _ => true
  | _ => false

namespace P2P

/-! ## The mesh -/

/-- A call of `sync_quotes_from_peer` at `node`, and the answers its peer has given: any of them
may arrive, late or never.  A restart of the node ends the call. -/
structure Meeting (n : Nat) (ser : Serial) where
  node : Fin n
  peer : Fin n
  alive : Bool
  sync : PeerSync ser
  responses : List (Request × Response)

/-- The nodes, their meetings, and, for the statements only, the quotes that have left each
book. -/
structure Mesh (n : Nat) (ser : Serial) where
  nodes : Fin n → Node ser
  meetings : List (Meeting n ser)
  gone : Fin n → List Quote

inductive MeshAction (n : Nat) where
  /-- Whatever happens at a node: clients, gossip, the fetcher, its ledger, a restart. -/
  | node (k : Fin n) (a : NodeAction)
  | handleConnectionEstablished (k peer : Fin n)
  /-- The peer of meeting `j` answers one of its requests. -/
  | handleRpcRequest (j : Nat) (request : Request)
  | sync (j : Nat) (a : Action)

namespace Mesh

variable {n : Nat} {ser : Serial}

def initial (ledgers : Fin n → Ledger) (books : Fin n → NodeBook ser) : Mesh n ser :=
  ⟨fun k => .initial (ledgers k) (books k), [], fun _ => []⟩

/-- The quotes that were in memory and are not any longer. -/
def left (book book' : NodeBook ser) : List Quote :=
  book.inner.quotes.filter (· ∉ book'.inner.quotes)

def setNode (w : Mesh n ser) (k : Fin n) (s : Node ser) : Mesh n ser :=
  { w with
    nodes := Function.update w.nodes k s
    gone := Function.update w.gone k (w.gone k ++ left (w.nodes k).book s.book) }

/-- The tasks of node `k` are gone. -/
def crash (w : Mesh n ser) (k : Fin n) : Mesh n ser :=
  { w with meetings := w.meetings.map fun m => if m.node = k then { m with alive := false } else m }

/-- The sync of a meeting, over the book and the ledger of its node as they are now. -/
def now (w : Mesh n ser) (m : Meeting n ser) : PeerSync ser :=
  { m.sync with ledger := (w.nodes m.node).ledger, book := (w.nodes m.node).book }

def resume (w : Mesh n ser) (j : Nat) (m : Meeting n ser) (sync : PeerSync ser) : Mesh n ser :=
  { w.setNode m.node { w.nodes m.node with book := sync.book } with
    meetings := w.meetings.set j { m with sync } }

def step (svc : ClientService) (validators : Fin n → SciValidator) (w : Mesh n ser) :
    MeshAction n → Option (Mesh n ser)
  | .node k a =>
      ((w.nodes k).step (Network.service svc validators k) a).map fun s =>
        if a.isRestart then (w.setNode k s).crash k else w.setNode k s
  | .handleConnectionEstablished k peer =>
      some { w with
        meetings := w.meetings ++
          [⟨k, peer, true, .initial (w.nodes k).ledger (w.nodes k).book, []⟩] }
  | .handleRpcRequest j request =>
      match w.meetings[j]? with
      | some m =>
          if request = .getAllQuoteIds ∨ request ∈ m.sync.requests then
            (handleRpcRequest (w.nodes m.peer).book.inner request).map fun response =>
              { w with
                meetings := w.meetings.set j
                  { m with responses := m.responses ++ [(request, response)] } }
          else none
      | none => none
  | .sync j a =>
      match w.meetings[j]? with
      | some m => if m.alive then ((w.now m).step svc.mc a).map (w.resume j m) else none
      | none => none

/-- The quotes that clients and peers bring to a node are in `S`. -/
def Brings (svc : ClientService) (S : Set Quote) (s : Node ser) : NodeAction → Prop
  | .submit _ sci timestamp => ∀ q, svc.offer timestamp sci = .ok q → q ∈ S
  | .handleSciQuoteAdded _ remoteQuote => ∀ q, peerOffer svc.mc remoteQuote = .ok q → q ∈ S
  | .nextQuote i => ∀ remoteQuote ∈ (s.threads i).rest,
      ∀ q, peerOffer svc.mc remoteQuote = .ok q → q ∈ S
  | _ => True

/-- What enters is in `S`; and a sync gets what its peer has answered, or an error of the
transport. -/
def Guard (svc : ClientService) (validators : Fin n → SciValidator) (S : Set Quote)
    (w : Mesh n ser) : MeshAction n → Prop
  | .node k a => Brings (Network.service svc validators k) S (w.nodes k) a
  | .sync _ (.append _) => False
  | .sync j (.begin (.ok response)) =>
      ∀ m, w.meetings[j]? = some m → (.getAllQuoteIds, response) ∈ m.responses
  | .sync j (.respond i (.ok response)) => ∀ m quoteIds, w.meetings[j]? = some m →
      m.sync.chunk i = some quoteIds → (.getQuotesById quoteIds, response) ∈ m.responses
  | _ => True

/-- From here on `gone` tells what leaves. -/
def forget (w : Mesh n ser) : Mesh n ser := { w with gone := fun _ => [] }

/-- A quote whose row is in the table although it is not in memory. -/
def Stale (s : Node ser) (q : Quote) : Prop :=
  Row.ofQuote ser q ∈ s.book.rows ∧ q ∉ s.book.inner.quotes

/-- What node `k` has on offer, or has had, or has stale rows of. -/
def known (w : Mesh n ser) (stale : Fin n → Set Quote) (k : Fin n) : Set (Pair × KeyImage) :=
  {key | ∃ q, (q ∈ (w.nodes k).book.inner.quotes ∨ q ∈ w.gone k ∨ q ∈ stale k) ∧ q.key = key}

/-! ## Nothing is forgotten -/

variable {svc : ClientService} {validators : Fin n → SciValidator} {S : Set Quote}
  {w w' : Mesh n ser} {s s' : Node ser} {k : Fin n} {stale : Fin n → Set Quote}

theorem mem_or_left {book : NodeBook ser} {gone : List Quote} {q : Quote}
    (h : q ∈ book.inner.quotes ∨ q ∈ gone) (book' : NodeBook ser) :
    q ∈ book'.inner.quotes ∨ q ∈ gone ++ left book book' := by
  by_cases hin : q ∈ book'.inner.quotes
  · exact .inl hin
  · right
    rcases h with h | h
    · exact List.mem_append_right _ (List.mem_filter.mpr ⟨h, by simpa using hin⟩)
    · exact List.mem_append_left _ h

/-- Of one mesh and a later one: no quote is forgotten, and what has left stays so. -/
structure Later (w w' : Mesh n ser) : Prop where
  remembers : ∀ k q, q ∈ (w.nodes k).book.inner.quotes ∨ q ∈ w.gone k →
    q ∈ (w'.nodes k).book.inner.quotes ∨ q ∈ w'.gone k
  gone : ∀ k, w.gone k ⊆ w'.gone k

theorem Later.refl (w : Mesh n ser) : Later w w := ⟨fun _ _ h => h, fun _ => List.Subset.refl _⟩

theorem Later.trans {w₁ w₂ w₃ : Mesh n ser} (h : Later w₁ w₂) (h' : Later w₂ w₃) : Later w₁ w₃ :=
  ⟨fun k q hq => h'.remembers k q (h.remembers k q hq),
    fun k => List.Subset.trans (h.gone k) (h'.gone k)⟩

theorem Later.known (h : Later w w') (k : Fin n) : w.known stale k ⊆ w'.known stale k := by
  rintro key ⟨q, hq, hkey⟩
  refine ⟨q, ?_, hkey⟩
  rw [← or_assoc] at hq ⊢
  exact hq.imp_left (h.remembers k q)

theorem later_setNode (w : Mesh n ser) (k : Fin n) (s : Node ser) : Later w (w.setNode k s) := by
  constructor
  · intro m q hq
    by_cases hm : m = k
    · subst hm
      simp only [setNode, Function.update_self]
      exact mem_or_left hq _
    · simp only [setNode, Function.update_of_ne hm]
      exact hq
  · intro m
    by_cases hm : m = k
    · subst hm
      simp only [setNode, Function.update_self]
      exact List.subset_append_left _ _
    · simp only [setNode, Function.update_of_ne hm]
      exact List.Subset.refl _

/-- What a step is: at a node, with or without a crash; a new meeting; an answer; or a step of a
sync. -/
inductive Does (svc : ClientService) (validators : Fin n → SciValidator) (w : Mesh n ser) :
    MeshAction n → Mesh n ser → Prop
  | node {k a s} (h : (w.nodes k).step (Network.service svc validators k) a = some s)
      (hlives : a.isRestart = false) : Does svc validators w (.node k a) (w.setNode k s)
  | restart {k a s} (h : (w.nodes k).step (Network.service svc validators k) a = some s) :
      Does svc validators w (.node k a) ((w.setNode k s).crash k)
  | meet (k peer : Fin n) : Does svc validators w (.handleConnectionEstablished k peer)
      { w with
        meetings := w.meetings ++
          [⟨k, peer, true, .initial (w.nodes k).ledger (w.nodes k).book, []⟩] }
  | answer {j request m response} (hj : w.meetings[j]? = some m)
      (hr : handleRpcRequest (w.nodes m.peer).book.inner request = some response) :
      Does svc validators w (.handleRpcRequest j request)
        { w with
          meetings := w.meetings.set j
            { m with responses := m.responses ++ [(request, response)] } }
  | sync {j a m p} (hj : w.meetings[j]? = some m) (h : (w.now m).step svc.mc a = some p) :
      Does svc validators w (.sync j a) (w.resume j m p)

theorem does_of_step {a : MeshAction n} (h : w.step svc validators a = some w') :
    Does svc validators w a w' := by
  cases a with
  | node k a =>
      obtain ⟨s, hs, heq⟩ := Option.map_eq_some_iff.mp h
      cases hr : a.isRestart with
      | true =>
          rw [hr, if_pos rfl] at heq
          exact heq ▸ .restart hs
      | false =>
          rw [hr, if_neg Bool.false_ne_true] at heq
          exact heq ▸ .node hs hr
  | handleConnectionEstablished k peer => exact Option.some.inj h ▸ .meet k peer
  | handleRpcRequest j request =>
      simp only [step] at h
      split at h
      · next m hj =>
          split at h
          · obtain ⟨response, hr, rfl⟩ := Option.map_eq_some_iff.mp h
            exact .answer hj hr
          · cases h
      · cases h
  | sync j a =>
      simp only [step] at h
      split at h
      · next m hj =>
          split at h
          · obtain ⟨p, hp, rfl⟩ := Option.map_eq_some_iff.mp h
            exact .sync hj hp
          · cases h
      · cases h

theorem Does.later {a : MeshAction n} (h : Does svc validators w a w') : Later w w' := by
  cases h with
  | node hs _ => exact later_setNode w _ _
  | @restart k _ s hs => exact ⟨(later_setNode w k s).remembers, (later_setNode w k s).gone⟩
  | meet k peer => exact ⟨fun _ _ h => h, fun _ => List.Subset.refl _⟩
  | answer hj hr => exact ⟨fun _ _ h => h, fun _ => List.Subset.refl _⟩
  | @sync j a m p hj hp =>
      have hset := later_setNode w m.node { w.nodes m.node with book := p.book }
      exact ⟨hset.remembers, hset.gone⟩

/-! ## The nodes -/

/-- The quotes in memory have distinct keys; the rows are those of quotes that are in memory, or
have left it, or are `old`; and what is being added is in `S`. -/
structure Stocked (S : Set Quote) (gone : List Quote) (old : Set Quote) (s : Node ser) : Prop where
  keyed : s.book.inner.Keyed S
  rows : ∀ r ∈ s.book.rows, ∃ q ∈ S, r = Row.ofQuote ser q ∧
    (q ∈ s.book.inner.quotes ∨ q ∈ gone ∨ q ∈ old)
  calls : ∀ i q, (s.threads i).call.quote? = some q → q ∈ S

theorem stocked_initial {old : Set Quote} {ledger : Ledger} {book : NodeBook ser}
    (hb : book.Empty) : Stocked S [] old (.initial ledger book) := by
  refine ⟨?_, fun r hr => absurd hr ((NodeBook.not_mem_of_empty hb).2 r), fun i q h => by cases h⟩
  cases book with
  | inMemory book =>
      obtain rfl : book = .default := hb
      exact InMemoryQuoteBook.keyed_default
  | sqlite book =>
      obtain rfl : book = .empty := hb
      exact InMemoryQuoteBook.keyed_default

variable {gone : List Quote} {old : Set Quote}

theorem Stocked.rows_of_subset (h : Stocked S gone old s) {book : NodeBook ser}
    (hsub : ∀ r ∈ book.rows, r ∈ s.book.rows) : ∀ r ∈ book.rows, ∃ q ∈ S,
      r = Row.ofQuote ser q ∧
        (q ∈ book.inner.quotes ∨ q ∈ gone ++ left s.book book ∨ q ∈ old) := by
  intro r hr
  obtain ⟨q, hq, hrow, hin⟩ := h.rows r (hsub r hr)
  refine ⟨q, hq, hrow, ?_⟩
  rw [← or_assoc] at hin ⊢
  exact hin.imp_left fun hin => mem_or_left hin book

theorem Stocked.setThread (h : Stocked S gone old s) (i : Nat) {t : Thread}
    (ht : ∀ q, t.call.quote? = some q → q ∈ S) :
    Stocked S (gone ++ left s.book s.book) old (s.setThread i t) := by
  refine ⟨h.keyed, h.rows_of_subset fun _ hr => hr, ?_⟩
  exact (Function.forall_update_iff s.threads
    fun _ t => ∀ q, t.call.quote? = some q → q ∈ S).mpr ⟨ht, fun j _ => h.calls j⟩

theorem Stocked.insert {mc : McCore} (hS : Genuine mc S) (h : Stocked S gone old s)
    (faults : Faults) {q : Quote} (hq : q ∈ S) {threads : Nat → Thread}
    (hthreads : ∀ i q, (threads i).call.quote? = some q → q ∈ S) :
    Stocked S (gone ++ left s.book (s.book.addQuote faults q).2) old
      ⟨s.ledger, (s.book.addQuote faults q).2, threads⟩ := by
  have hleaves := NodeBook.leaves_addQuote hS h.keyed faults hq
  refine ⟨hleaves.keyed, ?_, hthreads⟩
  intro r hr
  rcases hleaves.rows r hr with hold | ⟨hrow, hin⟩
  · obtain ⟨x, hx, hrow, hin⟩ := h.rows r hold
    refine ⟨x, hx, hrow, ?_⟩
    rw [← or_assoc] at hin ⊢
    exact hin.imp_left fun hin => mem_or_left hin _
  · exact ⟨q, hq, hrow, .inl hin⟩

theorem Stocked.step (hS : Genuine svc.mc S) (hser : ser.Lossless) (h : Stocked S gone old s)
    {a : NodeAction} (hg : Brings svc S s a) (hs : s.step svc a = some s') :
    Stocked S (gone ++ left s.book s'.book) old s' := by
  cases a with
  | append block =>
      obtain rfl := Option.some.inj hs
      exact ⟨h.keyed, h.rows_of_subset fun _ hr => hr, h.calls⟩
  | submit i sci timestamp =>
      obtain ⟨-, rfl⟩ := Node.enter_some hs
      exact h.setThread i fun q hq => hg q (AddCall.quote?_ofOffer hq)
  | handleSciQuoteAdded i remoteQuote =>
      obtain ⟨-, rfl⟩ := Node.enter_some hs
      exact h.setThread i fun q hq => hg q (AddCall.quote?_ofOffer hq)
  | syncQuotesFromPeer i answers =>
      obtain ⟨-, rfl⟩ := Node.enter_some hs
      exact h.setThread i fun q hq => by cases hq
  | nextQuote i =>
      obtain ⟨remoteQuote, rest, hrest, rfl⟩ := Node.nextQuote_some hs
      have hmem : remoteQuote ∈ (s.threads i).rest := hrest ▸ List.mem_cons_self
      exact h.setThread i fun q hq => hg remoteQuote hmem q (AddCall.quote?_ofOffer hq)
  | advance i fault faults =>
      rcases Node.advance_cases hs with ⟨quote, c, hi, rfl⟩ | ⟨call, hnext, rfl⟩
      · have hquote : quote ∈ S := h.calls i quote (by rw [hi]; rfl)
        refine h.insert hS faults hquote ?_
        exact (h.setThread i (t := { s.threads i with
          call := .done (s.book.addQuote faults quote).1 }) (fun q hq => by cases hq)).calls
      · exact h.setThread i fun q hq => h.calls i q (AddCall.quote?_next hnext hq)
  | call faults c =>
      cases c with
      | addQuote quote => cases hs
      | _ =>
          obtain rfl := Option.some.inj hs
          refine ⟨NodeBook.keyed_apply hS h.keyed faults (by simp), ?_, h.calls⟩
          refine h.rows_of_subset fun r hr => (NodeBook.mem_rows_apply hr).resolve_right ?_
          rintro ⟨q, hq, -⟩
          cases hq
  | rehash scis =>
      obtain ⟨book, hb, rfl⟩ := Option.map_eq_some_iff.mp hs
      refine ⟨NodeBook.keyed_rehash h.keyed hb, ?_, h.calls⟩
      exact h.rows_of_subset fun r hr => (NodeBook.mem_inner_rehash hb).2 ▸ hr
  | restart faults rows =>
      obtain ⟨book, hb, rfl⟩ := Option.map_eq_some_iff.mp hs
      refine ⟨NodeBook.keyed_reopen hS hser ?_ hb, ?_, fun i q hq => by cases hq⟩
      · intro r hr
        obtain ⟨q, hq, hrow, -⟩ := h.rows r hr
        exact ⟨q, hq, hrow⟩
      · exact h.rows_of_subset fun r hr => (NodeBook.reopen_some hb).1 ▸ hr

end Mesh
end P2P
end Deqs
