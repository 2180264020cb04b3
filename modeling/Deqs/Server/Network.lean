/-
# Nodes that gossip

Any number of nodes over one ledger that does not change.  A submission that `add_sci`
accepts at one node is published: a `SciQuoteAdded` message for every other node, to be
delivered there at least once, in any order, and handled by `handle_sci_quote_added`.
Nodes do not agree on quotes.  Two SCIs that spend the same input compete, and each node
keeps the one that came first.  What they agree on is *which* inputs of which pair are on
offer.

The argument has two halves.

* **A published quote is never refused for itself.**  The checks of `add_quote` read the
  ledger only.  What passed them at one node passes them at every node (`Passes`), and
  `Quote::new` makes of it the quote it is.  So a message that arrives ends in one of two
  ways: the quote is inserted, or one with its key is already there.
* **Every key is covered** (`Spread.Covered`): what one node has the others have or are
  owed.

A step is one step of one thread, so messages are handled while submissions are under way.
The books of the nodes may be of either kind; the validators of the nodes may differ.
-/
import Deqs.Lib.Spread
import Deqs.Server.RingAdmission

namespace Deqs

open Sync (Ledger Block AddCall)

/-! ## The checks of `add_quote` on a ledger that does not change -/

/-- The quote passes every check `add_quote` makes on this ledger. -/
structure Passes (ledger : Ledger) (q : Quote) : Prop where
  unreached : AddCall.Unreached q ledger.currentBlockIndex
  unspent : ∀ b ∈ ledger, q.keyImage ∉ b.keyImages
  lengths : q.sci.txIn.ring.length = q.sci.txOutGlobalIndices.length
  members : ∀ m ∈ q.sci.txOutGlobalIndices.zip q.sci.txIn.ring,
    Ledger.getTxOutByIndex ledger m.1 = .ok m.2

namespace Sync.AddCall

def SoFar (ledger : Ledger) : AddCall → Prop
  | .readBlocks q _ => Unreached q ledger.currentBlockIndex
  | .checkingRing q _ rest =>
      Unreached q ledger.currentBlockIndex ∧ (∀ b ∈ ledger, q.keyImage ∉ b.keyImages) ∧
        q.sci.txIn.ring.length = q.sci.txOutGlobalIndices.length ∧
        ∃ seen, q.sci.txOutGlobalIndices.zip q.sci.txIn.ring = seen ++ rest ∧
          ∀ m ∈ seen, Ledger.getTxOutByIndex ledger m.1 = .ok m.2
  | _ => True

theorem soFar_ofOffer (ledger : Ledger) (o : Outcome Error Quote) : (ofOffer o).SoFar ledger := by
  cases o with
  | ok q => trivial
  | err e => trivial
  | panic m => trivial

theorem soFar_next {ledger : Ledger} {fault : Option String} {c c' : AddCall}
    (h : c.next ledger fault = some c') (hc : c.SoFar ledger) : c'.SoFar ledger := by
  rcases next_cases h with ⟨e, rfl⟩ | ⟨q, rfl, rfl, hu⟩ | ⟨q, n, rfl, rfl, hk, hl⟩ |
    ⟨q, n, i, txOut, rest, rfl, rfl, -⟩
  · trivial
  · exact hu
  · exact ⟨hc, hk, hl, [], rfl, fun m hm => absurd hm List.not_mem_nil⟩
  · obtain ⟨hu, hk, hring⟩ := hc
    exact ⟨hu, hk, RingChecked.next (c := .checkingRing q n ((i, txOut) :: rest)) hring h⟩

/-- A call that comes to its insertion has passed every check. -/
theorem passes_of_soFar {ledger : Ledger} {q : Quote} {n : BlockIndex}
    (h : (checkingRing q n []).SoFar ledger) : Passes ledger q := by
  obtain ⟨hu, hk, hl, seen, hzip, hseen⟩ := h
  rw [List.append_nil] at hzip
  exact ⟨hu, hk, hl, fun m hm => hseen m (hzip ▸ hm)⟩

theorem checkTombstone_of_unreached {q : Quote} {c : Nat} (h : Unreached q c) :
    checkTombstone q c = .readBlocks q c := by
  unfold Unreached Quote.tombstoneBlock at h
  unfold checkTombstone
  cases hr : q.sci.txIn.inputRules with
  | none => rfl
  | some rules =>
      simp only [hr] at h ⊢
      refine if_neg ?_
      rintro ⟨hne, hle⟩
      rcases h with h0 | hlt
      · exact hne h0
      · exact absurd hle (not_le.mpr hlt)

/-- A quote that passes every check is not refused by any of them. -/
theorem quote?_next_of_passes {ledger : Ledger} {c c' : AddCall} {q : Quote}
    (hq : Passes ledger q) (hc : c.SoFar ledger) (hcq : c.quote? = some q)
    (h : c.next ledger none = some c') : c'.quote? = some q := by
  cases c with
  | idle => cases h
  | done r => cases h
  | start q' =>
      obtain rfl := Option.some.inj hcq
      obtain rfl := Option.some.inj h
      simp only [checkTombstone_of_unreached hq.unreached]
      rfl
  | readBlocks q' n =>
      obtain rfl := Option.some.inj hcq
      obtain rfl := Option.some.inj h
      have hk : Ledger.containsKeyImage ledger q'.keyImage = false :=
        Ledger.containsKeyImage_eq_false.mpr hq.unspent
      simp [checkKeyImage, hk, enterRing, hq.lengths, quote?]
  | checkingRing q' n rest =>
      obtain rfl := Option.some.inj hcq
      cases rest with
      | nil => cases h
      | cons m rest =>
          obtain ⟨-, -, -, seen, hzip, -⟩ := hc
          have hm := hq.members m (by rw [hzip]; simp)
          obtain rfl := Option.some.inj h
          simp [checkMember, hm, quote?]

end Sync.AddCall

/-! ## The book of a node, with no failure of the database -/

namespace NodeBook

variable {mc : McCore} {S : Set Quote} {ser : Serial} {book : NodeBook ser}

def keys (book : NodeBook ser) : Set (Pair × KeyImage) := {k | ∃ q ∈ book.inner.quotes, q.key = k}

/-- Distinct keys behind a sound lock; in SQLite, the same quotes in both stores. -/
def Sound (S : Set Quote) : NodeBook ser → Prop
  | .inMemory book => book.Keyed S ∧ book.poisoned = false
  | .sqlite book => SqliteQuoteBook.Sound S book

theorem sound_of_empty (h : book.Empty) : book.Sound S := by
  cases book with
  | inMemory book =>
      obtain rfl : book = .default := h
      exact ⟨InMemoryQuoteBook.keyed_default, rfl⟩
  | sqlite book =>
      obtain rfl : book = .empty := h
      exact SqliteQuoteBook.sound_empty

theorem keys_of_empty (h : book.Empty) : book.keys = ∅ := by
  refine Set.eq_empty_iff_forall_notMem.mpr ?_
  rintro k ⟨q, hq, -⟩
  exact (not_mem_of_empty h).1 q hq

theorem Sound.keyed (h : book.Sound S) : book.inner.Keyed S ∧ book.inner.poisoned = false := by
  cases book with
  | inMemory book => exact h
  | sqlite book => exact ⟨h.keyed, h.unpoisoned⟩

theorem Sound.addQuote_eq (hS : Genuine mc S) (hser : ser.Lossless) (h : book.Sound S) {q : Quote}
    (hq : q ∈ S) :
    (book.addQuote .none q).1 = (book.inner.addQuote q).1 ∧
      (book.addQuote .none q).2.inner = (book.inner.addQuote q).2 ∧
      (book.addQuote .none q).2.Sound S := by
  obtain ⟨hk, hp⟩ := h.keyed
  have hk' : (book.inner.addQuote q).2.Keyed S ∧ (book.inner.addQuote q).2.poisoned = false := by
    rcases hk.addQuote_key hS hp hq with ⟨e, -, -, heq⟩ | ⟨-, inner, heq, hp', -, hk'⟩
    · rw [heq]
      exact ⟨hk, hp⟩
    · rw [heq]
      exact ⟨hk', hp'⟩
  cases book with
  | inMemory book => exact ⟨rfl, rfl, hk'⟩
  | sqlite book =>
      obtain ⟨hres, hinner⟩ := SqliteQuoteBook.addQuote_eq_inner hS hser h.consistent hk hp hq
      refine ⟨hres, hinner, ?_, ?_, ?_⟩
      · have hstep : SqliteQuoteBook.step mc book (.call .none (.addQuote q)) =
            some (book.addQuote .none q).2 := rfl
        refine SqliteQuoteBook.consistent_step hser h.consistent ?_ hstep
        exact .inl ⟨trivial, .inl rfl⟩
      · exact hinner ▸ hk'.1
      · exact hinner ▸ hk'.2

/-- **First come, first kept.**  The quote is accepted if nothing has its key and refused
otherwise; its key is there in either case, and no other key comes or goes. -/
theorem Sound.addQuote (hS : Genuine mc S) (hser : ser.Lossless) (h : book.Sound S) {q : Quote}
    (hq : q ∈ S) :
    (book.addQuote .none q).2.Sound S ∧
      (book.addQuote .none q).2.keys = insert q.key book.keys ∧
      ((book.addQuote .none q).1 = .ok () ∧ q.key ∉ book.keys ∨
        (book.addQuote .none q).1 ≠ .ok () ∧ q.key ∈ book.keys) := by
  obtain ⟨hres, hinner, hsound⟩ := h.addQuote_eq hS hser hq
  obtain ⟨hk, hp⟩ := h.keyed
  refine ⟨hsound, ?_⟩
  simp only [keys, hres, hinner]
  rcases hk.addQuote_key hS hp hq with ⟨e, he, hkey, heq⟩ | ⟨hnew, inner, heq, -, hperm, -⟩
  · rw [heq]
    have hmem : q.key ∈ book.keys := ⟨e, he, hkey⟩
    refine ⟨?_, .inr ⟨by simp, hmem⟩⟩
    exact (Set.insert_eq_of_mem hmem).symm
  · rw [heq]
    refine ⟨?_, .inl ⟨rfl, ?_⟩⟩
    · ext k
      constructor
      · rintro ⟨x, hx, rfl⟩
        rcases List.mem_cons.mp (hperm.mem_iff.mp hx) with rfl | hx
        · exact .inl rfl
        · exact .inr ⟨x, hx, rfl⟩
      · rintro (rfl | ⟨x, hx, rfl⟩)
        · exact ⟨q, hperm.mem_iff.mpr List.mem_cons_self, rfl⟩
        · exact ⟨x, hperm.mem_iff.mpr (List.mem_cons_of_mem _ hx), rfl⟩
    · rintro ⟨x, hx, hkey⟩
      exact hnew x hx hkey

theorem Sound.rehash (h : book.Sound S) {book' : NodeBook ser}
    {scis : AssocMap Pair (List Quote)} (hr : book.rehash scis = some book') :
    book'.Sound S ∧ book'.keys = book.keys := by
  have hkeys : book'.keys = book.keys := by
    obtain ⟨hperm, -⟩ := mem_inner_rehash hr
    ext k
    constructor
    · rintro ⟨q, hq, rfl⟩
      exact ⟨q, hperm.mem_iff.mp hq, rfl⟩
    · rintro ⟨q, hq, rfl⟩
      exact ⟨q, hperm.mem_iff.mpr hq, rfl⟩
  refine ⟨?_, hkeys⟩
  unfold NodeBook.rehash at hr
  split at hr
  · next hp =>
      obtain rfl := Option.some.inj hr
      cases book with
      | inMemory book => exact ⟨h.1.reorder hp _, h.2⟩
      | sqlite book =>
          refine ⟨?_, h.keyed.1.reorder hp _, h.keyed.2⟩
          exact List.Perm.trans h.consistent ((AssocMap.Reorder.values hp).flatten.map _)
  · cases hr

end NodeBook

/-! ## The network -/

/-- The nodes, the messages no one has handled yet, and all messages ever sent: of these
the network may deliver any again. -/
structure Network (n : Nat) (ser : Serial) where
  nodes : Fin n → Node ser
  undelivered : List (Fin n × Quote)
  published : List (Fin n × Quote)

inductive NetworkAction (n : Nat) where
  | submit (k : Fin n) (i : Nat) (sci : SignedContingentInput) (timestamp : UInt64)
  | advance (k : Fin n) (i : Nat)
  /-- A message for node `k` arrives, and its thread `i` begins to handle it. -/
  | deliver (k : Fin n) (i : Nat) (quote : Quote)
  | rehash (k : Fin n) (scis : AssocMap Pair (List Quote))

namespace Network

variable {n : Nat} {ser : Serial}

def initial (ledger : Ledger) (books : Fin n → NodeBook ser) : Network n ser :=
  ⟨fun k => .initial ledger (books k), [], []⟩

def setNode (w : Network n ser) (k : Fin n) (s : Node ser) : Network n ser :=
  { w with nodes := Function.update w.nodes k s }

/-- The quote a client's thread had accepted in the step from `s` to `s'`. -/
def accepted (s s' : Node ser) (i : Nat) : Option Quote :=
  match (s.threads i).origin, (s.threads i).call, (s'.threads i).call with
  | .client, .checkingRing quote _ [], .done (.ok ()) => some quote
  | _, _, _ => none

/-- One message for every other node. -/
def messages (k : Fin n) (quote : Quote) : List (Fin n × Quote) :=
  ((List.finRange n).filter (· ≠ k)).map (·, quote)

/-- `broadcast_sci_quote_added`, for what the step has accepted. -/
def broadcast (w : Network n ser) (k : Fin n) : Option Quote → Network n ser
  | none => w
  | some quote =>
      { w with
        undelivered := w.undelivered ++ messages k quote
        published := w.published ++ messages k quote }

def service (svc : ClientService) (validators : Fin n → SciValidator) (k : Fin n) :
    ClientService :=
  { svc with sciValidator := validators k }

def step (svc : ClientService) (validators : Fin n → SciValidator) (w : Network n ser) :
    NetworkAction n → Option (Network n ser)
  | .submit k i sci timestamp =>
      ((w.nodes k).step (service svc validators k) (.submit i sci timestamp)).map (w.setNode k)
  | .advance k i =>
      ((w.nodes k).step (service svc validators k) (.advance i none .none)).map fun s =>
        (w.setNode k s).broadcast k (accepted (w.nodes k) s i)
  | .deliver k i quote =>
      if (k, quote) ∈ w.published then
        ((w.nodes k).step (service svc validators k) (.handleSciQuoteAdded i quote)).map fun s =>
          { w.setNode k s with undelivered := w.undelivered.erase (k, quote) }
      else none
  | .rehash k scis =>
      ((w.nodes k).step (service svc validators k) (.rehash scis)).map (w.setNode k)

/-- Every message has been delivered, and its handler has returned. -/
structure Settled (w : Network n ser) : Prop where
  delivered : w.undelivered = []
  handled : ∀ k i, ((w.nodes k).threads i).origin = .gossip →
    ((w.nodes k).threads i).call.quote? = none

/-- The quotes of the submissions are in `S`. -/
def Offers (svc : ClientService) (validators : Fin n → SciValidator) (S : Set Quote)
    (_ : Network n ser) : NetworkAction n → Prop
  | .submit k _ sci timestamp =>
      ∀ q, (service svc validators k).offer timestamp sci = .ok q → q ∈ S
  | _ => True

/-! ## The invariant -/

def has (w : Network n ser) (k : Fin n) : Set (Pair × KeyImage) := (w.nodes k).book.keys

def Handles (s : Node ser) (q : Quote) : Prop :=
  ∃ i, (s.threads i).origin = .gossip ∧ (s.threads i).call.quote? = some q

/-- What is on its way to node `k`, or in a handler there. -/
def owed (w : Network n ser) (k : Fin n) : Set (Pair × KeyImage) :=
  {key | ∃ q, ((k, q) ∈ w.undelivered ∨ Handles (w.nodes k) q) ∧ q.key = key}

structure NodeSound (ledger : Ledger) (S : Set Quote) (s : Node ser) : Prop where
  sameLedger : s.ledger = ledger
  book : s.book.Sound S
  calls : ∀ {i q}, (s.threads i).call.quote? = some q → q ∈ S
  soFar : ∀ i, (s.threads i).call.SoFar ledger
  origins : ∀ i, (s.threads i).origin ≠ .sync
  gossip : ∀ {q}, Handles s q → Passes ledger q

structure Sound (ledger : Ledger) (S : Set Quote) (w : Network n ser) : Prop where
  nodes : ∀ k, NodeSound ledger S (w.nodes k)
  published : ∀ {k q}, (k, q) ∈ w.published → q ∈ S ∧ Passes ledger q ∧ ∃ m, q.key ∈ w.has m
  undelivered : ∀ {k q}, (k, q) ∈ w.undelivered → (k, q) ∈ w.published
  covered : Spread.Covered w.has w.owed

variable {svc : ClientService} {validators : Fin n → SciValidator} {ledger : Ledger}
  {S : Set Quote} {w w' : Network n ser} {s s' : Node ser} {k : Fin n}

theorem nodeSound_initial {book : NodeBook ser} (hb : book.Empty) :
    NodeSound ledger S (.initial ledger book) where
  sameLedger := rfl
  book := NodeBook.sound_of_empty hb
  calls := fun h => by cases h
  soFar := fun _ => trivial
  origins := fun _ h => by cases h
  gossip := fun ⟨_, h, _⟩ => by cases h

theorem sound_initial {books : Fin n → NodeBook ser} (hb : ∀ k, (books k).Empty) :
    Sound ledger S (.initial ledger books) where
  nodes k := nodeSound_initial (hb k)
  published := fun h => absurd h List.not_mem_nil
  undelivered := fun h => absurd h List.not_mem_nil
  covered := by
    refine Spread.covered_of_empty (fun k => NodeBook.keys_of_empty (hb k)) ?_
    intro k
    refine Set.eq_empty_iff_forall_notMem.mpr ?_
    rintro key ⟨q, h | ⟨i, h, -⟩, -⟩
    · exact absurd h List.not_mem_nil
    · cases h

/-- What a step of node `k` has to do, to the rest of the network too, for the invariant to
be kept. -/
structure Moves (ledger : Ledger) (S : Set Quote) (w w' : Network n ser) (k : Fin n)
    (s' : Node ser) : Prop where
  nodes : w'.nodes = Function.update w.nodes k s'
  sound : NodeSound ledger S s'
  /-- The node loses no key. -/
  grows : w.has k ⊆ s'.book.keys
  /-- A message stays undelivered until it is being handled. -/
  delivers : ∀ {m q}, (m, q) ∈ w.undelivered → (m, q) ∈ w'.undelivered ∨ m = k ∧ Handles s' q
  /-- A handler goes on until the key is there. -/
  handles : ∀ {q}, Handles (w.nodes k) q → Handles s' q ∨ q.key ∈ s'.book.keys
  /-- What is published has passed the checks and is in the book. -/
  publishes : ∀ {m q}, (m, q) ∈ w'.published →
    (m, q) ∈ w.published ∨ q ∈ S ∧ Passes ledger q ∧ q.key ∈ s'.book.keys
  undelivered : ∀ {m q}, (m, q) ∈ w'.undelivered → (m, q) ∈ w'.published
  /-- A handler begins with a message. -/
  begins : ∀ {q}, Handles s' q → Handles (w.nodes k) q ∨ (k, q) ∈ w.published
  /-- A key that is new everywhere is sent to all the others. -/
  spreads : ∀ {key}, key ∈ s'.book.keys → (∃ p, key ∈ w.has p) ∨
    ∀ m, m ≠ k → ∃ q, (m, q) ∈ w'.undelivered ∧ q.key = key

theorem Moves.node_self (hm : Moves ledger S w w' k s') : w'.nodes k = s' := by
  rw [hm.nodes, Function.update_self]

theorem Moves.node_other (hm : Moves ledger S w w' k s') {m : Fin n} (hne : m ≠ k) :
    w'.nodes m = w.nodes m := by
  rw [hm.nodes, Function.update_of_ne hne]

theorem Moves.has_subset (hm : Moves ledger S w w' k s') (m : Fin n) : w.has m ⊆ w'.has m := by
  unfold has
  by_cases hne : m = k
  · subst hne
    rw [hm.node_self]
    exact hm.grows
  · rw [hm.node_other hne]

/-- **The rule for a step of one node.** -/
theorem Sound.move (h : Sound ledger S w) (hm : Moves ledger S w w' k s') :
    Sound ledger S w' := by
  have hself : w'.has k = s'.book.keys := by rw [has, hm.node_self]
  have hpub : ∀ {m q}, (m, q) ∈ w'.published →
      q ∈ S ∧ Passes ledger q ∧ ∃ p, q.key ∈ w'.has p := by
    intro m q hq
    rcases hm.publishes hq with hq | ⟨hqS, hp, hkey⟩
    · obtain ⟨hqS, hp, p, hkey⟩ := h.published hq
      exact ⟨hqS, hp, p, hm.has_subset p hkey⟩
    · exact ⟨hqS, hp, k, hself ▸ hkey⟩
  refine ⟨?_, hpub, hm.undelivered, ?_⟩
  · intro m
    by_cases hne : m = k
    · subst hne
      rw [hm.node_self]
      exact hm.sound
    · rw [hm.node_other hne]
      exact h.nodes m
  · refine h.covered.step hm.has_subset ?_ ?_ ?_
    · -- what was owed is still owed, or has come
      rintro m key ⟨q, hq | hq, rfl⟩
      · rcases hm.delivers hq with hq | ⟨rfl, hq⟩
        · exact .inr ⟨q, .inl hq, rfl⟩
        · exact .inr ⟨q, .inr (hm.node_self ▸ hq), rfl⟩
      · by_cases hne : m = k
        · subst hne
          rcases hm.handles hq with hq | hkey
          · exact .inr ⟨q, .inr (hm.node_self ▸ hq), rfl⟩
          · exact .inl (hself ▸ hkey)
        · exact .inr ⟨q, .inr (hm.node_other hne ▸ hq), rfl⟩
    · intro m key hkey
      by_cases hne : m = k
      · subst hne
        rw [hself] at hkey
        rcases hm.spreads hkey with hp | hall
        · exact .inl hp
        · right
          intro p
          by_cases hp : p = m
          · subst hp
            exact .inl (hself ▸ hkey)
          · obtain ⟨q, hq, hqkey⟩ := hall p hp
            exact .inr ⟨q, .inl hq, hqkey⟩
      · rw [has, hm.node_other hne] at hkey
        exact .inl ⟨m, hkey⟩
    · -- what is owed now was owed before or published
      rintro m key ⟨q, hq | hq, rfl⟩
      · exact (hpub (hm.undelivered hq)).2.2
      · have hold : (∃ p, q.key ∈ w.has p) → ∃ p, q.key ∈ w'.has p :=
          fun ⟨p, hp⟩ => ⟨p, hm.has_subset p hp⟩
        refine hold ?_
        by_cases hne : m = k
        · subst hne
          rw [hm.node_self] at hq
          rcases hm.begins hq with hq | hq
          · exact h.covered.origin ⟨q, .inr hq, rfl⟩
          · exact (h.published hq).2.2
        · rw [hm.node_other hne] at hq
          exact h.covered.origin ⟨q, .inr hq, rfl⟩

/-! ## The steps -/

theorem quote?_of_isFree {t : Thread} (h : t.isFree = true) : t.call.quote? = none := by
  unfold Thread.isFree Thread.isQuiet at h
  cases hc : t.call with
  | idle => rfl
  | done r => rfl
  | start q => simp [hc] at h
  | readBlocks q c => simp [hc] at h
  | checkingRing q c rest => simp [hc] at h

theorem Handles.setThread {q : Quote} (h : Handles s q) (i : Nat) (t : Thread) :
    Handles (s.setThread i t) q ∨
      (s.threads i).origin = .gossip ∧ (s.threads i).call.quote? = some q := by
  obtain ⟨j, ho, hq⟩ := h
  by_cases hj : j = i
  · subst hj
    exact .inr ⟨ho, hq⟩
  · refine .inl ⟨j, ?_⟩
    simp only [Node.setThread, Function.update_of_ne hj]
    exact ⟨ho, hq⟩

theorem Handles.enter {q : Quote} (h : Handles s q) {i : Nat}
    (hfree : (s.threads i).isFree = true) (t : Thread) : Handles (s.setThread i t) q := by
  rcases h.setThread i t with hq | ⟨-, hq⟩
  · exact hq
  · rw [quote?_of_isFree hfree] at hq
    cases hq

theorem handles_of_setThread {q : Quote} {i : Nat} {t : Thread}
    (h : Handles (s.setThread i t) q) :
    t.origin = .gossip ∧ t.call.quote? = some q ∨ Handles s q := by
  rcases (Function.exists_update_iff s.threads
    fun _ t => t.origin = .gossip ∧ t.call.quote? = some q).mp h with h | ⟨j, -, h⟩
  · exact .inl h
  · exact .inr ⟨j, h⟩

theorem NodeSound.setThread (h : NodeSound ledger S s) {i : Nat} {t : Thread}
    (hcalls : ∀ q, t.call.quote? = some q → q ∈ S) (hsoFar : t.call.SoFar ledger)
    (horigin : t.origin ≠ .sync)
    (hgossip : ∀ q, t.origin = .gossip → t.call.quote? = some q → Passes ledger q) :
    NodeSound ledger S (s.setThread i t) := by
  have hat : ∀ (P : Thread → Prop), P t → (∀ j, P (s.threads j)) →
      ∀ j, P ((s.setThread i t).threads j) := fun P ht hall =>
    (Function.forall_update_iff s.threads fun _ t => P t).mpr ⟨ht, fun j _ => hall j⟩
  refine ⟨h.sameLedger, h.book, ?_, ?_, ?_, ?_⟩
  · intro j q
    exact hat (fun t => t.call.quote? = some q → q ∈ S) (hcalls q) (fun j => h.calls) j
  · exact hat (fun t => t.call.SoFar ledger) hsoFar h.soFar
  · exact hat (fun t => t.origin ≠ .sync) horigin h.origins
  · intro q hq
    rcases handles_of_setThread hq with ⟨ho, hq⟩ | hq
    · exact hgossip q ho hq
    · exact h.gossip hq

theorem Sound.submit (h : Sound ledger S w) {i : Nat} {sci : SignedContingentInput}
    {timestamp : UInt64}
    (hoffer : ∀ q, (service svc validators k).offer timestamp sci = .ok q → q ∈ S)
    (hs : (w.nodes k).step (service svc validators k) (.submit i sci timestamp) = some s') :
    Sound ledger S (w.setNode k s') := by
  obtain ⟨hfree, rfl⟩ := Node.enter_some hs
  refine h.move (k := k) ⟨rfl, ?_, Set.Subset.refl _, .inl, fun hq => .inl (hq.enter hfree _),
    .inl, h.undelivered, ?_, ?_⟩
  · refine (h.nodes k).setThread ?_ (AddCall.soFar_ofOffer ..) (by simp) (by simp)
    intro q hq
    exact hoffer q (AddCall.quote?_ofOffer hq)
  · intro q hq
    rcases handles_of_setThread hq with ⟨ho, -⟩ | hq
    · cases ho
    · exact .inl hq
  · intro key hkey
    exact .inl ⟨k, hkey⟩

/-- A message arrives.  `Quote::new` makes of its SCI the quote it carries. -/
theorem Sound.deliver (hS : Genuine svc.mc S) (h : Sound ledger S w) {i : Nat} {quote : Quote}
    (hpub : (k, quote) ∈ w.published)
    (hs : (w.nodes k).step (service svc validators k) (.handleSciQuoteAdded i quote) = some s') :
    Sound ledger S { w.setNode k s' with undelivered := w.undelivered.erase (k, quote) } := by
  obtain ⟨hfree, rfl⟩ := Node.enter_some hs
  obtain ⟨hqS, hpass, -⟩ := h.published hpub
  have hoffer : peerOffer (service svc validators k).mc quote = .ok quote :=
    (hS.made hqS).new_eq.2 none
  rw [hoffer]
  refine h.move (k := k) ⟨rfl, ?_, Set.Subset.refl _, ?_, fun hq => .inl (hq.enter hfree _),
    .inl, ?_, ?_, ?_⟩
  · refine (h.nodes k).setThread ?_ trivial (by simp) ?_
    · rintro q ⟨⟩
      exact hqS
    · rintro q - ⟨⟩
      exact hpass
  · intro m q hq
    by_cases heq : (m, q) = (k, quote)
    · obtain ⟨rfl, rfl⟩ := Prod.mk.inj heq
      refine .inr ⟨rfl, i, ?_⟩
      simp only [Node.setThread, Function.update_self]
      exact ⟨trivial, rfl⟩
    · exact .inl ((List.mem_erase_of_ne heq).mpr hq)
  · intro m q hq
    exact h.undelivered (List.mem_of_mem_erase hq)
  · intro q hq
    rcases handles_of_setThread hq with ⟨-, hq⟩ | hq
    · obtain rfl : quote = q := Option.some.inj hq
      exact .inr hpub
    · exact .inl hq
  · intro key hkey
    exact .inl ⟨k, hkey⟩

theorem mem_messages {m : Fin n} {q quote : Quote} :
    (m, q) ∈ messages k quote ↔ m ≠ k ∧ q = quote := by
  simp only [messages, List.mem_map, List.mem_filter, List.mem_finRange, Prod.mk.injEq]
  constructor
  · rintro ⟨m', ⟨-, hne⟩, rfl, rfl⟩
    exact ⟨by simpa using hne, rfl⟩
  · rintro ⟨hne, rfl⟩
    exact ⟨m, ⟨trivial, by simpa using hne⟩, rfl, rfl⟩

theorem accepted_eq_some {i : Nat} {quote : Quote} :
    accepted s s' i = some quote ↔ (s.threads i).origin = .client ∧
      (∃ c, (s.threads i).call = .checkingRing quote c []) ∧
      (s'.threads i).call = .done (.ok ()) := by
  unfold accepted
  constructor
  · intro h
    split at h
    · next ho hc hd =>
        obtain rfl := Option.some.inj h
        exact ⟨ho, ⟨_, hc⟩, hd⟩
    · cases h
  · rintro ⟨ho, ⟨c, hc⟩, hd⟩
    rw [ho, hc, hd]

theorem Sound.check (h : Sound ledger S w) {i : Nat} {c' : AddCall}
    (hc : ((w.nodes k).threads i).call.next (w.nodes k).ledger none = some c') :
    Sound ledger S
      (w.setNode k ((w.nodes k).setThread i { (w.nodes k).threads i with call := c' })) := by
  have hnode := h.nodes k
  rw [hnode.sameLedger] at hc
  -- a handler has nothing to fear from the checks
  have hgoes : ∀ q, Handles (w.nodes k) q → ((w.nodes k).threads i).call.quote? = some q →
      c'.quote? = some q := by
    intro q hq hcq
    exact AddCall.quote?_next_of_passes (hnode.gossip hq) (hnode.soFar i) hcq hc
  refine h.move (k := k) ⟨rfl, ?_, Set.Subset.refl _, .inl, ?_, .inl, h.undelivered, ?_, ?_⟩
  · refine hnode.setThread ?_ (AddCall.soFar_next hc (hnode.soFar i)) (hnode.origins i) ?_
    · intro q hq
      exact hnode.calls (AddCall.quote?_next hc hq)
    · intro q ho hq
      exact hnode.gossip ⟨i, ho, AddCall.quote?_next hc hq⟩
  · intro q hq
    rcases hq.setThread i { (w.nodes k).threads i with call := c' } with hq' | ⟨ho, hcq⟩
    · exact .inl hq'
    · refine .inl ⟨i, ?_⟩
      simp only [Node.setThread, Function.update_self]
      exact ⟨ho, hgoes q hq hcq⟩
  · intro q hq
    rcases handles_of_setThread hq with ⟨ho, hcq⟩ | hq
    · exact .inl ⟨i, ho, AddCall.quote?_next hc hcq⟩
    · exact .inl hq
  · intro key hkey
    exact .inl ⟨k, hkey⟩

theorem mem_broadcast {o : Option Quote} {m : Fin n × Quote} :
    (m ∈ (w.broadcast k o).undelivered ↔
        m ∈ w.undelivered ∨ ∃ quote, o = some quote ∧ m ∈ messages k quote) ∧
      (m ∈ (w.broadcast k o).published ↔
        m ∈ w.published ∨ ∃ quote, o = some quote ∧ m ∈ messages k quote) := by
  cases o with
  | none => simp [broadcast]
  | some quote => simp [broadcast]

theorem nodes_broadcast (o : Option Quote) : (w.broadcast k o).nodes = w.nodes := by
  cases o with
  | none => rfl
  | some quote => rfl

theorem Sound.insert (hS : Genuine svc.mc S) (hser : ser.Lossless) (h : Sound ledger S w) {i : Nat}
    {quote : Quote} {c : BlockIndex}
    (hc : ((w.nodes k).threads i).call = .checkingRing quote c [])
    (hs : s' = { (w.nodes k).setThread i { (w.nodes k).threads i with
        call := .done ((w.nodes k).book.addQuote .none quote).1 } with
      book := ((w.nodes k).book.addQuote .none quote).2 }) :
    Sound ledger S ((w.setNode k s').broadcast k (accepted (w.nodes k) s' i)) := by
  have hnode := h.nodes k
  have hcq : ((w.nodes k).threads i).call.quote? = some quote := by rw [hc]; rfl
  have hqS : quote ∈ S := hnode.calls hcq
  have hpass : Passes ledger quote := AddCall.passes_of_soFar (hc ▸ hnode.soFar i)
  obtain ⟨hbook, hkeys, hres⟩ := hnode.book.addQuote hS hser hqS
  have hbook' : s'.book.keys = Insert.insert quote.key (w.has k) := by rw [hs, has, ← hkeys]
  have hcall : (s'.threads i).call = .done ((w.nodes k).book.addQuote .none quote).1 := by
    simp only [hs, Node.setThread, Function.update_self]
  have hto : ∀ {q}, Handles (w.nodes k) q → Handles s' q ∨ q = quote := by
    intro q hq
    rcases hq.setThread i { (w.nodes k).threads i with
      call := .done ((w.nodes k).book.addQuote .none quote).1 } with hq' | ⟨-, hq'⟩
    · left
      subst hs
      exact hq'
    · exact .inr (Option.some.inj (hq'.symm.trans hcq))
  have hfrom : ∀ {q}, Handles s' q → Handles (w.nodes k) q := by
    intro q hq
    subst hs
    rcases handles_of_setThread (s := w.nodes k) hq with ⟨-, hq⟩ | hq
    · cases hq
    · exact hq
  have hacc : ∀ {q}, accepted (w.nodes k) s' i = some q → q = quote := by
    intro q hq
    obtain ⟨-, ⟨c', hc'⟩, -⟩ := accepted_eq_some.mp hq
    rw [hc] at hc'
    exact (AddCall.checkingRing.inj hc').1.symm
  refine h.move (k := k) ⟨nodes_broadcast _, ?_, ?_, ?_, ?_, ?_, ?_, ?_, ?_⟩
  · have hthread : NodeSound ledger S ((w.nodes k).setThread i { (w.nodes k).threads i with
        call := .done ((w.nodes k).book.addQuote .none quote).1 }) :=
      hnode.setThread (fun q hq => by cases hq) trivial (hnode.origins i)
        (fun q _ hq => by cases hq)
    subst hs
    exact ⟨hthread.sameLedger, hbook, hthread.calls, hthread.soFar, hthread.origins,
      hthread.gossip⟩
  · rw [hbook']
    exact Set.subset_insert _ _
  · intro m q hq
    exact .inl (mem_broadcast.1.mpr (.inl hq))
  · intro q hq
    rcases hto hq with hq | rfl
    · exact .inl hq
    · exact .inr (hbook' ▸ Set.mem_insert _ _)
  · intro m q hq
    rcases mem_broadcast.2.mp hq with hq | ⟨q', hq', hmem⟩
    · exact .inl hq
    · obtain rfl := hacc hq'
      obtain ⟨-, rfl⟩ := mem_messages.mp hmem
      exact .inr ⟨hqS, hpass, hbook' ▸ Set.mem_insert _ _⟩
  · intro m q hq
    refine mem_broadcast.2.mpr ?_
    exact (mem_broadcast.1.mp hq).imp_left h.undelivered
  · intro q hq
    exact .inl (hfrom hq)
  · intro key hkey
    rw [hbook'] at hkey
    rcases hkey with rfl | hkey
    · rcases hres with ⟨hok, hnew⟩ | ⟨-, hold⟩
      · cases ho : ((w.nodes k).threads i).origin with
        | client =>
            right
            intro m hne
            have hsome : accepted (w.nodes k) s' i = some quote :=
              accepted_eq_some.mpr ⟨ho, ⟨c, hc⟩, hcall.trans (by rw [hok])⟩
            refine ⟨quote, mem_broadcast.1.mpr (.inr ⟨quote, hsome, ?_⟩), rfl⟩
            exact mem_messages.mpr ⟨hne, rfl⟩
        | gossip => exact .inl (h.covered.origin ⟨quote, .inr ⟨i, ho, hcq⟩, rfl⟩)
        | sync => exact absurd ho (hnode.origins i)
      · exact .inl ⟨k, hold⟩
    · exact .inl ⟨k, hkey⟩

theorem Sound.rehash (h : Sound ledger S w) {scis : AssocMap Pair (List Quote)}
    (hs : (w.nodes k).step svc (.rehash scis) = some s') : Sound ledger S (w.setNode k s') := by
  obtain ⟨book, hb, rfl⟩ := Option.map_eq_some_iff.mp hs
  have hnode := h.nodes k
  obtain ⟨hsound, hkeys⟩ := hnode.book.rehash hb
  refine h.move (k := k) ⟨rfl, ?_, hkeys.ge, .inl, .inl, .inl, h.undelivered, .inl, ?_⟩
  · exact ⟨hnode.sameLedger, hsound, hnode.calls, hnode.soFar, hnode.origins, hnode.gossip⟩
  · intro key hkey
    rw [hkeys] at hkey
    exact .inl ⟨k, hkey⟩

theorem Sound.step (hS : Genuine svc.mc S) (hser : ser.Lossless) (h : Sound ledger S w)
    {a : NetworkAction n} (hg : Offers svc validators S w a)
    (hs : w.step svc validators a = some w') : Sound ledger S w' := by
  cases a with
  | submit k i sci timestamp =>
      obtain ⟨s, hnode, rfl⟩ := Option.map_eq_some_iff.mp hs
      exact h.submit hg hnode
  | advance k i =>
      obtain ⟨s, hnode, rfl⟩ := Option.map_eq_some_iff.mp hs
      rcases Node.advance_cases hnode with ⟨quote, c, hc, heq⟩ | ⟨c', hc', rfl⟩
      · exact h.insert hS hser hc heq
      · have hnone : accepted (w.nodes k)
            ((w.nodes k).setThread i { (w.nodes k).threads i with call := c' }) i = none := by
          refine Option.eq_none_iff_forall_ne_some.mpr ?_
          intro q hq
          obtain ⟨-, ⟨c, hc⟩, -⟩ := accepted_eq_some.mp hq
          rw [hc] at hc'
          cases hc'
        rw [hnone]
        exact h.check hc'
  | deliver k i quote =>
      simp only [Network.step] at hs
      split at hs
      · next hpub =>
          obtain ⟨s, hnode, rfl⟩ := Option.map_eq_some_iff.mp hs
          exact h.deliver hS hpub hnode
      · cases hs
  | rehash k scis =>
      obtain ⟨s, hnode, rfl⟩ := Option.map_eq_some_iff.mp hs
      exact h.rehash hnode

/-- **Nodes that gossip converge.**  Whatever is submitted where, and in whatever order and
however often messages are delivered: when no message is outstanding, all nodes have the
same pairs and key images on offer. -/
theorem settled_nodes_agree (hS : Genuine svc.mc S) (hser : ser.Lossless)
    {books : Fin n → NodeBook ser} (hb : ∀ k, (books k).Empty) {as : List (NetworkAction n)}
    (hrun : Lts.Run (step svc validators) (Offers svc validators S) (initial ledger books) as w)
    (hsettled : w.Settled) (k m : Fin n) : (w.nodes k).book.keys = (w.nodes m).book.keys := by
  have hsound : Sound ledger S w :=
    hrun.inv (Sound ledger S) (fun h hg hs => h.step hS hser hg hs) (sound_initial hb)
  refine hsound.covered.agree ?_ k m
  intro k
  refine Set.eq_empty_iff_forall_notMem.mpr ?_
  rintro key ⟨q, hq | ⟨i, ho, hq⟩, -⟩
  · rw [hsettled.delivered] at hq
    exact absurd hq List.not_mem_nil
  · rw [hsettled.handled k i ho] at hq
    cases hq

/-! ## Two clients, one input -/

def contenders : Set Quote :=
  {q | q = sampleQuote 1 10 20 100 7 ∨ q = sampleRival 1 9 10 20 100 8}

theorem contenders_genuine : Genuine sampleCore contenders where
  made := by
    rintro q (rfl | rfl)
    · exact sampleQuote_made ..
    · exact sampleRival_made ..
  collisionFree := by
    rintro q q' (rfl | rfl) (rfl | rfl) <;> decide

/-- One is submitted at each of two nodes; both are accepted, and the messages cross. -/
def crossing : List (NetworkAction 2) :=
  [.submit 0 0 (sampleSci 1 10 20 100) 7, .advance 0 0, .advance 0 0, .advance 0 0,
    .submit 1 0 (sampleRivalSci 1 9 10 20 100) 8, .advance 1 0, .advance 1 0, .advance 1 0,
    .deliver 1 1 (sampleQuote 1 10 20 100 7), .advance 1 1, .advance 1 1, .advance 1 1,
    .deliver 0 1 (sampleRival 1 9 10 20 100 8), .advance 0 1, .advance 0 1, .advance 0 1]

theorem crossing_agree : ∃ w : Network 2 sampleSerial,
    Lts.Run (step ClientService.sampleService fun _ => quoteMinimumValidator fun _ => none)
      (Offers ClientService.sampleService (fun _ => quoteMinimumValidator fun _ => none) contenders)
      (initial [⟨[], []⟩] fun _ => .inMemory .default) crossing w ∧
    (w.nodes 0).book.inner.quotes = [sampleQuote 1 10 20 100 7] ∧
    (w.nodes 1).book.inner.quotes = [sampleRival 1 9 10 20 100 8] ∧
    (w.nodes 0).book.keys = (w.nodes 1).book.keys := by
  have hrun : ∃ w : Network 2 sampleSerial,
      Lts.Run (step ClientService.sampleService fun _ => quoteMinimumValidator fun _ => none)
        (Offers ClientService.sampleService (fun _ => quoteMinimumValidator fun _ => none)
          contenders)
        (initial [⟨[], []⟩] fun _ => .inMemory .default) crossing w ∧ w.Settled ∧
      (w.nodes 0).book.inner.quotes = [sampleQuote 1 10 20 100 7] ∧
      (w.nodes 1).book.inner.quotes = [sampleRival 1 9 10 20 100 8] := by
    refine ⟨_, .cons ?_ rfl (.cons trivial rfl (.cons trivial rfl (.cons trivial rfl
      (.cons ?_ rfl (.cons trivial rfl (.cons trivial rfl (.cons trivial rfl
      (.cons trivial rfl (.cons trivial rfl (.cons trivial rfl (.cons trivial rfl
      (.cons trivial rfl (.cons trivial rfl (.cons trivial rfl (.cons trivial rfl
        (.nil _)))))))))))))))), ⟨rfl, ?_⟩, rfl, rfl⟩
    · rintro q ⟨⟩
      exact .inl rfl
    · rintro q ⟨⟩
      exact .inr rfl
    · intro k i
      match k, i with
      | 0, 0 => exact fun _ => rfl
      | 0, 1 => exact fun _ => rfl
      | 0, i + 2 => exact fun _ => rfl
      | 1, 0 => exact fun _ => rfl
      | 1, 1 => exact fun _ => rfl
      | 1, i + 2 => exact fun _ => rfl
  obtain ⟨w, hrun, hsettled, h₀, h₁⟩ := hrun
  have hempty : (NodeBook.inMemory .default : NodeBook sampleSerial).Empty := rfl
  exact ⟨w, hrun, h₀, h₁, settled_nodes_agree contenders_genuine sampleSerial_lossless
    (fun _ => hempty) hrun hsettled 0 1⟩

end Network
end Deqs
