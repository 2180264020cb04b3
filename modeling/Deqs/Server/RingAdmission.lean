/-
# Ring admission — a stored quote spends a TxOut of the ledger

An SCI is signed over a ring of TxOuts and says at which global indices of the ledger they
are.  `add_quote` looks every one of them up before it inserts the quote.  The ledger only
grows, and what it has at an index stays there; so the check holds for good, however many
blocks come between it and the insertion, or after it.

| what | why |
| :-- | :-- |
| `AddCall.RingChecked` | what the loop of `validate_quote_ring_members` has seen so far |
| `Quote.RingIn` | the same once the loop is through: every member, at its index |
| `State.Admitted`, `Node.Admitted` | what is stored is `RingIn` the ledger, in every state |

The first system is the book of `Sync.Model`, with any number of threads that add any
quotes.  The second is the node, whose inner book may be the one in SQLite and which may be
restarted; what is stored there is what is in memory or in the table.

**Who changes the inner book.**  A step of `add_quote` does if it ends the call with `Ok`,
and then it is the last one.  Every error comes before that, or from an insertion that left
the book as it was (`book_of_advance`).  The one exception is a commit that fails in SQLite
after the quote has been put into memory.
-/
import Deqs.Server.Node

namespace Deqs

open Sync (Ledger Block AddCall)

/-! ## The check, on a ledger that grows -/

namespace Sync.Ledger

theorem getTxOutByIndex_eq_ok {ledger : Ledger} {index : UInt64} {txOut : TxOut} :
    getTxOutByIndex ledger index = .ok txOut ↔
      (ledger.flatMap Block.outputs)[index.toNat]? = some txOut := by
  unfold getTxOutByIndex
  split <;> simp_all

theorem getTxOutByIndex_append {ledger : Ledger} {index : UInt64} {txOut : TxOut}
    (h : getTxOutByIndex ledger index = .ok txOut) (blocks : List Block) :
    getTxOutByIndex (ledger ++ blocks) index = .ok txOut := by
  rw [getTxOutByIndex_eq_ok] at h ⊢
  obtain ⟨hlt, -⟩ := List.getElem?_eq_some_iff.mp h
  rw [List.flatMap_append, List.getElem?_append_left hlt, h]

end Sync.Ledger

/-- The quote has an index for each ring member, and each member is at its index. -/
structure Quote.RingIn (ledger : Ledger) (q : Quote) : Prop where
  length_eq : q.sci.txOutGlobalIndices.length = q.sci.txIn.ring.length
  member : ∀ (i : Nat) index txOut, q.sci.txOutGlobalIndices[i]? = some index →
    q.sci.txIn.ring[i]? = some txOut → Ledger.getTxOutByIndex ledger index = .ok txOut

theorem Quote.RingIn.append {ledger : Ledger} {q : Quote} (h : q.RingIn ledger)
    (blocks : List Block) : q.RingIn (ledger ++ blocks) :=
  ⟨h.length_eq, fun i index txOut hindex htxOut =>
    Ledger.getTxOutByIndex_append (h.member i index txOut hindex htxOut) blocks⟩

theorem Quote.RingIn.run {σ α : Type} {step : σ → α → Option σ} {ledger : σ → Ledger}
    (hgrow : ∀ {s a s'}, step s a = some s' → ∃ blocks, ledger s' = ledger s ++ blocks)
    {q : Quote} {s s' : σ} {as : List α} (h : q.RingIn (ledger s))
    (hrun : Lts.Run step Lts.Any s as s') : q.RingIn (ledger s') := by
  refine hrun.inv (fun t => q.RingIn (ledger t)) ?_ h
  intro t a t' ht _ hs
  obtain ⟨blocks, hledger⟩ := hgrow hs
  rw [hledger]
  exact ht.append blocks

namespace Sync.AddCall

def RingChecked (ledger : Ledger) : AddCall → Prop
  | .checkingRing q _ rest =>
      q.sci.txIn.ring.length = q.sci.txOutGlobalIndices.length ∧
        ∃ seen, q.sci.txOutGlobalIndices.zip q.sci.txIn.ring = seen ++ rest ∧
          ∀ m ∈ seen, Ledger.getTxOutByIndex ledger m.1 = .ok m.2
  | _ => True

theorem RingChecked.append {ledger : Ledger} {c : AddCall} (h : c.RingChecked ledger)
    (blocks : List Block) : c.RingChecked (ledger ++ blocks) := by
  cases c with
  | checkingRing q n rest =>
      obtain ⟨hlen, seen, hzip, hseen⟩ := h
      exact ⟨hlen, seen, hzip, fun m hm => Ledger.getTxOutByIndex_append (hseen m hm) blocks⟩
  | _ => trivial

theorem RingChecked.next {ledger : Ledger} {fault : Option String} {c c' : AddCall}
    (hc : c.RingChecked ledger) (h : c.next ledger fault = some c') : c'.RingChecked ledger := by
  rcases next_cases h with ⟨e, rfl⟩ | ⟨q, rfl, rfl, -⟩ | ⟨q, n, rfl, rfl, -, hlen⟩ |
    ⟨q, n, index, txOut, rest, rfl, rfl, hget⟩
  · trivial
  · trivial
  · exact ⟨hlen, [], rfl, fun m hm => absurd hm List.not_mem_nil⟩
  · obtain ⟨hlen, seen, hzip, hseen⟩ := hc
    refine ⟨hlen, seen ++ [(index, txOut)], by simp [hzip], ?_⟩
    intro m hm
    rcases List.mem_append.mp hm with hm | hm
    · exact hseen m hm
    · obtain rfl := List.mem_singleton.mp hm
      exact hget

/-- The loop is through: the zip has covered every position. -/
theorem RingChecked.ringIn {ledger : Ledger} {q : Quote} {n : BlockIndex}
    (h : (checkingRing q n []).RingChecked ledger) : q.RingIn ledger := by
  obtain ⟨hlen, seen, hzip, hseen⟩ := h
  rw [List.append_nil] at hzip
  refine ⟨hlen.symm, ?_⟩
  intro i index txOut hindex htxOut
  refine hseen (index, txOut) ?_
  rw [← hzip]
  exact List.mem_of_getElem? (List.getElem?_zip_eq_some.mpr ⟨hindex, htxOut⟩)

theorem RingChecked.of_quiet {ledger : Ledger} {c : AddCall} (h : c.Quiet) :
    c.RingChecked ledger := by
  cases c with
  | checkingRing q n rest => cases h
  | _ => trivial

theorem ringChecked_ofOffer (ledger : Ledger) (o : Outcome Error Quote) :
    (ofOffer o).RingChecked ledger := by
  cases o with
  | ok q => trivial
  | err e => trivial
  | panic m => trivial

end Sync.AddCall

/-! ## The synchronized book over memory -/

namespace Sync.State

variable {mc : McCore} {s s' : State}

structure Admitted (s : State) : Prop where
  book : ∀ q ∈ s.book.quotes, q.RingIn s.ledger
  calls : ∀ i, (s.calls i).RingChecked s.ledger

theorem ledger_of_step {a : Action} (h : s.step mc a = some s') :
    ∃ blocks, s'.ledger = s.ledger ++ blocks := by
  rcases step_cases h with ⟨block, -, rfl⟩ | ⟨fault, -, hf⟩ | hsame
  · exact ⟨[block], rfl⟩
  · exact ⟨[], by rw [(fetches_of_fetch hf).ledger_eq, List.append_nil]⟩
  · exact ⟨[], by rw [hsame.ledger, List.append_nil]⟩

theorem Admitted.step {a : Action} (hs : Admitted s) (h : s.step mc a = some s') :
    Admitted s' := by
  obtain ⟨blocks, hledger⟩ := ledger_of_step h
  refine ⟨?_, ?_⟩
  · intro q hq
    rw [hledger]
    rcases mem_quotes_of_step h hq with hq | ⟨i, c, hi⟩
    · exact (hs.book q hq).append blocks
    · have hchecked := hs.calls i
      rw [hi] at hchecked
      exact hchecked.ringIn.append blocks
  · intro i
    rw [hledger]
    rcases calls_of_step h i with heq | ⟨quote, -, heq⟩ | ⟨r, heq⟩ | ⟨fault, hnext⟩
    · rw [heq]
      exact (hs.calls i).append blocks
    · rw [heq]
      trivial
    · rw [heq]
      trivial
    · exact ((hs.calls i).next hnext).append blocks

theorem admitted_initial (ledger : Ledger) : Admitted (.initial ledger .default) :=
  ⟨fun _ hq => absurd hq List.not_mem_nil, fun _ => trivial⟩

/-- Only a step that ends a call with `Ok`, or in a panic, changes the inner book. -/
theorem book_of_advance {i : Nat} {fault : Option String} (h : s.advance i fault = some s') :
    s'.book = s.book ∨ s'.calls i = .done (.ok ()) ∨ ∃ m, s'.calls i = .done (.panic m) := by
  rcases advance_cases h with ⟨quote, c, -, rfl⟩ | ⟨c', -, rfl⟩
  · rcases hadd : s.book.addQuote quote with ⟨r, book⟩
    have hcall : (s.insert i quote).calls i = .done r := by
      simp only [insert, hadd, Function.update_self]
    cases r with
    | ok u => exact .inr (.inl hcall)
    | err e =>
        left
        simp only [insert, hadd]
        exact InMemoryQuoteBook.addQuote_err hadd
    | panic m => exact .inr (.inr ⟨m, hcall⟩)
  · exact .inl rfl

end Sync.State

/-! ## The node, over memory or SQLite -/

namespace SqliteQuoteBook

variable {ser : Serial} {faults : Faults} {book : SqliteQuoteBook ser} {e : Error}

/-- A transaction that fails has done nothing, if its body does nothing to the inner book
when it fails and it is not the commit that failed. -/
theorem transact_err {α : Type} {b : SqliteQuoteBook ser → Outcome Error α × SqliteQuoteBook ser}
    (hcommit : faults.commit = none)
    (hb : ∀ e, (b book).1 = .err e → (b book).2.quoteBook = book.quoteBook)
    (h : (transact faults b book).1 = .err e) : (transact faults b book).2 = book := by
  rcases transact_cases faults b book with ⟨e', heq⟩ | ⟨a, ha, heq⟩ |
    ⟨r, heq, ⟨hr, -⟩ | ⟨hfail, -⟩⟩
  · rw [heq]
  · simp [heq, ha] at h
  · rw [heq] at h ⊢
    rw [hb e (hr.trans h)]
  · exact absurd hcommit hfail

theorem addQuoteBody_err {quote : Quote} (h : (addQuoteBody faults quote book).1 = .err e) :
    (addQuoteBody faults quote book).2.quoteBook = book.quoteBook := by
  unfold addQuoteBody at h ⊢
  cases hs : faults.statement with
  | some e => rfl
  | none =>
      cases hi : book.table.insert quote with
      | none => rfl
      | some table =>
          rcases hadd : book.quoteBook.addQuote quote with ⟨r, inner⟩
          simp only [hs, hi, hadd] at h ⊢
          subst h
          exact InMemoryQuoteBook.addQuote_err hadd

end SqliteQuoteBook

/-- An insertion that fails leaves both stores as they were, if the commit does not fail. -/
theorem NodeBook.addQuote_err {ser : Serial} {faults : Faults} {quote : Quote}
    {book : NodeBook ser} {e : Error} (hcommit : faults.commit = none)
    (h : (book.addQuote faults quote).1 = .err e) : (book.addQuote faults quote).2 = book := by
  cases book with
  | inMemory book =>
      rcases hadd : book.addQuote quote with ⟨r, book'⟩
      simp only [addQuote, hadd, Prod.map, id] at h ⊢
      subst h
      exact congrArg NodeBook.inMemory (InMemoryQuoteBook.addQuote_err hadd)
  | sqlite book =>
      refine congrArg NodeBook.sqlite (SqliteQuoteBook.transact_err hcommit ?_ h)
      exact fun _ => SqliteQuoteBook.addQuoteBody_err

namespace Node

variable {ser : Serial} {svc : ClientService} {s s' : Node ser}

structure Admitted (s : Node ser) : Prop where
  inner : ∀ q ∈ s.book.inner.quotes, q.RingIn s.ledger
  rows : ∀ r ∈ s.book.rows, ∃ q : Quote, q.RingIn s.ledger ∧ r = Row.ofQuote ser q
  calls : ∀ i, (s.threads i).call.RingChecked s.ledger

theorem Admitted.stores (hser : ser.Lossless) (hs : Admitted s) {q : Quote}
    (hq : s.book.Stores q) : q.RingIn s.ledger := by
  rcases hq with hq | ⟨r, hr, hdec⟩
  · exact hs.inner q hq
  · -- a row decodes to the quote it was written from
    obtain ⟨q', hring, rfl⟩ := hs.rows r hr
    rw [Row.toQuote_ofQuote hser] at hdec
    exact Except.ok.inj hdec ▸ hring

theorem Admitted.step (hser : ser.Lossless) {a : NodeAction} (hs : Admitted s)
    (h : s.step svc a = some s') : Admitted s' := by
  obtain ⟨⟨blocks, hledger⟩, hinner, hrows, hcalls⟩ := effects_of_step h
  have hthrough : ∀ {q : Quote} {i : Nat} {n : BlockIndex},
      (s.threads i).call = .checkingRing q n [] → q.RingIn (s.ledger ++ blocks) := by
    intro q i n hi
    have hchecked := hs.calls i
    rw [hi] at hchecked
    exact hchecked.ringIn.append blocks
  refine ⟨?_, ?_, ?_⟩
  · intro q hq
    rw [hledger]
    rcases hinner q hq with hq | ⟨i, n, hi⟩
    · exact (hs.stores hser hq).append blocks
    · exact hthrough hi
  · intro r hr
    rw [hledger]
    rcases hrows r hr with hr | ⟨q, i, n, hi, rfl⟩
    · obtain ⟨q, hring, rfl⟩ := hs.rows r hr
      exact ⟨q, hring.append blocks, rfl⟩
    · exact ⟨q, hthrough hi, rfl⟩
  · intro i
    rw [hledger]
    rcases hcalls i with heq | ⟨o, heq, -⟩ | hquiet | ⟨fault, hnext⟩
    · rw [heq]
      exact (hs.calls i).append blocks
    · rw [heq]
      exact AddCall.ringChecked_ofOffer _ o
    · exact AddCall.RingChecked.of_quiet hquiet
    · exact ((hs.calls i).next hnext).append blocks

theorem admitted_initial (ledger : Ledger) {book : NodeBook ser} (hb : book.Empty) :
    Admitted (.initial ledger book) := by
  obtain ⟨hinner, hrows⟩ := NodeBook.not_mem_of_empty hb
  exact ⟨fun q hq => absurd hq (hinner q), fun r hr => absurd hr (hrows r), fun _ => trivial⟩

theorem book_of_advance {i : Nat} {fault : Option String} {faults : Faults}
    (hcommit : faults.commit = none) (h : s.advance i fault faults = some s') :
    s'.book = s.book ∨ (s'.threads i).call = .done (.ok ()) ∨
      ∃ m, (s'.threads i).call = .done (.panic m) := by
  rcases advance_cases h with ⟨quote, n, -, rfl⟩ | ⟨c', -, rfl⟩
  · simp only [setThread, Function.update_self]
    cases hr : (s.book.addQuote faults quote).1 with
    | ok u => exact .inr (.inl rfl)
    | err e => exact .inl (NodeBook.addQuote_err hcommit hr)
    | panic m => exact .inr (.inr ⟨m, rfl⟩)
  · exact .inl rfl

end Node

/-! ## The two systems -/

/-- **Ring admission.**  In every run from an empty inner book, a quote that is stored has an
index for each ring member, and the ledger has each member at its index, then and ever
after.  A step of `add_quote` leaves the inner book as it is, unless it ends the call with
`Ok` or in a panic.  This holds of the synchronized book over memory, whatever the quotes,
and of a node over either book; there, of steps at which no commit fails. -/
theorem ring_admission :
    (∀ (mc : McCore) (ledger : Ledger) (as : List Sync.Action) (s : Sync.State),
      Lts.Run (Sync.State.step mc) Lts.Any (.initial ledger .default) as s →
      (∀ q ∈ s.book.quotes, ∀ bs s', Lts.Run (Sync.State.step mc) Lts.Any s bs s' →
        q.RingIn s'.ledger) ∧
      ∀ i fault s', s.step mc (.advance i fault) = some s' →
        s'.book = s.book ∨ s'.calls i = .done (.ok ()) ∨ ∃ m, s'.calls i = .done (.panic m)) ∧
    ∀ (ser : Serial) (svc : ClientService) (ledger : Ledger) (book : NodeBook ser)
      (as : List NodeAction) (s : Node ser), ser.Lossless → book.Empty →
      Lts.Run (Node.step svc) Lts.Any (.initial ledger book) as s →
      (∀ q, s.book.Stores q → ∀ bs s', Lts.Run (Node.step svc) Lts.Any s bs s' →
        q.RingIn s'.ledger) ∧
      ∀ i fault faults s', faults.commit = none →
        s.step svc (.advance i fault faults) = some s' →
        s'.book = s.book ∨ (s'.threads i).call = .done (.ok ()) ∨
          ∃ m, (s'.threads i).call = .done (.panic m) := by
  refine ⟨?_, ?_⟩
  · intro mc ledger as s hrun
    have hadmitted : s.Admitted :=
      hrun.inv Sync.State.Admitted (fun h _ hs => h.step hs) (Sync.State.admitted_initial ledger)
    refine ⟨?_, fun i fault s' hstep => Sync.State.book_of_advance hstep⟩
    intro q hq bs s' hlater
    exact (hadmitted.book q hq).run Sync.State.ledger_of_step hlater
  · intro ser svc ledger book as s hser hempty hrun
    have hadmitted : s.Admitted :=
      hrun.inv Node.Admitted (fun h _ hs => h.step hser hs) (Node.admitted_initial ledger hempty)
    refine ⟨?_, fun i fault faults s' hcommit hstep => Node.book_of_advance hcommit hstep⟩
    intro q hq bs s' hlater
    exact (hadmitted.stores hser hq).run (fun hs => (Node.effects_of_step hs).ledger) hlater

def memberTxOut : TxOut := ⟨.fill 7, []⟩

def ringedQuote : Quote :=
  { sampleQuote 1 10 20 0 1 with
    sci := { sampleSci 1 10 20 0 with
      txIn := { (sampleSci 1 10 20 0).txIn with ring := [memberTxOut] }
      txOutGlobalIndices := [0] } }

/-- The quote is added, and the ledger grows. -/
theorem ringed_quote_admitted : ∃ s s' : Sync.State,
    Lts.Run (Sync.State.step sampleCore) Lts.Any (.initial [⟨[], [memberTxOut]⟩] .default)
      [.call 0 ringedQuote, .advance 0 none, .advance 0 none, .advance 0 none, .advance 0 none] s ∧
    ringedQuote ∈ s.book.quotes ∧
    Lts.Run (Sync.State.step sampleCore) Lts.Any s [.append ⟨[], []⟩] s' ∧
    ringedQuote.RingIn s'.ledger := by
  have hrun : ∃ s s' : Sync.State,
      Lts.Run (Sync.State.step sampleCore) Lts.Any (.initial [⟨[], [memberTxOut]⟩] .default)
        [.call 0 ringedQuote, .advance 0 none, .advance 0 none, .advance 0 none,
          .advance 0 none] s ∧
      ringedQuote ∈ s.book.quotes ∧
      Lts.Run (Sync.State.step sampleCore) Lts.Any s [.append ⟨[], []⟩] s' :=
    ⟨_, _, Lts.run_of_exec rfl, List.mem_singleton.mpr rfl, Lts.run_of_exec rfl⟩
  obtain ⟨s, s', hrun, hmem, hlater⟩ := hrun
  exact ⟨s, s', hrun, hmem, hlater,
    (ring_admission.1 sampleCore _ _ s hrun).1 ringedQuote hmem _ s' hlater⟩

end Deqs
