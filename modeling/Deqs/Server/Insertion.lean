/-
# The book of a node, whatever happens to it

A node's book is in memory only or kept in a database, and each call of it may find a failure of
the database.  Of all this the nodes need three things:

    keyed_apply, keyed_rehash, keyed_reopen    the keys stay distinct
    leaves_addQuote                            what an `add_quote` leaves behind (`Leaves`)
    addQuote_ne_panic                          and that it does not panic

An `add_quote` is counted by a sync when it says that the quote is new or that it is a duplicate
(`Taken`).  Then the key is on offer, or the table had the identifier already: the latter is what
a removal whose `COMMIT` failed leaves.
-/
import Deqs.Sync.Restart
import Deqs.Server.Network

namespace Deqs

open Sync (Ledger AddCall)

/-! ## A book with distinct keys, whatever happens to it -/

namespace NodeBook

variable {mc : McCore} {S : Set Quote} {ser : Serial} {book book' : NodeBook ser} {q : Quote}

theorem keyed_apply (hS : Genuine mc S) (h : book.inner.Keyed S) (faults : Faults) {call : Call}
    (hcall : ∀ q, call = .addQuote q → q ∈ S) : (book.apply mc faults call).2.inner.Keyed S := by
  cases book with
  | inMemory book => exact InMemoryQuoteBook.Keyed.apply hS h call hcall
  | sqlite book =>
      have hkept : (book.apply mc faults call).2.quoteBook.Keyed S := by
        rcases SqliteQuoteBook.forwards_apply mc faults book call with heq | ⟨heq, -⟩
        · rw [heq]
          exact h
        · rw [heq]
          exact InMemoryQuoteBook.Keyed.apply hS h call hcall
      exact hkept

theorem keyed_rehash (h : book.inner.Keyed S) {scis : AssocMap Pair (List Quote)}
    (hr : book.rehash scis = some book') : book'.inner.Keyed S := by
  unfold rehash at hr
  split at hr
  · next hp =>
      obtain rfl := Option.some.inj hr
      cases book with
      | inMemory book => exact h.reorder hp _
      | sqlite book => exact h.reorder hp _
  · cases hr

theorem keyed_reopen (hS : Genuine mc S) (hser : ser.Lossless)
    (hrows : ∀ r ∈ book.rows, ∃ q ∈ S, r = Row.ofQuote ser q)
    {faults : SqliteQuoteBook.OpenFaults} {rows : List Row}
    (hr : book.reopen faults rows = some book') : book'.inner.Keyed S := by
  cases book with
  | inMemory book =>
      obtain rfl := Option.some.inj hr
      exact InMemoryQuoteBook.keyed_default
  | sqlite book =>
      simp only [reopen] at hr
      split at hr
      · next hp =>
          cases hnew : SqliteQuoteBook.new faults book.table rows .default with
          | err e => simp [hnew] at hr
          | panic m => simp [hnew] at hr
          | ok opened =>
              simp only [hnew, Option.some.injEq] at hr
              subst hr
              obtain ⟨-, hload⟩ := SqliteQuoteBook.new_ok hnew
              have hwritten : ∀ r ∈ rows, ∃ q ∈ S, r = Row.ofQuote ser q :=
                fun r hin => hrows r (hp.mem_iff.mp hin)
              have hquotes : ∀ r ∈ rows, ∃ q, Row.ofQuote ser q = r :=
                fun r hin => (hwritten r hin).imp fun q hq => hq.2.symm
              obtain ⟨qs, rfl⟩ := Table.exists_quotes_of_written hquotes
              have hqs : ∀ q ∈ qs, q ∈ S := by
                intro q hq
                obtain ⟨q', hq', heq⟩ := hwritten _ (List.mem_map_of_mem hq)
                exact Row.ofQuote_injective hser heq ▸ hq'
              exact (Sync.keyed_of_loadRows hS hser InMemoryQuoteBook.keyed_default hqs hload).1
      · cases hr

/-- The outcome of an `add_quote` that is counted as added or as a duplicate. -/
def Taken (outcome : Outcome Error Unit) : Prop :=
  outcome = .ok () ∨ ∃ existing, outcome = .err (.quoteAlreadyExists existing)

/-- What an `add_quote` of `q` leaves behind. -/
structure Leaves (S : Set Quote) (q : Quote) (book : NodeBook ser)
    (result : Outcome Error Unit × NodeBook ser) : Prop where
  keyed : result.2.inner.Keyed S
  rows : ∀ r ∈ result.2.rows, r ∈ book.rows ∨
    r = Row.ofQuote ser q ∧ q ∈ result.2.inner.quotes
  taken : Taken result.1 → q.key ∈ result.2.keys ∨ (Row.ofQuote ser q).id ∈ book.rows.map Row.id

theorem leaves_inMemory (hS : Genuine mc S) {book : InMemoryQuoteBook} (h : book.Keyed S)
    (hq : q ∈ S) : (book.addQuote q).2.Keyed S ∧
      ((book.addQuote q).1 = .ok () → q ∈ (book.addQuote q).2.quotes) ∧
      (Taken (book.addQuote q).1 → ∃ x ∈ (book.addQuote q).2.quotes, x.key = q.key) := by
  cases hp : book.poisoned with
  | true =>
      have heq : book.addQuote q = (.err .lockPoisoned, book) := by
        simp [InMemoryQuoteBook.addQuote, hp]
      rw [heq]
      refine ⟨h, by simp, ?_⟩
      rintro (hok | ⟨e, he⟩)
      · cases hok
      · cases he
  | false =>
      rcases h.addQuote_key hS hp hq with ⟨e, he, hkey, heq⟩ | ⟨-, book', heq, -, hperm, hk⟩
      · rw [heq]
        exact ⟨h, by simp, fun _ => ⟨e, he, hkey⟩⟩
      · rw [heq]
        have hmem : q ∈ book'.quotes := hperm.mem_iff.mpr List.mem_cons_self
        exact ⟨hk, fun _ => hmem, fun _ => ⟨q, hmem, rfl⟩⟩

end NodeBook

/-- The table stops the quote, or memory is asked; and the transaction is committed or rolled
back. -/
theorem SqliteQuoteBook.addQuote_split {ser : Serial} (faults : Faults) (q : Quote)
    (book : SqliteQuoteBook ser) :
    (∃ e, ((∀ x, e ≠ .quoteAlreadyExists x) ∨ book.table.insert q = none) ∧
      book.addQuote faults q = (.err e, book)) ∨
    ∃ table, book.table.insert q = some table ∧
      ((book.quoteBook.addQuote q).1 = .ok () ∧
          book.addQuote faults q = (.ok (), ⟨table, (book.quoteBook.addQuote q).2⟩) ∨
        (book.quoteBook.addQuote q).1 ≠ .ok () ∧ book.addQuote faults q =
          ((book.quoteBook.addQuote q).1, ⟨book.table, (book.quoteBook.addQuote q).2⟩) ∨
        ∃ e, (∀ x, e ≠ .quoteAlreadyExists x) ∧
          book.addQuote faults q = (.err e, ⟨book.table, (book.quoteBook.addQuote q).2⟩)) := by
  unfold SqliteQuoteBook.addQuote transact immediateTransaction addQuoteBody
  cases faults.conn with
  | some e => exact .inl ⟨_, .inl (by simp), rfl⟩
  | none =>
  cases faults.begin with
  | some e => exact .inl ⟨_, .inl (by simp [dieselError]), rfl⟩
  | none =>
  cases faults.statement with
  | some e => exact .inl ⟨_, .inl (by simp [dieselError]), rfl⟩
  | none =>
  cases hi : book.table.insert q with
  | none => exact .inl ⟨_, .inr rfl, rfl⟩
  | some table =>
      refine .inr ⟨table, rfl, ?_⟩
      rcases book.quoteBook.addQuote q with ⟨r, inner⟩
      cases r with
      | ok u =>
          cases faults.commit with
          | none => exact .inl ⟨rfl, rfl⟩
          | some e => exact .inr (.inr ⟨_, by simp [dieselError], rfl⟩)
      | err e => exact .inr (.inl ⟨by simp, rfl⟩)
      | panic m => exact .inr (.inl ⟨by simp, rfl⟩)

namespace NodeBook

variable {mc : McCore} {S : Set Quote} {ser : Serial} {book book' : NodeBook ser} {q : Quote}

/-- **Adding, whatever the database does.**  What is counted is on offer afterwards, or its
identifier was in the table. -/
theorem leaves_addQuote (hS : Genuine mc S) (h : book.inner.Keyed S) (faults : Faults)
    (hq : q ∈ S) : Leaves S q book (book.addQuote faults q) := by
  cases book with
  | inMemory book =>
      obtain ⟨hk, -, htaken⟩ := leaves_inMemory hS h hq
      exact ⟨hk, fun r hr => .inl hr, fun ht => .inl (htaken ht)⟩
  | sqlite book =>
      obtain ⟨hk, hok, htaken⟩ := leaves_inMemory hS h hq
      have hid : book.table.insert q = none →
          (Row.ofQuote ser q).id ∈ book.table.rows.map Row.id := by
        intro hnone
        by_contra hnot
        simp [Table.insert, hnot] at hnone
      rcases book.addQuote_split faults q with ⟨e, hwhy, heq⟩ | ⟨table, hi, hcases⟩
      · rw [NodeBook.addQuote, heq]
        refine ⟨h, fun r hr => .inl hr, ?_⟩
        rintro (hok | ⟨x, hx⟩)
        · cases hok
        · rcases hwhy with hnot | hnone
          · exact absurd (Outcome.err.inj hx) (hnot x)
          · exact .inr (hid hnone)
      · rcases hcases with ⟨hr, heq⟩ | ⟨-, heq⟩ | ⟨e, hnot, heq⟩
        · rw [NodeBook.addQuote, heq]
          refine ⟨hk, ?_, fun _ => .inl ⟨q, hok hr, rfl⟩⟩
          intro r hin
          have hin' : r ∈ table.rows := hin
          rw [Table.rows_insert hi] at hin'
          rcases List.mem_cons.mp hin' with rfl | hold
          · exact .inr ⟨rfl, hok hr⟩
          · exact .inl hold
        · rw [NodeBook.addQuote, heq]
          exact ⟨hk, fun r hin => .inl hin, fun ht => .inl (htaken ht)⟩
        · rw [NodeBook.addQuote, heq]
          refine ⟨hk, fun r hin => .inl hin, ?_⟩
          rintro (hok | ⟨x, hx⟩)
          · cases hok
          · exact absurd (Outcome.err.inj hx) (hnot x)

theorem addQuote_ne_panic (hS : Genuine mc S) (h : book.inner.Keyed S) (faults : Faults)
    (hq : q ∈ S) (m : String) : (book.addQuote faults q).1 ≠ .panic m := by
  have hinner : ∀ {inner : InMemoryQuoteBook}, inner.Keyed S →
      (inner.addQuote q).1 ≠ .panic m := by
    intro inner hk
    cases hp : inner.poisoned with
    | true => simp [InMemoryQuoteBook.addQuote, hp]
    | false =>
        rcases hk.addQuote_key hS hp hq with ⟨e, -, -, heq⟩ | ⟨-, book', heq, -⟩
        · simp [heq]
        · simp [heq]
  cases book with
  | inMemory book =>
      exact hinner h
  | sqlite book =>
      have hne : (book.quoteBook.addQuote q).1 ≠ .panic m := hinner h
      rcases book.addQuote_split faults q with ⟨e, -, heq⟩ | ⟨table, -, hcases⟩
      · simp [NodeBook.addQuote, heq]
      · rcases hcases with ⟨-, heq⟩ | ⟨-, heq⟩ | ⟨e, -, heq⟩
        · simp [NodeBook.addQuote, heq]
        · simpa [NodeBook.addQuote, heq] using hne
        · simp [NodeBook.addQuote, heq]

end NodeBook

namespace Sync.AddCall

theorem next_ne_taken {ledger : Ledger} {fault : Option String} {c : AddCall}
    {outcome : Outcome Error Unit} (h : c.next ledger fault = some (.done outcome)) :
    ¬ NodeBook.Taken outcome := by
  have hne : ∀ {e : Error}, (∀ x, e ≠ .quoteAlreadyExists x) →
      AddCall.done (.err e) = .done outcome → ¬ NodeBook.Taken outcome := by
    rintro e he ⟨⟩ (hok | ⟨x, hx⟩)
    · cases hok
    · exact he x (Outcome.err.inj hx)
  cases c with
  | idle => cases h
  | done r => cases h
  | start q =>
      cases fault with
      | some e => exact hne (by simp) (Option.some.inj h)
      | none =>
          have hcall : checkTombstone q ledger.currentBlockIndex = .done outcome :=
            Option.some.inj h
          rcases unreached_of_checkTombstone with hstale | ⟨hread, -⟩
          · exact hne (by simp) (hstale.symm.trans hcall)
          · cases hread.symm.trans hcall
  | readBlocks q n =>
      cases fault with
      | some e => exact hne (by simp) (Option.some.inj h)
      | none =>
          have hcall := Option.some.inj h
          simp only [checkKeyImage, enterRing] at hcall
          split at hcall
          · exact hne (by simp) hcall
          · split at hcall
            · exact hne (by simp) hcall
            · cases hcall
  | checkingRing q n rest =>
      cases rest with
      | nil => cases h
      | cons member rest =>
          obtain ⟨i, txOut⟩ := member
          cases fault with
          | some e => exact hne (by simp) (Option.some.inj h)
          | none =>
              have hcall := Option.some.inj h
              simp only [checkMember] at hcall
              split at hcall
              · exact hne (by simp) hcall
              · split at hcall
                · exact hne (by simp) hcall
                · cases hcall

end Sync.AddCall

end Deqs
