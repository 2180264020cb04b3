/-
# Every quote is accounted for

A quote leaves the book in one of two ways: the fetcher takes it out and gives it to the
callback, or a caller removes it through the trait.  Two kinds of statement follow.

* **A balance**, at every point of every run: the quotes ever inserted are, as a multiset,
  the quotes in the book, those given to the callback, those the fetcher has in hand
  between a removal and the callback, and those removed through the trait.  The
  fetcher has quotes in hand only between those two steps.

* **What the published block index means**: when it is `h ≥ 1`, the quotes that were in
  the book when the fetcher started on a block up to `h` with their key image have been
  removed since, and so have the quotes with a tombstone up to `h` that were there at the
  tombstone pass for `h`.

The balance is one equation per step (`Flow`).  The second is a relative statement, two
instances of one rule (`fate_of_run`): a quote that is due stays due until it is
taken, and what is taken is handed over before the fetcher moves on.
-/
import Deqs.Sync.Model

namespace Deqs.Sync

open State

variable {mc : McCore} {S : Set Quote} {s s' s₁ s₂ : State} {q : Quote}

/-! ## Genuine quotes only -/

def AddCall.Carries (q : Quote) : AddCall → Prop
  | .start quote | .readBlocks quote _ | .checkingRing quote _ _ => quote = q
  | _ => False

/-- The quotes of the book and of the calls are in `S`. -/
structure Within (S : Set Quote) (s : State) : Prop where
  book : ∀ q ∈ s.book.quotes, q ∈ S
  calls : ∀ i q, (s.calls i).Carries q → q ∈ S

def CallsWithin (S : Set Quote) (_ : State) : Action → Prop
  | .call _ quote => quote ∈ S
  | _ => True

theorem AddCall.carries_next {ledger : Ledger} {fault : Option String} {c c' : AddCall}
    (h : c.next ledger fault = some c') (hq : c'.Carries q) : c.Carries q := by
  rcases next_cases h with ⟨e, rfl⟩ | ⟨_, rfl, rfl, -⟩ | ⟨_, _, rfl, rfl, -⟩ |
    ⟨_, _, _, _, _, rfl, rfl, -⟩
  · exact absurd hq id
  · exact hq
  · exact hq
  · exact hq

theorem within_step {a : Action} (hs : Within S s) (hg : CallsWithin S s a)
    (h : s.step mc a = some s') : Within S s' := by
  refine ⟨?_, ?_⟩
  · intro q hq
    rcases mem_quotes_of_step h hq with hq | ⟨i, c, hi⟩
    · exact hs.book q hq
    · exact hs.calls i q (by rw [hi]; rfl)
  · intro j q hq
    rcases calls_of_step h j with he | ⟨quote, rfl, he⟩ | ⟨r, he⟩ | ⟨fault, he⟩
    · exact hs.calls j q (he ▸ hq)
    · rw [he] at hq
      obtain rfl : quote = q := hq
      exact hg
    · rw [he] at hq
      exact absurd hq id
    · exact hs.calls j q (AddCall.carries_next he hq)

/-! ## The flow of quotes through one step -/

/-- What came in and what was in the book went to the fetcher, to a caller, or stayed. -/
structure Flow (s s' : State) (new byFetcher byApi : List Quote) : Prop where
  inserted : s'.inserted = new ++ s.inserted
  fetched : s'.fetched = s.fetched ++ byFetcher
  apiRemoved : s'.apiRemoved = s.apiRemoved ++ byApi
  balance : (new ++ s.book.quotes).Perm (byFetcher ++ (byApi ++ s'.book.quotes))
  byFetcher_subset : byFetcher ⊆ s.book.quotes

theorem Flow.balanced {new byFetcher byApi : List Quote} (h : Flow s s' new byFetcher byApi)
    (hs : s.inserted.Perm (s.book.quotes ++ (s.fetched ++ s.apiRemoved))) :
    s'.inserted.Perm (s'.book.quotes ++ (s'.fetched ++ s'.apiRemoved)) := by
  rw [h.inserted, h.fetched, h.apiRemoved]
  refine List.perm_iff_count.mpr ?_
  intro x
  have hstep := h.balance.count_eq x
  have hsofar := hs.count_eq x
  simp only [List.count_append] at hstep hsofar ⊢
  omega

theorem flow_still (hb : s'.book.quotes.Perm s.book.quotes) (hi : s'.inserted = s.inserted)
    (hf : s'.fetched = s.fetched) (ha : s'.apiRemoved = s.apiRemoved) : Flow s s' [] [] [] :=
  ⟨hi, by simp [hf], by simp [ha], hb.symm, List.nil_subset _⟩

theorem flow_fetches (h : Fetches mc s s') : ∃ byFetcher, Flow s s' [] byFetcher [] := by
  cases h with
  | @remove _ k _ removed _ _ hr =>
      have hrem := (hr ▸ s.book.removal_keyImage k).ok rfl
      exact ⟨removed, rfl, rfl, by simp, hrem,
        fun q hq => hrem.mem_iff.mpr (List.mem_append_left _ hq)⟩
  | @expire last removed _ _ hr =>
      have hrem := (hr ▸ s.book.removal_tombstone mc last).ok rfl
      exact ⟨removed, rfl, rfl, by simp, hrem,
        fun q hq => hrem.mem_iff.mpr (List.mem_append_left _ hq)⟩
  | _ => exact ⟨[], flow_still (.refl _) rfl rfl rfl⟩

theorem flow_of_advance {i : Nat} {fault : Option String} (h : s.advance i fault = some s') :
    (∃ quote n, s.calls i = .checkingRing quote n [] ∧ s'.calls i = .done (.ok ()) ∧
      Flow s s' [quote] [] []) ∨
    s'.calls i ≠ .done (.ok ()) ∧ Flow s s' [] [] [] := by
  rcases advance_cases h with ⟨quote, n, hi, rfl⟩ | ⟨c', hc', rfl⟩
  · rcases s.insert_cases i quote with ⟨book, -, hperm, heq⟩ | ⟨r, book, -, hr, hperm, heq⟩
    · rw [heq]
      exact .inl ⟨quote, n, hi, Function.update_self ..,
        rfl, by simp, by simp, hperm.symm, List.nil_subset _⟩
    · rw [heq]
      refine .inr ⟨?_, flow_still hperm rfl rfl rfl⟩
      simpa using hr
  · refine .inr ⟨?_, flow_still (.refl _) rfl rfl rfl⟩
    simp only [Function.update_self]
    rcases AddCall.next_cases hc' with ⟨e, rfl⟩ | ⟨q, -, rfl, -⟩ | ⟨q, n, -, rfl, -⟩ |
      ⟨q, n, j, txOut, rest, -, rfl, -⟩
    · simp
    · simp
    · simp
    · simp

theorem flow_apiRemoval {r : Outcome Error (List Quote) × InMemoryQuoteBook}
    (hr : InMemoryQuoteBook.Removal s.book r) : ∃ byApi, Flow s (s.apiRemoval r) [] [] byApi := by
  obtain ⟨r, book⟩ := r
  rw [apiRemoval_eq]
  cases r with
  | ok removed => exact ⟨removed, rfl, by simp, rfl, hr.ok rfl, List.nil_subset _⟩
  | err e => exact ⟨[], flow_still (hr.kept (by simp)) rfl rfl (by simp)⟩
  | panic m => exact ⟨[], flow_still (hr.kept (by simp)) rfl rfl (by simp)⟩

theorem flow_of_step {a : Action} (hS : Genuine mc S) (hs : Within S s)
    (h : s.step mc a = some s') : ∃ new byFetcher byApi, Flow s s' new byFetcher byApi := by
  cases a with
  | append block =>
      obtain rfl := Option.some.inj h
      exact ⟨[], [], [], flow_still (.refl _) rfl rfl rfl⟩
  | requestStop =>
      obtain rfl := Option.some.inj h
      exact ⟨[], [], [], flow_still (.refl _) rfl rfl rfl⟩
  | call i quote =>
      obtain ⟨-, rfl⟩ := call_cases h
      exact ⟨[], [], [], flow_still (.refl _) rfl rfl rfl⟩
  | advance i fault =>
      rcases flow_of_advance h with ⟨quote, n, -, -, hflow⟩ | ⟨-, hflow⟩
      · exact ⟨[quote], [], [], hflow⟩
      · exact ⟨[], [], [], hflow⟩
  | fetch fault =>
      obtain ⟨byFetcher, hflow⟩ := flow_fetches (fetches_of_fetch h)
      exact ⟨[], byFetcher, [], hflow⟩
  | removeQuoteById i =>
      obtain rfl := Option.some.inj h
      obtain ⟨byApi, hflow⟩ := flow_apiRemoval (InMemoryQuoteBook.removal_id i
        fun a ha b hb hid ht => hS.eq_of_id (hs.book a ha) (hs.book b hb) hid ht)
      exact ⟨[], [], byApi, hflow⟩
  | removeQuotesByKeyImage k =>
      obtain rfl := Option.some.inj h
      obtain ⟨byApi, hflow⟩ := flow_apiRemoval (s.book.removal_keyImage k)
      exact ⟨[], [], byApi, hflow⟩
  | removeQuotesByTombstoneBlock c =>
      obtain rfl := Option.some.inj h
      obtain ⟨byApi, hflow⟩ := flow_apiRemoval (s.book.removal_tombstone mc c)
      exact ⟨[], [], byApi, hflow⟩
  | rehash scis =>
      obtain ⟨rfl, hperm⟩ := rehash_cases h
      exact ⟨[], [], [], flow_still hperm rfl rfl rfl⟩

/-! ## The balance -/

theorem inHand_leave (n starting : Nat) : (Fetcher.leave n starting).inHand = [] := by
  unfold Fetcher.leave
  split <;> rfl

/-- What a step of the fetcher takes is handed over after all it took before. -/
theorem taken_fetches (h : Fetches mc s s') :
    ∃ taken, s'.fetched = s.fetched ++ taken ∧
      s'.handed ++ s'.fetcher.inHand = s.handed ++ s.fetcher.inHand ++ taken := by
  have hstill : ∀ {t : State}, t.fetched = s.fetched →
      t.handed ++ t.fetcher.inHand = s.handed ++ s.fetcher.inHand →
      ∃ taken, t.fetched = s.fetched ++ taken ∧
        t.handed ++ t.fetcher.inHand = s.handed ++ s.fetcher.inHand ++ taken := by
    intro t hfetched hhanded
    exact ⟨[], by rw [hfetched, List.append_nil], by rw [hhanded, List.append_nil]⟩
  cases h with
  | poll hf hor =>
      refine hstill rfl ?_
      rw [hf]
      rcases hor with rfl | rfl <;> rfl
  | notFound hf hb =>
      refine hstill rfl ?_
      rw [hf, inHand_leave]
      rfl
  | again hf hor =>
      refine hstill rfl ?_
      rw [hf]
      rcases hor with rfl | rfl
      · rw [inHand_leave]
        rfl
      · rfl
  | remove hf hr => exact ⟨_, rfl, by simp [hf, Fetcher.inHand]⟩
  | expire hf hr => exact ⟨_, rfl, by simp [hf, Fetcher.inHand]⟩
  | hand hf => exact hstill rfl (by simp [hf, Fetcher.inHand])
  | handExpired hf => exact hstill rfl (by simp [hf, Fetcher.inHand])
  | failed hf | found hf _ | finish hf | store hf =>
      refine hstill rfl ?_
      rw [hf]
      rfl
  | retry => exact hstill rfl rfl

theorem handed_fetches (hs : s.fetched = s.handed ++ s.fetcher.inHand) (h : Fetches mc s s') :
    s'.fetched = s'.handed ++ s'.fetcher.inHand := by
  obtain ⟨taken, hfetched, hhanded⟩ := taken_fetches h
  rw [hfetched, hhanded, hs]

theorem handed_of_fetch {fault : Option String} (h : s.fetch mc fault = some s') :
    s'.handed = s.handed ++ s.fetcher.inHand := by
  have hstill : ∀ {t : State}, t.handed = s.handed → s.fetcher.inHand = [] →
      t.handed = s.handed ++ s.fetcher.inHand := by
    intro t ht hnone
    rw [ht, hnone, List.append_nil]
  have hremoval : ∀ (go : List Quote → Fetcher) r, (s.fetchRemoval go r).handed = s.handed := by
    rintro go ⟨r, book⟩
    cases r <;> rfl
  unfold fetch at h
  split at h
  · next hf => obtain rfl := Option.some.inj h; exact hstill rfl (by rw [hf]; rfl)
  · next hf =>
      have hnone : s.fetcher.inHand = [] := by rw [hf]; rfl
      split at h
      · obtain rfl := Option.some.inj h
        exact hstill rfl hnone
      · split at h
        · obtain rfl := Option.some.inj h
          exact hstill rfl hnone
        · obtain rfl := Option.some.inj h
          exact hstill rfl hnone
  · next hf => obtain rfl := Option.some.inj h; exact hstill rfl (by rw [hf]; rfl)
  · next hf => obtain rfl := Option.some.inj h; exact hstill (hremoval ..) (by rw [hf]; rfl)
  · next hf => obtain rfl := Option.some.inj h; rw [hf]; rfl
  · next hf => obtain rfl := Option.some.inj h; exact hstill rfl (by rw [hf]; rfl)
  · next hf => obtain rfl := Option.some.inj h; exact hstill (hremoval ..) (by rw [hf]; rfl)
  · next hf => obtain rfl := Option.some.inj h; rw [hf]; rfl
  · next hf => obtain rfl := Option.some.inj h; exact hstill rfl (by rw [hf]; rfl)
  · cases h

structure Accounted (S : Set Quote) (s : State) : Prop where
  within : Within S s
  balance : s.inserted.Perm (s.book.quotes ++ (s.fetched ++ s.apiRemoved))
  handed : s.fetched = s.handed ++ s.fetcher.inHand

theorem accounted_initial {ledger : Ledger} {book : InMemoryQuoteBook}
    (hbook : ∀ q ∈ book.quotes, q ∈ S) : Accounted S (State.initial ledger book) where
  within := ⟨hbook, fun _ _ h => absurd h id⟩
  balance := by simp [State.initial]
  handed := rfl

theorem accounted_step {a : Action} (hS : Genuine mc S) (hs : Accounted S s)
    (hg : CallsWithin S s a) (h : s.step mc a = some s') : Accounted S s' := by
  refine ⟨within_step hs.within hg h, ?_, ?_⟩
  · obtain ⟨new, byFetcher, byApi, hflow⟩ := flow_of_step hS hs.within h
    exact hflow.balanced hs.balance
  · rcases step_cases h with ⟨block, -, rfl⟩ | ⟨fault, -, hfetch⟩ | hsame
    · exact hs.handed
    · exact handed_fetches hs.handed (fetches_of_fetch hfetch)
    · rw [hsame.fetched, hsame.handed, hsame.fetcher]
      exact hs.handed

theorem accounted_of_run (hS : Genuine mc S) {as : List Action} (h₁ : Accounted S s₁)
    (h : Lts.Run (State.step mc) (CallsWithin S) s₁ as s₂) : Accounted S s₂ :=
  h.inv (Accounted S) (fun hs hg hstep => accounted_step hS hs hg hstep) h₁

/-! ## The published block index -/

/-- Nothing has been published yet, or something below the bound. -/
def PublishedBelow (s : State) (bound : Nat) : Prop :=
  s.highestProcessedBlockIndex = 0 ∨ s.highestProcessedBlockIndex < bound

/-- Where the fetcher is, and what it can have published by then. -/
def Published (s : State) : Prop :=
  match s.fetcher with
  | .poll | .stopped => PublishedBelow s s.nextBlockIndex
  | .load starting | .removing starting _ | .handing starting _ _ | .loaded starting =>
      starting ≤ s.nextBlockIndex ∧ PublishedBelow s starting
  | .expire last | .handExpired last _ | .store last =>
      last + 1 = s.nextBlockIndex ∧ PublishedBelow s last

theorem PublishedBelow.mono {b b' : Nat} (h : PublishedBelow s b) (hb : b ≤ b') :
    PublishedBelow s b' :=
  h.imp_right fun hlt => lt_of_lt_of_le hlt hb

theorem Published.below_next (h : Published s) : PublishedBelow s s.nextBlockIndex := by
  unfold Published at h
  split at h
  · exact h
  · exact h
  · exact h.2.mono h.1
  · exact h.2.mono h.1
  · exact h.2.mono h.1
  · exact h.2.mono h.1
  · exact h.2.mono (Nat.le_of_succ_le h.1.le)
  · exact h.2.mono (Nat.le_of_succ_le h.1.le)
  · exact h.2.mono (Nat.le_of_succ_le h.1.le)

theorem published_leave {starting : Nat} (hle : starting ≤ s.nextBlockIndex)
    (hb : PublishedBelow s starting) :
    Published { s with fetcher := .leave s.nextBlockIndex starting } := by
  unfold Fetcher.leave
  by_cases h : s.nextBlockIndex = starting
  · rw [if_neg (not_not.mpr h)]
    exact hb.mono hle
  · rw [if_pos h]
    refine ⟨?_, hb.mono ?_⟩
    · show s.nextBlockIndex - 1 + 1 = s.nextBlockIndex
      omega
    · omega

theorem published_fetches (hs : Published s) (h : Fetches mc s s') : Published s' := by
  have hnext := hs.below_next
  cases h with
  | poll hf hor =>
      rcases hor with rfl | rfl
      · exact hnext
      · exact ⟨le_rfl, hnext⟩
  | notFound hf hb =>
      simp only [Published, hf] at hs
      exact published_leave hs.1 hs.2
  | again hf hor =>
      simp only [Published, hf] at hs
      rcases hor with rfl | rfl
      · exact published_leave hs.1 hs.2
      · exact hs
  | finish hf =>
      simp only [Published, hf] at hs
      exact ⟨Nat.le_succ_of_le hs.1, hs.2⟩
  | store hf =>
      -- what is published now is below the next block
      simp only [Published, hf] at hs
      exact .inr (Nat.lt_of_succ_le hs.1.le)
  | retry => exact hs
  | failed hf => simp only [Published, hf] at hs; exact hs
  | found hf hb => simp only [Published, hf] at hs; exact hs
  | remove hf hr => simp only [Published, hf] at hs; exact hs
  | hand hf => simp only [Published, hf] at hs; exact hs
  | expire hf hr => simp only [Published, hf] at hs; exact hs
  | handExpired hf => simp only [Published, hf] at hs; exact hs

theorem published_step {a : Action} (hs : Published s) (h : s.step mc a = some s') :
    Published s' := by
  rcases step_cases h with ⟨block, -, rfl⟩ | ⟨fault, -, hfetch⟩ | hsame
  · exact hs
  · exact published_fetches hs (fetches_of_fetch hfetch)
  · unfold Published PublishedBelow at hs ⊢
    rw [hsame.fetcher, hsame.nextBlockIndex, hsame.highestProcessedBlockIndex]
    exact hs

/-! ## What is due is removed -/

/-- Since `s₁` the quote has been given to the callback or removed through the trait. -/
def RemovedSince (s₁ s : State) (q : Quote) : Prop :=
  (∃ later, s.handed = s₁.handed ++ later ∧ q ∈ later) ∨
    ∃ later, s.apiRemoved = s₁.apiRemoved ++ later ∧ q ∈ later

/-- The two records only grow. -/
structure Grown (s s' : State) : Prop where
  handed : ∃ later, s'.handed = s.handed ++ later
  apiRemoved : ∃ later, s'.apiRemoved = s.apiRemoved ++ later

theorem Grown.trans (h₁ : Grown s₁ s) (h : Grown s s') : Grown s₁ s' := by
  obtain ⟨⟨x, hx⟩, ⟨y, hy⟩⟩ := h₁
  obtain ⟨⟨x', hx'⟩, ⟨y', hy'⟩⟩ := h
  exact ⟨⟨x ++ x', by rw [hx', hx, List.append_assoc]⟩,
    ⟨y ++ y', by rw [hy', hy, List.append_assoc]⟩⟩

theorem RemovedSince.mono (h : RemovedSince s₁ s q) (hg : Grown s s') : RemovedSince s₁ s' q := by
  obtain ⟨⟨x', hx'⟩, ⟨y', hy'⟩⟩ := hg
  rcases h with ⟨later, hx, hq⟩ | ⟨later, hy, hq⟩
  · exact .inl ⟨later ++ x', by rw [hx', hx, List.append_assoc], List.mem_append_left _ hq⟩
  · exact .inr ⟨later ++ y', by rw [hy', hy, List.append_assoc], List.mem_append_left _ hq⟩

theorem fetches_handed (h : Fetches mc s s') : ∃ later, s'.handed = s.handed ++ later := by
  cases h with
  | @hand _ quotes _ hf => exact ⟨quotes, rfl⟩
  | @handExpired _ quotes hf => exact ⟨quotes, rfl⟩
  | _ => exact ⟨[], (List.append_nil _).symm⟩

theorem grown_step {a : Action} (hS : Genuine mc S) (hs : Within S s)
    (h : s.step mc a = some s') : Grown s s' := by
  obtain ⟨_, _, byApi, hflow⟩ := flow_of_step hS hs h
  refine ⟨?_, byApi, hflow.apiRemoved⟩
  rcases step_cases h with ⟨block, -, rfl⟩ | ⟨fault, -, hfetch⟩ | hsame
  · exact ⟨[], (List.append_nil _).symm⟩
  · exact fetches_handed (fetches_of_fetch hfetch)
  · exact ⟨[], by rw [hsame.handed, List.append_nil]⟩

/-- With quotes in hand the fetcher's next step is the callback. -/
theorem fetches_inHand (h : Fetches mc s s') (hq : q ∈ s.fetcher.inHand) :
    s'.handed = s.handed ++ s.fetcher.inHand ∨ s' = s := by
  cases h with
  | hand hf => exact .inl (by rw [hf]; rfl)
  | handExpired hf => exact .inl (by rw [hf]; rfl)
  | retry => exact .inr rfl
  | poll hf => rw [hf] at hq; cases hq
  | failed hf => rw [hf] at hq; cases hq
  | notFound hf => rw [hf] at hq; cases hq
  | found hf => rw [hf] at hq; cases hq
  | finish hf => rw [hf] at hq; cases hq
  | remove hf => rw [hf] at hq; cases hq
  | again hf => rw [hf] at hq; cases hq
  | expire hf => rw [hf] at hq; cases hq
  | store hf => rw [hf] at hq; cases hq

/-- A quote of the book that no step of the fetcher is involved in stays or is removed
through the trait. -/
theorem stays_or_byApi {a : Action} (hS : Genuine mc S) (hs : Within S s)
    (h : s.step mc a = some s') (hfetched : s'.fetched = s.fetched) (hq : q ∈ s.book.quotes) :
    q ∈ s'.book.quotes ∨ ∃ byApi, s'.apiRemoved = s.apiRemoved ++ byApi ∧ q ∈ byApi := by
  obtain ⟨new, byFetcher, byApi, hflow⟩ := flow_of_step hS hs h
  have hnone : byFetcher = [] := by
    have heq := hflow.fetched
    rw [hfetched] at heq
    exact List.self_eq_append_right.mp heq
  have hmem := hflow.balance.mem_iff.mp (List.mem_append_right new hq)
  rw [hnone, List.nil_append, List.mem_append] at hmem
  rcases hmem with hmem | hmem
  · exact .inr ⟨byApi, hflow.apiRemoved, hmem⟩
  · exact .inl hmem

/-- What has become of a quote that was due in `s₁`.  `Due` says where the fetcher is as
long as the quote is due, `Here` where it is while it has the quote in hand. -/
inductive Fate (Due Here : Fetcher → Nat → Prop) (s₁ s : State) (q : Quote) : Prop
  | removed : RemovedSince s₁ s q → Fate Due Here s₁ s q
  | inHand : q ∈ s.fetcher.inHand → Here s.fetcher s.nextBlockIndex → Fate Due Here s₁ s q
  | due : q ∈ s.book.quotes → Due s.fetcher s.nextBlockIndex → Fate Due Here s₁ s q

section Rule

variable {Due Here : Fetcher → Nat → Prop}

/-- What the fetcher does to a quote that is due: it leaves it due, or takes it. -/
def Meets (mc : McCore) (Due Here : Fetcher → Nat → Prop) (q : Quote) : Prop :=
  ∀ {s s' : State}, Fetches mc s s' → q ∈ s.book.quotes → Due s.fetcher s.nextBlockIndex →
    (q ∈ s'.book.quotes ∧ Due s'.fetcher s'.nextBlockIndex) ∨
      (q ∈ s'.fetcher.inHand ∧ Here s'.fetcher s'.nextBlockIndex)

theorem fate_fetches (hm : Meets mc Due Here q) (hg : Grown s₁ s) (hq : Fate Due Here s₁ s q)
    (h : Fetches mc s s') (hg' : Grown s s') : Fate Due Here s₁ s' q := by
  cases hq with
  | removed hrem => exact .removed (hrem.mono hg')
  | inHand hhand hhere =>
      rcases fetches_inHand h hhand with hhanded | rfl
      · obtain ⟨⟨later, hlater⟩, -⟩ := hg
        refine .removed (.inl ⟨later ++ s.fetcher.inHand, ?_, List.mem_append_right _ hhand⟩)
        rw [hhanded, hlater, List.append_assoc]
      · exact .inHand hhand hhere
  | due hbook hdue =>
      rcases hm h hbook hdue with ⟨hbook', hdue'⟩ | ⟨hhand, hhere⟩
      · exact .due hbook' hdue'
      · exact .inHand hhand hhere

theorem fate_others {a : Action} (hS : Genuine mc S) (hs : Within S s)
    (h : s.step mc a = some s') (hf : s'.fetcher = s.fetcher)
    (hn : s'.nextBlockIndex = s.nextBlockIndex) (hfetched : s'.fetched = s.fetched)
    (hg : Grown s₁ s) (hq : Fate Due Here s₁ s q) : Fate Due Here s₁ s' q := by
  cases hq with
  | removed hrem => exact .removed (hrem.mono (grown_step hS hs h))
  | inHand hhand hhere => exact .inHand (hf ▸ hhand) (by rw [hf, hn]; exact hhere)
  | due hbook hdue =>
      rcases stays_or_byApi hS hs h hfetched hbook with hbook' | ⟨byApi, hapi, hmem⟩
      · exact .due hbook' (by rw [hf, hn]; exact hdue)
      · obtain ⟨-, ⟨later, hlater⟩⟩ := hg
        refine .removed (.inr ⟨later ++ byApi, ?_, List.mem_append_right _ hmem⟩)
        rw [hapi, hlater, List.append_assoc]

/-- **The rule**: along every run, a quote that was due is removed, still due, or in
hand. -/
theorem fate_of_run (hS : Genuine mc S) (hm : Meets mc Due Here q) {as : List Action}
    (hrun : Lts.Run (State.step mc) (CallsWithin S) s₁ as s₂) (h₁ : Within S s₁)
    (hq : q ∈ s₁.book.quotes) (hd : Due s₁.fetcher s₁.nextBlockIndex) :
    Fate Due Here s₁ s₂ q := by
  have hstart : Grown s₁ s₁ :=
    ⟨⟨[], (List.append_nil _).symm⟩, ⟨[], (List.append_nil _).symm⟩⟩
  have hinv : Grown s₁ s₂ ∧ Fate Due Here s₁ s₂ q := by
    refine hrun.after (Within S) (fun s => Grown s₁ s ∧ Fate Due Here s₁ s q)
      (fun hs hg hstep => within_step hs hg hstep) ?_ h₁ ⟨hstart, .due hq hd⟩
    rintro s a s' hs ⟨hg, hfate⟩ - hstep
    have hg' := grown_step hS hs hstep
    refine ⟨hg.trans hg', ?_⟩
    rcases step_cases hstep with ⟨block, -, rfl⟩ | ⟨fault, -, hfetch⟩ | hsame
    · exact fate_others hS hs hstep rfl rfl rfl hg hfate
    · exact fate_fetches hm hg hfate (fetches_of_fetch hfetch) hg'
    · exact fate_others hS hs hstep hsame.fetcher hsame.nextBlockIndex hsame.fetched hg hfate
  exact hinv.2

end Rule

/-! ## The two removals -/

/-- In the loop over the key images of block `n`, with this one still to come. -/
def KeyImageDue (k : KeyImage) (n : Nat) (f : Fetcher) (next : Nat) : Prop :=
  next = n ∧ ∃ ks, f.remaining = some ks ∧ k ∈ ks

def InBlock (n : Nat) (_ : Fetcher) (next : Nat) : Prop := next = n

theorem meets_keyImage (q : Quote) (n : Nat) :
    Meets mc (KeyImageDue q.keyImage n) (InBlock n) q := by
  rintro s s' h hq ⟨hn, ks, hrem, hk⟩
  cases h with
  | @remove starting k ks' removed book hf hr =>
      rw [hf] at hrem
      obtain rfl : k :: ks' = ks := Option.some.inj hrem
      obtain ⟨-, hremoved, hbook⟩ := InMemoryQuoteBook.removeQuotesByKeyImage_ok hr
      by_cases hkey : q.keyImage = k
      · refine .inr ⟨?_, hn⟩
        show q ∈ removed
        rw [hremoved]
        exact List.mem_filter.mpr ⟨hq, by simpa using hkey⟩
      · refine .inl ⟨?_, hn, ks', rfl, (List.mem_cons.mp hk).resolve_left hkey⟩
        rw [hbook]
        exact List.mem_filter.mpr ⟨hq, by simpa using hkey⟩
  | hand hf =>
      rw [hf] at hrem
      exact .inl ⟨hq, hn, ks, hrem, hk⟩
  | retry => exact .inl ⟨hq, hn, ks, hrem, hk⟩
  | finish hf =>
      rw [hf] at hrem
      obtain rfl := Option.some.inj hrem
      exact absurd hk List.not_mem_nil
  | poll hf => rw [hf] at hrem; cases hrem
  | failed hf => rw [hf] at hrem; cases hrem
  | notFound hf => rw [hf] at hrem; cases hrem
  | found hf => rw [hf] at hrem; cases hrem
  | again hf => rw [hf] at hrem; cases hrem
  | expire hf => rw [hf] at hrem; cases hrem
  | handExpired hf => rw [hf] at hrem; cases hrem
  | store hf => rw [hf] at hrem; cases hrem

/-- Before, and in hand after, the tombstone pass for `h`. -/
def TombstoneDue (h : Nat) (f : Fetcher) (_ : Nat) : Prop := f = .expire h

def InTombstonePass (h : Nat) (f : Fetcher) (_ : Nat) : Prop := ∃ quotes, f = .handExpired h quotes

theorem meets_tombstone (q : Quote) {h : Nat} (he : InMemoryQuoteBook.expired mc h q = true) :
    Meets mc (TombstoneDue h) (InTombstonePass h) q := by
  intro s s' hfetch hq hdue
  have hdue : s.fetcher = .expire h := hdue
  cases hfetch with
  | @expire last removed book hf hr =>
      obtain rfl := Fetcher.expire.inj (hdue.symm.trans hf)
      obtain ⟨-, hremoved, -⟩ := InMemoryQuoteBook.removeQuotesByTombstoneBlock_ok hr
      refine .inr ⟨?_, removed, rfl⟩
      show q ∈ removed
      rw [hremoved]
      exact List.mem_filter.mpr ⟨hq, he⟩
  | retry => exact .inl ⟨hq, hdue⟩
  | _ => simp_all

theorem published_initial (ledger : Ledger) (book : InMemoryQuoteBook) :
    Published (State.initial ledger book) :=
  Or.inl rfl

theorem published_of_run {G : State → Action → Prop} {as : List Action} (h₁ : Published s₁)
    (h : Lts.Run (State.step mc) G s₁ as s₂) : Published s₂ :=
  h.inv Published (fun hs _ hstep => published_step hs hstep) h₁

theorem removedSince_keyImage (hS : Genuine mc S) (hp : Published s) (hw : Within S s)
    {starting : Nat} {block : Block} {as : List Action}
    (hload : s.fetcher = .load starting) (hblock : s.ledger[s.nextBlockIndex]? = some block)
    (hk : q.keyImage ∈ block.keyImages) (hq : q ∈ s.book.quotes)
    (hstep : s.step mc (.fetch none) = some s')
    (hrun : Lts.Run (State.step mc) (CallsWithin S) s' as s₂)
    (hpub : s.nextBlockIndex ≤ s₂.getCurrentBlockIndex) (hone : 1 ≤ s₂.getCurrentBlockIndex) :
    RemovedSince s s₂ q := by
  have hw' := within_step (a := .fetch none) hw trivial hstep
  have hp₂ := (published_of_run (published_step hp hstep) hrun).below_next
  simp only [State.step, fetch, hload, hblock] at hstep
  obtain rfl := Option.some.inj hstep
  have hbelow : s₂.nextBlockIndex ≠ s.nextBlockIndex := by
    intro heq
    rcases hp₂ with h0 | hlt
    · exact absurd hone (by rw [getCurrentBlockIndex, h0]; omega)
    · exact absurd hpub (not_le.mpr (heq ▸ hlt))
  cases fate_of_run hS (meets_keyImage q s.nextBlockIndex) hrun hw' hq
    ⟨rfl, block.keyImages, rfl, hk⟩ with
  | removed h => exact h
  | inHand _ hin => exact absurd hin hbelow
  | due _ hdue => exact absurd hdue.1 hbelow

theorem removedSince_tombstone (hS : Genuine mc S) (hp : Published s) (hw : Within S s)
    {h : Nat} {as : List Action} (hexpire : s.fetcher = .expire h)
    (he : InMemoryQuoteBook.expired mc h q = true) (hq : q ∈ s.book.quotes)
    (hrun : Lts.Run (State.step mc) (CallsWithin S) s as s₂) (hone : 1 ≤ h)
    (hpub : s₂.getCurrentBlockIndex = h) : RemovedSince s s₂ q := by
  have hp₂ := published_of_run hp hrun
  have hbelow : ¬ PublishedBelow s₂ h := by
    unfold PublishedBelow
    unfold getCurrentBlockIndex at hpub
    omega
  cases fate_of_run hS (meets_tombstone q he) hrun hw hq hexpire with
  | removed h => exact h
  | inHand _ hin =>
      obtain ⟨quotes, hf⟩ := hin
      simp only [Published, hf] at hp₂
      exact absurd hp₂.2 hbelow
  | due _ hdue =>
      have hf : s₂.fetcher = .expire h := hdue
      simp only [Published, hf] at hp₂
      exact absurd hp₂.2 hbelow

/-- **Removal is accounted for exactly.** -/
theorem removals_accounted (hS : Genuine mc S)
    (hreached : ∀ (c : Nat) (t : UInt64), t.toNat ≤ c → (mc.validateTombstone c t).toBool = false)
    {ledger : Ledger} {book : InMemoryQuoteBook} (hbook : ∀ q ∈ book.quotes, q ∈ S)
    {as : List Action}
    (hrun : Lts.Run (State.step mc) (CallsWithin S) (State.initial ledger book) as s) :
    -- every quote is in one place
    s.inserted.Perm
      (s.book.quotes ++ (s.handed ++ s.fetcher.inHand) ++ s.apiRemoved) ∧
    -- what the fetcher took has been handed over, once, except for what it has in hand
    s.fetched = s.handed ++ s.fetcher.inHand ∧
    -- what the fetcher takes was in the book just before, and leaves it
    (∀ fault s', s.step mc (.fetch fault) = some s' → ∃ removed,
      s'.fetched = s.fetched ++ removed ∧ s.book.quotes.Perm (removed ++ s'.book.quotes)) ∧
    -- the published index, and the key images of the blocks up to it
    (∀ starting block q s' bs t, s.fetcher = .load starting →
      s.ledger[s.nextBlockIndex]? = some block → q.keyImage ∈ block.keyImages →
      q ∈ s.book.quotes → s.step mc (.fetch none) = some s' →
      Lts.Run (State.step mc) (CallsWithin S) s' bs t →
      s.nextBlockIndex ≤ t.getCurrentBlockIndex → 1 ≤ t.getCurrentBlockIndex →
      RemovedSince s t q) ∧
    -- the published index, and the tombstones up to it
    (∀ h q bs t, s.fetcher = .expire h → q.tombstoneBlock ≠ 0 → q.tombstoneBlock.toNat ≤ h →
      q ∈ s.book.quotes → Lts.Run (State.step mc) (CallsWithin S) s bs t → 1 ≤ h →
      t.getCurrentBlockIndex = h → RemovedSince s t q) := by
  have hacc := accounted_of_run hS (accounted_initial hbook) hrun
  have hpub := published_of_run (published_initial ledger book) hrun
  refine ⟨?_, hacc.handed, ?_, ?_, ?_⟩
  · rw [← hacc.handed, List.append_assoc]
    exact hacc.balance
  · intro fault s' hstep
    obtain ⟨removed, hflow⟩ := flow_fetches (fetches_of_fetch hstep)
    exact ⟨removed, hflow.fetched, hflow.balance⟩
  · intro starting block q s' bs t hload hblock hk hq hstep hrest hle hone
    exact removedSince_keyImage hS hpub hacc.within hload hblock hk hq hstep hrest hle hone
  · intro h q bs t hexpire h0 hle hq hrest hone hcur
    refine removedSince_tombstone hS hpub hacc.within hexpire ?_ hq hrest hone hcur
    rw [InMemoryQuoteBook.expired_eq, hreached h _ hle]
    simpa using h0

def oneQuote : Set Quote := {q | q = sampleQuote 1 10 20 0 1}

theorem oneQuote_genuine : Genuine sampleCore oneQuote where
  made := by
    rintro q rfl
    exact sampleQuote_made ..
  collisionFree := by
    rintro q q' rfl rfl _
    rfl

/-- The quote is inserted over a ledger with an origin block, its key image is spent in block 1,
and the fetcher comes to that block. -/
def toBlockOne : List Action :=
  [.call 0 (sampleQuote 1 10 20 0 1), .advance 0 none, .advance 0 none, .advance 0 none,
    .append ⟨[⟨.fill 1⟩], []⟩, .fetch none, .fetch none, .fetch none, .fetch none]

def toPublished : List Action :=
  [.fetch none, .fetch none, .fetch none, .fetch none, .fetch none, .fetch none, .fetch none,
    .fetch none]

theorem toBlockOne_callsWithin : ∀ a ∈ toBlockOne, ∀ t, CallsWithin oneQuote t a := by
  intro a ha t
  simp only [toBlockOne, List.mem_cons, List.not_mem_nil, or_false] at ha
  rcases ha with rfl | rfl | rfl | rfl | rfl | rfl | rfl | rfl | rfl
  · exact rfl
  all_goals trivial

theorem toPublished_callsWithin : ∀ a ∈ toPublished, ∀ t, CallsWithin oneQuote t a := by
  intro a ha t
  simp only [toPublished, List.mem_cons, List.not_mem_nil, or_false, or_self] at ha
  subst ha
  trivial

theorem toPublished_accounted : ∃ s s' t : State,
    Lts.Run (State.step sampleCore) (CallsWithin oneQuote)
      (State.initial [⟨[], []⟩] .default) toBlockOne s ∧
    s.inserted.Perm (s.book.quotes ++ (s.handed ++ s.fetcher.inHand) ++ s.apiRemoved) ∧
    s.step sampleCore (.fetch none) = some s' ∧
    Lts.Run (State.step sampleCore) (CallsWithin oneQuote) s' toPublished t ∧
    t.getCurrentBlockIndex = 1 ∧ RemovedSince s t (sampleQuote 1 10 20 0 1) := by
  have hruns : ∃ s s' t : State,
      Lts.Run (State.step sampleCore) Lts.Any (State.initial [⟨[], []⟩] .default) toBlockOne s ∧
      s.fetcher = .load 0 ∧ s.nextBlockIndex = 1 ∧
      s.ledger[s.nextBlockIndex]? = some ⟨[⟨.fill 1⟩], []⟩ ∧
      sampleQuote 1 10 20 0 1 ∈ s.book.quotes ∧
      s.step sampleCore (.fetch none) = some s' ∧
      Lts.Run (State.step sampleCore) Lts.Any s' toPublished t ∧ t.getCurrentBlockIndex = 1 :=
    ⟨_, _, _, Lts.run_of_exec rfl, rfl, rfl, rfl, List.mem_singleton.mpr rfl, rfl,
      Lts.run_of_exec rfl, rfl⟩
  obtain ⟨s, s', t, hs, hload, hnext, hblock, hq, hstep, ht, hcur⟩ := hruns
  have hs := hs.of_forall toBlockOne_callsWithin
  have ht := ht.of_forall toPublished_callsWithin
  have hreached : ∀ (c : Nat) (t : UInt64), t.toNat ≤ c →
      (sampleCore.validateTombstone c t).toBool = false := by
    intro c t hle
    simp [sampleCore, hle, Except.toBool]
  obtain ⟨hbalance, -, -, hblocks, -⟩ := removals_accounted oneQuote_genuine hreached
    (fun q hq => absurd hq List.not_mem_nil) hs
  refine ⟨s, s', t, hs, hbalance, hstep, ht, hcur, ?_⟩
  exact hblocks 0 _ _ s' _ t hload hblock List.mem_cons_self hq hstep ht (by rw [hnext, hcur])
    (by rw [hcur])

end Deqs.Sync
