/-
# `Quote::cmp` — when the price order is an order

Quotes are ranked by pair, then by exchange rate (the better one for the fulfiller
first), then by timestamp, then by identifier.  Three of the four keys are keys of one
quote.  The rate is not: to avoid dividing, the code compares the cross products

    self_rate  = other.max_base_tokens · self.max_counter_tokens
    other_rate = self.max_base_tokens  · other.max_counter_tokens

and a quote that offers nothing for nothing makes both of them zero against any other
quote.  Such a quote is level with every rate, so age alone decides between it and its
neighbours, and it can stand *between* two quotes in age whose rates order them the
other way round:

    x  <  d  <  y   by age, since d is level with both
    y  <  x         by rate

That is a cycle, and it is the only way `cmp` can fail to be an order:

    cmp is a total order on S   ↔   no empty quote of S splits two others   (`lawfulOn_iff`)

`Quote::new` does return such quotes: it asks nothing of the amounts.
-/
import Deqs.Lib.CrossRatio
import Deqs.Lib.OrdSet
import Deqs.Quote.Basic
import Mathlib.Tactic.Common

namespace Deqs

open CrossRatio OrdSet

/-! ## The two lawful keys -/

instance : Std.TransOrd Pair :=
  inferInstanceAs (Std.TransCmp
    (compareLex (compareOn Pair.baseTokenId) (compareOn Pair.counterTokenId)))

instance : Std.LawfulEqOrd Pair where
  eq_of_compare {p p'} h := by
    obtain ⟨hb, hc⟩ := compareLex_eq_eq.mp h
    have hb' : p.baseTokenId = p'.baseTokenId := Std.LawfulEqOrd.eq_of_compare hb
    have hc' : p.counterTokenId = p'.counterTokenId := Std.LawfulEqOrd.eq_of_compare hc
    cases p
    cases p'
    rw [Pair.mk.injEq]
    exact ⟨hb', hc'⟩

instance : Std.TransOrd QuoteId :=
  inferInstanceAs (Std.TransCmp (compareOn (fun i : QuoteId => i.data.bytes)))

instance : Std.LawfulEqOrd QuoteId where
  eq_of_compare {i i'} h := by
    have hb : i.data.bytes = i'.data.bytes := Std.LawfulEqOrd.eq_of_compare h
    obtain ⟨⟨_, _⟩⟩ := i
    obtain ⟨⟨_, _⟩⟩ := i'
    simpa using hb

namespace Quote

/-- `impl Ord for Quote`. -/
def cmp (self other : Quote) : Ordering :=
  -- (self_base / self_counter) > (other_base / other_counter), multiplied out
  let selfRate := other.maxBaseTokens.toNat * self.maxCounterTokens.toNat
  let otherRate := self.maxBaseTokens.toNat * other.maxCounterTokens.toNat
  (compare self.pair other.pair).then <|
    (compare selfRate otherRate).then <|
      (compare self.timestamp other.timestamp).then (compare self.id other.id)

def rate (q : Quote) : Nat × Nat := (q.maxBaseTokens.toNat, q.maxCounterTokens.toNat)

/-- The last two keys: older first, then by identifier. -/
def ageCmp : Quote → Quote → Ordering :=
  compareLex (compareOn Quote.timestamp) (compareOn Quote.id)

theorem cmp_eq (a b : Quote) :
    cmp a b = (compare a.pair b.pair).then ((crossCmp a.rate b.rate).then (ageCmp a b)) := rfl

instance : Std.TransCmp ageCmp :=
  inferInstanceAs (Std.TransCmp (compareLex (compareOn Quote.timestamp) (compareOn Quote.id)))

/-- A quote offering no base tokens and asking for no counter tokens. -/
def Empty (q : Quote) : Prop := q.maxBaseTokens = 0 ∧ q.maxCounterTokens = 0

instance (q : Quote) : Decidable q.Empty := inferInstanceAs (Decidable (_ ∧ _))

theorem indeterminate_rate_iff {q : Quote} : Indeterminate q.rate ↔ q.Empty := by
  simp [Indeterminate, rate, Empty, ← UInt64.toNat_inj]

/-- `d` splits `x` and `y`: it is empty, it stands between them in age, and their rates
order them the other way. -/
def Splits (d x y : Quote) : Prop :=
  d.Empty ∧ x.pair = d.pair ∧ y.pair = d.pair ∧
    ageCmp x d = .lt ∧ ageCmp d y = .lt ∧ crossCmp y.rate x.rate = .lt

instance (d x y : Quote) : Decidable (Splits d x y) :=
  inferInstanceAs (Decidable (_ ∧ _ ∧ _ ∧ _ ∧ _ ∧ _))

/-! ## What `cmp` always satisfies -/

theorem ageCmp_swap (a b : Quote) : ageCmp b a = (ageCmp a b).swap := Std.OrientedCmp.eq_swap

theorem cmp_swap (a b : Quote) : cmp b a = (cmp a b).swap := by
  rw [cmp_eq, cmp_eq, Ordering.swap_then, Ordering.swap_then, ← crossCmp_swap,
    ← ageCmp_swap, ← Std.OrientedOrd.eq_swap]

theorem cmp_self (a : Quote) : cmp a a = .eq := by
  have hswap := cmp_swap a a
  cases hc : cmp a a with
  | eq => rfl
  | lt => rw [hc] at hswap; cases hswap
  | gt => rw [hc] at hswap; cases hswap

theorem id_eq_of_cmp_eq {a b : Quote} (h : cmp a b = .eq) :
    a.id = b.id ∧ a.timestamp = b.timestamp := by
  simp only [cmp, Ordering.then_eq_eq] at h
  exact ⟨Std.LawfulEqOrd.eq_of_compare h.2.2.2, Std.LawfulEqOrd.eq_of_compare h.2.2.1⟩

/-! ## `cmp` within one pair

Between quotes of one pair the first key is level; what is left is the rate and the age. -/

theorem cmp_of_pair_eq {a b : Quote} (h : a.pair = b.pair) :
    cmp a b = (crossCmp a.rate b.rate).then (ageCmp a b) := by
  rw [cmp_eq, h, Std.ReflOrd.compare_self, Ordering.eq_then]

/-- Against an empty quote only age counts. -/
theorem cmp_empty_left {d q : Quote} (hd : d.Empty) (h : d.pair = q.pair) :
    cmp d q = ageCmp d q := by
  rw [cmp_of_pair_eq h, crossCmp_indeterminate_left (indeterminate_rate_iff.mpr hd),
    Ordering.eq_then]

theorem cmp_empty_right {d q : Quote} (hd : d.Empty) (h : q.pair = d.pair) :
    cmp q d = ageCmp q d := by
  rw [cmp_of_pair_eq h, crossCmp_indeterminate_right (indeterminate_rate_iff.mpr hd),
    Ordering.eq_then]

theorem cmp_lt_of_rate_lt {a b : Quote} (h : a.pair = b.pair)
    (hr : crossCmp a.rate b.rate = .lt) : cmp a b = .lt := by
  rw [cmp_of_pair_eq h, hr, Ordering.lt_then]

theorem rate_of_cmp_lt {a b : Quote} (h : a.pair = b.pair) (hlt : cmp a b = .lt) :
    crossCmp a.rate b.rate = .lt ∨ crossCmp a.rate b.rate = .eq ∧ ageCmp a b = .lt := by
  rw [cmp_of_pair_eq h] at hlt
  exact Ordering.then_eq_lt.mp hlt

/-! ## The characterisation -/

theorem Splits.cycle {d x y : Quote} (h : Splits d x y) :
    cmp x d = .lt ∧ cmp d y = .lt ∧ cmp y x = .lt := by
  obtain ⟨hd, hx, hy, hxd, hdy, hyx⟩ := h
  refine ⟨?_, ?_, cmp_lt_of_rate_lt (hy.trans hx.symm) hyx⟩
  · rw [cmp_empty_right hd hx, hxd]
  · rw [cmp_empty_left hd hy.symm, hdy]

/-- Between quotes that are not empty, `cmp` is transitive: the rates are fractions. -/
theorem cmp_trans_of_not_empty {a b c : Quote} (ha : ¬ a.Empty) (hb : ¬ b.Empty)
    (hc : ¬ c.Empty) (hab : a.pair = b.pair) (hbc : b.pair = c.pair) (h₁ : cmp a b = .lt)
    (h₂ : cmp b c = .lt) : cmp a c = .lt := by
  have ia := mt indeterminate_rate_iff.mp ha
  have ib := mt indeterminate_rate_iff.mp hb
  have ic := mt indeterminate_rate_iff.mp hc
  have hac : a.pair = c.pair := hab.trans hbc
  rcases rate_of_cmp_lt hab h₁ with r₁ | ⟨r₁, g₁⟩
  · rcases rate_of_cmp_lt hbc h₂ with r₂ | ⟨r₂, -⟩
    · exact cmp_lt_of_rate_lt hac
        (crossCmp_lt_trans ia ib ic (by rw [r₁]; rfl) (by rw [r₂]; rfl) (.inl r₁))
    · exact cmp_lt_of_rate_lt hac
        (crossCmp_lt_trans ia ib ic (by rw [r₁]; rfl) (by rw [r₂]; rfl) (.inl r₁))
  · rcases rate_of_cmp_lt hbc h₂ with r₂ | ⟨r₂, g₂⟩
    · exact cmp_lt_of_rate_lt hac
        (crossCmp_lt_trans ia ib ic (by rw [r₁]; rfl) (by rw [r₂]; rfl) (.inr r₂))
    · rw [cmp_of_pair_eq hac, crossCmp_eq_trans ib r₁ r₂, Ordering.eq_then]
      exact Std.TransCmp.lt_trans g₁ g₂

/-- With two empty quotes among three, all three are level in rate and age decides. -/
theorem cmp_trans_of_two_empty {a b c : Quote}
    (h : a.Empty ∧ b.Empty ∨ a.Empty ∧ c.Empty ∨ b.Empty ∧ c.Empty) (hab : a.pair = b.pair)
    (hbc : b.pair = c.pair) (h₁ : cmp a b = .lt) (h₂ : cmp b c = .lt) : cmp a c = .lt := by
  have hac : a.pair = c.pair := hab.trans hbc
  have hlevel : cmp a b = ageCmp a b ∧ cmp b c = ageCmp b c ∧ cmp a c = ageCmp a c := by
    rcases h with ⟨ha, hb⟩ | ⟨ha, hc⟩ | ⟨hb, hc⟩
    · exact ⟨cmp_empty_left ha hab, cmp_empty_left hb hbc, cmp_empty_left ha hac⟩
    · exact ⟨cmp_empty_left ha hab, cmp_empty_right hc hbc, cmp_empty_left ha hac⟩
    · exact ⟨cmp_empty_right hb hab, cmp_empty_left hb hbc, cmp_empty_right hc hac⟩
  rw [hlevel.1] at h₁
  rw [hlevel.2.1] at h₂
  rw [hlevel.2.2]
  exact Std.TransCmp.lt_trans h₁ h₂

variable {mc : McCore} {S : Set Quote}

/-- Genuine quotes of one age are one quote, so an empty one and a full one differ in
age. -/
theorem ageCmp_ne_eq (hS : Genuine mc S) {a c : Quote} (ha : a ∈ S) (hc : c ∈ S)
    (hne : ¬ (a.Empty ↔ c.Empty)) : ageCmp a c ≠ .eq := by
  intro h
  obtain ⟨ht, hid⟩ := compareLex_eq_eq.mp h
  have : a = c :=
    hS.eq_of_id ha hc (Std.LawfulEqOrd.eq_of_compare hid) (Std.LawfulEqOrd.eq_of_compare ht)
  exact hne (this ▸ Iff.rfl)

/-- One empty quote among three: transitivity fails only by a split. -/
theorem cmp_trans_of_one_empty (hS : Genuine mc S)
    (hsplit : ∀ {d x y}, d ∈ S → x ∈ S → y ∈ S → ¬ Splits d x y) {a b c : Quote}
    (ha : a ∈ S) (hb : b ∈ S) (hc : c ∈ S)
    (h : a.Empty ∧ ¬ b.Empty ∧ ¬ c.Empty ∨ ¬ a.Empty ∧ b.Empty ∧ ¬ c.Empty ∨
      ¬ a.Empty ∧ ¬ b.Empty ∧ c.Empty)
    (hab : a.pair = b.pair) (hbc : b.pair = c.pair) (h₁ : cmp a b = .lt) (h₂ : cmp b c = .lt) :
    cmp a c = .lt := by
  have hac : a.pair = c.pair := hab.trans hbc
  rcases h with ⟨ea, -, ec⟩ | ⟨-, eb, -⟩ | ⟨ea, -, ec⟩
  · -- `a` empty: it is older than `b`; were it younger than `c`, it would split `c` and `b`
    rw [cmp_empty_left ea hab] at h₁
    rw [cmp_empty_left ea hac]
    rcases rate_of_cmp_lt hbc h₂ with r | ⟨-, g⟩
    · cases hg : ageCmp a c with
      | lt => rfl
      | eq => exact absurd hg (ageCmp_ne_eq hS ha hc (by simp [ea, ec]))
      | gt => exact absurd ⟨ea, hac.symm, hab.symm, Std.OrientedCmp.lt_of_gt hg, h₁, r⟩
                (hsplit ha hc hb)
    · exact Std.TransCmp.lt_trans h₁ g
  · -- `b` empty: it stands between `a` and `c` in age
    rw [cmp_empty_right eb hab] at h₁
    rw [cmp_empty_left eb hbc] at h₂
    rw [cmp_of_pair_eq hac]
    cases hr : crossCmp a.rate c.rate with
    | lt => rfl
    | eq =>
        rw [Ordering.eq_then]
        exact Std.TransCmp.lt_trans h₁ h₂
    | gt =>
        have r : crossCmp c.rate a.rate = .lt := by rw [crossCmp_swap a.rate, hr]; rfl
        exact absurd ⟨eb, hab, hbc.symm, h₁, h₂, r⟩ (hsplit hb ha hc)
  · -- `c` empty: it is younger than `b`; were it older than `a`, it would split `b` and `a`
    rw [cmp_empty_right ec hbc] at h₂
    rw [cmp_empty_right ec hac]
    rcases rate_of_cmp_lt hab h₁ with r | ⟨-, g⟩
    · cases hg : ageCmp a c with
      | lt => rfl
      | eq => exact absurd hg (ageCmp_ne_eq hS ha hc (by simp [ea, ec]))
      | gt => exact absurd ⟨ec, hbc, hac, h₂, Std.OrientedCmp.lt_of_gt hg, r⟩
                (hsplit hc hb ha)
    · exact Std.TransCmp.lt_trans g h₂

/-- **`cmp` is a total order on genuine quotes exactly when none of them splits two
others.** -/
theorem lawfulOn_iff (hS : Genuine mc S) :
    LawfulOn cmp S ↔ ∀ {d x y}, d ∈ S → x ∈ S → y ∈ S → ¬ Splits d x y := by
  constructor
  · intro hL d x y hd hx hy hsplit
    obtain ⟨h₁, h₂, h₃⟩ := hsplit.cycle
    have h := hL.trans hx hd hy h₁ h₂
    rw [hL.swap hx hy, h] at h₃
    exact absurd h₃ (by decide)
  · intro hsplit
    refine ⟨fun _ _ => cmp_swap _ _, ?_, ?_⟩
    · intro a b ha hb h
      exact hS.eq_of_id ha hb (id_eq_of_cmp_eq h).1 (id_eq_of_cmp_eq h).2
    · intro a b c ha hb hc h₁ h₂
      -- the pair is the first key; where it already decides, nothing else is looked at
      have hlex : ∀ {a b : Quote}, cmp a b = .lt → compare a.pair b.pair = .lt ∨ a.pair = b.pair :=
        fun h => (Ordering.then_eq_lt.mp h).imp_right
          (fun h => Std.LawfulEqOrd.eq_of_compare h.1)
      have hlt : compare a.pair c.pair = .lt → cmp a c = .lt := by
        intro h
        rw [cmp_eq, h, Ordering.lt_then]
      rcases hlex h₁ with p₁ | p₁
      · rcases hlex h₂ with p₂ | p₂
        · exact hlt (Std.TransCmp.lt_trans p₁ p₂)
        · exact hlt (p₂ ▸ p₁)
      · rcases hlex h₂ with p₂ | p₂
        · exact hlt (p₁ ▸ p₂)
        · by_cases ea : a.Empty <;> by_cases eb : b.Empty <;> by_cases ec : c.Empty
          · exact cmp_trans_of_two_empty (.inl ⟨ea, eb⟩) p₁ p₂ h₁ h₂
          · exact cmp_trans_of_two_empty (.inl ⟨ea, eb⟩) p₁ p₂ h₁ h₂
          · exact cmp_trans_of_two_empty (.inr (.inl ⟨ea, ec⟩)) p₁ p₂ h₁ h₂
          · exact cmp_trans_of_one_empty hS hsplit ha hb hc (.inl ⟨ea, eb, ec⟩) p₁ p₂ h₁ h₂
          · exact cmp_trans_of_two_empty (.inr (.inr ⟨eb, ec⟩)) p₁ p₂ h₁ h₂
          · exact cmp_trans_of_one_empty hS hsplit ha hb hc (.inr (.inl ⟨ea, eb, ec⟩)) p₁ p₂ h₁ h₂
          · exact cmp_trans_of_one_empty hS hsplit ha hb hc (.inr (.inr ⟨ea, eb, ec⟩)) p₁ p₂ h₁ h₂
          · exact cmp_trans_of_not_empty ea eb ec p₁ p₂ h₁ h₂

theorem lawfulOn_of_not_empty (hS : Genuine mc S) (h : ∀ {q}, q ∈ S → ¬ q.Empty) :
    LawfulOn cmp S :=
  (lawfulOn_iff hS).mpr fun hd _ _ hsplit => h hd hsplit.1

/-- The three laws of a total order, for the quotes of `S`. -/
structure TotalOrderOn (S : Set Quote) : Prop where
  reverse : ∀ {a b}, a ∈ S → b ∈ S → cmp a b = (cmp b a).swap
  id_eq : ∀ {a b}, a ∈ S → b ∈ S → cmp a b = .eq → a.id = b.id
  trans : ∀ {a b c}, a ∈ S → b ∈ S → c ∈ S → cmp a b = .lt → cmp b c = .lt → cmp a c = .lt

/-- **Quotes are totally ordered exactly when no empty quote splits two others**: when no
quote that offers nothing for nothing stands, by timestamp and identifier, between two
quotes of its pair that the rate puts the other way round. -/
theorem totalOrderOn_iff_not_splits (hS : Genuine mc S) :
    TotalOrderOn S ↔ ∀ d ∈ S, ∀ x ∈ S, ∀ y ∈ S, ¬ Splits d x y := by
  constructor
  · intro h d hd x hx y hy hsplit
    have hL : LawfulOn cmp S := by
      refine ⟨fun ha hb => h.reverse hb ha, fun ha hb he => ?_, h.trans⟩
      exact hS.eq_of_id ha hb (h.id_eq ha hb he) (id_eq_of_cmp_eq he).2
    exact (lawfulOn_iff hS).mp hL hd hx hy hsplit
  · intro h
    have hL := (lawfulOn_iff hS).mpr fun hd hx hy => h _ hd _ hx _ hy
    exact ⟨fun _ _ => cmp_swap _ _, fun _ _ he => (id_eq_of_cmp_eq he).1, hL.trans⟩

/-- Three quotes of one pair: 1 for 2 first, nothing for nothing next, 2 for 1 last. -/
def cyclicQuotes : Set Quote :=
  {q | q = sampleQuote 1 1 2 0 1 ∨ q = sampleQuote 2 0 0 0 2 ∨ q = sampleQuote 3 2 1 0 3}

theorem cyclicQuotes_genuine : Genuine sampleCore cyclicQuotes where
  made := by
    rintro q (rfl | rfl | rfl)
    · exact sampleQuote_made ..
    · exact sampleQuote_made ..
    · exact sampleQuote_made ..
  collisionFree := by
    rintro q q' (rfl | rfl | rfl) (rfl | rfl | rfl) <;> decide

/-- The second of them splits the other two, so they are not in any order. -/
theorem cyclicQuotes_not_totalOrderOn : ¬ TotalOrderOn cyclicQuotes := by
  rw [totalOrderOn_iff_not_splits cyclicQuotes_genuine]
  intro h
  exact h _ (.inr (.inl rfl)) _ (.inl rfl) _ (.inr (.inr rfl)) (by decide)

/-- `Quote::cmp` is not a total order on what `Quote::new` returns. -/
theorem not_forall_totalOrderOn :
    ¬ ∀ (mc : McCore) (S : Set Quote), Genuine mc S → TotalOrderOn S := by
  intro h
  have hT := h sampleCore cyclicQuotes cyclicQuotes_genuine
  have hlt : cmp (sampleQuote 1 1 2 0 1) (sampleQuote 3 2 1 0 3) = .lt :=
    hT.trans (.inl rfl) (.inr (.inl rfl)) (.inr (.inr rfl)) (by decide) (by decide)
  exact absurd hlt (by decide)

end Quote
end Deqs
