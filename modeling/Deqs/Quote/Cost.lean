/-
# `Quote::counter_tokens_cost` — what a fill costs

A quote says two things about its price.  `max_counter_tokens`, set by `Quote::new`, is what
all of the base tokens cost, and `Quote::cmp` ranks by it; `counter_tokens_cost(a)` is what
`a` of them cost.  Both are read off the SCI again and again, by matching on the numbers of
its required and partial fill outputs:

| required | partial | kind | base range | cost of `a` |
| :-- | :-- | :-- | :-- | :-- |
| 1 | 0 | all or nothing | `V..=V` | `R` |
| 0 | 1 | partial fill | `min..=V` | `P * a / V` |
| 1 | 1 | partial fill with change | `min..=V - R` | `P * a / V` |

with `V` the pseudo output value, `R` the value of the required output and `P` the revealed
amount of the partial fill output.  Nothing else gets through `Quote::new`
(`Quote.Made.kind`).

**What holds** (`partialFill_cost_exact`): the cost is the floor of `P * a / V`, without
overflow on the way, at most `P`, monotone and additive up to one unit.

**What does not.**  The base range may be empty, since nobody compares the minimum with what
is left of the offer (`baseRange_ordered_iff`).  Where nothing is left and the minimum is
zero, asking for the price of zero base tokens panics (`counterTokensCost_returns_iff`).
And a required change output lowers the amount on offer but not the amount asked for, so
the price that ranks a quote is above the price it charges (`cost_max_iff`).
-/
import Deqs.Lib.Wide
import Deqs.Quote.Basic

namespace Deqs

variable (mc : McCore)

/-! ## The function -/

def RangeInclusive.contains (r : RangeInclusive) (a : UInt64) : Prop := r.start ≤ a ∧ a ≤ r.stop

instance RangeInclusive.decidableContains (r : RangeInclusive) (a : UInt64) :
    Decidable (r.contains a) :=
  inferInstanceAs (Decidable (_ ∧ _))

def divU128 (a b : BitVec 128) : Outcome Error (BitVec 128) :=
  if b = 0 then .panic "attempt to divide by zero" else .ok (a / b)

/-- `max_available_amount`: the pseudo output value, less the required output if there is
one. -/
def SignedContingentInput.maxAvailableAmount (sci : SignedContingentInput)
    (numRequiredOutputs : Nat) : Outcome Error UInt64 :=
  if numRequiredOutputs = 1 then do
    let required ← index sci.requiredOutputAmounts 0
    .assert (sci.pseudoOutputAmount.value > required.value)
      "max_available_amount > self.sci.required_output_amounts[0].value"
    .ok (sci.pseudoOutputAmount.value - required.value)
  else .ok sci.pseudoOutputAmount.value

/-- The arm of `counter_tokens_cost` for one partial fill output. -/
def SignedContingentInput.partialFillCost (sci : SignedContingentInput) (rules : InputRules)
    (numRequiredOutputs : Nat) (output : RevealedTxOut) (baseTokens : UInt64) :
    Outcome Error UInt64 := do
  .assert (baseTokens ≥ rules.minPartialFillValue)
    "base_tokens >= input_rules.min_partial_fill_value"
  let maxAvailableAmount ← sci.maxAvailableAmount numRequiredOutputs
  .assert (baseTokens ≤ maxAvailableAmount) "base_tokens <= max_available_amount"
  let amount ← .mapErr .revealedTxOut (.ofExcept (mc.revealAmount output))
  let num128 := Wide.ofU64 amount.value * Wide.ofU64 baseTokens
  let quotient ← divU128 num128 (Wide.ofU64 sci.pseudoOutputAmount.value)
  .ok (Wide.toU64 quotient)

def Quote.counterTokensCost (q : Quote) (baseTokens : UInt64) : Outcome Error UInt64 :=
  if ¬ q.baseRange.contains baseTokens then .err (.insufficientBaseTokens baseTokens)
  else
    match q.sci.txIn.inputRules with
    | none => .err (.unsupportedSci "Missing input rules")
    | some rules =>
        match rules.requiredOutputs.length, rules.partialFillOutputs with
        | 0, [] => .err (.unsupportedSci "No required/partial outputs")
        | 1, [] => do
            .assert (baseTokens = q.sci.pseudoOutputAmount.value)
              "base_tokens == self.sci.pseudo_output_amount.value"
            let required ← index q.sci.requiredOutputAmounts 0
            .ok required.value
        | n, [output] =>
            if n ≤ 1 then q.sci.partialFillCost mc rules n output baseTokens
            else .err (.unsupportedSci
              s!"Unsupported number of required/partial outputs {n}/1")
        | n, outputs => .err (.unsupportedSci
            s!"Unsupported number of required/partial outputs {n}/{outputs.length}")

/-! ## The kinds of offer -/

namespace SignedContingentInput

def isPartialFill (sci : SignedContingentInput) : Bool :=
  match sci.txIn.inputRules with
  | some rules => !rules.partialFillOutputs.isEmpty
  | none => false

def minPartialFillValue (sci : SignedContingentInput) : UInt64 :=
  match sci.txIn.inputRules with
  | some rules => rules.minPartialFillValue
  | none => 0

/-- The required output of a partial fill offer, which is change that goes back to the
offerer. -/
def requiredChange (sci : SignedContingentInput) : UInt64 :=
  match sci.txIn.inputRules with
  | some rules =>
      match rules.requiredOutputs, rules.partialFillOutputs, sci.requiredOutputAmounts with
      | [_], _ :: _, required :: _ => required.value
      | _, _, _ => 0
  | none => 0

/-- An offer of all the base tokens for `required`. -/
structure AllOrNothing (sci : SignedContingentInput) (rules : InputRules) (required : Amount) :
    Prop where
  inputRules : sci.txIn.inputRules = some rules
  one : rules.requiredOutputs.length = 1
  noPartial : rules.partialFillOutputs = []
  required : sci.requiredOutputAmounts[0]? = some required

/-- An offer of any part of the base tokens, less `change`, for that part of `amount`. -/
structure PartialFill (sci : SignedContingentInput) (rules : InputRules)
    (output : RevealedTxOut) (amount : Amount) (change : UInt64) : Prop where
  inputRules : sci.txIn.inputRules = some rules
  one : rules.partialFillOutputs = [output]
  reveal : mc.revealAmount output = .ok amount
  required : rules.requiredOutputs.length = 0 ∧ change = 0 ∨
    rules.requiredOutputs.length = 1 ∧
      ∃ required, sci.requiredOutputAmounts[0]? = some required ∧ required.value = change
  covered : change ≤ sci.pseudoOutputAmount.value

variable {mc} {sci : SignedContingentInput} {rules : InputRules} {required amount : Amount}
  {output : RevealedTxOut} {change : UInt64}

theorem AllOrNothing.isPartialFill_eq (h : sci.AllOrNothing rules required) :
    sci.isPartialFill = false := by
  simp [isPartialFill, h.inputRules, h.noPartial]

theorem AllOrNothing.requiredChange_eq (h : sci.AllOrNothing rules required) :
    sci.requiredChange = 0 := by
  simp [requiredChange, h.inputRules, h.noPartial]

theorem PartialFill.isPartialFill_eq (h : sci.PartialFill mc rules output amount change) :
    sci.isPartialFill = true := by
  simp [isPartialFill, h.inputRules, h.one]

theorem PartialFill.minPartialFillValue_eq (h : sci.PartialFill mc rules output amount change) :
    sci.minPartialFillValue = rules.minPartialFillValue := by
  simp [minPartialFillValue, h.inputRules]

theorem PartialFill.requiredChange_eq (h : sci.PartialFill mc rules output amount change) :
    sci.requiredChange = change := by
  simp only [requiredChange, h.inputRules, h.one]
  rcases h.required with ⟨hlen, rfl⟩ | ⟨hlen, required, hreq, hval⟩
  · simp [List.length_eq_zero_iff.mp hlen]
  · obtain ⟨txOut, htx⟩ := List.length_eq_one_iff.mp hlen
    cases hamounts : sci.requiredOutputAmounts with
    | nil => simp [hamounts] at hreq
    | cons r rs =>
        simp only [hamounts, List.length_cons, Nat.zero_lt_succ, List.getElem?_eq_getElem,
          List.getElem_cons_zero, Option.some.injEq] at hreq
        subst hreq
        simp only [htx, hval]

end SignedContingentInput

variable {mc}

theorem index_zero_ok {α : Type} {xs : List α} {x : α} :
    index xs 0 = .ok x ↔ xs[0]? = some x := by
  unfold index
  cases xs with
  | nil => simp
  | cons y ys => simp

theorem reveal_ok {output : RevealedTxOut} {amount : Amount} :
    Outcome.mapErr Error.revealedTxOut (.ofExcept (mc.revealAmount output)) = .ok amount ↔
      mc.revealAmount output = .ok amount := by
  cases mc.revealAmount output with
  | ok a => simp [Outcome.ofExcept, Outcome.mapErr]
  | error e => simp [Outcome.ofExcept, Outcome.mapErr]

theorem Terms.ofPartialFill_ok {sci : SignedContingentInput} {rules : InputRules}
    {output : RevealedTxOut} {terms : Terms} (hr : sci.txIn.inputRules = some rules)
    (ho : rules.partialFillOutputs = [output]) (hn : rules.requiredOutputs.length ≤ 1)
    (h : Terms.ofPartialFill mc sci rules rules.requiredOutputs.length output = .ok terms) :
    ∃ amount change, sci.PartialFill mc rules output amount change ∧
      terms = ⟨amount.tokenId,
        ⟨rules.minPartialFillValue, sci.pseudoOutputAmount.value - change⟩, amount.value⟩ := by
  obtain ⟨amount, ha, h⟩ := Outcome.bind_eq_ok.mp h
  have hreveal := reveal_ok.mp ha
  simp only at h
  split at h
  · next hlen =>
      obtain ⟨required, hreq, h⟩ := Outcome.bind_eq_ok.mp h
      split at h
      · cases h
      · split at h
        · cases h
        · next rest hsub =>
            unfold checkedSub at hsub
            split at hsub
            · next hle =>
                obtain rfl := Option.some.inj hsub
                refine ⟨amount, required.value, ⟨hr, ho, hreveal, ?_, hle⟩, ?_⟩
                · exact .inr ⟨hlen, required, index_zero_ok.mp hreq, rfl⟩
                · exact (Outcome.ok.inj h).symm
            · cases hsub
  · next hlen =>
      have hzero : rules.requiredOutputs.length = 0 := by omega
      refine ⟨amount, 0, ⟨hr, ho, hreveal, .inl ⟨hzero, rfl⟩, UInt64.zero_le⟩, ?_⟩
      rw [UInt64.sub_zero]
      exact (Outcome.ok.inj h).symm

/-- **`Quote::new` takes two kinds of offer**, and reads its terms off them. -/
theorem Terms.ofSci_ok {sci : SignedContingentInput} {terms : Terms}
    (h : Terms.ofSci mc sci = .ok terms) :
    (∃ rules required, sci.AllOrNothing rules required ∧
      terms = ⟨required.tokenId,
        ⟨sci.pseudoOutputAmount.value, sci.pseudoOutputAmount.value⟩, required.value⟩) ∨
    ∃ rules output amount change, sci.PartialFill mc rules output amount change ∧
      terms = ⟨amount.tokenId,
        ⟨rules.minPartialFillValue, sci.pseudoOutputAmount.value - change⟩, amount.value⟩ := by
  unfold Terms.ofSci at h
  cases hr : sci.txIn.inputRules with
  | none => simp [hr] at h
  | some rules =>
      simp only [hr] at h
      split at h
      · cases h
      · next hlen ho =>
          obtain ⟨required, hreq, h⟩ := Outcome.bind_eq_ok.mp h
          exact .inl ⟨rules, required, ⟨hr, hlen, ho, index_zero_ok.mp hreq⟩,
            (Outcome.ok.inj h).symm⟩
      · next output ho =>
          split at h
          · next hn =>
              obtain ⟨amount, change, hpf, hterms⟩ := ofPartialFill_ok hr ho hn h
              exact .inr ⟨rules, output, amount, change, hpf, hterms⟩
          · cases h
      · cases h

namespace Quote

variable {q : Quote}

theorem Made.kind (h : q.Made mc) :
    (∃ rules required, q.sci.AllOrNothing rules required ∧
      q.baseRange = ⟨q.sci.pseudoOutputAmount.value, q.sci.pseudoOutputAmount.value⟩ ∧
      q.maxCounterTokens = required.value) ∨
    ∃ rules output amount change, q.sci.PartialFill mc rules output amount change ∧
      q.baseRange = ⟨rules.minPartialFillValue, q.sci.pseudoOutputAmount.value - change⟩ ∧
      q.maxCounterTokens = amount.value := by
  obtain ⟨-, terms, hterms, -, hrange, hcounter⟩ := h.eq_terms
  rcases Terms.ofSci_ok hterms with ⟨rules, required, hk, rfl⟩ |
    ⟨rules, output, amount, change, hk, rfl⟩
  · exact .inl ⟨rules, required, hk, hrange, hcounter⟩
  · exact .inr ⟨rules, output, amount, change, hk, hrange, hcounter⟩

/-- The most a taker can get is what is offered less the change. -/
theorem Made.maxBaseTokens_add (h : q.Made mc) :
    q.maxBaseTokens.toNat + q.sci.requiredChange.toNat =
      q.sci.pseudoOutputAmount.value.toNat := by
  rcases h.kind with ⟨rules, required, hk, hrange, -⟩ |
    ⟨rules, output, amount, change, hk, hrange, -⟩
  · simp [maxBaseTokens, hrange, hk.requiredChange_eq]
  · have hle := UInt64.le_iff_toNat_le.mp hk.covered
    rw [maxBaseTokens, hrange, hk.requiredChange_eq, UInt64.toNat_sub_of_le _ _ hk.covered]
    omega

/-! ## What a fill costs -/

/-- Of an all-or-nothing quote one can only ask for everything. -/
theorem cost_allOrNothing {rules : InputRules} {required : Amount} {baseTokens : UInt64}
    (hk : q.sci.AllOrNothing rules required)
    (hrange : q.baseRange = ⟨q.sci.pseudoOutputAmount.value, q.sci.pseudoOutputAmount.value⟩)
    (hin : q.baseRange.contains baseTokens) :
    q.counterTokensCost mc baseTokens = .ok required.value := by
  have hall : baseTokens = q.sci.pseudoOutputAmount.value := by
    rw [hrange] at hin
    exact UInt64.le_antisymm hin.2 hin.1
  simp only [counterTokensCost, hin, not_true_eq_false, if_false, hk.inputRules, hk.one,
    hk.noPartial]
  rw [Outcome.assert_bind hall, index_zero_ok.mpr hk.required]
  rfl

theorem bounds_of_contains {low high amount : UInt64} (hrange : q.baseRange = ⟨low, high⟩)
    (h : q.baseRange.contains amount) : amount ≥ low ∧ amount ≤ high := by
  rw [hrange] at h
  exact ⟨h.1, h.2⟩

section PartialFill

variable {rules : InputRules} {output : RevealedTxOut} {amount : Amount}
  {change baseTokens : UInt64}

theorem cost_eq_partialFillCost (hk : q.sci.PartialFill mc rules output amount change)
    (hin : q.baseRange.contains baseTokens) :
    q.counterTokensCost mc baseTokens =
      q.sci.partialFillCost mc rules rules.requiredOutputs.length output baseTokens := by
  simp only [counterTokensCost, hin, not_true_eq_false, if_false, hk.inputRules, hk.one]
  rcases hk.required with ⟨hlen, -⟩ | ⟨hlen, -⟩
  · simp [hlen]
  · simp [hlen]

theorem cost_partialFill (hk : q.sci.PartialFill mc rules output amount change)
    (hrange : q.baseRange = ⟨rules.minPartialFillValue, q.sci.pseudoOutputAmount.value - change⟩)
    (hin : q.baseRange.contains baseTokens) (hleft : change ≠ q.sci.pseudoOutputAmount.value) :
    q.counterTokensCost mc baseTokens =
      .ok (Wide.share amount.value baseTokens q.sci.pseudoOutputAmount.value) := by
  have hlt : q.sci.pseudoOutputAmount.value > change := UInt64.lt_of_le_of_ne hk.covered hleft
  have hpos : Wide.ofU64 q.sci.pseudoOutputAmount.value ≠ 0 := by
    intro hz
    rw [Wide.ofU64_eq_zero.mp hz] at hlt
    exact absurd hlt (by simp)
  have havail : q.sci.maxAvailableAmount rules.requiredOutputs.length =
      .ok (q.sci.pseudoOutputAmount.value - change) := by
    unfold SignedContingentInput.maxAvailableAmount
    rcases hk.required with ⟨hlen, rfl⟩ | ⟨hlen, required, hreq, rfl⟩
    · simp [hlen]
    · rw [if_pos hlen, index_zero_ok.mpr hreq, Outcome.bind_ok, Outcome.assert_bind hlt]
  obtain ⟨hmin, hmax⟩ := bounds_of_contains hrange hin
  rw [cost_eq_partialFillCost hk hin, SignedContingentInput.partialFillCost,
    Outcome.assert_bind hmin, havail, Outcome.bind_ok, Outcome.assert_bind hmax,
    reveal_ok.mpr hk.reveal, Outcome.bind_ok]
  simp only [divU128, hpos, if_false, Outcome.bind_ok]
  rfl

/-- Where nothing is left, it panics: on the assertion, or on the division. -/
theorem cost_panics (hk : q.sci.PartialFill mc rules output amount change)
    (hrange : q.baseRange = ⟨rules.minPartialFillValue, q.sci.pseudoOutputAmount.value - change⟩)
    (hin : q.baseRange.contains baseTokens) (hnone : change = q.sci.pseudoOutputAmount.value) :
    ∃ m, q.counterTokensCost mc baseTokens = .panic m := by
  obtain ⟨hmin, hmax⟩ := bounds_of_contains hrange hin
  rw [cost_eq_partialFillCost hk hin, SignedContingentInput.partialFillCost,
    Outcome.assert_bind hmin]
  unfold SignedContingentInput.maxAvailableAmount
  rcases hk.required with ⟨hlen, hzero⟩ | ⟨hlen, required, hreq, hval⟩
  · rw [hzero, UInt64.sub_zero] at hmax
    have hdiv : Wide.ofU64 q.sci.pseudoOutputAmount.value = 0 :=
      Wide.ofU64_eq_zero.mpr (hnone ▸ hzero)
    rw [if_neg (by omega), Outcome.bind_ok, Outcome.assert_bind hmax, reveal_ok.mpr hk.reveal,
      Outcome.bind_ok]
    simp [divU128, hdiv]
  · have hnot : ¬ q.sci.pseudoOutputAmount.value > required.value := by
      rw [hval, hnone]
      exact UInt64.lt_irrefl _
    rw [if_pos hlen, index_zero_ok.mpr hreq, Outcome.bind_ok, Outcome.assert_bind_panic hnot]
    exact ⟨_, rfl⟩

end PartialFill

theorem cost_outside {baseTokens : UInt64} (h : ¬ q.baseRange.contains baseTokens) :
    q.counterTokensCost mc baseTokens = .err (.insufficientBaseTokens baseTokens) := by
  simp [counterTokensCost, h]

theorem eq_share_of_cost {rules : InputRules} {output : RevealedTxOut} {amount : Amount}
    {change a c : UInt64} (hk : q.sci.PartialFill mc rules output amount change)
    (hrange : q.baseRange = ⟨rules.minPartialFillValue, q.sci.pseudoOutputAmount.value - change⟩)
    (h : q.counterTokensCost mc a = .ok c) :
    a ≤ q.sci.pseudoOutputAmount.value ∧ q.sci.pseudoOutputAmount.value ≠ 0 ∧
      c = Wide.share amount.value a q.sci.pseudoOutputAmount.value := by
  by_cases hin : q.baseRange.contains a
  · by_cases hleft : change = q.sci.pseudoOutputAmount.value
    · obtain ⟨m, hm⟩ := cost_panics hk hrange hin hleft
      rw [hm] at h
      cases h
    · have hle : q.sci.pseudoOutputAmount.value - change ≤ q.sci.pseudoOutputAmount.value :=
        UInt64.sub_le hk.covered
      refine ⟨?_, ?_, ?_⟩
      · have := hin.2
        rw [hrange] at this
        exact UInt64.le_trans this hle
      · intro hzero
        have hcov := hk.covered
        rw [hzero] at hcov hleft
        exact hleft (UInt64.le_zero_iff.mp hcov)
      · rw [cost_partialFill hk hrange hin hleft] at h
        exact (Outcome.ok.inj h).symm
  · rw [cost_outside hin] at h
    cases h

end Quote

/-! ## `Quote::new` returns -/

/-- `validate` sees to it that there is an amount for each required output. -/
def McCore.ChecksLengths (mc : McCore) : Prop :=
  ∀ sci rules, mc.validate sci = .ok () → sci.txIn.inputRules = some rules →
    rules.requiredOutputs.length = sci.requiredOutputAmounts.length

theorem index_zero_ne_panic {α : Type} {xs : List α} (h : 0 < xs.length) (m : String) :
    index xs 0 ≠ .panic m := by
  cases xs with
  | nil => cases h
  | cons x xs => simp [index]

theorem ofExcept_ne_panic {ε δ α : Type} (f : ε → δ) (x : Except ε α) (m : String) :
    Outcome.mapErr f (.ofExcept x) ≠ .panic m := by
  cases x with
  | ok a => simp [Outcome.ofExcept, Outcome.mapErr]
  | error e => simp [Outcome.ofExcept, Outcome.mapErr]

theorem Terms.ofPartialFill_ne_panic {mc : McCore} {sci : SignedContingentInput}
    {rules : InputRules} {n : Nat} (hn : n = sci.requiredOutputAmounts.length)
    (output : RevealedTxOut) (m : String) :
    Terms.ofPartialFill mc sci rules n output ≠ .panic m := by
  intro h
  rcases Outcome.bind_eq_panic.mp h with h | ⟨amount, -, h⟩
  · exact ofExcept_ne_panic _ _ m h
  · simp only at h
    split at h
    · next hone =>
        rcases Outcome.bind_eq_panic.mp h with h | ⟨required, -, h⟩
        · exact index_zero_ne_panic (by omega) m h
        · split at h
          · cases h
          · split at h <;> cases h
    · cases h

theorem Quote.new_ne_panic {mc : McCore} (hmc : mc.ChecksLengths) (now : Option UInt64)
    (sci : SignedContingentInput) (timestamp : Option UInt64) (m : String) :
    Quote.new mc now sci timestamp ≠ .panic m := by
  intro h
  rcases Outcome.bind_eq_panic.mp h with h | ⟨t, -, h⟩
  · unfold arrivalTime at h
    split at h <;> cases h
  rcases Outcome.bind_eq_panic.mp h with h | ⟨u, hvalid, h⟩
  · exact ofExcept_ne_panic _ _ m h
  have hvalid' : mc.validate sci = .ok () := by
    cases hv : mc.validate sci with
    | ok u => rfl
    | error e => simp [hv, Outcome.ofExcept, Outcome.mapErr] at hvalid
  rcases Outcome.bind_eq_panic.mp h with h | ⟨terms, -, h⟩
  · unfold Terms.ofSci at h
    split at h
    · cases h
    · next rules hrules =>
        have hlen := hmc sci rules hvalid' hrules
        split at h
        · cases h
        · next hone _ =>
            rcases Outcome.bind_eq_panic.mp h with h | ⟨required, -, h⟩
            · exact index_zero_ne_panic (by omega) m h
            · cases h
        · split at h
          · exact Terms.ofPartialFill_ne_panic hlen _ m h
          · cases h
        · cases h
  · cases h

/-! ## Offers to fill in part

`sampleFill` offers token 1 for token 2, with or without change; `sampleFillCore` checks of
an SCI that it has an amount for each required output, and finds the amount of a partial
fill output written in its shared secret. -/

def sampleFillCore : McCore where
  validate sci :=
    match sci.txIn.inputRules with
    | some rules =>
        if rules.requiredOutputs.length = sci.requiredOutputAmounts.length then .ok ()
        else .error "wrong number of required output amounts"
    | none => .ok ()
  digest := sampleCore.digest
  revealAmount output :=
    match output.amountSharedSecret with
    | [value, tokenId] => .ok ⟨value.toUInt64, tokenId.toUInt64⟩
    | _ => .error "amount not revealed"
  validateTombstone := sampleCore.validateTombstone

theorem sampleFillCore_checksLengths : sampleFillCore.ChecksLengths := by
  intro sci rules hv hr
  simp only [sampleFillCore, hr] at hv
  split at hv
  · assumption
  · cases hv

def sampleFill (tag : UInt8) (offered : UInt64) (change : Option UInt64) (wanted : UInt8)
    (minimum : UInt64) : SignedContingentInput where
  txIn := ⟨[], some ⟨change.toList.map fun _ => ⟨.fill tag, []⟩, 0,
    [⟨⟨.fill tag, []⟩, [wanted, 2]⟩], none, minimum⟩⟩
  keyImage := ⟨.fill tag⟩
  pseudoOutputAmount := ⟨offered, 1⟩
  requiredOutputAmounts := change.toList.map fun value => ⟨value, 1⟩
  txOutGlobalIndices := []
  rest := [tag]

def sampleFillQuote (tag : UInt8) (offered : UInt64) (change : Option UInt64) (wanted : UInt8)
    (minimum timestamp : UInt64) : Quote where
  sci := sampleFill tag offered change wanted minimum
  id := ⟨.fill tag⟩
  pair := ⟨1, 2⟩
  baseRange := ⟨minimum, offered - change.getD 0⟩
  maxCounterTokens := wanted.toUInt64
  timestamp

/-- 20 counter tokens for 10 base tokens, in fills of at least 2. -/
theorem sampleFillQuote_made : (sampleFillQuote 1 10 none 20 2 7).Made sampleFillCore :=
  ⟨none, sampleFill 1 10 none 20 2, some 7, rfl⟩

namespace Quote

variable {q : Quote}

/-! ## Is there anything to fill? -/

theorem sci_of_new {now timestamp : Option UInt64} {sci : SignedContingentInput}
    (h : Quote.new mc now sci timestamp = .ok q) : q.sci = sci := by
  unfold Quote.new at h
  obtain ⟨t, -, h⟩ := Outcome.bind_eq_ok.mp h
  obtain ⟨-, -, h⟩ := Outcome.bind_eq_ok.mp h
  obtain ⟨terms, -, h⟩ := Outcome.bind_eq_ok.mp h
  exact (congrArg Quote.sci (Outcome.ok.inj h)).symm

/-- **A quote can be filled exactly when its minimum and its change fit into what it
offers**; `Quote::new` compares only the change. -/
theorem baseRange_ordered_iff {now timestamp : Option UInt64} {sci : SignedContingentInput}
    (h : Quote.new mc now sci timestamp = .ok q) :
    q.baseRange.start ≤ q.baseRange.stop ↔
      (sci.isPartialFill = true →
        sci.minPartialFillValue.toNat + sci.requiredChange.toNat ≤
          sci.pseudoOutputAmount.value.toNat) := by
  have hsci := sci_of_new h
  have hmade : q.Made mc := ⟨now, sci, timestamp, h⟩
  rcases hmade.kind with ⟨rules, required, hk, hrange, -⟩ |
    ⟨rules, output, amount, change, hk, hrange, -⟩
  · rw [← hsci, hk.isPartialFill_eq, hrange]
    simp
  · have hle := UInt64.le_iff_toNat_le.mp hk.covered
    rw [← hsci, hk.isPartialFill_eq, hk.minPartialFillValue_eq, hk.requiredChange_eq, hrange,
      UInt64.le_iff_toNat_le, UInt64.toNat_sub_of_le _ _ hk.covered]
    simp only [forall_const]
    omega

/-- A minimum of 8 with change of 5 out of 10: the base range is `8..=5`. -/
theorem baseRange_unordered : sampleFillCore.ChecksLengths ∧
    ∃ q, Quote.new sampleFillCore none (sampleFill 1 10 (some 5) 20 8) (some 7) = .ok q ∧
      ¬ q.baseRange.start ≤ q.baseRange.stop :=
  ⟨sampleFillCore_checksLengths, sampleFillQuote 1 10 (some 5) 20 8 7, rfl, by decide⟩

theorem baseRange_ordered_sample :
    (sampleFillQuote 1 10 none 20 2 7).baseRange.start ≤
      (sampleFillQuote 1 10 none 20 2 7).baseRange.stop := by
  have h : Quote.new sampleFillCore none (sampleFill 1 10 none 20 2) (some 7) =
      .ok (sampleFillQuote 1 10 none 20 2 7) := rfl
  exact (baseRange_ordered_iff h).mpr (by decide)

/-! ## Does it return? -/

/-- **The price of a fill is computed or refused, except for the price of nothing out of
nothing**: a partial fill quote whose change takes all there is, and that has no minimum. -/
theorem counterTokensCost_returns_iff (hq : q.Made mc) (baseTokens : UInt64) :
    (∀ m, q.counterTokensCost mc baseTokens ≠ .panic m) ↔
      ¬ (q.sci.isPartialFill = true ∧ q.baseRange = ⟨0, 0⟩ ∧ baseTokens = 0) := by
  by_cases hin : q.baseRange.contains baseTokens
  · rcases hq.kind with ⟨rules, required, hk, hrange, -⟩ |
      ⟨rules, output, amount, change, hk, hrange, -⟩
    · simp [cost_allOrNothing hk hrange hin, hk.isPartialFill_eq]
    · by_cases hnone : change = q.sci.pseudoOutputAmount.value
      · obtain ⟨m, hm⟩ := cost_panics hk hrange hin hnone
        -- the range ends at zero, and so begins there
        have hzero : baseTokens = 0 ∧ q.baseRange = ⟨0, 0⟩ := by
          rw [hrange, hnone, UInt64.sub_self] at hin ⊢
          have hbase : baseTokens = 0 := UInt64.le_zero_iff.mp hin.2
          have hmin : rules.minPartialFillValue = 0 := by
            have := hin.1
            rw [hbase] at this
            exact UInt64.le_zero_iff.mp this
          exact ⟨hbase, by rw [hmin]⟩
        refine iff_of_false (fun h => h m hm) (not_not.mpr ?_)
        exact ⟨hk.isPartialFill_eq, hzero.2, hzero.1⟩
      · rw [cost_partialFill hk hrange hin hnone]
        refine iff_of_true (fun m h => by cases h) ?_
        rintro ⟨-, hzero, -⟩
        rw [hrange, RangeInclusive.mk.injEq] at hzero
        have hsub := congrArg UInt64.toNat hzero.2
        rw [UInt64.toNat_sub_of_le _ _ hk.covered, UInt64.toNat_zero] at hsub
        have hle := UInt64.le_iff_toNat_le.mp hk.covered
        exact hnone (UInt64.toNat_inj.mp (by omega))
  · rw [cost_outside hin]
    refine iff_of_true (fun m h => by cases h) ?_
    rintro ⟨-, hzero, rfl⟩
    rw [hzero] at hin
    exact hin ⟨UInt64.le_refl 0, UInt64.le_refl 0⟩

/-- Both panics: change that takes the whole offer, and an offer of nothing. -/
theorem counterTokensCost_panics : sampleFillCore.ChecksLengths ∧
    (∃ q, Quote.new sampleFillCore none (sampleFill 1 5 (some 5) 20 0) (some 7) = .ok q ∧
      q.counterTokensCost sampleFillCore 0 = .panic ("assertion failed: " ++
        "max_available_amount > self.sci.required_output_amounts[0].value")) ∧
    ∃ q, Quote.new sampleFillCore none (sampleFill 1 0 none 20 0) (some 7) = .ok q ∧
      q.counterTokensCost sampleFillCore 0 = .panic "attempt to divide by zero" :=
  ⟨sampleFillCore_checksLengths, ⟨sampleFillQuote 1 5 (some 5) 20 0 7, rfl, rfl⟩,
    sampleFillQuote 1 0 none 20 0 7, rfl, rfl⟩

theorem counterTokensCost_returns_sample :
    ¬ ∃ m, (sampleFillQuote 1 10 none 20 2 7).counterTokensCost sampleFillCore 5 = .panic m := by
  rintro ⟨m, hm⟩
  exact (counterTokensCost_returns_iff sampleFillQuote_made 5).mpr (by decide) m hm

/-! ## What it returns -/

/-- **The ranked price is the charged price exactly when no change is required, or nothing
is asked for.** -/
theorem cost_max_iff (hq : q.Made mc) (hne : q.baseRange.start ≤ q.baseRange.stop)
    (hpos : 0 < q.maxBaseTokens) :
    q.counterTokensCost mc q.maxBaseTokens = .ok q.maxCounterTokens ↔
      q.sci.requiredChange = 0 ∨ q.maxCounterTokens = 0 := by
  have hin : q.baseRange.contains q.maxBaseTokens := ⟨hne, UInt64.le_refl _⟩
  rcases hq.kind with ⟨rules, required, hk, hrange, hmax⟩ |
    ⟨rules, output, amount, change, hk, hrange, hmax⟩
  · rw [cost_allOrNothing hk hrange hin, hk.requiredChange_eq, hmax]
    simp
  · have hbase : q.maxBaseTokens = q.sci.pseudoOutputAmount.value - change := by
      rw [maxBaseTokens, hrange]
    have hleft : change ≠ q.sci.pseudoOutputAmount.value := by
      rintro rfl
      rw [hbase, UInt64.sub_self] at hpos
      exact UInt64.lt_irrefl 0 hpos
    have hne0 : q.sci.pseudoOutputAmount.value ≠ 0 := by
      intro hzero
      have hcov := hk.covered
      rw [hzero] at hcov hleft
      exact hleft (UInt64.le_zero_iff.mp hcov)
    have hle : q.maxBaseTokens ≤ q.sci.pseudoOutputAmount.value :=
      hbase ▸ UInt64.sub_le hk.covered
    rw [cost_partialFill hk hrange hin hleft, Outcome.ok.injEq, hmax,
      Wide.share_eq_whole hle hne0, hk.requiredChange_eq]
    refine or_congr_left ?_
    have hsum := hq.maxBaseTokens_add
    rw [hk.requiredChange_eq] at hsum
    rw [← UInt64.toNat_inj, ← UInt64.toNat_inj, UInt64.toNat_zero]
    omega

/-- 20 counter tokens for 10 base tokens less 4 of change: ranked as 20 for 6, charged as
12 for 6. -/
theorem cost_max_below : ∃ q, Quote.new sampleFillCore none
      (sampleFill 1 10 (some 4) 20 0) (some 7) = .ok q ∧
    q.baseRange.start ≤ q.baseRange.stop ∧ q.maxBaseTokens = 6 ∧ q.maxCounterTokens = 20 ∧
    q.counterTokensCost sampleFillCore q.maxBaseTokens = .ok 12 :=
  ⟨sampleFillQuote 1 10 (some 4) 20 0 7, rfl, by decide, rfl, rfl, rfl⟩

theorem cost_max_sample :
    (sampleFillQuote 1 10 none 20 2 7).counterTokensCost sampleFillCore 10 = .ok 20 :=
  (cost_max_iff sampleFillQuote_made (by decide) (by decide)).mpr (.inl rfl)

/-- **The price of a partial fill**, for every quote of that kind and all amounts it is
asked for. -/
theorem partialFill_cost_exact (hq : q.Made mc) {rules : InputRules} {output : RevealedTxOut}
    {amount : Amount} (hrules : q.sci.txIn.inputRules = some rules)
    (houtput : rules.partialFillOutputs = [output])
    (hreveal : mc.revealAmount output = .ok amount) :
    (∀ a, (Wide.ofU64 amount.value * Wide.ofU64 a).toNat = amount.value.toNat * a.toNat) ∧
    (∀ a c, q.counterTokensCost mc a = .ok c →
      (Wide.ofU64 amount.value * Wide.ofU64 a /
        Wide.ofU64 q.sci.pseudoOutputAmount.value).toNat < 2 ^ 64 ∧
      c.toNat = amount.value.toNat * a.toNat / q.sci.pseudoOutputAmount.value.toNat ∧
      c ≤ q.maxCounterTokens) ∧
    (∀ a b ca cb, q.counterTokensCost mc a = .ok ca → q.counterTokensCost mc b = .ok cb →
      a ≤ b → ca ≤ cb) ∧
    (∀ a b sum ca cb csum, sum.toNat = a.toNat + b.toNat → q.counterTokensCost mc a = .ok ca →
      q.counterTokensCost mc b = .ok cb → q.counterTokensCost mc sum = .ok csum →
      ca.toNat + cb.toNat ≤ csum.toNat ∧ csum.toNat ≤ ca.toNat + cb.toNat + 1) ∧
    ∀ a, ¬ q.baseRange.contains a →
      q.counterTokensCost mc a = .err (.insufficientBaseTokens a) := by
  rcases hq.kind with ⟨rules', required, hk, -, -⟩ |
    ⟨rules', output', amount', change, hk, hrange, hmax⟩
  · have hr := hk.inputRules
    rw [hrules, Option.some.injEq] at hr
    subst hr
    exact absurd (houtput.symm.trans hk.noPartial) (List.cons_ne_nil _ _)
  · obtain rfl : rules = rules' := Option.some.inj (hrules.symm.trans hk.inputRules)
    obtain rfl : output = output' := List.singleton_inj.mp (houtput.symm.trans hk.one)
    obtain rfl : amount = amount' := Except.ok.inj (hreveal.symm.trans hk.reveal)
    refine ⟨fun a => Wide.toNat_mul _ _, ?_, ?_, ?_, fun a ha => cost_outside ha⟩
    · intro a c h
      obtain ⟨hle, -, rfl⟩ := eq_share_of_cost hk hrange h
      exact ⟨Wide.div_lt hle, Wide.toNat_share hle, hmax ▸ Wide.share_le hle⟩
    · intro a b ca cb ha hb hab
      obtain ⟨-, -, rfl⟩ := eq_share_of_cost hk hrange ha
      obtain ⟨hle, -, rfl⟩ := eq_share_of_cost hk hrange hb
      exact Wide.share_mono hab hle
    · intro a b sum ca cb csum hsum ha hb hs
      obtain ⟨-, -, rfl⟩ := eq_share_of_cost hk hrange ha
      obtain ⟨-, -, rfl⟩ := eq_share_of_cost hk hrange hb
      obtain ⟨hle, hne, rfl⟩ := eq_share_of_cost hk hrange hs
      exact Wide.share_add hle hne hsum

theorem partialFill_cost_sample :
    (sampleFillQuote 1 10 none 20 2 7).counterTokensCost sampleFillCore 3 = .ok 6 ∧
      (6 : UInt64).toNat = 20 * 3 / 10 ∧
      (sampleFillQuote 1 10 none 20 2 7).counterTokensCost sampleFillCore 1 =
        .err (.insufficientBaseTokens 1) := by
  have h := partialFill_cost_exact sampleFillQuote_made rfl rfl rfl
  exact ⟨rfl, (h.2.1 3 6 rfl).2.1, h.2.2.2.2 1 (by decide)⟩

end Quote

end Deqs
