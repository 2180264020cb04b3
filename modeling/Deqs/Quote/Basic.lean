/-
# `Quote` — the data model, and how a quote is made from an SCI

The types of `quote-book/api`: a pair of tokens, a quote identifier, a quote, and the
errors of the quote book.  A quote wraps a `SignedContingentInput` — a signed offer to
trade — whose type belongs to the MobileCoin crates and is not part of this
repository.  Of it the model keeps what this repository reads: the ring and the input
rules, the amounts, the global indices, the key image.  Everything else an SCI carries
(the signature, the membership proofs) is one field, `rest`, so that two SCIs that
differ only there are still two SCIs.

**What comes from outside.**  Four functions are called and not defined here; they are
the fields of `McCore`, a parameter of the model:

    validate           SignedContingentInput::validate
    digest             sci.digest32::<MerlinTranscript>(b"deqs-sci-quote-id")
    revealAmount       RevealedTxOut::reveal_amount
    validateTombstone  mc_transaction_core::validation::validate_tombstone

Nothing is assumed of them except where a theorem says so.  `Genuine` is the one
assumption nearly everything needs: the quotes in play come from `Quote::new`, and no two
of their SCIs share a digest.  The identifier of a quote is a hash of its SCI, and the
code's comments rely on it being unique.  It is stated of a set of quotes and not of the
digest as such: a 32 byte digest has collisions somewhere.

**Integers.**  A `u64` is a `UInt64`, with its wrap-around; a product that the source
takes in `u128` is a product of natural numbers, since two `u64` factors cannot
overflow it.  A block index is a natural number: the chain does not reach `2^64` blocks.
-/
import Deqs.Lib.Outcome
import Mathlib.Data.Set.Defs

namespace Deqs

/-! ## Raw types -/

/-- `[u8; 32]`, with its length. -/
structure Bytes32 where
  bytes : List UInt8
  length_eq : bytes.length = 32
deriving DecidableEq

/-- `[b; 32]`. -/
def Bytes32.fill (b : UInt8) : Bytes32 := ⟨List.replicate 32 b, by simp⟩

/-- The derived order of an array is lexicographic. -/
instance : Ord Bytes32 where
  compare a b := compare a.bytes b.bytes

abbrev TokenId := UInt64

abbrev BlockIndex := Nat

/-- A key image: what a transaction reveals when it spends a TxOut. -/
structure KeyImage where
  bytes : Bytes32
deriving DecidableEq

/-- A transaction output.  Only its public key is ever read; outputs are otherwise
compared as a whole. -/
structure TxOut where
  publicKey : Bytes32
  rest : List UInt8
deriving DecidableEq

structure Amount where
  value : UInt64
  tokenId : TokenId
deriving DecidableEq

/-- An output together with what is needed to reveal its amount. -/
structure RevealedTxOut where
  txOut : TxOut
  amountSharedSecret : List UInt8
deriving DecidableEq

structure InputRules where
  requiredOutputs : List TxOut
  maxTombstoneBlock : UInt64
  partialFillOutputs : List RevealedTxOut
  partialFillChange : Option RevealedTxOut
  minPartialFillValue : UInt64
deriving DecidableEq

structure TxIn where
  ring : List TxOut
  inputRules : Option InputRules
deriving DecidableEq

structure SignedContingentInput where
  txIn : TxIn
  keyImage : KeyImage
  pseudoOutputAmount : Amount
  requiredOutputAmounts : List Amount
  txOutGlobalIndices : List UInt64
  rest : List UInt8
deriving DecidableEq

/-! ## The quote book API's types -/

structure Pair where
  baseTokenId : TokenId
  counterTokenId : TokenId
deriving DecidableEq

instance : Ord Pair where
  compare := compareLex (compareOn Pair.baseTokenId) (compareOn Pair.counterTokenId)

structure QuoteId where
  data : Bytes32
deriving DecidableEq

/-- `hex::encode` of the bytes. -/
def QuoteId.display (id : QuoteId) : String :=
  String.ofList (id.data.bytes.flatMap (fun b =>
    [Nat.digitChar (b.toNat / 16), Nat.digitChar (b.toNat % 16)]))

instance : Ord QuoteId where
  compare := compareOn (fun i => i.data.bytes)

structure RangeInclusive where
  start : UInt64
  stop : UInt64
deriving DecidableEq

structure Quote where
  sci : SignedContingentInput
  id : QuoteId
  pair : Pair
  baseRange : RangeInclusive
  maxCounterTokens : UInt64
  timestamp : UInt64
deriving DecidableEq

/-- The quote book's errors.  The two errors that wrap one of the MobileCoin crates
carry its text. -/
inductive Error where
  | sci (e : String)
  | unsupportedSci (msg : String)
  | quoteAlreadyExists (existingQuote : Quote)
  | quoteNotFound
  | quoteIsStale
  | insufficientBaseTokens (baseTokens : UInt64)
  | invalidRing (msg : String)
  | implementationSpecific (msg : String)
  | revealedTxOut (e : String)
  | lockPoisoned
  | time
deriving DecidableEq

def Error.display : Error → String
  | .sci e => s!"SCI: {e}"
  | .unsupportedSci msg => s!"Unsupported SCI: {msg}"
  | .quoteAlreadyExists _ => "Quote already exists in book"
  | .quoteNotFound => "Quote not found"
  | .quoteIsStale => "Quote has a spent keyimage"
  | .insufficientBaseTokens n =>
      s!"Quote cannot fulfill the desired amount ({n}) of base tokens"
  | .invalidRing msg => s!"Quote has an invalid ring: {msg}"
  | .implementationSpecific msg => s!"Implementation specific error: {msg}"
  | .revealedTxOut e => s!"RevealedTxOut: {e}"
  | .lockPoisoned => "LockPoisoned"
  | .time => "Time conversion error"

/-- The functions of the MobileCoin crates the quote book calls. -/
structure McCore where
  validate : SignedContingentInput → Except String Unit
  digest : SignedContingentInput → Bytes32
  revealAmount : RevealedTxOut → Except String Amount
  validateTombstone : BlockIndex → UInt64 → Except String Unit

variable (mc : McCore)

/-! ## `Quote::new` -/

/-- `QuoteId::from(&sci)`. -/
def QuoteId.ofSci (sci : SignedContingentInput) : QuoteId := ⟨mc.digest sci⟩

/-- `xs[i]`, which panics when there is no such entry. -/
def index {α : Type} (xs : List α) (i : Nat) : Outcome Error α :=
  match xs[i]? with
  | some x => .ok x
  | none => .panic "index out of bounds"

def checkedSub (a b : UInt64) : Option UInt64 := if b ≤ a then some (a - b) else none

/-- What `Quote::new` reads off the outputs of an SCI: counter token, base range and
maximal counter amount. -/
structure Terms where
  counterTokenId : TokenId
  baseRange : RangeInclusive
  maxCounterTokens : UInt64
deriving DecidableEq

/-- The arm for one partial fill output, with at most one required output.  A required
output in the base token is change: it takes away from what the fulfiller can get. -/
def Terms.ofPartialFill (sci : SignedContingentInput) (rules : InputRules)
    (numRequiredOutputs : Nat) (output : RevealedTxOut) : Outcome Error Terms := do
  let amount ← .mapErr .revealedTxOut (.ofExcept (mc.revealAmount output))
  let minBaseAmount := rules.minPartialFillValue
  let maxBaseAmount := sci.pseudoOutputAmount.value
  if numRequiredOutputs = 1 then
    let required ← index sci.requiredOutputAmounts 0
    if required.tokenId ≠ sci.pseudoOutputAmount.tokenId then
      .err (.unsupportedSci (
        s!"Suspected required-change-output token id {required.tokenId} " ++
        s!"does not match partial output token id {amount.tokenId}"))
    else
      match checkedSub maxBaseAmount required.value with
      | none => .err (.unsupportedSci (
          s!"max base amount {maxBaseAmount} " ++
          s!"is lower than required change {required.value}"))
      | some rest => .ok ⟨amount.tokenId, ⟨minBaseAmount, rest⟩, amount.value⟩
  else
    .ok ⟨amount.tokenId, ⟨minBaseAmount, maxBaseAmount⟩, amount.value⟩

/-- The match of `Quote::new` on the numbers of required and partial fill outputs. -/
def Terms.ofSci (sci : SignedContingentInput) : Outcome Error Terms :=
  match sci.txIn.inputRules with
  | none => .err (.unsupportedSci "Missing input rules")
  | some rules =>
      match rules.requiredOutputs.length, rules.partialFillOutputs with
      | 0, [] => .err (.unsupportedSci "No required/partial outputs")
      | 1, [] => do
          -- a single required output: all or nothing
          let required ← index sci.requiredOutputAmounts 0
          let value := sci.pseudoOutputAmount.value
          .ok ⟨required.tokenId, ⟨value, value⟩, required.value⟩
      | n, [output] =>
          if n ≤ 1 then Terms.ofPartialFill mc sci rules n output
          else .err (.unsupportedSci
            s!"Unsupported number of required/partial outputs {n}/1")
      | n, outputs => .err (.unsupportedSci
          s!"Unsupported number of required/partial outputs {n}/{outputs.length}")

/-- The timestamp of a new quote: the one given, else the system time.  `now` is what the
system clock shows, in nanoseconds since the Epoch; `none` when that is negative or does
not fit 64 bits. -/
def arrivalTime (now timestamp : Option UInt64) : Outcome Error UInt64 :=
  match timestamp, now with
  | some t, _ => .ok t
  | none, some t => .ok t
  | none, none => .err .time

def Quote.new (now : Option UInt64) (sci : SignedContingentInput)
    (timestamp : Option UInt64) : Outcome Error Quote := do
  let timestamp ← arrivalTime now timestamp
  .mapErr .sci (.ofExcept (mc.validate sci))
  let terms ← Terms.ofSci mc sci
  .ok {
    sci
    id := QuoteId.ofSci mc sci
    pair := ⟨sci.pseudoOutputAmount.tokenId, terms.counterTokenId⟩
    baseRange := terms.baseRange
    maxCounterTokens := terms.maxCounterTokens
    timestamp }

/-! ### `Quote::new` never says that a quote exists -/

theorem index_ne_err {α : Type} (xs : List α) (i : Nat) (e : Error) : index xs i ≠ .err e := by
  unfold index
  split <;> simp

theorem Terms.ofPartialFill_ne_exists (sci : SignedContingentInput)
    (rules : InputRules) (n : Nat) (output : RevealedTxOut) (q : Quote) :
    Terms.ofPartialFill mc sci rules n output ≠ .err (.quoteAlreadyExists q) := by
  intro h
  rcases Outcome.bind_eq_err.mp h with h | ⟨amount, -, h⟩
  · cases hr : mc.revealAmount output with
    | ok a => simp [hr, Outcome.ofExcept, Outcome.mapErr] at h
    | error e => simp [hr, Outcome.ofExcept, Outcome.mapErr] at h
  · simp only at h
    split at h
    · rcases Outcome.bind_eq_err.mp h with h | ⟨required, -, h⟩
      · exact index_ne_err _ _ _ h
      · split at h
        · cases h
        · split at h <;> cases h
    · cases h

theorem Terms.ofSci_ne_exists (sci : SignedContingentInput) (q : Quote) :
    Terms.ofSci mc sci ≠ .err (.quoteAlreadyExists q) := by
  intro h
  unfold Terms.ofSci at h
  split at h
  · cases h
  · split at h
    · cases h
    · rcases Outcome.bind_eq_err.mp h with h | ⟨required, -, h⟩
      · exact index_ne_err _ _ _ h
      · cases h
    · split at h
      · exact ofPartialFill_ne_exists _ _ _ _ _ _ h
      · cases h
    · cases h

theorem Quote.new_ne_exists (now : Option UInt64) (sci : SignedContingentInput)
    (timestamp : Option UInt64) (q : Quote) :
    Quote.new mc now sci timestamp ≠ .err (.quoteAlreadyExists q) := by
  intro h
  rcases Outcome.bind_eq_err.mp h with h | ⟨t, -, h⟩
  · unfold arrivalTime at h
    split at h <;> cases h
  · rcases Outcome.bind_eq_err.mp h with h | ⟨u, -, h⟩
    · cases hv : mc.validate sci with
      | ok u => simp [hv, Outcome.ofExcept, Outcome.mapErr] at h
      | error e => simp [hv, Outcome.ofExcept, Outcome.mapErr] at h
    · rcases Outcome.bind_eq_err.mp h with h | ⟨terms, -, h⟩
      · exact Terms.ofSci_ne_exists mc sci q h
      · cases h

/-- A quote `Quote::new` can return. -/
def Quote.Made (q : Quote) : Prop :=
  ∃ now sci timestamp, Quote.new mc now sci timestamp = .ok q

/-- The quotes of `S` come from `Quote::new`, and no two of their SCIs collide. -/
structure Genuine (S : Set Quote) : Prop where
  made : ∀ {q}, q ∈ S → q.Made mc
  collisionFree : ∀ {q q'}, q ∈ S → q' ∈ S → mc.digest q.sci = mc.digest q'.sci → q.sci = q'.sci

namespace Quote

def maxBaseTokens (q : Quote) : UInt64 := q.baseRange.stop

def keyImage (q : Quote) : KeyImage := q.sci.keyImage

/-- The tombstone block of a quote's SCI; 0 when it has none. -/
def tombstoneBlock (q : Quote) : UInt64 :=
  match q.sci.txIn.inputRules with
  | some rules => rules.maxTombstoneBlock
  | none => 0

variable {mc}

/-- Everything `Quote::new` returns except the timestamp is a function of the SCI. -/
theorem Made.eq_terms {q : Quote} (h : q.Made mc) :
    q.id = QuoteId.ofSci mc q.sci ∧ ∃ terms, Terms.ofSci mc q.sci = .ok terms ∧
      q.pair = ⟨q.sci.pseudoOutputAmount.tokenId, terms.counterTokenId⟩ ∧
      q.baseRange = terms.baseRange ∧ q.maxCounterTokens = terms.maxCounterTokens := by
  obtain ⟨now, sci, timestamp, h⟩ := h
  unfold Quote.new at h
  obtain ⟨t, -, h⟩ := Outcome.bind_eq_ok.mp h
  obtain ⟨-, -, h⟩ := Outcome.bind_eq_ok.mp h
  obtain ⟨terms, hterms, h⟩ := Outcome.bind_eq_ok.mp h
  simp only [Outcome.ok.injEq] at h
  subst h
  exact ⟨rfl, terms, hterms, rfl, rfl, rfl⟩

theorem Made.new_eq {q : Quote} (h : q.Made mc) :
    mc.validate q.sci = .ok () ∧ ∀ now, Quote.new mc now q.sci (some q.timestamp) = .ok q := by
  obtain ⟨now, sci, timestamp, h⟩ := h
  unfold Quote.new at h
  obtain ⟨t, -, h⟩ := Outcome.bind_eq_ok.mp h
  obtain ⟨u, hv, h⟩ := Outcome.bind_eq_ok.mp h
  obtain ⟨terms, hterms, h⟩ := Outcome.bind_eq_ok.mp h
  simp only [Outcome.ok.injEq] at h
  subst h
  have hvalid : mc.validate sci = .ok () := by
    cases hm : mc.validate sci with
    | ok u => rfl
    | error e => simp [hm, Outcome.ofExcept, Outcome.mapErr] at hv
  refine ⟨hvalid, ?_⟩
  intro now
  simp only [Quote.new, arrivalTime, hvalid, hterms]
  rfl

theorem Made.eq_of_sci {q q' : Quote} (h : q.Made mc) (h' : q'.Made mc) (hs : q.sci = q'.sci)
    (ht : q.timestamp = q'.timestamp) : q = q' := by
  obtain ⟨hid, terms, hterms, hpair, hrange, hcounter⟩ := h.eq_terms
  obtain ⟨hid', terms', hterms', hpair', hrange', hcounter'⟩ := h'.eq_terms
  rw [← hs, hterms, Outcome.ok.injEq] at hterms'
  subst hterms'
  cases q
  cases q'
  simp_all

theorem Made.congr_sci {q q' : Quote} (h : q.Made mc) (h' : q'.Made mc) (hs : q.sci = q'.sci) :
    q.pair = q'.pair ∧ q.baseRange = q'.baseRange ∧
      q.maxCounterTokens = q'.maxCounterTokens := by
  obtain ⟨-, terms, hterms, hpair, hrange, hcounter⟩ := h.eq_terms
  obtain ⟨-, terms', hterms', hpair', hrange', hcounter'⟩ := h'.eq_terms
  rw [← hs, hterms, Outcome.ok.injEq] at hterms'
  subst hterms'
  exact ⟨by rw [hpair, hpair', hs], hrange.trans hrange'.symm, hcounter.trans hcounter'.symm⟩

end Quote

namespace Genuine

variable {mc} {S : Set Quote}

theorem sci_eq_of_id (h : Genuine mc S) {q q' : Quote} (hq : q ∈ S) (hq' : q' ∈ S)
    (hid : q.id = q'.id) : q.sci = q'.sci := by
  rw [(h.made hq).eq_terms.1, (h.made hq').eq_terms.1] at hid
  exact h.collisionFree hq hq' (congrArg QuoteId.data hid)

theorem eq_of_id (h : Genuine mc S) {q q' : Quote} (hq : q ∈ S) (hq' : q' ∈ S)
    (hid : q.id = q'.id) (ht : q.timestamp = q'.timestamp) : q = q' :=
  (h.made hq).eq_of_sci (h.made hq') (h.sci_eq_of_id hq hq' hid) ht

end Genuine

/-! ## A concrete instance

All-or-nothing offers of token 1 for token 2, told apart by one byte, and external
functions that suit them: every SCI is valid, its digest is its byte repeated, and a
tombstone is refused when reached or more than 20160 blocks ahead.  The closed examples
of the later modules run on these. -/

def sampleCore : McCore where
  validate _ := .ok ()
  digest sci := .fill (sci.rest.headD 0)
  revealAmount _ := .error "amount not revealed"
  validateTombstone c t :=
    if t.toNat ≤ c then .error "tombstone block exceeded"
    else if c + 20160 < t.toNat then .error "tombstone block too far"
    else .ok ()

def sampleSci (tag : UInt8) (base counter tombstone : UInt64) : SignedContingentInput where
  txIn := ⟨[], some ⟨[⟨.fill tag, []⟩], tombstone, [], none, 0⟩⟩
  keyImage := ⟨.fill tag⟩
  pseudoOutputAmount := ⟨base, 1⟩
  requiredOutputAmounts := [⟨counter, 2⟩]
  txOutGlobalIndices := []
  rest := [tag]

def sampleQuote (tag : UInt8) (base counter tombstone timestamp : UInt64) : Quote where
  sci := sampleSci tag base counter tombstone
  id := ⟨.fill tag⟩
  pair := ⟨1, 2⟩
  baseRange := ⟨base, base⟩
  maxCounterTokens := counter
  timestamp

theorem sampleQuote_made (tag : UInt8) (base counter tombstone timestamp : UInt64) :
    (sampleQuote tag base counter tombstone timestamp).Made sampleCore :=
  ⟨none, sampleSci tag base counter tombstone, some timestamp, rfl⟩

/-- Another offer of the same input: the key image of `tag` under the tag `rival`. -/
def sampleRivalSci (tag rival : UInt8) (base counter tombstone : UInt64) :
    SignedContingentInput :=
  { sampleSci tag base counter tombstone with rest := [rival] }

def sampleRival (tag rival : UInt8) (base counter tombstone timestamp : UInt64) : Quote :=
  { sampleQuote tag base counter tombstone timestamp with
    sci := sampleRivalSci tag rival base counter tombstone
    id := ⟨.fill rival⟩ }

theorem sampleRival_made (tag rival : UInt8) (base counter tombstone timestamp : UInt64) :
    (sampleRival tag rival base counter tombstone timestamp).Made sampleCore :=
  ⟨none, sampleRivalSci tag rival base counter tombstone, some timestamp, rfl⟩

end Deqs
