/-
# `deqs-api` — the protobuf messages of `SubmitQuotes`, and quotes to and from them

A quote on the wire has the fields of a quote, with two differences: the SCI is the
message of the MobileCoin crates, and the identifier is a byte string of any length.  So
a message can fail to be a quote in two ways, and `Quote.ofApi_eq_ok` says that there is no
third.  Field by field the conversions undo each other; for a whole quote that needs the
same of the SCI (`SciCodec.Lossless`), whose two conversions are not part of this
repository and are a parameter here.

Nothing in the conversion looks whether the identifier is the digest of the SCI, or
whether the pair and the range are those the SCI offers: a quote read from a message has
whatever the sender wrote.
-/
import Deqs.Quote.Basic

namespace Deqs

/-- `external.SignedContingentInput`, as it is sent. -/
structure ApiSci where
  bytes : List UInt8
deriving DecidableEq

/-- `deqs.Quote`.  A message that was not filled in has the default of every field. -/
structure ApiQuote where
  sci : ApiSci
  id : List UInt8
  pair : Pair
  baseRangeMin : UInt64
  baseRangeMax : UInt64
  maxCounterTokens : UInt64
  timestamp : UInt64
deriving DecidableEq

def ApiQuote.default : ApiQuote := ⟨⟨[]⟩, [], ⟨0, 0⟩, 0, 0, 0, 0⟩

/-- `mc_api::ConversionError`; of its cases only the one this repository raises itself is
told apart. -/
inductive ConversionError where
  | arrayCastError
  | other (msg : String)
deriving DecidableEq

/-- The status of one submitted quote. -/
inductive QuoteStatusCode where
  | created
  | invalidSci
  | unsupportedSci
  | quoteAlreadyExists
  | quoteIsStale
  | other
deriving DecidableEq

structure SubmitQuotesRequest where
  quotes : List ApiSci
deriving DecidableEq

structure SubmitQuotesResponse where
  statusCodes : List QuoteStatusCode
  errorMessages : List String
  quotes : List ApiQuote
deriving DecidableEq

/-- The conversions of an SCI to and from its message, by `mc_api`. -/
structure SciCodec where
  toApi : SignedContingentInput → ApiSci
  ofApi : ApiSci → Except ConversionError SignedContingentInput

/-- Nothing of an SCI is lost on the wire. -/
def SciCodec.Lossless (codec : SciCodec) : Prop := ∀ sci, codec.ofApi (codec.toApi sci) = .ok sci

/-- `TryFrom<&api::QuoteId> for QuoteId`. -/
def QuoteId.ofApi (data : List UInt8) : Except ConversionError QuoteId :=
  if h : data.length = 32 then .ok ⟨⟨data, h⟩⟩ else .error .arrayCastError

/-- `From<&QuoteId> for api::QuoteId`. -/
def QuoteId.toApi (id : QuoteId) : List UInt8 := id.data.bytes

theorem QuoteId.ofApi_eq_ok {data : List UInt8} :
    (∃ id, QuoteId.ofApi data = .ok id) ↔ data.length = 32 := by
  unfold QuoteId.ofApi
  split
  · next h => simp [h]
  · next h => simp [h]

@[simp] theorem QuoteId.ofApi_toApi (id : QuoteId) : QuoteId.ofApi id.toApi = .ok id := by
  simp [QuoteId.ofApi, QuoteId.toApi, id.data.length_eq]

namespace Quote

variable (codec : SciCodec)

/-- `From<&Quote> for api::Quote`. -/
def toApi (src : Quote) : ApiQuote where
  sci := codec.toApi src.sci
  id := src.id.toApi
  pair := src.pair
  baseRangeMin := src.baseRange.start
  baseRangeMax := src.baseRange.stop
  maxCounterTokens := src.maxCounterTokens
  timestamp := src.timestamp

/-- `TryFrom<&api::Quote> for Quote`. -/
def ofApi (source : ApiQuote) : Except ConversionError Quote := do
  let sci ← codec.ofApi source.sci
  let id ← QuoteId.ofApi source.id
  .ok {
    sci
    id
    pair := source.pair
    baseRange := ⟨source.baseRangeMin, source.baseRangeMax⟩
    maxCounterTokens := source.maxCounterTokens
    timestamp := source.timestamp }

variable {codec}

theorem ofApi_eq_ok {source : ApiQuote} :
    (∃ q, ofApi codec source = .ok q) ↔
      (∃ sci, codec.ofApi source.sci = .ok sci) ∧ source.id.length = 32 := by
  rw [← QuoteId.ofApi_eq_ok]
  unfold ofApi
  cases hs : codec.ofApi source.sci with
  | error e => simp [bind, Except.bind]
  | ok sci =>
      cases hi : QuoteId.ofApi source.id with
      | error e => simp [bind, Except.bind]
      | ok id => simp [bind, Except.bind]

/-- **Round trip.**  Over a lossless SCI codec a quote survives the wire whole. -/
theorem ofApi_toApi (hc : codec.Lossless) (q : Quote) : ofApi codec (q.toApi codec) = .ok q := by
  simp [ofApi, toApi, hc q.sci, bind, Except.bind]

end Quote

/-! ## A concrete instance

The message of a sample offer is its tag, and reading it gives the offer of 10 for 20
with tombstone 100 back. -/

def sampleCodec : SciCodec where
  toApi sci := ⟨sci.rest⟩
  ofApi
    | ⟨[tag]⟩ => .ok (sampleSci tag 10 20 100)
    | _ => .error (.other "not an SCI")

end Deqs
