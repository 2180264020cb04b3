/-
# `models::Quote` — a quote as a row of the `quotes` table

SQLite has no unsigned integers.  Token ids, the timestamp and the tombstone block are
cast to `i64` and back, which loses nothing; the amounts go through `VecU64`, whose
column is a blob and whose value is the `u64` itself.  The SCI is stored as its
protobuf, and next to it, for the `WHERE` clauses, its key image and its tombstone block.
Those two columns are written and compared, never read back.

`Table` is the table as the migrations create it: a row per identifier, each of them
written by `From<&Quote>`.
-/
import Mathlib.Data.Countable.Basic
import Mathlib.Logic.Encodable.Basic
import Mathlib.Logic.Equiv.List
import Mathlib.Tactic.DeriveCountable
import Deqs.Quote.Basic

namespace Deqs

/-- `mc_util_serial::{encode, decode}` at SCIs. -/
structure Serial where
  encode : SignedContingentInput → List UInt8
  decode : List UInt8 → Except String SignedContingentInput

def Serial.Lossless (ser : Serial) : Prop := ∀ sci, ser.decode (ser.encode sci) = .ok sci

structure Row where
  id : List UInt8
  sciProtobuf : List UInt8
  baseTokenId : Int64
  counterTokenId : Int64
  baseRangeMin : UInt64
  baseRangeMax : UInt64
  maxCounterTokens : UInt64
  timestamp : Int64
  keyImage : List UInt8
  tombstoneBlock : Int64
deriving DecidableEq

namespace Row

variable (ser : Serial)

/-- `From<&Quote> for models::Quote`. -/
def ofQuote (quote : Quote) : Row where
  id := quote.id.data.bytes
  sciProtobuf := ser.encode quote.sci
  baseTokenId := quote.pair.baseTokenId.toInt64
  counterTokenId := quote.pair.counterTokenId.toInt64
  baseRangeMin := quote.baseRange.start
  baseRangeMax := quote.baseRange.stop
  maxCounterTokens := quote.maxCounterTokens
  timestamp := quote.timestamp.toInt64
  keyImage := quote.keyImage.bytes.bytes
  tombstoneBlock := quote.tombstoneBlock.toInt64

/-- `models::Quote::id`. -/
def quoteId (row : Row) : Except Error QuoteId :=
  if h : row.id.length = 32 then .ok ⟨⟨row.id, h⟩⟩
  else
    let len := row.id.length
    .error (.implementationSpecific s!"Expected 32 bytes quote id, found {len} bytes instead")

def decodeSci (row : Row) : Except Error SignedContingentInput :=
  (ser.decode row.sciProtobuf).mapError
    (fun e => .implementationSpecific s!"failed decoding SCI protobuf: {e}")

/-- `TryFrom<&models::Quote> for Quote`. -/
def toQuote (row : Row) : Except Error Quote := do
  let id ← row.quoteId
  let sci ← row.decodeSci ser
  .ok {
    sci
    id
    pair := ⟨row.baseTokenId.toUInt64, row.counterTokenId.toUInt64⟩
    baseRange := ⟨row.baseRangeMin, row.baseRangeMax⟩
    maxCounterTokens := row.maxCounterTokens
    timestamp := row.timestamp.toUInt64 }

variable {ser}

theorem toQuote_ofQuote (hser : ser.Lossless) (q : Quote) :
    (ofQuote ser q).toQuote ser = .ok q := by
  have hid : (ofQuote ser q).quoteId = .ok q.id := dif_pos q.id.data.length_eq
  have hsci : (ofQuote ser q).decodeSci ser = .ok q.sci := by
    simp only [decodeSci, ofQuote, hser q.sci]
    rfl
  simp only [toQuote, hid, hsci, bind, Except.bind]
  simp [ofQuote]

theorem ofQuote_injective (hser : ser.Lossless) : Function.Injective (ofQuote ser) := by
  intro q q' h
  have hd := congrArg (toQuote ser) h
  rw [toQuote_ofQuote hser, toQuote_ofQuote hser] at hd
  exact Except.ok.inj hd

theorem ofQuote_id_eq_iff {q : Quote} {i : QuoteId} :
    (ofQuote ser q).id = i.data.bytes ↔ q.id = i := by
  obtain ⟨_, ⟨⟨x, hx⟩⟩, _, _, _, _⟩ := q
  obtain ⟨⟨y, hy⟩⟩ := i
  simp [ofQuote]

theorem ofQuote_keyImage_eq_iff {q : Quote} {k : KeyImage} :
    (ofQuote ser q).keyImage = k.bytes.bytes ↔ q.keyImage = k := by
  obtain ⟨⟨_, ⟨⟨x, hx⟩⟩, _, _, _, _⟩, _, _, _, _, _⟩ := q
  obtain ⟨⟨y, hy⟩⟩ := k
  simp [ofQuote, Quote.keyImage]

end Row

/-! ## The table -/

/-- The `quotes` table: `id` is its primary key, and rows are written by
`From<&Quote>` only. -/
structure Table (ser : Serial) where
  rows : List Row
  primaryKey : (rows.map Row.id).Nodup
  written : ∀ r ∈ rows, ∃ q, Row.ofQuote ser q = r

namespace Table

variable {ser : Serial}

def empty : Table ser := ⟨[], List.nodup_nil, fun _ h => absurd h List.not_mem_nil⟩

/-- `INSERT`; `none` is a unique violation. -/
def insert (table : Table ser) (quote : Quote) : Option (Table ser) :=
  if h : (Row.ofQuote ser quote).id ∈ table.rows.map Row.id then none
  else some {
    rows := Row.ofQuote ser quote :: table.rows
    primaryKey := List.nodup_cons.mpr ⟨h, table.primaryKey⟩
    written := by
      intro r hr
      rcases List.mem_cons.mp hr with rfl | hr
      · exact ⟨quote, rfl⟩
      · exact table.written r hr }

/-- `DELETE … WHERE`: the number of rows deleted, and the others. -/
def delete (table : Table ser) (selected : Row → Bool) : Nat × Table ser :=
  ((table.rows.filter selected).length, {
    rows := table.rows.filter (fun r => !selected r)
    primaryKey := table.primaryKey.sublist (List.filter_sublist.map _)
    written := fun r hr => table.written r (List.mem_of_mem_filter hr) })

theorem rows_insert {table table' : Table ser} {quote : Quote}
    (h : table.insert quote = some table') :
    table'.rows = Row.ofQuote ser quote :: table.rows := by
  unfold insert at h
  split at h
  · cases h
  · rw [← Option.some.inj h]

theorem rows_delete_subset (table : Table ser) (selected : Row → Bool) :
    (table.delete selected).2.rows ⊆ table.rows :=
  List.filter_subset_self _

theorem exists_quotes_of_written {rows : List Row} (h : ∀ r ∈ rows, ∃ q, Row.ofQuote ser q = r) :
    ∃ qs : List Quote, rows = qs.map (Row.ofQuote ser) := by
  have hrange : rows ∈ Set.range (List.map (Row.ofQuote ser)) := by
    rw [Set.range_list_map]
    exact h
  obtain ⟨qs, hqs⟩ := hrange
  exact ⟨qs, hqs.symm⟩

theorem exists_quotes (table : Table ser) :
    ∃ qs : List Quote, table.rows = qs.map (Row.ofQuote ser) :=
  exists_quotes_of_written table.written

end Table

/-! ## A lossless encoding

There is one: SCIs are countable.  The closed examples use it. -/

instance countableUInt8 : Countable UInt8 :=
  Function.Injective.countable fun _ _ => UInt8.toNat_inj.mp

instance countableUInt64 : Countable UInt64 :=
  Function.Injective.countable fun _ _ => UInt64.toNat_inj.mp

deriving instance Countable for Bytes32, KeyImage, TxOut, Amount, RevealedTxOut, InputRules, TxIn,
  SignedContingentInput

/-- An SCI as a string of zero bytes, as many as its number. -/
noncomputable def sampleSerial : Serial :=
  letI := Encodable.ofCountable SignedContingentInput
  { encode := fun sci => List.replicate (Encodable.encode sci) 0
    decode := fun bytes =>
      match Encodable.decode bytes.length with
      | some sci => .ok sci
      | none => .error "invalid protobuf" }

theorem sampleSerial_lossless : sampleSerial.Lossless := by
  intro sci
  simp [sampleSerial]

end Deqs
