/-
# `VecU64` — the amounts of a row, as blobs

`Row` holds an amount as the `u64` it is.  What SQLite holds is a blob: `to_sql` writes
the eight bytes of the number, most significant first, and `from_sql` reads a blob of
that length back and refuses any other.  `Columns` is a row as the database has it, and a
`Row` survives the way there and back, so that nothing said about tables of `Row`s
depends on the encoding.

SQLite compares blobs with `memcmp`, and blobs of different lengths by their length where
one starts the other.  On what `to_sql` writes this is the order of the numbers, which
the `i64` columns do not have: a token id of `2 ^ 63` and above is a negative number there.

    fromSql_eq_ok_iff          `from_sql` accepts what `to_sql` writes, and that only
    fromSql_toSql              a row survives its columns
    row_codec                  a quote survives its row, and blobs compare as numbers
-/
import Deqs.Lib.BigEndian
import Deqs.Book.Row

namespace Deqs

namespace VecU64

/-- `ToSql for VecU64`. -/
def toSql (value : UInt64) : List UInt8 := BigEndian.encode 8 value.toNat

/-- `FromSql for VecU64`. -/
def fromSql (blob : List UInt8) : Except String UInt64 :=
  if blob.length ≠ 8 then .error "VecU64: Invalid array length"
  else .ok (UInt64.ofNat (BigEndian.decode blob))

@[simp] theorem length_toSql (value : UInt64) : (toSql value).length = 8 :=
  BigEndian.length_encode 8 _

theorem decode_toSql (value : UInt64) : BigEndian.decode (toSql value) = value.toNat := by
  rw [toSql, BigEndian.decode_encode]
  exact Nat.mod_eq_of_lt value.toNat_lt

theorem fromSql_eq_ok_iff {blob : List UInt8} {value : UInt64} :
    fromSql blob = .ok value ↔ blob = toSql value := by
  constructor
  · intro h
    by_cases hlen : blob.length = 8
    · simp only [fromSql, hlen, ne_eq, not_true_eq_false, if_false, Except.ok.injEq] at h
      have hlt : BigEndian.decode blob < 2 ^ 64 := by
        have hdecode := BigEndian.decode_lt blob
        rw [hlen] at hdecode
        exact hdecode
      rw [toSql, ← h, UInt64.toNat_ofNat_of_lt' hlt, ← hlen, BigEndian.encode_decode]
    · simp [fromSql, hlen] at h
  · rintro rfl
    simp [fromSql, decode_toSql]

theorem fromSql_eq_error {blob : List UInt8} (h : blob.length ≠ 8) :
    fromSql blob = .error "VecU64: Invalid array length" :=
  if_pos h

/-- The order SQLite has on blobs. -/
def memcmp (x y : List UInt8) : Ordering := compare x y

theorem memcmp_toSql (x y : UInt64) : memcmp (toSql x) (toSql y) = compare x.toNat y.toNat :=
  BigEndian.compare_encode x.toNat_lt y.toNat_lt

end VecU64

/-- A row of the `quotes` table, as SQLite holds it. -/
structure Columns where
  id : List UInt8
  sciProtobuf : List UInt8
  baseTokenId : Int64
  counterTokenId : Int64
  baseRangeMin : List UInt8
  baseRangeMax : List UInt8
  maxCounterTokens : List UInt8
  timestamp : Int64
  keyImage : List UInt8
  tombstoneBlock : Int64
deriving DecidableEq

/-- `Insertable for models::Quote`. -/
def Row.toSql (row : Row) : Columns where
  id := row.id
  sciProtobuf := row.sciProtobuf
  baseTokenId := row.baseTokenId
  counterTokenId := row.counterTokenId
  baseRangeMin := VecU64.toSql row.baseRangeMin
  baseRangeMax := VecU64.toSql row.baseRangeMax
  maxCounterTokens := VecU64.toSql row.maxCounterTokens
  timestamp := row.timestamp
  keyImage := row.keyImage
  tombstoneBlock := row.tombstoneBlock

namespace Columns

/-- `Queryable for models::Quote`. -/
def fromSql (columns : Columns) : Except String Row := do
  let baseRangeMin ← VecU64.fromSql columns.baseRangeMin
  let baseRangeMax ← VecU64.fromSql columns.baseRangeMax
  let maxCounterTokens ← VecU64.fromSql columns.maxCounterTokens
  .ok {
    id := columns.id
    sciProtobuf := columns.sciProtobuf
    baseTokenId := columns.baseTokenId
    counterTokenId := columns.counterTokenId
    baseRangeMin
    baseRangeMax
    maxCounterTokens
    timestamp := columns.timestamp
    keyImage := columns.keyImage
    tombstoneBlock := columns.tombstoneBlock }

theorem fromSql_toSql (row : Row) : row.toSql.fromSql = .ok row := by
  have hread (value : UInt64) : VecU64.fromSql (VecU64.toSql value) = .ok value :=
    VecU64.fromSql_eq_ok_iff.mpr rfl
  simp only [fromSql, Row.toSql, hread]
  rfl

theorem fromSql_eq_error {columns : Columns} (h : columns.baseRangeMin.length ≠ 8 ∨
    columns.baseRangeMax.length ≠ 8 ∨ columns.maxCounterTokens.length ≠ 8) :
    columns.fromSql = .error "VecU64: Invalid array length" := by
  -- the columns are read in order, and the first that fails is reported
  by_cases hlow : columns.baseRangeMin.length = 8
  · by_cases hhigh : columns.baseRangeMax.length = 8
    · have hcounter : columns.maxCounterTokens.length ≠ 8 :=
        (h.resolve_left (absurd hlow)).resolve_left (absurd hhigh)
      simp [fromSql, VecU64.fromSql, hlow, hhigh, hcounter, bind, Except.bind]
    · simp [fromSql, VecU64.fromSql, hlow, hhigh, bind, Except.bind]
  · simp [fromSql, VecU64.fromSql, hlow, bind, Except.bind]

end Columns

theorem Row.toQuote_eq_error {ser : Serial} {row : Row} (h : row.id.length ≠ 32) :
    row.toQuote ser = .error (.implementationSpecific
      s!"Expected 32 bytes quote id, found {row.id.length} bytes instead") := by
  simp [toQuote, quoteId, h, bind, Except.bind]

/-- **The row codec is lossless and keeps the order.**  Every quote comes back from the
columns it is written to.  A blob that is not eight bytes long is refused, and so is an
identifier that is not thirty-two bytes long.  The blobs of two amounts compare as the
amounts do. -/
theorem row_codec {ser : Serial} (hser : ser.Lossless) :
    (∀ quote : Quote, ∃ row, (Row.ofQuote ser quote).toSql.fromSql = .ok row ∧
      row.toQuote ser = .ok quote) ∧
    (∀ blob : List UInt8, blob.length ≠ 8 →
      VecU64.fromSql blob = .error "VecU64: Invalid array length") ∧
    (∀ columns : Columns, columns.baseRangeMin.length ≠ 8 ∨ columns.baseRangeMax.length ≠ 8 ∨
      columns.maxCounterTokens.length ≠ 8 →
      columns.fromSql = .error "VecU64: Invalid array length") ∧
    (∀ row : Row, row.id.length ≠ 32 → row.toQuote ser = .error (.implementationSpecific
      s!"Expected 32 bytes quote id, found {row.id.length} bytes instead")) ∧
    ∀ x y : UInt64, VecU64.memcmp (VecU64.toSql x) (VecU64.toSql y) = compare x.toNat y.toNat := by
  refine ⟨?_, ?_, ?_, ?_, ?_⟩
  · intro quote
    exact ⟨Row.ofQuote ser quote, Columns.fromSql_toSql _, Row.toQuote_ofQuote hser quote⟩
  · intro blob hlen
    exact VecU64.fromSql_eq_error hlen
  · intro columns hlen
    exact Columns.fromSql_eq_error hlen
  · intro row hlen
    exact Row.toQuote_eq_error hlen
  · intro x y
    exact VecU64.memcmp_toSql x y

/-- A quote whose amounts are `2 ^ 63` and above. -/
def largeQuote : Quote :=
  sampleQuote 1 9223372036854775808 18446744073709551615 0 9223372036854775808

/-- It comes back, and its amounts compare above `1`. -/
theorem row_codec_large :
    (∃ row, (Row.ofQuote sampleSerial largeQuote).toSql.fromSql = .ok row ∧
      row.toQuote sampleSerial = .ok largeQuote) ∧
    VecU64.memcmp (VecU64.toSql largeQuote.maxCounterTokens) (VecU64.toSql 1) = .gt :=
  ⟨(row_codec sampleSerial_lossless).1 largeQuote,
    ((row_codec sampleSerial_lossless).2.2.2.2 largeQuote.maxCounterTokens 1).trans (by decide)⟩

end Deqs
