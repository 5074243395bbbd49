/-
Mononoke.Blobstore.InChunk — the row `DataSqlStore::put` writes into the
`data` table for a `DataEntry`, and the decoding `DataSqlStore::get` applies
to the row it reads back (`blobstore/sqlblob/src/store.rs`).

A `Data` entry is stored as its bytes. An `InChunk(n)` entry is stored as the
Thrift union `InChunk::num_of_chunks(n.get() as i32)` in the compact protocol.
The union has one variant, an `i32` in field 1, so its encoding is the field
header `0x15` (field delta 1, compact type `i32`), the zigzag varint of the
value, and the stop byte `0x00`; `compactDeserialize` accepts exactly these
encodings. fbthrift's decoder also accepts unknown fields, which it returns
as `InChunk::UnknownField` and which `get` turns into the same error as a
decoding failure.

`as i32` on a `usize` keeps the low 32 bits and reads them as two's
complement: `asI32`. `i32_to_non_zero_usize` and `DataEntry` live in the
crate root, which is not in the source tree; the first is modelled from the
specification.

## How the proofs go

`readVarint_writeVarint` and `unzigzag_zigzag` give the codec's round trip
`compactDeserialize_serialize`; everything about an `InChunk` header then
reduces to `asI32`, which is the identity below `2^31`
(`decodeDataRow_inChunk`).
-/
import Mathlib.Tactic.NormNum
import Mathlib.Tactic.Ring

namespace Mononoke.Blobstore

/-! ## Rust integers -/

/-- `NonZeroUsize` on a 64-bit target. -/
structure NonZeroUsize where
  get : Nat
  pos : 0 < get
  lt : get < 2 ^ 64
  deriving DecidableEq

/-- A Rust `i32`. -/
structure I32 where
  val : Int
  le : -2 ^ 31 ≤ val
  lt : val < 2 ^ 31
  deriving DecidableEq

/-- `n as i32` for an unsigned `n`: the low 32 bits, read as two's complement. -/
def asI32 (n : Nat) : I32 where
  val := if n % 2 ^ 32 < 2 ^ 31 then (n % 2 ^ 32 : Nat) else (n % 2 ^ 32 : Nat) - 2 ^ 32
  le := by split <;> omega
  lt := by split <;> omega

/-- Modelled from the spec: `i32_to_non_zero_usize` (the crate root): a chunk
count that is not positive is out of range and decodes to nothing. -/
def i32ToNonZeroUsize (v : I32) : Option NonZeroUsize :=
  if h : 0 < v.val then some ⟨v.val.toNat, by omega, by have := v.lt; omega⟩ else none

/-! ## The `InChunk` union in the compact protocol -/

/-- `sqlblob_thrift::InChunk`. -/
inductive InChunk where
  | numOfChunks (n : I32)
  | unknownField (id : Int)
  deriving DecidableEq

/-- The compact protocol's zigzag map of an `i32` onto a `u32`:
`0, -1, 1, -2, …` to `0, 1, 2, 3, …`. -/
def zigzag (v : I32) : Nat :=
  if 0 ≤ v.val then 2 * v.val.toNat else 2 * (-v.val).toNat - 1

/-- The inverse of `zigzag`, on values that fit a `u32`. -/
def unzigzag (z : Nat) : Option I32 :=
  if h : z < 2 ^ 32 then
    some ⟨if z % 2 = 0 then (z / 2 : Nat) else -(((z + 1) / 2 : Nat) : Int),
      by split <;> omega, by split <;> omega⟩
  else none

/-- The compact protocol's varint: seven bits a byte, low bits first, the
high bit set on every byte but the last; at most `fuel` bytes. -/
def writeVarint : Nat → Nat → List UInt8
  | 0, _ => []
  | fuel + 1, n =>
    if n < 128 then [n.toUInt8] else (n % 128 + 128).toUInt8 :: writeVarint fuel (n / 128)

/-- Reads a varint of at most `fuel` bytes, and returns the rest. -/
def readVarint : Nat → List UInt8 → Option (Nat × List UInt8)
  | 0, _ => none
  | _, [] => none
  | fuel + 1, b :: rest =>
    if b.toNat < 128 then some (b.toNat, rest)
    else (readVarint fuel rest).map fun r => (b.toNat - 128 + 128 * r.1, r.2)

/-- `compact_protocol::serialize(&InChunk::num_of_chunks(v))`. -/
def compactSerialize (v : I32) : List UInt8 :=
  0x15 :: writeVarint 5 (zigzag v) ++ [0x00]

/-- `compact_protocol::deserialize` for `InChunk`. -/
def compactDeserialize : List UInt8 → Except String InChunk
  | b :: rest =>
    if b = 0x15 then
      match readVarint 5 rest with
      | some (z, [0x00]) =>
        match unzigzag z with
        | some v => .ok (.numOfChunks v)
        | none => .error "compact protocol: i32 out of range"
      | _ => .error "compact protocol: malformed InChunk"
    else .error "compact protocol: unknown InChunk field"
  | [] => .error "compact protocol: unexpected end of input"

/-! ## Rows of the `data` table -/

/-- `DataType`, the `type` column of `data` (1 = `Data`, 2 = `InChunk`). -/
inductive DataType where
  | Data
  | InChunk
  deriving DecidableEq, Repr

/-- `DataEntry` (the crate root): a value stored inline, or the number of
chunks it was split into. -/
inductive DataEntry where
  | Data (value : List UInt8)
  | InChunk (numOfChunks : NonZeroUsize)
  deriving DecidableEq

/-- The `(dtype, value)` that `DataSqlStore::put` inserts for an entry. -/
def dataRowOf : DataEntry → DataType × List UInt8
  | .Data value => (.Data, value)
  | .InChunk n => (.InChunk, compactSerialize (asI32 n.get))

/-- The decoding in `DataSqlStore::get` of the row the query found, if any. -/
def decodeDataRow : Option (DataType × List UInt8) → Except String (Option DataEntry)
  | none => .ok none
  | some (.Data, value) => .ok (some (.Data value))
  | some (.InChunk, value) =>
    match compactDeserialize value with
    | .ok (.numOfChunks n) =>
      match i32ToNonZeroUsize n with
      | none => .error "Encoded number of chunks was invalid"
      | some n => .ok (some (.InChunk n))
    | _ => .error "Failed to deserialize InChunk data"

/-! ## The codec round trip -/

theorem zigzag_lt (v : I32) : zigzag v < 2 ^ 32 := by
  have := v.le
  have := v.lt
  unfold zigzag
  split <;> omega

theorem unzigzag_zigzag (v : I32) : unzigzag (zigzag v) = some v := by
  have := v.le
  have := v.lt
  rw [unzigzag, dif_pos (zigzag_lt v)]
  congr 1
  obtain ⟨val, _, _⟩ := v
  congr 1
  unfold zigzag
  dsimp only
  split <;> split <;> omega

theorem readVarint_writeVarint (rest : List UInt8) : ∀ (fuel n : Nat), n < 128 ^ (fuel + 1) →
    readVarint (fuel + 1) (writeVarint (fuel + 1) n ++ rest) = some (n, rest)
  | fuel, n, h => by
    by_cases hn : n < 128
    · have hb : n.toUInt8.toNat = n := UInt8.toNat_ofNat_of_lt (by simp only [UInt8.size]; omega)
      simp [writeVarint, readVarint, hn, hb]
    · cases fuel with
      | zero => omega
      | succ fuel =>
        have hb : (n % 128 + 128).toUInt8.toNat = n % 128 + 128 :=
          UInt8.toNat_ofNat_of_lt (by simp only [UInt8.size]; omega)
        have hlt : n / 128 < 128 ^ (fuel + 1) := by
          rw [pow_succ 128 (fuel + 1)] at h
          omega
        rw [writeVarint, if_neg hn, List.cons_append, readVarint, hb, if_neg (by omega),
          readVarint_writeVarint rest fuel (n / 128) hlt, Option.map_some']
        congr 2
        omega

/-- The compact codec round-trips every `i32`. -/
theorem compactDeserialize_serialize (v : I32) :
    compactDeserialize (compactSerialize v) = .ok (.numOfChunks v) := by
  have h := readVarint_writeVarint [0x00] 4 (zigzag v) (by have := zigzag_lt v; omega)
  simp [compactSerialize, compactDeserialize, h, unzigzag_zigzag]

/-! ## The `InChunk` header round trip -/

/-- What `DataSqlStore::get` decodes from the header row `put` wrote: the
count after `as i32` and `i32_to_non_zero_usize`. -/
theorem decodeDataRow_inChunk (n : NonZeroUsize) :
    decodeDataRow (some (dataRowOf (.InChunk n))) =
      match i32ToNonZeroUsize (asI32 n.get) with
      | none => .error "Encoded number of chunks was invalid"
      | some m => .ok (some (.InChunk m)) := by
  simp only [dataRowOf, decodeDataRow, compactDeserialize_serialize]

theorem asI32_val_of_lt {n : Nat} (h : n < 2 ^ 31) : (asI32 n).val = n := by
  simp only [asI32, Nat.mod_eq_of_lt (show n < 2 ^ 32 by omega), if_pos h]

/-- `i32_to_non_zero_usize (n as i32)` gives `n` back exactly below `2^31`. -/
theorem i32ToNonZeroUsize_asI32_eq_some_iff (n : NonZeroUsize) :
    i32ToNonZeroUsize (asI32 n.get) = some n ↔ n.get < 2 ^ 31 := by
  constructor
  · intro h
    unfold i32ToNonZeroUsize at h
    split at h
    · have hget := congrArg NonZeroUsize.get (Option.some.inj h)
      have := (asI32 n.get).lt
      simp only at hget
      omega
    · cases h
  · intro h
    have hv := asI32_val_of_lt h
    have := n.pos
    rw [i32ToNonZeroUsize, dif_pos (by omega)]
    congr
    simp only [hv, Int.toNat_ofNat]

/-- An `InChunk` header is read back as the count it was written with exactly
when the count is below `2^31`. -/
theorem decodeDataRow_inChunk_eq_iff (n : NonZeroUsize) :
    decodeDataRow (some (dataRowOf (.InChunk n))) = .ok (some (.InChunk n)) ↔ n.get < 2 ^ 31 := by
  rw [decodeDataRow_inChunk, ← i32ToNonZeroUsize_asI32_eq_some_iff]
  cases i32ToNonZeroUsize (asI32 n.get) with
  | none => simp
  | some m => simp [eq_comm]

end Mononoke.Blobstore
