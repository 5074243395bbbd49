/-
Mononoke.Blobstore.SqlStore — `DataSqlStore` and `ChunkSqlStore`
(`blobstore/sqlblob/src/store.rs`) over sharded databases, each shard a master
and a replica that lags it.

A database is its two tables, `data` and `chunk`, each a map from its
primary key to its row; a query on the primary key finds at most one row, so
`rows.into_iter().next()` is the map's value. A `Connection` names the
database it reaches, and the store's three connection vectors are lists of
them: indexing past the end of a vector is a panic, which the model returns
as `none`. `InsertData` and `InsertChunk` are `insert_or_ignore`.

Both stores route a key to the shard `XxHash32(bytes) % shard_num + 1`
(1-indexed), where the bytes are the repository id, the key and, for a chunk,
the chunk id, as the hasher is fed them. The hash is the parameter `xxHash32`
of every definition here: every statement proved about the store holds for
every hash function.

SQL errors are not modelled: every query succeeds. A replication step copies
one row of a shard's master into the same shard's replica; a run is any
sequence of puts and replication steps (`StoreAction`), so a replica may lag
its master by any amount.
-/
import Mathlib.Logic.Function.Basic
import Mononoke.Blobstore.InChunk

namespace Mononoke.Blobstore

/-! ## Databases and connections -/

/-- The primary key of `data`: `(repo_id, id)`. -/
structure DataKey where
  repoId : Int
  id : String
  deriving DecidableEq

/-- The primary key of `chunk`: `(repo_id, id, chunk_id)`. -/
structure ChunkKey where
  repoId : Int
  id : String
  chunkId : Nat
  deriving DecidableEq

/-- One database: its `data` table (`type`, `value`) and its `chunk` table
(`value`), each keyed by its primary key. -/
structure Tables where
  data : DataKey → Option (DataType × List UInt8)
  chunk : ChunkKey → Option (List UInt8)

/-- The database a connection reaches: the master or the replica of a shard,
shards counted from `0`. -/
inductive Connection where
  | master (shard : Nat)
  | replica (shard : Nat)
  deriving DecidableEq, Repr

/-- Every database empty. -/
def emptyWorld : Connection → Tables :=
  fun _ => ⟨fun _ => none, fun _ => none⟩

/-- `insert_or_ignore`: insert the row unless a row with its primary key exists. -/
def insertOrIgnore {K V : Type} [DecidableEq K] (t : K → Option V) (k : K) (v : V) :
    K → Option V :=
  if (t k).isSome then t else Function.update t k (some v)

/-- The read path of every lookup: the replica's row, and the master's when
the replica has none. -/
def readWithFallback {K V : Type} (replica master : K → Option V) (k : K) : Option V :=
  (replica k).or (master k)

/-! ## The stores -/

/-- The fields `DataSqlStore` and `ChunkSqlStore` both hold. -/
structure SqlStoreConfig where
  repoId : Int
  shardNum : Nat
  shardNum_pos : 0 < shardNum
  writeConnection : List Connection
  readConnection : List Connection
  readMasterConnection : List Connection

/-- `DataSqlStore`. -/
structure DataSqlStore extends SqlStoreConfig

/-- `ChunkSqlStore`. -/
structure ChunkSqlStore extends SqlStoreConfig

/-- The four little-endian bytes `Hasher::write_i32` and `write_u32` feed the
hasher on a little-endian target. -/
def le32Bytes (n : Int) : List UInt8 :=
  let u := (n % 2 ^ 32).toNat
  [u % 256, u / 2 ^ 8 % 256, u / 2 ^ 16 % 256, u / 2 ^ 24].map Nat.toUInt8

section Shard

variable (xxHash32 : List UInt8 → Nat)

/-- The 1-indexed shard both `shard` functions compute from the hashed bytes. -/
def SqlStoreConfig.shardOf (s : SqlStoreConfig) (bytes : List UInt8) : Nat :=
  xxHash32 bytes % s.shardNum + 1

/-- `DataSqlStore::shard`. -/
def DataSqlStore.shard (s : DataSqlStore) (key : String) : Nat :=
  s.shardOf xxHash32 (le32Bytes s.repoId ++ key.toUTF8.toList)

/-- `ChunkSqlStore::shard`: the chunk id is hashed too. -/
def ChunkSqlStore.shard (s : ChunkSqlStore) (key : String) (chunkId : Nat) : Nat :=
  s.shardOf xxHash32 (le32Bytes s.repoId ++ key.toUTF8.toList ++ le32Bytes chunkId)

end Shard

section Ops

variable (xxHash32 : List UInt8 → Nat)

/-- `DataSqlStore::get`; `none` is a panic. -/
def DataSqlStore.get (s : DataSqlStore) (w : Connection → Tables) (key : String) :
    Option (Except String (Option DataEntry)) := do
  let shardId := s.shard xxHash32 key
  let readMaster ← s.readMasterConnection[shardId - 1]?
  let read ← s.readConnection[shardId - 1]?
  pure (decodeDataRow (readWithFallback (w read).data (w readMaster).data ⟨s.repoId, key⟩))

/-- `DataSqlStore::put`: the new state of the databases; `none` is a panic. -/
def DataSqlStore.put (s : DataSqlStore) (w : Connection → Tables) (key : String)
    (entry : DataEntry) : Option (Connection → Tables) := do
  let shardId := s.shard xxHash32 key
  let write ← s.writeConnection[shardId - 1]?
  pure (Function.update w write
    { w write with data := insertOrIgnore (w write).data ⟨s.repoId, key⟩ (dataRowOf entry) })

/-- `DataSqlStore::is_present`; `none` is a panic. -/
def DataSqlStore.isPresent (s : DataSqlStore) (w : Connection → Tables) (key : String) :
    Option Bool := do
  let shardId := s.shard xxHash32 key
  let readMaster ← s.readMasterConnection[shardId - 1]?
  let read ← s.readConnection[shardId - 1]?
  pure (readWithFallback (w read).data (w readMaster).data ⟨s.repoId, key⟩).isSome

/-- The result `ChunkSqlStore::get` makes of the row it found: a chunk missing
on the master too is an error. -/
def chunkOrMissing (row : Option (List UInt8)) (chunkId shardId : Nat) :
    Except String (List UInt8) :=
  match row with
  | some value => .ok value
  | none => .error ("Missing chunk with id " ++ toString chunkId ++ " shard " ++ toString shardId)

/-- `ChunkSqlStore::get`; `none` is a panic. -/
def ChunkSqlStore.get (s : ChunkSqlStore) (w : Connection → Tables) (key : String)
    (chunkId : Nat) : Option (Except String (List UInt8)) := do
  let shardId := s.shard xxHash32 key chunkId
  let readMaster ← s.readMasterConnection[shardId - 1]?
  let read ← s.readConnection[shardId - 1]?
  pure (chunkOrMissing
    (readWithFallback (w read).chunk (w readMaster).chunk ⟨s.repoId, key, chunkId⟩)
    chunkId shardId)

/-- `ChunkSqlStore::put`; `none` is a panic. -/
def ChunkSqlStore.put (s : ChunkSqlStore) (w : Connection → Tables) (key : String)
    (chunkId : Nat) (value : List UInt8) : Option (Connection → Tables) := do
  let shardId := s.shard xxHash32 key chunkId
  let write ← s.writeConnection[shardId - 1]?
  pure (Function.update w write
    { w write with chunk := insertOrIgnore (w write).chunk ⟨s.repoId, key, chunkId⟩ value })

end Ops

/-! ## Runs -/

/-- One step of a run: a put through either store, or replication copying a
row of shard `i`'s master, if it has one, into shard `i`'s replica. -/
inductive StoreAction where
  | dataPut (key : String) (entry : DataEntry)
  | chunkPut (key : String) (chunkId : Nat) (value : List UInt8)
  | replicateData (shard : Nat) (k : DataKey)
  | replicateChunk (shard : Nat) (k : ChunkKey)

/-- Replication of one `data` row of shard `i`. -/
def replicateData (w : Connection → Tables) (i : Nat) (k : DataKey) : Connection → Tables :=
  match (w (.master i)).data k with
  | some row =>
    Function.update w (.replica i)
      { w (.replica i) with data := Function.update (w (.replica i)).data k (some row) }
  | none => w

/-- Replication of one `chunk` row of shard `i`. -/
def replicateChunk (w : Connection → Tables) (i : Nat) (k : ChunkKey) : Connection → Tables :=
  match (w (.master i)).chunk k with
  | some value =>
    Function.update w (.replica i)
      { w (.replica i) with chunk := Function.update (w (.replica i)).chunk k (some value) }
  | none => w

section Run

variable (xxHash32 : List UInt8 → Nat) (ds : DataSqlStore) (cs : ChunkSqlStore)

/-- One step of a run; `none` is a panic. -/
def storeStep (w : Connection → Tables) : StoreAction → Option (Connection → Tables)
  | .dataPut key entry => ds.put xxHash32 w key entry
  | .chunkPut key chunkId value => cs.put xxHash32 w key chunkId value
  | .replicateData i k => some (replicateData w i k)
  | .replicateChunk i k => some (replicateChunk w i k)

/-- A run from `w`; `none` if some step panics. -/
def storeRun (w : Connection → Tables) (acts : List StoreAction) :
    Option (Connection → Tables) :=
  acts.foldlM (storeStep xxHash32 ds cs) w

end Run

/-- The entry of the first `DataSqlStore::put` of `key` in a run. -/
def firstDataPut (acts : List StoreAction) (key : String) : Option DataEntry :=
  acts.findSome? fun
    | .dataPut k e => if k = key then some e else none
    | _ => none

/-- The value of the first `ChunkSqlStore::put` of `(key, chunkId)` in a run. -/
def firstChunkPut (acts : List StoreAction) (key : String) (chunkId : Nat) :
    Option (List UInt8) :=
  acts.findSome? fun
    | .chunkPut k i v => if k = key ∧ i = chunkId then some v else none
    | _ => none

/-- The deployment: each connection vector has `shard_num` entries, and entry
`i` writes to and reads the master of shard `i`, or reads its replica. -/
def SqlStoreConfig.Wired (s : SqlStoreConfig) : Prop :=
  s.writeConnection = (List.range s.shardNum).map .master ∧
  s.readMasterConnection = (List.range s.shardNum).map .master ∧
  s.readConnection = (List.range s.shardNum).map .replica

/-- The deployment `Wired` describes, on `shardNum` shards. -/
def SqlStoreConfig.wired (repoId : Int) (shardNum : Nat) (h : 0 < shardNum) : SqlStoreConfig where
  repoId := repoId
  shardNum := shardNum
  shardNum_pos := h
  writeConnection := (List.range shardNum).map .master
  readConnection := (List.range shardNum).map .replica
  readMasterConnection := (List.range shardNum).map .master

theorem SqlStoreConfig.wired_wired (repoId : Int) (shardNum : Nat) (h : 0 < shardNum) :
    (SqlStoreConfig.wired repoId shardNum h).Wired :=
  ⟨rfl, rfl, rfl⟩

end Mononoke.Blobstore
