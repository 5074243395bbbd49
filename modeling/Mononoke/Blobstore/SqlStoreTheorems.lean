/-
Mononoke.Blobstore.SqlStoreTheorems — what the sharded store returns after
any run of puts and replication steps.

* `sqlStore_run`: on a wired deployment no operation indexes a connection
  vector out of range, no run panics, every replica row is its master's row,
  and so, whatever the replication lag, `DataSqlStore::get` returns the
  decoding of the first row put under the key (`Ok(None)` when there was
  none), `is_present` says whether the key was put, and `ChunkSqlStore::get`
  returns the first value put under `(key, chunk_id)` or the missing-chunk
  error.
* `inChunk_count_wraps`: `put(key, InChunk(2^32 + 1))` is read back as
  `InChunk(1)`, because `put` narrows the count with `as i32`.
* `dataSqlStore_get_inChunk`: below `2^31` the count is read back unchanged.

## How the proofs go

`StoreInv` is the run invariant: replicas are sub-maps of their masters,
and the master of a key's shard holds the row of the key's first put. One
lemma per operation computes it on a wired deployment (`put_eq`, `get_eq`,
…); `storeStep_inv` checks the invariant across each of the four steps with
the frame lemmas of §2, and `storeRun_inv` carries it over a run. The read
path then never sees the lag (`readWithFallback_of_sub`).
-/
import Mononoke.Blobstore.SqlStore

namespace Mononoke.Blobstore

/-! ## 1. Tables, shards and connections -/

section Tables

variable {K V : Type} [DecidableEq K]

theorem insertOrIgnore_apply (t : K → Option V) (k : K) (v : V) (k' : K) :
    insertOrIgnore t k v k' = if k' = k then (t k).or (some v) else t k' := by
  unfold insertOrIgnore
  by_cases hk : k' = k
  · subst hk
    cases ht : t k' <;> simp [ht]
  · split <;> simp [hk, Function.update_noteq hk]

theorem insertOrIgnore_of_some {t : K → Option V} {k k' : K} {r : V} (v : V)
    (h : t k' = some r) : insertOrIgnore t k v k' = some r := by
  rw [insertOrIgnore_apply]
  split_ifs with h'
  · subst h'
    simp [h]
  · exact h

omit [DecidableEq K] in
/-- Reading through a replica that is a sub-map of its master reads the master. -/
theorem readWithFallback_of_sub {r m : K → Option V} (k : K)
    (h : ∀ v, r k = some v → m k = some v) : readWithFallback r m k = m k := by
  unfold readWithFallback
  cases hr : r k with
  | none => rfl
  | some v => exact (h v hr).symm

end Tables

theorem shardOf_sub_one_lt (h : List UInt8 → Nat) (s : SqlStoreConfig) (bytes : List UInt8) :
    s.shardOf h bytes - 1 < s.shardNum := by
  have := Nat.mod_lt (h bytes) s.shardNum_pos
  simp only [SqlStoreConfig.shardOf]
  omega

theorem DataSqlStore.shard_sub_one_lt (h : List UInt8 → Nat) (ds : DataSqlStore) (key : String) :
    ds.shard h key - 1 < ds.shardNum :=
  shardOf_sub_one_lt h _ _

theorem ChunkSqlStore.shard_sub_one_lt (h : List UInt8 → Nat) (cs : ChunkSqlStore) (key : String)
    (i : Nat) : cs.shard h key i - 1 < cs.shardNum :=
  shardOf_sub_one_lt h _ _

section Wired

variable {s : SqlStoreConfig} {i : Nat}

theorem SqlStoreConfig.Wired.write_eq (hw : s.Wired) (hi : i < s.shardNum) :
    s.writeConnection[i]? = some (.master i) := by
  simp [hw.1, List.getElem?_range hi]

theorem SqlStoreConfig.Wired.readMaster_eq (hw : s.Wired) (hi : i < s.shardNum) :
    s.readMasterConnection[i]? = some (.master i) := by
  simp [hw.2.1, List.getElem?_range hi]

theorem SqlStoreConfig.Wired.read_eq (hw : s.Wired) (hi : i < s.shardNum) :
    s.readConnection[i]? = some (.replica i) := by
  simp [hw.2.2, List.getElem?_range hi]

end Wired

/-! ## 2. The operations on a wired deployment -/

section Ops

variable (h : List UInt8 → Nat) {ds : DataSqlStore} {cs : ChunkSqlStore}
  (w : Connection → Tables)

theorem DataSqlStore.put_eq (hw : ds.Wired) (key : String) (e : DataEntry) :
    ds.put h w key e = some (Function.update w (.master (ds.shard h key - 1))
      { w (.master (ds.shard h key - 1)) with
        data := insertOrIgnore (w (.master (ds.shard h key - 1))).data ⟨ds.repoId, key⟩
          (dataRowOf e) }) := by
  simp [DataSqlStore.put, hw.write_eq (ds.shard_sub_one_lt h key)]

theorem ChunkSqlStore.put_eq (hw : cs.Wired) (key : String) (i : Nat) (v : List UInt8) :
    cs.put h w key i v = some (Function.update w (.master (cs.shard h key i - 1))
      { w (.master (cs.shard h key i - 1)) with
        chunk := insertOrIgnore (w (.master (cs.shard h key i - 1))).chunk
          ⟨cs.repoId, key, i⟩ v }) := by
  simp [ChunkSqlStore.put, hw.write_eq (cs.shard_sub_one_lt h key i)]

theorem DataSqlStore.get_eq (hw : ds.Wired) (key : String) :
    ds.get h w key = some (decodeDataRow (readWithFallback
      (w (.replica (ds.shard h key - 1))).data (w (.master (ds.shard h key - 1))).data
      ⟨ds.repoId, key⟩)) := by
  simp [DataSqlStore.get, hw.readMaster_eq (ds.shard_sub_one_lt h key),
    hw.read_eq (ds.shard_sub_one_lt h key)]

theorem DataSqlStore.isPresent_eq (hw : ds.Wired) (key : String) :
    ds.isPresent h w key = some (readWithFallback
      (w (.replica (ds.shard h key - 1))).data (w (.master (ds.shard h key - 1))).data
      ⟨ds.repoId, key⟩).isSome := by
  simp [DataSqlStore.isPresent, hw.readMaster_eq (ds.shard_sub_one_lt h key),
    hw.read_eq (ds.shard_sub_one_lt h key)]

theorem ChunkSqlStore.get_eq (hw : cs.Wired) (key : String) (i : Nat) :
    cs.get h w key i = some (chunkOrMissing (readWithFallback
      (w (.replica (cs.shard h key i - 1))).chunk (w (.master (cs.shard h key i - 1))).chunk
      ⟨cs.repoId, key, i⟩) i (cs.shard h key i)) := by
  simp [ChunkSqlStore.get, hw.readMaster_eq (cs.shard_sub_one_lt h key i),
    hw.read_eq (cs.shard_sub_one_lt h key i)]

end Ops

/-! ## 3. The run invariant -/

/-- The state after the run `acts`: every replica row is its master's row,
and the master of a key's shard holds the row of the key's first put. -/
structure StoreInv (h : List UInt8 → Nat) (ds : DataSqlStore) (cs : ChunkSqlStore)
    (acts : List StoreAction) (w : Connection → Tables) : Prop where
  replica_data : ∀ i k r, (w (.replica i)).data k = some r → (w (.master i)).data k = some r
  replica_chunk : ∀ i k v, (w (.replica i)).chunk k = some v → (w (.master i)).chunk k = some v
  master_data : ∀ key, (w (.master (ds.shard h key - 1))).data ⟨ds.repoId, key⟩ =
    (firstDataPut acts key).map dataRowOf
  master_chunk : ∀ key i, (w (.master (cs.shard h key i - 1))).chunk ⟨cs.repoId, key, i⟩ =
    firstChunkPut acts key i

section Inv

variable {h : List UInt8 → Nat} {ds : DataSqlStore} {cs : ChunkSqlStore}
  {acts : List StoreAction} {w : Connection → Tables}

theorem storeInv_empty : StoreInv h ds cs [] emptyWorld where
  replica_data _ _ _ hr := by cases hr
  replica_chunk _ _ _ hr := by cases hr
  master_data _ := rfl
  master_chunk _ _ := rfl

theorem firstDataPut_snoc (acts : List StoreAction) (a : StoreAction) (key : String) :
    firstDataPut (acts ++ [a]) key = (firstDataPut acts key).or (firstDataPut [a] key) := by
  simp [firstDataPut, List.findSome?_append]

theorem firstChunkPut_snoc (acts : List StoreAction) (a : StoreAction) (key : String) (i : Nat) :
    firstChunkPut (acts ++ [a]) key i = (firstChunkPut acts key i).or (firstChunkPut [a] key i) := by
  simp [firstChunkPut, List.findSome?_append]

/-- Writing master `j` with a table that keeps every row master `j` had keeps
each replica below its master, in the table `get` reads. -/
theorem replicaSub_update_master {K R : Type} (get : Tables → K → Option R) {j : Nat} {t : Tables}
    (hrep : ∀ i k r, get (w (.replica i)) k = some r → get (w (.master i)) k = some r)
    (ht : ∀ k r, get (w (.master j)) k = some r → get t k = some r) :
    ∀ i k r, get (Function.update w (.master j) t (.replica i)) k = some r →
      get (Function.update w (.master j) t (.master i)) k = some r := by
  intro i k r hr
  rw [Function.update_noteq (by simp)] at hr
  by_cases hj : Connection.master i = .master j
  · rw [hj, Function.update_same]
    exact ht k r (hj ▸ hrep i k r hr)
  · rw [Function.update_noteq hj]
    exact hrep i k r hr

/-- Writing replica `i` with a table below master `i` keeps each replica
below its master, in the table `get` reads. -/
theorem replicaSub_update_replica {K R : Type} (get : Tables → K → Option R) {i : Nat} {t : Tables}
    (hrep : ∀ i k r, get (w (.replica i)) k = some r → get (w (.master i)) k = some r)
    (ht : ∀ k r, get t k = some r → get (w (.master i)) k = some r) :
    ∀ i' k r, get (Function.update w (.replica i) t (.replica i')) k = some r →
      get (Function.update w (.replica i) t (.master i')) k = some r := by
  intro i' k r hr
  rw [Function.update_noteq (by simp)]
  by_cases hi' : i' = i
  · subst hi'
    exact ht k r (by rwa [Function.update_same] at hr)
  · exact hrep i' k r (by rwa [Function.update_noteq (by simpa using hi')] at hr)

theorem storeInv_dataPut (hds : ds.Wired) (hi : StoreInv h ds cs acts w) (key : String)
    (e : DataEntry) : ∃ w', ds.put h w key e = some w' ∧
      StoreInv h ds cs (acts ++ [.dataPut key e]) w' := by
  refine ⟨_, DataSqlStore.put_eq h w hds key e,
    ⟨replicaSub_update_master Tables.data hi.replica_data fun _ _ => insertOrIgnore_of_some _,
      replicaSub_update_master Tables.chunk hi.replica_chunk fun _ _ => id, fun key' => ?_,
      fun key' j => ?_⟩⟩
  · rw [firstDataPut_snoc, Option.map_or', ← hi.master_data key']
    by_cases hk : key' = key
    · subst hk
      simp [firstDataPut, insertOrIgnore_apply]
    · have hne : (⟨ds.repoId, key'⟩ : DataKey) ≠ ⟨ds.repoId, key⟩ := by simp [hk]
      have hnone : firstDataPut [.dataPut key e] key' = none := by
        simp [firstDataPut, Ne.symm hk]
      rw [hnone, Option.map_none', Option.or_none]
      by_cases hj : Connection.master (ds.shard h key' - 1) = .master (ds.shard h key - 1)
      · rw [hj, Function.update_same]
        simp [insertOrIgnore_apply, hne]
      · rw [Function.update_noteq hj]
  · rw [firstChunkPut_snoc, ← hi.master_chunk key' j]
    simp only [firstChunkPut, List.findSome?_cons, List.findSome?_nil, Option.or_none]
    by_cases hj : Connection.master (cs.shard h key' j - 1) = .master (ds.shard h key - 1)
    · rw [hj, Function.update_same]
    · rw [Function.update_noteq hj]

theorem storeInv_chunkPut (hcs : cs.Wired) (hi : StoreInv h ds cs acts w) (key : String)
    (i : Nat) (v : List UInt8) : ∃ w', cs.put h w key i v = some w' ∧
      StoreInv h ds cs (acts ++ [.chunkPut key i v]) w' := by
  refine ⟨_, ChunkSqlStore.put_eq h w hcs key i v,
    ⟨replicaSub_update_master Tables.data hi.replica_data fun _ _ => id,
      replicaSub_update_master Tables.chunk hi.replica_chunk fun _ _ => insertOrIgnore_of_some _,
      fun key' => ?_, fun key' j => ?_⟩⟩
  · rw [firstDataPut_snoc, Option.map_or', ← hi.master_data key']
    simp only [firstDataPut, List.findSome?_cons, List.findSome?_nil, Option.map_none',
      Option.or_none]
    by_cases hj : Connection.master (ds.shard h key' - 1) = .master (cs.shard h key i - 1)
    · rw [hj, Function.update_same]
    · rw [Function.update_noteq hj]
  · rw [firstChunkPut_snoc, ← hi.master_chunk key' j]
    by_cases hk : key' = key ∧ j = i
    · obtain ⟨rfl, rfl⟩ := hk
      simp [firstChunkPut, insertOrIgnore_apply]
    · have hne : (⟨cs.repoId, key', j⟩ : ChunkKey) ≠ ⟨cs.repoId, key, i⟩ := by
        simpa [and_comm] using hk
      have hnone : firstChunkPut [.chunkPut key i v] key' j = none := by
        simp only [firstChunkPut, List.findSome?_cons, List.findSome?_nil]
        rw [if_neg fun h' => hk ⟨h'.1.symm, h'.2.symm⟩]
      rw [hnone, Option.or_none]
      by_cases hj : Connection.master (cs.shard h key' j - 1) = .master (cs.shard h key i - 1)
      · rw [hj, Function.update_same]
        simp [insertOrIgnore_apply, hne]
      · rw [Function.update_noteq hj]

/-- A replication step copies the master's row, if there is one. -/
theorem replicateData_cases (w : Connection → Tables) (i : Nat) (k : DataKey) :
    replicateData w i k = w ∨ ∃ row, (w (.master i)).data k = some row ∧
      replicateData w i k = Function.update w (.replica i)
        { w (.replica i) with data := Function.update (w (.replica i)).data k (some row) } := by
  unfold replicateData
  cases (w (.master i)).data k with
  | none => exact .inl rfl
  | some row => exact .inr ⟨row, rfl, rfl⟩

theorem replicateChunk_cases (w : Connection → Tables) (i : Nat) (k : ChunkKey) :
    replicateChunk w i k = w ∨ ∃ v, (w (.master i)).chunk k = some v ∧
      replicateChunk w i k = Function.update w (.replica i)
        { w (.replica i) with chunk := Function.update (w (.replica i)).chunk k (some v) } := by
  unfold replicateChunk
  cases (w (.master i)).chunk k with
  | none => exact .inl rfl
  | some v => exact .inr ⟨v, rfl, rfl⟩

/-- The invariant reads a run only through its first puts. -/
theorem StoreInv.of_firstPut_eq {acts' : List StoreAction} (hi : StoreInv h ds cs acts w)
    (hd : ∀ key, firstDataPut acts' key = firstDataPut acts key)
    (hc : ∀ key i, firstChunkPut acts' key i = firstChunkPut acts key i) :
    StoreInv h ds cs acts' w where
  replica_data := hi.replica_data
  replica_chunk := hi.replica_chunk
  master_data key := by rw [hd, hi.master_data]
  master_chunk key i := by rw [hc, hi.master_chunk]

/-- Writing a replica keeps the invariant if the replica stays a sub-map of
its master. -/
theorem StoreInv.update_replica (hi : StoreInv h ds cs acts w) (i : Nat) (t : Tables)
    (hd : ∀ k r, t.data k = some r → (w (.master i)).data k = some r)
    (hc : ∀ k v, t.chunk k = some v → (w (.master i)).chunk k = some v) :
    StoreInv h ds cs acts (Function.update w (.replica i) t) := by
  have hm : ∀ j, Function.update w (.replica i) t (.master j) = w (.master j) := fun j =>
    Function.update_noteq (by simp) _ _
  exact ⟨replicaSub_update_replica Tables.data hi.replica_data hd,
    replicaSub_update_replica Tables.chunk hi.replica_chunk hc,
    fun key => by rw [hm, hi.master_data], fun key j => by rw [hm, hi.master_chunk]⟩

theorem storeInv_replicateData (hi : StoreInv h ds cs acts w) (i : Nat) (k : DataKey) :
    StoreInv h ds cs (acts ++ [.replicateData i k]) (replicateData w i k) := by
  have hi' : StoreInv h ds cs (acts ++ [.replicateData i k]) w := hi.of_firstPut_eq
    (fun _ => by rw [firstDataPut_snoc]; exact Option.or_none)
    (fun _ _ => by rw [firstChunkPut_snoc]; exact Option.or_none)
  obtain hw | ⟨row, hrow, hw⟩ := replicateData_cases w i k
  · rwa [hw]
  · rw [hw]
    refine hi'.update_replica i _ (fun k' r hr => ?_) (hi.replica_chunk i)
    simp only [Function.update_apply] at hr
    split_ifs at hr with hk
    · subst hk
      cases hr
      exact hrow
    · exact hi.replica_data i k' r hr

theorem storeInv_replicateChunk (hi : StoreInv h ds cs acts w) (i : Nat) (k : ChunkKey) :
    StoreInv h ds cs (acts ++ [.replicateChunk i k]) (replicateChunk w i k) := by
  have hi' : StoreInv h ds cs (acts ++ [.replicateChunk i k]) w := hi.of_firstPut_eq
    (fun _ => by rw [firstDataPut_snoc]; exact Option.or_none)
    (fun _ _ => by rw [firstChunkPut_snoc]; exact Option.or_none)
  obtain hw | ⟨v, hv, hw⟩ := replicateChunk_cases w i k
  · rwa [hw]
  · rw [hw]
    refine hi'.update_replica i _ (hi.replica_data i) (fun k' u hu => ?_)
    simp only [Function.update_apply] at hu
    split_ifs at hu with hk
    · subst hk
      cases hu
      exact hv
    · exact hi.replica_chunk i k' u hu

/-- No step panics, and every step keeps the invariant. -/
theorem storeStep_inv (hds : ds.Wired) (hcs : cs.Wired) (hi : StoreInv h ds cs acts w) :
    ∀ a, ∃ w', storeStep h ds cs w a = some w' ∧ StoreInv h ds cs (acts ++ [a]) w'
  | .dataPut key e => storeInv_dataPut hds hi key e
  | .chunkPut key i v => storeInv_chunkPut hcs hi key i v
  | .replicateData i k => ⟨_, rfl, storeInv_replicateData hi i k⟩
  | .replicateChunk i k => ⟨_, rfl, storeInv_replicateChunk hi i k⟩

/-- No run panics, and every run keeps the invariant. -/
theorem storeRun_inv (hds : ds.Wired) (hcs : cs.Wired) :
    ∀ (rest acts : List StoreAction) (w : Connection → Tables), StoreInv h ds cs acts w →
      ∃ w', storeRun h ds cs w rest = some w' ∧ StoreInv h ds cs (acts ++ rest) w'
  | [], acts, w, hi => ⟨w, rfl, by simpa using hi⟩
  | a :: rest, acts, w, hi => by
    obtain ⟨w₁, h₁, hi₁⟩ := storeStep_inv hds hcs hi a
    obtain ⟨w', h', hi'⟩ := storeRun_inv hds hcs rest (acts ++ [a]) w₁ hi₁
    refine ⟨w', ?_, by simpa using hi'⟩
    simp only [storeRun, List.foldlM_cons, h₁, Option.bind_eq_bind, Option.some_bind]
    exact h'

end Inv

/-! ## 4. Reads after a run -/

section Reads

variable {h : List UInt8 → Nat} {ds : DataSqlStore} {cs : ChunkSqlStore}
  {acts : List StoreAction} {w : Connection → Tables}

theorem DataSqlStore.get_of_inv (hds : ds.Wired) (hi : StoreInv h ds cs acts w) (key : String) :
    ds.get h w key = some (decodeDataRow ((firstDataPut acts key).map dataRowOf)) := by
  rw [DataSqlStore.get_eq h w hds, readWithFallback_of_sub _ (hi.replica_data _ _),
    hi.master_data]

theorem DataSqlStore.isPresent_of_inv (hds : ds.Wired) (hi : StoreInv h ds cs acts w)
    (key : String) : ds.isPresent h w key = some (firstDataPut acts key).isSome := by
  rw [DataSqlStore.isPresent_eq h w hds, readWithFallback_of_sub _ (hi.replica_data _ _),
    hi.master_data, Option.isSome_map']

theorem ChunkSqlStore.get_of_inv (hcs : cs.Wired) (hi : StoreInv h ds cs acts w) (key : String)
    (i : Nat) :
    cs.get h w key i = some (chunkOrMissing (firstChunkPut acts key i) i (cs.shard h key i)) := by
  rw [ChunkSqlStore.get_eq h w hcs, readWithFallback_of_sub _ (hi.replica_chunk _ _),
    hi.master_chunk]

end Reads

/-! ## 5. The store over every run -/

/-- The sharded store over every run of puts and replication steps, from
empty databases, on a wired deployment: no shard index is out of range, no
run panics, every replica row is its master's row, and every read returns
what the first put of its key wrote, whatever the replication lag. -/
theorem sqlStore_run (h : List UInt8 → Nat) (ds : DataSqlStore) (cs : ChunkSqlStore)
    (hds : ds.Wired) (hcs : cs.Wired) :
    (∀ key, ds.shard h key - 1 < ds.shardNum) ∧ (∀ key i, cs.shard h key i - 1 < cs.shardNum) ∧
    ∀ acts, ∃ w, storeRun h ds cs emptyWorld acts = some w ∧
      (∀ i k r, (w (.replica i)).data k = some r → (w (.master i)).data k = some r) ∧
      (∀ i k v, (w (.replica i)).chunk k = some v → (w (.master i)).chunk k = some v) ∧
      (∀ key, ds.get h w key = some (match firstDataPut acts key with
        | none => .ok none
        | some e => decodeDataRow (some (dataRowOf e)))) ∧
      (∀ key v, firstDataPut acts key = some (.Data v) →
        ds.get h w key = some (.ok (some (.Data v)))) ∧
      (∀ key, ds.isPresent h w key = some (firstDataPut acts key).isSome) ∧
      (∀ key i, cs.get h w key i = some (match firstChunkPut acts key i with
        | some v => .ok v
        | none => .error ("Missing chunk with id " ++ toString i ++ " shard " ++
            toString (cs.shard h key i)))) := by
  refine ⟨ds.shard_sub_one_lt h, cs.shard_sub_one_lt h, fun acts => ?_⟩
  obtain ⟨w, hrun, hi⟩ := storeRun_inv hds hcs acts [] emptyWorld storeInv_empty
  rw [List.nil_append] at hi
  have hget := fun key => DataSqlStore.get_of_inv hds hi key
  refine ⟨w, hrun, hi.replica_data, hi.replica_chunk, fun key => ?_, fun key v hv => ?_,
    DataSqlStore.isPresent_of_inv hds hi, fun key i => ChunkSqlStore.get_of_inv hcs hi key i⟩
  · rw [hget]
    cases firstDataPut acts key <;> rfl
  · rw [hget, hv]
    rfl

theorem sqlStore_run_two_shards :
    ∃ w, storeRun List.length ⟨.wired 0 2 (by decide)⟩ ⟨.wired 0 2 (by decide)⟩ emptyWorld
        [.dataPut "k" (.Data [7]), .replicateData 0 ⟨0, "k"⟩, .dataPut "k" (.Data [8])] = some w ∧
      DataSqlStore.get List.length ⟨.wired 0 2 (by decide)⟩ w "k" = some (.ok (some (.Data [7]))) :=
  have ⟨_, _, hrun⟩ := sqlStore_run List.length ⟨.wired 0 2 (by decide)⟩ ⟨.wired 0 2 (by decide)⟩
    (SqlStoreConfig.wired_wired _ _ _) (SqlStoreConfig.wired_wired _ _ _)
  have ⟨w, hw, _, _, _, hdata, _⟩ := hrun
    [.dataPut "k" (.Data [7]), .replicateData 0 ⟨0, "k"⟩, .dataPut "k" (.Data [8])]
  ⟨w, hw, hdata "k" [7] rfl⟩

/-- `put(key, InChunk(2^32 + 1))` followed by `get(key)` returns
`InChunk(1)`: `put` writes the count `as i32`, which keeps its low 32 bits. -/
theorem inChunk_count_wraps (h : List UInt8 → Nat) (ds : DataSqlStore) (cs : ChunkSqlStore)
    (hds : ds.Wired) (hcs : cs.Wired) (key : String) :
    ∃ w, storeRun h ds cs emptyWorld [.dataPut key (.InChunk ⟨2 ^ 32 + 1, by decide, by decide⟩)] =
        some w ∧
      ds.get h w key = some (.ok (some (.InChunk ⟨1, by decide, by decide⟩))) := by
  obtain ⟨w, hrun, hi⟩ := storeRun_inv hds hcs _ [] emptyWorld storeInv_empty
  refine ⟨w, hrun, ?_⟩
  rw [DataSqlStore.get_of_inv hds hi, List.nil_append]
  simp only [firstDataPut, List.findSome?_cons, List.findSome?_nil, if_pos rfl, Option.map_some',
    decodeDataRow_inChunk]
  rfl

theorem inChunk_count_wraps_one_shard :
    ∃ w, storeRun List.length ⟨.wired 0 1 (by decide)⟩ ⟨.wired 0 1 (by decide)⟩ emptyWorld
        [.dataPut "k" (.InChunk ⟨2 ^ 32 + 1, by decide, by decide⟩)] = some w ∧
      DataSqlStore.get List.length ⟨.wired 0 1 (by decide)⟩ w "k" =
        some (.ok (some (.InChunk ⟨1, by decide, by decide⟩))) :=
  inChunk_count_wraps List.length ⟨.wired 0 1 (by decide)⟩ ⟨.wired 0 1 (by decide)⟩
    (SqlStoreConfig.wired_wired _ _ _) (SqlStoreConfig.wired_wired _ _ _) "k"

/-- After any run whose first put of `key` wrote `InChunk(n)`, `get(key)`
returns `InChunk(n)` exactly when `n < 2^31`. -/
theorem dataSqlStore_get_inChunk (h : List UInt8 → Nat) (ds : DataSqlStore) (cs : ChunkSqlStore)
    (hds : ds.Wired) (hcs : cs.Wired) (acts : List StoreAction) (key : String) (n : NonZeroUsize)
    (hput : firstDataPut acts key = some (.InChunk n)) :
    ∃ w, storeRun h ds cs emptyWorld acts = some w ∧
      (ds.get h w key = some (.ok (some (.InChunk n))) ↔ n.get < 2 ^ 31) := by
  obtain ⟨w, hrun, hi⟩ := storeRun_inv hds hcs acts [] emptyWorld storeInv_empty
  refine ⟨w, hrun, ?_⟩
  rw [DataSqlStore.get_of_inv hds hi, List.nil_append, hput, Option.map_some', Option.some_inj]
  exact decodeDataRow_inChunk_eq_iff n

theorem dataSqlStore_get_inChunk_five :
    ∃ w, storeRun List.length ⟨.wired 0 1 (by decide)⟩ ⟨.wired 0 1 (by decide)⟩ emptyWorld
        [.dataPut "k" (.InChunk ⟨5, by decide, by decide⟩)] = some w ∧
      (DataSqlStore.get List.length ⟨.wired 0 1 (by decide)⟩ w "k" =
        some (.ok (some (.InChunk ⟨5, by decide, by decide⟩))) ↔ 5 < 2 ^ 31) :=
  dataSqlStore_get_inChunk List.length ⟨.wired 0 1 (by decide)⟩ ⟨.wired 0 1 (by decide)⟩
    (SqlStoreConfig.wired_wired _ _ _) (SqlStoreConfig.wired_wired _ _ _) _ "k"
    ⟨5, by decide, by decide⟩ rfl

end Mononoke.Blobstore
