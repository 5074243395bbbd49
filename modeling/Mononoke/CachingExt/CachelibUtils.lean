/-
Mononoke.CachingExt.CachelibUtils — `CachelibHandler`
(`common/rust/caching_ext/src/cachelib_utils.rs`) on its `Mock` backend:
`get_multiple_from_cachelib`, `fill_multiple_cachelib`, and the `get_cached`
and `set_cached` they call.

The mock is a `HashMap<String, T>` behind a lock and a count of reads,
shared by every clone of the handler: a call takes the mock and returns it
changed. A `HashMap` the code builds is a function to `Option`, updated by
`insert`, which overwrites; a `HashMap` it is given is its entries in
iteration order, whose keys are distinct (`HashMapEntries`). The `Real`
backend is `cachelib`'s, which is not part of this source.

* `cachelib_mock_multiple`: from every cache, `get_multiple_from_cachelib`
  on keys without repeats returns the keys whose cache key is cached with
  their values, and the others in order, and only counts the reads;
  `fill_multiple_cachelib` on a map whose cache keys are distinct returns
  the map's values and stores each under its cache key, leaving every other
  cache key as it was; so a later `get_multiple_from_cachelib` finds every
  filled key.

## How the proofs go

`getMultipleLoop_eq` and `fillLoop_eq` say once what each loop returns for
any starting state, by induction on the keys; the maps they build are then
read with `hashMapOf_eq_some_iff`, `foldl_update_of_mem` and
`foldl_update_of_not_mem` (`Mononoke.RepoClient.Known`).
-/
import Mathlib.Data.List.Nodup
import Mononoke.RepoClient.Known

namespace Mononoke.CachingExt

open Mononoke.RepoClient

/-! ## 1. The mock -/

/-- `CachelibKey`: the key of a value in the cache. -/
structure CachelibKey where
  key : String
  deriving DecidableEq

/-- `MockCachelib<T>`: the map behind its lock, and the count of reads. -/
structure MockCachelib (T : Type) where
  cache : String → Option T
  getCount : Nat

/-- `MockCachelib::new`. -/
def MockCachelib.new {T : Type} : MockCachelib T :=
  ⟨fun _ => none, 0⟩

/-- A `HashMap<K, V>` given to the code: its entries in iteration order,
whose keys are distinct. -/
structure HashMapEntries (K V : Type) where
  entries : List (K × V)
  nodup : (entries.map Prod.fst).Nodup

section Mock

variable {T Key : Type} [DecidableEq Key]

/-- `CachelibHandler::get_cached` on the `Mock` backend: the value under
`key`, one read counted. -/
def getCached (key : String) (mock : MockCachelib T) : Except String (Option T) × MockCachelib T :=
  (.ok (mock.cache key), { mock with getCount := mock.getCount + 1 })

/-- `CachelibHandler::set_cached` on the `Mock` backend: `insert`. -/
def setCached (key : String) (value : T) (mock : MockCachelib T) : Except String Bool × MockCachelib T :=
  (.ok true, { mock with cache := Function.update mock.cache key (some value) })

/-- The `for (key, cache_key) in keys` loop of `get_multiple_from_cachelib`
over the keys left, with what it has fetched and left to fetch so far. -/
def getMultipleLoop : List (Key × CachelibKey) → (Key → Option T) → List (Key × CachelibKey) →
    MockCachelib T → Except String ((Key → Option T) × List (Key × CachelibKey)) × MockCachelib T
  | [], fetched, leftToFetch, mock => (.ok (fetched, leftToFetch), mock)
  | (key, cacheKey) :: keys, fetched, leftToFetch, mock =>
    match getCached cacheKey.key mock with
    | (.error e, mock) => (.error e, mock)
    | (.ok (some value), mock) =>
      getMultipleLoop keys (Function.update fetched key (some value)) leftToFetch mock
    | (.ok none, mock) => getMultipleLoop keys fetched (leftToFetch ++ [(key, cacheKey)]) mock

/-- `CachelibHandler::get_multiple_from_cachelib`. -/
def getMultipleFromCachelib (keys : List (Key × CachelibKey)) (mock : MockCachelib T) :
    Except String ((Key → Option T) × List (Key × CachelibKey)) × MockCachelib T :=
  getMultipleLoop keys (fun _ => none) [] mock

/-- The `map` of `fill_multiple_cachelib`, run as `collect` drives it: each
value stored under its cache key, the result of `set_cached` ignored. -/
def fillLoop : List (Key × (T × CachelibKey)) → MockCachelib T → List (Key × T) × MockCachelib T
  | [], mock => ([], mock)
  | (key, (value, cacheKey)) :: keys, mock =>
    let (_, mock) := setCached cacheKey.key value mock
    let (rest, mock) := fillLoop keys mock
    ((key, value) :: rest, mock)

/-- `CachelibHandler::fill_multiple_cachelib`. -/
def fillMultipleCachelib (keys : HashMapEntries Key (T × CachelibKey)) (mock : MockCachelib T) :
    (Key → Option T) × MockCachelib T :=
  let (pairs, mock) := fillLoop keys.entries mock
  (hashMapOf Prod.fst Prod.snd pairs, mock)

/-! ## 2. What each loop does -/

/-- The pairs of `keys` whose cache key is cached, with their values. -/
def cachedPairs (cache : String → Option T) (keys : List (Key × CachelibKey)) : List (Key × T) :=
  keys.filterMap fun kc => (cache kc.2.key).map fun v => (kc.1, v)

/-- The loop counts one read per key, fetches the cached keys, and leaves
the others in order. -/
theorem getMultipleLoop_eq :
    ∀ (keys : List (Key × CachelibKey)) (fetched : Key → Option T) (leftToFetch : List (Key × CachelibKey))
      (mock : MockCachelib T),
      getMultipleLoop keys fetched leftToFetch mock =
        (.ok ((cachedPairs mock.cache keys).foldl (fun m p => Function.update m p.1 (some p.2)) fetched,
            leftToFetch ++ keys.filter fun kc => (mock.cache kc.2.key).isNone),
          { mock with getCount := mock.getCount + keys.length })
  | [], _, _, _ => by simp [getMultipleLoop, cachedPairs]
  | (key, cacheKey) :: keys, fetched, leftToFetch, mock => by
    cases h : mock.cache cacheKey.key <;>
      simp [getMultipleLoop, getCached, h, getMultipleLoop_eq keys, cachedPairs, Nat.add_assoc,
        Nat.add_comm 1]

omit [DecidableEq Key] in
/-- Filling stores each value under its cache key, in order, and reads
nothing. -/
theorem fillLoop_eq :
    ∀ (keys : List (Key × (T × CachelibKey))) (mock : MockCachelib T),
      fillLoop keys mock =
        (keys.map fun e => (e.1, e.2.1),
          { mock with cache := keys.foldl (fun c e => Function.update c e.2.2.key (some e.2.1)) mock.cache })
  | [], _ => rfl
  | (key, (value, cacheKey)) :: keys, mock => by
    simp only [fillLoop, setCached, fillLoop_eq keys, List.map_cons, List.foldl_cons]

/-! ## 3. The mock's contract -/

omit [DecidableEq Key] in
theorem mem_cachedPairs {cache : String → Option T} {keys : List (Key × CachelibKey)} {k : Key} {v : T} :
    (k, v) ∈ cachedPairs cache keys ↔ ∃ ck, (k, ck) ∈ keys ∧ cache ck.key = some v := by
  simp only [cachedPairs, List.mem_filterMap, Option.map_eq_some', Prod.mk.injEq]
  constructor
  · rintro ⟨⟨k', ck⟩, hmem, v', hv, rfl, rfl⟩
    exact ⟨ck, hmem, hv⟩
  · rintro ⟨ck, hmem, hv⟩
    exact ⟨(k, ck), hmem, v, hv, rfl, rfl⟩

omit [DecidableEq Key] in
theorem nodup_map_fst_cachedPairs (cache : String → Option T) :
    ∀ {keys : List (Key × CachelibKey)}, (keys.map Prod.fst).Nodup →
      ((cachedPairs cache keys).map Prod.fst).Nodup
  | [], _ => List.nodup_nil
  | (key, cacheKey) :: keys, hnd => by
    rw [List.map_cons, List.nodup_cons] at hnd
    have ih := nodup_map_fst_cachedPairs cache hnd.2
    cases h : cache cacheKey.key with
    | none => simpa [cachedPairs, h] using ih
    | some v =>
      simp only [cachedPairs, List.filterMap_cons, h, Option.map_some', List.map_cons, List.nodup_cons]
      refine ⟨fun hk => hnd.1 ?_, ih⟩
      obtain ⟨⟨k, v'⟩, hp, rfl⟩ := List.mem_map.1 hk
      obtain ⟨ck, hck, -⟩ := mem_cachedPairs.1 hp
      exact List.mem_map.2 ⟨_, hck, rfl⟩

theorem getMultipleFromCachelib_eq (keys : List (Key × CachelibKey)) (mock : MockCachelib T) :
    getMultipleFromCachelib keys mock =
      (.ok (hashMapOf Prod.fst Prod.snd (cachedPairs mock.cache keys),
          keys.filter fun kc => (mock.cache kc.2.key).isNone),
        { mock with getCount := mock.getCount + keys.length }) := by
  rw [getMultipleFromCachelib, getMultipleLoop_eq, List.nil_append]
  rfl

/-- The fetched map of keys without repeats holds each cached key's value. -/
theorem hashMapOf_cachedPairs {cache : String → Option T} {keys : List (Key × CachelibKey)}
    (hnd : (keys.map Prod.fst).Nodup) (k : Key) (v : T) :
    hashMapOf Prod.fst Prod.snd (cachedPairs cache keys) k = some v ↔
      ∃ ck, (k, ck) ∈ keys ∧ cache ck.key = some v := by
  rw [hashMapOf_eq_some_iff _ _ (nodup_map_fst_cachedPairs cache hnd)]
  constructor
  · rintro ⟨⟨k', v'⟩, hp, rfl, rfl⟩
    exact mem_cachedPairs.1 hp
  · intro h
    exact ⟨(k, v), mem_cachedPairs.2 h, rfl, rfl⟩

/-- Keys without repeats: a key is fetched exactly when it is not left. -/
theorem isSome_iff_not_left {cache : String → Option T} {keys : List (Key × CachelibKey)}
    (hnd : (keys.map Prod.fst).Nodup) {k : Key} (hk : k ∈ keys.map Prod.fst) :
    (hashMapOf Prod.fst Prod.snd (cachedPairs cache keys) k).isSome ↔
      k ∉ (keys.filter fun kc => (cache kc.2.key).isNone).map Prod.fst := by
  obtain ⟨⟨_, ck⟩, hmem, rfl⟩ := List.mem_map.1 hk
  have huniq : ∀ ck', ((_, ck') ∈ keys) → ck' = ck := fun ck' h' =>
    (Prod.mk.inj (List.inj_on_of_nodup_map hnd h' hmem rfl)).2
  rw [Option.isSome_iff_exists]
  simp only [hashMapOf_cachedPairs hnd, List.mem_map, List.mem_filter, Prod.exists, not_exists, not_and]
  constructor
  · rintro ⟨v, ck', h', hv⟩ _ ck'' ⟨h'', hnone⟩ rfl
    rw [huniq ck' h', ← huniq ck'' h''] at hv
    simp [hv] at hnone
  · intro h
    cases hc : cache ck.key with
    | none => exact absurd rfl (h _ ck ⟨hmem, by simp [hc]⟩)
    | some v => exact ⟨v, ck, hmem, hc⟩

theorem fillMultipleCachelib_eq (m : HashMapEntries Key (T × CachelibKey)) (mock : MockCachelib T) :
    fillMultipleCachelib m mock =
      (hashMapOf Prod.fst Prod.snd (m.entries.map fun e => (e.1, e.2.1)),
        { mock with
          cache := m.entries.foldl (fun c e => Function.update c e.2.2.key (some e.2.1)) mock.cache }) := by
  rw [fillMultipleCachelib, fillLoop_eq]

omit [DecidableEq Key] in
theorem nodup_cacheKeys {entries : List (Key × (T × CachelibKey))}
    (h : (entries.map fun e => e.2.2).Nodup) : (entries.map fun e => e.2.2.key).Nodup := by
  have hinj : Function.Injective CachelibKey.key := fun a b h => by
    cases a
    cases b
    simp_all
  simpa [List.map_map, Function.comp_def] using List.Nodup.map hinj h

/-- Filling returns the map's values, stores each under its cache key, and
leaves every other cache key and the count of reads as they were. -/
theorem fillMultipleCachelib_spec (C : MockCachelib T) (m : HashMapEntries Key (T × CachelibKey))
    (hcks : (m.entries.map fun e => e.2.2).Nodup) :
    (∀ k v, (fillMultipleCachelib m C).1 k = some v ↔ ∃ ck, (k, (v, ck)) ∈ m.entries) ∧
    (fillMultipleCachelib m C).2.getCount = C.getCount ∧
    (∀ e ∈ m.entries, (fillMultipleCachelib m C).2.cache e.2.2.key = some e.2.1) ∧
    ∀ s, (∀ e ∈ m.entries, e.2.2.key ≠ s) → (fillMultipleCachelib m C).2.cache s = C.cache s := by
  have hnd : ((m.entries.map fun e => (e.1, e.2.1)).map Prod.fst).Nodup := by
    simpa [List.map_map, Function.comp_def] using m.nodup
  rw [fillMultipleCachelib_eq]
  refine ⟨fun k v => ?_, rfl, fun e he => ?_, fun s hs => ?_⟩
  · rw [hashMapOf_eq_some_iff _ _ hnd]
    simp only [List.mem_map]
    constructor
    · rintro ⟨_, ⟨e, he, rfl⟩, rfl, rfl⟩
      exact ⟨e.2.2, he⟩
    · rintro ⟨ck, he⟩
      exact ⟨(k, v), ⟨(k, (v, ck)), he, rfl⟩, rfl, rfl⟩
  · exact foldl_update_of_mem (fun e : Key × T × CachelibKey => e.2.2.key) (fun e => e.2.1)
      (nodup_cacheKeys hcks) he _
  · refine foldl_update_of_not_mem (fun e : Key × T × CachelibKey => e.2.2.key) (fun e => e.2.1) ?_ _
    intro hmem
    obtain ⟨e, he, rfl⟩ := List.mem_map.1 hmem
    exact hs e he rfl

/-- `get_multiple_from_cachelib` on keys without repeats returns the cached
keys with their values and the others in order, counting one read per key;
`fill_multiple_cachelib` on a map with distinct cache keys returns its values
and stores each under its cache key, every other cache key left as it was;
and a later `get_multiple_from_cachelib` finds every filled key. -/
theorem cachelib_mock_multiple (C : MockCachelib T) :
    (∀ keys : List (Key × CachelibKey), (keys.map Prod.fst).Nodup →
      ∃ fetched : Key → Option T,
        getMultipleFromCachelib keys C =
          (.ok (fetched, keys.filter fun kc => (C.cache kc.2.key).isNone),
            { C with getCount := C.getCount + keys.length }) ∧
        (∀ k v, fetched k = some v ↔ ∃ ck, (k, ck) ∈ keys ∧ C.cache ck.key = some v) ∧
        ∀ k ∈ keys.map Prod.fst,
          (fetched k).isSome ↔ k ∉ (keys.filter fun kc => (C.cache kc.2.key).isNone).map Prod.fst) ∧
    ∀ m : HashMapEntries Key (T × CachelibKey), (m.entries.map fun e => e.2.2).Nodup →
      (∀ k v, (fillMultipleCachelib m C).1 k = some v ↔ ∃ ck, (k, (v, ck)) ∈ m.entries) ∧
      (fillMultipleCachelib m C).2.getCount = C.getCount ∧
      (∀ e ∈ m.entries, (fillMultipleCachelib m C).2.cache e.2.2.key = some e.2.1) ∧
      (∀ s, (∀ e ∈ m.entries, e.2.2.key ≠ s) → (fillMultipleCachelib m C).2.cache s = C.cache s) ∧
      ∃ fetched : Key → Option T,
        (getMultipleFromCachelib (m.entries.map fun e => (e.1, e.2.2)) (fillMultipleCachelib m C).2).1 =
          .ok (fetched, []) ∧
        ∀ k v, fetched k = some v ↔ ∃ ck, (k, (v, ck)) ∈ m.entries := by
  refine ⟨fun keys hnd => ⟨_, getMultipleFromCachelib_eq keys C, hashMapOf_cachedPairs hnd,
    fun k hk => isSome_iff_not_left hnd hk⟩, fun m hcks => ?_⟩
  obtain ⟨hres, hcount, hfilled, hother⟩ := fillMultipleCachelib_spec C m hcks
  refine ⟨hres, hcount, hfilled, hother, hashMapOf Prod.fst Prod.snd
    (cachedPairs (fillMultipleCachelib m C).2.cache (m.entries.map fun e => (e.1, e.2.2))), ?_,
    fun k v => ?_⟩
  · rw [getMultipleFromCachelib_eq]
    simp only [Except.ok.injEq, Prod.mk.injEq, true_and, List.filter_eq_nil_iff, List.mem_map]
    rintro _ ⟨e, he, rfl⟩
    simp [hfilled e he]
  · have hnd : ((m.entries.map fun e => (e.1, e.2.2)).map Prod.fst).Nodup := by
      simpa [List.map_map, Function.comp_def] using m.nodup
    rw [hashMapOf_cachedPairs hnd]
    simp only [List.mem_map, Prod.mk.injEq]
    constructor
    · rintro ⟨_, ⟨e, he, rfl, rfl⟩, hv⟩
      rw [hfilled e he, Option.some.injEq] at hv
      exact ⟨e.2.2, hv ▸ he⟩
    · rintro ⟨ck, he⟩
      exact ⟨ck, ⟨_, he, rfl, rfl⟩, hfilled _ he⟩

end Mock

/-- A mock that already holds `5` under the cache key `ck-b`: asking for `a`
(cache key `ck-a`) and `b` finds `b` alone and counts two reads; filling
`a ↦ 1` under `ck-a` keeps `b`, and `a` is then found. -/
theorem cachelib_mock_multiple_prefilled :
    let C : MockCachelib Nat := ⟨fun s => if s = "ck-b" then some 5 else none, 2⟩
    let m : HashMapEntries String (Nat × CachelibKey) := ⟨[("a", (1, ⟨"ck-a"⟩))], by decide⟩
    (∃ fetched : String → Option Nat,
      getMultipleFromCachelib [("a", ⟨"ck-a"⟩), ("b", ⟨"ck-b"⟩)] C =
          (.ok (fetched, [("a", ⟨"ck-a"⟩)]), { C with getCount := 4 }) ∧
        fetched "b" = some 5 ∧ fetched "a" = none) ∧
    (fillMultipleCachelib m C).2.cache "ck-b" = some 5 ∧
    ∃ fetched : String → Option Nat,
      (getMultipleFromCachelib [("a", ⟨"ck-a"⟩)] (fillMultipleCachelib m C).2).1 = .ok (fetched, []) ∧
        fetched "a" = some 1 := by
  intro C m
  obtain ⟨hget, hfill⟩ := @cachelib_mock_multiple Nat String _ C
  obtain ⟨fetched, heq, hfetched, hsome⟩ := hget [("a", ⟨"ck-a"⟩), ("b", ⟨"ck-b"⟩)] (by decide)
  obtain ⟨-, -, -, hother, fetchedFilled, hgetFilled, hfetchedFilled⟩ := hfill m (by decide)
  have hfilter : ([("a", ⟨"ck-a"⟩), ("b", ⟨"ck-b"⟩)] : List (String × CachelibKey)).filter
      (fun kc => (C.cache kc.2.key).isNone) = [("a", ⟨"ck-a"⟩)] := by decide
  refine ⟨⟨fetched, by rw [heq, hfilter]; rfl, (hfetched "b" 5).2 ⟨⟨"ck-b"⟩, by simp, rfl⟩, ?_⟩,
    hother "ck-b" (by decide), fetchedFilled, hgetFilled,
    (hfetchedFilled "a" 1).2 ⟨⟨"ck-a"⟩, by simp [m]⟩⟩
  have ha := hsome "a" (by simp)
  rw [hfilter] at ha
  simpa using ha

end Mononoke.CachingExt
