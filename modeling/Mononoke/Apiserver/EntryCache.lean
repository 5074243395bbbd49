/-
Mononoke.Apiserver.EntryCache — the directory entries the read-only HTTP API
lists, and the cache they are kept in (`apiserver/src/actor/model.rs`):
`FileType`, `Entry`, and `EntryWithSizeAndContentHash::materialize_future`.

`materialize_future` reads an entry's name, which must be UTF-8, its type
and its hash, and starts a future that fetches its content and computes its
size and, for a file, the SHA-1 of its bytes. With a cache pool, the result
goes through `cachelib::get_cached_or_fill` under the key
`get_cache_key(repoid, hash)`: a value already under the key is returned,
and otherwise the future's result is stored there. The key names the
repository and the node hash, not the entry's name or type.

`HgEntry::get_content`, `Sha1` and `RepositoryId::prefix` are not part of
this source: they are the parameters `getContent`, `sha1Hex` and
`repoPrefix`, and every statement holds for each of them. `cachelib` is not
part of it either: `getCachedOrFill` is its documented behaviour, and the
LRU pool may drop any key between two requests (`PoolEvent.evict`), so a run
of the pool is any sequence of requests and evictions.

* `runPool_eq_of_keyConsistent`: over every run, from an empty pool and
  whatever the pool evicts, every request gets exactly what it gets with no
  pool, as long as requests whose entries share a cache key would get the
  same result without one.
* `materializeFuture_same_hash`: that condition is not met by entries that
  share a hash but not a name or a type. The second of two such entries,
  asked for after the first, gets the first one's result: its name, its type
  and its size.

## How the proofs go

`materializeFuture_some` says once what one request does to the pool: a hit
returns the pooled value and keeps the pool, a miss returns the plain result
and stores it when it is a value. `PoolInv` says every pooled value is what
some request of the run would get with no pool, under its key; each event
keeps it (`poolInv_materialize`, `poolInv_evict`), and the refinement is an
induction on the run with the pool generalised.
-/
import Mononoke.Apiserver.Model
import Mononoke.RepoClient.Gettreepack

namespace Mononoke.Apiserver

open Mononoke.RepoClient (fromUtf8 HgNodeHash.toHex)

/-! ## 1. Entries -/

/-- The API's `FileType`. -/
inductive FileType where
  | File
  | Tree
  | Executable
  | Symlink
  deriving DecidableEq

/-- `From<Type> for FileType`. -/
def FileType.ofType : RepoClient.EntryType → FileType
  | .File .Regular => .File
  | .File .Executable => .Executable
  | .File .Symlink => .Symlink
  | .Tree => .Tree

/-- The API's `Entry`. -/
structure Entry where
  name : String
  ttype : FileType
  hash : String

/-- `TryFrom<Box<dyn HgEntry + Sync>> for Entry`: a root entry, which has no
name, gets the empty name. -/
def Entry.tryFrom (entry : RepoClient.Entry) : Except Utf8Error Entry := do
  let name ← strFromUtf8 (entry.name.getD [])
  pure ⟨name, .ofType entry.type, HgNodeHash.toHex entry.hash⟩

/-- `manifest::Content`: a file's bytes, or a tree's entries. -/
inductive Content where
  | File (contents : List UInt8)
  | Executable (contents : List UInt8)
  | Symlink (contents : List UInt8)
  | Tree (manifest : List RepoClient.Entry)

/-- `EntryWithSizeAndContentHash`. -/
structure EntryWithSizeAndContentHash where
  name : String
  ttype : FileType
  hash : String
  size : Option Nat
  contentSha1 : Option String
  deriving DecidableEq

/-- `RepositoryId`. -/
structure RepositoryId where
  id : Int
  deriving DecidableEq

/-- The errors of `materialize_future`: a message (`err_msg`, or the error of
the content's fetch), or the `FromUtf8Error` of a name that is not UTF-8. -/
inductive MaterializeError where
  | Msg (msg : String)
  | FromUtf8 (e : Utf8Error)

/-! ## 2. The cache pool -/

/-- An `LruCachePool`, as far as one kind of value goes: the value under each
key. -/
structure LruCachePool (V : Type) where
  get : String → Option V

/-- The empty pool. -/
def LruCachePool.empty {V : Type} : LruCachePool V := ⟨fun _ => none⟩

/-- The pool with `value` stored under `key`. -/
def LruCachePool.set {V : Type} (pool : LruCachePool V) (key : String) (value : V) : LruCachePool V :=
  ⟨Function.update pool.get key (some value)⟩

/-- The pool after the LRU drops `key`. -/
def LruCachePool.evict {V : Type} (pool : LruCachePool V) (key : String) : LruCachePool V :=
  ⟨Function.update pool.get key none⟩

/-- Modelled from the spec: `cachelib::get_cached_or_fill`, the value under
`key` if there is one; otherwise the result of `fill`, whose value, if any,
is stored under `key`. -/
def getCachedOrFill {ε V : Type} (pool : LruCachePool V) (key : String) (fill : Except ε (Option V)) :
    Except ε (Option V) × LruCachePool V :=
  match pool.get key with
  | some value => (.ok (some value), pool)
  | none =>
    match fill with
    | .ok (some value) => (.ok (some value), pool.set key value)
    | result => (result, pool)

/-! ## 3. `materialize_future` -/

section Materialize

variable (repoPrefix : RepositoryId → String)
  (getContent : RepoClient.Entry → Except String Content) (sha1Hex : List UInt8 → String)

/-- `get_cache_key`. -/
def getCacheKey (repoid : RepositoryId) (hash : String) : String :=
  repoPrefix repoid ++ ":" ++ hash

/-- The name, type and hash `materialize_future` reads before anything else;
the name must be there, and be UTF-8. -/
def entryHeader (entry : RepoClient.Entry) : Except MaterializeError (String × FileType × String) :=
  match entry.name with
  | none => .error (.Msg "HgEntry has no name!?")
  | some name =>
    match fromUtf8 name with
    | none => .error (.FromUtf8 ⟨⟩)
    | some name => .ok (name, .ofType entry.type, HgNodeHash.toHex entry.hash)

/-- The future `materialize_future` spawns: the entry with the size of its
content and, for a file, the SHA-1 of its bytes. -/
def contentFuture (entry : RepoClient.Entry) (name : String) (ttype : FileType) (hash : String) :
    Except MaterializeError EntryWithSizeAndContentHash :=
  match getContent entry with
  | .error e => .error (.Msg e)
  | .ok content =>
    let size := match content with
      | .File contents | .Executable contents | .Symlink contents => some contents.length
      | .Tree manifest => some manifest.length
    let contentSha1 := match content with
      | .File contents | .Executable contents | .Symlink contents => some (sha1Hex contents)
      | .Tree _ => none
    .ok ⟨name, ttype, hash, size, contentSha1⟩

/-- `EntryWithSizeAndContentHash::materialize_future`, with the pool it
leaves behind. -/
def materializeFuture (repoid : RepositoryId) (entry : RepoClient.Entry)
    (cache : Option (LruCachePool EntryWithSizeAndContentHash)) :
    Except MaterializeError EntryWithSizeAndContentHash × Option (LruCachePool EntryWithSizeAndContentHash) :=
  match entryHeader entry with
  | .error e => (.error e, cache)
  | .ok (name, ttype, hash) =>
    let cacheKey := getCacheKey repoPrefix repoid hash
    let future := contentFuture getContent sha1Hex entry name ttype hash
    match cache with
    | some cache =>
      let (entry?, cache) := getCachedOrFill cache cacheKey (future.map some)
      (entry?.bind fun entry? => match entry? with
        | some entry => .ok entry
        | none => .error (.Msg ("Entry " ++ hash ++ " not found")), some cache)
    | none => (future, none)

/-- The key an entry's result is cached under, once its header is read. -/
def cacheKeyOf (repoid : RepositoryId) (entry : RepoClient.Entry) : Option String :=
  match entryHeader entry with
  | .ok (_, _, hash) => some (getCacheKey repoPrefix repoid hash)
  | .error _ => none

/-- What the pool sees: a request for an entry, or the LRU dropping a key. -/
inductive PoolEvent where
  | materialize (repoid : RepositoryId) (entry : RepoClient.Entry)
  | evict (key : String)

/-- The results of the requests of a run, served one after another with the
pool `cache`, or with none. -/
def runPool : Option (LruCachePool EntryWithSizeAndContentHash) → List PoolEvent →
    List (Except MaterializeError EntryWithSizeAndContentHash)
  | _, [] => []
  | cache, .materialize repoid entry :: events =>
    let (result, cache) := materializeFuture repoPrefix getContent sha1Hex repoid entry cache
    result :: runPool cache events
  | cache, .evict key :: events => runPool (cache.map (·.evict key)) events

/-! ## 4. One request -/

/-- Without a pool, a request leaves no pool. -/
@[simp] theorem materializeFuture_none_snd (repoid : RepositoryId) (entry : RepoClient.Entry) :
    (materializeFuture repoPrefix getContent sha1Hex repoid entry none).2 = none := by
  unfold materializeFuture
  split <;> rfl

/-- One request through a pool: an entry whose header cannot be read keeps
the pool; a hit returns the pooled value and keeps the pool; a miss returns
what the request gets with no pool, and stores it when it is a value. -/
theorem materializeFuture_some (repoid : RepositoryId) (entry : RepoClient.Entry)
    (pool : LruCachePool EntryWithSizeAndContentHash) :
    let plain := (materializeFuture repoPrefix getContent sha1Hex repoid entry none).1
    let request := materializeFuture repoPrefix getContent sha1Hex repoid entry (some pool)
    (cacheKeyOf repoPrefix repoid entry = none ∧ request = (plain, some pool)) ∨
    (∃ key value, cacheKeyOf repoPrefix repoid entry = some key ∧ pool.get key = some value ∧
      request = (.ok value, some pool)) ∨
    (∃ key, cacheKeyOf repoPrefix repoid entry = some key ∧ pool.get key = none ∧
      request = (plain, some (match plain with
        | .ok value => pool.set key value
        | .error _ => pool))) := by
  intro plain request
  simp only [plain, request, materializeFuture, cacheKeyOf]
  cases entryHeader entry with
  | error e => exact .inl ⟨rfl, rfl⟩
  | ok header =>
    obtain ⟨name, ttype, hash⟩ := header
    simp only [getCachedOrFill]
    cases hg : pool.get (getCacheKey repoPrefix repoid hash) with
    | some value => exact .inr (.inl ⟨_, value, rfl, hg, rfl⟩)
    | none =>
      refine .inr (.inr ⟨_, rfl, hg, ?_⟩)
      cases contentFuture getContent sha1Hex entry name ttype hash <;> rfl

/-- The hash an entry's header carries is its node hash, in hexadecimal. -/
theorem entryHeader_hash {entry : RepoClient.Entry} {header : String × FileType × String}
    (h : entryHeader entry = .ok header) : header.2.2 = HgNodeHash.toHex entry.hash := by
  unfold entryHeader at h
  split at h
  · cases h
  · split at h <;> cases h
    rfl

/-- An entry whose header is read is cached under its repository and node
hash. -/
theorem cacheKeyOf_of_entryHeader (repoid : RepositoryId) {entry : RepoClient.Entry}
    {header : String × FileType × String} (h : entryHeader entry = .ok header) :
    cacheKeyOf repoPrefix repoid entry =
      some (getCacheKey repoPrefix repoid (HgNodeHash.toHex entry.hash)) := by
  rw [cacheKeyOf, h, ← entryHeader_hash h]

theorem cacheKeyOf_eq_some {repoid : RepositoryId} {entry : RepoClient.Entry} {key : String}
    (h : cacheKeyOf repoPrefix repoid entry = some key) :
    key = getCacheKey repoPrefix repoid (HgNodeHash.toHex entry.hash) := by
  unfold cacheKeyOf at h
  split at h
  · rename_i hh
    cases h
    rw [← entryHeader_hash hh]
  · cases h

/-- A value got with no pool carries the entry's own name, type and hash. -/
theorem entryHeader_of_materializeFuture_none {repoid : RepositoryId} {entry : RepoClient.Entry}
    {value : EntryWithSizeAndContentHash}
    (h : (materializeFuture repoPrefix getContent sha1Hex repoid entry none).1 = .ok value) :
    entryHeader entry = .ok (value.name, value.ttype, value.hash) := by
  unfold materializeFuture at h
  cases hh : entryHeader entry with
  | error e => simp [hh] at h
  | ok header =>
    obtain ⟨name, ttype, hash⟩ := header
    simp only [hh, contentFuture] at h
    split at h <;> cases h
    rfl

/-! ## 5. The pool over a run -/

/-- Every pooled value is what some request of `events` gets with no pool,
pooled under that request's key. -/
def PoolInv (events : List PoolEvent) (cache : Option (LruCachePool EntryWithSizeAndContentHash)) :
    Prop :=
  ∀ pool, cache = some pool → ∀ key value, pool.get key = some value → ∃ repoid entry,
    .materialize repoid entry ∈ events ∧ cacheKeyOf repoPrefix repoid entry = some key ∧
      (materializeFuture repoPrefix getContent sha1Hex repoid entry none).1 = .ok value

/-- Requests of `events` whose entries share a cache key get the same value
with no pool. -/
def KeyConsistent (events : List PoolEvent) : Prop :=
  ∀ repoid₁ entry₁ repoid₂ entry₂ key value,
    .materialize repoid₁ entry₁ ∈ events → .materialize repoid₂ entry₂ ∈ events →
    cacheKeyOf repoPrefix repoid₁ entry₁ = some key → cacheKeyOf repoPrefix repoid₂ entry₂ = some key →
    (materializeFuture repoPrefix getContent sha1Hex repoid₁ entry₁ none).1 = .ok value →
    (materializeFuture repoPrefix getContent sha1Hex repoid₂ entry₂ none).1 = .ok value

variable {repoPrefix getContent sha1Hex} {events : List PoolEvent}
  {cache : Option (LruCachePool EntryWithSizeAndContentHash)}

theorem poolInv_empty : PoolInv repoPrefix getContent sha1Hex events (some .empty) := by
  rintro _ ⟨⟩ key value ⟨⟩

theorem poolInv_evict (key : String) (h : PoolInv repoPrefix getContent sha1Hex events cache) :
    PoolInv repoPrefix getContent sha1Hex events (cache.map (·.evict key)) := by
  cases cache with
  | none => rintro _ ⟨⟩
  | some pool =>
    rintro _ ⟨⟩ key' value hv
    by_cases hk : key' = key
    · subst hk
      simp [LruCachePool.evict] at hv
    · exact h pool rfl key' value (by simpa [LruCachePool.evict, hk] using hv)

/-- A request of the run keeps the invariant: what it stores is its own
result, under its own key. -/
theorem poolInv_materialize {repoid : RepositoryId} {entry : RepoClient.Entry}
    (hmem : .materialize repoid entry ∈ events)
    (h : PoolInv repoPrefix getContent sha1Hex events cache) :
    PoolInv repoPrefix getContent sha1Hex events
      (materializeFuture repoPrefix getContent sha1Hex repoid entry cache).2 := by
  cases cache with
  | none => simp [PoolInv]
  | some pool =>
    rcases materializeFuture_some repoPrefix getContent sha1Hex repoid entry pool with
      ⟨-, hreq⟩ | ⟨key, value, -, -, hreq⟩ | ⟨key, hkey, -, hreq⟩ <;> rw [hreq]
    · exact h
    · exact h
    · rintro _ ⟨⟩ key' value' hv
      split at hv
      · rename_i value hplain
        by_cases hk : key' = key
        · subst hk
          simp only [LruCachePool.set, Function.update_same, Option.some.injEq] at hv
          exact ⟨repoid, entry, hmem, hkey, hv ▸ hplain⟩
        · exact h pool rfl key' value' (by simpa [LruCachePool.set, hk] using hv)
      · exact h pool rfl key' value' hv

/-- Under the invariant, a request of a key-consistent run gets what it gets
with no pool. -/
theorem materializeFuture_eq_of_poolInv {repoid : RepositoryId} {entry : RepoClient.Entry}
    (hcons : KeyConsistent repoPrefix getContent sha1Hex events)
    (hmem : .materialize repoid entry ∈ events)
    (h : PoolInv repoPrefix getContent sha1Hex events cache) :
    (materializeFuture repoPrefix getContent sha1Hex repoid entry cache).1 =
      (materializeFuture repoPrefix getContent sha1Hex repoid entry none).1 := by
  cases cache with
  | none => rfl
  | some pool =>
    rcases materializeFuture_some repoPrefix getContent sha1Hex repoid entry pool with
      ⟨-, hreq⟩ | ⟨key, value, hkey, hget, hreq⟩ | ⟨key, -, -, hreq⟩ <;> rw [hreq]
    · -- a hit: the pooled value came from a request with the same key
      obtain ⟨repoid', entry', hmem', hkey', hplain⟩ := h pool rfl key value hget
      exact (hcons repoid' entry' repoid entry key value hmem' hmem hkey' hkey hplain).symm

/-- Over every run from an empty pool, whatever the pool evicts, every
request gets exactly what it gets with no pool, as long as requests whose
entries share a cache key would get the same value without one. -/
theorem runPool_eq_of_keyConsistent (events : List PoolEvent)
    (hcons : KeyConsistent repoPrefix getContent sha1Hex events) :
    runPool repoPrefix getContent sha1Hex (some .empty) events = runPool repoPrefix getContent sha1Hex none events := by
  suffices ∀ rest, rest ⊆ events → ∀ cache, PoolInv repoPrefix getContent sha1Hex events cache →
      runPool repoPrefix getContent sha1Hex cache rest =
        runPool repoPrefix getContent sha1Hex none rest from
    this events (List.Subset.refl _) _ poolInv_empty
  intro rest
  induction rest with
  | nil => intro _ _ _; rfl
  | cons event rest ih =>
    intro hsub cache hinv
    obtain ⟨hmem, hrest⟩ := List.cons_subset.1 hsub
    cases event with
    | materialize repoid entry =>
      simp only [runPool, materializeFuture_none_snd,
        materializeFuture_eq_of_poolInv hcons hmem hinv, ih hrest _ (poolInv_materialize hmem hinv)]
    | evict key =>
      simp only [runPool, Option.map_none']
      exact ih hrest _ (poolInv_evict key hinv)

/-- One entry asked for twice, its key evicted in between. -/
theorem runPool_eq_of_keyConsistent_evicted :
    let entry : RepoClient.Entry := ⟨some [0x61], HgNodeHash.ofByte 1, .File .Regular⟩
    let events := [PoolEvent.materialize ⟨0⟩ entry,
      .evict ("repo0000.:" ++ HgNodeHash.toHex (HgNodeHash.ofByte 1)), .materialize ⟨0⟩ entry]
    KeyConsistent (fun _ => "repo0000.") (fun _ => .ok (.File [0x78])) (fun _ => "sha") events ∧
      runPool (fun _ => "repo0000.") (fun _ => .ok (.File [0x78])) (fun _ => "sha") (some .empty) events =
        runPool (fun _ => "repo0000.") (fun _ => .ok (.File [0x78])) (fun _ => "sha") none events :=
  have hcons : KeyConsistent (fun _ => "repo0000.") (fun _ => .ok (.File [0x78])) (fun _ => "sha")
      [PoolEvent.materialize ⟨0⟩ ⟨some [0x61], HgNodeHash.ofByte 1, .File .Regular⟩,
        .evict ("repo0000.:" ++ HgNodeHash.toHex (HgNodeHash.ofByte 1)),
        .materialize ⟨0⟩ ⟨some [0x61], HgNodeHash.ofByte 1, .File .Regular⟩] :=
    fun _ _ _ _ _ _ h₁ h₂ _ _ hv => by
      simp only [List.mem_cons, PoolEvent.materialize.injEq, reduceCtorEq, List.not_mem_nil,
        or_false, false_or, or_self] at h₁ h₂
      obtain ⟨rfl, rfl⟩ := h₁
      obtain ⟨rfl, rfl⟩ := h₂
      exact hv
  ⟨hcons, runPool_eq_of_keyConsistent _ hcons⟩

/-! ## 6. Entries that share a hash -/

variable (repoPrefix getContent sha1Hex)

/-- Two entries of one repository with the same node hash, asked for one
after the other through a pool that does not hold their key: the first gets
its own name and type, and the second gets the first one's result — its
name, its type and its size — whatever its own. -/
theorem materializeFuture_same_hash (repoid : RepositoryId) (entry₁ entry₂ : RepoClient.Entry)
    (pool : LruCachePool EntryWithSizeAndContentHash) (value : EntryWithSizeAndContentHash)
    (hhash : entry₁.hash = entry₂.hash)
    (hmiss : pool.get (getCacheKey repoPrefix repoid (HgNodeHash.toHex entry₁.hash)) = none)
    (h₁ : (materializeFuture repoPrefix getContent sha1Hex repoid entry₁ (some pool)).1 = .ok value)
    (h₂ : ∃ header, entryHeader entry₂ = .ok header) :
    entryHeader entry₁ = .ok (value.name, value.ttype, value.hash) ∧
      (materializeFuture repoPrefix getContent sha1Hex repoid entry₂
        (materializeFuture repoPrefix getContent sha1Hex repoid entry₁ (some pool)).2).1 = .ok value := by
  obtain ⟨header₂, hh₂⟩ := h₂
  rcases materializeFuture_some repoPrefix getContent sha1Hex repoid entry₁ pool with
    ⟨hnone, hreq⟩ | ⟨key, v, hkey, hget, -⟩ | ⟨key, hkey, -, hreq⟩
  · -- the value was got, so the header was read and the entry has a key
    rw [hreq] at h₁
    rw [cacheKeyOf_of_entryHeader repoPrefix repoid
      (entryHeader_of_materializeFuture_none _ _ _ h₁)] at hnone
    cases hnone
  · -- the pool does not hold the key
    rw [cacheKeyOf_eq_some _ hkey, hmiss] at hget
    cases hget
  · -- a miss stores the value under the key both entries share
    rw [hreq] at h₁ ⊢
    dsimp only at h₁ ⊢
    rw [h₁]
    refine ⟨entryHeader_of_materializeFuture_none _ _ _ h₁, ?_⟩
    have hkey₂ : cacheKeyOf repoPrefix repoid entry₂ = some key := by
      rw [cacheKeyOf_of_entryHeader repoPrefix repoid hh₂, ← hhash, ← cacheKeyOf_eq_some _ hkey]
    rcases materializeFuture_some repoPrefix getContent sha1Hex repoid entry₂
        (pool.set key value) with
      ⟨hnone₂, -⟩ | ⟨key₂, v₂, hkey₂', hget₂, hreq₂⟩ | ⟨key₂, hkey₂', hget₂, -⟩
    · rw [hkey₂] at hnone₂
      cases hnone₂
    · rw [hkey₂] at hkey₂'
      cases hkey₂'
      simp only [LruCachePool.set, Function.update_same, Option.some.injEq] at hget₂
      rw [hreq₂, hget₂]
    · rw [hkey₂] at hkey₂'
      cases hkey₂'
      simp [LruCachePool.set] at hget₂

/-- `a`, a regular file, and `b`, an executable with the same content and
parents, share a node hash: asked for after `a`, `b` is listed as `a`, a
regular file. -/
theorem materializeFuture_same_hash_two_files :
    let entryA : RepoClient.Entry := ⟨some [0x61], HgNodeHash.ofByte 1, .File .Regular⟩
    let entryB : RepoClient.Entry := ⟨some [0x62], HgNodeHash.ofByte 1, .File .Executable⟩
    let getContent : RepoClient.Entry → Except String Content := fun _ => .ok (.File [0x78])
    let value : EntryWithSizeAndContentHash :=
      ⟨"a", .File, HgNodeHash.toHex (HgNodeHash.ofByte 1), some 1, some "sha"⟩
    entryHeader entryB = .ok ("b", .Executable, HgNodeHash.toHex (HgNodeHash.ofByte 1)) ∧
      (materializeFuture (fun _ => "repo0000.") getContent (fun _ => "sha") ⟨0⟩ entryB
        (materializeFuture (fun _ => "repo0000.") getContent (fun _ => "sha") ⟨0⟩ entryA
          (some .empty)).2).1 = .ok value :=
  ⟨rfl, (materializeFuture_same_hash (fun _ => "repo0000.") (fun _ => .ok (.File [0x78]))
    (fun _ => "sha") ⟨0⟩ ⟨some [0x61], HgNodeHash.ofByte 1, .File .Regular⟩
    ⟨some [0x62], HgNodeHash.ofByte 1, .File .Executable⟩ .empty
    ⟨"a", .File, HgNodeHash.toHex (HgNodeHash.ofByte 1), some 1, some "sha"⟩ rfl rfl rfl ⟨_, rfl⟩).2⟩

end Materialize

end Mononoke.Apiserver
