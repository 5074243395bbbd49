/-
Mononoke.Bundle2Resolver.UploadBlobs — `upload_blobs`
(`bundle2-resolver/src/upload_blobs.rs`): the fold over a stream of
uploadable blobs into a map from node hash to uploaded value.

The stream is the list of what its polls yield: an item, or an error, which
ends the fold with that error. `UploadableBlob::upload` is the parameter
`upload`, which may fail. The `HashMap` is an association list in insertion
order, and `HashMap::insert` (`mapInsert`) returns the value it replaced.
`uploadBlobs` also returns the items `upload` was called on, in order.

* `uploadBlobs_spec`: the fold succeeds exactly when every poll yields an
  item, every upload succeeds and the keys are pairwise distinct, and the map
  is then the uploaded pairs. Otherwise the run splits into a clean prefix
  and the first failing poll, whose error the fold returns, and nothing after
  that poll is uploaded.

## How the proofs go

`mapInsert_of_not_mem` and `mapInsert_of_mem` say once what an insert does,
and `uploadBlobsGo_cons_cases` what one item of the fold can do.
`uploadBlobsGo_ok` and `uploadBlobsGo_error` then follow the fold's recursion,
from any map already built whose keys are distinct.
-/
import Mathlib.Data.List.Nodup
import Mononoke.Futures
import Mononoke.Types

namespace Mononoke.Bundle2Resolver

variable {B V : Type}

/-! ## 1. The model -/

/-- `HashMap::insert`: the map with `k` bound to `v`, and the value `k` had. -/
def mapInsert : List (HgNodeHash × V) → HgNodeHash → V → List (HgNodeHash × V) × Option V
  | [], k, v => ([(k, v)], none)
  | (k', v') :: m, k, v =>
    if k' = k then ((k, v) :: m, some v')
    else ((k', v') :: (mapInsert m k v).1, (mapInsert m k v).2)

/-- The fold of `upload_blobs` from the map `map`: its result, and the items
`upload` was called on. -/
def uploadBlobsGo (upload : B → Except String (HgNodeHash × V)) :
    List (Except String B) → List (HgNodeHash × V) → Except String (List (HgNodeHash × V)) × List B
  | [], map => (.ok map, [])
  | .error e :: _, _ => (.error e, [])
  | .ok item :: rest, map =>
    match upload item with
    | .error e => (.error e, [item])
    | .ok (key, value) =>
      if (mapInsert map key value).2.isNone then
        ((uploadBlobsGo upload rest (mapInsert map key value).1).1,
          item :: (uploadBlobsGo upload rest (mapInsert map key value).1).2)
      else (.error "Blob already provided before", [item])

/-- `upload_blobs`. -/
def uploadBlobs (upload : B → Except String (HgNodeHash × V)) (blobs : List (Except String B)) :
    Except String (List (HgNodeHash × V)) × List B :=
  uploadBlobsGo upload blobs []

/-- The poll at which the fold stops, after a clean prefix that uploaded the
pairs `kvs`: an error of the stream, a failed upload, or an upload whose key
is already in the map. -/
def FailsAt (upload : B → Except String (HgNodeHash × V)) (kvs : List (HgNodeHash × V)) :
    Except String B → String → Prop
  | .error e', e => e = e'
  | .ok item, e => upload item = .error e ∨
      ∃ k v, upload item = .ok (k, v) ∧ k ∈ kvs.map Prod.fst ∧ e = "Blob already provided before"

/-- The items a poll hands to `upload`. -/
def uploadedAt : Except String B → List B
  | .ok item => [item]
  | .error _ => []

/-! ## 2. Inserting -/

theorem mapInsert_of_not_mem {m : List (HgNodeHash × V)} {k : HgNodeHash} (v : V)
    (h : k ∉ m.map Prod.fst) : mapInsert m k v = (m ++ [(k, v)], none) := by
  induction m with
  | nil => rfl
  | cons p m ih =>
    obtain ⟨k', v'⟩ := p
    simp only [List.map_cons, List.mem_cons, not_or] at h
    simp [mapInsert, Ne.symm h.1, ih h.2]

theorem mapInsert_of_mem {m : List (HgNodeHash × V)} {k : HgNodeHash} (v : V)
    (h : k ∈ m.map Prod.fst) : (mapInsert m k v).2.isSome := by
  induction m with
  | nil => cases h
  | cons p m ih =>
    obtain ⟨k', v'⟩ := p
    by_cases hk : k' = k
    · simp [mapInsert, hk]
    · simp only [List.map_cons, List.mem_cons] at h
      simpa [mapInsert, hk] using ih (h.resolve_left (Ne.symm hk))

/-! ## 3. The fold -/

section Fold

variable (upload : B → Except String (HgNodeHash × V))

/-- What one item of the fold can do: its upload fails, its key is already
in the map, or its key is new and the fold goes on from the extended map. -/
theorem uploadBlobsGo_cons_cases (item : B) (rest : List (Except String B))
    (map : List (HgNodeHash × V)) :
    (∃ e, upload item = .error e ∧ uploadBlobsGo upload (.ok item :: rest) map = (.error e, [item])) ∨
    (∃ key value, upload item = .ok (key, value) ∧ key ∈ map.map Prod.fst ∧
      uploadBlobsGo upload (.ok item :: rest) map = (.error "Blob already provided before", [item])) ∨
    (∃ key value, upload item = .ok (key, value) ∧ key ∉ map.map Prod.fst ∧
      uploadBlobsGo upload (.ok item :: rest) map =
        ((uploadBlobsGo upload rest (map ++ [(key, value)])).1,
          item :: (uploadBlobsGo upload rest (map ++ [(key, value)])).2)) := by
  rw [uploadBlobsGo]
  cases hup : upload item with
  | error e => exact .inl ⟨e, rfl, rfl⟩
  | ok kv =>
    obtain ⟨key, value⟩ := kv
    by_cases hk : key ∈ map.map Prod.fst
    · refine .inr (.inl ⟨key, value, rfl, hk, ?_⟩)
      simp only [← Option.not_isSome_iff_eq_none, Option.isNone_iff_eq_none, mapInsert_of_mem value hk,
        not_true, if_false]
    · exact .inr (.inr ⟨key, value, rfl, hk, by simp only [mapInsert_of_not_mem value hk,
        Option.isNone_none, if_true]⟩)

theorem nodup_keys_snoc {map : List (HgNodeHash × V)} {key : HgNodeHash} (value : V)
    (hnodup : (map.map Prod.fst).Nodup) (hk : key ∉ map.map Prod.fst) :
    ((map ++ [(key, value)]).map Prod.fst).Nodup := by
  simpa [List.nodup_append, hnodup] using hk

/-- A stream that starts with `item` is all items, uploaded to `kvs`, exactly
when `item` is uploaded to the head of `kvs` and the rest to its tail. -/
theorem exists_items_cons {P : List (HgNodeHash × V) → Prop} (item : B) (s : List (Except String B)) :
    (∃ (items : List B) (kvs : List (HgNodeHash × V)), Except.ok item :: s = items.map .ok ∧
      items.mapM upload = .ok kvs ∧ P kvs) ↔
    ∃ (kv : HgNodeHash × V) (items : List B) (kvs : List (HgNodeHash × V)),
      upload item = .ok kv ∧ s = items.map .ok ∧ items.mapM upload = .ok kvs ∧ P (kv :: kvs) := by
  constructor
  · rintro ⟨_ | ⟨item', items⟩, kvs, hs, hup, hP⟩
    · cases hs
    · simp only [List.map_cons, List.cons.injEq, Except.ok.injEq] at hs
      obtain ⟨rfl, rfl⟩ := hs
      obtain ⟨kv, kvs, h1, h2, rfl⟩ := mapM_cons_eq_ok.1 hup
      exact ⟨kv, items, kvs, h1, rfl, h2, hP⟩
  · rintro ⟨kv, items, kvs, h1, rfl, h2, hP⟩
    exact ⟨item :: items, kv :: kvs, rfl, mapM_cons_eq_ok.2 ⟨kv, kvs, h1, h2, rfl⟩, hP⟩

theorem uploadBlobsGo_ok : ∀ (s : List (Except String B)) (map m : List (HgNodeHash × V)),
    (map.map Prod.fst).Nodup →
      ((uploadBlobsGo upload s map).1 = .ok m ↔ ∃ (items : List B) (kvs : List (HgNodeHash × V)),
        s = items.map .ok ∧ items.mapM upload = .ok kvs ∧ ((map ++ kvs).map Prod.fst).Nodup ∧
        m = map ++ kvs)
  | [], map, m, hnodup => by
    constructor
    · intro h
      exact ⟨[], [], rfl, rfl, by simpa using hnodup, by simpa [uploadBlobsGo] using h.symm⟩
    · rintro ⟨_ | _, kvs, hs, hup, -, rfl⟩
      · cases hup
        simp [uploadBlobsGo]
      · cases hs
  | .error e :: s, map, m, _ => by
    refine ⟨fun h => (by cases h), ?_⟩
    rintro ⟨items, kvs, hs, -⟩
    cases items <;> cases hs
  | .ok item :: s, map, m, hnodup => by
    rw [exists_items_cons upload item s]
    rcases uploadBlobsGo_cons_cases upload item s map with
      ⟨e, hup, hgo⟩ | ⟨key, value, hup, hk, hgo⟩ | ⟨key, value, hup, hk, hgo⟩ <;> rw [hgo, hup]
    · simp
    · simp only [reduceCtorEq, false_iff, not_exists, not_and]
      rintro _ _ _ ⟨⟩ _ _ hnd _
      simp only [List.map_append, List.map_cons] at hnd
      exact (List.nodup_append.1 hnd).2.2 hk (List.mem_cons_self _ _)
    · simp only [uploadBlobsGo_ok s _ m (nodup_keys_snoc value hnodup hk), Except.ok.injEq,
        exists_and_left, exists_eq_left', List.append_assoc, List.singleton_append]

/-- On a stream of items alone, a successful fold uploads every item. -/
theorem uploadBlobsGo_log : ∀ (items : List B) (map m : List (HgNodeHash × V)),
    (uploadBlobsGo upload (items.map .ok) map).1 = .ok m →
      (uploadBlobsGo upload (items.map .ok) map).2 = items
  | [], _, _, _ => rfl
  | item :: items, map, m, h => by
    rw [List.map_cons] at h ⊢
    rcases uploadBlobsGo_cons_cases upload item (items.map .ok) map with
      ⟨e, -, hgo⟩ | ⟨key, value, -, -, hgo⟩ | ⟨key, value, -, -, hgo⟩ <;> rw [hgo] at h ⊢
    · cases h
    · cases h
    · rw [uploadBlobsGo_log items _ m h]

theorem uploadBlobsGo_error : ∀ (s : List (Except String B)) (map : List (HgNodeHash × V)) (e : String),
    (map.map Prod.fst).Nodup → (uploadBlobsGo upload s map).1 = .error e →
      ∃ (items : List B) (kvs : List (HgNodeHash × V)) (bad : Except String B) (post : List (Except String B)),
        s = items.map .ok ++ bad :: post ∧ items.mapM upload = .ok kvs ∧
        ((map ++ kvs).map Prod.fst).Nodup ∧ FailsAt upload (map ++ kvs) bad e ∧
        (uploadBlobsGo upload s map).2 = items ++ uploadedAt bad
  | [], _, _, _, h => by cases h
  | .error e' :: s, map, e, hnodup, h => by
    cases h
    exact ⟨[], [], .error e', s, rfl, rfl, by simpa using hnodup, rfl, rfl⟩
  | .ok item :: s, map, e, hnodup, h => by
    rcases uploadBlobsGo_cons_cases upload item s map with
      ⟨e', hup, hgo⟩ | ⟨key, value, hup, hk, hgo⟩ | ⟨key, value, hup, hk, hgo⟩ <;> rw [hgo] at h ⊢
    · cases h
      exact ⟨[], [], .ok item, s, rfl, rfl, by simpa using hnodup, .inl hup, rfl⟩
    · cases h
      exact ⟨[], [], .ok item, s, rfl, rfl, by simpa using hnodup,
        .inr ⟨key, value, hup, by simpa using hk, rfl⟩, rfl⟩
    · obtain ⟨items, kvs, bad, post, hs, hmap, hnd, hfail, hlog⟩ :=
        uploadBlobsGo_error s _ e (nodup_keys_snoc value hnodup hk) h
      refine ⟨item :: items, (key, value) :: kvs, bad, post, by rw [hs]; rfl,
        mapM_cons_eq_ok.2 ⟨_, _, hup, hmap, rfl⟩, by simpa using hnd, by simpa using hfail, ?_⟩
      rw [hlog]
      rfl

end Fold

/-! ## 4. `upload_blobs` -/

/-- `upload_blobs` returns `Ok(map)` exactly when every poll yields an item,
every upload succeeds and the keys are pairwise distinct; the map is then
the uploaded pairs, one per item, and every item was uploaded. Otherwise the
stream is a clean prefix and then the first failing poll, whose error is
returned (the stream's, the upload's, or "Blob already provided before"),
and only the prefix and that poll's item were uploaded. -/
theorem uploadBlobs_spec (upload : B → Except String (HgNodeHash × V)) (s : List (Except String B)) :
    (∀ m, (uploadBlobs upload s).1 = .ok m ↔ ∃ items : List B, s = items.map .ok ∧
      items.mapM upload = .ok m ∧ (m.map Prod.fst).Nodup) ∧
    (∀ m, (uploadBlobs upload s).1 = .ok m → ∃ items : List B, s = items.map .ok ∧
      m.length = items.length ∧ (uploadBlobs upload s).2 = items) ∧
    (∀ e, (uploadBlobs upload s).1 = .error e →
      ∃ (items : List B) (kvs : List (HgNodeHash × V)) (bad : Except String B) (post : List (Except String B)),
        s = items.map .ok ++ bad :: post ∧ items.mapM upload = .ok kvs ∧ (kvs.map Prod.fst).Nodup ∧
        FailsAt upload kvs bad e ∧ (uploadBlobs upload s).2 = items ++ uploadedAt bad) := by
  have hok := fun m => uploadBlobsGo_ok upload s [] m List.nodup_nil
  simp only [List.nil_append] at hok
  refine ⟨fun m => ?_, fun m h => ?_, fun e h => ?_⟩
  · rw [uploadBlobs, hok]
    constructor
    · rintro ⟨items, kvs, hs, hup, hnd, rfl⟩
      exact ⟨items, hs, hup, hnd⟩
    · rintro ⟨items, hs, hup, hnd⟩
      exact ⟨items, m, hs, hup, hnd, rfl⟩
  · obtain ⟨items, kvs, rfl, hup, -, rfl⟩ := (hok m).1 h
    exact ⟨items, rfl, length_of_mapM_eq_ok hup, uploadBlobsGo_log upload items [] _ h⟩
  · simpa using uploadBlobsGo_error upload s [] e List.nodup_nil h
end Mononoke.Bundle2Resolver
