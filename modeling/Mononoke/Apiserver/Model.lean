/-
Mononoke.Apiserver.Model — the `Changeset` the read-only HTTP API returns
for `GET /{repo}/changeset/{hash}` (`apiserver/src/actor/model.rs`), built
from a changeset by `TryFrom<HgBlobChangeset>`.

The conversion decodes the comment and the author with `str::from_utf8`,
which fails on bytes that are not UTF-8, and the keys of the changeset's
`extra` map with `String::from_utf8_lossy`, collecting the pairs into a
`BTreeMap<String, Vec<u8>>`. A map built by inserting pairs in order is
`hashMapOf` (`Mononoke.RepoClient.Known`): a later pair overwrites an
earlier one with the same key. The `date` field is not modelled.

* `changeset_tryFrom`: the conversion succeeds exactly when the comment and
  the author are UTF-8, and then returns them as they are; each string of
  the `extra` field holds the value of the last entry, in the changeset's
  key order, whose key decodes to it. Two keys that are not UTF-8 can decode
  to the same string, and the earlier entry is then not returned.
* `changeset_extra_of_valid`: when every key is UTF-8, every entry is
  returned under its key.

## How the proofs go

`hashMapOf_eq_getLast` says what a map built by inserts holds, and
`hashMapOf_eq_some_iff` that with distinct keys it holds each pair;
`fromUtf8_eq_some_iff` and `flatMap_fromUtf8Lossy` (`Mononoke.RepoClient.Utf8`)
say that decoding is undone by encoding on UTF-8 bytes, so lossy decoding
is injective on them and distinct UTF-8 keys stay distinct.
-/
import Mathlib.Data.List.Nodup
import Mononoke.RepoClient.Utf8
import Mononoke.RepoClient.Known

namespace Mononoke.Apiserver

open Mononoke.RepoClient

/-! ## 1. The conversion -/

/-- The fields of `HgBlobChangeset` the conversion reads. `extra()` is a
`BTreeMap`, listed in its iteration order; its keys are distinct. -/
structure HgBlobChangeset where
  changesetId : HgNodeHash
  manifestid : HgNodeHash
  comments : List UInt8
  user : List UInt8
  p1 : Option HgNodeHash
  p2 : Option HgNodeHash
  extra : List (List UInt8 × List UInt8)
  extra_nodup : (extra.map Prod.fst).Nodup

/-- `str::Utf8Error`; the position it reports is not modelled. -/
structure Utf8Error where

/-- `str::from_utf8`. -/
def strFromUtf8 (bytes : List UInt8) : Except Utf8Error String :=
  match fromUtf8 bytes with
  | some s => .ok s
  | none => .error ⟨⟩

/-- The fields of the API's `Changeset` but `date`. -/
structure Changeset where
  commitHash : String
  manifest : String
  comment : String
  author : String
  parents : List String
  extra : String → Option (List UInt8)

/-- The `extra` field: each key decoded by `String::from_utf8_lossy`, the
pairs collected into a map. -/
def changesetExtra (extra : List (List UInt8 × List UInt8)) : String → Option (List UInt8) :=
  hashMapOf (fun kv => String.mk (fromUtf8Lossy kv.1)) Prod.snd extra

/-- `TryFrom<HgBlobChangeset> for Changeset`. -/
def Changeset.tryFrom (changeset : HgBlobChangeset) : Except Utf8Error Changeset := do
  let commitHash := HgNodeHash.toHex changeset.changesetId
  let manifest := HgNodeHash.toHex changeset.manifestid
  let comment ← strFromUtf8 changeset.comments
  let author ← strFromUtf8 changeset.user
  let parents := [changeset.p1, changeset.p2].filterMap fun p => p.map HgNodeHash.toHex
  pure ⟨commitHash, manifest, comment, author, parents, changesetExtra changeset.extra⟩

/-! ## 2. What the conversion returns -/

theorem strFromUtf8_eq_ok {bytes : List UInt8} {s : String} :
    strFromUtf8 bytes = .ok s ↔ s.data.flatMap String.utf8EncodeChar = bytes := by
  rw [← fromUtf8_eq_some_iff, strFromUtf8]
  cases fromUtf8 bytes <;> simp

theorem strFromUtf8_isOk (bytes : List UInt8) :
    (∃ s, strFromUtf8 bytes = .ok s) ↔ utf8Valid bytes = true := by
  simp only [strFromUtf8_eq_ok]
  exact ⟨fun ⟨s, hs⟩ => hs ▸ (fromUtf8Lossy_flatMap_utf8EncodeChar s.data).2,
    fun h => ⟨⟨fromUtf8Lossy bytes⟩, flatMap_fromUtf8Lossy bytes h⟩⟩

theorem tryFrom_eq_ok {changeset : HgBlobChangeset} {c : Changeset} :
    Changeset.tryFrom changeset = .ok c ↔ ∃ comment author,
      strFromUtf8 changeset.comments = .ok comment ∧ strFromUtf8 changeset.user = .ok author ∧
      c = ⟨HgNodeHash.toHex changeset.changesetId, HgNodeHash.toHex changeset.manifestid, comment, author,
        [changeset.p1, changeset.p2].filterMap (fun p => p.map HgNodeHash.toHex),
        changesetExtra changeset.extra⟩ := by
  rw [Changeset.tryFrom]
  cases strFromUtf8 changeset.comments <;> cases strFromUtf8 changeset.user <;>
    simp [bind, Except.bind, pure, Except.pure, eq_comm]

/-- The conversion succeeds exactly when the comment and the author are
UTF-8, and returns them as they are; each string of the `extra` field holds
the value of the last entry whose key decodes to it. -/
theorem changeset_tryFrom (changeset : HgBlobChangeset) :
    ((∃ c, Changeset.tryFrom changeset = .ok c) ↔
      utf8Valid changeset.comments = true ∧ utf8Valid changeset.user = true) ∧
    ∀ c, Changeset.tryFrom changeset = .ok c →
      c.comment.data.flatMap String.utf8EncodeChar = changeset.comments ∧
      c.author.data.flatMap String.utf8EncodeChar = changeset.user ∧
      ∀ s, c.extra s = ((changeset.extra.filter fun kv => String.mk (fromUtf8Lossy kv.1) = s).getLast?).map
        Prod.snd := by
  refine ⟨?_, fun c h => ?_⟩
  · rw [← strFromUtf8_isOk, ← strFromUtf8_isOk]
    simp only [tryFrom_eq_ok]
    constructor
    · rintro ⟨_, comment, author, hc, ha, -⟩
      exact ⟨⟨comment, hc⟩, ⟨author, ha⟩⟩
    · rintro ⟨⟨comment, hc⟩, ⟨author, ha⟩⟩
      exact ⟨_, comment, author, hc, ha, rfl⟩
  · obtain ⟨comment, author, hc, ha, rfl⟩ := tryFrom_eq_ok.1 h
    exact ⟨strFromUtf8_eq_ok.1 hc, strFromUtf8_eq_ok.1 ha,
      fun s => hashMapOf_eq_getLast _ _ _ s⟩

/-- Two keys that are not UTF-8 decode to `U+FFFD`, and only the later
entry is returned. -/
example : (Changeset.tryFrom ⟨NULL_HASH, NULL_HASH, [], [], none, none,
    [([0xFE], [1]), ([0xFF], [2])], by decide⟩).map (fun c => c.extra "�") = .ok (some [2]) := by
  rfl

/-- On UTF-8 bytes lossy decoding is injective. -/
theorem fromUtf8Lossy_inj {a b : List UInt8} (ha : utf8Valid a = true) (hb : utf8Valid b = true)
    (h : fromUtf8Lossy a = fromUtf8Lossy b) : a = b := by
  rw [← flatMap_fromUtf8Lossy a ha, ← flatMap_fromUtf8Lossy b hb, h]

/-- When every key of `extra` is UTF-8, every entry is returned under its
key. -/
theorem changeset_extra_of_valid (changeset : HgBlobChangeset) (c : Changeset)
    (h : Changeset.tryFrom changeset = .ok c)
    (hvalid : ∀ kv ∈ changeset.extra, utf8Valid kv.1 = true) :
    ∀ k v, (k, v) ∈ changeset.extra → c.extra (String.mk (fromUtf8Lossy k)) = some v := by
  intro k v hkv
  obtain ⟨comment, author, -, -, rfl⟩ := tryFrom_eq_ok.1 h
  -- distinct UTF-8 keys decode to distinct strings
  have hinj : ∀ x ∈ changeset.extra, ∀ y ∈ changeset.extra,
      String.mk (fromUtf8Lossy x.1) = String.mk (fromUtf8Lossy y.1) → x = y := fun x hx y hy he =>
    List.inj_on_of_nodup_map changeset.extra_nodup hx hy
      (fromUtf8Lossy_inj (hvalid x hx) (hvalid y hy) (String.ext_iff.1 he))
  exact (hashMapOf_eq_some_iff _ _ ((changeset.extra_nodup.of_map _).map_on hinj) _ _).2
    ⟨(k, v), hkv, rfl, rfl⟩

/-- A changeset whose extra keys are `a` and `é`: both entries are
returned. -/
theorem changeset_extra_of_valid_two_keys :
    ∃ c, Changeset.tryFrom ⟨NULL_HASH, NULL_HASH, [], [], none, none,
        [([0x61], [1]), ([0xC3, 0xA9], [2])], by decide⟩ = .ok c ∧
      (∀ kv ∈ [(([0x61] : List UInt8), ([1] : List UInt8)), ([0xC3, 0xA9], [2])], utf8Valid kv.1 = true) ∧
      c.extra (String.mk (fromUtf8Lossy [0x61])) = some [1] ∧
      c.extra (String.mk (fromUtf8Lossy [0xC3, 0xA9])) = some [2] :=
  have h := changeset_extra_of_valid
    ⟨NULL_HASH, NULL_HASH, [], [], none, none, [([0x61], [1]), ([0xC3, 0xA9], [2])], by decide⟩ _ rfl
    (by decide)
  ⟨_, rfl, by decide, h [0x61] [1] (List.mem_cons_self _ _),
    h [0xC3, 0xA9] [2] (List.mem_cons_of_mem _ (List.mem_singleton_self _))⟩

end Mononoke.Apiserver
