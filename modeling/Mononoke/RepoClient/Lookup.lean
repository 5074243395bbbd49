/-
Mononoke.RepoClient.Lookup — `RepoClient::lookup` and `RepoClient::listkeys`
(`repo_client/src/client/mod.rs`): how a client resolves a revision it names
by a hash or by a bookmark, and the bookmarks it is sent.

`lookup` tries its key both as a node hash and as a bookmark name. A hash of
a changeset the repository has answers itself; any other key that is a
bookmark name answers the bookmark's target, or that the bookmark is not
found; a key that is no bookmark name answers `invalid input`. The answer is
`generate_resp_buf`: `1` or `0`, a space, the message, a newline.

`HgNodeHash::from_str` and `Bookmark::new` are not in the source tree: they
are modelled from the spec (forty hexadecimal digits; an ASCII name), as is
the client's reading of the answer. `changeset_exists`, `get_bookmark` and
`get_bookmarks_maybe_stale` are parameters, and each may fail. Timeouts,
tracing and scuba logging are not modelled.

* `lookup_answers_what_key_names`: every answer reads on the client as a flag
  and a message. A success carries the hex of a node that is the node the
  key spells, present in the repository, or the target of the bookmark the
  key names. A failure says `invalid input` only to a key that is not ASCII,
  and otherwise says that the bookmark named by the key is not found, when
  the key spells no node the repository has.
* `lookup_hex_of_answer`: when every bookmark points to a changeset the
  repository has, looking up the hex of a successful answer answers it again.
* `listkeys_lookup_agree`: when the listing agrees with `get_bookmark`,
  `lookup` of a listed bookmark whose name spells no changeset of the
  repository answers the value `listkeys` lists under that name.

## How the proofs go

`lookup_eq_ok` says once what a successful `lookup` can answer, and
`checkBookmarkExists_eq_ok` the same for its bookmark branch; the theorems
read their cases. `fromStr_toHex` is the hex round trip, built digit by digit
(`charHexVal_hexDigit`) as `hexPairs_toHex`, and `toHex_ascii` is why the hex
of a node is also a bookmark name.
-/
import Mononoke.RepoClient.CapsEncoding
import Mononoke.RepoClient.Known

namespace Mononoke.RepoClient

/-! ## 1. Keys -/

/-- A character of an `AsciiString`. -/
def isAsciiChar (c : Char) : Bool := c.toNat < 0x80

/-- Modelled from the spec: a `Bookmark`, whose name is ASCII. -/
structure Bookmark where
  name : String
  ascii : ∀ c ∈ name.data, isAsciiChar c = true

/-- Modelled from the spec: `Bookmark::new(&key).ok()`, the key as a bookmark
when it is ASCII. -/
def Bookmark.new (key : String) : Option Bookmark :=
  if h : ∀ c ∈ key.data, isAsciiChar c = true then some ⟨key, h⟩ else none

/-- `to_digit(16)` on a character; only an ASCII character is a digit. -/
def charHexVal (c : Char) : Option Nat :=
  if isAsciiChar c then hexDigitVal c.toNat.toUInt8 else none

/-- The bytes a string of hexadecimal digits spells, two digits a byte, the
high one first. -/
def hexPairs : List Char → Option (List UInt8)
  | [] => some []
  | [_] => none
  | hi :: lo :: rest => do
    let h ← charHexVal hi
    let l ← charHexVal lo
    let bytes ← hexPairs rest
    pure ((h * 16 + l).toUInt8 :: bytes)

/-- Modelled from the spec: `HgNodeHash::from_str(&key).ok()`, the node whose
forty hexadecimal digits the key is. -/
def HgNodeHash.fromStr (key : String) : Option HgNodeHash :=
  match hexPairs key.data with
  | some bytes => if h : bytes.length = 20 then some ⟨bytes, h⟩ else none
  | none => none

/-! ## 2. The commands -/

/-- `generate_resp_buf`: `1` on success and `0` otherwise, a space, the
message and a newline. -/
def generateRespBuf (success : Bool) (message : List UInt8) : List UInt8 :=
  (if success then 0x31 else 0x30) :: 0x20 :: (message ++ [0x0A])

/-- `csid.to_hex().as_bytes()`. -/
def hexBytes (node : HgNodeHash) : List UInt8 := charsBytes (HgNodeHash.toHex node).data

section Lookup

variable (changesetExists : HgNodeHash → Except String Bool)
  (getBookmark : Bookmark → Except String (Option HgNodeHash))

/-- `check_bookmark_exists`. -/
def checkBookmarkExists (bookmark : Bookmark) : Except String (List UInt8) :=
  (getBookmark bookmark).map fun
    | some csid => generateRespBuf true (hexBytes csid)
    | none => generateRespBuf false (charsBytes (bookmark.name ++ " not found").data)

/-- `RepoClient::lookup`. -/
def lookup (key : String) : Except String (List UInt8) :=
  match HgNodeHash.fromStr key, Bookmark.new key with
  | some node, some bookmark => do
    if (← changesetExists node) then pure (generateRespBuf true (hexBytes node))
    else checkBookmarkExists getBookmark bookmark
  | none, some bookmark => checkBookmarkExists getBookmark bookmark
  | _, _ => pure (generateRespBuf false (charsBytes "invalid input".data))

end Lookup

/-- `RepoClient::listkeys`: under `bookmarks`, the bytes of each bookmark's
name against the hex of its target; under any other namespace, nothing. -/
def listkeys (getBookmarksMaybeStale : Except String (List (Bookmark × HgNodeHash)))
    (nspace : String) : Except String (List UInt8 → Option (List UInt8)) :=
  if nspace = "bookmarks" then
    getBookmarksMaybeStale.map
      (hashMapOf (fun p => charsBytes p.1.name.data) (fun p => hexBytes p.2))
  else pure fun _ => none

/-- Modelled from the spec: how a client reads a `lookup` answer, the flag
before the first space and the message after it, up to the last byte. -/
def parseLookupResponse (response : List UInt8) : Option (Bool × List UInt8) :=
  match response.dropLast with
  | flag :: sep :: message =>
    if sep = 0x20 ∧ flag = 0x31 then some (true, message)
    else if sep = 0x20 ∧ flag = 0x30 then some (false, message)
    else none
  | _ => none

/-! ## 3. Keys and the hex round trip -/

theorem Bookmark.name_inj {a b : Bookmark} (h : a.name = b.name) : a = b := by
  cases a; cases b; cases h; rfl

theorem Bookmark.new_eq_some {key : String} {bookmark : Bookmark}
    (h : Bookmark.new key = some bookmark) : bookmark.name = key := by
  unfold Bookmark.new at h
  split_ifs at h
  cases h; rfl

theorem Bookmark.new_eq_none {key : String} (h : Bookmark.new key = none) :
    ∃ c ∈ key.data, isAsciiChar c = false := by
  unfold Bookmark.new at h
  split_ifs at h with hall
  push_neg at hall
  simpa using hall

theorem Bookmark.new_name (bookmark : Bookmark) : Bookmark.new bookmark.name = some bookmark :=
  dif_pos bookmark.ascii

theorem charsBytes_inj {a b : List Char} (h : charsBytes a = charsBytes b) : a = b := by
  have := fromUtf8_charsBytes a
  rw [h, fromUtf8_charsBytes, Option.some.injEq] at this
  exact congrArg String.data this.symm

theorem charHexVal_hexDigit : ∀ n < 16, charHexVal (hexDigit n) = some n := by
  decide

theorem isAsciiChar_hexDigit : ∀ n < 16, isAsciiChar (hexDigit n) = true := by
  decide

/-- Two digits a byte, the digits `toHex` writes read back as the bytes. -/
theorem hexPairs_toHex : ∀ bytes : List UInt8,
    hexPairs (bytes.flatMap fun b => [hexDigit (b.toNat / 16), hexDigit (b.toNat % 16)]) =
      some bytes
  | [] => rfl
  | b :: rest => by
    have hlt : b.toNat < 256 := b.toNat_lt_size
    have hbyte : (b.toNat / 16 * 16 + b.toNat % 16).toUInt8 = b := by
      rw [Nat.div_add_mod']
      exact uint8_eq_iff.2 (UInt8.toNat_ofNat_of_lt hlt)
    rw [List.flatMap_cons, List.cons_append, List.cons_append, List.nil_append]
    simp [hexPairs, charHexVal_hexDigit _ (by omega : b.toNat / 16 < 16),
      charHexVal_hexDigit _ (by omega : b.toNat % 16 < 16), hexPairs_toHex rest, hbyte]

/-- The hex of a node spells the node. -/
theorem fromStr_toHex (node : HgNodeHash) :
    HgNodeHash.fromStr (HgNodeHash.toHex node) = some node := by
  simp [HgNodeHash.fromStr, HgNodeHash.toHex, hexPairs_toHex, node.length_bytes]

theorem toHex_ascii (node : HgNodeHash) :
    ∀ c ∈ (HgNodeHash.toHex node).data, isAsciiChar c = true := by
  simp only [HgNodeHash.toHex, List.mem_flatMap, List.mem_cons, List.mem_singleton,
    List.not_mem_nil, or_false]
  rintro c ⟨b, -, rfl | rfl⟩
  · exact isAsciiChar_hexDigit _ (by have : b.toNat < 256 := b.toNat_lt_size; omega)
  · exact isAsciiChar_hexDigit _ (Nat.mod_lt _ (by decide))

theorem fromUtf8_hexBytes (node : HgNodeHash) :
    fromUtf8 (hexBytes node) = some (HgNodeHash.toHex node) :=
  fromUtf8_charsBytes _

theorem hexBytes_inj {a b : HgNodeHash} (h : hexBytes a = hexBytes b) : a = b := by
  have := fromUtf8_hexBytes a
  rw [h, fromUtf8_hexBytes, Option.some.injEq] at this
  simpa [fromStr_toHex] using (congrArg HgNodeHash.fromStr this).symm

/-! ## 4. The answer -/

@[simp] theorem parseLookupResponse_generateRespBuf (success : Bool) (message : List UInt8) :
    parseLookupResponse (generateRespBuf success message) = some (success, message) := by
  simp only [parseLookupResponse, generateRespBuf, ← List.cons_append, List.dropLast_concat]
  cases success <;> simp

theorem generateRespBuf_inj {s s' : Bool} {m m' : List UInt8}
    (h : generateRespBuf s m = generateRespBuf s' m') : s = s' ∧ m = m' := by
  simpa using congrArg parseLookupResponse h

section Lookup

variable {changesetExists : HgNodeHash → Except String Bool}
  {getBookmark : Bookmark → Except String (Option HgNodeHash)}

theorem checkBookmarkExists_eq_ok {bookmark : Bookmark} {response : List UInt8}
    (h : checkBookmarkExists getBookmark bookmark = .ok response) :
    (∃ csid, getBookmark bookmark = .ok (some csid) ∧
      response = generateRespBuf true (hexBytes csid)) ∨
    (getBookmark bookmark = .ok none ∧
      response = generateRespBuf false (charsBytes (bookmark.name ++ " not found").data)) := by
  unfold checkBookmarkExists at h
  rcases hb : getBookmark bookmark with _ | _ | csid <;> rw [hb] at h <;> cases h
  · exact .inr ⟨rfl, rfl⟩
  · exact .inl ⟨csid, rfl, rfl⟩

/-- What a successful `lookup` can answer: `invalid input` to a key that is no
bookmark name, a node the key spells and the repository has, or what
`check_bookmark_exists` answers for the key when it spells no such node. -/
theorem lookup_eq_ok {key : String} {response : List UInt8}
    (h : lookup changesetExists getBookmark key = .ok response) :
    (Bookmark.new key = none ∧
      response = generateRespBuf false (charsBytes "invalid input".data)) ∨
    (∃ node, HgNodeHash.fromStr key = some node ∧ changesetExists node = .ok true ∧
      response = generateRespBuf true (hexBytes node)) ∨
    (∃ bookmark, Bookmark.new key = some bookmark ∧
      (∀ node, HgNodeHash.fromStr key = some node → changesetExists node = .ok false) ∧
      checkBookmarkExists getBookmark bookmark = .ok response) := by
  unfold lookup at h
  rcases hn : HgNodeHash.fromStr key with _ | node <;>
    rcases hb : Bookmark.new key with _ | bookmark <;> simp only [hn, hb] at h
  · exact .inl ⟨rfl, (Except.ok.inj h).symm⟩
  · exact .inr (.inr ⟨bookmark, rfl, by simp, h⟩)
  · exact .inl ⟨rfl, (Except.ok.inj h).symm⟩
  · rcases he : changesetExists node with _ | _ | _ <;> rw [he] at h
    · cases h
    · exact .inr (.inr ⟨bookmark, rfl, fun n hn' => by cases hn'; exact he, h⟩)
    · exact .inr (.inl ⟨node, rfl, he, (Except.ok.inj h).symm⟩)

/-- A changeset the repository has is looked up by its hex as itself. -/
theorem lookup_toHex {node : HgNodeHash} (h : changesetExists node = .ok true) :
    lookup changesetExists getBookmark (HgNodeHash.toHex node) =
      .ok (generateRespBuf true (hexBytes node)) := by
  simp [lookup, fromStr_toHex, Bookmark.new, dif_pos (toHex_ascii node), h, bind, Except.bind,
    pure, Except.pure]

/-- A bookmark whose name spells no changeset of the repository is looked up
as the bookmark. -/
theorem lookup_bookmark {bookmark : Bookmark}
    (hnot : ∀ n, HgNodeHash.fromStr bookmark.name = some n → changesetExists n = .ok false) :
    lookup changesetExists getBookmark bookmark.name =
      checkBookmarkExists getBookmark bookmark := by
  unfold lookup
  rw [Bookmark.new_name]
  rcases hn : HgNodeHash.fromStr bookmark.name with _ | n
  · rfl
  · simp [hnot n hn, bind, Except.bind]

end Lookup

/-! ## 5. What a lookup answers -/

section Answers

variable (changesetExists : HgNodeHash → Except String Bool)
  (getBookmark : Bookmark → Except String (Option HgNodeHash))

/-- What the answer to `key` says, read as the client reads it: a flag and a
message; on success the hex of the node the key spells, present in the
repository, or of the target of the bookmark the key names; on failure
`invalid input` to a key that is not ASCII, or that the bookmark the key
names is not found, when the key spells no node the repository has. -/
def AnswersKey (key : String) (response : List UInt8) : Prop :=
  ∃ success message, parseLookupResponse response = some (success, message) ∧
    (success = true → ∃ node, (fromUtf8 message).bind HgNodeHash.fromStr = some node ∧
      ((HgNodeHash.fromStr key = some node ∧ changesetExists node = .ok true) ∨
        ∃ bookmark, bookmark.name = key ∧ getBookmark bookmark = .ok (some node))) ∧
    (success = false →
      ((∃ c ∈ key.data, isAsciiChar c = false) ∧ message = charsBytes "invalid input".data) ∨
      ((∀ node, HgNodeHash.fromStr key = some node → changesetExists node = .ok false) ∧
        ∃ bookmark, bookmark.name = key ∧ getBookmark bookmark = .ok none ∧
          message = charsBytes (key ++ " not found").data))

theorem lookup_answers_what_key_names (key : String) (response : List UInt8)
    (h : lookup changesetExists getBookmark key = .ok response) :
    AnswersKey changesetExists getBookmark key response := by
  have hread : ∀ node, (fromUtf8 (hexBytes node)).bind HgNodeHash.fromStr = some node := by
    simp [fromUtf8_hexBytes, fromStr_toHex]
  rcases lookup_eq_ok h with ⟨hb, rfl⟩ | ⟨node, hn, he, rfl⟩ | ⟨bookmark, hb, hnot, hc⟩
  · exact ⟨false, _, parseLookupResponse_generateRespBuf _ _, by simp,
      fun _ => .inl ⟨Bookmark.new_eq_none hb, rfl⟩⟩
  · exact ⟨true, _, parseLookupResponse_generateRespBuf _ _,
      fun _ => ⟨node, hread node, .inl ⟨hn, he⟩⟩, by simp⟩
  · have hname := Bookmark.new_eq_some hb
    rcases checkBookmarkExists_eq_ok hc with ⟨csid, hg, rfl⟩ | ⟨hg, rfl⟩
    · exact ⟨true, _, parseLookupResponse_generateRespBuf _ _,
        fun _ => ⟨csid, hread csid, .inr ⟨bookmark, hname, hg⟩⟩, by simp⟩
    · exact ⟨false, _, parseLookupResponse_generateRespBuf _ _, by simp,
        fun _ => .inr ⟨hnot, bookmark, hname, hg, by rw [hname]⟩⟩

theorem lookup_answers_master :
    lookup (fun _ => .ok false) (fun _ => .ok (some (HgNodeHash.ofByte 1))) "master" =
      .ok (generateRespBuf true (hexBytes (HgNodeHash.ofByte 1))) ∧
    AnswersKey (fun _ => .ok false) (fun _ => .ok (some (HgNodeHash.ofByte 1))) "master"
      (generateRespBuf true (hexBytes (HgNodeHash.ofByte 1))) :=
  ⟨rfl, lookup_answers_what_key_names (fun _ => .ok false)
    (fun _ => .ok (some (HgNodeHash.ofByte 1))) "master" _ rfl⟩

theorem lookup_hex_of_answer
    (htargets : ∀ bookmark node, getBookmark bookmark = .ok (some node) →
      changesetExists node = .ok true)
    (key : String) (node : HgNodeHash)
    (h : lookup changesetExists getBookmark key = .ok (generateRespBuf true (hexBytes node))) :
    lookup changesetExists getBookmark (HgNodeHash.toHex node) =
      .ok (generateRespBuf true (hexBytes node)) := by
  apply lookup_toHex
  rcases lookup_eq_ok h with ⟨-, hr⟩ | ⟨n, -, he, hr⟩ | ⟨bookmark, -, -, hc⟩
  · exact absurd (generateRespBuf_inj hr).1 (by decide)
  · rwa [← hexBytes_inj (generateRespBuf_inj hr).2] at he
  · rcases checkBookmarkExists_eq_ok hc with ⟨csid, hg, hr⟩ | ⟨-, hr⟩
    · rw [hexBytes_inj (generateRespBuf_inj hr).2]
      exact htargets _ _ hg
    · exact absurd (generateRespBuf_inj hr).1 (by decide)

theorem lookup_hex_of_answer_master :
    (∀ bookmark node,
      (fun _ => .ok (some (HgNodeHash.ofByte 1)) : Bookmark → Except String (Option HgNodeHash))
          bookmark = .ok (some node) →
        (fun n => .ok (n = HgNodeHash.ofByte 1) : HgNodeHash → Except String Bool) node =
          .ok true) ∧
    lookup (fun n => .ok (n = HgNodeHash.ofByte 1)) (fun _ => .ok (some (HgNodeHash.ofByte 1)))
        "master" = .ok (generateRespBuf true (hexBytes (HgNodeHash.ofByte 1))) ∧
    lookup (fun n => .ok (n = HgNodeHash.ofByte 1)) (fun _ => .ok (some (HgNodeHash.ofByte 1)))
        (HgNodeHash.toHex (HgNodeHash.ofByte 1)) =
      .ok (generateRespBuf true (hexBytes (HgNodeHash.ofByte 1))) :=
  have htargets : ∀ bookmark node,
      (fun _ => .ok (some (HgNodeHash.ofByte 1)) : Bookmark → Except String (Option HgNodeHash))
          bookmark = .ok (some node) →
        (fun n => .ok (n = HgNodeHash.ofByte 1) : HgNodeHash → Except String Bool) node =
          .ok true := by
    rintro _ _ ⟨⟩; rfl
  ⟨htargets, rfl, lookup_hex_of_answer _ _ htargets "master" _ rfl⟩

theorem listkeys_lookup_agree (bookmarks : List (Bookmark × HgNodeHash))
    (hlist : ∀ bookmark node, (bookmark, node) ∈ bookmarks →
      getBookmark bookmark = .ok (some node))
    (bookmark : Bookmark) (node : HgNodeHash) (hmem : (bookmark, node) ∈ bookmarks)
    (hnot : ∀ n, HgNodeHash.fromStr bookmark.name = some n → changesetExists n = .ok false) :
    ∃ keys value, listkeys (.ok bookmarks) "bookmarks" = .ok keys ∧
      keys (charsBytes bookmark.name.data) = some value ∧
      lookup changesetExists getBookmark bookmark.name = .ok (generateRespBuf true value) := by
  -- every listed pair under the bookmark's name carries the bookmark's target
  have htarget : ∀ p ∈ bookmarks, charsBytes p.1.name.data = charsBytes bookmark.name.data →
      p.2 = node := by
    rintro ⟨b, n⟩ hp hk
    cases Bookmark.name_inj (String.ext (charsBytes_inj hk))
    simpa [hlist _ _ hmem] using (hlist _ _ hp).symm
  obtain ⟨v, hv⟩ := Option.isSome_iff_exists.1
    ((hashMapOf_isSome (fun p : Bookmark × HgNodeHash => charsBytes p.1.name.data)
      (fun p => hexBytes p.2) bookmarks _).2 ⟨(bookmark, node), hmem, rfl⟩)
  obtain ⟨p, hp, hk, rfl⟩ := hashMapOf_eq_some _ _ hv
  refine ⟨_, _, by rw [listkeys, if_pos rfl]; rfl, hv, ?_⟩
  rw [lookup_bookmark hnot, checkBookmarkExists, hlist _ _ hmem, htarget p hp hk]
  rfl

theorem listkeys_lookup_agree_master :
    (∀ bookmark node,
      (bookmark, node) ∈ [((⟨"master", by decide⟩ : Bookmark), HgNodeHash.ofByte 1)] →
        (fun _ => .ok (some (HgNodeHash.ofByte 1)) : Bookmark → Except String (Option HgNodeHash))
          bookmark = .ok (some node)) ∧
    ∃ keys value,
      listkeys (.ok [((⟨"master", by decide⟩ : Bookmark), HgNodeHash.ofByte 1)]) "bookmarks" =
        .ok keys ∧ keys (charsBytes "master".data) = some value ∧
      lookup (fun _ => .ok false) (fun _ => .ok (some (HgNodeHash.ofByte 1))) "master" =
        .ok (generateRespBuf true value) :=
  have hlist : ∀ bookmark node,
      (bookmark, node) ∈ [((⟨"master", by decide⟩ : Bookmark), HgNodeHash.ofByte 1)] →
        (fun _ => .ok (some (HgNodeHash.ofByte 1)) : Bookmark → Except String (Option HgNodeHash))
          bookmark = .ok (some node) := by
    rintro _ _ h
    rw [List.mem_singleton, Prod.mk.injEq] at h
    rw [h.2]
  ⟨hlist, listkeys_lookup_agree (fun _ => .ok false) _ _ hlist ⟨"master", by decide⟩ _
    (List.mem_singleton_self _) fun _ _ => rfl⟩

end Answers

end Mononoke.RepoClient
