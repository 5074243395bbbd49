/-
Mononoke.RepoClient.CapsEncoding — the encoding `parse_utf8_getbundle_caps`
reads (`repo_client/src/client/mod.rs`), and the one `bundle2caps` writes for
`hello`.

The doc comment above the parser documents two layers. A capability is a
line, its name and, when it has values, `=` and the values separated by
commas (`capChunk`); every part is percent-encoded, then the lines are
joined by newlines and the whole value is percent-encoded again
(`encodeGetbundleCaps`). `bundle2caps` writes the same lines with no inner
encoding, and percent-encodes them once. `percent_encode` lives in
`mercurial_types::utils`, which is not part of this source: it is
`percentEncode` on the bytes `esc` selects, and everything below holds for
every `esc` that escapes at least `%`, `=`, `,`, the newline and every
non-ASCII byte (`EscapesReserved`).

* `parseUtf8GetbundleCaps_encode`: for a name without `=` and a nonempty map
  with distinct capability names, the parser returns the name and exactly
  the map's capabilities, each with exactly its values. The empty map is the
  exception (`parseCaps_empty_value`).
* `usePhases_first_bundle2`: `create_bundle` sends phases to a `getbundle`
  that asks for them exactly when the first `bundle2` entry of its
  `bundlecaps` with a `phases` capability lists `heads`; so a client that
  sends back what `hello` advertises gets them.

## How the proofs go

The value is cut into lines, one per capability, as the parser's loop cuts
it, in the manner of a chunked lexer round trip. `ChunkOk` names what the
parser needs of one line, and `parseCap_capChunk` reads one such line;
`foldlM_parseCap` folds it along the map, and
`parseUtf8GetbundleCaps_lines` adds the outer layer. The round trip is that
lemma with percent-encoding inside (`chunkOk_percentEncodeStr`); lines with
no inner encoding, as `bundle2caps` writes them, are read by `chunkOk_data`.
-/
import Mononoke.RepoClient.Utf8
import Mononoke.RepoClient.GetbundleCaps

namespace Mononoke.RepoClient

/-! ## 1. Percent-encoding -/

/-- An uppercase hexadecimal digit, as `percent_encoding` writes it. -/
def hexUpper (n : Nat) : UInt8 :=
  if n < 10 then (0x30 + n).toUInt8 else (0x37 + n).toUInt8

/-- Modelled from the spec: percent-encoding of the bytes `esc` selects, each
written `%XY`. -/
def percentEncode (esc : UInt8 → Bool) : List UInt8 → List UInt8
  | [] => []
  | b :: rest =>
    if esc b then 0x25 :: hexUpper (b.toNat / 16) :: hexUpper (b.toNat % 16) :: percentEncode esc rest
    else b :: percentEncode esc rest

/-- Modelled from the spec: the percent-encoding of a string, itself a string. -/
def percentEncodeStr (esc : UInt8 → Bool) (s : String) : List Char :=
  (percentEncode esc (charsBytes s.data)).map fun b => Char.ofNat b.toNat

/-- Modelled from the spec: the encoding escapes at least `%`, `=`, `,`, the
newline and every byte of a non-ASCII character. -/
structure EscapesReserved (esc : UInt8 → Bool) : Prop where
  percent : esc 0x25 = true
  equals : esc 0x3D = true
  comma : esc 0x2C = true
  newline : esc 0x0A = true
  nonAscii : ∀ b : UInt8, 0x80 ≤ b.toNat → esc b = true

/-- The fewest bytes an encoding may escape. -/
def reservedEsc (b : UInt8) : Bool :=
  b == 0x25 || b == 0x3D || b == 0x2C || b == 0x0A || 0x80 ≤ b

theorem escapesReserved_reservedEsc : EscapesReserved reservedEsc :=
  ⟨rfl, rfl, rfl, rfl, fun b hb => by
    have h : (0x80 : UInt8) ≤ b := uint8_le_iff.2 hb
    simp [reservedEsc, h]⟩

/-! ## 2. The capability lines -/

/-- One capability as a line: its name and, when it has values, `=` and the
values separated by commas, each part written by `enc`. With `enc` the
identity this is the loop body of `bundle2caps`; with percent-encoding it is
the documented inner layer. -/
def capChunk (enc : String → List Char) : String × List String → List Char
  | (k, []) => enc k
  | (k, v :: vs) => enc k ++ '=' :: [','].intercalate ((v :: vs).map enc)

/-- Modelled from the spec: the `bundlecaps` entry `s=q(line₁\nline₂…)` that
gives the capability `s` the map `M`. -/
def encodeGetbundleCaps (esc : UInt8 → Bool) (s : String) (M : List (String × List String)) :
    List UInt8 :=
  charsBytes s.data ++ 0x3D ::
    percentEncode esc (charsBytes (['\n'].intercalate (M.map (capChunk (percentEncodeStr esc)))))

/-- The capabilities `bundle2caps` lists, with their values. -/
def bundle2capsList : List (String × List String) :=
  [("HG20", []), ("changegroup", ["02"]), ("b2x:infinitepush", []),
    ("b2x:infinitepushscratchbookmarks", []), ("pushkey", []), ("treemanifestserver", ["True"]),
    ("b2x:rebase", []), ("b2x:rebasepackpart", []), ("phases", ["heads"])]

/-- `bundle2caps`: the lines joined by newlines, then `percent_encode`. -/
def bundle2caps (esc : UInt8 → Bool) : String :=
  ⟨percentEncodeStr esc ⟨['\n'].intercalate (bundle2capsList.map (capChunk String.data))⟩⟩

/-- The capability `hello` adds after `wireprotocaps`: `format!("bundle2={}", bundle2caps())`. -/
def helloBundle2Cap (esc : UInt8 → Bool) : String :=
  "bundle2=" ++ bundle2caps esc

/-- `parse_utf8_getbundle_caps` reads the name `s` and the capabilities `M`:
no other name, and each name of `M` with exactly its values. -/
def ParsesTo (caps : List UInt8) (s : String) (M : List (String × List String)) : Prop :=
  ∃ ans : CapsMap, parseUtf8GetbundleCaps caps = some (s, ans) ∧
    (∀ k, k ∉ M.map Prod.fst → ans k = none) ∧
    ∀ k V, (k, V) ∈ M → ∃ W, ans k = some W ∧ ∀ v, v ∈ W ↔ v ∈ V

/-! ## 3. Decoding and splitting -/

theorem fromUtf8_charsBytes (cs : List Char) : fromUtf8 (charsBytes cs) = some ⟨cs⟩ :=
  fromUtf8_flatMap_utf8EncodeChar ⟨cs⟩

/-- An ASCII byte is in the bytes of a string only if its character is. -/
theorem not_mem_charsBytes {c : Char} {cs : List Char} (hc : c ∉ cs) {x : UInt8}
    (hx : x.toNat < 0x80) (hxc : Char.ofNat x.toNat = c) : x ∉ charsBytes cs := fun h => by
  obtain ⟨d, hd, hxd⟩ := List.mem_flatMap.1 h
  rw [eq_ofNat_of_mem_utf8EncodeChar hxd hx, hxc] at hd
  exact hc hd

theorem hexDigitVal_hexUpper : ∀ n : Fin 16, hexDigitVal (hexUpper n) = some n := by
  decide

theorem percentDecode_plain {b : UInt8} (hb : b ≠ 0x25) (rest : List UInt8) :
    percentDecode (b :: rest) = b :: percentDecode rest := by
  rw [percentDecode.eq_def]
  simp only [hb, if_false]

theorem percentDecode_escape {h l : UInt8} {hv lv : Nat} (hh : hexDigitVal h = some hv)
    (hl : hexDigitVal l = some lv) (rest : List UInt8) :
    percentDecode (0x25 :: h :: l :: rest) = (hv * 16 + lv).toUInt8 :: percentDecode rest := by
  simp [percentDecode, hh, hl]

/-- Bytes without `%` decode to themselves. -/
theorem percentDecode_of_not_mem : ∀ {bs : List UInt8}, 0x25 ∉ bs → percentDecode bs = bs
  | [], _ => rfl
  | b :: rest, h => by
    rw [List.mem_cons, not_or] at h
    rw [percentDecode_plain (Ne.symm h.1), percentDecode_of_not_mem h.2]

theorem percentDecode_percentEncode {esc : UInt8 → Bool} (hp : esc 0x25 = true) :
    ∀ bs, percentDecode (percentEncode esc bs) = bs
  | [] => rfl
  | b :: rest => by
    have hlt : b.toNat < 256 := b.toNat_lt_size
    rw [percentEncode]
    split_ifs with hb
    · rw [percentDecode_escape (hexDigitVal_hexUpper ⟨b.toNat / 16, by omega⟩)
        (hexDigitVal_hexUpper ⟨b.toNat % 16, by omega⟩), percentDecode_percentEncode hp rest,
        Nat.div_add_mod']
      exact congrArg (· :: rest) (uint8_eq_iff.2 (UInt8.toNat_ofNat_of_lt hlt))
    · rw [percentDecode_plain fun h => hb (by rw [h]; exact hp),
        percentDecode_percentEncode hp rest]

theorem mem_intercalate_singleton {α : Type} {c x : α} :
    ∀ {ls : List (List α)}, x ∈ [c].intercalate ls → x = c ∨ ∃ l ∈ ls, x ∈ l
  | [], h => nomatch h
  | [l], h => .inr ⟨l, .head _, by simpa [List.intercalate] using h⟩
  | l :: l' :: ls, h => by
    rw [List.intercalate, List.intersperse_cons₂, List.flatten_cons, List.flatten_cons,
      ← List.intercalate, List.mem_append, List.mem_append, List.mem_singleton] at h
    rcases h with h | h | h
    · exact .inr ⟨l, .head _, h⟩
    · exact .inl h
    · rcases mem_intercalate_singleton h with h | ⟨l'', hl, h⟩
      · exact .inl h
      · exact .inr ⟨l'', .tail _ hl, h⟩

theorem splitn2_of_not_mem {c : Char} {s : List Char} (h : c ∉ s) : splitn2 c s = [s] := by
  rw [splitn2, List.findIdx?_eq_none_iff.2 fun x hx => beq_false_of_ne (ne_of_mem_of_not_mem hx h)]

theorem splitn2_append {c : Char} {a : List Char} (h : c ∉ a) (b : List Char) :
    splitn2 c (a ++ c :: b) = [a, b] := by
  rw [splitn2, List.findIdx?_append,
    List.findIdx?_eq_none_iff.2 fun x hx => beq_false_of_ne (ne_of_mem_of_not_mem hx h)]
  simp

/-! ## 4. The parser on the lines -/

/-- What the parser needs of one line: the inner decoding reads its name and
values back, the name has no `=`, no value has a `,`, and no part has a
newline. -/
def ChunkOk (enc : String → List Char) (kv : String × List String) : Prop :=
  decodePart (enc kv.1) = some kv.1 ∧ '=' ∉ enc kv.1 ∧ '\n' ∉ enc kv.1 ∧
    ∀ v ∈ kv.2, decodePart (enc v) = some v ∧ ',' ∉ enc v ∧ '\n' ∉ enc v

section Lines

variable {enc : String → List Char}

/-- The inner loop reads the values of a line into the set. -/
theorem foldlM_insertValue : ∀ (V acc : List String), (∀ v ∈ V, decodePart (enc v) = some v) →
    ∃ W, (V.map enc).foldlM insertValue acc = some W ∧ ∀ v, v ∈ W ↔ v ∈ acc ∨ v ∈ V
  | [], acc, _ => ⟨acc, rfl, by simp⟩
  | v :: V, acc, h => by
    obtain ⟨W, hW, hmem⟩ := foldlM_insertValue V (acc.insert v) fun u hu => h u (.tail _ hu)
    refine ⟨W, ?_, fun u => ?_⟩
    · rw [List.map_cons, List.foldlM_cons, insertValue, h v (.head _)]
      exact hW
    · rw [hmem, List.mem_insert_iff, List.mem_cons]
      tauto

/-- One pass of the outer loop reads one line: its capability, with exactly
its values. -/
theorem parseCap_capChunk (ans : CapsMap) : ∀ kv : String × List String, ChunkOk enc kv →
    ∃ W, parseCap ans (capChunk enc kv) = some (Function.update ans kv.1 (some W)) ∧
      ∀ v, v ∈ W ↔ v ∈ kv.2
  | (k, []), ⟨hk, heq, _, _⟩ => by
    refine ⟨[], ?_, by simp⟩
    rw [capChunk, parseCap, splitn2_of_not_mem heq]
    simp [hk]
  | (k, v :: vs), ⟨hk, heq, _, hvs⟩ => by
    obtain ⟨W, hW, hmem⟩ := foldlM_insertValue (v :: vs) [] fun u hu => (hvs u hu).1
    have hsplit := List.splitOn_intercalate ((v :: vs).map enc) ','
      (fun l hl => by obtain ⟨u, hu, rfl⟩ := List.mem_map.1 hl; exact (hvs u hu).2.1) (by simp)
    refine ⟨W, ?_, by simpa using hmem⟩
    rw [capChunk, parseCap, splitn2_append heq]
    simp only [List.map_cons] at hsplit hW
    simp [hk, hsplit, hW]

theorem newline_not_mem_capChunk : ∀ kv : String × List String, ChunkOk enc kv →
    '\n' ∉ capChunk enc kv
  | (k, []), ⟨_, _, hk, _⟩ => hk
  | (k, v :: vs), ⟨_, _, hk, hvs⟩ => fun h => by
    rw [capChunk, List.mem_append, List.mem_cons] at h
    rcases h with h | h | h
    · exact hk h
    · cases h
    · rcases mem_intercalate_singleton h with h | ⟨l, hl, h⟩
      · cases h
      · obtain ⟨u, hu, rfl⟩ := List.mem_map.1 hl
        exact (hvs u hu).2.2 h

/-- The outer loop reads every line of a map with distinct names. -/
theorem foldlM_parseCap : ∀ (M : List (String × List String)) (ans : CapsMap),
    (M.map Prod.fst).Nodup → (∀ kv ∈ M, ChunkOk enc kv) →
    ∃ ans', (M.map (capChunk enc)).foldlM parseCap ans = some ans' ∧
      (∀ k, k ∉ M.map Prod.fst → ans' k = ans k) ∧
      ∀ k V, (k, V) ∈ M → ∃ W, ans' k = some W ∧ ∀ v, v ∈ W ↔ v ∈ V
  | [], ans, _, _ => ⟨ans, rfl, fun _ _ => rfl, fun _ _ h => nomatch h⟩
  | (k, V) :: M, ans, hnd, hok => by
    rw [List.map_cons, List.nodup_cons] at hnd
    obtain ⟨W, hW, hWmem⟩ := parseCap_capChunk ans (k, V) (hok _ (.head _))
    obtain ⟨ans', hfold, hout, hin⟩ := foldlM_parseCap M _ hnd.2 fun kv h => hok kv (.tail _ h)
    refine ⟨ans', ?_, fun key hkey => ?_, fun key V' hmem => ?_⟩
    · rw [List.map_cons, List.foldlM_cons, hW]
      exact hfold
    · rw [List.map_cons, List.mem_cons, not_or] at hkey
      rw [hout key hkey.2, Function.update_noteq hkey.1]
    · rcases List.mem_cons.1 hmem with he | hmem
      · obtain ⟨rfl, rfl⟩ := Prod.mk.inj he
        exact ⟨W, by rw [hout key hnd.1, Function.update_same], hWmem⟩
      · exact hin key V' hmem

/-- The parser reads back the name and every line of a percent-encoded value
whose lines are `ChunkOk`, when the names are distinct and there is at least
one line. -/
theorem parseUtf8GetbundleCaps_lines {esc : UInt8 → Bool} (hp : esc 0x25 = true) (s : String)
    (hs : '=' ∉ s.data) (M : List (String × List String)) (hM : M ≠ [])
    (hkeys : (M.map Prod.fst).Nodup) (hok : ∀ kv ∈ M, ChunkOk enc kv) :
    ParsesTo (charsBytes s.data ++ 0x3D ::
      percentEncode esc (charsBytes (['\n'].intercalate (M.map (capChunk enc))))) s M := by
  obtain ⟨ans, hfold, hout, hin⟩ := foldlM_parseCap M (fun _ => none) hkeys hok
  refine ⟨ans, ?_, hout, hin⟩
  have hname : ∀ x ∈ charsBytes s.data, (x == 0x3D) = false := fun x hx =>
    beq_false_of_ne fun he => not_mem_charsBytes hs (x := 0x3D) (by decide) rfl (he ▸ hx)
  have hsplit : (['\n'].intercalate (M.map (capChunk enc))).splitOn '\n' = M.map (capChunk enc) :=
    List.splitOn_intercalate _ _ (fun l hl => by
      obtain ⟨kv, hkv, rfl⟩ := List.mem_map.1 hl
      exact newline_not_mem_capChunk kv (hok kv hkv)) (by simpa using hM)
  rw [parseUtf8GetbundleCaps, List.findIdx?_append, List.findIdx?_eq_none_iff.2 hname,
    List.findIdx?_cons, beq_self_eq_true, if_pos rfl]
  simp only [Option.none_or, Option.map_some', Nat.zero_add]
  rw [List.take_left, List.drop_append, List.drop_one, List.tail_cons, fromUtf8_charsBytes,
    percentDecode_percentEncode hp, fromUtf8_charsBytes]
  simp [hsplit, hfold]

end Lines

/-! ## 5. The documented encoding -/

/-- A byte percent-encoding writes: ASCII, and none of the separators `=`,
`,` and newline. -/
def SafeByte (x : UInt8) : Prop :=
  x.toNat < 0x80 ∧ x ≠ 0x3D ∧ x ≠ 0x2C ∧ x ≠ 0x0A

instance decidableSafeByte : DecidablePred SafeByte :=
  fun _ => inferInstanceAs (Decidable (_ ∧ _))

theorem safeByte_hexUpper : ∀ n : Fin 16, SafeByte (hexUpper n) := by
  decide

section Escapes

variable {esc : UInt8 → Bool} (hesc : EscapesReserved esc)
include hesc

theorem safeByte_of_mem_percentEncode : ∀ {bs : List UInt8} {x : UInt8},
    x ∈ percentEncode esc bs → SafeByte x
  | [], _, hx => nomatch hx
  | b :: rest, x, hx => by
    have hlt : b.toNat < 256 := b.toNat_lt_size
    rw [percentEncode] at hx
    split_ifs at hx with hb
    · rcases hx with _ | ⟨_, _ | ⟨_, _ | ⟨_, hx⟩⟩⟩
      · decide
      · exact safeByte_hexUpper ⟨b.toNat / 16, by omega⟩
      · exact safeByte_hexUpper ⟨b.toNat % 16, by omega⟩
      · exact safeByte_of_mem_percentEncode hx
    · rcases hx with _ | ⟨_, hx⟩
      · exact ⟨Nat.lt_of_not_le fun h => hb (hesc.nonAscii b h), fun h => hb (h ▸ hesc.equals),
          fun h => hb (h ▸ hesc.comma), fun h => hb (h ▸ hesc.newline)⟩
      · exact safeByte_of_mem_percentEncode hx

/-- The encoding of a string is ASCII, so its bytes are the encoded bytes. -/
theorem charsBytes_percentEncodeStr (s : String) :
    charsBytes (percentEncodeStr esc s) = percentEncode esc (charsBytes s.data) :=
  flatMap_utf8EncodeChar_ascii _ fun _ hx => (safeByte_of_mem_percentEncode hesc hx).1

/-- No separator survives in an encoded string. -/
theorem separators_not_mem_percentEncodeStr {c : Char} {s : String}
    (hc : c ∈ percentEncodeStr esc s) : c ≠ '=' ∧ c ≠ ',' ∧ c ≠ '\n' := by
  obtain ⟨x, hx, rfl⟩ := List.mem_map.1 hc
  obtain ⟨hlt, h₁, h₂, h₃⟩ := safeByte_of_mem_percentEncode hesc hx
  have h := toNat_ofNat_of_lt hlt
  refine ⟨fun he => h₁ ?_, fun he => h₂ ?_, fun he => h₃ ?_⟩ <;> rw [he] at h <;>
    exact uint8_eq_iff.2 h.symm

/-- Every line of the documented encoding is one the parser reads back. -/
theorem chunkOk_percentEncodeStr (kv : String × List String) :
    ChunkOk (percentEncodeStr esc) kv := by
  have hdec : ∀ s, decodePart (percentEncodeStr esc s) = some s := fun s => by
    rw [decodePart, charsBytes_percentEncodeStr hesc, percentDecode_percentEncode hesc.percent]
    exact fromUtf8_charsBytes s.data
  exact ⟨hdec _, fun h => (separators_not_mem_percentEncodeStr hesc h).1 rfl,
    fun h => (separators_not_mem_percentEncodeStr hesc h).2.2 rfl, fun v _ => ⟨hdec v,
      fun h => (separators_not_mem_percentEncodeStr hesc h).2.1 rfl,
      fun h => (separators_not_mem_percentEncodeStr hesc h).2.2 rfl⟩⟩

/-- `parse_utf8_getbundle_caps` reads back the name and every capability of
the documented encoding of a nonempty map with distinct names. -/
theorem parseUtf8GetbundleCaps_encode (s : String) (hs : '=' ∉ s.data)
    (M : List (String × List String)) (hM : M ≠ []) (hkeys : (M.map Prod.fst).Nodup) :
    ParsesTo (encodeGetbundleCaps esc s M) s M :=
  parseUtf8GetbundleCaps_lines hesc.percent s hs M hM hkeys fun kv _ =>
    chunkOk_percentEncodeStr hesc kv

end Escapes

/-- `bundle2=phases%3Dheads`, the `phases` capability of `create_bundle`. -/
theorem parseUtf8GetbundleCaps_encode_phases :
    EscapesReserved reservedEsc ∧ '=' ∉ "bundle2".data ∧ [("phases", ["heads"])] ≠ [] ∧
      ([("phases", ["heads"])].map Prod.fst).Nodup ∧
      ParsesTo (encodeGetbundleCaps reservedEsc "bundle2" [("phases", ["heads"])]) "bundle2"
        [("phases", ["heads"])] :=
  ⟨escapesReserved_reservedEsc, by decide, by decide, by decide,
    parseUtf8GetbundleCaps_encode escapesReserved_reservedEsc "bundle2" (by decide) _ (by decide)
      (by decide)⟩

/-- The `bundle2` capability `hello` advertises reads back as the table of
`bundle2caps`, with no `listkeys`. -/
example : (parseUtf8GetbundleCaps (charsBytes (helloBundle2Cap reservedEsc).data)).map
      (fun (name, caps) => (name, bundle2capsList.map fun kv => caps kv.1, caps "listkeys")) =
    some ("bundle2", bundle2capsList.map fun kv => some kv.2, none) := by
  decide

/-! ## 6. What `hello` advertises -/

/-- A line written with no inner encoding is read back when its parts have
no `%` and no separator the parser splits on. -/
theorem chunkOk_data (kv : String × List String)
    (hk : '%' ∉ kv.1.data ∧ '=' ∉ kv.1.data ∧ '\n' ∉ kv.1.data)
    (hv : ∀ v ∈ kv.2, '%' ∉ v.data ∧ ',' ∉ v.data ∧ '\n' ∉ v.data) : ChunkOk String.data kv := by
  have hdec : ∀ s : String, '%' ∉ s.data → decodePart s.data = some s := fun s h => by
    rw [decodePart, percentDecode_of_not_mem (not_mem_charsBytes h (x := 0x25) (by decide) rfl)]
    exact fromUtf8_charsBytes s.data
  exact ⟨hdec _ hk.1, hk.2.1, hk.2.2, fun v h => ⟨hdec v (hv v h).1, (hv v h).2⟩⟩

/-! ## 7. Which entry turns phases on -/

/-- A `getbundle` that asks for phases gets them exactly when the first
`bundle2` entry of its `bundlecaps` with a `phases` capability lists `heads`:
the entries before it are skipped, and those after it are not read. -/
theorem usePhases_first_bundle2 (phases : Bool) (pre post : List (List UInt8)) (cap : List UInt8)
    (M : List (String × List String)) (V : List String)
    (hpre : ∀ c ∈ pre, ∀ capName caps, parseUtf8GetbundleCaps c = some (capName, caps) →
      capName ≠ "bundle2" ∨ caps "phases" = none)
    (hcap : ParsesTo cap "bundle2" M) (hV : ("phases", V) ∈ M) :
    usePhases phases (pre ++ cap :: post) = (phases && decide ("heads" ∈ V)) := by
  obtain ⟨ans, hparse, -, hin⟩ := hcap
  obtain ⟨W, hW, hWV⟩ := hin "phases" V hV
  cases phases with
  | false => rfl
  | true =>
    rw [usePhases, if_pos rfl, usePhasesLoop_append_of_skip hpre, usePhasesLoop, hparse]
    simp [hW, hWV]

/-- The one entry `bundle2=phases%3Dheads` turns phases on. -/
theorem usePhases_first_bundle2_heads :
    let cap := charsBytes "bundle2".data ++ 0x3D :: percentEncode reservedEsc
      (charsBytes (['\n'].intercalate ([("phases", ["heads"])].map (capChunk String.data))))
    ParsesTo cap "bundle2" [("phases", ["heads"])] ∧ usePhases true [cap] = true :=
  have hcap := parseUtf8GetbundleCaps_lines escapesReserved_reservedEsc.percent "bundle2" (by decide)
    [("phases", ["heads"])] (by decide) (by decide)
    fun kv hkv => chunkOk_data kv (by revert kv; decide) (by revert kv; decide)
  ⟨hcap, by simpa using usePhases_first_bundle2 true [] [] _ _ _ (by simp) hcap (List.mem_singleton_self _)⟩

end Mononoke.RepoClient
