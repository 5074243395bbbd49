/-
Mononoke.RepoClient.StreamOutShallow — `RepoClient::stream_out_shallow`
(`repo_client/src/client/mod.rs`), the changelog streaming clone, and the
client's reading of its response.

The response is `0\n`, then `<file_count> <total_size>\n` with two files,
then each of `00changelog.i` and `00changelog.d` as `<name>\0<size>\n`
followed by its blobs. The blobs are fetched by futures run through
`buffered(100)` (`Buffered`, `Mononoke.Futures`), which may end with the
error of any failing fetch among the 100 it holds, so `buildFileStream` and
`streamOutShallow` relate the fetches to each response a run can give; a
stream as its consumer sees it is the items it yields and the error that
ends it, if one does (`StreamRun`). The reader of the response is
Mercurial's, which is not part of this source: `parseStreamClone` follows
the format the spec gives.

* `streamOutShallow_error`: every changelog has a response, and every
  response fails exactly when the changelog fetch or one of the blob fetches
  fails, then with the error of a failed fetch, a data blob's only once every
  index blob was fetched; nothing is cut short silently.
* `streamOutShallow_parse`: when every fetch succeeds and the sizes the
  fetcher reports are the lengths of the blobs, the response is one stream,
  and the reader reads exactly the two files back from it, with their names
  and bytes, and the total size.

## How the proofs go

`buildFileStream_ok` and `error_buildFileStream` say once what a file's
stream is, through the lemmas of `Buffered`, and `StreamRun.error_chain`
joins the two files. The response is then a list of byte strings whose
concatenation is cut at each separator by `splitOnce_append`. Numbers are
written by `Nat.toDigits`: `toDigitsCore_spec` says once what it writes,
decimal digits that `parseDecimal` reads back.
-/
import Mononoke.Futures
import Mononoke.RepoClient.WireprotoLogger

namespace Mononoke.RepoClient

/-! ## 1. `stream_out_shallow` -/

/-- `RevlogStreamingChunks`: the sizes the fetcher reports for the
changelog's index and data files, and a fetch for each of their blobs. -/
structure RevlogStreamingChunks where
  indexSize : Nat
  dataSize : Nat
  indexBlobs : List (Except String (List UInt8))
  dataBlobs : List (Except String (List UInt8))

/-- `RevlogStreamingChunks::new()`: nothing to stream. -/
def RevlogStreamingChunks.new : RevlogStreamingChunks := ⟨0, 0, [], []⟩

/-- The changelog `stream_out_shallow` streams: empty when the repository
has no streaming clone configuration, else what `fetch_changelog` returns. -/
def streamingChangelog (fetched : Option (Except String RevlogStreamingChunks)) :
    Except String RevlogStreamingChunks :=
  match fetched with
  | none => .ok RevlogStreamingChunks.new
  | some r => r

/-- `build_file_stream`: the header `<name>\0<size>\n`, then the blobs
through `buffered(100)`; one stream for each run of `buffered`. -/
def buildFileStream (name : String) (size : Nat) (data : List (Except String (List UInt8)))
    (stream : StreamRun String (List UInt8)) : Prop :=
  ∃ blobs, Buffered 100 ⟨data, none⟩ blobs ∧
    stream = StreamRun.chain ⟨[utf8Bytes (name ++ "\x00" ++ toString size ++ "\n")], none⟩ blobs

/-- The responses of `stream_out_shallow`, on what `fetch_changelog` returns
when the repository has a streaming clone configuration. -/
def streamOutShallow (fetched : Option (Except String RevlogStreamingChunks))
    (response : StreamRun String (List UInt8)) : Prop :=
  match streamingChangelog fetched with
  | .error e => response = ⟨[], some e⟩
  | .ok c =>
    let totalSize := c.indexSize + c.dataSize
    let fileCount := 2
    let header : StreamRun String (List UInt8) :=
      ⟨[utf8Bytes "0\n", utf8Bytes (toString fileCount ++ " " ++ toString totalSize ++ "\n")], none⟩
    ∃ index data, buildFileStream "00changelog.i" c.indexSize c.indexBlobs index ∧
      buildFileStream "00changelog.d" c.dataSize c.dataBlobs data ∧
      response = (header.chain index).chain data

/-! ## 2. The client's reader -/

/-- The bytes before the first `sep`, and those after it. -/
def splitOnce (sep : UInt8) (bs : List UInt8) : Option (List UInt8 × List UInt8) :=
  match bs.findIdx? (· == sep) with
  | some i => some (bs.take i, bs.drop (i + 1))
  | none => none

/-- An ASCII decimal digit. -/
def isDigitByte (b : UInt8) : Bool :=
  0x30 ≤ b && b ≤ 0x39

/-- One more decimal digit. -/
def decimalStep (v : Nat) (b : UInt8) : Nat :=
  v * 10 + (b.toNat - 0x30)

/-- Modelled from the spec: a decimal number, at least one digit and
nothing else. -/
def parseDecimal (bs : List UInt8) : Option Nat :=
  if !bs.isEmpty && bs.all isDigitByte then some (bs.foldl decimalStep 0) else none

/-- Modelled from the spec: `n` files, each `<name>\0<size>\n` and `size`
bytes, and nothing after them. -/
def readFiles : Nat → List UInt8 → Option (List (List UInt8 × List UInt8))
  | 0, bs => if bs.isEmpty then some [] else none
  | n + 1, bs => do
    let (line, rest) ← splitOnce 0x0A bs
    let (name, sizeStr) ← splitOnce 0x00 line
    let size ← parseDecimal sizeStr
    if size ≤ rest.length then
      let files ← readFiles n (rest.drop size)
      pure ((name, rest.take size) :: files)
    else none

/-- Modelled from the spec: the reader of a streaming clone response, which
returns the total size announced and the files. -/
def parseStreamClone (bs : List UInt8) : Option (Nat × List (List UInt8 × List UInt8)) := do
  let (status, rest) ← splitOnce 0x0A bs
  if status = [0x30] then
    let (header, rest) ← splitOnce 0x0A rest
    let (countStr, totalStr) ← splitOnce 0x20 header
    let count ← parseDecimal countStr
    let total ← parseDecimal totalStr
    let files ← readFiles count rest
    pure (total, files)
  else none

/-! ## 3. A file's stream -/

/-- A file's stream runs, whatever its blobs give. -/
theorem buildFileStream_exists (name : String) (size : Nat)
    (data : List (Except String (List UInt8))) : ∃ s, buildFileStream name size data s :=
  let ⟨blobs, hb⟩ := Buffered.exists (show 0 < 100 by decide) none data
  ⟨_, blobs, hb, rfl⟩

/-- When every blob fetch succeeds, a file's one stream is the header, then
the blobs in order. -/
theorem buildFileStream_ok (name : String) (size : Nat) (bs : List (List UInt8))
    (s : StreamRun String (List UInt8)) :
    buildFileStream name size (bs.map .ok) s ↔
      s = ⟨utf8Bytes (name ++ "\x00" ++ toString size ++ "\n") :: bs, none⟩ := by
  simp only [buildFileStream, Buffered.ok_iff (show 0 < 100 by decide), exists_eq_left]
  rfl

/-- A file's stream ends without an error exactly when every blob fetch
succeeds, and otherwise with the error of one that failed. -/
theorem error_buildFileStream {name : String} {size : Nat}
    {data : List (Except String (List UInt8))} {s : StreamRun String (List UInt8)}
    (h : buildFileStream name size data s) :
    (s.error = none ↔ ∀ r ∈ data, ∃ b, r = .ok b) ∧
      ∀ e, s.error = some e → .error e ∈ data := by
  obtain ⟨blobs, hb, rfl⟩ := h
  have herr : (StreamRun.chain ⟨[utf8Bytes (name ++ "\x00" ++ toString size ++ "\n")], none⟩
      blobs).error = blobs.error := rfl
  rw [herr, hb.error_eq_none_iff]
  exact ⟨and_iff_right rfl, fun e he => (hb.error_mem he).resolve_right nofun⟩

/-- The response fails exactly when the changelog fetch or one of the blob
fetches fails, and then with the error of a failed fetch: the changelog's, an
index blob's, or a data blob's once every index blob was sent. Nothing is cut
short silently, and every changelog has a response. -/
theorem streamOutShallow_error (fetched : Option (Except String RevlogStreamingChunks)) :
    (∃ s, streamOutShallow fetched s) ∧ ∀ s, streamOutShallow fetched s →
      (s.error = none ↔ ∃ c, streamingChangelog fetched = .ok c ∧
        ∀ r ∈ c.indexBlobs ++ c.dataBlobs, ∃ b, r = .ok b) ∧
      ∀ e, s.error = some e → streamingChangelog fetched = .error e ∨
        ∃ c, streamingChangelog fetched = .ok c ∧ (.error e ∈ c.indexBlobs ∨
          (∀ r ∈ c.indexBlobs, ∃ b, r = .ok b) ∧ .error e ∈ c.dataBlobs) := by
  unfold streamOutShallow
  cases h : streamingChangelog fetched with
  | error e =>
    refine ⟨⟨_, rfl⟩, fun s hs => ?_⟩
    subst hs
    simp
  | ok c =>
    refine ⟨?_, fun s ⟨index, data, hindex, hdata, hs⟩ => ?_⟩
    · obtain ⟨index, hindex⟩ := buildFileStream_exists "00changelog.i" c.indexSize c.indexBlobs
      obtain ⟨data, hdata⟩ := buildFileStream_exists "00changelog.d" c.dataSize c.dataBlobs
      exact ⟨_, index, data, hindex, hdata, rfl⟩
    obtain ⟨hi, hie⟩ := error_buildFileStream hindex
    obtain ⟨hd, hde⟩ := error_buildFileStream hdata
    have herr : s.error = index.error.or data.error := by
      rw [hs, StreamRun.error_chain, StreamRun.error_chain]
      rfl
    rw [herr]
    refine ⟨?_, fun e he => .inr ⟨c, rfl, ?_⟩⟩
    · simp [Option.or_eq_none, hi, hd, or_imp, forall_and]
    cases hix : index.error with
    | some e' =>
      rw [hix] at he
      cases he
      exact .inl (hie e hix)
    | none => exact .inr ⟨hi.1 hix, hde e (by rwa [hix] at he)⟩

/-! ## 4. Splitting and numbers -/

theorem splitOnce_append {sep : UInt8} {pre : List UInt8} (h : sep ∉ pre) (post : List UInt8) :
    splitOnce sep (pre ++ sep :: post) = some (pre, post) := by
  rw [splitOnce, List.findIdx?_append,
    List.findIdx?_eq_none_iff.2 fun x hx => beq_false_of_ne (ne_of_mem_of_not_mem hx h)]
  simp

theorem digitChar_bytes : ∀ m : Fin 10,
    String.utf8EncodeChar (Nat.digitChar m) = [(0x30 + m.val).toUInt8] := by
  decide

/-- A decimal digit is written as one byte, an ASCII digit of its value. -/
theorem digitChar_spec {m : Nat} (hm : m < 10) :
    String.utf8EncodeChar (Nat.digitChar m) = [(0x30 + m).toUInt8] ∧
      isDigitByte (0x30 + m).toUInt8 = true ∧ (0x30 + m).toUInt8.toNat = 0x30 + m := by
  have hval : (0x30 + m).toUInt8.toNat = 0x30 + m := UInt8.toNat_ofNat_of_lt (show _ < 256 by omega)
  refine ⟨digitChar_bytes ⟨m, hm⟩, ?_, hval⟩
  simp only [isDigitByte, Bool.and_eq_true, decide_eq_true_eq, uint8_le_iff, hval]
  exact ⟨show 48 ≤ _ by omega, show _ ≤ 57 by omega⟩

/-- One step of `Nat.toDigitsCore` in base 10: the last digit goes in front
of the accumulator, and the rest of the number is written before it. -/
theorem toDigitsCore_succ (fuel n : Nat) (acc : List Char) :
    Nat.toDigitsCore 10 (fuel + 1) n acc =
      if n / 10 = 0 then Nat.digitChar (n % 10) :: acc
      else Nat.toDigitsCore 10 fuel (n / 10) (Nat.digitChar (n % 10) :: acc) :=
  rfl

/-- What `Nat.toDigitsCore` writes in front of its accumulator: decimal
digits, at least one, whose value is the number. -/
theorem toDigitsCore_spec : ∀ (fuel n : Nat) (acc : List Char), n < fuel →
    ∃ ds : List Char, Nat.toDigitsCore 10 fuel n acc = ds ++ acc ∧ ds ≠ [] ∧
      (∀ b ∈ ds.flatMap String.utf8EncodeChar, isDigitByte b = true) ∧
      (ds.flatMap String.utf8EncodeChar).foldl decimalStep 0 = n
  | 0, _, _, h => absurd h (Nat.not_lt_zero _)
  | fuel + 1, n, acc, h => by
    obtain ⟨hd, hdigit, hval⟩ := digitChar_spec (Nat.mod_lt n (show 10 > 0 by decide))
    -- the digits before the last one, `n % 10`, are those of `n / 10`
    have hprefix : ∃ ds, Nat.toDigitsCore 10 (fuel + 1) n acc = ds ++ Nat.digitChar (n % 10) :: acc ∧
        (∀ b ∈ ds.flatMap String.utf8EncodeChar, isDigitByte b = true) ∧
        (ds.flatMap String.utf8EncodeChar).foldl decimalStep 0 = n / 10 := by
      rw [toDigitsCore_succ]
      split_ifs with h0
      · exact ⟨[], rfl, (fun _ h => nomatch h), h0.symm⟩
      · obtain ⟨ds, heq, -, hall, hv⟩ := toDigitsCore_spec fuel (n / 10) _ (by omega)
        exact ⟨ds, heq, hall, hv⟩
    obtain ⟨ds, heq, hall, hv⟩ := hprefix
    refine ⟨ds ++ [Nat.digitChar (n % 10)], by rw [heq, List.append_assoc]; rfl, by simp, ?_, ?_⟩ <;>
      rw [List.flatMap_append, List.flatMap_cons, List.flatMap_nil, List.append_nil, hd]
    · exact fun b hb => (List.mem_append.1 hb).elim (hall b) fun h => List.mem_singleton.1 h ▸ hdigit
    · rw [List.foldl_append, hv, List.foldl_cons, List.foldl_nil, decimalStep, hval]
      omega

/-- The bytes of a number written in decimal: digits, which `parseDecimal`
reads back. -/
theorem utf8Bytes_toString_nat (n : Nat) :
    (∀ b ∈ utf8Bytes (toString n), isDigitByte b = true) ∧
      parseDecimal (utf8Bytes (toString n)) = some n := by
  obtain ⟨ds, heq, hne, hall, hval⟩ := toDigitsCore_spec (n + 1) n [] (Nat.lt_succ_self n)
  have hbytes : utf8Bytes (toString n) = ds.flatMap String.utf8EncodeChar := by
    rw [utf8Bytes_eq, ← List.append_nil ds, ← heq]
    rfl
  rw [hbytes]
  refine ⟨hall, ?_⟩
  have hempty : (ds.flatMap String.utf8EncodeChar).isEmpty = false := by
    obtain ⟨c, cs, rfl⟩ := List.exists_cons_of_ne_nil hne
    obtain ⟨b, bs, hb, -⟩ := utf8EncodeChar_lead_cont c
    rw [List.flatMap_cons, hb]
    rfl
  rw [parseDecimal, hempty, List.all_eq_true.2 hall, hval]
  rfl

theorem not_mem_of_digits {bs : List UInt8} (h : ∀ b ∈ bs, isDigitByte b = true) {x : UInt8}
    (hx : isDigitByte x = false) : x ∉ bs := fun hm => by
  rw [h x hm] at hx
  cases hx

/-! ## 5. Reading the response -/

/-- One file of the response is read as its name and its bytes. -/
theorem readFiles_file (name : String) (hname : ∀ b ∈ utf8Bytes name, b ≠ 0x00 ∧ b ≠ 0x0A)
    (content rest : List UInt8) (n : Nat) :
    readFiles (n + 1)
        (utf8Bytes (name ++ "\x00" ++ toString content.length ++ "\n") ++ (content ++ rest)) =
      (readFiles n rest).map fun files => (utf8Bytes name, content) :: files := by
  obtain ⟨hdig, hsize⟩ := utf8Bytes_toString_nat content.length
  have hline : utf8Bytes (name ++ "\x00" ++ toString content.length ++ "\n") =
      (utf8Bytes name ++ 0x00 :: utf8Bytes (toString content.length)) ++ [0x0A] := by
    simp only [utf8Bytes_eq, String.data_append, List.flatMap_append, List.append_assoc]
    rfl
  have hnl : 0x0A ∉ utf8Bytes name ++ 0x00 :: utf8Bytes (toString content.length) := by
    simp only [List.mem_append, List.mem_cons, not_or]
    exact ⟨fun h => (hname _ h).2 rfl, by decide, not_mem_of_digits hdig (by decide)⟩
  rw [hline, List.append_assoc, List.singleton_append]
  simp only [readFiles, splitOnce_append hnl, splitOnce_append (fun h => (hname _ h).1 rfl),
    Option.bind_eq_bind, Option.some_bind, hsize, List.length_append, Nat.le_add_right, if_true,
    List.drop_left, List.take_left]
  cases readFiles n rest <;> rfl

/-- The first two lines of the response are read as the status `0` and a
header announcing two files. -/
theorem parseStreamClone_header (total : Nat) (rest : List UInt8) :
    parseStreamClone (utf8Bytes "0\n" ++
        (utf8Bytes (toString 2 ++ " " ++ toString total ++ "\n") ++ rest)) =
      (readFiles 2 rest).map fun files => (total, files) := by
  obtain ⟨hdig, htotal⟩ := utf8Bytes_toString_nat total
  have hline : utf8Bytes (toString 2 ++ " " ++ toString total ++ "\n") ++ rest =
      ([0x32] ++ 0x20 :: utf8Bytes (toString total)) ++ 0x0A :: rest := by
    simp only [utf8Bytes_eq, String.data_append, List.flatMap_append, List.append_assoc]
    rfl
  have hnl : 0x0A ∉ [0x32] ++ 0x20 :: utf8Bytes (toString total) := by
    simp only [List.mem_append, List.mem_cons, not_or]
    exact ⟨by decide, by decide, not_mem_of_digits hdig (by decide)⟩
  rw [hline, show ∀ l, utf8Bytes "0\n" ++ l = [0x30] ++ 0x0A :: l from fun _ => rfl]
  simp only [parseStreamClone, splitOnce_append (show (0x0A : UInt8) ∉ [0x30] by decide),
    splitOnce_append hnl, splitOnce_append (show (0x20 : UInt8) ∉ [0x32] by decide),
    Option.bind_eq_bind, Option.some_bind, if_true, htotal,
    show parseDecimal [0x32] = some 2 from rfl]
  cases readFiles 2 rest <;> rfl

/-- The response, when every fetch succeeds: the one run. -/
theorem streamOutShallow_ok (c : RevlogStreamingChunks) (index data : List (List UInt8))
    (hi : c.indexBlobs = index.map .ok) (hd : c.dataBlobs = data.map .ok)
    (s : StreamRun String (List UInt8)) :
    streamOutShallow (some (.ok c)) s ↔ s =
      ⟨[utf8Bytes "0\n", utf8Bytes (toString 2 ++ " " ++ toString (c.indexSize + c.dataSize) ++ "\n"),
        utf8Bytes ("00changelog.i" ++ "\x00" ++ toString c.indexSize ++ "\n")] ++ index ++
        utf8Bytes ("00changelog.d" ++ "\x00" ++ toString c.dataSize ++ "\n") :: data, none⟩ := by
  simp only [streamOutShallow, streamingChangelog, hi, hd, buildFileStream_ok, exists_eq_left]
  simp [StreamRun.chain]

/-- When every fetch succeeds and the reported sizes are the blobs' lengths,
the response runs, and the reader reads back from every run the two files and
the total size. -/
theorem streamOutShallow_parse (c : RevlogStreamingChunks) (index data : List (List UInt8))
    (hi : c.indexBlobs = index.map .ok) (hd : c.dataBlobs = data.map .ok)
    (hsi : c.indexSize = index.flatten.length) (hsd : c.dataSize = data.flatten.length) :
    (∃ s, streamOutShallow (some (.ok c)) s) ∧ ∀ s, streamOutShallow (some (.ok c)) s →
      s.error = none ∧ parseStreamClone s.items.flatten =
        some (c.indexSize + c.dataSize,
          [(utf8Bytes "00changelog.i", index.flatten), (utf8Bytes "00changelog.d", data.flatten)]) := by
  have hs := streamOutShallow_ok c index data hi hd
  refine ⟨⟨_, (hs _).2 rfl⟩, fun s h => ?_⟩
  rw [(hs s).1 h]
  refine ⟨rfl, ?_⟩
  have hflat : ([utf8Bytes "0\n", utf8Bytes (toString 2 ++ " " ++ toString (c.indexSize + c.dataSize) ++ "\n"),
        utf8Bytes ("00changelog.i" ++ "\x00" ++ toString c.indexSize ++ "\n")] ++ index ++
        utf8Bytes ("00changelog.d" ++ "\x00" ++ toString c.dataSize ++ "\n") :: data).flatten =
      utf8Bytes "0\n" ++ (utf8Bytes (toString 2 ++ " " ++ toString (c.indexSize + c.dataSize) ++ "\n") ++
        (utf8Bytes ("00changelog.i" ++ "\x00" ++ toString index.flatten.length ++ "\n") ++
          (index.flatten ++ (utf8Bytes ("00changelog.d" ++ "\x00" ++ toString data.flatten.length ++ "\n") ++
            (data.flatten ++ []))))) := by
    simp [hsi, hsd]
  rw [hflat, parseStreamClone_header, readFiles_file _ (by decide), readFiles_file _ (by decide)]
  rfl

/-- A changelog of two index blobs and one data blob streams and reads back. -/
theorem streamOutShallow_parse_small :
    (⟨3, 2, [.ok [1, 2], .ok [3]], [.ok [4, 5]]⟩ : RevlogStreamingChunks).indexBlobs =
        [[1, 2], [3]].map .ok ∧
      (⟨3, 2, [.ok [1, 2], .ok [3]], [.ok [4, 5]]⟩ : RevlogStreamingChunks).dataBlobs =
        [[4, 5]].map .ok ∧
      (⟨3, 2, [.ok [1, 2], .ok [3]], [.ok [4, 5]]⟩ : RevlogStreamingChunks).indexSize =
        [[1, 2], [3]].flatten.length ∧
      (⟨3, 2, [.ok [1, 2], .ok [3]], [.ok [4, 5]]⟩ : RevlogStreamingChunks).dataSize =
        [[4, 5]].flatten.length ∧
      ∀ s, streamOutShallow (some (.ok ⟨3, 2, [.ok [1, 2], .ok [3]], [.ok [4, 5]]⟩)) s →
        parseStreamClone s.items.flatten =
          some (3 + 2, [(utf8Bytes "00changelog.i", [1, 2, 3]), (utf8Bytes "00changelog.d", [4, 5])]) :=
  ⟨rfl, rfl, rfl, rfl, fun s hs =>
    ((streamOutShallow_parse _ [[1, 2], [3]] [[4, 5]] rfl rfl rfl rfl).2 s hs).2⟩

end Mononoke.RepoClient
