/-
Mononoke.RepoClient.WireprotoLogger — `WireprotoLogger::new` and
`add_trimmed_scuba_field` (`repo_client/src/client/mod.rs`), and the logger
`getbundle` and `gettreepack` make before they look at their request.

`add_trimmed_scuba_field` keeps the first `min(args.len(), 1000)` bytes of
its argument with `&args[..limit]`, which panics unless `limit` is a
character boundary (`str::is_char_boundary`, `isCharBoundary`). A panic is
`none`. A scuba sample is its columns, each a string as its UTF-8 bytes; the
logger's scribe client, scribe category and repository name are read only by
`finish_stream_wireproto_processing`, which is not modelled.

* `isCharBoundary_iff`: the byte offsets `is_char_boundary` accepts are
  exactly the ends of the string's character prefixes.
* `addTrimmedScubaField_spec`: the field is recorded exactly when the string
  has at most 1000 bytes or its first characters fill exactly 1000 bytes, and
  then it is the UTF-8 of a character prefix of `min(len, 1000)` bytes.
* `gettreepack_logger_panics`: a `gettreepack` whose `rootdir` is `é`
  followed by 400 `€` makes `WireprotoLogger::new` panic, since byte 1000 of
  the logged JSON falls inside a `€`.

## How the proofs go

`utf8EncodeChar_lead_cont` (`Mononoke.RepoClient.Utf8`) says once what every
character's encoding looks like: a first byte that is not a continuation
byte, then continuation bytes only. `byteStart_iff` walks the encoding of a
character list with it, and everything about `is_char_boundary` follows. The
panic is found by decoding the request's `rootdir` with
`fromUtf8Lossy_flatMap_utf8EncodeChar`, since it is the encoding of `é€€…`.
-/
import Mathlib.Algebra.BigOperators.Group.List
import Mathlib.Algebra.Order.Ring.Nat
import Mononoke.RepoClient.Utf8

namespace Mononoke.RepoClient

/-! ## 1. The logger -/

/-- The command names of `mod ops`. -/
def Ops.GETBUNDLE : String := "getbundle"

/-- The command names of `mod ops`. -/
def Ops.GETTREEPACK : String := "gettreepack"

/-- A scuba sample: its columns, each a string as its UTF-8 bytes. -/
def ScubaSample : Type := List (String × List UInt8)

/-- `ScubaSampleBuilder::add`: sets a column, replacing its old value. -/
def ScubaSample.add (s : ScubaSample) (key : String) (value : List UInt8) : ScubaSample :=
  (key, value) :: s.filter (·.1 ≠ key)

/-- The UTF-8 bytes of a string, `str::as_bytes`. -/
def utf8Bytes (s : String) : List UInt8 := s.toUTF8.data.toList

/-- The fields of `WireprotoLogger` that `new` and `add_trimmed_scuba_field` use. -/
structure WireprotoLogger where
  scubaLogger : ScubaSample
  wireprotoCommand : String
  args : Option JsonValue

/-- `str::is_char_boundary`: `0`, the end, or an offset whose byte is not a
continuation byte. -/
def isCharBoundary (s : String) (index : Nat) : Bool :=
  index == 0 ||
    match (utf8Bytes s)[index]? with
    | none => index == s.utf8ByteSize
    | some b => !isContinuationByte b

/-- `WireprotoLogger::add_trimmed_scuba_field`; `none` is the panic of
`&args[..limit]`. -/
def WireprotoLogger.addTrimmedScubaField (self : WireprotoLogger) (argsName args : String) :
    Option WireprotoLogger :=
  let limit := min args.utf8ByteSize 1000
  if isCharBoundary args limit then
    some { self with scubaLogger := self.scubaLogger.add argsName ((utf8Bytes args).take limit) }
  else none

/-- `WireprotoLogger::new`, up to the sample it logs; `none` is a panic.
`serde_json::to_string` cannot fail on a `Value`. -/
def WireprotoLogger.new (scubaLogger : ScubaSample) (wireprotoCommand : String)
    (args : Option JsonValue) : Option WireprotoLogger :=
  let logger : WireprotoLogger :=
    ⟨scubaLogger.add "command" (utf8Bytes wireprotoCommand), wireprotoCommand, args⟩
  match args with
  | some a => logger.addTrimmedScubaField "command_args" a.toString
  | none => some logger

/-! ## 2. The requests that are logged -/

/-- The fields of `GettreepackArgs` that `gettreepack` logs. -/
structure GettreepackArgs where
  rootdir : List UInt8
  mfnodes : List HgNodeHash
  basemfnodes : List HgNodeHash
  directories : List (List UInt8)

/-- The fields of `GetbundleArgs` that `getbundle` logs; `bundlecaps` is a
`HashSet`, listed in its iteration order. -/
structure GetbundleArgs where
  heads : List HgNodeHash
  common : List HgNodeHash
  bundlecaps : List (List UInt8)
  listkeys : List (List UInt8)

/-- The `json!` value `gettreepack` logs. -/
def gettreepackLogArgs (params : GettreepackArgs) : JsonValue :=
  .array [jsonObject [
    ("rootdir", .string ⟨fromUtf8Lossy params.rootdir⟩),
    ("mfnodes", .string (formatNodesList params.mfnodes)),
    ("basemfnodes", .string (formatNodesList params.basemfnodes)),
    ("directories", .string (formatUtf8BytesList params.directories))]]

/-- The `json!` value `getbundle` logs. -/
def getbundleLogArgs (args : GetbundleArgs) : JsonValue :=
  .array [jsonObject [
    ("bundlecaps", .string (formatUtf8BytesList args.bundlecaps)),
    ("common", .string (formatNodesList args.common)),
    ("heads", .string (formatNodesList args.heads)),
    ("listkeys", .string (formatUtf8BytesList args.listkeys))]]

/-- The logger `RepoClient::gettreepack` makes first, from the scuba sample
of its context. -/
def gettreepackLogger (scuba : ScubaSample) (params : GettreepackArgs) :
    Option WireprotoLogger :=
  WireprotoLogger.new scuba Ops.GETTREEPACK (some (gettreepackLogArgs params))

/-- The logger `RepoClient::getbundle` makes first. -/
def getbundleLogger (scuba : ScubaSample) (args : GetbundleArgs) :
    Option WireprotoLogger :=
  WireprotoLogger.new scuba Ops.GETBUNDLE (some (getbundleLogArgs args))

/-! ## 3. Character boundaries -/

theorem utf8ByteSize_eq_sum (s : String) : s.utf8ByteSize = (s.data.map Char.utf8Size).sum := by
  obtain ⟨cs⟩ := s
  show String.utf8ByteSize.go cs = (cs.map Char.utf8Size).sum
  induction cs with
  | nil => rfl
  | cons c cs ih => rw [String.utf8ByteSize.go, ih, List.map_cons, List.sum_cons, Nat.add_comm]

theorem utf8Bytes_eq (s : String) : utf8Bytes s = s.data.flatMap String.utf8EncodeChar := rfl

theorem length_utf8Bytes (s : String) : (utf8Bytes s).length = s.utf8ByteSize :=
  String.size_toUTF8 s

/-- In the encoding of a character list, the offsets that are its end or hold
a first byte are the ends of its prefixes. -/
theorem byteStart_iff : ∀ (cs : List Char) (i : Nat),
    (i = (cs.flatMap String.utf8EncodeChar).length ∨
      ∃ b, (cs.flatMap String.utf8EncodeChar)[i]? = some b ∧ isContinuationByte b = false) ↔
    ∃ k ≤ cs.length, i = ((cs.take k).map Char.utf8Size).sum
  | [], i => by
    simp only [List.flatMap_nil, List.length_nil, List.getElem?_nil, List.take_nil, List.map_nil,
      List.sum_nil, Nat.le_zero, exists_eq_left, reduceCtorEq, false_and, exists_false, or_false]
  | c :: cs, 0 => by
    obtain ⟨b, bs, henc, hb, -⟩ := utf8EncodeChar_lead_cont c
    exact iff_of_true (.inr ⟨b, by simp [henc], hb⟩) ⟨0, Nat.zero_le _, rfl⟩
  | c :: cs, j + 1 => by
    obtain ⟨b, bs, henc, -, hbs⟩ := utf8EncodeChar_lead_cont c
    have hsize : c.utf8Size = bs.length + 1 := by
      rw [← String.length_utf8EncodeChar, henc, List.length_cons]
    have hrhs : (∃ k ≤ (c :: cs).length, j + 1 = (((c :: cs).take k).map Char.utf8Size).sum) ↔
        bs.length ≤ j ∧ ∃ k ≤ cs.length, j - bs.length = ((cs.take k).map Char.utf8Size).sum := by
      constructor
      · rintro ⟨_ | k, hk, h⟩
        · simp at h
        · simp only [List.take_succ_cons, List.map_cons, List.sum_cons, hsize, List.length_cons] at h hk
          exact ⟨by omega, k, by omega, by omega⟩
      · rintro ⟨hj, k, hk, h⟩
        refine ⟨k + 1, by simp [hk], ?_⟩
        simp only [List.take_succ_cons, List.map_cons, List.sum_cons, hsize]
        omega
    rw [hrhs, List.flatMap_cons, henc, List.cons_append, List.length_cons, List.length_append,
      List.getElem?_cons_succ]
    by_cases hj : j < bs.length
    · have hx := hbs _ (List.getElem_mem hj)
      refine iff_of_false ?_ (by omega)
      rintro (h | ⟨x, hx', hxc⟩)
      · omega
      · rw [List.getElem?_append_left hj, List.getElem?_eq_getElem hj, Option.some_inj] at hx'
        rw [← hx', hx] at hxc
        cases hxc
    · rw [List.getElem?_append_right (by omega), ← byteStart_iff cs (j - bs.length)]
      exact ⟨fun h => ⟨by omega, h.imp (by omega) id⟩, fun ⟨_, h⟩ => h.imp (by omega) id⟩

theorem isCharBoundary_eq_true (s : String) (i : Nat) : isCharBoundary s i = true ↔
    i = 0 ∨ i = s.utf8ByteSize ∨ ∃ b, (utf8Bytes s)[i]? = some b ∧ isContinuationByte b = false := by
  unfold isCharBoundary
  cases h : (utf8Bytes s)[i]? with
  | none => simp
  | some b =>
    have hi : i ≠ s.utf8ByteSize := by
      rintro rfl
      rw [← length_utf8Bytes, List.getElem?_eq_none le_rfl] at h
      cases h
    simp [hi]

/-- The byte offsets `is_char_boundary` accepts are exactly the ends of the
string's character prefixes. -/
theorem isCharBoundary_iff (s : String) (i : Nat) :
    isCharBoundary s i = true ↔ ∃ k ≤ s.data.length, i = ((s.data.take k).map Char.utf8Size).sum := by
  have hstart := byteStart_iff s.data i
  rw [← utf8Bytes_eq, length_utf8Bytes] at hstart
  rw [isCharBoundary_eq_true, hstart]
  exact ⟨fun h => h.elim (fun h0 => ⟨0, Nat.zero_le _, by simp [h0]⟩) id, .inr⟩

/-! ## 4. What `add_trimmed_scuba_field` records -/

/-- Cutting the encoding of a character list after the bytes of its first
`k` characters leaves the encoding of those characters. -/
theorem take_flatMap_utf8EncodeChar : ∀ (cs : List Char) (k : Nat),
    (cs.flatMap String.utf8EncodeChar).take (((cs.take k).map Char.utf8Size).sum) =
      (cs.take k).flatMap String.utf8EncodeChar
  | [], _ => by simp
  | _ :: _, 0 => by simp
  | c :: cs, k + 1 => by
    rw [List.take_succ_cons, List.map_cons, List.sum_cons, List.flatMap_cons, List.flatMap_cons,
      ← String.length_utf8EncodeChar, List.take_append, take_flatMap_utf8EncodeChar cs k]

theorem addTrimmedScubaField_isSome (logger : WireprotoLogger) (argsName args : String) :
    (logger.addTrimmedScubaField argsName args).isSome =
      isCharBoundary args (min args.utf8ByteSize 1000) := by
  unfold WireprotoLogger.addTrimmedScubaField
  dsimp only
  split <;> simp_all

/-- `add_trimmed_scuba_field` records its column exactly when the string has
at most 1000 bytes or its first characters fill exactly 1000 bytes; the value
it records is then the UTF-8 of a character prefix of the string, of
`min(len, 1000)` bytes. -/
theorem addTrimmedScubaField_spec (logger : WireprotoLogger) (argsName args : String) :
    ((logger.addTrimmedScubaField argsName args).isSome = true ↔
      args.utf8ByteSize ≤ 1000 ∨ ∃ k, ((args.data.take k).map Char.utf8Size).sum = 1000) ∧
    ∀ l, logger.addTrimmedScubaField argsName args = some l →
      ∃ pre rest, args.data = pre ++ rest ∧
        l = { logger with scubaLogger := logger.scubaLogger.add argsName (utf8Bytes ⟨pre⟩) } ∧
        (String.mk pre).utf8ByteSize = min args.utf8ByteSize 1000 := by
  have hall : ((args.data.take args.data.length).map Char.utf8Size).sum = args.utf8ByteSize := by
    rw [List.take_length, utf8ByteSize_eq_sum]
  refine ⟨?_, fun l hl => ?_⟩
  · rw [addTrimmedScubaField_isSome, isCharBoundary_iff]
    by_cases hsize : args.utf8ByteSize ≤ 1000
    · exact iff_of_true ⟨_, le_rfl, by rw [hall]; omega⟩ (.inl hsize)
    · rw [Nat.min_eq_right (by omega)]
      constructor
      · rintro ⟨k, -, hk⟩
        exact .inr ⟨k, hk.symm⟩
      · rintro (h | ⟨k, hk⟩)
        · exact absurd h hsize
        · refine ⟨k, ?_, hk.symm⟩
          by_contra hlt
          rw [List.take_of_length_le (by omega), ← utf8ByteSize_eq_sum] at hk
          omega
  · unfold WireprotoLogger.addTrimmedScubaField at hl
    dsimp only at hl
    split_ifs at hl with hb
    obtain ⟨k, -, hk⟩ := (isCharBoundary_iff _ _).1 hb
    refine ⟨args.data.take k, args.data.drop k, (List.take_append_drop k _).symm, ?_, ?_⟩
    · rw [← Option.some_inj, ← hl, hk, utf8Bytes_eq, take_flatMap_utf8EncodeChar]
      rfl
    · rw [utf8ByteSize_eq_sum, hk]

/-! ## 5. A `gettreepack` request that panics -/

/-- The logged JSON of a `gettreepack` whose other arguments are empty: the
`rootdir` string comes last, after 60 bytes of ASCII. -/
theorem gettreepackLogArgs_toString (r : List UInt8) :
    (gettreepackLogArgs ⟨r, [], [], []⟩).toString.data =
      "[\x7b\"basemfnodes\":\"\",\"directories\":\"\",\"mfnodes\":\"\",\"rootdir\":\"".data ++
        ((fromUtf8Lossy r).flatMap escapeChar ++ "\"\x7d]".data) := by
  have hobj : ∀ a b c d : JsonValue,
      jsonObject [("rootdir", a), ("mfnodes", b), ("basemfnodes", c), ("directories", d)] =
        .object [("basemfnodes", c), ("directories", d), ("mfnodes", b), ("rootdir", a)] :=
    fun _ _ _ _ => rfl
  rw [gettreepackLogArgs, hobj]
  simp only [JsonValue.toString, JsonValue.listToString, JsonValue.fieldsToString, jsonString,
    String.data_append, List.append_assoc, List.cons_append, List.nil_append]
  rfl

/-- The logger of a `gettreepack` is made exactly when its logged JSON has a
character boundary at `min(len, 1000)`. -/
theorem gettreepackLogger_isSome (scuba : ScubaSample) (params : GettreepackArgs) :
    (gettreepackLogger scuba params).isSome =
      isCharBoundary (gettreepackLogArgs params).toString
        (min (gettreepackLogArgs params).toString.utf8ByteSize 1000) := by
  rw [gettreepackLogger, WireprotoLogger.new]
  exact addTrimmedScubaField_isSome _ _ _

/-- The UTF-8 of the logged JSON of a `gettreepack` whose other arguments are
empty: 60 bytes of ASCII, the re-encoded `rootdir`, and `"}]`. -/
theorem utf8Bytes_gettreepackLogArgs (r : List UInt8) :
    utf8Bytes (gettreepackLogArgs ⟨r, [], [], []⟩).toString =
      "[\x7b\"basemfnodes\":\"\",\"directories\":\"\",\"mfnodes\":\"\",\"rootdir\":\"".data.flatMap
          String.utf8EncodeChar ++
        (((fromUtf8Lossy r).flatMap escapeChar).flatMap String.utf8EncodeChar ++ [0x22, 0x7D, 0x5D]) := by
  rw [utf8Bytes_eq, gettreepackLogArgs_toString, List.flatMap_append, List.flatMap_append]
  rfl

/-- Byte `k * |l| + j` of `n` copies of `l` is byte `j` of `l`, for `k < n`. -/
theorem getElem?_flatten_replicate {α : Type} {l : List α} {j : Nat} (hj : j < l.length) :
    ∀ {n k : Nat}, k < n → (List.replicate n l).flatten[k * l.length + j]? = l[j]?
  | _ + 1, 0, _ => by simp [List.replicate_succ, List.getElem?_append_left hj]
  | _ + 1, k + 1, h => by
    rw [List.replicate_succ, List.flatten_cons, Nat.succ_mul, Nat.add_right_comm,
      Nat.add_comm _ l.length, List.getElem?_append_right (by omega), Nat.add_sub_cancel_left]
    exact getElem?_flatten_replicate hj (by omega)

/-- `gettreepack` with `rootdir` the UTF-8 of `é` and 400 `€`: byte 1000 of
the logged JSON is the last byte of a `€`, and `WireprotoLogger::new`
panics. -/
theorem gettreepack_logger_panics :
    gettreepackLogger [] ⟨[0xC3, 0xA9] ++ (List.replicate 400 [0xE2, 0x82, 0xAC]).flatten, [], [], []⟩ =
      none := by
  -- the rootdir is the encoding of `é€€…`, 2 + 1200 bytes
  have henc : ('é' :: List.replicate 400 '€').flatMap String.utf8EncodeChar =
      [0xC3, 0xA9] ++ (List.replicate 400 ([0xE2, 0x82, 0xAC] : List UInt8)).flatten := by
    rw [List.flatMap_cons, List.flatMap_replicate]
    rfl
  have hlen : (List.replicate 400 ([0xE2, 0x82, 0xAC] : List UInt8)).flatten.length = 1200 := by
    rw [List.length_flatten, List.map_replicate, List.sum_replicate]
    rfl
  have h938 : (List.replicate 400 ([0xE2, 0x82, 0xAC] : List UInt8)).flatten[938]? = some 0xAC :=
    @getElem?_flatten_replicate _ [0xE2, 0x82, 0xAC] 2 (by decide) 400 312 (by decide)
  generalize (List.replicate 400 ([0xE2, 0x82, 0xAC] : List UInt8)).flatten = euros at *
  -- so it decodes to `é€€…`, which needs no escape and re-encodes to itself
  have hesc : ('é' :: List.replicate 400 '€').flatMap escapeChar = 'é' :: List.replicate 400 '€' := by
    rw [List.flatMap_cons, List.flatMap_replicate, show escapeChar '€' = ['€'] by decide,
      List.flatten_replicate_singleton]
    rfl
  have hroot : ((fromUtf8Lossy ([0xC3, 0xA9] ++ euros)).flatMap escapeChar).flatMap
      String.utf8EncodeChar = [0xC3, 0xA9] ++ euros := by
    rw [← henc, (fromUtf8Lossy_flatMap_utf8EncodeChar _).1, hesc]
  have hpre : ("[\x7b\"basemfnodes\":\"\",\"directories\":\"\",\"mfnodes\":\"\",\"rootdir\":\"".data.flatMap
      String.utf8EncodeChar).length = 60 := rfl
  -- so the JSON has 60 + 2 + 1200 + 3 bytes, and its byte 1000 is byte 938 of `euros`
  have hsize : (gettreepackLogArgs ⟨[0xC3, 0xA9] ++ euros, [], [], []⟩).toString.utf8ByteSize = 1265 := by
    rw [← length_utf8Bytes, utf8Bytes_gettreepackLogArgs, hroot]
    simp only [List.length_append, hpre, hlen, List.length_cons, List.length_nil]
  have hbyte : (utf8Bytes (gettreepackLogArgs ⟨[0xC3, 0xA9] ++ euros, [], [], []⟩).toString)[1000]? =
      some 0xAC := by
    rw [utf8Bytes_gettreepackLogArgs, hroot, List.getElem?_append_right (by omega), hpre,
      List.append_assoc, List.getElem?_append_right (by simp),
      List.getElem?_append_left (by simp [hlen])]
    exact h938
  rw [← Option.not_isSome_iff_eq_none, gettreepackLogger_isSome, hsize]
  simp only [isCharBoundary, show min 1265 1000 = 1000 from rfl, hbyte]
  decide

end Mononoke.RepoClient
