/-
Mononoke.RepoClient.Format — how `RepoClient` renders a request's arguments
for its logs (`repo_client/src/client/mod.rs`): `format_nodes_list`,
`format_utf8_bytes_list`, and the `serde_json::Value` that `json!` builds and
`serde_json::to_string` prints.

A Rust `String` is a Lean `String`; a byte string (`Bytes`, `Vec<u8>`) is a
`List UInt8`. `String::from_utf8_lossy` is `fromUtf8Lossy`, which follows
`core::str::Utf8Chunks`: the well-formed sequences of RFC 3629 §4 decode to
their character, and every maximal prefix of one that breaks off becomes one
U+FFFD.

`json!({ .. })` inserts its fields into a `serde_json::Map`, a `BTreeMap`, so
`to_string` prints them in key order (`JsonValue.insert`). `to_string` is
compact, and escapes `"`, `\` and the control characters below U+0020 as
`format_escaped_str` does; every other character is written as it is. Only
the three kinds of `Value` the logged arguments are made of are modelled:
strings, arrays and objects.
-/
import Mononoke.Types

namespace Mononoke.RepoClient

/-! ## 1. Node hashes -/

/-- A lowercase hexadecimal digit. -/
def hexDigit (n : Nat) : Char :=
  if n < 10 then Char.ofNat (48 + n) else Char.ofNat (87 + n)

/-- The `Display` of a node id: forty lowercase hexadecimal digits. -/
def HgNodeHash.toHex (h : HgNodeHash) : String :=
  ⟨h.bytes.flatMap fun b => [hexDigit (b.toNat / 16), hexDigit (b.toNat % 16)]⟩

/-- `format_nodes_list`: the node ids, separated by spaces. -/
def formatNodesList (nodes : List HgNodeHash) : String :=
  " ".intercalate (nodes.map HgNodeHash.toHex)

/-! ## 2. `String::from_utf8_lossy` -/

/-- U+FFFD, which replaces every ill-formed sequence. -/
def replacementChar : Char := '\uFFFD'

/-- `(b as i8) < -0x40`: `b` is a continuation byte, `%x80-BF`. -/
def isContinuationByte (b : UInt8) : Bool :=
  0x80 ≤ b && b < 0xC0

/-- `core::str::utf8_char_width`: the length of the sequence that a first byte
announces, `0` for a byte no sequence starts with. -/
def utf8CharWidth (b : UInt8) : Nat :=
  if b < 0x80 then 1
  else if b < 0xC2 then 0
  else if b < 0xE0 then 2
  else if b < 0xF0 then 3
  else if b < 0xF5 then 4
  else 0

/-- The second byte a three-byte sequence may have after its first
(RFC 3629 §4, `UTF8-3`). -/
def secondByteOk3 (b c : UInt8) : Bool :=
  (b == 0xE0 && 0xA0 ≤ c && c ≤ 0xBF) || (0xE1 ≤ b && b ≤ 0xEC && isContinuationByte c) ||
    (b == 0xED && 0x80 ≤ c && c ≤ 0x9F) || (0xEE ≤ b && b ≤ 0xEF && isContinuationByte c)

/-- The second byte a four-byte sequence may have after its first
(RFC 3629 §4, `UTF8-4`). -/
def secondByteOk4 (b c : UInt8) : Bool :=
  (b == 0xF0 && 0x90 ≤ c && c ≤ 0xBF) || (0xF1 ≤ b && b ≤ 0xF3 && isContinuationByte c) ||
    (b == 0xF4 && 0x80 ≤ c && c ≤ 0x8F)

/-- The scalar value of a well-formed sequence: the low bits of its first byte,
then six bits from each continuation byte. -/
def decodeSeq (lead : Nat) (conts : List UInt8) : Char :=
  Char.ofNat (conts.foldl (fun v c => v * 64 + c.toNat % 64) lead)

/-- `String::from_utf8_lossy`. -/
def fromUtf8Lossy : List UInt8 → List Char
  | [] => []
  | b :: rest =>
    if b < 0x80 then Char.ofNat b.toNat :: fromUtf8Lossy rest
    else match rest with
      | [] => [replacementChar]
      | c1 :: rest₁ =>
        if utf8CharWidth b = 2 ∧ isContinuationByte c1 then
          decodeSeq (b.toNat % 32) [c1] :: fromUtf8Lossy rest₁
        else if utf8CharWidth b = 3 ∧ secondByteOk3 b c1 then
          match rest₁ with
          | [] => [replacementChar]
          | c2 :: rest₂ =>
            if isContinuationByte c2 then decodeSeq (b.toNat % 16) [c1, c2] :: fromUtf8Lossy rest₂
            else replacementChar :: fromUtf8Lossy (c2 :: rest₂)
        else if utf8CharWidth b = 4 ∧ secondByteOk4 b c1 then
          match rest₁ with
          | [] => [replacementChar]
          | c2 :: rest₂ =>
            if isContinuationByte c2 then
              match rest₂ with
              | [] => [replacementChar]
              | c3 :: rest₃ =>
                if isContinuationByte c3 then
                  decodeSeq (b.toNat % 8) [c1, c2, c3] :: fromUtf8Lossy rest₃
                else replacementChar :: fromUtf8Lossy (c3 :: rest₃)
            else replacementChar :: fromUtf8Lossy (c2 :: rest₂)
        else replacementChar :: fromUtf8Lossy (c1 :: rest₁)

/-- `core::str::run_utf8_validation`: the bytes are well-formed UTF-8. -/
def utf8Valid : List UInt8 → Bool
  | [] => true
  | b :: rest =>
    if b < 0x80 then utf8Valid rest
    else match rest with
      | [] => false
      | c1 :: rest₁ =>
        if utf8CharWidth b = 2 ∧ isContinuationByte c1 then utf8Valid rest₁
        else if utf8CharWidth b = 3 ∧ secondByteOk3 b c1 then
          match rest₁ with
          | [] => false
          | c2 :: rest₂ => isContinuationByte c2 && utf8Valid rest₂
        else if utf8CharWidth b = 4 ∧ secondByteOk4 b c1 then
          match rest₁ with
          | [] => false
          | c2 :: rest₂ =>
            isContinuationByte c2 &&
              match rest₂ with
              | [] => false
              | c3 :: rest₃ => isContinuationByte c3 && utf8Valid rest₃
        else false

/-- `String::from_utf8` (and `decode_utf8`): validation, then decoding. -/
def fromUtf8 (bytes : List UInt8) : Option String :=
  if utf8Valid bytes then some ⟨fromUtf8Lossy bytes⟩ else none

/-- `format_utf8_bytes_list`: each entry decoded lossily, separated by commas. -/
def formatUtf8BytesList (entries : List (List UInt8)) : String :=
  ",".intercalate (entries.map fun e => ⟨fromUtf8Lossy e⟩)

/-! ## 3. `serde_json::Value` -/

/-- The `serde_json::Value`s the logged arguments are made of. -/
inductive JsonValue where
  | string (s : String)
  | array (vs : List JsonValue)
  | object (m : List (String × JsonValue))

/-- `Ord for str`: the bytes compared lexicographically, which on UTF-8 is
the characters' code points compared lexicographically. -/
def strLt : List Char → List Char → Bool
  | [], [] => false
  | [], _ :: _ => true
  | _ :: _, [] => false
  | c :: cs, d :: ds => c.toNat < d.toNat || (c.toNat == d.toNat && strLt cs ds)

/-- `Map::insert` on a `BTreeMap`: the fields stay in key order, and a key
already present gets the new value. -/
def JsonValue.insert : List (String × JsonValue) → String → JsonValue → List (String × JsonValue)
  | [], k, v => [(k, v)]
  | (k', v') :: m, k, v =>
    if strLt k.data k'.data then (k, v) :: (k', v') :: m
    else if k = k' then (k, v) :: m
    else (k', v') :: JsonValue.insert m k v

/-- `json!({ k₁: v₁, … })`: the fields inserted in order into an empty map. -/
def jsonObject (fields : List (String × JsonValue)) : JsonValue :=
  .object (fields.foldl (fun m kv => JsonValue.insert m kv.1 kv.2) [])

/-- `format_escaped_str_contents` on one character. -/
def escapeChar (c : Char) : List Char :=
  if c = '"' then ['\\', '"']
  else if c = '\\' then ['\\', '\\']
  else if c.toNat < 0x20 then
    if c.toNat = 0x08 then ['\\', 'b']
    else if c.toNat = 0x09 then ['\\', 't']
    else if c.toNat = 0x0A then ['\\', 'n']
    else if c.toNat = 0x0C then ['\\', 'f']
    else if c.toNat = 0x0D then ['\\', 'r']
    else ['\\', 'u', '0', '0', hexDigit (c.toNat / 16), hexDigit (c.toNat % 16)]
  else [c]

/-- A JSON string literal. -/
def jsonString (s : String) : String :=
  ⟨'"' :: s.data.flatMap escapeChar ++ ['"']⟩

mutual
/-- `serde_json::to_string`: the compact rendering. -/
def JsonValue.toString : JsonValue → String
  | .string s => jsonString s
  | .array vs => "[" ++ JsonValue.listToString vs ++ "]"
  | .object m => "\x7b" ++ JsonValue.fieldsToString m ++ "\x7d"

/-- The elements of an array, separated by commas. -/
def JsonValue.listToString : List JsonValue → String
  | [] => ""
  | [v] => v.toString
  | v :: vs => v.toString ++ "," ++ JsonValue.listToString vs

/-- The fields of an object, `"key":value`, separated by commas. -/
def JsonValue.fieldsToString : List (String × JsonValue) → String
  | [] => ""
  | [(k, v)] => jsonString k ++ ":" ++ v.toString
  | (k, v) :: m => jsonString k ++ ":" ++ v.toString ++ "," ++ JsonValue.fieldsToString m
end

end Mononoke.RepoClient
