/-
Mononoke.RepoClient.GetbundleCaps — `parse_utf8_getbundle_caps`
(`repo_client/src/client/mod.rs`), which `create_bundle` applies to each
`bundlecaps` entry of a `getbundle` to find the `phases` capability of
`bundle2`.

An entry is `name=value`. The value is percent-encoded, and decodes to a list
of chunks separated by `\n`; a chunk is `key=v₁,v₂,…` with `key` and every
`vᵢ` percent-encoded again, and `=` absent when there are no values.

`percent_encoding::percent_decode` is `percentDecode`; `decode_utf8` and
`String::from_utf8` are `fromUtf8`. `str::split` is `List.splitOn` on the
characters, `splitn(2, '=')` is `splitn2`, a `HashMap` is a function to
`Option` updated by `insert`, and a `HashSet` a list without repeats built by
`List.insert`. The `?` operator makes every step fallible (`Option`).

* `parseCaps_empty_value`: `bundle2=`, the capability with an empty value,
  parses to a map holding one capability with the empty name, not to the
  empty map.

`create_bundle` runs the parser over the `bundlecaps` until a `bundle2` entry
with a `phases` capability decides whether phases are sent (`usePhases`).

`Mononoke.RepoClient.CapsEncoding` shows that on every other map the parser
inverts the encoding.
-/
import Mathlib.Data.List.Basic
import Mononoke.RepoClient.Format

namespace Mononoke.RepoClient

/-! ## 1. The parser -/

/-- `(b as char).to_digit(16)`. -/
def hexDigitVal (b : UInt8) : Option Nat :=
  if 0x30 ≤ b ∧ b ≤ 0x39 then some (b.toNat - 0x30)
  else if 0x41 ≤ b ∧ b ≤ 0x46 then some (b.toNat - 0x41 + 10)
  else if 0x61 ≤ b ∧ b ≤ 0x66 then some (b.toNat - 0x61 + 10)
  else none

/-- `percent_encoding::percent_decode`: `%` and two hexadecimal digits is the
byte they spell; any other `%` stays as it is. -/
def percentDecode : List UInt8 → List UInt8
  | [] => []
  | b :: rest =>
    if b = 0x25 then
      match rest with
      | [] => [b]
      | [h] => [b, h]
      | h :: l :: rest' =>
        match hexDigitVal h, hexDigitVal l with
        | some hv, some lv => (hv * 16 + lv).toUInt8 :: percentDecode rest'
        | _, _ => b :: percentDecode (h :: l :: rest')
    else b :: percentDecode rest

/-- `s.splitn(2, c)`: the part before the first `c`, and the rest if there
is a `c`. -/
def splitn2 (c : Char) (s : List Char) : List (List Char) :=
  match s.findIdx? (· == c) with
  | none => [s]
  | some i => [s.take i, s.drop (i + 1)]

/-- `HashMap<String, HashSet<String>>`. -/
def CapsMap : Type := String → Option (List String)

/-- The UTF-8 bytes of a `&str` given as its characters (`as_bytes`). -/
def charsBytes (cs : List Char) : List UInt8 := cs.flatMap String.utf8EncodeChar

/-- The inner `percent_decode(..).decode_utf8().ok()?`. -/
def decodePart (part : List Char) : Option String :=
  fromUtf8 (percentDecode (charsBytes part))

/-- One pass of the `for urlencoded_value in urlencoded_values.split(',')`
loop. -/
def insertValue (values : List String) (urlencodedValue : List Char) : Option (List String) := do
  let value ← decodePart urlencodedValue
  pure (values.insert value)

/-- One pass of the `for cap in caps.split('\n')` loop. -/
def parseCap (ans : CapsMap) (cap : List Char) : Option CapsMap := do
  let split := splitn2 '=' cap
  let urlencodedCapName ← split.head?
  let capName ← decodePart urlencodedCapName
  let values ← match split.get? 1 with
    | none => pure []
    | some urlencodedValues => (urlencodedValues.splitOn ',').foldlM insertValue []
  pure (Function.update ans capName (some values))

/-- `parse_utf8_getbundle_caps`. -/
def parseUtf8GetbundleCaps (caps : List UInt8) : Option (String × CapsMap) :=
  match caps.findIdx? (· == 0x3D) with
  | some pos => do
    let name ← fromUtf8 (caps.take pos)
    let capsStr ← fromUtf8 (percentDecode (caps.drop (pos + 1)))
    let ans ← (capsStr.data.splitOn '\n').foldlM parseCap fun _ => none
    pure (name, ans)
  | none => (fromUtf8 caps).map fun cap => (cap, fun _ => none)

/-! ## 2. An empty value -/

/-- `bundle2=` says that `bundle2` has no capabilities, and is parsed to a
map holding the capability `""`: `"".split('\n')` is one empty chunk. -/
theorem parseCaps_empty_value :
    ∃ M : CapsMap, parseUtf8GetbundleCaps (String.toUTF8 "bundle2=").data.toList = some ("bundle2", M) ∧
      M "" = some [] := by
  refine ⟨_, rfl, ?_⟩
  rfl

/-! ## 3. The phases of `create_bundle` -/

/-- The loop of `create_bundle` over the `bundlecaps`, run when the request
asks for phases: an entry that does not parse or is not `bundle2` is
skipped, and the first `bundle2` entry with a `phases` capability decides,
by whether it lists `heads`; with no such entry, phases stay on. -/
def usePhasesLoop : List (List UInt8) → Bool
  | [] => true
  | cap :: rest =>
    match parseUtf8GetbundleCaps cap with
    | some (capName, caps) =>
      if capName ≠ "bundle2" then usePhasesLoop rest
      else match caps "phases" with
        | some phases => phases.contains "heads"
        | none => usePhasesLoop rest
    | none => usePhasesLoop rest

/-- `use_phases` in `create_bundle`: the request's `phases` flag, then the
loop over its `bundlecaps`. -/
def usePhases (phases : Bool) (bundlecaps : List (List UInt8)) : Bool :=
  if phases then usePhasesLoop bundlecaps else false

/-- Entries that are not a `bundle2` entry with a `phases` capability are
skipped. -/
theorem usePhasesLoop_append_of_skip {pre : List (List UInt8)}
    (hpre : ∀ cap ∈ pre, ∀ capName caps, parseUtf8GetbundleCaps cap = some (capName, caps) →
      capName ≠ "bundle2" ∨ caps "phases" = none) (rest : List (List UInt8)) :
    usePhasesLoop (pre ++ rest) = usePhasesLoop rest := by
  induction pre with
  | nil => rfl
  | cons cap pre ih =>
    rw [List.cons_append, usePhasesLoop, ih fun c hc => hpre c (List.mem_cons_of_mem cap hc)]
    split
    · rename_i capName caps hparse
      rcases hpre cap (List.mem_cons_self cap pre) capName caps hparse with hname | hphases
      · simp [hname]
      · simp [hphases]
    · rfl

end Mononoke.RepoClient
