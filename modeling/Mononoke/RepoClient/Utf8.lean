/-
Mononoke.RepoClient.Utf8 — UTF-8 as the modelled code meets it: the
standard library's `String.utf8EncodeChar` (`str::as_bytes`), and the
decoders of `Mononoke.RepoClient.Format` (`String::from_utf8_lossy`,
`String::from_utf8`, `decode_utf8`).

* `utf8EncodeChar_cases`: the encoding of a character byte by byte, as
  numbers: one byte below `0x80`, or a first byte that announces two, three
  or four bytes and continuation bytes carrying six bits each.
* `fromUtf8_flatMap_utf8EncodeChar`: decoding the encoding of any
  characters validates and gives them back, so `from_utf8(s.as_bytes())` is
  `Ok(s)` for every string.
* `flatMap_utf8EncodeChar_ascii`: ASCII bytes read as characters encode to
  themselves, and a byte below `0x80` in an encoding is a character of its
  own (`eq_ofNat_of_mem_utf8EncodeChar`).

## How the proofs go

`utf8_byte_bits` checks once, on every byte, what masking and tagging a
byte does to its value; after it every fact about a byte is arithmetic on
`toNat`, closed by `omega`. `utf8_decode_one` to `utf8_decode_four` say what
the decoders do on a well-formed sequence of each length, whatever follows
it; `utf8EncodeChar_append` puts the two sides together for one character.
-/
import Mathlib.Algebra.Group.Nat.Basic
import Mononoke.RepoClient.Format

namespace Mononoke.RepoClient

/-! ## 1. Bytes as numbers -/

theorem uint8_lt_iff {a b : UInt8} : a < b ↔ a.toNat < b.toNat := Iff.rfl

theorem uint8_le_iff {a b : UInt8} : a ≤ b ↔ a.toNat ≤ b.toNat := Iff.rfl

theorem uint8_eq_iff {a b : UInt8} : a = b ↔ a.toNat = b.toNat :=
  ⟨congrArg _, fun h => UInt8.eq_of_toBitVec_eq (BitVec.eq_of_toNat_eq h)⟩

set_option maxRecDepth 4000 in
/-- The masks and tags of `utf8EncodeChar`, checked on every byte. -/
theorem utf8_byte_bits : ∀ n : Fin 256,
    ((⟨⟨n⟩⟩ : UInt8) &&& 0x3f ||| 0x80).toNat = n.val % 64 + 0x80 ∧
    ((⟨⟨n⟩⟩ : UInt8) &&& 0x1f ||| 0xc0).toNat = n.val % 32 + 0xC0 ∧
    ((⟨⟨n⟩⟩ : UInt8) &&& 0x0f ||| 0xe0).toNat = n.val % 16 + 0xE0 ∧
    ((⟨⟨n⟩⟩ : UInt8) &&& 0x07 ||| 0xf0).toNat = n.val % 8 + 0xF0 := by
  decide

theorem toNat_cont (x : UInt8) : (x &&& 0x3f ||| 0x80).toNat = x.toNat % 64 + 0x80 :=
  (utf8_byte_bits x.toBitVec.toFin).1

theorem toNat_lead2 (x : UInt8) : (x &&& 0x1f ||| 0xc0).toNat = x.toNat % 32 + 0xC0 :=
  (utf8_byte_bits x.toBitVec.toFin).2.1

theorem toNat_lead3 (x : UInt8) : (x &&& 0x0f ||| 0xe0).toNat = x.toNat % 16 + 0xE0 :=
  (utf8_byte_bits x.toBitVec.toFin).2.2.1

theorem toNat_lead4 (x : UInt8) : (x &&& 0x07 ||| 0xf0).toNat = x.toNat % 8 + 0xF0 :=
  (utf8_byte_bits x.toBitVec.toFin).2.2.2

theorem toNat_toUInt8 (v : UInt32) : v.toUInt8.toNat = v.toNat % 256 := by
  simp [UInt32.toUInt8, Nat.toUInt8, UInt8.toNat, UInt8.ofNat]

theorem toNat_shiftRight (v k : UInt32) (hk : k.toNat < 32) :
    (v >>> k).toNat = v.toNat / 2 ^ k.toNat := by
  show (v.toBitVec >>> (UInt32.mod k 32).toBitVec).toNat = _
  simp [BitVec.toNat_ushiftRight, Nat.shiftRight_eq_div_pow, UInt32.toNat, UInt32.mod]
  rw [Nat.mod_eq_of_lt (show k.toBitVec.toNat < 32 from hk)]

theorem isContinuationByte_iff (b : UInt8) :
    isContinuationByte b = true ↔ 0x80 ≤ b.toNat ∧ b.toNat < 0xC0 := by
  simp only [isContinuationByte, Bool.and_eq_true, decide_eq_true_eq, UInt8.le_def, UInt8.lt_def,
    BitVec.le_def, BitVec.lt_def]
  rfl

/-- The bytes `utf8EncodeChar` writes for a code point `n`: its low bits
tagged as a continuation byte, and its high bits tagged as a first byte. -/
theorem char_cont0 (c : Char) : (c.val.toUInt8 &&& 0x3f ||| 0x80).toNat = c.toNat % 64 + 0x80 := by
  rw [toNat_cont, toNat_toUInt8]
  exact congrArg (· + 0x80) (Nat.mod_mod_of_dvd _ (by decide))

theorem char_shift (c : Char) (k : UInt32) (hk : k.toNat < 32) :
    (c.val >>> k).toUInt8.toNat = c.toNat / 2 ^ k.toNat % 256 := by
  rw [toNat_toUInt8, toNat_shiftRight c.val k hk]
  rfl

theorem char_cont6 (c : Char) :
    ((c.val >>> 6).toUInt8 &&& 0x3f ||| 0x80).toNat = c.toNat / 64 % 64 + 0x80 := by
  rw [toNat_cont, char_shift c 6 (by decide)]
  exact congrArg (· + 0x80) (Nat.mod_mod_of_dvd _ (by decide))

theorem char_cont12 (c : Char) :
    ((c.val >>> 12).toUInt8 &&& 0x3f ||| 0x80).toNat = c.toNat / 4096 % 64 + 0x80 := by
  rw [toNat_cont, char_shift c 12 (by decide)]
  exact congrArg (· + 0x80) (Nat.mod_mod_of_dvd _ (by decide))

theorem char_lead2 (c : Char) :
    ((c.val >>> 6).toUInt8 &&& 0x1f ||| 0xc0).toNat = c.toNat / 64 % 32 + 0xC0 := by
  rw [toNat_lead2, char_shift c 6 (by decide)]
  exact congrArg (· + 0xC0) (Nat.mod_mod_of_dvd _ (by decide))

theorem char_lead3 (c : Char) :
    ((c.val >>> 12).toUInt8 &&& 0x0f ||| 0xe0).toNat = c.toNat / 4096 % 16 + 0xE0 := by
  rw [toNat_lead3, char_shift c 12 (by decide)]
  exact congrArg (· + 0xE0) (Nat.mod_mod_of_dvd _ (by decide))

theorem char_lead4 (c : Char) :
    ((c.val >>> 18).toUInt8 &&& 0x07 ||| 0xf0).toNat = c.toNat / 262144 % 8 + 0xF0 := by
  rw [toNat_lead4, char_shift c 18 (by decide)]
  exact congrArg (· + 0xF0) (Nat.mod_mod_of_dvd _ (by decide))

/-! ## 2. What the encoder writes, the decoders accept -/

theorem utf8CharWidth_eq (b : UInt8) : utf8CharWidth b =
    if b.toNat < 0x80 then 1 else if b.toNat < 0xC2 then 0 else if b.toNat < 0xE0 then 2
    else if b.toNat < 0xF0 then 3 else if b.toNat < 0xF5 then 4 else 0 := rfl

theorem secondByteOk3_iff (b c : UInt8) : secondByteOk3 b c = true ↔
    (b.toNat = 0xE0 ∧ 0xA0 ≤ c.toNat ∧ c.toNat ≤ 0xBF) ∨
    (0xE1 ≤ b.toNat ∧ b.toNat ≤ 0xEC ∧ 0x80 ≤ c.toNat ∧ c.toNat < 0xC0) ∨
    (b.toNat = 0xED ∧ 0x80 ≤ c.toNat ∧ c.toNat ≤ 0x9F) ∨
    (0xEE ≤ b.toNat ∧ b.toNat ≤ 0xEF ∧ 0x80 ≤ c.toNat ∧ c.toNat < 0xC0) := by
  simp only [secondByteOk3, Bool.or_eq_true, Bool.and_eq_true, beq_iff_eq, decide_eq_true_eq,
    isContinuationByte_iff, uint8_eq_iff, uint8_le_iff, and_assoc, or_assoc]
  rfl

theorem secondByteOk4_iff (b c : UInt8) : secondByteOk4 b c = true ↔
    (b.toNat = 0xF0 ∧ 0x90 ≤ c.toNat ∧ c.toNat ≤ 0xBF) ∨
    (0xF1 ≤ b.toNat ∧ b.toNat ≤ 0xF3 ∧ 0x80 ≤ c.toNat ∧ c.toNat < 0xC0) ∨
    (b.toNat = 0xF4 ∧ 0x80 ≤ c.toNat ∧ c.toNat ≤ 0x8F) := by
  simp only [secondByteOk4, Bool.or_eq_true, Bool.and_eq_true, beq_iff_eq, decide_eq_true_eq,
    isContinuationByte_iff, uint8_eq_iff, uint8_le_iff, and_assoc, or_assoc]
  rfl

/-- A sufficient condition for `secondByteOk3`, one first byte at a time. -/
theorem secondByteOk3_of {b c : UInt8} (hb : 0xE0 ≤ b.toNat ∧ b.toNat < 0xF0)
    (hc : 0x80 ≤ c.toNat ∧ c.toNat < 0xC0) (hE0 : b.toNat = 0xE0 → 0xA0 ≤ c.toNat)
    (hED : b.toNat = 0xED → c.toNat < 0xA0) : secondByteOk3 b c = true := by
  rw [secondByteOk3_iff]
  rcases Nat.lt_or_ge b.toNat 0xE1 with h₁ | h₁
  · exact .inl ⟨by omega, hE0 (by omega), by omega⟩
  rcases Nat.lt_or_ge b.toNat 0xED with h₂ | h₂
  · exact .inr (.inl ⟨h₁, by omega, hc⟩)
  rcases Nat.lt_or_ge b.toNat 0xEE with h₃ | h₃
  · exact .inr (.inr (.inl ⟨by omega, hc.1, by have := hED (by omega); omega⟩))
  · exact .inr (.inr (.inr ⟨h₃, by omega, hc⟩))

/-- A sufficient condition for `secondByteOk4`, one first byte at a time. -/
theorem secondByteOk4_of {b c : UInt8} (hb : 0xF0 ≤ b.toNat ∧ b.toNat < 0xF5)
    (hc : 0x80 ≤ c.toNat ∧ c.toNat < 0xC0) (hF0 : b.toNat = 0xF0 → 0x90 ≤ c.toNat)
    (hF4 : b.toNat = 0xF4 → c.toNat < 0x90) : secondByteOk4 b c = true := by
  rw [secondByteOk4_iff]
  rcases Nat.lt_or_ge b.toNat 0xF1 with h₁ | h₁
  · exact .inl ⟨by omega, hF0 (by omega), by omega⟩
  rcases Nat.lt_or_ge b.toNat 0xF4 with h₂ | h₂
  · exact .inr (.inl ⟨h₁, by omega, hc⟩)
  · exact .inr (.inr ⟨by omega, hc.1, by have := hF4 (by omega); omega⟩)

theorem decodeSeq_eq {lead : Nat} {conts : List UInt8} {c : Char}
    (h : conts.foldl (fun v b => v * 64 + b.toNat % 64) lead = c.toNat) :
    decodeSeq lead conts = c := by
  rw [decodeSeq, h, Char.ofNat_toNat]

/-- `decodeSeq`'s fold over one, two or three continuation bytes. -/
theorem foldl_conts_one (lead : Nat) (a : UInt8) :
    [a].foldl (fun v b => v * 64 + b.toNat % 64) lead = lead * 64 + a.toNat % 64 := rfl

theorem foldl_conts_two (lead : Nat) (a b : UInt8) :
    [a, b].foldl (fun v b => v * 64 + b.toNat % 64) lead =
      (lead * 64 + a.toNat % 64) * 64 + b.toNat % 64 := rfl

theorem foldl_conts_three (lead : Nat) (a b d : UInt8) :
    [a, b, d].foldl (fun v b => v * 64 + b.toNat % 64) lead =
      ((lead * 64 + a.toNat % 64) * 64 + b.toNat % 64) * 64 + d.toNat % 64 := rfl

/-- The second byte of a three- or four-byte sequence is a continuation
byte. -/
theorem isContinuationByte_of_secondByteOk {b c : UInt8}
    (h : secondByteOk3 b c = true ∨ secondByteOk4 b c = true) : isContinuationByte c = true := by
  rw [secondByteOk3_iff, secondByteOk4_iff] at h
  rw [isContinuationByte_iff]
  omega

/-- `utf8EncodeChar` writes one byte below `0x80`, or a well-formed sequence
of two, three or four bytes, and the decoders read the character back from
it. -/
theorem utf8EncodeChar_cases (c : Char) :
    (∃ b, String.utf8EncodeChar c = [b] ∧ b.toNat < 0x80 ∧ Char.ofNat b.toNat = c) ∨
    (∃ b₀ b₁, String.utf8EncodeChar c = [b₀, b₁] ∧ (0xC2 ≤ b₀.toNat ∧ b₀.toNat < 0xE0) ∧
      isContinuationByte b₁ = true ∧ decodeSeq (b₀.toNat % 32) [b₁] = c) ∨
    (∃ b₀ b₁ b₂, String.utf8EncodeChar c = [b₀, b₁, b₂] ∧ (0xE0 ≤ b₀.toNat ∧ b₀.toNat < 0xF0) ∧
      secondByteOk3 b₀ b₁ = true ∧ isContinuationByte b₂ = true ∧
      decodeSeq (b₀.toNat % 16) [b₁, b₂] = c) ∨
    (∃ b₀ b₁ b₂ b₃, String.utf8EncodeChar c = [b₀, b₁, b₂, b₃] ∧
      (0xF0 ≤ b₀.toNat ∧ b₀.toNat < 0xF5) ∧ secondByteOk4 b₀ b₁ = true ∧
      isContinuationByte b₂ = true ∧ isContinuationByte b₃ = true ∧
      decodeSeq (b₀.toNat % 8) [b₁, b₂, b₃] = c) := by
  have hvalid : c.toNat < 0xD800 ∨ (0xDFFF < c.toNat ∧ c.toNat < 0x110000) := c.valid
  have hcont : ∀ x : UInt8, 0x80 ≤ x.toNat ∧ x.toNat < 0xC0 → isContinuationByte x = true :=
    fun x => (isContinuationByte_iff x).2
  unfold String.utf8EncodeChar
  dsimp only
  split_ifs with h1 h2 h3
  · replace h1 : c.toNat ≤ 0x7f := h1
    clear hvalid
    refine .inl ⟨_, rfl, ?_, ?_⟩ <;> rw [toNat_toUInt8]
    · exact lt_of_le_of_lt (Nat.mod_le _ _) (by change c.toNat < 0x80; omega)
    · rw [Nat.mod_eq_of_lt (by change c.toNat < 256; omega)]
      exact Char.ofNat_toNat c
  · replace h1 : ¬ c.toNat ≤ 0x7f := h1
    replace h2 : c.toNat ≤ 0x7ff := h2
    clear hvalid
    refine .inr (.inl ⟨_, _, rfl, ?_, hcont _ ?_, decodeSeq_eq ?_⟩) <;>
      simp only [foldl_conts_one, char_lead2, char_cont0] <;> omega
  · replace h2 : ¬ c.toNat ≤ 0x7ff := h2
    replace h3 : c.toNat ≤ 0xffff := h3
    replace hvalid : c.toNat < 0xD800 ∨ 0xE000 ≤ c.toNat := by omega
    refine .inr (.inr (.inl ⟨_, _, _, rfl, ?_, secondByteOk3_of ?_ ?_ ?_ ?_, hcont _ ?_,
      decodeSeq_eq ?_⟩)) <;>
      simp only [foldl_conts_two, char_lead3, char_cont6, char_cont0] <;> omega
  · replace h3 : ¬ c.toNat ≤ 0xffff := h3
    replace hvalid : c.toNat < 0x110000 := by omega
    refine .inr (.inr (.inr ⟨_, _, _, _, rfl, ?_, secondByteOk4_of ?_ ?_ ?_ ?_, hcont _ ?_,
      hcont _ ?_, decodeSeq_eq ?_⟩)) <;>
      simp only [foldl_conts_three, char_lead4, char_cont12, char_cont6, char_cont0] <;> omega

/-- Every character's encoding is a first byte that is not a continuation
byte, then continuation bytes. -/
theorem utf8EncodeChar_lead_cont (c : Char) : ∃ b bs, String.utf8EncodeChar c = b :: bs ∧
    isContinuationByte b = false ∧ ∀ x ∈ bs, isContinuationByte x = true := by
  have hlead : ∀ x : UInt8, x.toNat < 0x80 ∨ 0xC0 ≤ x.toNat → isContinuationByte x = false :=
    fun x hx => Bool.eq_false_iff.2 fun h => by rw [isContinuationByte_iff] at h; omega
  rcases utf8EncodeChar_cases c with ⟨b, he, hb, -⟩ | ⟨b₀, b₁, he, hb₀, hb₁, -⟩ |
    ⟨b₀, b₁, b₂, he, hb₀, hb₁, hb₂, -⟩ | ⟨b₀, b₁, b₂, b₃, he, hb₀, hb₁, hb₂, hb₃, -⟩ <;>
    refine ⟨_, _, he, hlead _ (by omega), ?_⟩ <;>
    simp only [List.forall_mem_cons, List.not_mem_nil, IsEmpty.forall_iff, implies_true, and_true]
  · exact hb₁
  · exact ⟨isContinuationByte_of_secondByteOk (.inl hb₁), hb₂⟩
  · exact ⟨isContinuationByte_of_secondByteOk (.inr hb₁), hb₂, hb₃⟩

/-! ## 3. Decoding an encoding -/

theorem utf8_decode_one {b : UInt8} (hb : b.toNat < 0x80) (rest : List UInt8) :
    fromUtf8Lossy (b :: rest) = Char.ofNat b.toNat :: fromUtf8Lossy rest ∧
      utf8Valid (b :: rest) = utf8Valid rest := by
  have hlt : b < 0x80 := uint8_lt_iff.2 hb
  rw [fromUtf8Lossy.eq_def, utf8Valid.eq_def]
  simp only [hlt, if_true, and_self]

theorem utf8_decode_two {b₀ b₁ : UInt8} (h₀ : 0xC2 ≤ b₀.toNat ∧ b₀.toNat < 0xE0)
    (h₁ : isContinuationByte b₁ = true) (rest : List UInt8) :
    fromUtf8Lossy (b₀ :: b₁ :: rest) = decodeSeq (b₀.toNat % 32) [b₁] :: fromUtf8Lossy rest ∧
      utf8Valid (b₀ :: b₁ :: rest) = utf8Valid rest := by
  have hlt : ¬ b₀ < 0x80 := fun h => by rw [uint8_lt_iff] at h; change b₀.toNat < 128 at h; omega
  have hw : utf8CharWidth b₀ = 2 := by rw [utf8CharWidth_eq]; split_ifs <;> omega
  rw [fromUtf8Lossy.eq_def, utf8Valid.eq_def]
  simp only [hlt, if_false, hw, h₁, and_self, if_true]

theorem utf8_decode_three {b₀ b₁ b₂ : UInt8} (h₀ : 0xE0 ≤ b₀.toNat ∧ b₀.toNat < 0xF0)
    (h₁ : secondByteOk3 b₀ b₁ = true) (h₂ : isContinuationByte b₂ = true) (rest : List UInt8) :
    fromUtf8Lossy (b₀ :: b₁ :: b₂ :: rest) =
        decodeSeq (b₀.toNat % 16) [b₁, b₂] :: fromUtf8Lossy rest ∧
      utf8Valid (b₀ :: b₁ :: b₂ :: rest) = utf8Valid rest := by
  have hlt : ¬ b₀ < 0x80 := fun h => by rw [uint8_lt_iff] at h; change b₀.toNat < 128 at h; omega
  have hw : utf8CharWidth b₀ = 3 := by rw [utf8CharWidth_eq]; split_ifs <;> omega
  rw [fromUtf8Lossy.eq_def, utf8Valid.eq_def]
  simp [hlt, hw, h₁, h₂]

theorem utf8_decode_four {b₀ b₁ b₂ b₃ : UInt8} (h₀ : 0xF0 ≤ b₀.toNat ∧ b₀.toNat < 0xF5)
    (h₁ : secondByteOk4 b₀ b₁ = true) (h₂ : isContinuationByte b₂ = true)
    (h₃ : isContinuationByte b₃ = true) (rest : List UInt8) :
    fromUtf8Lossy (b₀ :: b₁ :: b₂ :: b₃ :: rest) =
        decodeSeq (b₀.toNat % 8) [b₁, b₂, b₃] :: fromUtf8Lossy rest ∧
      utf8Valid (b₀ :: b₁ :: b₂ :: b₃ :: rest) = utf8Valid rest := by
  have hlt : ¬ b₀ < 0x80 := fun h => by rw [uint8_lt_iff] at h; change b₀.toNat < 128 at h; omega
  have hw : utf8CharWidth b₀ = 4 := by rw [utf8CharWidth_eq]; split_ifs <;> omega
  rw [fromUtf8Lossy.eq_def, utf8Valid.eq_def]
  simp [hlt, hw, h₁, h₂, h₃]

/-- Decoding, and validating, the encoding of a character followed by any
bytes reads that character and goes on with the bytes. -/
theorem utf8EncodeChar_append (c : Char) (rest : List UInt8) :
    fromUtf8Lossy (String.utf8EncodeChar c ++ rest) = c :: fromUtf8Lossy rest ∧
      utf8Valid (String.utf8EncodeChar c ++ rest) = utf8Valid rest := by
  rcases utf8EncodeChar_cases c with ⟨b, he, hb, hd⟩ | ⟨b₀, b₁, he, hb₀, hb₁, hd⟩ |
    ⟨b₀, b₁, b₂, he, hb₀, hb₁, hb₂, hd⟩ | ⟨b₀, b₁, b₂, b₃, he, hb₀, hb₁, hb₂, hb₃, hd⟩ <;>
    rw [he, ← hd]
  · exact utf8_decode_one hb rest
  · exact utf8_decode_two hb₀ hb₁ rest
  · exact utf8_decode_three hb₀ hb₁ hb₂ rest
  · exact utf8_decode_four hb₀ hb₁ hb₂ hb₃ rest

/-- Decoding the encoding of any characters gives them back, and the bytes
are well-formed. -/
theorem fromUtf8Lossy_flatMap_utf8EncodeChar : ∀ cs : List Char,
    fromUtf8Lossy (cs.flatMap String.utf8EncodeChar) = cs ∧
      utf8Valid (cs.flatMap String.utf8EncodeChar) = true
  | [] => ⟨rfl, rfl⟩
  | c :: cs => by
    rw [List.flatMap_cons, (utf8EncodeChar_append c _).1, (utf8EncodeChar_append c _).2]
    exact ⟨congrArg _ (fromUtf8Lossy_flatMap_utf8EncodeChar cs).1,
      (fromUtf8Lossy_flatMap_utf8EncodeChar cs).2⟩

/-- `String::from_utf8(s.as_bytes())` is `Ok(s)`. -/
theorem fromUtf8_flatMap_utf8EncodeChar (s : String) :
    fromUtf8 (s.data.flatMap String.utf8EncodeChar) = some s := by
  rw [fromUtf8, if_pos (fromUtf8Lossy_flatMap_utf8EncodeChar s.data).2,
    (fromUtf8Lossy_flatMap_utf8EncodeChar s.data).1]

/-! ## 4. ASCII -/

/-- A valid code point is its own character. -/
theorem toNat_ofNat_of_valid {n : Nat} (h : n < 0xD800 ∨ (0xDFFF < n ∧ n < 0x110000)) :
    (Char.ofNat n).toNat = n := by
  rw [Char.ofNat, dif_pos h]
  rfl

theorem toNat_ofNat_of_lt {n : Nat} (h : n < 0x80) : (Char.ofNat n).toNat = n :=
  toNat_ofNat_of_valid (.inl (by omega))

/-- An ASCII byte read as a character encodes to itself. -/
theorem utf8EncodeChar_ofNat_ascii {b : UInt8} (hb : b.toNat < 0x80) :
    String.utf8EncodeChar (Char.ofNat b.toNat) = [b] := by
  have hc := toNat_ofNat_of_lt hb
  have hle : (Char.ofNat b.toNat).val ≤ 0x7f := show (Char.ofNat b.toNat).toNat ≤ 0x7f by omega
  unfold String.utf8EncodeChar
  dsimp only
  rw [if_pos hle, List.singleton_inj, uint8_eq_iff, toNat_toUInt8]
  exact (congrArg (· % 256) hc).trans (Nat.mod_eq_of_lt (by omega))

theorem flatMap_utf8EncodeChar_ascii : ∀ bs : List UInt8, (∀ x ∈ bs, x.toNat < 0x80) →
    (bs.map fun b => Char.ofNat b.toNat).flatMap String.utf8EncodeChar = bs
  | [], _ => rfl
  | b :: bs, h => by
    rw [List.map_cons, List.flatMap_cons, utf8EncodeChar_ofNat_ascii (h b (.head _)),
      flatMap_utf8EncodeChar_ascii bs fun x hx => h x (.tail _ hx)]
    rfl

/-- A byte below `0x80` in the encoding of a character is that character:
the bytes of a longer sequence are all `0x80` or above. -/
theorem eq_ofNat_of_mem_utf8EncodeChar {c : Char} {x : UInt8}
    (hx : x ∈ String.utf8EncodeChar c) (hlt : x.toNat < 0x80) : c = Char.ofNat x.toNat := by
  have hhigh : ∀ y : UInt8, isContinuationByte y = true → 0x80 ≤ y.toNat :=
    fun y hy => ((isContinuationByte_iff y).1 hy).1
  rcases utf8EncodeChar_cases c with ⟨b, he, -, hd⟩ | ⟨b₀, b₁, he, hb₀, hb₁, -⟩ |
    ⟨b₀, b₁, b₂, he, hb₀, hb₁, hb₂, -⟩ | ⟨b₀, b₁, b₂, b₃, he, hb₀, hb₁, hb₂, hb₃, -⟩ <;>
    rw [he] at hx <;> simp only [List.mem_cons, List.not_mem_nil, or_false, uint8_eq_iff] at hx
  · rw [hx, hd]
  · have := hhigh _ hb₁; omega
  · have := hhigh _ hb₂; rw [secondByteOk3_iff] at hb₁; omega
  · have := hhigh _ hb₂; have := hhigh _ hb₃; rw [secondByteOk4_iff] at hb₁; omega

/-! ## 5. Encoding a decoding -/

/-- What a first byte's width says about it. -/
theorem range_of_utf8CharWidth {b : UInt8} :
    (utf8CharWidth b = 2 → 0xC2 ≤ b.toNat ∧ b.toNat < 0xE0) ∧
    (utf8CharWidth b = 3 → 0xE0 ≤ b.toNat ∧ b.toNat < 0xF0) ∧
    (utf8CharWidth b = 4 → 0xF0 ≤ b.toNat ∧ b.toNat < 0xF5) := by
  refine ⟨fun h => ?_, fun h => ?_, fun h => ?_⟩ <;> rw [utf8CharWidth_eq] at h <;>
    split_ifs at h <;> omega

/-- What a validation of a nonempty byte string reads first: one byte below
`0x80`, or a well-formed sequence of two, three or four bytes. -/
theorem utf8Valid_cons_cases {b : UInt8} {rest : List UInt8} (h : utf8Valid (b :: rest) = true) :
    (b.toNat < 0x80 ∧ utf8Valid rest = true) ∨
    (∃ b₁ r, rest = b₁ :: r ∧ (0xC2 ≤ b.toNat ∧ b.toNat < 0xE0) ∧ isContinuationByte b₁ = true ∧
      utf8Valid r = true) ∨
    (∃ b₁ b₂ r, rest = b₁ :: b₂ :: r ∧ (0xE0 ≤ b.toNat ∧ b.toNat < 0xF0) ∧
      secondByteOk3 b b₁ = true ∧ isContinuationByte b₂ = true ∧ utf8Valid r = true) ∨
    (∃ b₁ b₂ b₃ r, rest = b₁ :: b₂ :: b₃ :: r ∧ (0xF0 ≤ b.toNat ∧ b.toNat < 0xF5) ∧
      secondByteOk4 b b₁ = true ∧ isContinuationByte b₂ = true ∧ isContinuationByte b₃ = true ∧
      utf8Valid r = true) := by
  obtain ⟨hw2, hw3, hw4⟩ := range_of_utf8CharWidth (b := b)
  rw [utf8Valid.eq_def] at h
  by_cases h0 : b < 0x80
  · exact .inl ⟨uint8_lt_iff.1 h0, by simpa [h0] using h⟩
  simp only [h0, if_false] at h
  rcases rest with _ | ⟨b₁, r⟩
  · cases h
  by_cases h2 : utf8CharWidth b = 2 ∧ isContinuationByte b₁ = true
  · exact .inr (.inl ⟨b₁, r, rfl, hw2 h2.1, h2.2, by simpa [h2] using h⟩)
  by_cases h3 : utf8CharWidth b = 3 ∧ secondByteOk3 b b₁ = true
  · rcases r with _ | ⟨b₂, r⟩
    · simp [h2, h3] at h
    · simp [h2, h3] at h
      exact .inr (.inr (.inl ⟨b₁, b₂, r, rfl, hw3 h3.1, h3.2, h⟩))
  by_cases h4 : utf8CharWidth b = 4 ∧ secondByteOk4 b b₁ = true
  · rcases r with _ | ⟨b₂, _ | ⟨b₃, r⟩⟩
    · simp [h2, h3, h4] at h
    · simp [h2, h3, h4] at h
    · simp [h2, h3, h4] at h
      exact .inr (.inr (.inr ⟨b₁, b₂, b₃, r, rfl, hw4 h4.1, h4.2, h.1, h.2⟩))
  · simp [h2, h3, h4] at h

theorem utf8EncodeChar_two {c : Char} (h₁ : 0x80 ≤ c.toNat) (h₂ : c.toNat < 0x800) :
    String.utf8EncodeChar c =
      [(c.val >>> 6).toUInt8 &&& 0x1f ||| 0xc0, c.val.toUInt8 &&& 0x3f ||| 0x80] := by
  have n1 : ¬ c.val ≤ 0x7f := show ¬ c.toNat ≤ 0x7f by omega
  have p2 : c.val ≤ 0x7ff := show c.toNat ≤ 0x7ff by omega
  unfold String.utf8EncodeChar
  rw [if_neg n1, if_pos p2]

theorem utf8EncodeChar_three {c : Char} (h₁ : 0x800 ≤ c.toNat) (h₂ : c.toNat < 0x10000) :
    String.utf8EncodeChar c =
      [(c.val >>> 12).toUInt8 &&& 0x0f ||| 0xe0, (c.val >>> 6).toUInt8 &&& 0x3f ||| 0x80,
        c.val.toUInt8 &&& 0x3f ||| 0x80] := by
  have n1 : ¬ c.val ≤ 0x7f := show ¬ c.toNat ≤ 0x7f by omega
  have n2 : ¬ c.val ≤ 0x7ff := show ¬ c.toNat ≤ 0x7ff by omega
  have p3 : c.val ≤ 0xffff := show c.toNat ≤ 0xffff by omega
  unfold String.utf8EncodeChar
  rw [if_neg n1, if_neg n2, if_pos p3]

theorem utf8EncodeChar_four {c : Char} (h₁ : 0x10000 ≤ c.toNat) :
    String.utf8EncodeChar c =
      [(c.val >>> 18).toUInt8 &&& 0x07 ||| 0xf0, (c.val >>> 12).toUInt8 &&& 0x3f ||| 0x80,
        (c.val >>> 6).toUInt8 &&& 0x3f ||| 0x80, c.val.toUInt8 &&& 0x3f ||| 0x80] := by
  have n1 : ¬ c.val ≤ 0x7f := show ¬ c.toNat ≤ 0x7f by omega
  have n2 : ¬ c.val ≤ 0x7ff := show ¬ c.toNat ≤ 0x7ff by omega
  have n3 : ¬ c.val ≤ 0xffff := show ¬ c.toNat ≤ 0xffff by omega
  unfold String.utf8EncodeChar
  rw [if_neg n1, if_neg n2, if_neg n3]

/-- A well-formed sequence of two bytes is the encoding of the character it
decodes to. -/
theorem utf8EncodeChar_decodeSeq_two {b₀ b₁ : UInt8} (h₀ : 0xC2 ≤ b₀.toNat ∧ b₀.toNat < 0xE0)
    (h₁ : isContinuationByte b₁ = true) :
    String.utf8EncodeChar (decodeSeq (b₀.toNat % 32) [b₁]) = [b₀, b₁] := by
  rw [isContinuationByte_iff] at h₁
  have hc : (decodeSeq (b₀.toNat % 32) [b₁]).toNat = b₀.toNat % 32 * 64 + b₁.toNat % 64 := by
    rw [decodeSeq, foldl_conts_one]
    exact toNat_ofNat_of_valid (.inl (by omega))
  rw [utf8EncodeChar_two (by omega) (by omega)]
  simp only [List.cons.injEq, uint8_eq_iff, char_lead2, char_cont0, hc, and_true]
  omega

theorem utf8EncodeChar_decodeSeq_three {b₀ b₁ b₂ : UInt8} (h₀ : 0xE0 ≤ b₀.toNat ∧ b₀.toNat < 0xF0)
    (h₁ : secondByteOk3 b₀ b₁ = true) (h₂ : isContinuationByte b₂ = true) :
    String.utf8EncodeChar (decodeSeq (b₀.toNat % 16) [b₁, b₂]) = [b₀, b₁, b₂] := by
  have hb₁ := (isContinuationByte_iff b₁).1 (isContinuationByte_of_secondByteOk (.inl h₁))
  rw [isContinuationByte_iff] at h₂
  -- the code point is at least `0x800`, below `0x10000` and not a surrogate
  have hn : 0x800 ≤ (b₀.toNat % 16 * 64 + b₁.toNat % 64) * 64 + b₂.toNat % 64 ∧
      (b₀.toNat % 16 * 64 + b₁.toNat % 64) * 64 + b₂.toNat % 64 < 0xD800 ∨
      0xE000 ≤ (b₀.toNat % 16 * 64 + b₁.toNat % 64) * 64 + b₂.toNat % 64 ∧
      (b₀.toNat % 16 * 64 + b₁.toNat % 64) * 64 + b₂.toNat % 64 < 0x10000 := by
    rw [secondByteOk3_iff] at h₁
    omega
  have hc : (decodeSeq (b₀.toNat % 16) [b₁, b₂]).toNat =
      (b₀.toNat % 16 * 64 + b₁.toNat % 64) * 64 + b₂.toNat % 64 := by
    rw [decodeSeq, foldl_conts_two]
    exact toNat_ofNat_of_valid (by omega)
  rw [utf8EncodeChar_three (by omega) (by omega)]
  simp only [List.cons.injEq, uint8_eq_iff, char_lead3, char_cont6, char_cont0, hc, and_true]
  omega

theorem utf8EncodeChar_decodeSeq_four {b₀ b₁ b₂ b₃ : UInt8}
    (h₀ : 0xF0 ≤ b₀.toNat ∧ b₀.toNat < 0xF5) (h₁ : secondByteOk4 b₀ b₁ = true)
    (h₂ : isContinuationByte b₂ = true) (h₃ : isContinuationByte b₃ = true) :
    String.utf8EncodeChar (decodeSeq (b₀.toNat % 8) [b₁, b₂, b₃]) = [b₀, b₁, b₂, b₃] := by
  have hb₁ := (isContinuationByte_iff b₁).1 (isContinuationByte_of_secondByteOk (.inr h₁))
  rw [isContinuationByte_iff] at h₂ h₃
  -- the code point is at least `0x10000` and below `0x110000`
  have hn : 0x10000 ≤ ((b₀.toNat % 8 * 64 + b₁.toNat % 64) * 64 + b₂.toNat % 64) * 64 + b₃.toNat % 64 ∧
      ((b₀.toNat % 8 * 64 + b₁.toNat % 64) * 64 + b₂.toNat % 64) * 64 + b₃.toNat % 64 < 0x110000 := by
    rw [secondByteOk4_iff] at h₁
    omega
  have hc : (decodeSeq (b₀.toNat % 8) [b₁, b₂, b₃]).toNat =
      ((b₀.toNat % 8 * 64 + b₁.toNat % 64) * 64 + b₂.toNat % 64) * 64 + b₃.toNat % 64 := by
    rw [decodeSeq, foldl_conts_three]
    exact toNat_ofNat_of_valid (.inr (by omega))
  rw [utf8EncodeChar_four (by omega)]
  simp only [List.cons.injEq, uint8_eq_iff, char_lead4, char_cont12, char_cont6, char_cont0, hc,
    and_true]
  omega

/-- Encoding what well-formed bytes decode to gives the bytes back. -/
theorem flatMap_fromUtf8Lossy : ∀ bs : List UInt8, utf8Valid bs = true →
    (fromUtf8Lossy bs).flatMap String.utf8EncodeChar = bs
  | [], _ => rfl
  | b :: rest, h => by
    rcases utf8Valid_cons_cases h with ⟨hb, hr⟩ | ⟨b₁, r, rfl, hb, h₁, hr⟩ |
      ⟨b₁, b₂, r, rfl, hb, h₁, h₂, hr⟩ | ⟨b₁, b₂, b₃, r, rfl, hb, h₁, h₂, h₃, hr⟩
    · rw [(utf8_decode_one hb rest).1, List.flatMap_cons, utf8EncodeChar_ofNat_ascii hb,
        flatMap_fromUtf8Lossy rest hr]
      rfl
    · rw [(utf8_decode_two hb h₁ r).1, List.flatMap_cons, utf8EncodeChar_decodeSeq_two hb h₁,
        flatMap_fromUtf8Lossy r hr]
      rfl
    · rw [(utf8_decode_three hb h₁ h₂ r).1, List.flatMap_cons,
        utf8EncodeChar_decodeSeq_three hb h₁ h₂, flatMap_fromUtf8Lossy r hr]
      rfl
    · rw [(utf8_decode_four hb h₁ h₂ h₃ r).1, List.flatMap_cons,
        utf8EncodeChar_decodeSeq_four hb h₁ h₂ h₃, flatMap_fromUtf8Lossy r hr]
      rfl
termination_by bs => bs.length

/-- `String::from_utf8` accepts exactly the encodings of strings, and
returns the string encoded. -/
theorem fromUtf8_eq_some_iff (bs : List UInt8) (s : String) :
    fromUtf8 bs = some s ↔ s.data.flatMap String.utf8EncodeChar = bs := by
  constructor
  · intro h
    rw [fromUtf8] at h
    split_ifs at h with hv
    cases h
    exact flatMap_fromUtf8Lossy bs hv
  · rintro rfl
    exact fromUtf8_flatMap_utf8EncodeChar s

end Mononoke.RepoClient
