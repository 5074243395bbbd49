/-
Mononoke.Wirepack.Reader — the parts of a wirepack (`mercurial::wirepack`),
which `getpackv1` hands to `WirePackPacker`, and a reader of a part stream.

A wirepack is a sequence of groups, one per path, then `End`. A group is a
`HistoryMeta` with the path and the number of `History` entries that follow,
those entries, then a `DataMeta` with the same path and the number of `Data`
entries that follow, and those entries. The counts are `u32`s. The packer is
not part of this source: `readWirepack` reads the grammar the spec gives,
one part at a time (`readStep`), and returns the groups it read.

* `readWirepack_groupParts`: the parts `groupParts` writes for a list of
  groups, then `End`, are read back as exactly those groups when each group
  has fewer than `2 ^ 32` entries of each kind, and are rejected otherwise:
  the `u32` count wraps, and the reader stops at the first entry past it.
* `readWirepack_sound`: every part stream the reader accepts is the parts of
  the groups it returns, then `End`; the grammar has no other sentences, and
  since a group's parts hold no `End` (`end_not_mem_groupParts`), no stream
  cut short between groups is accepted.

## How the proofs go

`Between r D` says that the reader `r` stands between groups, with the
groups `D` complete; from there `readStep` starts a group or ends the pack
(`readStep_of_between`). The history and the data of a group are read by
`foldlM_history` and `foldlM_data`, one lemma per run of entries; a whole
group by `foldlM_groupParts`, a list of groups by induction on it. The
converse follows the reader: `readStep_eq_some` says once what a step can
do, and `Consumed` says what the parts read so far are, at every state.
-/
import Mathlib.Algebra.Group.Nat.Basic
import Mononoke.Types

namespace Mononoke.Wirepack

/-! ## 1. Parts -/

/-- `Fragment` of a `Delta`: bytes `start..end` of the base replaced by
`content`. -/
structure Fragment where
  start : Nat
  «end» : Nat
  content : List UInt8
  deriving DecidableEq

/-- `Delta`: its fragments. -/
structure Delta where
  frags : List Fragment
  deriving DecidableEq

/-- `Delta::new_fulltext`: one fragment replacing the empty base by the
text. -/
def Delta.newFulltext (text : List UInt8) : Delta :=
  ⟨[⟨0, 0, text⟩]⟩

/-- `wirepack::HistoryEntry`. -/
structure HistoryEntry where
  node : HgNodeHash
  p1 : HgNodeHash
  p2 : HgNodeHash
  linknode : HgNodeHash
  copyFrom : Option RepoPath
  deriving DecidableEq

/-- `wirepack::DataEntry`. -/
structure DataEntry where
  node : HgNodeHash
  deltaBase : HgNodeHash
  delta : Delta
  deriving DecidableEq

/-- `wirepack::Part`. -/
inductive Part where
  | HistoryMeta (path : RepoPath) (entryCount : UInt32)
  | History (entry : HistoryEntry)
  | DataMeta (path : RepoPath) (entryCount : UInt32)
  | Data (entry : DataEntry)
  | End
  deriving DecidableEq

/-- A path's group: its history entries and its data entries. -/
structure PackGroup where
  path : RepoPath
  history : List HistoryEntry
  data : List DataEntry
  deriving DecidableEq

/-- The parts of one group, each count `len() as u32`. -/
def groupParts (g : PackGroup) : List Part :=
  .HistoryMeta g.path g.history.length.toUInt32 :: g.history.map .History ++
    .DataMeta g.path g.data.length.toUInt32 :: g.data.map .Data

/-! ## 2. The reader -/

/-- Where a reader of a part stream stands. -/
inductive ReadState where
  /-- Before the first part. -/
  | start
  /-- In the history of `g`, `left` entries still to come. -/
  | history (g : PackGroup) (left : Nat)
  /-- In the data of `g`, `left` entries still to come. -/
  | data (g : PackGroup) (left : Nat)
  /-- After `End`. -/
  | ended

/-- The groups read so far, and where the reader stands. -/
structure Reader where
  done : List PackGroup
  state : ReadState

/-- Modelled from the spec: between groups, a `HistoryMeta` starts a group
and `End` ends the pack. -/
def startGroup (done : List PackGroup) : Part → Option Reader
  | .HistoryMeta path n => some ⟨done, .history ⟨path, [], []⟩ n.toNat⟩
  | .End => some ⟨done, .ended⟩
  | _ => none

/-- Modelled from the spec: one part read; `none` when it breaks the
grammar. A group is complete once its last data entry is read. -/
def readStep (r : Reader) (part : Part) : Option Reader :=
  match r.state, part with
  | .start, part => startGroup r.done part
  | .history g (k + 1), .History e => some ⟨r.done, .history { g with history := g.history ++ [e] } k⟩
  | .history g 0, .DataMeta path m => if path = g.path then some ⟨r.done, .data g m.toNat⟩ else none
  | .data g (k + 1), .Data e => some ⟨r.done, .data { g with data := g.data ++ [e] } k⟩
  | .data g 0, part => startGroup (r.done ++ [g]) part
  | _, _ => none

/-- Modelled from the spec: the groups of a part stream that follows the
grammar and ends with its one `End`. -/
def readWirepack (parts : List Part) : Option (List PackGroup) :=
  match parts.foldlM readStep ⟨[], .start⟩ with
  | some ⟨done, .ended⟩ => some done
  | _ => none

/-! ## 3. Reading what `groupParts` writes -/

/-- The reader stands between groups, with the groups `D` complete. -/
def Between (r : Reader) (D : List PackGroup) : Prop :=
  (r.state = .start ∧ r.done = D) ∨ ∃ g, r.state = .data g 0 ∧ r.done ++ [g] = D

theorem readStep_of_between {r : Reader} {D : List PackGroup} (h : Between r D) (part : Part) :
    readStep r part = startGroup D part := by
  rcases r with ⟨done, state⟩
  rcases h with ⟨rfl, rfl⟩ | ⟨g, rfl, rfl⟩ <;> rfl

theorem foldlM_history (D : List PackGroup) :
    ∀ (hs : List HistoryEntry) (g : PackGroup),
      (hs.map .History).foldlM readStep ⟨D, .history g hs.length⟩ =
        some ⟨D, .history { g with history := g.history ++ hs } 0⟩
  | [], _ => by simp
  | e :: hs, g => by
    simpa [readStep] using foldlM_history D hs { g with history := g.history ++ [e] }

theorem foldlM_data (D : List PackGroup) :
    ∀ (ds : List DataEntry) (g : PackGroup),
      (ds.map .Data).foldlM readStep ⟨D, .data g ds.length⟩ =
        some ⟨D, .data { g with data := g.data ++ ds } 0⟩
  | [], _ => by simp
  | e :: ds, g => by
    simpa [readStep] using foldlM_data D ds { g with data := g.data ++ [e] }

theorem toNat_toUInt32 {n : Nat} (h : n < 2 ^ 32) : n.toUInt32.toNat = n :=
  UInt32.toNat_ofNat_of_lt h

/-- A group with fewer than `2 ^ 32` entries of each kind is read whole. -/
theorem foldlM_groupParts {r : Reader} {D : List PackGroup} (h : Between r D) (g : PackGroup)
    (hh : g.history.length < 2 ^ 32) (hd : g.data.length < 2 ^ 32) :
    (groupParts g).foldlM readStep r = some ⟨D, .data g 0⟩ := by
  rw [groupParts, List.foldlM_append, List.foldlM_cons, readStep_of_between h, startGroup,
    toNat_toUInt32 hh]
  simp only [Option.bind_eq_bind, Option.some_bind, foldlM_history, List.foldlM_cons, readStep,
    if_true, toNat_toUInt32 hd, foldlM_data]
  rfl

theorem foldlM_flatMap_groupParts :
    ∀ (gs : List PackGroup) {r : Reader} {D : List PackGroup}, Between r D →
      (∀ g ∈ gs, g.history.length < 2 ^ 32 ∧ g.data.length < 2 ^ 32) →
      ∃ r', (gs.flatMap groupParts).foldlM readStep r = some r' ∧ Between r' (D ++ gs)
  | [], r, D, h, _ => ⟨r, rfl, by simpa using h⟩
  | g :: gs, r, D, h, hsize => by
    obtain ⟨hh, hd⟩ := hsize g (List.mem_cons_self _ _)
    obtain ⟨r', hr', hb⟩ := foldlM_flatMap_groupParts gs
      (show Between ⟨D, .data g 0⟩ (D ++ [g]) from .inr ⟨g, rfl, rfl⟩)
      fun g' hg' => hsize g' (List.mem_cons_of_mem _ hg')
    refine ⟨r', ?_, by simpa using hb⟩
    rw [List.flatMap_cons, List.foldlM_append, foldlM_groupParts h g hh hd]
    exact hr'

/-- The parts written for a list of groups, then `End`, are read back as
those groups. -/
theorem readWirepack_groups (gs : List PackGroup)
    (hsize : ∀ g ∈ gs, g.history.length < 2 ^ 32 ∧ g.data.length < 2 ^ 32) :
    readWirepack (gs.flatMap groupParts ++ [.End]) = some gs := by
  obtain ⟨r, hr, hb⟩ := foldlM_flatMap_groupParts gs
    (show Between ⟨[], .start⟩ [] from .inl ⟨rfl, rfl⟩) hsize
  rw [readWirepack, List.foldlM_append, hr]
  simp [readStep_of_between hb, startGroup]

/-! ## 4. A count that wraps -/

/-- A run that reaches a part it cannot read stops there, whatever follows. -/
theorem foldlM_stuck {r r' : Reader} {l : List Part}
    (hl : l.foldlM readStep r = some r') (x : Part) (hx : readStep r' x = none) (rest : List Part) :
    (l ++ x :: rest).foldlM readStep r = none := by
  rw [List.foldlM_append, hl]
  simp [hx]

/-- A list of `2 ^ 32` elements or more has an element just past its length
`mod 2 ^ 32`, the count `len() as u32` announces. -/
theorem exists_split_of_wraps {α : Type} {l : List α} (h : 2 ^ 32 ≤ l.length) :
    ∃ l₁ x l₂, l = l₁ ++ x :: l₂ ∧ l₁.length = l.length.toUInt32.toNat := by
  have hn : l.length % 2 ^ 32 < l.length := lt_of_lt_of_le (Nat.mod_lt _ (Nat.two_pow_pos 32)) h
  refine ⟨l.take (l.length % 2 ^ 32), l.get ⟨_, hn⟩, l.drop (l.length % 2 ^ 32 + 1), by simp, ?_⟩
  rw [List.length_take, min_eq_left hn.le]
  rfl

/-- A group with `2 ^ 32` entries or more of a kind announces its count
`mod 2 ^ 32`, and the reader stops at the first entry past it. -/
theorem foldlM_groupParts_of_wraps {r : Reader} {D : List PackGroup} (h : Between r D) (g : PackGroup)
    (hw : 2 ^ 32 ≤ g.history.length ∨ (g.history.length < 2 ^ 32 ∧ 2 ^ 32 ≤ g.data.length))
    (rest : List Part) :
    (groupParts g ++ rest).foldlM readStep r = none := by
  rcases hw with hw | ⟨hh, hw⟩
  · obtain ⟨h₁, e, h₂, hsplit, hlen⟩ := exists_split_of_wraps hw
    have hrun : (.HistoryMeta g.path g.history.length.toUInt32 :: h₁.map Part.History).foldlM readStep r =
        some ⟨D, .history ⟨g.path, h₁, []⟩ 0⟩ := by
      rw [List.foldlM_cons, readStep_of_between h, startGroup, ← hlen]
      exact foldlM_history D h₁ ⟨g.path, [], []⟩
    have hstuck := foldlM_stuck hrun (.History e) rfl
      (h₂.map .History ++ (.DataMeta g.path g.data.length.toUInt32 :: g.data.map .Data) ++ rest)
    rw [← hstuck, groupParts, hsplit]
    simp
  · obtain ⟨d₁, e, d₂, hsplit, hlen⟩ := exists_split_of_wraps hw
    have hrun : (.HistoryMeta g.path g.history.length.toUInt32 :: g.history.map Part.History ++
        .DataMeta g.path g.data.length.toUInt32 :: d₁.map Part.Data).foldlM readStep r =
          some ⟨D, .data ⟨g.path, g.history, d₁⟩ 0⟩ := by
      rw [List.foldlM_append, List.foldlM_cons, readStep_of_between h, startGroup, toNat_toUInt32 hh]
      simp only [Option.bind_eq_bind, Option.some_bind, foldlM_history, List.foldlM_cons, readStep,
        if_true, ← hlen, foldlM_data]
      rfl
    have hstuck := foldlM_stuck hrun (.Data e) rfl (d₂.map .Data ++ rest)
    rw [← hstuck, groupParts, hsplit]
    simp

/-- The groups are read past only while they fit; at the first that does
not, the reader stops. -/
theorem foldlM_flatMap_groupParts_of_wraps :
    ∀ (gs : List PackGroup) {r : Reader} {D : List PackGroup}, Between r D →
      (∃ g ∈ gs, ¬ (g.history.length < 2 ^ 32 ∧ g.data.length < 2 ^ 32)) → ∀ tail : List Part,
      (gs.flatMap groupParts ++ tail).foldlM readStep r = none
  | [], _, _, _, ⟨_, hg, _⟩, _ => nomatch hg
  | g :: gs, r, D, h, ⟨g', hg', hw⟩, tail => by
    rw [List.flatMap_cons, List.append_assoc]
    by_cases hfit : g.history.length < 2 ^ 32 ∧ g.data.length < 2 ^ 32
    · rcases List.mem_cons.1 hg' with rfl | hg'
      · exact absurd hfit hw
      rw [List.foldlM_append, foldlM_groupParts h g hfit.1 hfit.2]
      exact foldlM_flatMap_groupParts_of_wraps gs (.inr ⟨g, rfl, rfl⟩) ⟨g', hg', hw⟩ tail
    · exact foldlM_groupParts_of_wraps h g (by omega) _

/-- The reader reads back the groups exactly when each has fewer than
`2 ^ 32` entries of each kind, and rejects the stream otherwise. -/
theorem readWirepack_groupParts (gs : List PackGroup) :
    readWirepack (gs.flatMap groupParts ++ [.End]) =
      if ∀ g ∈ gs, g.history.length < 2 ^ 32 ∧ g.data.length < 2 ^ 32 then some gs else none := by
  split_ifs with hfit
  · exact readWirepack_groups gs hfit
  · push_neg at hfit
    obtain ⟨g, hg, hw⟩ := hfit
    rw [readWirepack, foldlM_flatMap_groupParts_of_wraps gs (.inl ⟨rfl, rfl⟩)
      ⟨g, hg, fun h => absurd (hw h.1) (not_le.2 h.2)⟩]

/-! ## 5. What the reader accepts -/

/-- The parts a reader has consumed: the complete groups, then what it has
read of the current one, its counts being what has been read and what is
still to come. -/
def Consumed (r : Reader) (pre : List Part) : Prop :=
  match r.state with
  | .start => pre = r.done.flatMap groupParts
  | .history g k => g.data = [] ∧ g.history.length + k < 2 ^ 32 ∧
      pre = r.done.flatMap groupParts ++
        .HistoryMeta g.path (g.history.length + k).toUInt32 :: g.history.map .History
  | .data g k => g.history.length < 2 ^ 32 ∧ g.data.length + k < 2 ^ 32 ∧
      pre = r.done.flatMap groupParts ++
        (.HistoryMeta g.path g.history.length.toUInt32 :: g.history.map .History ++
          .DataMeta g.path (g.data.length + k).toUInt32 :: g.data.map .Data)
  | .ended => pre = r.done.flatMap groupParts ++ [.End]

theorem toUInt32_toNat (n : UInt32) : n.toNat.toUInt32 = n :=
  UInt32.toNat.inj (toNat_toUInt32 (UInt32.toNat_lt_size n))

/-- What one part read can do. -/
theorem readStep_eq_some {r r' : Reader} {part : Part} (h : readStep r part = some r') :
    (r.state = .start ∧ startGroup r.done part = some r') ∨
    (∃ g k e, r.state = .history g (k + 1) ∧ part = .History e ∧
      r' = ⟨r.done, .history { g with history := g.history ++ [e] } k⟩) ∨
    (∃ g m, r.state = .history g 0 ∧ part = .DataMeta g.path m ∧ r' = ⟨r.done, .data g m.toNat⟩) ∨
    (∃ g k e, r.state = .data g (k + 1) ∧ part = .Data e ∧
      r' = ⟨r.done, .data { g with data := g.data ++ [e] } k⟩) ∨
    (∃ g, r.state = .data g 0 ∧ startGroup (r.done ++ [g]) part = some r') := by
  rcases r with ⟨done, state⟩
  rcases state with _ | ⟨g, _ | k⟩ | ⟨g, _ | k⟩ | _
  · exact .inl ⟨rfl, h⟩
  · cases part <;> simp [readStep] at h
    obtain ⟨rfl, rfl⟩ := h
    exact .inr (.inr (.inl ⟨g, _, rfl, rfl, rfl⟩))
  · cases part <;> simp [readStep] at h
    exact .inr (.inl ⟨g, k, _, rfl, rfl, h.symm⟩)
  · exact .inr (.inr (.inr (.inr ⟨g, rfl, h⟩)))
  · cases part <;> simp [readStep] at h
    exact .inr (.inr (.inr (.inl ⟨g, k, _, rfl, rfl, h.symm⟩)))
  · cases part <;> simp [readStep] at h

theorem consumed_startGroup {D : List PackGroup} {pre : List Part} (hpre : pre = D.flatMap groupParts)
    {part : Part} {r' : Reader} (h : startGroup D part = some r') : Consumed r' (pre ++ [part]) := by
  cases part with
  | HistoryMeta path n =>
    cases h
    simpa [Consumed, hpre, toUInt32_toNat] using UInt32.toNat_lt_size n
  | End =>
    cases h
    simp [Consumed, hpre]
  | History _ | DataMeta _ _ | Data _ => cases h

/-- One part read keeps `Consumed`. -/
theorem consumed_readStep {r r' : Reader} {pre : List Part} (hc : Consumed r pre) {part : Part}
    (h : readStep r part = some r') : Consumed r' (pre ++ [part]) := by
  rcases readStep_eq_some h with ⟨hs, h⟩ | ⟨g, k, e, hs, rfl, rfl⟩ | ⟨g, m, hs, rfl, rfl⟩ |
      ⟨g, k, e, hs, rfl, rfl⟩ | ⟨g, hs, h⟩ <;> simp only [Consumed, hs] at hc ⊢
  · exact consumed_startGroup hc h
  · obtain ⟨hdata, hk, rfl⟩ := hc
    refine ⟨hdata, by simpa [Nat.add_assoc, Nat.add_comm 1] using hk, ?_⟩
    simp [Nat.add_assoc, Nat.add_comm 1]
  · obtain ⟨hdata, hk, rfl⟩ := hc
    simpa [hdata, toUInt32_toNat] using ⟨hk, UInt32.toNat_lt_size m⟩
  · obtain ⟨hh, hk, rfl⟩ := hc
    refine ⟨hh, by simpa [Nat.add_assoc, Nat.add_comm 1] using hk, ?_⟩
    simp [Nat.add_assoc, Nat.add_comm 1]
  · obtain ⟨-, -, rfl⟩ := hc
    exact consumed_startGroup (by simp [groupParts]) h

theorem consumed_foldlM :
    ∀ (l : List Part) {r r' : Reader} {pre : List Part}, Consumed r pre →
      l.foldlM readStep r = some r' → Consumed r' (pre ++ l)
  | [], _, _, _, hc, h => by
    cases h
    simpa using hc
  | part :: l, r, r', pre, hc, h => by
    rw [List.foldlM_cons] at h
    cases hs : readStep r part with
    | none => simp [hs] at h
    | some r₁ =>
      rw [hs, Option.bind_eq_bind, Option.some_bind] at h
      simpa using consumed_foldlM l (consumed_readStep hc hs) h

/-- Every part stream the reader accepts is the parts of the groups it
returns, then `End`: the grammar has no other sentences. -/
theorem readWirepack_sound {parts : List Part} {gs : List PackGroup}
    (h : readWirepack parts = some gs) : parts = gs.flatMap groupParts ++ [.End] := by
  rw [readWirepack] at h
  split at h
  · rename_i done hrun
    cases h
    simpa [Consumed] using consumed_foldlM parts (show Consumed ⟨[], .start⟩ [] from rfl) hrun
  · cases h

/-- A stream of one group: no history, one full text. -/
example : readWirepack [.HistoryMeta (.FilePath ⟨[[0x61]]⟩) 0, .DataMeta (.FilePath ⟨[[0x61]]⟩) 1,
      .Data ⟨HgNodeHash.ofByte 1, NULL_HASH, Delta.newFulltext [0x78]⟩, .End] =
    some [⟨.FilePath ⟨[[0x61]]⟩, [], [⟨HgNodeHash.ofByte 1, NULL_HASH, Delta.newFulltext [0x78]⟩]⟩] :=
  rfl

/-- A group's parts hold no `End`: only the pack's last part is one. -/
theorem end_not_mem_groupParts (g : PackGroup) : Part.End ∉ groupParts g := by
  simp [groupParts]

end Mononoke.Wirepack
