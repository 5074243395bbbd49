/-
Mononoke.RepoClient.Known — `RepoClient::known` and `RepoClient::knownnodes`
(`repo_client/src/client/mod.rs`).

Both commands ask `BlobRepo::get_hg_bonsai_mapping` for the bonsai ids of the
nodes, and `known` then asks `Phases::get_all` for their phases. Neither is in
the source tree: their answers are the parameters `getHgBonsaiMapping` and
`getAll`, and either may fail. A `HashMap` is a function to `Option`, built by
`insert`, which overwrites (`Function.update`); a `HashSet` is a list that is
only asked for membership. The logging around both commands is not modelled.

* `known_knownnodes`: when the mapping lists exactly the pairs
  `(hg, bonsai(hg))` of the mapped nodes and the repository maps no two hg
  ids to one bonsai id, both commands return one flag per node: `knownnodes`
  whether the node is mapped, `known` whether its bonsai id is `Public` in
  the phases `get_all` calculated.

## How the proofs go

`foldl_update_eq_some` and `foldl_update_isSome` say once what a `HashMap`
built by `insert`s holds. `bcsHgMapping_eq_some` inverts the mapping with
them; this is the one place injectivity is used.
-/
import Mathlib.Logic.Function.Basic
import Mononoke.RepoClient.Format

namespace Mononoke.RepoClient

/-! ## 1. The model -/

/-- `Phase`. -/
inductive Phase where
  | Draft
  | Public
  deriving DecidableEq, Repr

/-- The part of `Phases::get_all`'s answer that `known` reads: the
`calculated` map, whose keys are distinct. -/
structure PhasesMapping where
  calculated : List (ChangesetId × Phase)
  nodup : (calculated.map Prod.fst).Nodup

/-- A `HashMap` built by inserting the pairs of `l` in order. -/
def hashMapOf {γ α β : Type} [DecidableEq α] (key : γ → α) (val : γ → β) (l : List γ) : α → Option β :=
  l.foldl (fun m p => Function.update m (key p) (some (val p))) fun _ => none

/-- The map `bcs_hg_mapping` that `known` builds from the bonsai mapping. -/
def bcsHgMapping (hgBcsMapping : List (HgNodeHash × ChangesetId)) : ChangesetId → Option HgNodeHash :=
  hashMapOf Prod.snd Prod.fst hgBcsMapping

/-- The hg ids `known` finds public: the calculated phases filtered to
`Public` and mapped back through `bcs_hg_mapping`. -/
def foundHgChangesets (hgBcsMapping : List (HgNodeHash × ChangesetId)) (phases : PhasesMapping) :
    List HgNodeHash :=
  phases.calculated.filterMap fun (cs, phase) =>
    if phase = .Public then bcsHgMapping hgBcsMapping cs else none

/-- `RepoClient::known`. -/
def known (getHgBonsaiMapping : List HgNodeHash → Except String (List (HgNodeHash × ChangesetId)))
    (getAll : List ChangesetId → Except String PhasesMapping) (nodes : List HgNodeHash) :
    Except String (List Bool) := do
  let hgBcsMapping ← getHgBonsaiMapping nodes
  let phases ← getAll (hgBcsMapping.map Prod.snd)
  let found := foundHgChangesets hgBcsMapping phases
  pure (nodes.map fun node => decide (node ∈ found))

/-- `RepoClient::knownnodes`. -/
def knownnodes (getHgBonsaiMapping : List HgNodeHash → Except String (List (HgNodeHash × ChangesetId)))
    (nodes : List HgNodeHash) : Except String (List Bool) := do
  let hgBcsMapping ← getHgBonsaiMapping nodes
  let m := hashMapOf Prod.fst Prod.snd hgBcsMapping
  pure (nodes.map fun node => (m node).isSome)

/-! ## 2. Maps built by `insert` -/

section HashMap

variable {γ α β : Type} [DecidableEq α] (key : γ → α) (val : γ → β)

theorem foldl_update_eq_some : ∀ (l : List γ) (m : α → Option β) (k : α) (v : β),
    l.foldl (fun m p => Function.update m (key p) (some (val p))) m k = some v →
      (∃ p ∈ l, key p = k ∧ val p = v) ∨ m k = some v
  | [], _, _, _, h => .inr h
  | p :: l, m, k, v, h => by
    rcases foldl_update_eq_some l _ k v h with ⟨q, hq, hk⟩ | h'
    · exact .inl ⟨q, List.mem_cons_of_mem _ hq, hk⟩
    · simp only [Function.update_apply] at h'
      split_ifs at h' with hk
      · exact .inl ⟨p, List.mem_cons_self _ _, hk.symm, Option.some.inj h'⟩
      · exact .inr h'

theorem foldl_update_isSome : ∀ (l : List γ) (m : α → Option β) (k : α),
    (l.foldl (fun m p => Function.update m (key p) (some (val p))) m k).isSome ↔
      (∃ p ∈ l, key p = k) ∨ (m k).isSome
  | [], _, _ => by simp
  | p :: l, m, k => by
    rw [List.foldl_cons, foldl_update_isSome l, Function.update_apply]
    by_cases hk : k = key p
    · simp [hk]
    · simp only [hk, if_false, List.mem_cons, exists_eq_or_imp, Ne.symm hk, false_or]

/-- Inserts under other keys leave a key's entry as it was. -/
theorem foldl_update_of_not_mem {k : α} :
    ∀ {l : List γ}, k ∉ l.map key → ∀ m : α → Option β,
      l.foldl (fun m p => Function.update m (key p) (some (val p))) m k = m k
  | [], _, _ => rfl
  | p :: l, h, m => by
    rw [List.map_cons, List.mem_cons, not_or] at h
    rw [List.foldl_cons, foldl_update_of_not_mem h.2, Function.update_noteq h.1]

/-- With distinct keys, each pair's value is what its key ends up holding. -/
theorem foldl_update_of_mem {p : γ} :
    ∀ {l : List γ}, (l.map key).Nodup → p ∈ l → ∀ m : α → Option β,
      l.foldl (fun m p => Function.update m (key p) (some (val p))) m (key p) = some (val p)
  | q :: l, hnd, hp, m => by
    rw [List.map_cons, List.nodup_cons] at hnd
    rw [List.foldl_cons]
    rcases List.mem_cons.1 hp with rfl | hp
    · rw [foldl_update_of_not_mem key val hnd.1, Function.update_same]
    · exact foldl_update_of_mem hnd.2 hp _

theorem hashMapOf_eq_some {l : List γ} {k : α} {v : β} (h : hashMapOf key val l k = some v) :
    ∃ p ∈ l, key p = k ∧ val p = v :=
  (foldl_update_eq_some key val l _ k v h).resolve_right (by simp)

/-- A map built from pairs with distinct keys holds exactly those pairs. -/
theorem hashMapOf_eq_some_iff {l : List γ} (hnd : (l.map key).Nodup) (k : α) (v : β) :
    hashMapOf key val l k = some v ↔ ∃ p ∈ l, key p = k ∧ val p = v :=
  ⟨hashMapOf_eq_some key val, fun ⟨_, hp, hk, hv⟩ => hk ▸ hv ▸ foldl_update_of_mem key val hnd hp _⟩

theorem hashMapOf_isSome (l : List γ) (k : α) : (hashMapOf key val l k).isSome ↔ ∃ p ∈ l, key p = k := by
  rw [hashMapOf, foldl_update_isSome]
  simp

/-- What a map built by `insert`s holds at a key: the value of the last pair
with that key. -/
theorem hashMapOf_eq_getLast (l : List γ) (k : α) :
    hashMapOf key val l k = ((l.filter fun p => key p = k).getLast?).map val := by
  induction l using List.reverseRecOn with
  | nil => rfl
  | append_singleton l p ih =>
    rw [hashMapOf, List.foldl_append, List.foldl_cons, List.foldl_nil, ← hashMapOf,
      Function.update_apply, List.filter_append, ih]
    by_cases hk : k = key p
    · simp [hk]
    · simp [hk, Ne.symm hk]

end HashMap

/-! ## 3. The answers -/

section Answers

variable {bonsaiOf : HgNodeHash → Option ChangesetId} {nodes : List HgNodeHash}
  {hgBcsMapping : List (HgNodeHash × ChangesetId)}

/-- The mapping `get_hg_bonsai_mapping` returns for `nodes`: the pairs
`(hg, bonsai(hg))` of the mapped nodes, in any order, repeated or not. -/
def MappingOf (bonsaiOf : HgNodeHash → Option ChangesetId) (nodes : List HgNodeHash)
    (hgBcsMapping : List (HgNodeHash × ChangesetId)) : Prop :=
  ∀ hg bcs, (hg, bcs) ∈ hgBcsMapping ↔ hg ∈ nodes ∧ bonsaiOf hg = some bcs

/-- With an injective mapping, `bcs_hg_mapping` inverts it exactly. -/
theorem bcsHgMapping_eq_some (hmap : MappingOf bonsaiOf nodes hgBcsMapping)
    (hinj : ∀ a b bcs, bonsaiOf a = some bcs → bonsaiOf b = some bcs → a = b)
    (cs : ChangesetId) (hg : HgNodeHash) :
    bcsHgMapping hgBcsMapping cs = some hg ↔ (hg, cs) ∈ hgBcsMapping := by
  constructor
  · intro h
    obtain ⟨⟨hg', cs'⟩, hp, rfl, rfl⟩ := hashMapOf_eq_some Prod.snd Prod.fst h
    exact hp
  · intro hp
    obtain ⟨hg', hsome⟩ := Option.isSome_iff_exists.1
      ((hashMapOf_isSome Prod.snd Prod.fst hgBcsMapping cs).2 ⟨_, hp, rfl⟩)
    obtain ⟨⟨hg'', cs'⟩, hp', rfl, rfl⟩ := hashMapOf_eq_some Prod.snd Prod.fst hsome
    rw [bcsHgMapping, hsome, hinj _ _ _ ((hmap _ _).1 hp').2 ((hmap _ _).1 hp).2]

theorem mem_foundHgChangesets (hmap : MappingOf bonsaiOf nodes hgBcsMapping)
    (hinj : ∀ a b bcs, bonsaiOf a = some bcs → bonsaiOf b = some bcs → a = b)
    (phases : PhasesMapping) {node : HgNodeHash} (hn : node ∈ nodes) :
    node ∈ foundHgChangesets hgBcsMapping phases ↔
      ∃ bcs, bonsaiOf node = some bcs ∧ (bcs, .Public) ∈ phases.calculated := by
  simp only [foundHgChangesets, List.mem_filterMap, Prod.exists]
  constructor
  · rintro ⟨cs, phase, hmem, hget⟩
    split_ifs at hget with hph
    subst hph
    exact ⟨cs, ((hmap _ _).1 ((bcsHgMapping_eq_some hmap hinj _ _).1 hget)).2, hmem⟩
  · rintro ⟨bcs, hb, hmem⟩
    exact ⟨bcs, .Public, hmem, by
      rw [if_pos rfl, bcsHgMapping_eq_some hmap hinj]
      exact (hmap _ _).2 ⟨hn, hb⟩⟩

/-- `known` and `knownnodes` on a repository whose hg to bonsai mapping is
injective: one flag per node each; `knownnodes` says whether the node is
mapped, and `known` whether its bonsai id is `Public` in the phases
`get_all` calculated, so every node `known` reports is reported by
`knownnodes`. -/
theorem known_knownnodes
    (getHgBonsaiMapping : List HgNodeHash → Except String (List (HgNodeHash × ChangesetId)))
    (getAll : List ChangesetId → Except String PhasesMapping) (phases : PhasesMapping)
    (hget : getHgBonsaiMapping nodes = .ok hgBcsMapping) (hmap : MappingOf bonsaiOf nodes hgBcsMapping)
    (hinj : ∀ a b bcs, bonsaiOf a = some bcs → bonsaiOf b = some bcs → a = b)
    (hall : getAll (hgBcsMapping.map Prod.snd) = .ok phases) :
    ∃ r₁ r₂, known getHgBonsaiMapping getAll nodes = .ok r₁ ∧
      knownnodes getHgBonsaiMapping nodes = .ok r₂ ∧
      r₁.length = nodes.length ∧ r₂.length = nodes.length ∧
      ∀ i (h₁ : i < r₁.length) (h₂ : i < r₂.length) (hn : i < nodes.length),
        (r₂[i] = true ↔ (bonsaiOf nodes[i]).isSome) ∧
        (r₁[i] = true ↔ ∃ bcs, bonsaiOf nodes[i] = some bcs ∧ (bcs, .Public) ∈ phases.calculated) ∧
        (r₁[i] = true → r₂[i] = true) := by
  have hknown : ∀ node ∈ nodes, (hashMapOf Prod.fst Prod.snd hgBcsMapping node).isSome = true ↔
      (bonsaiOf node).isSome := fun node hn => by
    rw [hashMapOf_isSome, Option.isSome_iff_exists]
    constructor
    · rintro ⟨⟨hg, bcs⟩, hp, rfl⟩
      exact ⟨bcs, ((hmap _ _).1 hp).2⟩
    · rintro ⟨bcs, hb⟩
      exact ⟨(node, bcs), (hmap _ _).2 ⟨hn, hb⟩, rfl⟩
  refine ⟨nodes.map fun node => decide (node ∈ foundHgChangesets hgBcsMapping phases),
    nodes.map fun node => (hashMapOf Prod.fst Prod.snd hgBcsMapping node).isSome,
    by simp only [known, hget, hall, bind, Except.bind, pure, Except.pure],
    by simp only [knownnodes, hget, bind, Except.bind, pure, Except.pure],
    List.length_map _ _, List.length_map _ _, fun i h₁ h₂ hn => ?_⟩
  have hmem := List.getElem_mem hn
  simp only [List.getElem_map, decide_eq_true_eq, hknown _ hmem,
    mem_foundHgChangesets hmap hinj phases hmem]
  exact ⟨trivial, trivial, fun ⟨bcs, hb, _⟩ => by simp [hb]⟩

end Answers

/-- Two nodes, the first mapped to a public bonsai id. -/
theorem known_knownnodes_two :
    ∃ r₁ r₂, known (fun _ => .ok [(.ofByte 1, .ofByte 1)])
        (fun _ => .ok ⟨[(.ofByte 1, .Public)], by simp⟩) [.ofByte 1, .ofByte 2] = .ok r₁ ∧
      knownnodes (fun _ => .ok [(.ofByte 1, .ofByte 1)]) [.ofByte 1, .ofByte 2] = .ok r₂ ∧
      r₁.length = 2 ∧ r₂.length = 2 :=
  have ⟨r₁, r₂, h₁, h₂, hl₁, hl₂, _⟩ :=
    @known_knownnodes (fun h => if h = HgNodeHash.ofByte 1 then some (ChangesetId.ofByte 1) else none)
      [.ofByte 1, .ofByte 2] [(.ofByte 1, .ofByte 1)] _ _ ⟨[(.ofByte 1, .Public)], by simp⟩ rfl
      (fun hg bcs => by by_cases h : hg = HgNodeHash.ofByte 1 <;> simp [h, eq_comm])
      (fun a b bcs ha hb => by
        by_cases h : a = HgNodeHash.ofByte 1 <;> by_cases h' : b = HgNodeHash.ofByte 1 <;> simp_all)
      rfl
  ⟨r₁, r₂, h₁, h₂, hl₁, hl₂⟩

example : known (fun _ => .ok [(.ofByte 1, .ofByte 1)]) (fun _ => .ok ⟨[(.ofByte 1, .Public)], by simp⟩)
    [.ofByte 1, .ofByte 2] = .ok [true, false] := rfl

end Mononoke.RepoClient
