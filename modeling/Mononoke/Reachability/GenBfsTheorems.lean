/-
Mononoke.Reachability.GenBfsTheorems — what `query_reachability` answers,
and how its loop runs.

* `queryReachability_correct`: an `Ok(true)` answer is always an ancestor,
  for every fetcher, cyclic and inconsistent parent data included; and on a
  finite parent relation the fetcher serves without error, where no parent's
  generation exceeds its child's, the query answers, and answers `true`
  exactly for the ancestors — the `parent_gen >= dst_gen` pruning loses
  nothing.
* `bfsLoop_layers`: the loop breaks on every finite served relation, its
  layers are pairwise disjoint sets of ancestors, `curr_seen` is the union of
  the earlier layers, and with strictly decreasing generations layer `k` sits
  in the band `[gen dst, gen src - k]`, so the loop breaks within
  `gen src - gen dst + 2` iterations.

## How the proofs go

`processBfsLayer_ok` says once what a successful layer step computes, for
any fetcher; `processBfsLayer_served` computes it on a served relation.
`bfsLoopBody_cases` says what one iteration of the closure can do. Two
generic facts about `loopFn` — an invariant of the `Continue` steps holds at
the `Break` (`loopFn_break_inv`), and a measure that drops at each
`Continue` bounds the fuel needed (`loopFn_terminates`) — carry the
soundness invariant `AncestorInv` and the completeness invariant `BfsInv`
over whole runs. The trace facts come from `loopTrace_succ`: consecutive
states of the trace are one `Continue` step apart.

Completeness is the classical closure argument. `BfsInv.closed` says every
parent of a seen node whose generation passes the filter is seen or in the
layer. When the loop stops on an empty layer the seen set is closed under
such parents and holds `src` but not `dst`; under monotone generations every
node on a path from `src` to `dst` passes the filter (`gen_le_of_ancestor`),
so no such path exists.
-/
import Mononoke.Reachability.GenBfs

namespace Mononoke.Reachability

variable {Cs : Type} [DecidableEq Cs]

/-! ## 1. The set loops of `process_bfs_layer` -/

theorem mem_foldl_insert (x : Cs) : ∀ (l s : List Cs),
    x ∈ l.foldl (fun seen n => seen.insert n) s ↔ x ∈ l ∨ x ∈ s
  | [], s => by simp
  | a :: l, s => by
    rw [List.foldl_cons, mem_foldl_insert x l, List.mem_insert_iff, List.mem_cons]
    tauto

@[simp] theorem mem_seenAfter {x : Cs} {l s : List Cs} :
    x ∈ seenAfter l s ↔ x ∈ l ∨ x ∈ s :=
  mem_foldl_insert x l s

theorem mem_foldl_filter_insert (seen : List Cs) (g : Nat) (y : Cs) :
    ∀ (pairs : List (Cs × Nat)) (acc : List Cs),
      y ∈ pairs.foldl (fun next pg =>
          if pg.1 ∉ seen ∧ g ≤ pg.2 then next.insert pg.1 else next) acc ↔
        y ∈ acc ∨ ∃ n, (y, n) ∈ pairs ∧ y ∉ seen ∧ g ≤ n
  | [], acc => by simp
  | (p, n) :: pairs, acc => by
    rw [List.foldl_cons, mem_foldl_filter_insert seen g y pairs]
    split_ifs with h
    · simp only [List.mem_insert_iff, List.mem_cons, Prod.mk.injEq]
      constructor
      · rintro ((rfl | h') | ⟨m, hm, hs, hg⟩)
        · exact .inr ⟨n, .inl ⟨rfl, rfl⟩, h⟩
        · exact .inl h'
        · exact .inr ⟨m, .inr hm, hs, hg⟩
      · rintro (h' | ⟨m, (⟨rfl, rfl⟩ | hm), hs, hg⟩)
        · exact .inl (.inr h')
        · exact .inl (.inl rfl)
        · exact .inr ⟨m, hm, hs, hg⟩
    · simp only [List.mem_cons, Prod.mk.injEq]
      constructor
      · rintro (h' | ⟨m, hm, hs, hg⟩)
        · exact .inl h'
        · exact .inr ⟨m, .inr hm, hs, hg⟩
      · rintro (h' | ⟨m, (⟨rfl, rfl⟩ | hm), hs, hg⟩)
        · exact .inl h'
        · exact absurd ⟨hs, hg⟩ h
        · exact .inr ⟨m, hm, hs, hg⟩

@[simp] theorem mem_nextLayerOf {y : Cs} {seen : List Cs} {g : Nat} {pairs : List (Cs × Nat)} :
    y ∈ nextLayerOf seen g pairs ↔ ∃ n, (y, n) ∈ pairs ∧ y ∉ seen ∧ g ≤ n := by
  simp [nextLayerOf, mem_foldl_filter_insert]

theorem nodup_nextLayerOf (seen : List Cs) (g : Nat) (pairs : List (Cs × Nat)) :
    (nextLayerOf seen g pairs).Nodup := by
  suffices ∀ acc : List Cs, acc.Nodup → (pairs.foldl (fun next pg =>
      if pg.1 ∉ seen ∧ g ≤ pg.2 then next.insert pg.1 else next) acc).Nodup from
    this [] List.nodup_nil
  induction pairs with
  | nil => exact fun _ h => h
  | cons pg pairs ih =>
    intro acc h
    rw [List.foldl_cons]
    split_ifs
    · exact ih _ h.insert
    · exact ih _ h

/-! ## 2. One layer step -/

section Step

variable {f : ChangesetFetcher Cs}

omit [DecidableEq Cs] in
theorem mem_flatten_of_mapM_getParents {l : List Cs} {pss : List (List Cs)}
    (h : l.mapM f.getParents = .ok pss) (y : Cs) :
    y ∈ pss.flatten ↔ ∃ x ∈ l, ParentOf f x y := by
  simp only [List.mem_flatten, mem_of_mapM_eq_ok h, ParentOf]
  aesop

omit [DecidableEq Cs] in
theorem mem_changesetsWithGenerationNumbers {nodes : List Cs} {pairs : List (Cs × Nat)}
    (h : changesetsWithGenerationNumbers f nodes = .ok pairs) (y : Cs) (n : Nat) :
    (y, n) ∈ pairs ↔ y ∈ nodes ∧ f.getGenerationNumber y = .ok n := by
  simp only [changesetsWithGenerationNumbers] at h
  simp only [mem_of_mapM_eq_ok h, except_map_eq_ok, Prod.mk.injEq]
  aesop

/-- What a successful `process_bfs_layer` computes, for any fetcher: the seen
set gains the layer, and the next layer holds, once each, exactly the parents
of the layer that are not seen and whose generation passes the filter. -/
theorem processBfsLayer_ok {l s : List Cs} {g : Nat} {st' : List Cs × List Cs}
    (h : processBfsLayer f l s g = .ok st') :
    st'.2 = seenAfter l s ∧ st'.1.Nodup ∧ ∀ y, y ∈ st'.1 ↔ (∃ x ∈ l, ParentOf f x y) ∧
      y ∉ seenAfter l s ∧ ∃ n, f.getGenerationNumber y = .ok n ∧ g ≤ n := by
  simp only [processBfsLayer, except_bind_eq_ok] at h
  obtain ⟨pss, hp, pairs, hg, h⟩ := h
  cases h
  refine ⟨rfl, nodup_nextLayerOf _ _ _, fun y => ?_⟩
  simp only [mem_nextLayerOf, mem_changesetsWithGenerationNumbers hg,
    mem_flatten_of_mapM_getParents hp]
  aesop

/-- On a served relation, a layer inside `S` is always processed. -/
theorem processBfsLayer_served {parents : Cs → List Cs} {gen : Cs → Nat} {S : Finset Cs}
    (hf : ServesOn f parents gen S) {l : List Cs} (hl : ∀ x ∈ l, x ∈ S) (s : List Cs)
    (g : Nat) : ∃ st', processBfsLayer f l s g = .ok st' := by
  have hp : l.mapM f.getParents = .ok (l.map parents) :=
    mapM_eq_ok_map fun x hx => hf.getParents_eq x (hl x hx)
  have hg : changesetsWithGenerationNumbers f (l.map parents).flatten =
      .ok ((l.map parents).flatten.map fun p => (p, gen p)) := by
    refine mapM_eq_ok_map fun p hp => ?_
    obtain ⟨x, hx, hpx⟩ := List.mem_flatten.mp hp
    obtain ⟨c, hc, rfl⟩ := List.mem_map.mp hx
    rw [hf.getGenerationNumber_eq p (hf.closed c (hl c hc) p hpx)]
    rfl
  exact ⟨_, by simp only [processBfsLayer, except_bind_eq_ok]; exact ⟨_, hp, _, hg, rfl⟩⟩

/-- What one call of the loop closure can do. -/
theorem bfsLoopBody_cases {dst : Cs} {g : Nat} {st : List Cs × List Cs}
    {r : Loop Bool (List Cs × List Cs)} (h : bfsLoopBody f dst g st = .ok r) :
    (dst ∈ st.1 ∧ r = .Break true) ∨ (dst ∉ st.1 ∧ st.1 = [] ∧ r = .Break false) ∨
      (dst ∉ st.1 ∧ st.1 ≠ [] ∧
        ∃ st', processBfsLayer f st.1 st.2 g = .ok st' ∧ r = .Continue st') := by
  obtain ⟨l, s⟩ := st
  simp only [bfsLoopBody] at h
  split_ifs at h with hd he
  · exact .inl ⟨hd, (Except.ok.inj h).symm⟩
  · exact .inr (.inl ⟨hd, List.isEmpty_iff.mp he, (Except.ok.inj h).symm⟩)
  · obtain ⟨st', hst', rfl⟩ := except_map_eq_ok.mp h
    exact .inr (.inr ⟨hd, fun hl => he (List.isEmpty_iff.mpr hl), st', hst', rfl⟩)

theorem processBfsLayer_of_continue {dst : Cs} {g : Nat} {st st' : List Cs × List Cs}
    (h : bfsLoopBody f dst g st = .ok (.Continue st')) :
    processBfsLayer f st.1 st.2 g = .ok st' := by
  rcases bfsLoopBody_cases h with ⟨-, h⟩ | ⟨-, -, h⟩ | ⟨-, -, st'', h', h⟩
  · cases h
  · cases h
  · cases h
    exact h'

/-- On a served relation, a closure call on a layer inside `S` never fails. -/
theorem bfsLoopBody_progress {parents : Cs → List Cs} {gen : Cs → Nat} {S : Finset Cs}
    (hf : ServesOn f parents gen S) (dst : Cs) (g : Nat) {st : List Cs × List Cs}
    (hl : ∀ x ∈ st.1, x ∈ S) :
    (∃ b, bfsLoopBody f dst g st = .ok (.Break b)) ∨
      ∃ st', bfsLoopBody f dst g st = .ok (.Continue st') := by
  obtain ⟨l, s⟩ := st
  obtain ⟨st', hst'⟩ := processBfsLayer_served hf hl s g
  simp only [bfsLoopBody]
  split_ifs
  · exact .inl ⟨true, rfl⟩
  · exact .inl ⟨false, rfl⟩
  · exact .inr ⟨st', by rw [hst']; rfl⟩

end Step

/-! ## 3. Soundness, for every fetcher -/

section Soundness

variable {f : ChangesetFetcher Cs} {src : Cs}

/-- Every node of the layer and of the seen set is an ancestor of `src`. -/
def AncestorInv (f : ChangesetFetcher Cs) (src : Cs) (st : List Cs × List Cs) : Prop :=
  ∀ x, x ∈ st.1 ∨ x ∈ st.2 → IsAncestor f src x

omit [DecidableEq Cs] in
theorem ancestorInv_init : AncestorInv f src ([src], []) := by
  rintro x (hx | hx)
  · rw [List.mem_singleton.mp hx]
    exact Relation.ReflTransGen.refl
  · cases hx

theorem ancestorInv_step {dst : Cs} {g : Nat} {st st' : List Cs × List Cs}
    (hs : AncestorInv f src st) (h : bfsLoopBody f dst g st = .ok (.Continue st')) :
    AncestorInv f src st' := by
  obtain ⟨hseen, -, hnext⟩ := processBfsLayer_ok (processBfsLayer_of_continue h)
  rintro y (hy | hy)
  · obtain ⟨⟨x, hx, hxy⟩, -⟩ := (hnext y).mp hy
    exact (hs x (.inl hx)).tail hxy
  · exact hs y (mem_seenAfter.mp (hseen ▸ hy))

/-- **Soundness**: whatever the fetcher serves, an `Ok(true)` answer names an
ancestor of `src`. -/
theorem queryReachability_sound {dst : Cs} {fuel : Nat}
    (h : queryReachability f src dst fuel = .ok (some true)) : IsAncestor f src dst := by
  simp only [queryReachability, except_bind_eq_ok] at h
  obtain ⟨_, _, g, _, hl⟩ := h
  obtain ⟨st, hst, hb⟩ :=
    loopFn_break_inv (AncestorInv f src) (fun _ _ => ancestorInv_step) ancestorInv_init hl
  rcases bfsLoopBody_cases hb with ⟨hd, -⟩ | ⟨-, -, h⟩ | ⟨-, -, _, -, h⟩
  · exact hst dst (.inl hd)
  · cases h
  · cases h

end Soundness

/-! ## 4. Completeness and termination on a served relation -/

section Served

variable {f : ChangesetFetcher Cs} {parents : Cs → List Cs} {gen : Cs → Nat} {S : Finset Cs}

omit [DecidableEq Cs] in
theorem parentOf_iff (hf : ServesOn f parents gen S) {c : Cs} (hc : c ∈ S) (p : Cs) :
    ParentOf f c p ↔ p ∈ parents c := by
  simp [ParentOf, hf.getParents_eq c hc]

/-- On a served relation, from a layer inside `S`, the next layer holds the
parents of the layer not seen yet whose generation is at least `g`. -/
theorem mem_next_of_served (hf : ServesOn f parents gen S) {l s : List Cs} {g : Nat}
    {st' : List Cs × List Cs} (hl : ∀ x ∈ l, x ∈ S) (h : processBfsLayer f l s g = .ok st')
    (y : Cs) : y ∈ st'.1 ↔ (∃ x ∈ l, y ∈ parents x) ∧ y ∉ seenAfter l s ∧ g ≤ gen y := by
  rw [(processBfsLayer_ok h).2.2 y]
  constructor
  · rintro ⟨⟨x, hx, hxy⟩, hy, n, hn, hg⟩
    rw [parentOf_iff hf (hl x hx)] at hxy
    rw [hf.getGenerationNumber_eq y (hf.closed x (hl x hx) y hxy), Except.ok.injEq] at hn
    exact ⟨⟨x, hx, hxy⟩, hy, hn ▸ hg⟩
  · rintro ⟨⟨x, hx, hxy⟩, hy, hg⟩
    exact ⟨⟨x, hx, (parentOf_iff hf (hl x hx) y).mpr hxy⟩, hy, gen y,
      hf.getGenerationNumber_eq y (hf.closed x (hl x hx) y hxy), hg⟩

omit [DecidableEq Cs] in
theorem mem_of_isAncestor (hf : ServesOn f parents gen S) {c a : Cs} (hc : c ∈ S)
    (h : IsAncestor f c a) : a ∈ S := by
  induction h with
  | refl => exact hc
  | tail _ hp ih => exact hf.closed _ ih _ ((parentOf_iff hf ih _).mp hp)

omit [DecidableEq Cs] in
/-- Under monotone generations an ancestor's generation is at most its
descendant's. -/
theorem gen_le_of_ancestor (hf : ServesOn f parents gen S)
    (hmono : ∀ c ∈ S, ∀ p ∈ parents c, gen p ≤ gen c) {c a : Cs} (hc : c ∈ S)
    (h : IsAncestor f c a) : gen a ≤ gen c := by
  induction h with
  | refl => exact le_refl _
  | tail hca hp ih =>
    have hb := mem_of_isAncestor hf hc hca
    exact (hmono _ hb _ ((parentOf_iff hf hb _).mp hp)).trans ih

/-- The completeness invariant of the loop state `st = (curr_layer, curr_seen)`. -/
structure BfsInv (parents : Cs → List Cs) (gen : Cs → Nat) (S : Finset Cs) (src dst : Cs)
    (dstGen : Nat) (st : List Cs × List Cs) : Prop where
  layer_sub : ∀ x ∈ st.1, x ∈ S
  seen_sub : ∀ x ∈ st.2, x ∈ S
  src_mem : src ∈ st.1 ∨ src ∈ st.2
  closed : ∀ x ∈ st.2, ∀ p ∈ parents x, dstGen ≤ gen p → p ∈ st.1 ∨ p ∈ st.2
  dst_not_seen : dst ∉ st.2
  disjoint : ∀ x ∈ st.1, x ∉ st.2

/-- The number of nodes of `S` not yet seen: it drops at each `Continue`. -/
def unseen (S : Finset Cs) (st : List Cs × List Cs) : Nat :=
  (S.filter (· ∉ st.2)).card

omit [DecidableEq Cs] in
theorem bfsInv_init {src : Cs} (hsrc : src ∈ S) (dst : Cs) (dstGen : Nat) :
    BfsInv parents gen S src dst dstGen ([src], []) where
  layer_sub x hx := by rw [List.mem_singleton.mp hx]; exact hsrc
  seen_sub x hx := by cases hx
  src_mem := .inl (List.mem_singleton_self src)
  closed x hx := by cases hx
  dst_not_seen := List.not_mem_nil dst
  disjoint x _ := List.not_mem_nil x

theorem bfsInv_step (hf : ServesOn f parents gen S) {src dst : Cs} {g : Nat}
    {st st' : List Cs × List Cs} (hi : BfsInv parents gen S src dst g st)
    (h : bfsLoopBody f dst g st = .ok (.Continue st')) :
    BfsInv parents gen S src dst g st' ∧ unseen S st' < unseen S st := by
  obtain ⟨l, s⟩ := st
  obtain ⟨next, seen'⟩ := st'
  rcases bfsLoopBody_cases h with ⟨-, h⟩ | ⟨-, -, h⟩ | ⟨hd, hl, _, hp, h⟩
  · cases h
  · cases h
  cases h
  obtain ⟨rfl, -, -⟩ := processBfsLayer_ok hp
  have mem_next := mem_next_of_served hf hi.layer_sub hp
  refine ⟨⟨?_, ?_, ?_, ?_, ?_, ?_⟩, ?_⟩
  · intro y hy
    obtain ⟨⟨x, hx, hxy⟩, -⟩ := (mem_next y).mp hy
    exact hf.closed x (hi.layer_sub x hx) y hxy
  · intro x hx
    rcases mem_seenAfter.mp hx with hx | hx
    · exact hi.layer_sub x hx
    · exact hi.seen_sub x hx
  · exact .inr (mem_seenAfter.mpr hi.src_mem)
  · intro x hx p hp hg
    by_cases hps : p ∈ seenAfter l s
    · exact .inr hps
    rcases mem_seenAfter.mp hx with hx | hx
    · exact .inl ((mem_next p).mpr ⟨⟨x, hx, hp⟩, hps, hg⟩)
    · rcases hi.closed x hx p hp hg with h' | h' <;> exact absurd (mem_seenAfter.mpr (by tauto)) hps
  · simp only [mem_seenAfter, not_or]
    exact ⟨hd, hi.dst_not_seen⟩
  · exact fun y hy => ((mem_next y).mp hy).2.1
  · obtain ⟨x, hx⟩ := List.exists_mem_of_ne_nil l hl
    apply Finset.card_lt_card
    rw [Finset.ssubset_iff_of_subset]
    · exact ⟨x, by simp [hi.layer_sub x hx, hi.disjoint x hx], by simp [hx]⟩
    · intro y
      simp only [Finset.mem_filter, mem_seenAfter, not_or]
      exact fun h => ⟨h.1, h.2.2⟩

/-- On a served relation the loop breaks within `|S| + 1` calls, on a state
holding the invariant. -/
theorem bfsLoop_breaks (hf : ServesOn f parents gen S) {src dst : Cs} (hsrc : src ∈ S) (g : Nat)
    {fuel : Nat} (hfuel : S.card < fuel) :
    ∃ b st, loopFn (bfsLoopBody f dst g) fuel ([src], []) = .ok (some b) ∧
      BfsInv parents gen S src dst g st ∧ bfsLoopBody f dst g st = .ok (.Break b) := by
  have hinit : BfsInv parents gen S src dst g ([src], []) := bfsInv_init hsrc dst g
  obtain ⟨b, hb⟩ := loopFn_terminates
    (fun n st => BfsInv parents gen S src dst g st ∧ unseen S st < n)
    (fun _ h => Nat.not_lt_zero _ h.2)
    (fun n st ⟨hi, hn⟩ => (bfsLoopBody_progress hf dst g hi.layer_sub).imp id
      fun ⟨st', h⟩ => ⟨st', h, (bfsInv_step hf hi h).1, by have := (bfsInv_step hf hi h).2; omega⟩)
    ⟨hinit, by simpa [unseen] using hfuel⟩
  obtain ⟨st, hi, hbrk⟩ :=
    loopFn_break_inv (BfsInv parents gen S src dst g) (fun _ _ hi h => (bfsInv_step hf hi h).1)
      hinit hb
  exact ⟨b, st, hb, hi, hbrk⟩

omit [DecidableEq Cs] in
/-- When the loop stops on an empty layer and generations are monotone, `dst`
is not an ancestor of `src`: the seen set holds `src` and not `dst`, and holds
every parent of its members whose generation passes the filter, which every
node on a path to `dst` does. -/
theorem not_isAncestor_of_empty (hf : ServesOn f parents gen S)
    (hmono : ∀ c ∈ S, ∀ p ∈ parents c, gen p ≤ gen c) {src dst : Cs} {g : Nat}
    (hdst : f.getGenerationNumber dst = .ok g) {s : List Cs}
    (hi : BfsInv parents gen S src dst g ([], s)) : ¬ IsAncestor f src dst := by
  intro h
  have hsrc : src ∈ s := hi.src_mem.resolve_left (List.not_mem_nil src)
  have hg : g = gen dst := by
    rw [hf.getGenerationNumber_eq dst (mem_of_isAncestor hf (hi.seen_sub src hsrc) h)] at hdst
    exact (Except.ok.inj hdst).symm
  suffices ∀ x, IsAncestor f x dst → x ∈ s → dst ∈ s from hi.dst_not_seen (this src h hsrc)
  intro x hx
  induction hx using Relation.ReflTransGen.head_induction_on with
  | refl => exact id
  | head hxc hcd ih =>
    intro hxs
    have hxS := hi.seen_sub _ hxs
    have hc := (parentOf_iff hf hxS _).mp hxc
    have hcS := hf.closed _ hxS _ hc
    exact ih ((hi.closed _ hxs _ hc (hg ▸ gen_le_of_ancestor hf hmono hcS hcd)).resolve_left
      (List.not_mem_nil _))

theorem queryReachability_eq_loopFn (hf : ServesOn f parents gen S) {src dst : Cs}
    (hsrc : src ∈ S) {g : Nat} (hdst : f.getGenerationNumber dst = .ok g) (fuel : Nat) :
    queryReachability f src dst fuel = loopFn (bfsLoopBody f dst g) fuel ([src], []) := by
  simp [queryReachability, checkIfNodeExists, fetchGeneration, hf.getGenerationNumber_eq src hsrc,
    hdst, bind, Except.bind]

end Served

/-! ## 5. The layers of a run -/

section Trace

variable {f : ChangesetFetcher Cs} {src dst : Cs} {g fuel : Nat}

theorem bfsTrace_zero (h : 0 < (bfsTrace f src dst g fuel).length) :
    (bfsTrace f src dst g fuel)[0] = ([src], []) :=
  getElem_loopTrace_zero h

theorem bfsTrace_succ {i : Nat} (h : i + 1 < (bfsTrace f src dst g fuel).length) :
    processBfsLayer f (bfsTrace f src dst g fuel)[i].1 (bfsTrace f src dst g fuel)[i].2 g =
      .ok (bfsTrace f src dst g fuel)[i + 1] :=
  processBfsLayer_of_continue (loopTrace_succ i h)

/-- `curr_seen` is always the union of the earlier layers. -/
theorem mem_bfsTrace_seen : ∀ (i : Nat) (hi : i < (bfsTrace f src dst g fuel).length) (x : Cs),
    x ∈ (bfsTrace f src dst g fuel)[i].2 ↔
      ∃ j, ∃ _ : j < i, x ∈ (bfsTrace f src dst g fuel)[j].1
  | 0, hi, x => by simp [bfsTrace_zero hi]
  | i + 1, hi, x => by
    obtain ⟨hs, -, -⟩ := processBfsLayer_ok (bfsTrace_succ hi)
    rw [hs, mem_seenAfter, mem_bfsTrace_seen i (by omega) x]
    constructor
    · rintro (h | ⟨j, hj, h⟩)
      · exact ⟨i, by omega, h⟩
      · exact ⟨j, by omega, h⟩
    · rintro ⟨j, hj, h⟩
      rcases Nat.lt_succ_iff_lt_or_eq.mp hj with hj | rfl
      · exact .inr ⟨j, hj, h⟩
      · exact .inl h

theorem bfsTrace_layer_not_seen : ∀ (i : Nat) (hi : i < (bfsTrace f src dst g fuel).length),
    ∀ x ∈ (bfsTrace f src dst g fuel)[i].1, x ∉ (bfsTrace f src dst g fuel)[i].2
  | 0, hi, x, _ => by simp [bfsTrace_zero hi]
  | i + 1, hi, x, hx => by
    obtain ⟨hs, -, hnext⟩ := processBfsLayer_ok (bfsTrace_succ hi)
    rw [hs]
    exact ((hnext x).mp hx).2.1

theorem bfsTrace_layer_nodup : ∀ (i : Nat) (hi : i < (bfsTrace f src dst g fuel).length),
    (bfsTrace f src dst g fuel)[i].1.Nodup
  | 0, hi => by simp [bfsTrace_zero hi]
  | i + 1, hi => (processBfsLayer_ok (bfsTrace_succ hi)).2.1

theorem bfsTrace_layer_ancestor : ∀ (i : Nat) (hi : i < (bfsTrace f src dst g fuel).length),
    ∀ x ∈ (bfsTrace f src dst g fuel)[i].1, IsAncestor f src x
  | 0, hi, x, hx => by
    rw [bfsTrace_zero hi, List.mem_singleton] at hx
    rw [hx]
    exact Relation.ReflTransGen.refl
  | i + 1, hi, x, hx => by
    obtain ⟨-, -, hnext⟩ := processBfsLayer_ok (bfsTrace_succ hi)
    obtain ⟨⟨y, hy, hyx⟩, -⟩ := (hnext x).mp hx
    exact (bfsTrace_layer_ancestor i (by omega) y hy).tail hyx

/-- The layers of a run hold no node twice, within one layer or across two:
each node's parents are fetched at most once per query. -/
theorem nodup_bfsTrace_layers : ((bfsTrace f src dst g fuel).map Prod.fst).flatten.Nodup := by
  rw [List.nodup_flatten, List.pairwise_iff_getElem]
  constructor
  · intro l hl
    obtain ⟨st, hst, rfl⟩ := List.mem_map.mp hl
    obtain ⟨i, hi, rfl⟩ := List.getElem_of_mem hst
    exact bfsTrace_layer_nodup i hi
  · intro i j hi hj hij x hxi hxj
    simp only [List.length_map, List.getElem_map] at hi hj hxi hxj
    exact bfsTrace_layer_not_seen j hj x hxj ((mem_bfsTrace_seen j hj x).mpr ⟨i, hij, hxi⟩)

end Trace

/-! ## 6. Generation bands -/

section Band

variable {f : ChangesetFetcher Cs} {parents : Cs → List Cs} {gen : Cs → Nat} {S : Finset Cs}

/-- Every node of the layer lies in `S`, at least `k` generations below `src`,
and, from the second layer on, no lower than `dstGen`. -/
def GenBand (gen : Cs → Nat) (S : Finset Cs) (src : Cs) (dstGen k : Nat)
    (st : List Cs × List Cs) : Prop :=
  ∀ x ∈ st.1, x ∈ S ∧ gen x + k ≤ gen src ∧ (1 ≤ k → dstGen ≤ gen x)

omit [DecidableEq Cs] in
theorem genBand_init {src : Cs} (hsrc : src ∈ S) (dstGen : Nat) :
    GenBand gen S src dstGen 0 ([src], []) := by
  intro x hx
  rw [List.mem_singleton.mp hx]
  exact ⟨hsrc, le_refl _, by omega⟩

theorem genBand_step (hf : ServesOn f parents gen S)
    (hstrict : ∀ c ∈ S, ∀ p ∈ parents c, gen p < gen c) {src dst : Cs} {g k : Nat}
    {st st' : List Cs × List Cs} (hb : GenBand gen S src g k st)
    (h : bfsLoopBody f dst g st = .ok (.Continue st')) : GenBand gen S src g (k + 1) st' := by
  intro y hy
  obtain ⟨⟨x, hx, hyx⟩, -, hg⟩ :=
    (mem_next_of_served hf (fun x hx => (hb x hx).1) (processBfsLayer_of_continue h) y).mp hy
  obtain ⟨hxS, hxk, -⟩ := hb x hx
  have := hstrict x hxS y hyx
  exact ⟨hf.closed x hxS y hyx, by omega, fun _ => hg⟩

theorem bfsTrace_genBand (hf : ServesOn f parents gen S)
    (hstrict : ∀ c ∈ S, ∀ p ∈ parents c, gen p < gen c) {src dst : Cs} (hsrc : src ∈ S)
    {g fuel : Nat} :
    ∀ (i : Nat) (hi : i < (bfsTrace f src dst g fuel).length),
      GenBand gen S src g i (bfsTrace f src dst g fuel)[i]
  | 0, hi => by rw [bfsTrace_zero hi]; exact genBand_init hsrc g
  | i + 1, hi => genBand_step hf hstrict (bfsTrace_genBand hf hstrict hsrc i (by omega))
      (loopTrace_succ i hi)

/-- With strictly decreasing generations the loop breaks within
`gen src - dst_gen + 2` calls: from the second layer on, layer `k` is empty
once `k` exceeds `gen src - dst_gen`. -/
theorem bfsLoop_breaks_by_gen (hf : ServesOn f parents gen S)
    (hstrict : ∀ c ∈ S, ∀ p ∈ parents c, gen p < gen c) {src dst : Cs} (hsrc : src ∈ S)
    (g : Nat) : ∃ b, loopFn (bfsLoopBody f dst g) (gen src - g + 2) ([src], []) = .ok (some b) := by
  refine loopFn_terminates
    (fun n st => ∃ k, GenBand gen S src g k st ∧ gen src + 2 ≤ g + k + n ∧ 2 ≤ k + n ∧ 1 ≤ n)
    (fun _ ⟨_, _, _, _, h⟩ => by omega) (fun n st ⟨k, hb, h1, h2, h3⟩ => ?_)
    ⟨0, genBand_init hsrc g, by omega, by omega, by omega⟩
  rcases bfsLoopBody_progress hf dst g (fun x hx => (hb x hx).1) with h | ⟨st', h⟩
  · exact .inl h
  refine .inr ⟨st', h, k + 1, genBand_step hf hstrict hb h, by omega, by omega, ?_⟩
  rcases bfsLoopBody_cases h with ⟨-, h'⟩ | ⟨-, -, h'⟩ | ⟨-, hl, -⟩
  · cases h'
  · cases h'
  obtain ⟨x, hx⟩ := List.exists_mem_of_ne_nil _ hl
  obtain ⟨-, hxk, hxg⟩ := hb x hx
  by_cases hk : 1 ≤ k
  · have := hxg hk
    omega
  · omega

end Band

/-! ## 7. The query -/

/-- `query_reachability` against ancestry. For every fetcher, an `Ok(true)`
answer names `src` or an ancestor of `src`. And when the fetcher serves a finite
parent relation (`S`, closed under parents) without error, `src` and `dst`
exist, and no parent's generation exceeds its child's, the query answers
within `|S| + 1` layers, and answers `true` exactly for the ancestors: pruning
by `parent_gen >= dst_gen` and by `curr_seen` loses none. -/
theorem queryReachability_correct :
    (∀ (f : ChangesetFetcher Cs) (src dst : Cs) (fuel : Nat),
      queryReachability f src dst fuel = .ok (some true) → IsAncestor f src dst) ∧
    ∀ (f : ChangesetFetcher Cs) (parents : Cs → List Cs) (gen : Cs → Nat) (S : Finset Cs)
      (src dst : Cs) (fuel : Nat), ServesOn f parents gen S → src ∈ S →
      f.getGenerationNumber dst = .ok (gen dst) →
      (∀ c ∈ S, ∀ p ∈ parents c, gen p ≤ gen c) → S.card < fuel →
      ∃ b, queryReachability f src dst fuel = .ok (some b) ∧ (b = true ↔ IsAncestor f src dst) := by
  refine ⟨fun f src dst fuel => queryReachability_sound, ?_⟩
  intro f parents gen S src dst fuel hf hsrc hdst hmono hfuel
  have hq := queryReachability_eq_loopFn hf hsrc hdst fuel
  obtain ⟨b, ⟨l, s⟩, hb, hi, hbrk⟩ := bfsLoop_breaks hf hsrc (gen dst) hfuel
  refine ⟨b, hq ▸ hb, fun hbt => queryReachability_sound (hbt ▸ hq ▸ hb), fun ha => ?_⟩
  rcases bfsLoopBody_cases hbrk with ⟨-, h⟩ | ⟨-, hl, h⟩ | ⟨-, -, _, -, h⟩
  · cases h
    rfl
  · cases hl
    exact absurd ha (not_isAncestor_of_empty hf hmono hdst hi)
  · cases h

/-- The linear history `3 → 2 → 1` of spec scenario 2, each changeset's
generation its own number. -/
def linearParents : Nat → List Nat
  | 3 => [2]
  | 2 => [1]
  | _ => []

theorem servesOn_linear :
    ServesOn (.ofGraph linearParents id) linearParents id {1, 2, 3} :=
  ⟨fun _ _ => rfl, fun _ _ => rfl, by decide⟩

theorem queryReachability_linear :
    ∃ b, queryReachability (.ofGraph linearParents id) 3 1 4 = .ok (some b) ∧
      (b = true ↔ IsAncestor (.ofGraph linearParents id) 3 1) :=
  queryReachability_correct.2 _ linearParents id {1, 2, 3} 3 1 4 servesOn_linear (by decide) rfl
    (by decide) (by decide)

example : queryReachability (.ofGraph linearParents id) 3 1 4 = .ok (some true) := rfl
example : queryReachability (.ofGraph linearParents id) 1 3 4 = .ok (some false) := rfl

/-- The run of `query_reachability`'s loop. For every fetcher, every `dst_gen`
and every fuel, the layers it runs on are ancestors of `src`, no node occurs
twice among all of them (so each node's parents are fetched at most once),
and `curr_seen` is the union of the earlier layers. When the fetcher serves a
finite parent relation without error and `src`, `dst` exist, the loop breaks
within `|S| + 1` calls whatever the generations; and when every parent's
generation is strictly below its child's, each node of layer `k ≥ 1` has a
generation between `gen dst` and `gen src - k`, and the loop breaks within
`gen src - gen dst + 2` calls. -/
theorem bfsLoop_layers (f : ChangesetFetcher Cs) (src dst : Cs) :
    (∀ dstGen fuel,
      (∀ st ∈ bfsTrace f src dst dstGen fuel, ∀ x ∈ st.1, IsAncestor f src x) ∧
      ((bfsTrace f src dst dstGen fuel).map Prod.fst).flatten.Nodup ∧
      ∀ i (hi : i < (bfsTrace f src dst dstGen fuel).length) x,
        x ∈ (bfsTrace f src dst dstGen fuel)[i].2 ↔
          ∃ j, ∃ _ : j < i, x ∈ (bfsTrace f src dst dstGen fuel)[j].1) ∧
    ∀ (parents : Cs → List Cs) (gen : Cs → Nat) (S : Finset Cs),
      ServesOn f parents gen S → src ∈ S → f.getGenerationNumber dst = .ok (gen dst) →
      (∀ fuel, S.card < fuel →
        ∃ b, loopFn (bfsLoopBody f dst (gen dst)) fuel ([src], []) = .ok (some b)) ∧
      ((∀ c ∈ S, ∀ p ∈ parents c, gen p < gen c) →
        (∀ fuel i (hi : i < (bfsTrace f src dst (gen dst) fuel).length), 1 ≤ i →
          ∀ x ∈ (bfsTrace f src dst (gen dst) fuel)[i].1, gen dst ≤ gen x ∧ gen x + i ≤ gen src) ∧
        ∃ b, loopFn (bfsLoopBody f dst (gen dst)) (gen src - gen dst + 2) ([src], []) =
          .ok (some b)) := by
  refine ⟨fun dstGen fuel => ⟨fun st hst => ?_, nodup_bfsTrace_layers, mem_bfsTrace_seen⟩,
    fun parents gen S hf hsrc _ => ⟨fun fuel hfuel => ?_, fun hstrict => ⟨?_, ?_⟩⟩⟩
  · obtain ⟨i, hi, rfl⟩ := List.getElem_of_mem hst
    exact bfsTrace_layer_ancestor i hi
  · obtain ⟨b, -, hb, -⟩ := bfsLoop_breaks hf hsrc (gen dst) hfuel
    exact ⟨b, hb⟩
  · intro fuel i hi hi1 x hx
    obtain ⟨-, hxk, hxg⟩ := bfsTrace_genBand hf hstrict hsrc i hi x hx
    exact ⟨hxg hi1, hxk⟩
  · exact bfsLoop_breaks_by_gen hf hstrict hsrc (gen dst)

theorem bfsLoop_linear_breaks :
    ∃ b, loopFn (bfsLoopBody (.ofGraph linearParents id) 1 1) (3 - 1 + 2) ([3], []) =
      .ok (some b) :=
  ((bfsLoop_layers _ 3 1).2 linearParents id {1, 2, 3} servesOn_linear (by decide) rfl).2
    (by decide) |>.2

end Mononoke.Reachability
