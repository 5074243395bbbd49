/-
Mononoke.Reachability.GenBfs — `GenerationNumberBFS`
(`reachabilityindex/genbfs/src/lib.rs`) as a function of what its
`ChangesetFetcher` answers.

The fetcher is external storage and the only source of parents and
generations. Both of its calls may fail, and nothing forces the parent data
it returns to be acyclic or to agree with the generations, so both stay
fallible here (`Except String`): the soundness theorem of
`Reachability.GenBfsTheorems` is about every fetcher whatsoever.

A `HashSet<ChangesetId>` is the list of its elements in iteration order, and
`HashSet::insert` is `List.insert`, so a set never holds an element twice.
Which order the real `HashSet` iterates in is unspecified; every statement
proved about this model holds for every order.

The loop is `loopFn` of `Mononoke.Futures`: at most `fuel` layers, `none`
when the fuel runs out.

`check_if_node_exists`, `fetch_generation` and
`changesets_with_generation_numbers` come from the `reachabilityindex`
common crate, which is not in the source tree; they are modelled from the
specification's §4.D.
-/
import Mathlib.Data.Finset.Card
import Mononoke.Futures

namespace Mononoke.Reachability

/-! ## The fetcher -/

/-- `ChangesetFetcher`: the two calls `GenerationNumberBFS` makes on storage. -/
structure ChangesetFetcher (Cs : Type) where
  getGenerationNumber : Cs → Except String Nat
  getParents : Cs → Except String (List Cs)

/-! ## `GenerationNumberBFS` -/

variable {Cs : Type} [DecidableEq Cs]

/-- Modelled from the spec: `check_if_node_exists` (the `reachabilityindex`
common crate): "A missing `src` surfaces as `ChangesetMissing`." -/
def checkIfNodeExists (f : ChangesetFetcher Cs) (node : Cs) : Except String Unit :=
  match f.getGenerationNumber node with
  | .ok _ => .ok ()
  | .error _ => .error "ChangesetMissing"

/-- Modelled from the spec: `fetch_generation` (the `reachabilityindex`
common crate): "A missing `dst` is detected during its generation lookup." -/
def fetchGeneration (f : ChangesetFetcher Cs) (node : Cs) : Except String Nat :=
  f.getGenerationNumber node

/-- Modelled from the spec: `changesets_with_generation_numbers` (the
`reachabilityindex` common crate), step 4 of §4.D, "Attach each parent's
generation"; the first failed lookup fails the whole call. -/
def changesetsWithGenerationNumbers (f : ChangesetFetcher Cs) (nodes : List Cs) :
    Except String (List (Cs × Nat)) :=
  nodes.mapM fun n => (f.getGenerationNumber n).map fun g => (n, g)

/-- The first loop of `process_bfs_layer`: every node of `curr_layer`
inserted into `curr_seen`. -/
def seenAfter (currLayer currSeen : List Cs) : List Cs :=
  currLayer.foldl (fun seen n => seen.insert n) currSeen

/-- The last loop of `process_bfs_layer`: the parents that are not in
`curr_seen` and whose generation is at least `dst_gen`. -/
def nextLayerOf (currSeen : List Cs) (dstGen : Nat) (pairs : List (Cs × Nat)) : List Cs :=
  pairs.foldl (fun next pg => if pg.1 ∉ currSeen ∧ dstGen ≤ pg.2 then next.insert pg.1 else next) []

/-- `process_bfs_layer`: the next layer and the updated seen set. -/
def processBfsLayer (f : ChangesetFetcher Cs) (currLayer currSeen : List Cs) (dstGen : Nat) :
    Except String (List Cs × List Cs) := do
  let currSeen := seenAfter currLayer currSeen
  let allParents ← currLayer.mapM f.getParents
  let pairs ← changesetsWithGenerationNumbers f allParents.flatten
  pure (nextLayerOf currSeen dstGen pairs, currSeen)

/-- The closure `query_reachability` passes to `loop_fn`, on the state
`(curr_layer, curr_seen)`. -/
def bfsLoopBody (f : ChangesetFetcher Cs) (dst : Cs) (dstGen : Nat) :
    List Cs × List Cs → Except String (Loop Bool (List Cs × List Cs))
  | (currLayer, currSeen) =>
    if dst ∈ currLayer then .ok (.Break true)
    else if currLayer.isEmpty then .ok (.Break false)
    else (processBfsLayer f currLayer currSeen dstGen).map .Continue

/-- `GenerationNumberBFS::query_reachability`, with at most `fuel` layers. -/
def queryReachability (f : ChangesetFetcher Cs) (src dst : Cs) (fuel : Nat) :
    Except String (Option Bool) := do
  checkIfNodeExists f src
  let dstGen ← fetchGeneration f dst
  loopFn (bfsLoopBody f dst dstGen) fuel ([src], [])

/-- The states the BFS loop of `query_reachability` runs on, in order. -/
def bfsTrace (f : ChangesetFetcher Cs) (src dst : Cs) (dstGen fuel : Nat) :
    List (List Cs × List Cs) :=
  loopTrace (bfsLoopBody f dst dstGen) fuel ([src], [])

/-! ## Ancestry and served relations -/

/-- `p` is among the parents the fetcher returns for `c`. -/
def ParentOf (f : ChangesetFetcher Cs) (c p : Cs) : Prop :=
  ∃ ps, f.getParents c = .ok ps ∧ p ∈ ps

/-- `a` is `c` or an ancestor of `c` under repeated `get_parents`. -/
def IsAncestor (f : ChangesetFetcher Cs) (c a : Cs) : Prop :=
  Relation.ReflTransGen (ParentOf f) c a

/-- `f` answers both calls without error on the finite set `S`, with the
parents `parents` and the generations `gen`, and `S` holds every parent of its
members: a finite parent relation served by the fetcher. -/
structure ServesOn (f : ChangesetFetcher Cs) (parents : Cs → List Cs) (gen : Cs → Nat)
    (S : Finset Cs) : Prop where
  getParents_eq : ∀ c ∈ S, f.getParents c = .ok (parents c)
  getGenerationNumber_eq : ∀ c ∈ S, f.getGenerationNumber c = .ok (gen c)
  closed : ∀ c ∈ S, ∀ p ∈ parents c, p ∈ S

/-- The fetcher that serves `parents` and `gen` everywhere. -/
def ChangesetFetcher.ofGraph (parents : Cs → List Cs) (gen : Cs → Nat) : ChangesetFetcher Cs where
  getGenerationNumber c := .ok (gen c)
  getParents c := .ok (parents c)

end Mononoke.Reachability
