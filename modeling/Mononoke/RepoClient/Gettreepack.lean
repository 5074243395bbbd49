/-
Mononoke.RepoClient.Gettreepack — the tree entries `RepoClient::gettreepack`
(`repo_client/src/client/mod.rs`) hands to the `treepack` part, built by
`gettreepack_untimed`, `get_changed_manifests_stream` and
`fetch_treepack_part_input`.

A request names the root manifests the client wants (`mfnodes`), those it
has (`basemfnodes`, of which only the first is used), an optional `rootdir`
and `depth`, and `directories`, which must be empty. Each wanted manifest is
walked against the base (`changed_entry_stream_with_pruner`), and its root
entry follows the trees the walk yields; with several manifests the walks
run at once under `select_all` and share a `VisitedPruner`. A `HashSet`
filter lets each hash through once, and each entry that passes is fetched —
parents, linknode, content — and, in a request sampled for it, checked
against its hash.

The walk, the fetches, the node id of a blob (`HgBlobNode::nodeid`) and
`MPath::new` are not part of this source: they are the parameters of the
model (`TreeRepo`, `hgBlobNodeId`, `mpathNew`), and every statement holds
for each of them. What a walk yields under a shared `VisitedPruner` depends
on the order the walks run in and on what the other walks visited, so a walk
is named by its position in the request; since the statements hold for every
walk, they hold for every order. `select_all` is the relation `SelectAll`
(`Mononoke.Futures`), and `parts::treepack_part`, also not part of this
source, resolves the fetches through `buffered` (`Buffered`), which may end
with the error of any failing fetch it holds; so the response is a relation
too: `gettreepackUntimed` holds of each stream of part inputs a request can
produce. The sampling (`rand::random`) is the parameter `validateHash`. How
the part packs its inputs into bytes, the perf counters and the logging are
not modelled. When several fetches of one entry fail, which error the joined
future reports depends on timing; the model reports the first in join order.

* `gettreepack_sends_tree_once`: whatever order the walks run in, every tree
  a response sends is one a walk yielded, and no two share a hash.
* `gettreepack_complete`: a response that ends without an error had every
  walk end without one, and sends exactly the hashes the walks yielded,
  each wanted root manifest among them.
* `gettreepack_validated`: in a sampled request, every tree a response sends
  but a root hashes to its node.

## How the proofs go

`gettreepackUntimed_cases` says once what a response can be, and each
theorem starts from it. `fetchTreepackPartInput_eq` says what one entry's
fetch returns, and `fetchTreepackPartInput_eq_ok` what a fetched input holds.
The filter keeps each hash's first entry (`filterUsedHashes_nodup`,
`mem_filterUsedHashes`). `Mononoke.Futures` says what `buffered` and
`select_all` yield in every run; `treepackPart_nodes_isPrefixOf` and
`treepackPart_of_error_eq_none` read the first for the part, and
`changedEntries_spec` the second for the walks a request merges, one case per
branch of `gettreepack_untimed`.
-/
import Mononoke.Futures
import Mononoke.RepoClient.Getpackv1
import Mononoke.RepoClient.WireprotoLogger

namespace Mononoke.RepoClient

/-! ## 1. Entries and errors -/

/-- `FileType`. -/
inductive FileType where
  | Regular
  | Executable
  | Symlink
  deriving DecidableEq

/-- `Type`, of a manifest entry. -/
inductive EntryType where
  | File (ft : FileType)
  | Tree
  deriving DecidableEq

/-- What `gettreepack` reads of a manifest `Entry`: its name (`None` for a
root manifest), its hash and its type. -/
structure Entry where
  name : Option (List UInt8)
  hash : HgNodeHash
  type : EntryType
  deriving DecidableEq

/-- `EntryStatus`: how an entry differs from the base. -/
inductive EntryStatus where
  | Added (toEntry : Entry)
  | Deleted (entry : Entry)
  | Modified (toEntry fromEntry : Entry)

/-- `ChangedEntry`: a changed entry and the directory it is in. -/
structure ChangedEntry where
  dirname : Option MPath
  status : EntryStatus

/-- The errors `gettreepack` ends with: one passed on from the repository or
built from a message, and `ErrorKind::DataCorruption`. -/
inductive RepoError where
  | Msg (msg : String)
  | DataCorruption (path : RepoPath) (expected actual : HgNodeHash)
  deriving DecidableEq

/-- How a `gettreepack` stream ends early: with an error, or with a panic. -/
inductive Failure where
  | error (e : RepoError)
  | panic (msg : String)
  deriving DecidableEq

/-- Modelled from the spec: `MPath::join_element_opt`, an element under an
optional base path. -/
def joinElementOpt : Option MPath → Option (List UInt8) → Option MPath
  | none, none => none
  | none, some element => some ⟨[element]⟩
  | some path, none => some path
  | some path, some element => some ⟨path.elements ++ [element]⟩

/-- Modelled from the spec: `HgParents::get_nodes`. -/
def HgParents.getNodes : HgParents → Option HgNodeHash × Option HgNodeHash
  | .None => (none, none)
  | .One p => (some p, none)
  | .Two p1 p2 => (some p1, some p2)

/-- `TreepackPartInput`. -/
structure TreepackPartInput where
  node : HgNodeHash
  p1 : Option HgNodeHash
  p2 : Option HgNodeHash
  content : List UInt8
  name : Option (List UInt8)
  linknode : HgNodeHash
  basepath : Option MPath
  deriving DecidableEq

/-! ## 2. One entry's part input -/

/-- What `gettreepack` asks of the repository; none of it is part of this
source. `changedEntryStreamWithPruner walk mfid basemfid rootpath visited
depth` fetches both manifests and walks what changed from the base under
`rootpath`, `depth` levels deep, with the file and deleted pruners, and with
the request's shared `VisitedPruner` when `visited`. `walk` is the walk's
position in the request: walks that share the `VisitedPruner` prune what the
others have visited, so two walks of one manifest may yield different
entries. -/
structure TreeRepo where
  changedEntryStreamWithPruner :
    Nat → HgNodeHash → HgNodeHash → Option MPath → Bool → Nat → StreamRun RepoError ChangedEntry
  getParents : Entry → Except RepoError HgParents
  getLinknodeOpt : RepoPath → HgNodeHash → Except RepoError (Option HgNodeHash)
  getRawContent : Entry → Except RepoError (List UInt8)

section Gettreepack

variable (repo : TreeRepo)
  (hgBlobNodeId : List UInt8 → Option HgNodeHash → Option HgNodeHash → HgNodeHash)

/-- The `RepoPath` of an entry under its base path. -/
def entryRepoPath (entry : Entry) (basepath : Option MPath) : RepoPath :=
  match joinElementOpt basepath entry.name with
  | some path => if entry.type = .Tree then .DirectoryPath path else .FilePath path
  | none => .RootPath

/-- The `validate_content` future: the content, fetched again with the
parents, must hash to the entry's node, unless the path is the root. -/
def validateContent (entry : Entry) (path : RepoPath) : Except RepoError Unit := do
  let content ← repo.getRawContent entry
  let parents ← repo.getParents entry
  let actual := entry.hash
  let expected := hgBlobNodeId content parents.getNodes.1 parents.getNodes.2
  if path = .RootPath ∨ actual = expected then pure ()
  else throw (.DataCorruption path expected actual)

/-- `fetch_treepack_part_input`; `validate` is its `validate_content`. -/
def fetchTreepackPartInput (entry : Entry) (basepath : Option MPath) (validate : Bool) :
    Except RepoError TreepackPartInput := do
  let repoPath := entryRepoPath entry basepath
  let parents ← repo.getParents entry
  let linknodeOpt ← repo.getLinknodeOpt repoPath entry.hash
  let content ← repo.getRawContent entry
  if validate then validateContent repo hgBlobNodeId entry repoPath
  pure ⟨entry.hash, parents.getNodes.1, parents.getNodes.2, content, entry.name,
    linknodeOpt.getD NULL_HASH, basepath⟩

theorem entryRepoPath_eq_rootPath {entry : Entry} {basepath : Option MPath} :
    entryRepoPath entry basepath = .RootPath ↔ basepath = none ∧ entry.name = none := by
  unfold entryRepoPath
  cases basepath <;> cases entry.name <;> simp [joinElementOpt] <;> split <;> simp

/-- When its fetches succeed, an entry's part input carries its hash, its
parents, its content and its name, the null hash for a missing linknode, and
its base path; checked, an entry that is not the root and whose content does
not hash to its node is refused with `DataCorruption { path, expected,
actual }`. -/
theorem fetchTreepackPartInput_eq {entry : Entry} {basepath : Option MPath} (validate : Bool)
    {parents : HgParents} {linknodeOpt : Option HgNodeHash} {content : List UInt8}
    (hp : repo.getParents entry = .ok parents)
    (hl : repo.getLinknodeOpt (entryRepoPath entry basepath) entry.hash = .ok linknodeOpt)
    (hc : repo.getRawContent entry = .ok content) :
    fetchTreepackPartInput repo hgBlobNodeId entry basepath validate =
      let expected := hgBlobNodeId content parents.getNodes.1 parents.getNodes.2
      if validate ∧ entryRepoPath entry basepath ≠ .RootPath ∧ entry.hash ≠ expected then
        .error (.DataCorruption (entryRepoPath entry basepath) expected entry.hash)
      else
        .ok ⟨entry.hash, parents.getNodes.1, parents.getNodes.2, content, entry.name,
          linknodeOpt.getD NULL_HASH, basepath⟩ := by
  cases validate <;>
    simp [fetchTreepackPartInput, validateContent, hp, hl, hc, bind, Except.bind, pure, Except.pure]
  split_ifs <;> simp_all [throw, throwThe, MonadExceptOf.throw, Except.bind]

/-- A fetched part input carries the entry's hash, name and base path, and,
checked, its content hashes to its node unless it is the root. -/
theorem fetchTreepackPartInput_eq_ok {entry : Entry} {basepath : Option MPath} {validate : Bool}
    {input : TreepackPartInput}
    (h : fetchTreepackPartInput repo hgBlobNodeId entry basepath validate = .ok input) :
    input.node = entry.hash ∧ input.name = entry.name ∧ input.basepath = basepath ∧
      (validate = true → entryRepoPath entry basepath = .RootPath ∨
        input.node = hgBlobNodeId input.content input.p1 input.p2) := by
  have hfetch := h
  simp only [fetchTreepackPartInput, except_bind_eq_ok] at hfetch
  obtain ⟨parents, hp, linknodeOpt, hl, content, hc, -⟩ := hfetch
  rw [fetchTreepackPartInput_eq repo hgBlobNodeId validate hp hl hc] at h
  dsimp only at h
  split_ifs at h with hv
  cases h
  refine ⟨rfl, rfl, rfl, fun hval => ?_⟩
  by_contra hne
  exact hv ⟨hval, fun hr => hne (.inl hr), fun he => hne (.inr he)⟩

/-! ## 3. The walks -/

/-- Modelled from the spec: `repo.get_root_entry(mfid)`, the tree entry of a
root manifest. -/
def rootEntry (mfid : HgNodeHash) : Entry := ⟨none, mfid, .Tree⟩

/-- The closure `get_changed_manifests_stream` maps the walk with: a tree
the walk added or modified, with its directory. A file is an `assert!` and a
deletion a `panic!`, which the pruners rule out. -/
def toTreeEntry (entryStatus : ChangedEntry) : Except Failure (Entry × Option MPath) :=
  match entryStatus.status with
  | .Added toEntry | .Modified toEntry _ =>
    if toEntry.type = .Tree then .ok (toEntry, entryStatus.dirname)
    else .error (.panic "FilePruner should have removed file entries")
  | .Deleted _ => .error (.panic "DeletedPruner should have removed deleted entries")

/-- `get_changed_manifests_stream`, as the walk at position `walk` of its
request: the trees the walk yields, then the root entry; at depth 1, the root
entry alone. -/
def getChangedManifestsStream (walk : Nat) (mfid basemfid : HgNodeHash) (rootpath : Option MPath)
    (visited : Bool) (maxDepth : Nat) : StreamRun Failure (Entry × Option MPath) :=
  let rootEntryStream : StreamRun Failure (Entry × Option MPath) :=
    ⟨[(rootEntry mfid, rootpath)], none⟩
  if maxDepth = 1 then rootEntryStream
  else
    let changedEntries := repo.changedEntryStreamWithPruner walk mfid basemfid rootpath visited maxDepth
    (StreamRun.mapExcept toTreeEntry ⟨changedEntries.items, changedEntries.error.map .error⟩).chain
      rootEntryStream

/-- A walk that ends without an error yielded its root entry. -/
theorem rootEntry_mem_getChangedManifestsStream {walk : Nat} {mfid basemfid : HgNodeHash}
    {rootpath : Option MPath} {visited : Bool} {maxDepth : Nat}
    (h : (getChangedManifestsStream repo walk mfid basemfid rootpath visited maxDepth).error = none) :
    (rootEntry mfid, rootpath) ∈
      (getChangedManifestsStream repo walk mfid basemfid rootpath visited maxDepth).items := by
  unfold getChangedManifestsStream at h ⊢
  split_ifs at h ⊢
  · simp
  · rw [(StreamRun.chain_of_error_eq_none h).2]
    simp

/-! ## 4. `gettreepack_untimed` -/

/-- The streams of changed entries the walks of a request can merge into:
with several manifests, any order of their walks, each under the shared
`VisitedPruner`; with one, its walk; with none, nothing. -/
def ChangedEntries (mfnodes : List HgNodeHash) (basemfnode : HgNodeHash)
    (rootpath : Option MPath) (fetchdepth : Nat)
    (changedEntries : StreamRun Failure (Entry × Option MPath)) : Prop :=
  if 1 < mfnodes.length then
    SelectAll (mfnodes.mapIdx fun walk manifestId =>
      getChangedManifestsStream repo walk manifestId basemfnode rootpath true fetchdepth) changedEntries
  else
    changedEntries = match mfnodes.head? with
      | some mfnode => getChangedManifestsStream repo 0 mfnode basemfnode rootpath false fetchdepth
      | none => ⟨[], none⟩

/-- The `used_hashes` filter: an entry passes when its hash has not passed
before. -/
def filterUsedHashes : List HgNodeHash → List (Entry × Option MPath) → List (Entry × Option MPath)
  | _, [] => []
  | usedHashes, entry :: rest =>
    if entry.1.hash ∈ usedHashes then filterUsedHashes usedHashes rest
    else entry :: filterUsedHashes (entry.1.hash :: usedHashes) rest

/-- The inputs of the `treepack` part: a future for each entry that passes
the filter, in order, fetching its part input; the merged stream's error
follows them. -/
def treepackPartInputs (validateHash : Bool)
    (changedEntries : StreamRun Failure (Entry × Option MPath)) :
    StreamRun Failure (Except Failure TreepackPartInput) :=
  ⟨(filterUsedHashes [] changedEntries.items).map fun entry =>
      (fetchTreepackPartInput repo hgBlobNodeId entry.1 entry.2 validateHash).mapError .error,
    changedEntries.error⟩

/-- Modelled from the spec: `parts::treepack_part`, which is not part of this
source, resolves the futures of its inputs through `buffered`, with a window
this source does not fix; these are the streams of part inputs it can give.
How it packs them into bytes is not modelled. -/
def treepackPart (inputs : StreamRun Failure (Except Failure TreepackPartInput))
    (resolved : StreamRun Failure TreepackPartInput) : Prop :=
  ∃ n, Buffered n inputs resolved

variable (mpathNew : List UInt8 → Except RepoError MPath)

/-- The root path of a request: none for an empty `rootdir`. -/
def rootpathOf (rootdir : List UInt8) : Except RepoError (Option MPath) :=
  if rootdir.isEmpty then .ok none else (mpathNew rootdir).map some

/-- `gettreepack_untimed`, up to the bundle its part is sent in: the streams
of part inputs a request can produce, one for each order the walks can run
in. `depth` is the `depth` field of the arguments, which the logger does not
read (`GettreepackArgs`, `Mononoke.RepoClient.WireprotoLogger`). -/
def gettreepackUntimed (params : GettreepackArgs) (depth : Option Nat) (validateHash : Bool)
    (response : StreamRun Failure TreepackPartInput) : Prop :=
  let fetchdepth := depth.getD (2 <<< 16)
  if ¬params.directories.isEmpty then
    response = ⟨[], some (.error (.Msg "directories param is not supported"))⟩
  else
    let basemfnode := params.basemfnodes.head?.getD NULL_HASH
    match rootpathOf mpathNew params.rootdir with
    | .error e => response = ⟨[], some (.error e)⟩
    | .ok rootpath => ∃ changedEntries,
      ChangedEntries repo params.mfnodes basemfnode rootpath fetchdepth changedEntries ∧
        treepackPart (treepackPartInputs repo hgBlobNodeId validateHash changedEntries) response

/-! ## 5. Each hash once -/

/-- The filter lets no hash through twice, and none it has seen. -/
theorem filterUsedHashes_nodup : ∀ (usedHashes : List HgNodeHash) (l : List (Entry × Option MPath)),
    ((filterUsedHashes usedHashes l).map (·.1.hash)).Nodup ∧
      ∀ x ∈ filterUsedHashes usedHashes l, x.1.hash ∉ usedHashes
  | _, [] => by simp [filterUsedHashes]
  | usedHashes, entry :: rest => by
    by_cases h : entry.1.hash ∈ usedHashes
    · simpa [filterUsedHashes, h] using filterUsedHashes_nodup usedHashes rest
    · obtain ⟨hnd, hnew⟩ := filterUsedHashes_nodup (entry.1.hash :: usedHashes) rest
      simp only [filterUsedHashes, h, if_false, List.map_cons, List.nodup_cons, List.mem_map,
        List.forall_mem_cons]
      refine ⟨⟨fun ⟨x, hx, hxe⟩ => hnew x hx (hxe ▸ List.mem_cons_self _ _), hnd⟩, not_false,
        fun x hx hxu => hnew x hx (List.mem_cons_of_mem _ hxu)⟩

/-- The filter lets through every hash it has not seen. -/
theorem mem_filterUsedHashes (hash : HgNodeHash) :
    ∀ (usedHashes : List HgNodeHash) (l : List (Entry × Option MPath)),
      hash ∈ (filterUsedHashes usedHashes l).map (·.1.hash) ↔
        hash ∈ l.map (·.1.hash) ∧ hash ∉ usedHashes
  | _, [] => by simp [filterUsedHashes]
  | usedHashes, entry :: rest => by
    by_cases h : entry.1.hash ∈ usedHashes <;>
      simp only [filterUsedHashes, h, if_true, if_false, List.map_cons, List.mem_cons,
        mem_filterUsedHashes hash _ rest] <;>
      by_cases he : hash = entry.1.hash <;> simp_all

/-! ## 6. The walks a request merges -/

section MapIdx

variable {α β : Type} {f : Nat → α → β} {l : List α} {p : β → Prop}

theorem mem_mapIdx_iff {b : β} : b ∈ l.mapIdx f ↔ ∃ i a, l[i]? = some a ∧ f i a = b := by
  simp [List.mapIdx_eq_enum_map, List.mem_enum_iff_getElem?]

theorem exists_mem_mapIdx : (∃ b ∈ l.mapIdx f, p b) ↔ ∃ i a, l[i]? = some a ∧ p (f i a) := by
  simp only [mem_mapIdx_iff]
  exact ⟨fun ⟨_, ⟨i, a, hi, hb⟩, hp⟩ => ⟨i, a, hi, hb ▸ hp⟩,
    fun ⟨i, a, hi, hp⟩ => ⟨_, ⟨i, a, hi, rfl⟩, hp⟩⟩

theorem forall_mem_mapIdx : (∀ b ∈ l.mapIdx f, p b) ↔ ∀ i a, l[i]? = some a → p (f i a) := by
  simp only [mem_mapIdx_iff]
  exact ⟨fun h i a hi => h _ ⟨i, a, hi, rfl⟩, fun h _ ⟨i, a, hi, hb⟩ => hb ▸ h i a hi⟩

end MapIdx

theorem getElem?_singleton_eq_some {α : Type} {m a : α} {i : Nat} :
    [m][i]? = some a ↔ i = 0 ∧ a = m := by
  rw [List.getElem?_eq_some_iff]
  simp [eq_comm]

/-- The changed entries a request merges come from its walks; the merged
stream ends without an error exactly when every walk does, and then holds
every entry of every walk. -/
theorem changedEntries_spec {mfnodes : List HgNodeHash} {basemfnode : HgNodeHash}
    {rootpath : Option MPath} {fetchdepth : Nat} {changedEntries : StreamRun Failure (Entry × Option MPath)}
    (h : ChangedEntries repo mfnodes basemfnode rootpath fetchdepth changedEntries) :
    let walk := fun i mfnode =>
      getChangedManifestsStream repo i mfnode basemfnode rootpath (decide (1 < mfnodes.length)) fetchdepth
    (∀ x ∈ changedEntries.items, ∃ i mfnode, mfnodes[i]? = some mfnode ∧ x ∈ (walk i mfnode).items) ∧
      (changedEntries.error = none ↔
        ∀ i mfnode, mfnodes[i]? = some mfnode → (walk i mfnode).error = none) ∧
      (changedEntries.error = none → ∀ x, x ∈ changedEntries.items ↔
        ∃ i mfnode, mfnodes[i]? = some mfnode ∧ x ∈ (walk i mfnode).items) := by
  unfold ChangedEntries at h
  split_ifs at h with hlen
  · -- several manifests: any order of their walks
    intro walk
    have hwalk : (mfnodes.mapIdx fun i manifestId =>
        getChangedManifestsStream repo i manifestId basemfnode rootpath true fetchdepth) =
          mfnodes.mapIdx walk := by
      simp [walk, hlen]
    rw [hwalk] at h
    refine ⟨fun x hx => ?_, ?_, fun hok x => ?_⟩
    · simpa only [List.mem_flatMap, exists_mem_mapIdx] using h.subperm.subset hx
    · simpa only [forall_mem_mapIdx] using h.error_eq_none_iff
    · simpa only [List.mem_flatMap, exists_mem_mapIdx] using (h.perm hok).mem_iff
  · -- one manifest, or none
    match mfnodes, hlen, h with
    | [], _, h => subst h; simp
    | [mfnode], _, h => subst h; simp [getElem?_singleton_eq_some, and_assoc]
    | _ :: _ :: _, hlen, _ => simp at hlen

/-! ## 7. What a response sends -/

/-- A response is the one error of a request it refuses, or a run of the part
inputs of a merge of the request's walks. -/
theorem gettreepackUntimed_cases {params : GettreepackArgs} {depth : Option Nat} {validateHash : Bool}
    {response : StreamRun Failure TreepackPartInput}
    (h : gettreepackUntimed repo hgBlobNodeId mpathNew params depth validateHash response) :
    (response.items = [] ∧ response.error ≠ none) ∨
      ∃ rootpath changedEntries, params.directories = [] ∧
        rootpathOf mpathNew params.rootdir = .ok rootpath ∧
        ChangedEntries repo params.mfnodes (params.basemfnodes.head?.getD NULL_HASH) rootpath
          (depth.getD (2 <<< 16)) changedEntries ∧
        treepackPart (treepackPartInputs repo hgBlobNodeId validateHash changedEntries) response := by
  unfold gettreepackUntimed at h
  dsimp only at h
  split_ifs at h with hdir
  · split at h
    · exact .inl (by simp [h])
    · obtain ⟨changedEntries, hc, hpart⟩ := h
      exact .inr ⟨_, changedEntries, by simpa using hdir, ‹_›, hc, hpart⟩
  · exact .inl (by simp [h])

/-- The nodes the `treepack` part resolves are, in order, the hashes of the
first entries that pass the filter. -/
theorem treepackPart_nodes_isPrefixOf {validateHash : Bool}
    {changedEntries : StreamRun Failure (Entry × Option MPath)} {response : StreamRun Failure TreepackPartInput}
    (h : treepackPart (treepackPartInputs repo hgBlobNodeId validateHash changedEntries) response) :
    response.items.map (·.node) <+: (filterUsedHashes [] changedEntries.items).map (·.1.hash) := by
  obtain ⟨n, hb⟩ := h
  exact hb.map_isPrefixOf fun _ _ h =>
    (fetchTreepackPartInput_eq_ok repo hgBlobNodeId (except_mapError_eq_ok.1 h)).1

/-- A run of the `treepack` part that ends without an error resolved one
input per entry that passes the filter, of a merged stream that ended without
one. -/
theorem treepackPart_of_error_eq_none {validateHash : Bool}
    {changedEntries : StreamRun Failure (Entry × Option MPath)} {response : StreamRun Failure TreepackPartInput}
    (h : treepackPart (treepackPartInputs repo hgBlobNodeId validateHash changedEntries) response)
    (hok : response.error = none) :
    response.items.map (·.node) = (filterUsedHashes [] changedEntries.items).map (·.1.hash) ∧
      changedEntries.error = none := by
  obtain ⟨n, hb⟩ := h
  have hup := hb.eq_of_error_eq_none hok
  simp only [treepackPartInputs, StreamRun.mk.injEq] at hup
  have hlen := congrArg List.length hup.1
  simp only [List.length_map] at hlen
  exact ⟨(treepackPart_nodes_isPrefixOf repo hgBlobNodeId ⟨n, hb⟩).eq_of_length
    (by simpa using hlen.symm), hup.2⟩

/-- Whatever order the walks run in, every tree a response sends is one a
walk yielded, and no two share a hash. -/
theorem gettreepack_sends_tree_once (params : GettreepackArgs) (depth : Option Nat) (validateHash : Bool)
    (response : StreamRun Failure TreepackPartInput)
    (h : gettreepackUntimed repo hgBlobNodeId mpathNew params depth validateHash response) :
    (response.items.map (·.node)).Nodup ∧ ∀ input ∈ response.items, ∃ rootpath,
      rootpathOf mpathNew params.rootdir = .ok rootpath ∧ ∃ i mfnode, params.mfnodes[i]? = some mfnode ∧
        input.node ∈ (getChangedManifestsStream repo i mfnode (params.basemfnodes.head?.getD NULL_HASH)
          rootpath (decide (1 < params.mfnodes.length)) (depth.getD (2 <<< 16))).items.map
            (·.1.hash) := by
  rcases gettreepackUntimed_cases repo hgBlobNodeId mpathNew h with
    ⟨hnil, -⟩ | ⟨rootpath, changedEntries, -, hroot, hc, hpart⟩
  · simp [hnil]
  · have hpre := treepackPart_nodes_isPrefixOf repo hgBlobNodeId hpart
    refine ⟨hpre.sublist.nodup (filterUsedHashes_nodup [] _).1, fun input hi => ⟨rootpath, hroot, ?_⟩⟩
    have hn : input.node ∈ (filterUsedHashes [] changedEntries.items).map (·.1.hash) :=
      hpre.subset (List.mem_map_of_mem _ hi)
    obtain ⟨x, hx, hxe⟩ := List.mem_map.1 ((mem_filterUsedHashes _ _ _).1 hn).1
    obtain ⟨i, mfnode, hm, hxm⟩ := (changedEntries_spec repo hc).1 x hx
    exact ⟨i, mfnode, hm, hxe ▸ List.mem_map_of_mem _ hxm⟩

/-- Two wanted manifests whose walks both yield the subtree of hash 3, the
walks polled one after the other: the subtree is sent once. -/
theorem gettreepack_sends_tree_once_shared_subtree :
    let repo : TreeRepo :=
      ⟨fun _ _ _ _ _ _ => ⟨[⟨none, .Added ⟨some [0x61], HgNodeHash.ofByte 3, .Tree⟩⟩], none⟩,
        fun _ => .ok .None, fun _ _ => .ok none, fun _ => .ok []⟩
    let params : GettreepackArgs := ⟨[], [HgNodeHash.ofByte 1, HgNodeHash.ofByte 2], [], []⟩
    let response : StreamRun Failure TreepackPartInput :=
      ⟨[⟨HgNodeHash.ofByte 3, none, none, [], some [0x61], NULL_HASH, none⟩,
        ⟨HgNodeHash.ofByte 1, none, none, [], none, NULL_HASH, none⟩,
        ⟨HgNodeHash.ofByte 2, none, none, [], none, NULL_HASH, none⟩], none⟩
    gettreepackUntimed repo (fun _ _ _ => HgNodeHash.ofByte 3) (fun p => .ok ⟨[p]⟩) params none true response ∧
      (response.items.map (·.node)).Nodup := by
  intro repo params response
  have h : gettreepackUntimed repo (fun _ _ _ => HgNodeHash.ofByte 3) (fun p => .ok ⟨[p]⟩) params none true
      response := ⟨_, selectAll_chain _, 1, Buffered.of_ok (by decide) response.items⟩
  exact ⟨h, (gettreepack_sends_tree_once _ _ _ _ _ _ _ h).1⟩

/-- A response that ends without an error had every walk end without one,
and sends exactly the hashes the walks yielded, each wanted root manifest
among them. -/
theorem gettreepack_complete (params : GettreepackArgs) (depth : Option Nat) (validateHash : Bool)
    (response : StreamRun Failure TreepackPartInput)
    (h : gettreepackUntimed repo hgBlobNodeId mpathNew params depth validateHash response)
    (hok : response.error = none) :
    params.directories = [] ∧ ∃ rootpath, rootpathOf mpathNew params.rootdir = .ok rootpath ∧
      let walk := fun i mfnode => getChangedManifestsStream repo i mfnode
        (params.basemfnodes.head?.getD NULL_HASH) rootpath (decide (1 < params.mfnodes.length))
        (depth.getD (2 <<< 16))
      (∀ i mfnode, params.mfnodes[i]? = some mfnode → (walk i mfnode).error = none) ∧
      (∀ hash, hash ∈ response.items.map (·.node) ↔
        ∃ i mfnode, params.mfnodes[i]? = some mfnode ∧ hash ∈ (walk i mfnode).items.map (·.1.hash)) ∧
      ∀ mfnode ∈ params.mfnodes, mfnode ∈ response.items.map (·.node) := by
  rcases gettreepackUntimed_cases repo hgBlobNodeId mpathNew h with
    ⟨-, herr⟩ | ⟨rootpath, changedEntries, hdir, hroot, hc, hpart⟩
  · exact absurd hok herr
  · obtain ⟨hnodes, hce⟩ := treepackPart_of_error_eq_none repo hgBlobNodeId hpart hok
    obtain ⟨-, hwalks, hitems⟩ := changedEntries_spec repo hc
    -- the hashes sent are the hashes the walks yielded
    have hmem : ∀ hash, hash ∈ response.items.map (·.node) ↔ ∃ i mfnode, params.mfnodes[i]? = some mfnode ∧
        hash ∈ (getChangedManifestsStream repo i mfnode (params.basemfnodes.head?.getD NULL_HASH) rootpath
          (decide (1 < params.mfnodes.length)) (depth.getD (2 <<< 16))).items.map (·.1.hash) := by
      intro hash
      rw [hnodes, mem_filterUsedHashes]
      simp only [List.not_mem_nil, not_false_eq_true, and_true, List.mem_map, hitems hce]
      exact ⟨fun ⟨x, ⟨i, mfnode, hm, hx⟩, he⟩ => ⟨i, mfnode, hm, x, hx, he⟩,
        fun ⟨i, mfnode, hm, x, hx, he⟩ => ⟨x, ⟨i, mfnode, hm, hx⟩, he⟩⟩
    refine ⟨hdir, rootpath, hroot, hwalks.1 hce, hmem, fun mfnode hm => ?_⟩
    obtain ⟨i, hi⟩ := List.mem_iff_getElem?.1 hm
    exact (hmem mfnode).2 ⟨i, mfnode, hi, List.mem_map_of_mem (·.1.hash)
      (rootEntry_mem_getChangedManifestsStream repo (hwalks.1 hce i mfnode hi))⟩

/-- The request of `gettreepack_sends_tree_once_shared_subtree`: both roots
are sent. -/
theorem gettreepack_complete_shared_subtree :
    let repo : TreeRepo :=
      ⟨fun _ _ _ _ _ _ => ⟨[⟨none, .Added ⟨some [0x61], HgNodeHash.ofByte 3, .Tree⟩⟩], none⟩,
        fun _ => .ok .None, fun _ _ => .ok none, fun _ => .ok []⟩
    let params : GettreepackArgs := ⟨[], [HgNodeHash.ofByte 1, HgNodeHash.ofByte 2], [], []⟩
    let response : StreamRun Failure TreepackPartInput :=
      ⟨[⟨HgNodeHash.ofByte 3, none, none, [], some [0x61], NULL_HASH, none⟩,
        ⟨HgNodeHash.ofByte 1, none, none, [], none, NULL_HASH, none⟩,
        ⟨HgNodeHash.ofByte 2, none, none, [], none, NULL_HASH, none⟩], none⟩
    gettreepackUntimed repo (fun _ _ _ => HgNodeHash.ofByte 3) (fun p => .ok ⟨[p]⟩) params none true response ∧
      response.error = none ∧ ∀ mfnode ∈ params.mfnodes, mfnode ∈ response.items.map (·.node) := by
  intro repo params response
  have h : gettreepackUntimed repo (fun _ _ _ => HgNodeHash.ofByte 3) (fun p => .ok ⟨[p]⟩) params none true
      response := ⟨_, selectAll_chain _, 1, Buffered.of_ok (by decide) response.items⟩
  obtain ⟨-, -, -, -, -, hroots⟩ := gettreepack_complete _ _ _ _ _ _ _ h rfl
  exact ⟨h, rfl, hroots⟩

/-- In a sampled request, every tree a response sends but a root hashes to
its node. -/
theorem gettreepack_validated (params : GettreepackArgs) (depth : Option Nat)
    (response : StreamRun Failure TreepackPartInput)
    (h : gettreepackUntimed repo hgBlobNodeId mpathNew params depth true response) :
    ∀ input ∈ response.items, (input.basepath = none ∧ input.name = none) ∨
      input.node = hgBlobNodeId input.content input.p1 input.p2 := by
  rcases gettreepackUntimed_cases repo hgBlobNodeId mpathNew h with
    ⟨hnil, -⟩ | ⟨rootpath, changedEntries, -, -, -, n, hb⟩
  · simp [hnil]
  · intro input hi
    obtain ⟨x, -, hx⟩ := hb.mem_items hi
    obtain ⟨-, hname, hbase, hval⟩ :=
      fetchTreepackPartInput_eq_ok repo hgBlobNodeId (except_mapError_eq_ok.1 hx)
    rcases hval rfl with hroot | hnode
    · rw [entryRepoPath_eq_rootPath] at hroot
      exact .inl ⟨hbase ▸ hroot.1, hname ▸ hroot.2⟩
    · exact .inr hnode

/-- The request of `gettreepack_sends_tree_once_shared_subtree`, whose
subtree hashes to its node. -/
theorem gettreepack_validated_shared_subtree :
    let repo : TreeRepo :=
      ⟨fun _ _ _ _ _ _ => ⟨[⟨none, .Added ⟨some [0x61], HgNodeHash.ofByte 3, .Tree⟩⟩], none⟩,
        fun _ => .ok .None, fun _ _ => .ok none, fun _ => .ok []⟩
    let params : GettreepackArgs := ⟨[], [HgNodeHash.ofByte 1, HgNodeHash.ofByte 2], [], []⟩
    let response : StreamRun Failure TreepackPartInput :=
      ⟨[⟨HgNodeHash.ofByte 3, none, none, [], some [0x61], NULL_HASH, none⟩,
        ⟨HgNodeHash.ofByte 1, none, none, [], none, NULL_HASH, none⟩,
        ⟨HgNodeHash.ofByte 2, none, none, [], none, NULL_HASH, none⟩], none⟩
    gettreepackUntimed repo (fun _ _ _ => HgNodeHash.ofByte 3) (fun p => .ok ⟨[p]⟩) params none true response ∧
      ∀ input ∈ response.items, (input.basepath = none ∧ input.name = none) ∨
        input.node = HgNodeHash.ofByte 3 := by
  intro repo params response
  have h : gettreepackUntimed repo (fun _ _ _ => HgNodeHash.ofByte 3) (fun p => .ok ⟨[p]⟩) params none true
      response := ⟨_, selectAll_chain _, 1, Buffered.of_ok (by decide) response.items⟩
  exact ⟨h, gettreepack_validated _ _ _ _ _ _ h⟩

end Gettreepack

end Mononoke.RepoClient
