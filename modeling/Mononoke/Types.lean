/-
Mononoke.Types — the identifiers the modelled commands exchange
(`mercurial_types`, `mononoke_types`): Mercurial node hashes and bonsai
changeset ids, each its bytes, of fixed length, and repository paths.
-/
import Mathlib.Data.List.Basic

namespace Mononoke

/-- `HgNodeHash` (`NodeHash`): the 20 bytes of a Mercurial SHA-1 node id. -/
structure HgNodeHash where
  bytes : List UInt8
  length_bytes : bytes.length = 20
  deriving DecidableEq

/-- `NULL_HASH`: the node id of no changeset, twenty zero bytes. -/
def NULL_HASH : HgNodeHash := ⟨List.replicate 20 0, rfl⟩

/-- The node id of nineteen zero bytes and then `k`, for small examples. -/
def HgNodeHash.ofByte (k : UInt8) : HgNodeHash := ⟨List.replicate 19 0 ++ [k], by simp⟩

/-- `ChangesetId`: the 32-byte Blake2 hash of a bonsai changeset. -/
structure ChangesetId where
  bytes : List UInt8
  length_bytes : bytes.length = 32
  deriving DecidableEq

/-- The changeset id of thirty-one zero bytes and then `k`, for small examples. -/
def ChangesetId.ofByte (k : UInt8) : ChangesetId := ⟨List.replicate 31 0 ++ [k], by simp⟩

/-- `MPath`: a path in a repository, its elements. -/
structure MPath where
  elements : List (List UInt8)
  deriving DecidableEq

/-- `RepoPath`: the root, a directory or a file. -/
inductive RepoPath where
  | RootPath
  | DirectoryPath (path : MPath)
  | FilePath (path : MPath)
  deriving DecidableEq

end Mononoke
