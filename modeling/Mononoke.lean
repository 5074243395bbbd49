import Mononoke.Futures
import Mononoke.Reachability.GenBfs
import Mononoke.Reachability.GenBfsTheorems
import Mononoke.Blobstore.InChunk
import Mononoke.Blobstore.SqlStore
import Mononoke.Blobstore.SqlStoreTheorems
import Mononoke.RepoClient.Format
import Mononoke.RepoClient.Utf8
import Mononoke.RepoClient.WireprotoLogger
import Mononoke.RepoClient.Between
import Mononoke.RepoClient.Known
import Mononoke.RepoClient.GetbundleCaps
import Mononoke.RepoClient.CapsEncoding
import Mononoke.RepoClient.StreamOutShallow
import Mononoke.Bundle2Resolver.UploadBlobs
import Mononoke.Revset.Validation
import Mononoke.Apiserver.Model
import Mononoke.Wirepack.Reader
import Mononoke.RepoClient.Getpackv1
import Mononoke.RepoClient.Gettreepack
import Mononoke.CachingExt.CachelibUtils
import Mononoke.Apiserver.EntryCache
import Mononoke.RepoClient.Lookup
