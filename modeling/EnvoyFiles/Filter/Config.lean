import EnvoyFiles.Core.Encoding
import EnvoyFiles.Core.Mime

/-!
# The filter's configuration

The model of `Config` in `envoy-files-filter/src/config.rs`.
-/

namespace EnvoyFiles

/-- What happens on a directory without a matching index file. -/
inductive DirectoryMode where
  | index
  | listing
  | deny
  deriving DecidableEq, Repr

inductive RangeSupport where
  | none
  | single
  | multi
  deriving DecidableEq, Repr

structure Config where
  /-- Canonicalized at load time. -/
  root : PathBuf
  stripPrefix : Option String
  indexFiles : List String
  directory : DirectoryMode
  redirectTrailingSlash : Bool
  followSymlinksWithinRoot : Bool
  serveDotfiles : Bool
  chunkSize : ℕ
  maxInflightReads : ℕ
  blockingThreads : Option ℕ
  forceBlocking : Bool
  etag : Bool
  lastModified : Bool
  ranges : RangeSupport
  precompressed : List Encoding
  mimeOverrides : List (String × String)
  defaultContentType : String
  cacheControl : Option String

/-- The configuration `config::parse` makes of a document that only names the
root. -/
def Config.defaults (root : PathBuf) : Config where
  root
  stripPrefix := none
  indexFiles := ["index.html"]
  directory := .index
  redirectTrailingSlash := true
  followSymlinksWithinRoot := true
  serveDotfiles := false
  chunkSize := 65536
  maxInflightReads := 2
  blockingThreads := none
  forceBlocking := false
  etag := true
  lastModified := true
  ranges := .multi
  precompressed := [Encoding.brotli, Encoding.gzip]
  mimeOverrides := []
  defaultContentType := "application/octet-stream"
  cacheControl := none

/-- The bounds `config::parse` enforces on the two streaming parameters. -/
structure Config.StreamingBounds (cfg : Config) : Prop where
  chunkSize_ge : 4096 ≤ cfg.chunkSize
  chunkSize_le : cfg.chunkSize ≤ 4 * 2 ^ 20
  maxInflightReads_ge : 1 ≤ cfg.maxInflightReads
  maxInflightReads_le : cfg.maxInflightReads ≤ 8

end EnvoyFiles
