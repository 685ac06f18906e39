import EnvoyFiles.Core.Path
import EnvoyFiles.Filter.Config
import EnvoyFiles.Filter.State

/-!
# Request headers and open candidates

The pure functions of `envoy-files-filter/src/filter.rs` that
`on_request_headers` is made of.
-/

namespace EnvoyFiles.Filter

open Text Path

/-- The token characters an HTTP method is made of. -/
def isMethodChar (b : UInt8) : Bool :=
  (0x30 ≤ b && b ≤ 0x39) || (0x41 ≤ b && b ≤ 0x5A) || (0x61 ≤ b && b ≤ 0x7A) ||
    (asBytes "!#$%&'*+-.^_|~").contains b || b == 0x60

/-- `http::Method::from_bytes`, with the method kept as its bytes. -/
def methodFromBytes (bytes : Bytes) : Option Bytes :=
  if !bytes.isEmpty && bytes.all isMethodChar then some bytes else none

structure RawRequestHeaders where
  method : Option Bytes
  path : Option String
  acceptEncoding : Option String
  ifNoneMatch : Option String
  ifModifiedSince : Option String
  ifMatch : Option String
  ifUnmodifiedSince : Option String
  ifRange : Option String
  range : Option String
  deriving DecidableEq

def RawRequestHeaders.default : RawRequestHeaders :=
  ⟨none, none, none, none, none, none, none, none, none⟩

/-- Fills an empty slot with a non-empty value. -/
def fillSlot (slot : Option String) (value : Bytes) : Option String :=
  if slot.isNone && !value.isEmpty then some (fromUtf8Lossy value) else slot

/-- One round of the header loop. -/
def RawRequestHeaders.collectOne (raw : RawRequestHeaders)
    (header : Bytes × Bytes) : RawRequestHeaders :=
  let (key, value) := header
  if key = asBytes ":method" then
    if raw.method.isNone then { raw with method := methodFromBytes value } else raw
  else if key = asBytes ":path" then
    { raw with path := fillSlot raw.path value }
  else if key = asBytes "accept-encoding" then
    { raw with acceptEncoding := fillSlot raw.acceptEncoding value }
  else if key = asBytes "if-none-match" then
    { raw with ifNoneMatch := fillSlot raw.ifNoneMatch value }
  else if key = asBytes "if-modified-since" then
    { raw with ifModifiedSince := fillSlot raw.ifModifiedSince value }
  else if key = asBytes "if-match" then
    { raw with ifMatch := fillSlot raw.ifMatch value }
  else if key = asBytes "if-unmodified-since" then
    { raw with ifUnmodifiedSince := fillSlot raw.ifUnmodifiedSince value }
  else if key = asBytes "if-range" then
    { raw with ifRange := fillSlot raw.ifRange value }
  else if key = asBytes "range" then
    { raw with range := fillSlot raw.range value }
  else
    raw

/-- `RawRequestHeaders::collect`. -/
def RawRequestHeaders.collect (headers : List (Bytes × Bytes)) :
    RawRequestHeaders :=
  headers.foldl RawRequestHeaders.collectOne RawRequestHeaders.default

/-- Removes a mount prefix from the raw path at a segment boundary. -/
def stripMountPrefix (rawPath pre : String) : Option String :=
  match stripPrefix rawPath pre with
  | none => none
  | some rest =>
      match rest.toList.head? with
      | none => some "/"
      | some '/' => some rest
      | some '?' => some ("/" ++ rest)
      | some '#' => some ("/" ++ rest)
      | some _ => none

/-- The path that is resolved: the raw path without the configured mount
prefix, `none` when it is not under it. -/
def mountedPath (cfg : Config) (rawPath : String) : Option String :=
  match cfg.stripPrefix with
  | some pre => stripMountPrefix rawPath pre
  | none => some rawPath

def pathPolicy (cfg : Config) : PathPolicy :=
  ⟨cfg.serveDotfiles, 4096⟩

/-- The status a rejected path is answered with. -/
def rejectStatus : RejectReason → ℕ
  | .tooLong => 414
  | .badEncoding => 400
  | .badCharacter => 400
  | .traversal => 404
  | .dotfile => 404

/-- Maps a relative path back to a request URL path under the mount
prefix. -/
def urlFor (cfg : Config) (relative : String) : String :=
  let pre := cfg.stripPrefix.getD ""
  if relative.isEmpty then pre ++ "/" else pre ++ "/" ++ relative

/-- The encodings a request's variants are tried in: none for a directory
path or without `Accept-Encoding`. -/
def acceptedEncodings (crates : Crates) (cfg : Config) (trailingSlash : Bool)
    (acceptEncoding : Option String) : List Encoding :=
  if trailingSlash then
    []
  else
    match acceptEncoding with
    | none => []
    | some accept =>
        Encoding.negotiatePrecompressed crates (some accept) cfg.precompressed

/-- The content type configured for a path. -/
def configuredContentType (crates : Crates) (cfg : Config) (path : String) :
    String :=
  Mime.contentTypeFor crates path cfg.mimeOverrides cfg.defaultContentType

/-- `build_file_candidates`: a candidate for each accepted encoding, then the
identity candidate. -/
def buildFileCandidates (crates : Crates) (cfg : Config) (relative : String)
    (trailingSlash : Bool) (acceptEncoding : Option String) : List Candidate :=
  let contentType := configuredContentType crates cfg relative
  let candidates :=
    (acceptedEncodings crates cfg trailingSlash acceptEncoding).map fun encoding =>
      { fsPath := cfg.root.join (relative ++ encoding.fileSuffix)
        encoding := some encoding.contentEncoding
        contentType
        addVary := true : Candidate }
  candidates ++
    [{ fsPath := cfg.root.join relative
       encoding := none
       contentType
       addVary := !candidates.isEmpty }]

/-- The index candidates of a directory. -/
def indexCandidates (crates : Crates) (cfg : Config) (dirFs : PathBuf) :
    List (PathBuf × String) :=
  cfg.indexFiles.map fun name =>
    (dirFs.join name, configuredContentType crates cfg name)

end EnvoyFiles.Filter
