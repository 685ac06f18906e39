import EnvoyFiles.Filter.Config
import EnvoyFiles.Support.Strings

/-!
# Loading the configuration

The model of `config::parse` in `envoy-files-filter/src/config.rs`.  The YAML
reader and the filesystem are parameters; a loaded document is a value of the
reader's type `Yaml`.
-/

namespace EnvoyFiles

open Text

/-- `yaml_rust2::Yaml`.  A map keeps its entries in document order. -/
inductive Yaml where
  | real (text : String)
  | integer (value : ℤ)
  | string (text : String)
  | boolean (value : Bool)
  | array (values : List Yaml)
  | hash (entries : List (Yaml × Yaml))
  | alias (anchor : ℕ)
  | null
  | badValue

namespace Yaml

/-- The value of a string key among the entries of a map. -/
def lookup (key : String) : List (Yaml × Yaml) → Yaml
  | [] => .badValue
  | (.string name, value) :: rest => if name = key then value else lookup key rest
  | _ :: rest => lookup key rest

/-- `doc[key]`: `BadValue` where there is no such key. -/
def get (doc : Yaml) (key : String) : Yaml :=
  match doc with
  | .hash entries => lookup key entries
  | _ => .badValue

def asStr : Yaml → Option String
  | .string text => some text
  | _ => none

def asI64 : Yaml → Option ℤ
  | .integer value => some value
  | _ => none

def asBool : Yaml → Option Bool
  | .boolean value => some value
  | _ => none

end Yaml

/-- What `config::parse` calls outside the repository.  An error is kept as its
text. -/
structure Loader where
  /-- `YamlLoader::load_from_str`. -/
  loadFromStr : String → Except String (List Yaml)
  /-- `std::fs::canonicalize`. -/
  canonicalize : String → Except String PathBuf
  /-- `Path::is_dir`. -/
  isDir : PathBuf → Bool
  /-- The `Debug` text of a string. -/
  debugStr : String → String
  /-- The `Debug` text of a path. -/
  debugPath : PathBuf → String

namespace Config

def knownKeys : List String :=
  ["root", "strip_prefix", "index_files", "directory", "redirect_trailing_slash",
    "follow_symlinks_within_root", "serve_dotfiles", "chunk_size", "max_inflight_reads",
    "blocking_threads", "force_blocking", "etag", "last_modified", "ranges", "precompressed",
    "mime_overrides", "default_content_type", "cache_control"]

/-- The check of one key of the map. -/
def checkKey : Yaml → Except String Unit
  | .string key =>
      if key ∈ knownKeys then .ok () else .error ("unknown config key: " ++ key)
  | _ => .error "config keys must be strings"

/-- The document is a map of known keys. -/
def checkKeys : Yaml → Except String Unit
  | .hash entries => entries.forM fun (key, _) => checkKey key
  | _ => .error "config must be a map"

/-- The first document of the text. -/
def loadDocument (loader : Loader) (raw : Bytes) : Except String Yaml :=
  match fromUtf8 raw with
  | none => .error "config is not valid UTF-8"
  | some text =>
      match loader.loadFromStr text with
      | .error e => .error ("config is not valid YAML: " ++ e)
      | .ok [] => .error "config is empty"
      | .ok (doc :: _) => .ok doc

/-- `root`, which has to be an accessible directory. -/
def parseRoot (loader : Loader) (doc : Yaml) : Except String PathBuf :=
  match (doc.get "root").asStr with
  | none => .error "missing required config key: root"
  | some root =>
      match loader.canonicalize root with
      | .error e => .error ("root " ++ loader.debugStr root ++ " is not accessible: " ++ e)
      | .ok root =>
          if loader.isDir root then
            .ok root
          else
            .error ("root " ++ loader.debugPath root ++ " is not a directory")

/-- `str::trim_end_matches('/')`. -/
def trimEndSlashes (s : String) : String :=
  String.ofList (s.toList.reverse.dropWhile (· == '/')).reverse

def parseStripPrefix : Yaml → Except String (Option String)
  | .badValue => .ok none
  | .string pre =>
      let trimmed := trimEndSlashes pre
      if trimmed.isEmpty then
        .error "strip_prefix must be a non-empty path prefix"
      else if trimmed.toList.head? = some '/' then
        .ok (some trimmed)
      else
        .ok (some ("/" ++ trimmed))
  | _ => .error "strip_prefix must be a string"

def parseIndexFile (value : Yaml) : Except String String :=
  match value.asStr with
  | some name => .ok name
  | none => .error "index_files entries must be strings"

def parseIndexFiles : Yaml → Except String (List String)
  | .badValue => .ok ["index.html"]
  | .array values => values.mapM parseIndexFile
  | _ => .error "index_files must be a list"

/-- `directory`; a value that is no string counts as absent. -/
def parseDirectory (value : Yaml) : Except String DirectoryMode :=
  match value.asStr with
  | none => .ok .index
  | some "index" => .ok .index
  | some "listing" => .ok .listing
  | some "deny" => .ok .deny
  | some other => .error ("unknown directory mode: " ++ other)

/-- `ranges`; a value that is no string counts as absent. -/
def parseRanges (value : Yaml) : Except String RangeSupport :=
  match value.asStr with
  | none => .ok .multi
  | some "none" => .ok .none
  | some "single" => .ok .single
  | some "multi" => .ok .multi
  | some other => .error ("unknown ranges mode: " ++ other)

def parseEncoding (value : Yaml) : Except String Encoding :=
  match value.asStr with
  | some "br" => .ok Encoding.brotli
  | some "gzip" => .ok Encoding.gzip
  | some "zstd" => .ok Encoding.zstd
  | _ => .error "precompressed entries must be br, gzip, or zstd"

def parsePrecompressed : Yaml → Except String (List Encoding)
  | .badValue => .ok [Encoding.brotli, Encoding.gzip]
  | .array values => values.mapM parseEncoding
  | _ => .error "precompressed must be a list"

def parseMimeOverride (entry : Yaml × Yaml) : Except String (String × String) :=
  match entry.1.asStr, entry.2.asStr with
  | some key, some value => .ok (key, value)
  | _, _ => .error "mime_overrides must map strings to strings"

def parseMimeOverrides : Yaml → Except String (List (String × String))
  | .badValue => .ok []
  | .hash entries => entries.mapM parseMimeOverride
  | _ => .error "mime_overrides must be a map"

/-- `int_in_range`. -/
def intInRange (doc : Yaml) (key : String) (default min max : ℕ) : Except String ℕ :=
  match doc.get key with
  | .badValue => .ok default
  | value =>
      match value.asI64.filter fun n => (min : ℤ) ≤ n ∧ n ≤ max with
      | some n => .ok n.toNat
      | none =>
          .error (key ++ " must be an integer in " ++ toString min ++ "..=" ++ toString max)

def parseBlockingThreads : Yaml → Except String (Option ℕ)
  | .badValue => .ok none
  | value =>
      match value.asI64.filter fun n => 1 ≤ n ∧ n ≤ 256 with
      | some n => .ok (some n.toNat)
      | none => .error "blocking_threads must be an integer in 1..=256"

/-- `bool_or`. -/
def boolOr (doc : Yaml) (key : String) (default : Bool) : Except String Bool :=
  match doc.get key with
  | .badValue => .ok default
  | value =>
      match value.asBool with
      | some flag => .ok flag
      | none => .error (key ++ " must be a boolean")

/-- The configuration a document describes. -/
def ofDocument (loader : Loader) (doc : Yaml) : Except String Config := do
  checkKeys doc
  let root ← parseRoot loader doc
  let stripPrefix ← parseStripPrefix (doc.get "strip_prefix")
  let indexFiles ← parseIndexFiles (doc.get "index_files")
  let directory ← parseDirectory (doc.get "directory")
  let ranges ← parseRanges (doc.get "ranges")
  let precompressed ← parsePrecompressed (doc.get "precompressed")
  let mimeOverrides ← parseMimeOverrides (doc.get "mime_overrides")
  let chunkSize ← intInRange doc "chunk_size" 65536 4096 (4 * 2 ^ 20)
  let maxInflightReads ← intInRange doc "max_inflight_reads" 2 1 8
  let blockingThreads ← parseBlockingThreads (doc.get "blocking_threads")
  let redirectTrailingSlash ← boolOr doc "redirect_trailing_slash" true
  let followSymlinksWithinRoot ← boolOr doc "follow_symlinks_within_root" true
  let serveDotfiles ← boolOr doc "serve_dotfiles" false
  let forceBlocking ← boolOr doc "force_blocking" false
  let etag ← boolOr doc "etag" true
  let lastModified ← boolOr doc "last_modified" true
  return {
    root, stripPrefix, indexFiles, directory, redirectTrailingSlash,
    followSymlinksWithinRoot, serveDotfiles, chunkSize, maxInflightReads, blockingThreads,
    forceBlocking, etag, lastModified, ranges, precompressed, mimeOverrides
    defaultContentType :=
      ((doc.get "default_content_type").asStr).getD "application/octet-stream"
    cacheControl := (doc.get "cache_control").asStr }

/-- `config::parse`. -/
def parse (loader : Loader) (raw : Bytes) : Except String Config := do
  let doc ← loadDocument loader raw
  ofDocument loader doc

/-! ## Loaded configurations -/

theorem bind_eq_ok {α β : Type} {x : Except String α} {f : α → Except String β} {b : β} :
    (x >>= f) = .ok b ↔ ∃ a, x = .ok a ∧ f a = .ok b := by
  cases x with
  | error e =>
      constructor
      · nofun
      · rintro ⟨a, ha, -⟩
        nomatch ha
  | ok a =>
      constructor
      · intro h
        exact ⟨a, rfl, h⟩
      · rintro ⟨a', ha, h⟩
        cases ha
        exact h

/-- Every field of the configuration is what its key of the document says. -/
structure Describes (loader : Loader) (doc : Yaml) (cfg : Config) : Prop where
  keys : checkKeys doc = .ok ()
  root : parseRoot loader doc = .ok cfg.root
  stripPrefix : parseStripPrefix (doc.get "strip_prefix") = .ok cfg.stripPrefix
  indexFiles : parseIndexFiles (doc.get "index_files") = .ok cfg.indexFiles
  directory : parseDirectory (doc.get "directory") = .ok cfg.directory
  ranges : parseRanges (doc.get "ranges") = .ok cfg.ranges
  precompressed : parsePrecompressed (doc.get "precompressed") = .ok cfg.precompressed
  mimeOverrides : parseMimeOverrides (doc.get "mime_overrides") = .ok cfg.mimeOverrides
  chunkSize : intInRange doc "chunk_size" 65536 4096 (4 * 2 ^ 20) = .ok cfg.chunkSize
  maxInflightReads : intInRange doc "max_inflight_reads" 2 1 8 = .ok cfg.maxInflightReads
  blockingThreads : parseBlockingThreads (doc.get "blocking_threads") = .ok cfg.blockingThreads
  redirectTrailingSlash :
    boolOr doc "redirect_trailing_slash" true = .ok cfg.redirectTrailingSlash
  followSymlinksWithinRoot :
    boolOr doc "follow_symlinks_within_root" true = .ok cfg.followSymlinksWithinRoot
  serveDotfiles : boolOr doc "serve_dotfiles" false = .ok cfg.serveDotfiles
  forceBlocking : boolOr doc "force_blocking" false = .ok cfg.forceBlocking
  etag : boolOr doc "etag" true = .ok cfg.etag
  lastModified : boolOr doc "last_modified" true = .ok cfg.lastModified
  defaultContentType :
    cfg.defaultContentType =
      ((doc.get "default_content_type").asStr).getD "application/octet-stream"
  cacheControl : cfg.cacheControl = (doc.get "cache_control").asStr

theorem ofDocument_eq_ok {loader : Loader} {doc : Yaml} {cfg : Config} :
    ofDocument loader doc = .ok cfg ↔ Describes loader doc cfg := by
  simp only [ofDocument, bind_eq_ok]
  constructor
  · rintro ⟨_, hkeys, root, hroot, pre, hprefix, index, hindex, directory, hdirectory,
      ranges, hranges, precompressed, hprecompressed, overrides, hoverrides, chunk, hchunk,
      inflight, hinflight, threads, hthreads, slash, hslash, follow, hfollow, dotfiles,
      hdotfiles, force, hforce, etag, hetag, modified, hmodified, hcfg⟩
    cases hcfg
    exact ⟨hkeys, hroot, hprefix, hindex, hdirectory, hranges, hprecompressed, hoverrides,
      hchunk, hinflight, hthreads, hslash, hfollow, hdotfiles, hforce, hetag, hmodified, rfl,
      rfl⟩
  · intro h
    refine ⟨(), h.keys, _, h.root, _, h.stripPrefix, _, h.indexFiles, _, h.directory, _,
      h.ranges, _, h.precompressed, _, h.mimeOverrides, _, h.chunkSize, _, h.maxInflightReads,
      _, h.blockingThreads, _, h.redirectTrailingSlash, _, h.followSymlinksWithinRoot, _,
      h.serveDotfiles, _, h.forceBlocking, _, h.etag, _, h.lastModified, ?_⟩
    rw [← h.defaultContentType, ← h.cacheControl]
    rfl

theorem parse_eq_ok {loader : Loader} {raw : Bytes} {cfg : Config} :
    parse loader raw = .ok cfg ↔
      ∃ doc, loadDocument loader raw = .ok doc ∧ Describes loader doc cfg := by
  simp only [parse, bind_eq_ok, ofDocument_eq_ok]

/-- An integer key lies in its range, or it is absent. -/
theorem intInRange_eq_ok {doc : Yaml} {key : String} {default min max n : ℕ}
    (hdefault : min ≤ default ∧ default ≤ max)
    (h : intInRange doc key default min max = .ok n) : min ≤ n ∧ n ≤ max := by
  rw [intInRange] at h
  split at h
  · cases h
    exact hdefault
  · split at h
    · next m hm =>
        cases h
        obtain ⟨-, hrange⟩ := Option.filter_eq_some_iff.mp hm
        have hbounds := of_decide_eq_true hrange
        omega
    · nomatch h

/-- What a list is parsed to comes from its values. -/
theorem mapM_eq_ok {α : Type} {f : Yaml → Except String α} {values : List Yaml} {out : List α}
    (h : values.mapM f = .ok out) {a : α} (ha : a ∈ out) : ∃ value ∈ values, f value = .ok a := by
  induction values generalizing out with
  | nil =>
      cases h
      nomatch ha
  | cons value values ih =>
      rw [List.mapM_cons] at h
      obtain ⟨first, hfirst, h⟩ := bind_eq_ok.mp h
      obtain ⟨rest, hrest, h⟩ := bind_eq_ok.mp h
      cases h
      rcases List.mem_cons.mp ha with rfl | hmem
      · exact ⟨value, List.mem_cons_self, hfirst⟩
      · obtain ⟨value', hvalue', hparsed⟩ := ih hrest hmem
        exact ⟨value', List.mem_cons_of_mem _ hvalue', hparsed⟩

theorem parseEncoding_eq_ok {value : Yaml} {encoding : Encoding}
    (h : parseEncoding value = .ok encoding) :
    encoding ∈ [Encoding.brotli, Encoding.gzip, Encoding.zstd] := by
  rw [parseEncoding] at h
  split at h
  · cases h
    decide
  · cases h
    decide
  · cases h
    decide
  · nomatch h

/-- A loaded configuration names no other encodings than the known ones. -/
theorem precompressed_of_parse {loader : Loader} {raw : Bytes} {cfg : Config}
    (h : parse loader raw = .ok cfg) :
    ∀ encoding ∈ cfg.precompressed, encoding ∈ [Encoding.brotli, Encoding.gzip, Encoding.zstd] := by
  intro encoding hencoding
  obtain ⟨doc, -, hdescribes⟩ := parse_eq_ok.mp h
  have hparsed := hdescribes.precompressed
  simp only [parsePrecompressed] at hparsed
  split at hparsed
  · rw [← Except.ok.inj hparsed] at hencoding
    exact List.mem_append_left [Encoding.zstd] hencoding
  · obtain ⟨value, -, hvalue⟩ := mapM_eq_ok hparsed hencoding
    exact parseEncoding_eq_ok hvalue
  · nomatch hparsed

/-- A loaded configuration keeps the bounds of the streaming parameters. -/
theorem streamingBounds_of_parse {loader : Loader} {raw : Bytes} {cfg : Config}
    (h : parse loader raw = .ok cfg) : cfg.StreamingBounds := by
  obtain ⟨doc, -, hdescribes⟩ := parse_eq_ok.mp h
  obtain ⟨hchunkLow, hchunkHigh⟩ := intInRange_eq_ok (by decide) hdescribes.chunkSize
  obtain ⟨hinflightLow, hinflightHigh⟩ := intInRange_eq_ok (by decide) hdescribes.maxInflightReads
  exact ⟨hchunkLow, hchunkHigh, hinflightLow, hinflightHigh⟩

end Config

end EnvoyFiles
