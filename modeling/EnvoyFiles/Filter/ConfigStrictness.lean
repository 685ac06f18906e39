import EnvoyFiles.Filter.LoadedConfig

/-!
# How strictly a configuration is read

What the value of each key says, and whether a loaded configuration has it from the
document.  A key whose value is ill-formed counts as absent, and four keys count as absent
if their value is no string.
-/

namespace EnvoyFiles

open Text Filter

/-! ## The keys of a document -/

/-- The value of a string key among the entries of a map, if there is one. -/
def Yaml.find (key : String) : List (Yaml × Yaml) → Option Yaml
  | [] => none
  | (.string name, value) :: rest => if name = key then some value else find key rest
  | _ :: rest => find key rest

/-- The value of a key, if the document has the key. -/
def Yaml.entry (doc : Yaml) (key : String) : Option Yaml :=
  match doc with
  | .hash entries => find key entries
  | _ => none

theorem Yaml.lookup_eq (key : String) (entries : List (Yaml × Yaml)) :
    lookup key entries = (find key entries).getD .badValue := by
  induction entries with
  | nil => rfl
  | cons entry rest ih =>
      obtain ⟨name, value⟩ := entry
      cases name with
      | string name =>
          simp only [lookup, find]
          by_cases hname : name = key
          · rw [if_pos hname, if_pos hname]
            rfl
          · rw [if_neg hname, if_neg hname]
            exact ih
      | _ => exact ih

theorem Yaml.get_eq (doc : Yaml) (key : String) :
    doc.get key = (doc.entry key).getD .badValue := by
  cases doc with
  | hash entries => exact lookup_eq key entries
  | _ => rfl

namespace Config

/-- The keys of a configuration. -/
inductive Key where
  | root
  | stripPrefix
  | indexFiles
  | directory
  | redirectTrailingSlash
  | followSymlinksWithinRoot
  | serveDotfiles
  | chunkSize
  | maxInflightReads
  | blockingThreads
  | forceBlocking
  | etag
  | lastModified
  | ranges
  | precompressed
  | mimeOverrides
  | defaultContentType
  | cacheControl
  deriving DecidableEq

def Key.name : Key → String
  | .root => "root"
  | .stripPrefix => "strip_prefix"
  | .indexFiles => "index_files"
  | .directory => "directory"
  | .redirectTrailingSlash => "redirect_trailing_slash"
  | .followSymlinksWithinRoot => "follow_symlinks_within_root"
  | .serveDotfiles => "serve_dotfiles"
  | .chunkSize => "chunk_size"
  | .maxInflightReads => "max_inflight_reads"
  | .blockingThreads => "blocking_threads"
  | .forceBlocking => "force_blocking"
  | .etag => "etag"
  | .lastModified => "last_modified"
  | .ranges => "ranges"
  | .precompressed => "precompressed"
  | .mimeOverrides => "mime_overrides"
  | .defaultContentType => "default_content_type"
  | .cacheControl => "cache_control"

/-- The keys are those that the loader knows. -/
theorem mem_knownKeys {name : String} : name ∈ knownKeys ↔ ∃ key : Key, key.name = name := by
  constructor
  · have hall : ∀ name ∈ knownKeys, ∃ key ∈ [Key.root, .stripPrefix, .indexFiles, .directory,
        .redirectTrailingSlash, .followSymlinksWithinRoot, .serveDotfiles, .chunkSize,
        .maxInflightReads, .blockingThreads, .forceBlocking, .etag, .lastModified, .ranges,
        .precompressed, .mimeOverrides, .defaultContentType, .cacheControl], key.name = name := by
      decide
    intro hname
    obtain ⟨key, -, hkey⟩ := hall name hname
    exact ⟨key, hkey⟩
  · rintro ⟨key, rfl⟩
    cases key <;> decide

end Config

/-! ## What a value says -/

def DirectoryMode.name : DirectoryMode → String
  | .index => "index"
  | .listing => "listing"
  | .deny => "deny"

def RangeSupport.name : RangeSupport → String
  | .none => "none"
  | .single => "single"
  | .multi => "multi"

/-- A number of the document that a bounded integer key may have. -/
def Yaml.IsBounded (value : Yaml) (min max n : ℕ) : Prop :=
  value = .integer n ∧ min ≤ n ∧ n ≤ max

namespace Config

/-- The value has the documented type and range of its key, and the configuration has
what it says. -/
def Key.Says (loader : Loader) (cfg : Config) (value : Yaml) : Key → Prop
  | .root => ∃ text, value = .string text ∧ loader.canonicalize text = .ok cfg.root ∧
      loader.isDir cfg.root = true
  | .stripPrefix => ∃ text, value = .string text ∧ trimEndSlashes text ≠ "" ∧
      cfg.stripPrefix = some (if (trimEndSlashes text).toList.head? = some '/' then
        trimEndSlashes text else "/" ++ trimEndSlashes text)
  | .indexFiles => value = .array (cfg.indexFiles.map .string)
  | .directory => value = .string cfg.directory.name
  | .redirectTrailingSlash => value = .boolean cfg.redirectTrailingSlash
  | .followSymlinksWithinRoot => value = .boolean cfg.followSymlinksWithinRoot
  | .serveDotfiles => value = .boolean cfg.serveDotfiles
  | .chunkSize => value.IsBounded 4096 (4 * 2 ^ 20) cfg.chunkSize
  | .maxInflightReads => value.IsBounded 1 8 cfg.maxInflightReads
  | .blockingThreads => ∃ n, value.IsBounded 1 256 n ∧ cfg.blockingThreads = some n
  | .forceBlocking => value = .boolean cfg.forceBlocking
  | .etag => value = .boolean cfg.etag
  | .lastModified => value = .boolean cfg.lastModified
  | .ranges => value = .string cfg.ranges.name
  | .precompressed => value = .array (cfg.precompressed.map fun e => .string e.contentEncoding) ∧
      ∀ e ∈ cfg.precompressed, e ∈ [Encoding.brotli, Encoding.gzip, Encoding.zstd]
  | .mimeOverrides => value = .hash (cfg.mimeOverrides.map fun entry =>
      (.string entry.1, .string entry.2))
  | .defaultContentType => value = .string cfg.defaultContentType
  | .cacheControl => ∃ text, value = .string text ∧ cfg.cacheControl = some text

/-- The keys whose values are read by `as_str` with a default. -/
def Key.IsDefaulted (key : Key) : Prop :=
  key ∈ [directory, ranges, defaultContentType, cacheControl]

instance (key : Key) : Decidable key.IsDefaulted :=
  inferInstanceAs (Decidable (key ∈ [Key.directory, .ranges, .defaultContentType, .cacheControl]))

/-- The value is of a kind that its key is read from: not ill-formed, and a string where
anything else counts as absent. -/
def Key.Reads (value : Yaml) (key : Key) : Prop :=
  value ≠ .badValue ∧ (key.IsDefaulted → ∃ text, value = .string text)

/-! ## Reading one value -/

section Values

variable {loader : Loader} {doc value : Yaml} {cfg : Config} {name : String}

theorem parseRoot_says (h : parseRoot loader doc = .ok cfg.root)
    (hvalue : doc.get "root" = value) : Key.Says loader cfg value .root := by
  simp only [parseRoot, hvalue] at h
  cases value with
  | string text =>
      dsimp only [Yaml.asStr] at h
      split at h
      · nomatch h
      · next root hroot =>
          split at h
          · next hdir =>
              cases h
              exact ⟨text, rfl, hroot, hdir⟩
          · nomatch h
  | _ => nomatch h

theorem parseStripPrefix_says (h : parseStripPrefix value = .ok cfg.stripPrefix)
    (hbad : value ≠ .badValue) : Key.Says loader cfg value .stripPrefix := by
  cases value with
  | badValue => exact absurd rfl hbad
  | string text =>
      simp only [parseStripPrefix] at h
      split at h
      · nomatch h
      · next hempty =>
          refine ⟨text, rfl, by simpa using hempty, ?_⟩
          split at h
          · next hslash => rw [if_pos hslash, ← Except.ok.inj h]
          · next hslash => rw [if_neg hslash, ← Except.ok.inj h]
  | _ => nomatch h

/-- A list that is read comes from what its values say. -/
theorem mapM_decodes {α β : Type} {f : β → Except String α} {encode : α → β}
    (hdecode : ∀ value a, f value = .ok a → value = encode a) {values : List β} {out : List α}
    (h : values.mapM f = .ok out) : values = out.map encode := by
  induction values generalizing out with
  | nil =>
      cases h
      rfl
  | cons value values ih =>
      rw [List.mapM_cons] at h
      obtain ⟨first, hfirst, h⟩ := bind_eq_ok.mp h
      obtain ⟨rest, hrest, h⟩ := bind_eq_ok.mp h
      cases h
      rw [List.map_cons, hdecode value first hfirst, ih hrest]

theorem parseIndexFile_decodes (value : Yaml) (name : String)
    (h : parseIndexFile value = .ok name) : value = .string name := by
  cases value with
  | string text =>
      cases h
      rfl
  | _ => nomatch h

theorem parseIndexFiles_says (h : parseIndexFiles value = .ok cfg.indexFiles)
    (hbad : value ≠ .badValue) : Key.Says loader cfg value .indexFiles := by
  cases value with
  | badValue => exact absurd rfl hbad
  | array values => exact congrArg Yaml.array (mapM_decodes parseIndexFile_decodes h)
  | _ => nomatch h

theorem parseDirectory_says {text : String}
    (h : parseDirectory (.string text) = .ok cfg.directory) :
    Key.Says loader cfg (.string text) .directory := by
  simp only [parseDirectory, Yaml.asStr] at h
  simp only [Key.Says]
  split at h
  · next hmode => nomatch hmode
  · next hmode =>
      cases hmode
      rw [← Except.ok.inj h]
      rfl
  · next hmode =>
      cases hmode
      rw [← Except.ok.inj h]
      rfl
  · next hmode =>
      cases hmode
      rw [← Except.ok.inj h]
      rfl
  · nomatch h

theorem parseRanges_says {text : String} (h : parseRanges (.string text) = .ok cfg.ranges) :
    Key.Says loader cfg (.string text) .ranges := by
  simp only [parseRanges, Yaml.asStr] at h
  simp only [Key.Says]
  split at h
  · next hmode => nomatch hmode
  · next hmode =>
      cases hmode
      rw [← Except.ok.inj h]
      rfl
  · next hmode =>
      cases hmode
      rw [← Except.ok.inj h]
      rfl
  · next hmode =>
      cases hmode
      rw [← Except.ok.inj h]
      rfl
  · nomatch h

theorem parseEncoding_decodes (value : Yaml) (encoding : Encoding)
    (h : parseEncoding value = .ok encoding) : value = .string encoding.contentEncoding := by
  cases value with
  | string text =>
      simp only [parseEncoding, Yaml.asStr] at h
      split at h
      · next hcoding =>
          cases hcoding
          cases h
          rfl
      · next hcoding =>
          cases hcoding
          cases h
          rfl
      · next hcoding =>
          cases hcoding
          cases h
          rfl
      · cases h
  | _ => cases h

theorem parsePrecompressed_says (h : parsePrecompressed value = .ok cfg.precompressed)
    (hbad : value ≠ .badValue) : Key.Says loader cfg value .precompressed := by
  cases value with
  | badValue => exact absurd rfl hbad
  | array values =>
      refine ⟨congrArg Yaml.array (mapM_decodes parseEncoding_decodes h), ?_⟩
      intro encoding hencoding
      obtain ⟨value, -, hvalue⟩ := mapM_eq_ok h hencoding
      exact parseEncoding_eq_ok hvalue
  | _ => nomatch h

theorem parseMimeOverride_decodes (entry : Yaml × Yaml) (out : String × String)
    (h : parseMimeOverride entry = .ok out) : entry = (.string out.1, .string out.2) := by
  obtain ⟨key, value⟩ := entry
  simp only [parseMimeOverride] at h
  split at h
  · next ext contentType hext htype =>
      cases h
      cases key with
      | string text =>
          cases value with
          | string text' =>
              cases hext
              cases htype
              rfl
          | _ => nomatch htype
      | _ => nomatch hext
  · nomatch h

theorem parseMimeOverrides_says (h : parseMimeOverrides value = .ok cfg.mimeOverrides)
    (hbad : value ≠ .badValue) : Key.Says loader cfg value .mimeOverrides := by
  cases value with
  | badValue => exact absurd rfl hbad
  | hash entries => exact congrArg Yaml.hash (mapM_decodes parseMimeOverride_decodes h)
  | _ => nomatch h

/-- A number that passes the filter of a bounded key. -/
theorem filter_bounded {min max : ℕ} {m n : ℤ}
    (h : (some m).filter (fun n => (min : ℤ) ≤ n ∧ n ≤ max) = some n) :
    (Yaml.integer m).IsBounded min max n.toNat := by
  obtain ⟨hinteger, hbounds⟩ := Option.filter_eq_some_iff.mp h
  obtain ⟨hlow, hhigh⟩ := of_decide_eq_true hbounds
  obtain rfl := Option.some.inj hinteger
  refine ⟨?_, by omega, by omega⟩
  rw [Int.toNat_of_nonneg (by omega)]

theorem intInRange_says {default min max n : ℕ}
    (h : intInRange doc name default min max = .ok n) (hvalue : doc.get name = value)
    (hbad : value ≠ .badValue) : value.IsBounded min max n := by
  simp only [intInRange, hvalue] at h
  cases value with
  | badValue => exact absurd rfl hbad
  | integer m =>
      dsimp only [Yaml.asI64] at h
      split at h
      · next hm =>
          cases h
          exact filter_bounded hm
      · cases h
  | _ => cases h

theorem parseBlockingThreads_says (h : parseBlockingThreads value = .ok cfg.blockingThreads)
    (hbad : value ≠ .badValue) : Key.Says loader cfg value .blockingThreads := by
  simp only [parseBlockingThreads] at h
  cases value with
  | badValue => exact absurd rfl hbad
  | integer m =>
      dsimp only [Yaml.asI64] at h
      split at h
      · next n hn => exact ⟨n.toNat, filter_bounded hn, (Except.ok.inj h).symm⟩
      · nomatch h
  | _ => nomatch h

theorem boolOr_says {default flag : Bool} (h : boolOr doc name default = .ok flag)
    (hvalue : doc.get name = value) (hbad : value ≠ .badValue) : value = .boolean flag := by
  simp only [boolOr, hvalue] at h
  cases value with
  | badValue => exact absurd rfl hbad
  | boolean flag' => rw [Except.ok.inj h]
  | _ => nomatch h

/-- A value of the kind its key is read from says what the configuration has. -/
theorem says_of_reads {key : Key} (hdescribes : Describes loader doc cfg)
    (hvalue : doc.get key.name = value) (hreads : key.Reads value) :
    key.Says loader cfg value := by
  obtain ⟨hbad, htext⟩ := hreads
  cases key with
  | root => exact parseRoot_says hdescribes.root hvalue
  | stripPrefix => exact parseStripPrefix_says (hvalue ▸ hdescribes.stripPrefix) hbad
  | indexFiles => exact parseIndexFiles_says (hvalue ▸ hdescribes.indexFiles) hbad
  | directory =>
      obtain ⟨text, rfl⟩ := htext (by decide)
      exact parseDirectory_says (hvalue ▸ hdescribes.directory)
  | redirectTrailingSlash => exact boolOr_says hdescribes.redirectTrailingSlash hvalue hbad
  | followSymlinksWithinRoot => exact boolOr_says hdescribes.followSymlinksWithinRoot hvalue hbad
  | serveDotfiles => exact boolOr_says hdescribes.serveDotfiles hvalue hbad
  | chunkSize => exact intInRange_says hdescribes.chunkSize hvalue hbad
  | maxInflightReads => exact intInRange_says hdescribes.maxInflightReads hvalue hbad
  | blockingThreads => exact parseBlockingThreads_says (hvalue ▸ hdescribes.blockingThreads) hbad
  | forceBlocking => exact boolOr_says hdescribes.forceBlocking hvalue hbad
  | etag => exact boolOr_says hdescribes.etag hvalue hbad
  | lastModified => exact boolOr_says hdescribes.lastModified hvalue hbad
  | ranges =>
      obtain ⟨text, rfl⟩ := htext (by decide)
      exact parseRanges_says (hvalue ▸ hdescribes.ranges)
  | precompressed => exact parsePrecompressed_says (hvalue ▸ hdescribes.precompressed) hbad
  | mimeOverrides => exact parseMimeOverrides_says (hvalue ▸ hdescribes.mimeOverrides) hbad
  | defaultContentType =>
      obtain ⟨text, rfl⟩ := htext (by decide)
      have hfield := hdescribes.defaultContentType
      rw [show doc.get "default_content_type" = _ from hvalue] at hfield
      exact congrArg Yaml.string hfield.symm
  | cacheControl =>
      obtain ⟨text, rfl⟩ := htext (by decide)
      have hfield := hdescribes.cacheControl
      rw [show doc.get "cache_control" = _ from hvalue] at hfield
      exact ⟨text, rfl, hfield⟩

/-- What says something is of the kind its key is read from. -/
theorem reads_of_says {key : Key} (h : key.Says loader cfg value) : key.Reads value := by
  constructor
  · rintro rfl
    cases key with
    | root => obtain ⟨_, h, _⟩ := h; nomatch h
    | stripPrefix => obtain ⟨_, h, _⟩ := h; nomatch h
    | blockingThreads => obtain ⟨_, ⟨h, _⟩, _⟩ := h; nomatch h
    | chunkSize => nomatch h.1
    | maxInflightReads => nomatch h.1
    | precompressed => nomatch h.1
    | cacheControl => obtain ⟨_, h, _⟩ := h; nomatch h
    | _ => nomatch h
  · intro hdefaulted
    cases key with
    | directory => exact ⟨_, h⟩
    | ranges => exact ⟨_, h⟩
    | defaultContentType => exact ⟨_, h⟩
    | cacheControl =>
        obtain ⟨text, htext, -⟩ := h
        exact ⟨text, htext⟩
    | _ => exact absurd hdefaulted (by decide)

end Values

/-- In a loaded configuration every key of the document says what the configuration has,
if no value is ill-formed and the keys with a default for anything else are strings. -/
theorem loaded_strictly_iff {loader : Loader} {raw : Bytes} {doc : Yaml} {cfg : Config}
    (hload : parse loader raw = .ok cfg) (hdoc : loadDocument loader raw = .ok doc) :
    (∀ (key : Key) (value : Yaml), doc.entry key.name = some value → key.Says loader cfg value) ↔
      ∀ (key : Key) (value : Yaml), doc.entry key.name = some value → key.Reads value := by
  obtain ⟨doc', hdoc', hdescribes⟩ := parse_eq_ok.mp hload
  obtain rfl := Except.ok.inj (hdoc'.symm.trans hdoc)
  constructor
  · intro hall key value hentry
    exact reads_of_says (hall key value hentry)
  · intro hreads key value hentry
    have hvalue : doc'.get key.name = value := by
      rw [Yaml.get_eq, hentry]
      rfl
    exact says_of_reads hdescribes hvalue (hreads key value hentry)

/-- A document with a directory mode. -/
def directoryDocument (mode : Yaml) : Yaml :=
  .hash [(.string "root", .string "/srv"), (.string "directory", mode)]

/-- A list in place of a directory mode counts as absent. -/
theorem loaded_mistyped_directory :
    (directoryDocument (.array [.string "deny"])).entry "directory" =
        some (.array [.string "deny"]) ∧
      ∃ cfg, parse (documentLoader (directoryDocument (.array [.string "deny"])))
          (asBytes "root: /srv\ndirectory: [deny]\n") = .ok cfg ∧
        cfg.directory = .index ∧
        ∀ loader, ¬Key.Says loader cfg (.array [.string "deny"]) .directory :=
  ⟨rfl, Config.defaults ⟨"/srv"⟩, parse_document rfl, rfl, nofun⟩

theorem loaded_strictly_deny :
    ∃ cfg, parse (documentLoader (directoryDocument (.string "deny")))
        (asBytes "root: /srv\ndirectory: deny\n") = .ok cfg ∧
      ∀ (key : Key) (value : Yaml),
        (directoryDocument (.string "deny")).entry key.name = some value →
          key.Says (documentLoader (directoryDocument (.string "deny"))) cfg value := by
  have hload : parse (documentLoader (directoryDocument (.string "deny")))
      (asBytes "root: /srv\ndirectory: deny\n") =
        .ok { Config.defaults ⟨"/srv"⟩ with directory := .deny } := parse_document rfl
  refine ⟨_, hload, (loaded_strictly_iff hload ?_).mpr ?_⟩
  · simp only [loadDocument, fromUtf8_eq_some.mpr rfl]
    rfl
  · intro key value hentry
    have hstring : ∃ text, value = .string text := by
      simp only [directoryDocument, Yaml.entry, Yaml.find] at hentry
      split at hentry
      · exact ⟨_, (Option.some.inj hentry).symm⟩
      · split at hentry
        · exact ⟨_, (Option.some.inj hentry).symm⟩
        · cases hentry
    obtain ⟨text, rfl⟩ := hstring
    exact ⟨by simp, fun _ => ⟨text, rfl⟩⟩

end Config

end EnvoyFiles
