import EnvoyFiles.Core.Crates
import EnvoyFiles.Support.Text

/-!
# Negotiation of pre-compressed variants

The model of `envoy-files-core/src/encoding.rs`.
-/

namespace EnvoyFiles

/-- A pre-compressed encoding the server can serve. -/
structure Encoding where
  fileSuffix : String
  contentEncoding : String
  deriving DecidableEq, Repr

namespace Encoding

open Text

def brotli : Encoding := ⟨".br", "br"⟩

def gzip : Encoding := ⟨".gz", "gzip"⟩

def zstd : Encoding := ⟨".zst", "zstd"⟩

/-- One `(coding, q)` entry of an `Accept-Encoding` header. -/
structure AcceptEncodingEntry (crates : Crates) where
  name : String
  q : crates.Weight

/-- The parameter loop of one entry: the last parseable `q=` wins and an
unparseable one makes the whole header malformed. -/
def parseQ (crates : Crates) : crates.Weight → List String → Option crates.Weight
  | q, [] => some q
  | q, param :: rest =>
      match stripPrefix (trim param) "q=" with
      | none => parseQ crates q rest
      | some value =>
          match crates.parseWeight (trim value) with
          | none => none
          | some q' => parseQ crates q' rest

/-- The item loop of `parse_accept_encoding`. -/
def parseItems (crates : Crates) :
    List String → Option (List (AcceptEncodingEntry crates))
  | [] => some []
  | rawItem :: rest =>
      let item := trim rawItem
      if item.isEmpty then
        parseItems crates rest
      else
        match split item ';' with
        | [] => none
        | first :: params =>
            let name := trim first
            if name.isEmpty then
              none
            else do
              let q ← parseQ crates crates.oneWeight params
              let entries ← parseItems crates rest
              return ⟨name, q⟩ :: entries

/-- Parses an `Accept-Encoding` header into `(coding, q)` entries; `none` when
it is malformed. -/
def parseAcceptEncoding (crates : Crates) (header : String) :
    Option (List (AcceptEncodingEntry crates)) :=
  parseItems crates (split header ',')

/-- The effective `q` of `coding`: an exact match wins, then `*`. -/
def acceptanceFor {crates : Crates}
    (entries : List (AcceptEncodingEntry crates)) (coding : String) :
    Option crates.Weight :=
  match entries.find? fun e => eqIgnoreAsciiCase e.name coding with
  | some entry => some entry.q
  | none => (entries.find? fun e => e.name == "*").map (·.q)

/-- `b.0.total_cmp(&a.0).then(a.1.cmp(&b.1))` as a stable sort's `≤`. -/
def scoredLe (crates : Crates)
    (a b : crates.Weight × ℕ × Encoding) : Bool :=
  ((crates.totalCmp b.1 a.1).then (compare a.2.1 b.2.1)).isLE

/-- The encodings of `order` that the client accepts, by descending `q` and
then by position in `order`. -/
def negotiatePrecompressed (crates : Crates)
    (acceptEncoding : Option String) (order : List Encoding) : List Encoding :=
  match acceptEncoding with
  | none => []
  | some header =>
      match parseAcceptEncoding crates header with
      | none => []
      | some entries =>
          let scored := order.zipIdx.filterMap fun (encoding, serverRank) =>
            match acceptanceFor entries encoding.contentEncoding with
            | some q =>
                if crates.weightPos q then some (q, serverRank, encoding)
                else none
            | none => none
          (scored.mergeSort (scoredLe crates)).map (·.2.2)

end Encoding

end EnvoyFiles
