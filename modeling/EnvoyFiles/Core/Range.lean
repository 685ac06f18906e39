import EnvoyFiles.Support.Text

/-!
# Range requests

The model of `envoy-files-core/src/range.rs`: parsing and planning of `Range`
headers and the framing of `multipart/byteranges` bodies.  A `u64` is a natural
number; the one sum that can leave its range, the multipart content length, is
reduced modulo `2 ^ 64`.
-/

namespace EnvoyFiles.Range

open Text

/-- An inclusive byte range. -/
structure ByteRange where
  start : ℕ
  stop : ℕ
  deriving DecidableEq, Repr

/-- The number of bytes a range names, `end - start + 1`. -/
def ByteRange.length (range : ByteRange) : ℕ :=
  range.stop - range.start + 1

/-- The result of planning a `Range` request. -/
inductive RangeOutcome where
  | full
  | single (range : ByteRange)
  | multi (ranges : List ByteRange)
  | unsatisfiable
  deriving DecidableEq, Repr

/-- Server-side limits on multi-range requests. -/
structure RangePolicy where
  allowMulti : Bool
  maxParts : ℕ

/-- One well-formed spec: either it names no byte or it names a range. -/
inductive SpecResult where
  | unsatisfiable
  | range (range : ByteRange)
  deriving DecidableEq, Repr

def isAsciiDigit (c : Char) : Bool :=
  '0' ≤ c && c ≤ '9'

def isAllAsciiDigits (s : String) : Bool :=
  !s.isEmpty && s.toList.all isAsciiDigit

/-- The number a list of decimal digits denotes. -/
def decimalValue (digits : List Char) : ℕ :=
  digits.foldl (fun value c => value * 10 + (c.toNat - '0'.toNat)) 0

/-- `str::parse::<u64>` of a string of ASCII digits. -/
def parseU64 (digits : String) : Option ℕ :=
  let value := decimalValue digits.toList
  if value < 2 ^ 64 then some value else none

def openEndedSpec (firstBytePos totalLen : ℕ) : SpecResult :=
  if totalLen = 0 ∨ firstBytePos ≥ totalLen then
    .unsatisfiable
  else
    .range ⟨firstBytePos, totalLen - 1⟩

def parseSuffixSpec (suffixDigits : String) (totalLen : ℕ) : Option SpecResult :=
  if suffixDigits.isEmpty || !isAllAsciiDigits suffixDigits then
    none
  else
    match parseU64 suffixDigits with
    | none => none
    | some suffixLength =>
        if suffixLength = 0 ∨ totalLen = 0 then
          some .unsatisfiable
        else if suffixLength ≥ totalLen then
          some (.range ⟨0, totalLen - 1⟩)
        else
          some (.range ⟨totalLen - suffixLength, totalLen - 1⟩)

/-- Parses one comma-separated spec; `none` when it is syntactically
invalid. -/
def parseOneSpec (spec : String) (totalLen : ℕ) : Option SpecResult :=
  match stripPrefix spec "-" with
  | some suffixDigits => parseSuffixSpec suffixDigits totalLen
  | none =>
      match splitOnce spec '-' with
      | none => none
      | some (firstDigits, lastDigits) =>
          if firstDigits.isEmpty || !isAllAsciiDigits firstDigits then
            none
          else
            match parseU64 firstDigits with
            | none => none
            | some firstBytePos =>
                if lastDigits.isEmpty then
                  some (openEndedSpec firstBytePos totalLen)
                else if !isAllAsciiDigits lastDigits then
                  none
                else
                  match parseU64 lastDigits with
                  | none => none
                  | some lastBytePos =>
                      if lastBytePos < firstBytePos then
                        some .unsatisfiable
                      else if totalLen = 0 ∨ firstBytePos ≥ totalLen then
                        some .unsatisfiable
                      else
                        some (.range
                          ⟨firstBytePos, min lastBytePos (totalLen - 1)⟩)

/-- `ranges.windows(2).all(|pair| pair[1].start > pair[0].end)`. -/
def isAscendingNonOverlapping : List ByteRange → Bool
  | first :: second :: rest =>
      decide (second.start > first.stop) &&
        isAscendingNonOverlapping (second :: rest)
  | _ => true

/-- The spec loop of `plan_ranges`: the valid ranges and whether any spec was
seen; `none` when one is malformed. -/
def planSpecs (totalLen : ℕ) (validRanges : List ByteRange) (sawAnySpec : Bool) :
    List String → Option (List ByteRange × Bool)
  | [] => some (validRanges, sawAnySpec)
  | rawSpec :: rest =>
      let trimmed := trim rawSpec
      if trimmed.isEmpty then
        planSpecs totalLen validRanges sawAnySpec rest
      else
        match parseOneSpec trimmed totalLen with
        | none => none
        | some .unsatisfiable => planSpecs totalLen validRanges true rest
        | some (.range range) =>
            planSpecs totalLen (validRanges ++ [range]) true rest

/-- Plans how to serve a `Range` header against `totalLen` bytes. -/
def planRanges
    (rangeHeader : String) (totalLen : ℕ) (policy : RangePolicy) : RangeOutcome :=
  match stripPrefix rangeHeader "bytes=" with
  | none => .full
  | some specsStr =>
      match planSpecs totalLen [] false (split specsStr ',') with
      | none => .full
      | some (validRanges, sawAnySpec) =>
          if !sawAnySpec then
            .full
          else
            match validRanges with
            | [] => .unsatisfiable
            | [range] => .single range
            | ranges =>
                if !policy.allowMulti || ranges.length > policy.maxParts then
                  .full
                else if !isAscendingNonOverlapping ranges then
                  .full
                else
                  .multi ranges

/-- The `Content-Range` value of a satisfiable range. -/
def contentRange (range : ByteRange) (total : ℕ) : String :=
  s!"bytes {range.start}-{range.stop}/{total}"

/-- The `Content-Range` value of a 416 response. -/
def contentRangeUnsatisfied (total : ℕ) : String :=
  s!"bytes */{total}"

/-! ## Multipart framing -/

/-- One part: its range and the header bytes in front of the range's bytes. -/
structure MultipartPart where
  range : ByteRange
  header : Bytes

/-- The header bytes of part `index`; every part but the first starts with a
CRLF that ends the bytes before it. -/
def partHeader (index : ℕ) (range : ByteRange) (contentType : String)
    (total : ℕ) (boundary : String) : Bytes :=
  (if index > 0 then asBytes "\r\n" else []) ++ asBytes "--" ++
    asBytes boundary ++ asBytes "\r\n" ++ asBytes "Content-Type: " ++
    asBytes contentType ++ asBytes "\r\n" ++
    asBytes ("Content-Range: " ++ contentRange range total ++ "\r\n\r\n")

/-- The part loop of `multipart_parts`, with the running `content_length`. -/
def multipartLoop (contentType : String) (total : ℕ) (boundary : String) :
    ℕ → ℕ → List ByteRange → List MultipartPart × ℕ
  | _, contentLength, [] => ([], contentLength)
  | index, contentLength, range :: rest =>
      let header := partHeader index range contentType total boundary
      let afterHeader := (contentLength + header.length) % 2 ^ 64
      let afterBody := (afterHeader + range.length) % 2 ^ 64
      let (parts, contentLength') :=
        multipartLoop contentType total boundary (index + 1) afterBody rest
      (⟨range, header⟩ :: parts, contentLength')

/-- The parts, the closing boundary and the content length of a
`multipart/byteranges` body. -/
def multipartParts (ranges : List ByteRange) (contentType : String)
    (total : ℕ) (boundary : String) : List MultipartPart × Bytes × ℕ :=
  let (parts, contentLength) :=
    multipartLoop contentType total boundary 0 0 ranges
  let terminator := asBytes ("\r\n--" ++ boundary ++ "--\r\n")
  (parts, terminator, (contentLength + terminator.length) % 2 ^ 64)

end EnvoyFiles.Range
