import EnvoyFiles.Support.Text

/-!
# Resolution of request paths

The model of `envoy-files-core/src/path.rs`: a raw request target becomes a
root-relative path or a rejection.  Splitting happens before percent-decoding,
so an encoded slash stays inside the segment it was written in and is rejected
there.
-/

namespace EnvoyFiles.Path

open Text

/-- Policy governing which request paths are acceptable. -/
structure PathPolicy where
  serveDotfiles : Bool
  maxPathLen : ℕ

/-- Why a request path was rejected. -/
inductive RejectReason where
  | badEncoding
  | traversal
  | dotfile
  | tooLong
  | badCharacter
  deriving DecidableEq, Repr

/-- Outcome of resolving a raw request path. -/
inductive ValidatedPath where
  | ok (relative : String) (trailingSlash : Bool)
  | reject (reason : RejectReason)
  deriving DecidableEq, Repr

/-- Strips everything from the first `?` or `#`, whichever comes first. -/
def stripQueryAndFragment (rawPath : String) : String :=
  String.ofList (rawPath.toList.takeWhile fun c => !(c == '?' || c == '#'))

/-- `char::to_digit(16)` of one ASCII byte. -/
def hexDigit (b : UInt8) : Option UInt8 :=
  if 0x30 ≤ b && b ≤ 0x39 then some (b - 0x30)
  else if 0x41 ≤ b && b ≤ 0x46 then some (b - 0x37)
  else if 0x61 ≤ b && b ≤ 0x66 then some (b - 0x57)
  else none

/-- `percent_encoding::percent_decode`: a `%` without two hex digits behind it
is kept literally. -/
def percentDecode : Bytes → Bytes
  | 0x25 :: high :: low :: rest =>
      match hexDigit high, hexDigit low with
      | some h, some l => (h * 16 + l) :: percentDecode rest
      | _, _ => 0x25 :: percentDecode (high :: low :: rest)
  | b :: rest => b :: percentDecode rest
  | [] => []

/-- Percent-decodes one path segment, rejecting bytes that are not UTF-8 and
any decoded `/`. -/
def percentDecodeSegment (segment : String) : Except RejectReason String :=
  match fromUtf8 (percentDecode (asBytes segment)) with
  | none => .error .badEncoding
  | some decoded =>
      if '/' ∈ decoded.toList then .error .traversal else .ok decoded

/-- The reserved DOS device names. -/
def reservedNames : List String :=
  ["CON", "PRN", "AUX", "NUL", "COM1", "COM2", "COM3", "COM4", "COM5", "COM6",
    "COM7", "COM8", "COM9", "LPT1", "LPT2", "LPT3", "LPT4", "LPT5", "LPT6",
    "LPT7", "LPT8", "LPT9"]

/-- Whether the part of `segment` before its first `.` is a reserved device
name in any letter case. -/
def isWindowsReservedName (segment : String) : Bool :=
  let basename :=
    match splitOnce segment '.' with
    | some (base, _) => base
    | none => segment
  reservedNames.any fun name => eqIgnoreAsciiCase name basename

/-- The characters that reject a segment wherever they stand. -/
def isBadCharacter (c : Char) : Bool :=
  c == '\\' || c == ':' || c.toNat < 0x20

/-- Checks one decoded segment against the character and name rules.  The
caller has dealt with `.` and `..`. -/
def rejectReasonForSegment
    (segment : String) (policy : PathPolicy) : Option RejectReason :=
  if segment.toList.any isBadCharacter then
    some .badCharacter
  else if segment.toList.getLast? = some '.' ∨
      segment.toList.getLast? = some ' ' then
    some .badCharacter
  else if !policy.serveDotfiles && segment.toList.head? == some '.' then
    some .dotfile
  else if isWindowsReservedName segment then
    some .badCharacter
  else
    none

/-- The loop of `resolve_request_path` over the raw segments that remain;
`resolved` is `resolved_segments`. -/
def resolveSegments
    (policy : PathPolicy) (resolved : List String) :
    List String → Except RejectReason (List String)
  | [] => .ok resolved
  | rawSegment :: rest =>
      if rawSegment.isEmpty then
        resolveSegments policy resolved rest
      else
        match percentDecodeSegment rawSegment with
        | .error reason => .error reason
        | .ok decoded =>
            if decoded = "." then
              resolveSegments policy resolved rest
            else if decoded = ".." then
              .error .traversal
            else
              match rejectReasonForSegment decoded policy with
              | some reason => .error reason
              | none => resolveSegments policy (resolved ++ [decoded]) rest

/-- Resolves a raw request target into a safe relative path or a rejection. -/
def resolveRequestPath (rawPath : String) (policy : PathPolicy) : ValidatedPath :=
  if len rawPath > policy.maxPathLen then
    .reject .tooLong
  else
    let pathOnly := stripQueryAndFragment rawPath
    let trailingSlash := pathOnly.toList.getLast? == some '/'
    match resolveSegments policy [] (split pathOnly '/') with
    | .error reason => .reject reason
    | .ok resolved => .ok (join resolved "/") trailingSlash

end EnvoyFiles.Path
