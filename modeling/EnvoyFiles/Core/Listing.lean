import EnvoyFiles.Core.Validators

/-!
# Directory listings

The model of `envoy-files-core/src/listing.rs`.
-/

namespace EnvoyFiles.Listing

open Text Conditional

/-- One entry of a directory listing. -/
structure DirEntry where
  name : String
  isDir : Bool
  size : ℕ
  mtimeUnix : ℤ
  deriving DecidableEq

/-- The bytes `PATH_SEGMENT` leaves alone: ASCII letters and digits and
`-._~`. -/
def isUnreserved (b : UInt8) : Bool :=
  (0x30 ≤ b && b ≤ 0x39) || (0x41 ≤ b && b ≤ 0x5A) || (0x61 ≤ b && b ≤ 0x7A) ||
    b == 0x2D || b == 0x2E || b == 0x5F || b == 0x7E

/-- One upper-case hexadecimal digit. -/
def hexDigitUpper (n : ℕ) : Char :=
  (Nat.digitChar n).toUpper

/-- `utf8_percent_encode` of one byte over `PATH_SEGMENT`. -/
def percentEncodeByte (b : UInt8) : List Char :=
  if isUnreserved b then [Char.ofNat b.toNat]
  else ['%', hexDigitUpper (b.toNat / 16), hexDigitUpper (b.toNat % 16)]

/-- Percent-encodes a file name for use as an `href` path segment. -/
def percentEncodePathSegment (name : String) : String :=
  String.ofList ((asBytes name).flatMap percentEncodeByte)

/-- `html_escape::encode_text`. -/
def encodeText (text : String) : String :=
  String.ofList (text.toList.flatMap fun c =>
    if c = '&' then "&amp;".toList
    else if c = '<' then "&lt;".toList
    else if c = '>' then "&gt;".toList
    else [c])

/-! ## Sizes

The source divides an `f64` by powers of two, which is exact once the size has
been rounded to 53 bits, and prints one decimal rounded half to even. -/

/-- Division by `d`, rounded to nearest with ties to even. -/
def divRoundEven (n d : ℕ) : ℕ :=
  let q := n / d
  let r := n % d
  if 2 * r < d then q
  else if 2 * r > d then q + 1
  else if q % 2 = 0 then q
  else q + 1

/-- `u64 as f64`, as the integer it denotes. -/
def asF64 (n : ℕ) : ℕ :=
  let ulp := 2 ^ (Nat.log2 n - 52)
  divRoundEven n ulp * ulp

/-- The unit loop of `humanize_size`: the divisor reached and its unit. -/
def unitFor (size divisor : ℕ) : List String → ℕ × String
  | [] => (divisor, "")
  | [unit] => (divisor, unit)
  | unit :: units =>
      if size ≥ 1024 * divisor then unitFor size (1024 * divisor) units
      else (divisor, unit)

/-- Formats a byte count in binary units with one decimal place. -/
def humanizeSize (size : ℕ) : String :=
  if size < 1024 then
    s!"{size} B"
  else
    let rounded := asF64 size
    let (divisor, unit) := unitFor rounded 1024 ["KiB", "MiB", "GiB", "TiB"]
    let tenths := divRoundEven (10 * rounded) divisor
    s!"{tenths / 10}.{tenths % 10} {unit}"

/-! ## The page -/

/-- `str::cmp`, which compares bytes, as an order on names. -/
def nameLe (a b : String) : Bool :=
  decide (a.toList ≤ b.toList)

/-- The sort of `render_listing` as a stable sort's `≤`: directories first,
then lowercased names, then exact names. -/
def entryLe (crates : Crates) (a b : DirEntry) : Bool :=
  if a.isDir != b.isDir then a.isDir
  else
    let lowerA := crates.toLowercase a.name
    let lowerB := crates.toLowercase b.name
    if lowerA != lowerB then nameLe lowerA lowerB
    else nameLe a.name b.name

/-- One table row; `none` when the date cannot be formatted. -/
def renderRow (crates : Crates) (entry : DirEntry) : Option String := do
  let slash := if entry.isDir then "/" else ""
  let href := percentEncodePathSegment entry.name ++ slash
  let displayName := encodeText entry.name ++ slash
  let sizeCell := if entry.isDir then "" else humanizeSize entry.size
  let modifiedCell ← formatHttpDate crates entry.mtimeUnix
  return "<tr><td><a href=\"" ++ href ++ "\">" ++ displayName ++
    "</a></td><td>" ++ sizeCell ++ "</td><td>" ++ modifiedCell ++ "</td></tr>\n"

/-- The page up to the entry rows. -/
def renderHead (urlPath : String) (atRoot : Bool) : String :=
  "<!DOCTYPE html>\n<html>\n<head>\n" ++ "<meta charset=\"utf-8\">\n" ++
    "<title>Index of " ++ encodeText urlPath ++ "</title>\n" ++
    "</head>\n<body>\n" ++
    "<h1>Index of " ++ encodeText urlPath ++ "</h1>\n" ++
    "<table>\n" ++
    "<tr><th>Name</th><th>Size</th><th>Last modified</th></tr>\n" ++
    (if atRoot then ""
      else "<tr><td><a href=\"../\">../</a></td><td></td><td></td></tr>\n")

/-- Renders a directory listing; `none` when an entry's date panics. -/
def renderListing (crates : Crates) (urlPath : String) (atRoot : Bool)
    (entries : List DirEntry) : Option String := do
  let sorted := entries.mergeSort (entryLe crates)
  let rows ← sorted.mapM (renderRow crates)
  return renderHead urlPath atRoot ++ join rows "" ++
    "</table>\n</body>\n</html>\n"

end EnvoyFiles.Listing
