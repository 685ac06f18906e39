import Mathlib

/-!
# String and byte operations of the Rust standard library

The crates work on `&str`, `String` and `&[u8]`.  A Rust string and a Lean
`String` are both sequences of Unicode scalar values, so the operations below
are stated on the list of characters and keep the Rust names.  Bytes appear
where the source leaves `str` for `[u8]`: lengths, percent-decoding and the
bodies it sends.
-/

namespace EnvoyFiles

/-- A Rust `Vec<u8>` or `&[u8]`. -/
abbrev Bytes := List UInt8

namespace Text

/-- `str::as_bytes`. -/
def asBytes (s : String) : Bytes :=
  s.toList.flatMap String.utf8EncodeChar

/-- `str::len`, which counts bytes. -/
def len (s : String) : ℕ :=
  (asBytes s).length

/-- `str::split` at a character. -/
def split (s : String) (sep : Char) : List String :=
  (s.toList.splitOn sep).map String.ofList

/-- `[String]::join`. -/
def join (parts : List String) (sep : String) : String :=
  sep.intercalate parts

/-- `str::strip_prefix`. -/
def stripPrefix (s pre : String) : Option String :=
  if pre.toList.isPrefixOf s.toList then
    some (String.ofList (s.toList.drop pre.toList.length))
  else
    none

/-- `str::split_once` at a character. -/
def splitOnce (s : String) (sep : Char) : Option (String × String) :=
  if sep ∈ s.toList then
    some (String.ofList (s.toList.takeWhile (· ≠ sep)),
      String.ofList ((s.toList.dropWhile (· ≠ sep)).drop 1))
  else
    none

/-- Unicode `White_Space`, the characters `str::trim` removes. -/
def isWhiteSpace (c : Char) : Bool :=
  let n := c.toNat
  (9 ≤ n && n ≤ 13) || n == 0x20 || n == 0x85 || n == 0xA0 || n == 0x1680 ||
    (0x2000 ≤ n && n ≤ 0x200A) || n == 0x2028 || n == 0x2029 || n == 0x202F ||
    n == 0x205F || n == 0x3000

/-- `str::trim`. -/
def trim (s : String) : String :=
  String.ofList
    ((s.toList.dropWhile isWhiteSpace).reverse.dropWhile isWhiteSpace).reverse

/-- `str::to_ascii_lowercase`. -/
def toAsciiLowercase (s : String) : String :=
  String.ofList (s.toList.map Char.toLower)

/-- `str::eq_ignore_ascii_case`. -/
def eqIgnoreAsciiCase (a b : String) : Bool :=
  a.toList.map Char.toLower == b.toList.map Char.toLower

/-- `format!("{:x}")` of an unsigned integer. -/
def hex (n : ℕ) : String :=
  String.ofList (Nat.toDigits 16 n)

/-- `format!("{:016x}")` of a `u64`. -/
def hex16 (n : ℕ) : String :=
  let digits := Nat.toDigits 16 n
  String.ofList (List.replicate (16 - digits.length) '0' ++ digits)

/-- `i64 as u64`: the bit pattern of a signed integer. -/
def asU64 (n : ℤ) : ℕ :=
  (n % 2 ^ 64).toNat

/-- `str::from_utf8`. -/
def fromUtf8 (bytes : Bytes) : Option String :=
  String.fromUTF8? ⟨bytes.toArray⟩

/-! ## Lossy decoding -/

/-- A UTF-8 continuation byte. -/
def isContinuation (b : UInt8) : Bool :=
  b &&& 0xC0 == 0x80

/-- The bytes that may follow the lead byte of a three- or four-byte
sequence, which exclude overlong forms, surrogates and values past
`U+10FFFF`. -/
def isSecondByte (lead b : UInt8) : Bool :=
  if lead == 0xE0 then 0xA0 ≤ b && b ≤ 0xBF
  else if lead == 0xED then 0x80 ≤ b && b ≤ 0x9F
  else if lead == 0xF0 then 0x90 ≤ b && b ≤ 0xBF
  else if lead == 0xF4 then 0x80 ≤ b && b ≤ 0x8F
  else isContinuation b

/-- Continuation bytes a lead byte asks for; `none` for a byte that cannot
start a sequence. -/
def sequenceTail (lead : UInt8) : Option ℕ :=
  if lead < 0x80 then some 0
  else if 0xC2 ≤ lead && lead ≤ 0xDF then some 1
  else if 0xE0 ≤ lead && lead ≤ 0xEF then some 2
  else if 0xF0 ≤ lead && lead ≤ 0xF4 then some 3
  else none

/-- Continuation bytes present behind `lead`, at most the number it asks for:
the maximal subpart that one replacement character stands for. -/
def presentTail (lead : UInt8) (tail : ℕ) (rest : Bytes) : ℕ :=
  match tail, rest with
  | 0, _ => 0
  | _, [] => 0
  | 1, b :: _ => if isContinuation b then 1 else 0
  | n + 2, b :: rest =>
      if isSecondByte lead b then
        1 + ((rest.take (n + 1)).takeWhile isContinuation).length
      else
        0

/-- `String::from_utf8_lossy`: every maximal ill-formed subpart becomes one
`U+FFFD`.  `fuel` bounds the number of sequences. -/
def lossyChars (fuel : ℕ) (bytes : Bytes) : List Char :=
  match fuel, bytes with
  | 0, _ => []
  | _, [] => []
  | fuel + 1, lead :: rest =>
      match sequenceTail lead with
      | none => '\uFFFD' :: lossyChars fuel rest
      | some tail =>
          let present := presentTail lead tail rest
          let decoded :=
            if present = tail then
              (fromUtf8 (lead :: rest.take tail)).getD ""
            else
              "\uFFFD"
          decoded.toList ++ lossyChars fuel (rest.drop present)

/-- `String::from_utf8_lossy`. -/
def fromUtf8Lossy (bytes : Bytes) : String :=
  String.ofList (lossyChars bytes.length bytes)

end Text

end EnvoyFiles
