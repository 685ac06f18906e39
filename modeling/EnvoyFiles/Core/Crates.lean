import Mathlib

/-!
# Third-party crates

What the file-serving logic takes from crates outside the repository, and from
floating point, collected as one parameter.  Each field is the one function
the source calls; what it documents about that function is assumed where a
result needs it.
-/

namespace EnvoyFiles

/-- The functions of other crates that the planner and the filter call. -/
structure Crates where
  /-- `f32` weights of an `Accept-Encoding` header. -/
  Weight : Type
  /-- `str::parse::<f32>`. -/
  parseWeight : String → Option Weight
  /-- The weight `1.0` of an entry without a `q` parameter. -/
  oneWeight : Weight
  /-- `q > 0.0`. -/
  weightPos : Weight → Bool
  /-- `f32::total_cmp`. -/
  totalCmp : Weight → Weight → Ordering
  /-- `new_mime_guess::from_ext(_).first_raw()`. -/
  mimeFromExt : String → Option String
  /-- `str::to_lowercase`. -/
  toLowercase : String → String
  /-- Text of an `httpdate::HttpDate` given in seconds since the epoch. -/
  fmtHttpDate : ℕ → String
  /-- Decoding of a date header into an `httpdate::HttpDate`. -/
  parseHttpDate : String → Option ℕ
  /-- `headers::ETag::from_str`, with the tag kept as its text. -/
  parseETag : String → Option String
  /-- A decoded `headers::IfMatch`, given as its `precondition_passes`. -/
  decodeIfMatch : String → Option (String → Bool)
  /-- A decoded `headers::IfNoneMatch`, given as its `precondition_passes`. -/
  decodeIfNoneMatch : String → Option (String → Bool)
  /-- A decoded `headers::IfRange`, given as its `is_modified`. -/
  decodeIfRange : String → Option (Option String → Option ℕ → Bool)

/-- The crates' functions for requests without conditional headers or weights,
ASCII names, paths without a known extension and files of the epoch. -/
def Crates.plain : Crates where
  Weight := ℕ
  parseWeight _ := none
  oneWeight := 1
  weightPos weight := decide (0 < weight)
  totalCmp := compare
  mimeFromExt _ := none
  toLowercase s := String.ofList (s.toList.map Char.toLower)
  fmtHttpDate _ := "Thu, 01 Jan 1970 00:00:00 GMT"
  parseHttpDate _ := none
  parseETag text := some text
  decodeIfMatch _ := none
  decodeIfNoneMatch _ := none
  decodeIfRange _ := none

/-- `httpdate::HttpDate::from(SystemTime)`.  It panics, here `none`, before
the epoch and from the year 10000 on. -/
def httpDateFrom (unix : ℤ) : Option ℕ :=
  if 0 ≤ unix ∧ unix < 253402300800 then some unix.toNat else none

end EnvoyFiles
