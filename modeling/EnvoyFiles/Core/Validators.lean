import EnvoyFiles.Core.Crates
import EnvoyFiles.Support.Text

/-!
# Validators and conditional requests

The model of `envoy-files-core/src/validators.rs`.  Converting a time outside
the range of HTTP dates panics in the source; a function that may do so
returns `none` there.
-/

namespace EnvoyFiles.Conditional

open Text

/-- The validators computed for a served resource. -/
structure Validators where
  etag : String
  lastModifiedUnix : ℤ

/-- The strong ETag of a size and a modification time. -/
def makeEtag (size : ℕ) (mtimeUnix : ℤ) (mtimeNanos : ℕ) : String :=
  "\"" ++ hex size ++ "-" ++ hex (asU64 mtimeUnix) ++ "." ++ hex mtimeNanos ++ "\""

/-- Formats a Unix timestamp as an HTTP date. -/
def formatHttpDate (crates : Crates) (unix : ℤ) : Option String :=
  (httpDateFrom unix).map crates.fmtHttpDate

/-- Conditional-request headers, as raw values. -/
structure ConditionalHeaders where
  ifNoneMatch : Option String
  ifModifiedSince : Option String
  ifMatch : Option String
  ifUnmodifiedSince : Option String
  ifRange : Option String
  deriving DecidableEq

/-- Result of evaluating the conditional headers. -/
inductive Condition where
  | proceed
  | notModified
  | preconditionFailed
  deriving DecidableEq, Repr

/-- The resource's ETag as a typed value. -/
def resourceEtag (crates : Crates) (v : Validators) : Option String :=
  crates.parseETag v.etag

/-- The `If-Match`, else `If-Unmodified-Since` test: whether the precondition
fails. -/
def preconditionFails (crates : Crates)
    (headers : ConditionalHeaders) (v : Validators) : Option Bool :=
  match headers.ifMatch with
  | some raw =>
      match crates.decodeIfMatch raw, resourceEtag crates v with
      | some preconditionPasses, some tag => some (!preconditionPasses tag)
      | _, _ => some false
  | none =>
      match headers.ifUnmodifiedSince.bind crates.parseHttpDate with
      | none => some false
      | some date => (httpDateFrom v.lastModifiedUnix).map fun t => date < t

/-- The `If-None-Match`, else `If-Modified-Since` test: whether the client's
copy is current. -/
def isNotModified (crates : Crates)
    (headers : ConditionalHeaders) (v : Validators) : Option Bool :=
  match headers.ifNoneMatch with
  | some raw =>
      match crates.decodeIfNoneMatch raw, resourceEtag crates v with
      | some preconditionPasses, some tag => some (!preconditionPasses tag)
      | _, _ => some false
  | none =>
      match headers.ifModifiedSince.bind crates.parseHttpDate with
      | none => some false
      | some date => (httpDateFrom v.lastModifiedUnix).map fun t => !(date < t)

/-- Evaluates the conditional headers in precedence order. -/
def evaluateConditionals (crates : Crates)
    (headers : ConditionalHeaders) (v : Validators) : Option Condition := do
  if ← preconditionFails crates headers v then
    return .preconditionFailed
  else if ← isNotModified crates headers v then
    return .notModified
  else
    return .proceed

/-- Whether an `If-Range` value permits serving a range. -/
def ifRangeMatches (crates : Crates) (ifRange : String) (v : Validators) :
    Option Bool :=
  match crates.decodeIfRange ifRange with
  | none => some false
  | some isModified =>
      (httpDateFrom v.lastModifiedUnix).map fun lastModified =>
        !isModified (resourceEtag crates v) (some lastModified)

end EnvoyFiles.Conditional
