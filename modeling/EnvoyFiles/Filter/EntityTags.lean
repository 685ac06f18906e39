import EnvoyFiles.Core.Revalidation
import EnvoyFiles.Filter.Moves
import EnvoyFiles.Io.Engine

/-!
# Entity tags of files and of their encodings

An entity tag is written from the size and the modification time that the engine reports, and
from nothing else.  It tells any two sizes and any two times after 1970 apart.  The engine
reports every earlier time as 1970, though, and a file and its precompressed variants have one
tag where they agree in size and time.
-/

namespace EnvoyFiles

open Text Range Conditional Engine

/-! ## Changes of a file -/

section Times

variable {s t : ℤ}

theorem mtimeParts_ok (s : ℤ) :
    mtimeParts (.ok s) = (max s 0 / 1000000000, (max s 0 % 1000000000).toNat) := by
  rw [mtimeParts]
  split
  · next hlate => rw [Int.max_eq_left hlate]
  · next hearly =>
      rw [Int.max_eq_right (Int.le_of_lt (Int.not_le.mp hearly))]
      rfl

/-- The engine reports a time after 1970 as it is, and any other as 1970. -/
theorem mtimeParts_ok_inj : mtimeParts (.ok s) = mtimeParts (.ok t) ↔ s = t ∨ s ≤ 0 ∧ t ≤ 0 := by
  rw [mtimeParts_ok, mtimeParts_ok, Prod.mk.injEq]
  omega

/-- Seconds that fit in an `i64` are reported as an `i64`. -/
theorem mtimeParts_ok_range (hs : s / 1000000000 < 2 ^ 63) :
    -2 ^ 63 ≤ (mtimeParts (.ok s)).1 ∧ (mtimeParts (.ok s)).1 < 2 ^ 63 := by
  rw [mtimeParts_ok]
  dsimp only
  omega

end Times

/-- The entity tag of a file with these metadata. -/
def Metadata.etag (metadata : Metadata) : String :=
  (validatorsOf (Filter.fileMeta (statFromMetadata metadata))).etag

/-- Two states of a file have one tag if their sizes and the reported times agree. -/
theorem Metadata.etag_eq_iff {a b : Metadata} {s t : ℤ} (ha : a.modified = .ok s)
    (hb : b.modified = .ok t) (hs : s / 1000000000 < 2 ^ 63) (ht : t / 1000000000 < 2 ^ 63) :
    a.etag = b.etag ↔ a.len = b.len ∧ mtimeParts (.ok s) = mtimeParts (.ok t) := by
  rw [Metadata.etag, Metadata.etag, makeEtag_eq_quoted, makeEtag_eq_quoted, quoted_inj,
    FileMeta.tag_eq_iff]
  simp only [Filter.fileMeta, statFromMetadata]
  rw [ha, hb, asU64_inj (mtimeParts_ok_range hs) (mtimeParts_ok_range ht), Prod.ext_iff]

/-- A change of a file's size or modification time changes its tag, unless the size stays as it
was and no time after 1970 is involved. -/
theorem etag_changes_iff {a b : Metadata} {s t : ℤ} (ha : a.modified = .ok s)
    (hb : b.modified = .ok t) (hs : s / 1000000000 < 2 ^ 63) (ht : t / 1000000000 < 2 ^ 63) :
    (a.len ≠ b.len ∨ s ≠ t → a.etag ≠ b.etag) ↔ a.len ≠ b.len ∨ s = t ∨ 0 < s ∨ 0 < t := by
  have hsame : a.etag ≠ b.etag ↔ ¬(a.len = b.len ∧ (s = t ∨ s ≤ 0 ∧ t ≤ 0)) := by
    rw [← mtimeParts_ok_inj, ← Metadata.etag_eq_iff ha hb hs ht]
  rw [hsame]
  by_cases hsize : a.len = b.len
  · by_cases htime : s = t
    · exact iff_of_true (fun hchange => by omega) (by omega)
    · constructor
      · intro hchanges
        have hdistinct := hchanges (Or.inr htime)
        omega
      · intro hlate hchange
        omega
  · exact iff_of_true (fun _ hsame => hsize hsame.1) (Or.inl hsize)

/-- A second of difference in 1970 shows. -/
theorem etag_changes_iff_second :
    (5 ≠ 5 ∨ (1000000000 : ℤ) ≠ 2000000000 →
      Metadata.etag ⟨false, 5, .ok 1000000000⟩ ≠ Metadata.etag ⟨false, 5, .ok 2000000000⟩) ↔
      (5 ≠ 5 ∨ (1000000000 : ℤ) = 2000000000 ∨ (0 : ℤ) < 1000000000 ∨ (0 : ℤ) < 2000000000) :=
  @etag_changes_iff ⟨false, 5, .ok 1000000000⟩ ⟨false, 5, .ok 2000000000⟩ _ _ rfl rfl
    (by decide) (by decide)

/-- The last second of 1969 and the first of 1970 do not differ. -/
theorem early_change_hidden :
    ¬∀ (a b : Metadata) (s t : ℤ), a.modified = .ok s → b.modified = .ok t →
      -2 ^ 63 ≤ s / 1000000000 ∧ s / 1000000000 < 2 ^ 63 →
      -2 ^ 63 ≤ t / 1000000000 ∧ t / 1000000000 < 2 ^ 63 →
      a.len ≠ b.len ∨ s ≠ t → a.etag ≠ b.etag := by
  intro hchanges
  let a : Metadata := ⟨false, 5, .ok (-1000000000)⟩
  let b : Metadata := ⟨false, 5, .ok 0⟩
  have hsame : a.etag = b.etag := by
    rw [@Metadata.etag_eq_iff a b (-1000000000) 0 rfl rfl (by decide) (by decide)]
    exact ⟨rfl, rfl⟩
  exact hchanges a b _ _ rfl rfl (by decide) (by decide) (Or.inr (by decide)) hsame

/-! ## Encodings of a file -/

namespace Filter

/-- A response for the path has this tag: its plan was made for a candidate with the encoding
and for a file with the metadata. -/
inductive Tagged (crates : Crates) (cfg : Config) (relative : String)
    (encoding : Option String) (stat : FileStat) (etag : String) : Prop where
  | plan {acceptEncoding : Option String} {request : RequestData} {candidate : Candidate}
      {plan : ResponsePlan} :
      request.relative = relative →
      candidate ∈ buildFileCandidates crates cfg relative request.trailingSlash acceptEncoding →
      candidate.encoding = encoding →
      planResponse crates (requestFacts cfg request stat candidate.openCtx) (fileMeta stat) =
        some plan →
      ("etag", etag) ∈ plan.headers → Tagged crates cfg relative encoding stat etag

/-- The tag, sent back in `If-Match` or `If-Range`, does not hold for a file with these
metadata. -/
structure Refused (crates : Crates) (etag : String) (stat : FileStat) : Prop where
  ifMatch : preconditionFails crates { noConditionals with ifMatch := some etag }
    (validatorsOf (fileMeta stat)) = some true
  ifRange : (fileMeta stat).InDateRange →
    ifRangeMatches crates etag (validatorsOf (fileMeta stat)) = some false

section Encodings

variable {crates : Crates} {cfg : Config} {relative etag etag' : String}
  {encoding encoding' : Option String} {stat stat' : FileStat}

theorem Tagged.etag_eq (h : Tagged crates cfg relative encoding stat etag) :
    etag = quoted (fileMeta stat).tag := by
  cases h with
  | plan hrelative hcandidate hencoding hplan hetag =>
      rcases planResponse_validators hplan _ _ hetag (Or.inl rfl) with ⟨-, htext⟩ | ⟨hname, -⟩
      · rw [htext, makeEtag_eq_quoted]
      · exact absurd hname (by decide)

theorem sameVersion_iff (hstat : -2 ^ 63 ≤ stat.mtimeUnix ∧ stat.mtimeUnix < 2 ^ 63)
    (hstat' : -2 ^ 63 ≤ stat'.mtimeUnix ∧ stat'.mtimeUnix < 2 ^ 63) :
    (fileMeta stat).tag = (fileMeta stat').tag ↔
      SameVersion (fileMeta stat) (fileMeta stat') := by
  have hbits : asU64 (fileMeta stat).mtimeUnix = asU64 (fileMeta stat').mtimeUnix ↔
      (fileMeta stat).mtimeUnix = (fileMeta stat').mtimeUnix := asU64_inj hstat hstat'
  rw [FileMeta.tag_eq_iff, hbits, SameVersion]

theorem refused_iff (hreads : ReadsValidators crates)
    (h : Tagged crates cfg relative encoding stat etag) :
    Refused crates etag stat' ↔ (fileMeta stat).tag ≠ (fileMeta stat').tag := by
  rw [h.etag_eq]
  have hmatch := @preconditionFails_ifMatch crates hreads (fileMeta stat) (fileMeta stat')
  constructor
  · intro hrefused hsame
    rw [hrefused.ifMatch] at hmatch
    simp [hsame] at hmatch
  · intro hdiffer
    constructor
    · rw [hmatch]
      simp [hdiffer.symm]
    · intro hrange
      rw [ifRangeMatches_tag hreads hrange]
      simp [hdiffer.symm]

/-- Two encodings of a file have different tags, which are refused for each other, exactly
if the files they are stored in differ in size or in modification time. -/
theorem encodings_tagged_apart_iff
    (hstat : -2 ^ 63 ≤ stat.mtimeUnix ∧ stat.mtimeUnix < 2 ^ 63)
    (hstat' : -2 ^ 63 ≤ stat'.mtimeUnix ∧ stat'.mtimeUnix < 2 ^ 63)
    (h : Tagged crates cfg relative encoding stat etag)
    (h' : Tagged crates cfg relative encoding' stat' etag') :
    ((encoding ≠ encoding' → etag ≠ etag') ↔
      encoding = encoding' ∨ ¬SameVersion (fileMeta stat) (fileMeta stat')) ∧
    (ReadsValidators crates →
      ((encoding ≠ encoding' → Refused crates etag stat') ↔
        encoding = encoding' ∨ ¬SameVersion (fileMeta stat) (fileMeta stat'))) := by
  have hor (P : Prop) : (encoding ≠ encoding' → P) ↔ encoding = encoding' ∨ P := by
    by_cases hencoding : encoding = encoding'
    · exact iff_of_true (absurd hencoding) (Or.inl hencoding)
    · rw [or_iff_right hencoding]
      exact ⟨fun hP => hP hencoding, fun hP _ => hP⟩
  rw [← sameVersion_iff hstat hstat', hor, hor]
  refine ⟨?_, fun hreads => ?_⟩
  · rw [h.etag_eq, h'.etag_eq, Ne, quoted_inj]
  · rw [refused_iff hreads h]

end Encodings

/-! ### Witness and counterexample -/

/-- A plain request for `/a`. -/
def plainRequest : RequestData where
  methodHead := false
  ifNoneMatch := none
  ifModifiedSince := none
  ifMatch := none
  ifUnmodifiedSince := none
  ifRange := none
  rangeHeader := none
  relative := "a"
  trailingSlash := false

/-- The candidates of `/a` for a client that takes `gzip`. -/
def gzipCandidates : List Candidate :=
  [⟨⟨"/srv/a.gz"⟩, some "gzip", "application/octet-stream", true⟩,
    ⟨⟨"/srv/a"⟩, none, "application/octet-stream", true⟩]

theorem tagged_of_planned {candidate : Candidate} {stat : FileStat} {etag : String}
    (hcandidate : candidate ∈ gzipCandidates)
    (hplan : (planResponse Crates.epoch
      (requestFacts (Config.defaults ⟨"/srv"⟩) plainRequest stat candidate.openCtx)
      (fileMeta stat)).any (fun plan => plan.headers.contains ("etag", etag)) = true) :
    Tagged Crates.epoch (Config.defaults ⟨"/srv"⟩) "a" candidate.encoding stat etag := by
  have hcandidates : buildFileCandidates Crates.epoch (Config.defaults ⟨"/srv"⟩) "a" false
      (some "gzip") = gzipCandidates := by
    decide +kernel
  obtain ⟨plan, hplanned, hetag⟩ := (Option.any_eq_true _ _).mp hplan
  exact .plan rfl (hcandidates ▸ hcandidate) rfl hplanned (List.contains_iff_mem.mp hetag)

/-- A variant that is a byte shorter than its file has a tag of its own. -/
theorem encodings_tagged_apart_iff_shorter :
    ((some "gzip" ≠ none → "\"2-0.0\"" ≠ "\"3-0.0\"") ↔
      some "gzip" = none ∨
        ¬SameVersion (fileMeta ⟨2, 0, 0, false⟩) (fileMeta ⟨3, 0, 0, false⟩)) ∧
    (ReadsValidators Crates.epoch →
      ((some "gzip" ≠ none → Refused Crates.epoch "\"2-0.0\"" ⟨3, 0, 0, false⟩) ↔
        some "gzip" = none ∨
          ¬SameVersion (fileMeta ⟨2, 0, 0, false⟩) (fileMeta ⟨3, 0, 0, false⟩))) := by
  have hvariant : Tagged Crates.epoch (Config.defaults ⟨"/srv"⟩) "a" (some "gzip")
      ⟨2, 0, 0, false⟩ "\"2-0.0\"" :=
    @tagged_of_planned ⟨⟨"/srv/a.gz"⟩, some "gzip", _, _⟩ _ _ List.mem_cons_self
      (by decide)
  have hidentity : Tagged Crates.epoch (Config.defaults ⟨"/srv"⟩) "a" none
      ⟨3, 0, 0, false⟩ "\"3-0.0\"" :=
    @tagged_of_planned ⟨⟨"/srv/a"⟩, none, _, _⟩ _ _ (List.mem_cons_of_mem _ List.mem_cons_self)
      (by decide)
  exact encodings_tagged_apart_iff (by decide) (by decide) hvariant hidentity

/-- A file and its variant, written at one time and of one size, share their tag. -/
theorem encodings_share_tag :
    ¬∀ (crates : Crates) (cfg : Config) (relative : String) (encoding encoding' : Option String)
        (stat stat' : FileStat) (etag etag' : String),
      Tagged crates cfg relative encoding stat etag →
      Tagged crates cfg relative encoding' stat' etag' →
      encoding ≠ encoding' → etag ≠ etag' := by
  intro hapart
  have hvariant : Tagged Crates.epoch (Config.defaults ⟨"/srv"⟩) "a" (some "gzip")
      ⟨30, 0, 0, false⟩ "\"1e-0.0\"" :=
    @tagged_of_planned ⟨⟨"/srv/a.gz"⟩, some "gzip", _, _⟩ _ _ List.mem_cons_self
      (by decide)
  have hidentity : Tagged Crates.epoch (Config.defaults ⟨"/srv"⟩) "a" none
      ⟨30, 0, 0, false⟩ "\"1e-0.0\"" :=
    @tagged_of_planned ⟨⟨"/srv/a"⟩, none, _, _⟩ _ _ (List.mem_cons_of_mem _ List.mem_cons_self)
      (by decide)
  exact hapart _ _ _ _ _ _ _ _ _ hvariant hidentity (by decide) rfl

end Filter

end EnvoyFiles
