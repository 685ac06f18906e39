import EnvoyFiles.Core.RangeGrammar
import EnvoyFiles.Filter.Body

/-!
# Content lengths

The length a plan announces is the number of bytes of the chunks that are built
from its body, and the chunks of a range cover it piece by piece.
-/

namespace EnvoyFiles

open Range

/-- The file ranges of a body, in the order they are sent. -/
def BodyPlan.ranges : BodyPlan → List ByteRange
  | .empty => []
  | .whole len => if len = 0 then [] else [⟨0, len - 1⟩]
  | .segments ranges => ranges
  | .multipart parts _ _ => parts.map MultipartPart.range

/-- The bytes of a multipart body that are not file bytes. -/
def framingLength (ranges : List ByteRange) (contentType : String) (total : ℕ)
    (boundary : String) : ℕ :=
  let (parts, terminator, _) := multipartParts ranges contentType total boundary
  (parts.map fun part => part.header.length).sum + terminator.length

/-- The framing of the multipart body that a request asks for stays below `2 ^ 63`
bytes. -/
def FramingFits (facts : RequestFacts) (fileMeta : FileMeta) : Prop :=
  ∀ rangeHeader ranges, facts.rangeHeader = some rangeHeader →
    planRanges rangeHeader fileMeta.size facts.rangePolicy = .multi ranges →
      framingLength ranges facts.contentType fileMeta.size facts.boundary < 2 ^ 63

theorem multipartLoop_ranges (contentType : String) (total : ℕ) (boundary : String)
    (index contentLength : ℕ) (ranges : List ByteRange) :
    (multipartLoop contentType total boundary index contentLength ranges).1.map
      MultipartPart.range = ranges := by
  induction ranges generalizing index contentLength with
  | nil => rfl
  | cons range ranges ih => rw [multipartLoop, List.map_cons, ih]

/-- Framing and ranges add up to the whole body. -/
theorem multipartParts_total (ranges : List ByteRange) (contentType : String) (total : ℕ)
    (boundary : String) {parts : List MultipartPart} {terminator : Bytes} {contentLength : ℕ}
    (h : multipartParts ranges contentType total boundary =
      (parts, terminator, contentLength)) :
    (BodyPlan.multipart parts terminator contentLength).total =
      framingLength ranges contentType total boundary +
        (ranges.map ByteRange.length).sum := by
  have hranges := multipartLoop_ranges contentType total boundary 0 0 ranges
  cases h
  have hsum : ((multipartLoop contentType total boundary 0 0 ranges).1.map
      fun part => part.range.length) = ranges.map ByteRange.length := by
    conv_rhs => rw [← hranges]
    rw [List.map_map]
    rfl
  rw [framingLength, BodyPlan.total, multipartParts]
  dsimp only
  rw [List.sum_map_add, hsum]
  omega

/-- Below `2 ^ 64` the announced length is the whole of the body. -/
theorem multipartParts_exact {ranges : List ByteRange} {contentType : String} {total : ℕ}
    {boundary : String} {parts : List MultipartPart} {terminator : Bytes} {contentLength : ℕ}
    (h : multipartParts ranges contentType total boundary =
      (parts, terminator, contentLength))
    (hfits : framingLength ranges contentType total boundary +
      (ranges.map ByteRange.length).sum < 2 ^ 64) :
    contentLength = (BodyPlan.multipart parts terminator contentLength).total := by
  have hmod := multipartParts_length h
  rw [multipartParts_total _ _ _ _ h] at hmod ⊢
  rw [Nat.mod_eq_of_lt hfits] at hmod
  exact hmod

theorem within_of_mem_whole {len : ℕ} {range : ByteRange}
    (h : range ∈ (BodyPlan.whole len).ranges) : range.Within len := by
  unfold BodyPlan.ranges at h
  dsimp only at h
  split at h
  · nomatch h
  · rw [List.mem_singleton.mp h]
    rw [ByteRange.Within]
    dsimp only
    omega

namespace Filter

/-! ## Tilings -/

/-- File chunks of at most `chunkSize` bytes, one behind the other from `offset`
to `stop`. -/
def Tiles (chunkSize : ℕ) : List Chunk → ℕ → ℕ → Prop
  | [], offset, stop => offset = stop
  | .inline _ :: _, _, _ => False
  | .file start len :: rest, offset, stop =>
      start = offset ∧ 1 ≤ len ∧ len ≤ chunkSize ∧ Tiles chunkSize rest (offset + len) stop

theorem fileChunksLoop_tiles {chunkSize : ℕ} (hchunk : 1 ≤ chunkSize)
    (fuel offset stop : ℕ) (hle : offset ≤ stop) (hfuel : stop ≤ offset + fuel) :
    Tiles chunkSize (fileChunksLoop chunkSize fuel offset stop) offset stop := by
  induction fuel generalizing offset with
  | zero =>
      rw [fileChunksLoop, Tiles]
      omega
  | succ fuel ih =>
      rw [fileChunksLoop]
      split
      · next hlt =>
          dsimp only
          refine ⟨rfl, by omega, Nat.min_le_right _ _, ?_⟩
          exact ih _ (by omega) (by omega)
      · next hge =>
          rw [Tiles]
          omega

theorem fileChunks_tiles {cfg : Config} (hchunk : 1 ≤ cfg.chunkSize) (start len : ℕ) :
    Tiles cfg.chunkSize (fileChunks cfg start len) start (start + len) :=
  fileChunksLoop_tiles hchunk len start (start + len) (Nat.le_add_right _ _) le_rfl

theorem Tiles.le {chunkSize offset stop : ℕ} {chunks : List Chunk}
    (h : Tiles chunkSize chunks offset stop) : offset ≤ stop := by
  induction chunks generalizing offset with
  | nil => exact le_of_eq h
  | cons first rest ih =>
      cases first with
      | inline bytes => exact h.elim
      | file start len =>
          obtain ⟨-, -, -, hrest⟩ := h
          have := ih hrest
          omega

/-- The chunks of a tiling are file chunks within it. -/
theorem Tiles.mem {chunkSize offset stop : ℕ} {chunks : List Chunk} {chunk : Chunk}
    (h : Tiles chunkSize chunks offset stop) (hmem : chunk ∈ chunks) :
    ∃ start len, chunk = .file start len ∧ offset ≤ start ∧ start + len ≤ stop ∧
      1 ≤ len ∧ len ≤ chunkSize := by
  induction chunks generalizing offset with
  | nil => nomatch hmem
  | cons first rest ih =>
      cases first with
      | inline bytes => exact h.elim
      | file start len =>
          obtain ⟨rfl, hpos, hsize, hrest⟩ := h
          rcases List.mem_cons.mp hmem with rfl | hlater
          · refine ⟨start, len, rfl, le_rfl, ?_, hpos, hsize⟩
            exact hrest.le
          · obtain ⟨start', len', hchunk, hfrom, hto, hbounds⟩ := ih hrest hlater
            exact ⟨start', len', hchunk, by omega, hto, hbounds⟩

/-- One chunk list for each file range of a body, which tiles the range. -/
def piecesOf (cfg : Config) (body : BodyPlan) : List (List Chunk) :=
  body.ranges.map fun range => fileChunks cfg range.start range.length

section Pieces

variable {cfg : Config} (hchunk : 1 ≤ cfg.chunkSize)

include hchunk

theorem filter_fileChunks (start len : ℕ) :
    (fileChunks cfg start len).filter Chunk.isFile = fileChunks cfg start len := by
  rw [List.filter_eq_self]
  intro chunk hmem
  obtain ⟨start', len', rfl, -⟩ := (fileChunks_tiles hchunk start len).mem hmem
  rfl

theorem piecesOf_tiles (body : BodyPlan) :
    List.Forall₂ (fun range chunks =>
      Tiles cfg.chunkSize chunks range.start (range.start + range.length))
      body.ranges (piecesOf cfg body) := by
  rw [piecesOf]
  rw [List.forall₂_map_right_iff, List.forall₂_same]
  intro range _
  exact fileChunks_tiles hchunk range.start range.length

/-- The file chunks of a body are those of its ranges, in order. -/
theorem bodyChunks_pieces (body : BodyPlan) :
    (bodyChunks cfg body).filter Chunk.isFile = (piecesOf cfg body).flatten := by
  cases body with
  | empty => rfl
  | whole len =>
      unfold bodyChunks piecesOf BodyPlan.ranges
      dsimp only
      rw [filter_fileChunks hchunk]
      by_cases hzero : len = 0
      · rw [if_pos hzero, hzero]
        rfl
      · have hlen : (ByteRange.mk 0 (len - 1)).length = len := by
          rw [ByteRange.length]
          dsimp only
          omega
        rw [if_neg hzero, List.map_singleton, List.flatten_singleton, hlen]
  | segments ranges =>
      unfold bodyChunks piecesOf BodyPlan.ranges
      dsimp only
      rw [List.filter_flatMap, List.flatMap_def]
      simp only [filter_fileChunks hchunk]
  | multipart parts terminator contentLength =>
      have hpart (part : MultipartPart) :
          (Chunk.inline part.header ::
              fileChunks cfg part.range.start part.range.length).filter Chunk.isFile =
            fileChunks cfg part.range.start part.range.length := by
        rw [List.filter_cons_of_neg (by simp [Chunk.isFile]), filter_fileChunks hchunk]
      unfold bodyChunks piecesOf BodyPlan.ranges
      dsimp only
      rw [List.filter_append, List.filter_flatMap, List.flatMap_def, List.map_map]
      simp only [hpart]
      exact List.append_nil _

end Pieces

/-! ## Plans -/

section Plans

variable {crates : Crates} {cfg : Config} {facts : RequestFacts} {fileMeta : FileMeta}
  {plan : ResponsePlan} {text : String}

/-- A `GET` plan that carries a length announces that of its body, whose ranges
lie in the file. -/
theorem get_length (hsize : fileMeta.size < 2 ^ 63) (hframing : FramingFits facts fileMeta)
    (hplan : planResponse crates (facts.withMethod false) fileMeta = some plan)
    (hlength : ("content-length", text) ∈ plan.headers) :
    text = toString plan.body.total ∧ ∀ range ∈ plan.body.ranges, range.Within fileMeta.size := by
  cases planResponse_cases hplan with
  | bare _ hnone => exact absurd rfl (hnone _ hlength)
  | full hfull =>
      obtain ⟨hbody, hends⟩ := planFull_body hfull
      have hwhole : plan.body = .whole fileMeta.size := hbody
      rw [hwhole, hends.unique hlength]
      exact ⟨rfl, fun range hrange => within_of_mem_whole hrange⟩
  | single hheader hranges hsingle =>
      obtain ⟨hbody, hends⟩ := planSingle_body hsingle
      have hsegments : plan.body = .segments [_] := hbody
      rw [hsegments, hends.unique hlength]
      refine ⟨by simp [BodyPlan.total], ?_⟩
      intro range hrange
      rw [List.mem_singleton.mp hrange]
      exact planRanges_single hranges
  | @multi rangeHeader ranges hheader hranges hmulti =>
      have hmultipart := planMulti_body hmulti
      obtain ⟨-, hwithin, hascending⟩ := planRanges_multi hranges
      have hsum := hascending.sum_length_le hwithin (fun _ _ => Nat.zero_le _)
        (Nat.zero_le fileMeta.size)
      have hfits : framingLength ranges (facts.withMethod false).contentType fileMeta.size
          (facts.withMethod false).boundary < 2 ^ 63 :=
        hframing rangeHeader ranges hheader hranges
      cases hparts : multipartParts ranges (facts.withMethod false).contentType fileMeta.size
        (facts.withMethod false).boundary with
      | mk parts framed =>
          obtain ⟨terminator, contentLength⟩ := framed
          rw [hparts] at hmultipart
          obtain ⟨hbody, hends⟩ := hmultipart
          have hbody : plan.body = .multipart parts terminator contentLength := hbody
          have hexact := multipartParts_exact hparts (by omega)
          have hparted := multipartLoop_ranges (facts.withMethod false).contentType
            fileMeta.size (facts.withMethod false).boundary 0 0 ranges
          cases hparts
          rw [hbody, hends.unique hlength]
          refine ⟨congrArg toString hexact, ?_⟩
          intro range hrange
          apply hwithin range
          rw [← hparted]
          exact hrange

/-- `HEAD` is answered like `GET` without the body, and the length that a `GET`
plan carries is the number of bytes of the chunks that are built from its body,
whose file chunks cover the planned ranges piece by piece. -/
theorem content_length_is_true_and_head_mirrors_get (crates : Crates) (cfg : Config)
    (facts : RequestFacts) (fileMeta : FileMeta) (hchunk : 1 ≤ cfg.chunkSize)
    (hsize : fileMeta.size < 2 ^ 63) (hframing : FramingFits facts fileMeta) :
    planResponse crates (facts.withMethod true) fileMeta =
        (planResponse crates (facts.withMethod false) fileMeta).map
          ResponsePlan.withoutBody ∧
      ∀ plan text, planResponse crates (facts.withMethod false) fileMeta = some plan →
        ("content-length", text) ∈ plan.headers →
          text = toString ((bodyChunks cfg plan.body).map Chunk.length).sum ∧
          (∀ offset len, Chunk.file offset len ∈ bodyChunks cfg plan.body →
            1 ≤ len ∧ len ≤ cfg.chunkSize ∧ offset + len ≤ fileMeta.size) ∧
          ∃ pieces, List.Forall₂ (fun range chunks =>
              Tiles cfg.chunkSize chunks range.start (range.start + range.length))
              plan.body.ranges pieces ∧
            (bodyChunks cfg plan.body).filter Chunk.isFile = pieces.flatten := by
  refine ⟨planResponse_head, ?_⟩
  intro plan text hplan hlength
  obtain ⟨htext, hwithin⟩ := get_length hsize hframing hplan hlength
  refine ⟨?_, ?_, piecesOf cfg plan.body, piecesOf_tiles hchunk plan.body,
    bodyChunks_pieces hchunk plan.body⟩
  · rw [htext, bodyChunks_length hchunk]
  · intro offset len hmem
    have hpiece : Chunk.file offset len ∈ (bodyChunks cfg plan.body).filter Chunk.isFile :=
      List.mem_filter.mpr ⟨hmem, rfl⟩
    rw [bodyChunks_pieces hchunk, List.mem_flatten] at hpiece
    obtain ⟨chunks, hchunks, hchunkMem⟩ := hpiece
    obtain ⟨range, hrange, rfl⟩ := List.mem_map.mp hchunks
    obtain ⟨start, len', hsame, -, hstop, hpos, hle⟩ :=
      (fileChunks_tiles hchunk range.start range.length).mem hchunkMem
    cases hsame
    have hin := hwithin range hrange
    rw [ByteRange.Within] at hin
    rw [ByteRange.length] at hstop
    exact ⟨hpos, hle, by omega⟩

/-- A request for two ranges. -/
def rangedFacts : RequestFacts where
  methodHead := false
  conditionals := ⟨none, none, none, none, none⟩
  rangeHeader := some "bytes=0-1,4-4"
  contentType := "text/plain"
  etagEnabled := false
  lastModifiedEnabled := false
  rangePolicy := ⟨true, 50⟩
  boundary := "envoyfilesboundary"
  contentEncoding := none
  addVary := false
  cacheControl := none

/-- The multipart body of the two ranges, in chunks of one byte. -/
theorem content_length_is_true_and_head_mirrors_get_ranged :
    ∃ plan, planResponse Crates.plain (rangedFacts.withMethod false) ⟨6, 0, 0, false⟩ =
        some plan ∧
      ("content-length", "187") ∈ plan.headers ∧
      "187" = toString ((bodyChunks { Config.defaults ⟨"/srv"⟩ with chunkSize := 1 }
        plan.body).map Chunk.length).sum := by
  have hranges : planRanges "bytes=0-1,4-4" 6 ⟨true, 50⟩ = .multi [⟨0, 1⟩, ⟨4, 4⟩] := by
    decide
  have hframing : FramingFits rangedFacts ⟨6, 0, 0, false⟩ := by
    intro rangeHeader ranges hheader hmulti
    cases hheader
    have hsame : RangeOutcome.multi [⟨0, 1⟩, ⟨4, 4⟩] = .multi ranges := hranges.symm.trans hmulti
    cases hsame
    decide
  have hplan : (planResponse Crates.plain (rangedFacts.withMethod false)
      ⟨6, 0, 0, false⟩).map (fun plan => plan.headers.contains ("content-length", "187")) =
        some true := by decide
  obtain ⟨plan, hplan, hlength⟩ := Option.map_eq_some_iff.mp hplan
  have hmem : ("content-length", "187") ∈ plan.headers := List.contains_iff_mem.mp hlength
  refine ⟨plan, hplan, hmem, ?_⟩
  exact ((content_length_is_true_and_head_mirrors_get Crates.plain
    { Config.defaults ⟨"/srv"⟩ with chunkSize := 1 } rangedFacts ⟨6, 0, 0, false⟩
    (by decide) (by decide) hframing).2 plan "187" hplan hmem).1

end Plans

end Filter

end EnvoyFiles
