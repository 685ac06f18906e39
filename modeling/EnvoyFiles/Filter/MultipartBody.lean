import EnvoyFiles.Core.HeaderText
import EnvoyFiles.Filter.Lengths
import EnvoyFiles.Support.Multipart

/-!
# Reading a multipart body back

The bytes that `multipart_parts` frames are a multipart message: a reader of such
messages finds one part for every range, with the range's bytes as its content,
and the announced length is the length of the message.
-/

namespace EnvoyFiles.Filter

open Range Text Multipart

/-- The part that a range of a file is read as. -/
def rangePart (content : Bytes) (contentType : String) (range : ByteRange) : Part where
  fields := [(asBytes "Content-Type", asBytes contentType),
    (asBytes "Content-Range",
      asBytes s!"bytes {range.start}-{range.stop}/{content.length}")]
  content := fileSlice content range.start range.length

/-- `u64` addition that fails instead of overflowing. -/
def checkedAdd (a b : ℕ) : Option ℕ :=
  if a + b < 2 ^ 64 then some (a + b) else none

/-- `u64` subtraction that fails instead of underflowing. -/
def checkedSub (a b : ℕ) : Option ℕ :=
  if b ≤ a then some (a - b) else none

/-- The running `content_length` of the part loop, every operation checked. -/
def checkedLoop (contentType : String) (total : ℕ) (boundary : String) :
    ℕ → ℕ → List ByteRange → Option ℕ
  | _, contentLength, [] => some contentLength
  | index, contentLength, range :: rest => do
      let afterHeader ← checkedAdd contentLength
        (partHeader index range contentType total boundary).length
      let span ← checkedSub range.stop range.start
      let length ← checkedAdd span 1
      let afterBody ← checkedAdd afterHeader length
      checkedLoop contentType total boundary (index + 1) afterBody rest

/-- The content length of `multipart_parts`, every operation checked. -/
def checkedContentLength (ranges : List ByteRange) (contentType : String) (total : ℕ)
    (boundary : String) : Option ℕ := do
  let contentLength ← checkedLoop contentType total boundary 0 0 ranges
  checkedAdd contentLength (asBytes ("\r\n--" ++ boundary ++ "--\r\n")).length

/-! ## Lines of the framing -/

section Framing

variable {contentType boundary : String} (hcontentType : '\r' ∉ contentType.toList)
  (hboundary : '\r' ∉ boundary.toList)

theorem cr_not_mem_asBytes {s : String} (h : '\r' ∉ s.toList) : 13 ∉ asBytes s := by
  intro hmem
  obtain ⟨c, hc, hval⟩ := (mem_asBytes (by decide)).mp hmem
  have hcr : c = '\r' := Char.toNat_inj.mp hval
  exact h (hcr ▸ hc)

/-- The header lines of a part, without the delimiter in front of them. -/
def headerLines (contentType : String) (total : ℕ) (range : ByteRange) : List Bytes :=
  [asBytes "Content-Type: " ++ asBytes contentType,
    asBytes "Content-Range: " ++ asBytes (contentRange range total)]

theorem asBytes_contentType :
    asBytes "Content-Type: " = asBytes "Content-Type" ++ [58, 32] := by decide

theorem asBytes_contentRange :
    asBytes "Content-Range: " = asBytes "Content-Range" ++ [58, 32] := by decide

theorem asBytes_crlf : asBytes "\r\n" = crlf := by decide

theorem asBytes_dashes : asBytes "--" = [45, 45] := by decide

/-- A later part's header is a CRLF and the header it would have as the first. -/
theorem partHeader_succ (index : ℕ) (range : ByteRange) (total : ℕ) :
    partHeader (index + 1) range contentType total boundary =
      crlf ++ partHeader 0 range contentType total boundary := by
  simp only [partHeader]
  rw [if_pos (Nat.succ_pos index), if_neg (Nat.lt_irrefl 0), List.nil_append, asBytes_crlf]
  simp only [List.append_assoc]

include hcontentType hboundary

/-- The lines of a part. -/
theorem lines_partHeader (range : ByteRange) (total : ℕ) (bytes : Bytes) :
    lines (partHeader 0 range contentType total boundary ++ bytes) =
      dashBoundary (asBytes boundary) ::
        (headerLines contentType total range ++ [] :: lines bytes) := by
  have htext : partHeader 0 range contentType total boundary ++ bytes =
      dashBoundary (asBytes boundary) ++ crlf ++
        ((asBytes "Content-Type: " ++ asBytes contentType) ++ crlf ++
          ((asBytes "Content-Range: " ++ asBytes (contentRange range total)) ++ crlf ++
            (crlf ++ bytes))) := by
    have hend : asBytes "\r\n\r\n" = crlf ++ crlf := by decide
    rw [partHeader, dashBoundary]
    rw [if_neg (Nat.lt_irrefl 0), asBytes_append, asBytes_append, asBytes_crlf, asBytes_dashes,
      hend]
    simp only [List.append_assoc, List.nil_append, List.cons_append]
  have hdelimiter : 13 ∉ dashBoundary (asBytes boundary) := by
    have := cr_not_mem_asBytes hboundary
    simpa [dashBoundary] using this
  have htype : 13 ∉ asBytes "Content-Type: " ++ asBytes contentType := by
    rw [List.mem_append, not_or]
    exact ⟨by decide, cr_not_mem_asBytes hcontentType⟩
  have hrange : 13 ∉ asBytes "Content-Range: " ++ asBytes (contentRange range total) := by
    rw [List.mem_append, not_or]
    exact ⟨by decide, (printable_contentRange range total).not_mem_asBytes (by decide)⟩
  rw [htext, lines_append, lines_append, lines_append, lines_crlf_append,
    lines_of_not_mem hdelimiter, lines_of_not_mem htype, lines_of_not_mem hrange]
  rfl

/-- The lines of several parts and of what follows them. -/
theorem lines_laterParts (content front behind : Bytes) (total index : ℕ)
    (contentLength : ℕ) (ranges : List ByteRange) :
    lines (front ++ (multipartLoop contentType total boundary (index + 1) contentLength
        ranges).1.flatMap (fun part =>
          part.header ++ fileSlice content part.range.start part.range.length) ++
        crlf ++ behind) =
      lines front ++ ranges.flatMap (fun range => dashBoundary (asBytes boundary) ::
        (headerLines contentType total range ++
          [] :: lines (fileSlice content range.start range.length))) ++ lines behind := by
  induction ranges generalizing front index contentLength with
  | nil =>
      rw [multipartLoop, List.flatMap_nil, List.flatMap_nil, List.append_nil, List.append_nil,
        lines_append]
  | cons range ranges ih =>
      rw [multipartLoop]
      dsimp only
      rw [List.flatMap_cons, List.flatMap_cons, partHeader_succ]
      have hfront := ih (front ++ crlf ++ (partHeader 0 range contentType total boundary ++
        fileSlice content range.start range.length)) (index + 1)
        (((contentLength + (crlf ++ partHeader 0 range contentType total boundary).length) %
          2 ^ 64 + range.length) % 2 ^ 64)
      rw [lines_append front, lines_partHeader hcontentType hboundary] at hfront
      simp only [List.append_assoc, List.cons_append] at hfront ⊢
      exact hfront

/-- The lines of a whole body. -/
theorem lines_multipart {content : Bytes} {total : ℕ} {first : ByteRange}
    {ranges : List ByteRange} {parts : List MultipartPart} {terminator : Bytes}
    {contentLength : ℕ}
    (hparts : multipartParts (first :: ranges) contentType total boundary =
      (parts, terminator, contentLength)) :
    lines (plannedBody content (.multipart parts terminator contentLength)) =
      (first :: ranges).flatMap (fun range => dashBoundary (asBytes boundary) ::
        (headerLines contentType total range ++
          [] :: lines (fileSlice content range.start range.length))) ++
        (dashBoundary (asBytes boundary) ++ [45, 45]) :: [[]] := by
  have hclose : 13 ∉ dashBoundary (asBytes boundary) ++ [45, 45] := by
    have := cr_not_mem_asBytes hboundary
    simpa [dashBoundary] using this
  have hbehind : lines (dashBoundary (asBytes boundary) ++ [45, 45] ++ crlf ++ []) =
      (dashBoundary (asBytes boundary) ++ [45, 45]) :: [[]] := by
    rw [lines_append, lines_of_not_mem hclose]
    rfl
  have hlater := lines_laterParts hcontentType hboundary content
    (partHeader 0 first contentType total boundary ++
      fileSlice content first.start first.length)
    (dashBoundary (asBytes boundary) ++ [45, 45] ++ crlf ++ []) total 0
    (((0 + (partHeader 0 first contentType total boundary).length) % 2 ^ 64 +
      first.length) % 2 ^ 64) ranges
  rw [lines_partHeader hcontentType hboundary, hbehind] at hlater
  rw [List.flatMap_cons, ← hlater]
  have hmade : parts = ⟨first, partHeader 0 first contentType total boundary⟩ ::
      (multipartLoop contentType total boundary 1
        (((0 + (partHeader 0 first contentType total boundary).length) % 2 ^ 64 +
          first.length) % 2 ^ 64) ranges).1 := by
    cases hparts
    rfl
  have hterminator : terminator = crlf ++ (dashBoundary (asBytes boundary) ++ [45, 45] ++
      crlf ++ []) := by
    have hstart : asBytes "\r\n--" = crlf ++ [45, 45] := by decide
    have hend : asBytes "--\r\n" = [45, 45] ++ crlf := by decide
    cases hparts
    rw [asBytes_append, asBytes_append, hstart, hend, dashBoundary]
    simp only [List.append_assoc, List.cons_append, List.nil_append, List.append_nil]
  rw [plannedBody, hmade, hterminator, List.flatMap_cons]
  simp only [List.append_assoc]

end Framing

/-! ## Parts -/

section Parts

variable {contentType boundary : String}

/-- A header line starts with the `C` of its name. -/
theorem headerLines_cons {total : ℕ} {range : ByteRange} {line : Bytes}
    (h : line ∈ headerLines contentType total range) : ∃ rest, line = 67 :: rest := by
  have htype : asBytes "Content-Type: " = 67 :: (asBytes "Content-Type: ").tail := by decide
  have hrange : asBytes "Content-Range: " = 67 :: (asBytes "Content-Range: ").tail := by decide
  rw [headerLines] at h
  rw [htype, hrange, List.mem_cons, List.mem_singleton] at h
  rcases h with rfl | rfl
  · exact ⟨_, List.cons_append⟩
  · exact ⟨_, List.cons_append⟩

/-- The lines of a part hold no delimiter when its content holds none. -/
theorem partLines_free {total : ℕ} {range : ByteRange} {slice : Bytes}
    (hfree : FreeOf (asBytes boundary) slice) :
    ∀ line ∈ headerLines contentType total range ++ [] :: lines slice,
      ¬IsDelimiter (asBytes boundary) line := by
  intro line hline
  rcases List.mem_append.mp hline with hheader | hline
  · obtain ⟨rest, rfl⟩ := headerLines_cons hheader
    exact not_isDelimiter_cons (by decide)
  · rcases List.mem_cons.mp hline with rfl | hline
    · intro hdelimiter
      nomatch List.prefix_nil.mp hdelimiter
    · exact hfree.lines line hline

/-- The lines of a part are read as the part of its range. -/
theorem part_headerLines (content : Bytes) (range : ByteRange) :
    part (headerLines contentType content.length range ++
      [] :: lines (fileSlice content range.start range.length)) =
        some (rangePart content contentType range) := by
  have htype : field (asBytes "Content-Type: " ++ asBytes contentType) =
      some (asBytes "Content-Type", asBytes contentType) := by
    rw [asBytes_contentType, List.append_assoc, List.cons_append, List.singleton_append]
    exact field_append (by decide)
  have hrange : field (asBytes "Content-Range: " ++
      asBytes (contentRange range content.length)) =
        some (asBytes "Content-Range", asBytes (contentRange range content.length)) := by
    rw [asBytes_contentRange, List.append_assoc, List.cons_append, List.singleton_append]
    exact field_append (by decide)
  refine part_append _ ?_ ?_
  · rintro header hheader rfl
    obtain ⟨rest, hrest⟩ := headerLines_cons hheader
    nomatch hrest
  · rw [headerLines]
    rw [List.mapM_cons, List.mapM_cons, List.mapM_nil, htype, hrange]
    rfl

end Parts

/-! ## Lengths -/

theorem fileSlice_length {content : Bytes} {range : ByteRange}
    (h : range.Within content.length) :
    (fileSlice content range.start range.length).length = range.length := by
  rw [fileSlice]
  rw [ByteRange.Within] at h
  rw [ByteRange.length]
  rw [List.length_take, List.length_drop]
  omega

/-- The body has as many bytes as it is planned to have. -/
theorem plannedBody_multipart_length {content : Bytes} {parts : List MultipartPart}
    {terminator : Bytes} {contentLength : ℕ}
    (hwithin : ∀ part ∈ parts, part.range.Within content.length) :
    (plannedBody content (.multipart parts terminator contentLength)).length =
      (BodyPlan.multipart parts terminator contentLength).total := by
  unfold plannedBody BodyPlan.total
  dsimp only
  rw [List.length_append, List.length_flatMap]
  congr 2
  refine List.map_congr_left fun part hpart => ?_
  rw [List.length_append, fileSlice_length (hwithin part hpart)]

theorem checkedAdd_of_lt {a b : ℕ} (h : a + b < 2 ^ 64) : checkedAdd a b = some (a + b) :=
  if_pos h

/-- The checked part loop succeeds when the sum of all lengths fits. -/
theorem checkedLoop_eq {contentType boundary : String} {total : ℕ} (index contentLength : ℕ)
    (ranges : List ByteRange) (hordered : ∀ range ∈ ranges, range.start ≤ range.stop)
    (hfits : contentLength + ((multipartLoop contentType total boundary index contentLength
      ranges).1.map fun part => part.header.length + part.range.length).sum < 2 ^ 64) :
    checkedLoop contentType total boundary index contentLength ranges =
      some (contentLength + ((multipartLoop contentType total boundary index contentLength
        ranges).1.map fun part => part.header.length + part.range.length).sum) := by
  induction ranges generalizing index contentLength with
  | nil => rfl
  | cons range ranges ih =>
      have hrange := hordered range List.mem_cons_self
      rw [multipartLoop] at hfits ⊢
      dsimp only at hfits ⊢
      rw [List.map_cons, List.sum_cons] at hfits ⊢
      dsimp only at hfits ⊢
      -- No addition wraps around, so the loop runs on the exact sums.
      generalize hheaderText : partHeader index range contentType total boundary = header
        at hfits ⊢
      have hheader : contentLength + header.length < 2 ^ 64 := by omega
      have hbody : contentLength + header.length + range.length < 2 ^ 64 := by omega
      rw [Nat.mod_eq_of_lt hheader, Nat.mod_eq_of_lt hbody] at hfits ⊢
      have hspan : checkedSub range.stop range.start = some (range.stop - range.start) :=
        if_pos hrange
      have hlength : checkedAdd (range.stop - range.start) 1 = some range.length :=
        checkedAdd_of_lt (by unfold ByteRange.length at hbody; omega)
      have hrest := ih (index + 1) (contentLength + header.length + range.length)
        (fun other hother => hordered other (List.mem_cons_of_mem _ hother)) (by omega)
      simp only [checkedLoop, hheaderText, checkedAdd_of_lt hheader, hspan, hlength,
        checkedAdd_of_lt hbody, hrest, Option.bind_eq_bind, Option.bind_some]
      congr 1
      omega

theorem checkedContentLength_eq {contentType boundary : String} {total : ℕ}
    {ranges : List ByteRange} {parts : List MultipartPart} {terminator : Bytes}
    {contentLength : ℕ} (hordered : ∀ range ∈ ranges, range.start ≤ range.stop)
    (hparts : multipartParts ranges contentType total boundary =
      (parts, terminator, contentLength))
    (hfits : (BodyPlan.multipart parts terminator contentLength).total < 2 ^ 64) :
    checkedContentLength ranges contentType total boundary =
      some (BodyPlan.multipart parts terminator contentLength).total := by
  cases hparts
  unfold BodyPlan.total at hfits ⊢
  dsimp only at hfits ⊢
  have hloop : checkedLoop contentType total boundary 0 0 ranges = some _ :=
    checkedLoop_eq 0 0 ranges hordered (by omega)
  rw [checkedContentLength]
  rw [hloop, Nat.zero_add]
  exact checkedAdd_of_lt hfits

/-! ## The decoded body -/

theorem mapM_part_eq {α : Type} {pieces : α → List Bytes} {read : α → Part} {xs : List α}
    (h : ∀ x ∈ xs, part (pieces x) = some (read x)) :
    (xs.map pieces).mapM part = some (xs.map read) := by
  induction xs with
  | nil => rfl
  | cons x xs ih =>
      rw [List.map_cons, List.mapM_cons, h x List.mem_cons_self,
        ih fun y hy => h y (List.mem_cons_of_mem _ hy)]
      rfl

/-- A multipart body is read back as one part for every range, with the content type,
the range and the bytes of the slice, when no slice holds a delimiter.  The announced
length is that of the body, and computing it neither overflows nor underflows. -/
theorem multipart_body_decodes (content : Bytes) (ranges : List ByteRange)
    (contentType boundary : String) (hne : ranges ≠ [])
    (htotal : content.length ≤ 2 ^ 63 - 1)
    (hwithin : ∀ range ∈ ranges, range.Within content.length) (hascending : Ascending ranges)
    (hcontentType : '\r' ∉ contentType.toList) (hboundary : '\r' ∉ boundary.toList)
    (hfree : ∀ range ∈ ranges,
      FreeOf (asBytes boundary) (fileSlice content range.start range.length)) :
    let (parts, terminator, contentLength) :=
      multipartParts ranges contentType content.length boundary
    let message := plannedBody content (.multipart parts terminator contentLength)
    parse (asBytes boundary) message = some (ranges.map (rangePart content contentType)) ∧
      (framingLength ranges contentType content.length boundary < 2 ^ 63 →
        contentLength = message.length ∧
          checkedContentLength ranges contentType content.length boundary =
            some contentLength) := by
  obtain ⟨first, rest, rfl⟩ := List.exists_cons_of_ne_nil hne
  cases hparts : multipartParts (first :: rest) contentType content.length boundary with
  | mk parts framed =>
      obtain ⟨terminator, contentLength⟩ := framed
      dsimp only
      constructor
      · have hlines := @lines_multipart contentType boundary hcontentType hboundary content _
          first rest _ _ _ hparts
        rw [← List.flatMap_map (f := fun range => headerLines contentType content.length range ++
          [] :: lines (fileSlice content range.start range.length))
          (g := (dashBoundary (asBytes boundary) :: ·))] at hlines
        rw [parse_delimited (by simp) hlines]
        · exact mapM_part_eq fun range _ => part_headerLines content range
        · intro ls hls
          obtain ⟨range, hrange, rfl⟩ := List.mem_map.mp hls
          exact partLines_free (hfree range hrange)
      · intro hframing
        have hsum := hascending.sum_length_le hwithin (fun _ _ => Nat.zero_le _)
          (Nat.zero_le content.length)
        have htotalLength := multipartParts_total _ _ _ _ hparts
        have hexact := multipartParts_exact hparts (by omega)
        have hranges := multipartLoop_ranges contentType content.length boundary 0 0
          (first :: rest)
        have hlength : (plannedBody content (.multipart parts terminator
            contentLength)).length =
              (BodyPlan.multipart parts terminator contentLength).total := by
          refine plannedBody_multipart_length fun part hpart => hwithin _ ?_
          cases hparts
          rw [← hranges]
          exact List.mem_map_of_mem hpart
        refine ⟨hexact.trans hlength.symm, ?_⟩
        rw [checkedContentLength_eq (fun range hrange => (hwithin range hrange).1) hparts
          (by omega), ← hexact]

/-- Two slices, the first ending like the start of a delimiter. -/
theorem multipart_body_decodes_two :
    let content : Bytes := [13, 10, 45, 45, 0, 1, 2]
    let (parts, terminator, contentLength) :=
      multipartParts [⟨0, 3⟩, ⟨5, 6⟩] "text/plain" 7 "B"
    let message := plannedBody content (.multipart parts terminator contentLength)
    parse (asBytes "B") message =
        some [rangePart content "text/plain" ⟨0, 3⟩,
          rangePart content "text/plain" ⟨5, 6⟩] ∧
      contentLength = message.length := by
  have hdecodes := multipart_body_decodes [13, 10, 45, 45, 0, 1, 2] [⟨0, 3⟩, ⟨5, 6⟩]
    "text/plain" "B" (by decide) (by decide) (by unfold ByteRange.Within; decide) (by decide)
    (by decide) (by decide) (by decide)
  exact ⟨hdecodes.1, (hdecodes.2 (by decide)).1⟩

/-- A slice that begins with the boundary is not read back: the empty line in front of
it makes it a delimiter line. -/
theorem slice_with_leading_boundary_is_misread :
    let content := asBytes "--B"
    let (parts, terminator, contentLength) := multipartParts [⟨0, 2⟩] "text/plain" 3 "B"
    let message := plannedBody content (.multipart parts terminator contentLength)
    ¬crlf ++ dashBoundary (asBytes "B") <:+: fileSlice content 0 3 ∧
      parse (asBytes "B") message ≠ some [rangePart content "text/plain" ⟨0, 2⟩] := by
  decide

end EnvoyFiles.Filter
