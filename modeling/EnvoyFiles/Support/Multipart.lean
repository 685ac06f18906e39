import EnvoyFiles.Support.Text

/-!
# Multipart messages

A reader of multipart messages in the sense of RFC 2046, section 5.1.1.  The message
is a sequence of lines that end with CRLF.  A line that begins with the
dash-boundary is a delimiter, whatever stands behind it, and the CRLF in front
of it belongs to it; a delimiter with two more dashes closes the message.  What
is between two delimiters is a part: header fields, an empty line and the
content.
-/

namespace EnvoyFiles.Multipart

/-- The bytes that end a line. -/
def crlf : Bytes := [13, 10]

/-- The lines of a message, without the CRLF between them. -/
def lines : Bytes → List Bytes
  | [] => [[]]
  | [b] => [[b]]
  | b :: b' :: rest =>
      if b = 13 ∧ b' = 10 then
        [] :: lines rest
      else
        match lines (b' :: rest) with
        | [] => [[b]]
        | line :: others => (b :: line) :: others

/-- Lines put together again. -/
def unlines (ls : List Bytes) : Bytes :=
  crlf.intercalate ls

/-- The start of every delimiter line. -/
def dashBoundary (boundary : Bytes) : Bytes :=
  45 :: 45 :: boundary

/-- The line is a delimiter of the boundary. -/
def IsDelimiter (boundary line : Bytes) : Prop :=
  dashBoundary boundary <+: line

/-- The line closes the message. -/
def IsClose (boundary line : Bytes) : Prop :=
  dashBoundary boundary ++ [45, 45] <+: line

instance (boundary line : Bytes) : Decidable (IsDelimiter boundary line) :=
  inferInstanceAs (Decidable (_ <+: _))

instance (boundary line : Bytes) : Decidable (IsClose boundary line) :=
  inferInstanceAs (Decidable (_ <+: _))

/-- A part: the names and values of its header fields, and its content. -/
structure Part where
  fields : List (Bytes × Bytes)
  content : Bytes
  deriving DecidableEq

/-- A header field: the name before the colon and the value behind the colon and
the space that follows it. -/
def field (line : Bytes) : Option (Bytes × Bytes) :=
  match line.dropWhile (· ≠ 58) with
  | 58 :: 32 :: value => some (line.takeWhile (· ≠ 58), value)
  | 58 :: value => some (line.takeWhile (· ≠ 58), value)
  | _ => none

/-- A part from its lines: header fields up to the first empty line, content
behind it. -/
def part (ls : List Bytes) : Option Part := do
  let fields ← (ls.takeWhile (· ≠ [])).mapM field
  return ⟨fields, unlines ((ls.dropWhile (· ≠ [])).drop 1)⟩

/-- The lines of each part, read up to the closing delimiter; `current` holds the
lines of the part that is read. -/
def partLines (boundary : Bytes) (current : List Bytes) :
    List Bytes → Option (List (List Bytes))
  | [] => none
  | line :: rest =>
      if IsClose boundary line then
        some [current]
      else if IsDelimiter boundary line then
        (partLines boundary [] rest).map (current :: ·)
      else
        partLines boundary (current ++ [line]) rest

/-- The parts of a message; `none` when it has no delimiter, is not closed or
holds a malformed header field. -/
def parse (boundary message : Bytes) : Option (List Part) :=
  match (lines message).dropWhile fun line => !decide (IsDelimiter boundary line) with
  | [] => none
  | first :: rest =>
      if IsClose boundary first then
        some []
      else
        (partLines boundary [] rest).bind fun parts => parts.mapM part

/-! ## Lines -/

theorem lines_ne_nil (bytes : Bytes) : lines bytes ≠ [] := by
  fun_induction lines bytes with
  | case1 => exact List.cons_ne_nil _ _
  | case2 => exact List.cons_ne_nil _ _
  | case3 => exact List.cons_ne_nil _ _
  | case4 => exact List.cons_ne_nil _ _
  | case5 => exact List.cons_ne_nil _ _

theorem lines_crlf_append (bytes : Bytes) : lines (crlf ++ bytes) = [] :: lines bytes := by
  rw [crlf]
  rw [List.cons_append, List.singleton_append, lines, if_pos ⟨rfl, rfl⟩]

/-- A byte that does not start a CRLF belongs to the first line. -/
theorem lines_cons {b : UInt8} {rest line : Bytes} {others : List Bytes}
    (hbreak : ¬(b = 13 ∧ rest.head? = some 10)) (hrest : lines rest = line :: others) :
    lines (b :: rest) = (b :: line) :: others := by
  cases rest with
  | nil =>
      cases hrest
      rfl
  | cons b' rest =>
      rw [lines, if_neg (by simpa using hbreak), hrest]

/-- The lines on both sides of a CRLF are read separately. -/
theorem lines_append (before after : Bytes) :
    lines (before ++ crlf ++ after) = lines before ++ lines after := by
  fun_induction lines before with
  | case1 => exact lines_crlf_append after
  | case2 b =>
      -- A CR in front of the CRLF starts no line break of its own.
      refine lines_cons ?_ (lines_crlf_append after)
      simp [crlf]
  | case3 b b' rest hbreak ih =>
      obtain ⟨rfl, rfl⟩ := hbreak
      exact (lines_crlf_append _).trans (congrArg _ ih)
  | case4 b b' rest hbreak hnil ih => exact absurd hnil (lines_ne_nil _)
  | case5 b b' rest hbreak line others hline ih =>
      rw [hline] at ih
      exact lines_cons (by simpa using hbreak) ih

/-- Without a CR there is one line. -/
theorem lines_of_not_mem {bytes : Bytes} (h : 13 ∉ bytes) : lines bytes = [bytes] := by
  induction bytes with
  | nil => rfl
  | cons b rest ih =>
      refine lines_cons ?_ (ih (List.not_mem_of_not_mem_cons h))
      rintro ⟨rfl, -⟩
      exact h List.mem_cons_self

theorem unlines_lines (bytes : Bytes) : unlines (lines bytes) = bytes := by
  rw [unlines]
  fun_induction lines bytes with
  | case1 => rfl
  | case2 => rfl
  | case3 b b' rest hbreak ih =>
      obtain ⟨rfl, rfl⟩ := hbreak
      obtain ⟨line, others, hlines⟩ := List.exists_cons_of_ne_nil (lines_ne_nil rest)
      rw [hlines, List.intercalate_cons_cons, ← hlines, ih]
      rfl
  | case4 b b' rest hbreak hnil ih => exact absurd hnil (lines_ne_nil _)
  | case5 b b' rest hbreak line others hline ih =>
      rw [hline] at ih
      rw [← ih]
      cases others with
      | nil => simp
      | cons next others => simp [List.intercalate_cons_cons]

/-- The first line stands at the start of the bytes, every other one behind a CRLF
in them. -/
theorem lines_position {bytes line : Bytes} {others : List Bytes}
    (h : lines bytes = line :: others) :
    line <+: bytes ∧ ∀ other ∈ others, crlf ++ other <:+: bytes := by
  fun_induction lines bytes generalizing line others with
  | case1 =>
      cases h
      exact ⟨List.prefix_rfl, by simp⟩
  | case2 b =>
      cases h
      exact ⟨List.prefix_rfl, by simp⟩
  | case3 b b' rest hbreak ih =>
      obtain ⟨rfl, rfl⟩ := hbreak
      obtain ⟨rfl, rfl⟩ := List.cons.inj h
      obtain ⟨first, later, hlines⟩ := List.exists_cons_of_ne_nil (lines_ne_nil rest)
      obtain ⟨hfirst, hlater⟩ := ih hlines
      refine ⟨List.nil_prefix, ?_⟩
      intro other hother
      rw [hlines] at hother
      rcases List.mem_cons.mp hother with rfl | hother
      · exact ((List.prefix_append_right_inj crlf).mpr hfirst).isInfix
      · exact (hlater other hother).trans (List.suffix_append crlf rest).isInfix
  | case4 b b' rest hbreak hnil ih => exact absurd hnil (lines_ne_nil _)
  | case5 b b' rest hbreak first later hline ih =>
      obtain ⟨rfl, rfl⟩ := List.cons.inj h
      obtain ⟨hfirst, hlater⟩ := ih hline
      refine ⟨List.cons_prefix_cons.mpr ⟨rfl, hfirst⟩, ?_⟩
      intro other hother
      exact (hlater other hother).trans (List.suffix_cons b _).isInfix

/-- Bytes that hold no delimiter, neither at their start nor behind a CRLF. -/
def FreeOf (boundary bytes : Bytes) : Prop :=
  ¬dashBoundary boundary <+: bytes ∧ ¬crlf ++ dashBoundary boundary <:+: bytes

instance (boundary bytes : Bytes) : Decidable (FreeOf boundary bytes) :=
  inferInstanceAs (Decidable (_ ∧ _))

theorem FreeOf.lines {boundary bytes : Bytes} (h : FreeOf boundary bytes) :
    ∀ line ∈ lines bytes, ¬IsDelimiter boundary line := by
  obtain ⟨first, later, hlines⟩ := List.exists_cons_of_ne_nil (lines_ne_nil bytes)
  obtain ⟨hfirst, hlater⟩ := lines_position hlines
  intro line hline hdelimiter
  rw [hlines] at hline
  rcases List.mem_cons.mp hline with rfl | hline
  · exact h.1 (hdelimiter.trans hfirst)
  · have hbehind := (List.prefix_append_right_inj crlf).mpr hdelimiter
    exact h.2 (hbehind.isInfix.trans (hlater line hline))

/-! ## Parts -/

theorem field_append {name value : Bytes} (h : 58 ∉ name) :
    field (name ++ 58 :: 32 :: value) = some (name, value) := by
  have hkept : ∀ b ∈ name, decide (b ≠ 58) = true := by
    intro b hb
    rw [decide_eq_true_eq]
    rintro rfl
    exact h hb
  rw [field]
  rw [List.dropWhile_append_of_pos hkept, List.takeWhile_append_of_pos hkept,
    List.dropWhile_cons_of_neg (by simp), List.takeWhile_cons_of_neg (by simp),
    List.append_nil]
  rfl

/-- A part of header fields, an empty line and content. -/
theorem part_append {headers : List Bytes} {fields : List (Bytes × Bytes)} (content : Bytes)
    (hheaders : ∀ header ∈ headers, header ≠ [])
    (hfields : headers.mapM field = some fields) :
    part (headers ++ [] :: lines content) = some ⟨fields, content⟩ := by
  have hkept : ∀ header ∈ headers, decide (header ≠ []) = true := by
    intro header hheader
    exact decide_eq_true (hheaders header hheader)
  rw [part]
  rw [List.dropWhile_append_of_pos hkept, List.takeWhile_append_of_pos hkept,
    List.dropWhile_cons_of_neg (by simp), List.takeWhile_cons_of_neg (by simp),
    List.append_nil, hfields, List.drop_succ_cons, List.drop_zero, unlines_lines]
  rfl

section Reading

variable {boundary : Bytes}

theorem isDelimiter_dashBoundary : IsDelimiter boundary (dashBoundary boundary) :=
  List.prefix_rfl

theorem isClose_dashBoundary : IsClose boundary (dashBoundary boundary ++ [45, 45]) :=
  List.prefix_rfl

theorem not_isClose_dashBoundary : ¬IsClose boundary (dashBoundary boundary) := by
  intro hclose
  have hlength := List.IsPrefix.length_le hclose
  rw [List.length_append, List.length_cons] at hlength
  omega

/-- A line that starts with another byte than a dash is no delimiter. -/
theorem not_isDelimiter_cons {b : UInt8} {line : Bytes} (hb : b ≠ 45) :
    ¬IsDelimiter boundary (b :: line) := by
  intro hdelimiter
  exact hb (List.cons_prefix_cons.mp hdelimiter).1.symm

theorem partLines_append {ls : List Bytes} (hfree : ∀ line ∈ ls, ¬IsDelimiter boundary line)
    (current rest : List Bytes) :
    partLines boundary current (ls ++ rest) = partLines boundary (current ++ ls) rest := by
  induction ls generalizing current with
  | nil => simp
  | cons line ls ih =>
      have hline := hfree line List.mem_cons_self
      have hclose : ¬IsClose boundary line := by
        intro hclose
        exact hline ((List.prefix_append _ _).trans hclose)
      rw [List.cons_append, partLines, if_neg hclose, if_neg hline,
        ih (fun other hother => hfree other (List.mem_cons_of_mem _ hother)),
        List.append_assoc, List.singleton_append]

/-- Delimiter lines separate the parts, a closing one ends them. -/
theorem partLines_delimited {parts : List (List Bytes)}
    (hfree : ∀ ls ∈ parts, ∀ line ∈ ls, ¬IsDelimiter boundary line)
    (current epilogue : List Bytes) :
    partLines boundary current (parts.flatMap (dashBoundary boundary :: ·) ++
      (dashBoundary boundary ++ [45, 45]) :: epilogue) = some (current :: parts) := by
  induction parts generalizing current with
  | nil => rw [List.flatMap_nil, List.nil_append, partLines, if_pos isClose_dashBoundary]
  | cons ls parts ih =>
      rw [List.flatMap_cons, List.cons_append, List.cons_append, partLines,
        if_neg not_isClose_dashBoundary, if_pos isDelimiter_dashBoundary, List.append_assoc,
        partLines_append (hfree ls List.mem_cons_self), List.nil_append,
        ih (fun other hother => hfree other (List.mem_cons_of_mem _ hother))]
      rfl

/-- A message of delimited parts is read back part by part. -/
theorem parse_delimited {message : Bytes} {parts : List (List Bytes)} {epilogue : List Bytes}
    (hne : parts ≠ [])
    (hlines : lines message = parts.flatMap (dashBoundary boundary :: ·) ++
      (dashBoundary boundary ++ [45, 45]) :: epilogue)
    (hfree : ∀ ls ∈ parts, ∀ line ∈ ls, ¬IsDelimiter boundary line) :
    parse boundary message = parts.mapM part := by
  obtain ⟨first, later, rfl⟩ := List.exists_cons_of_ne_nil hne
  -- The first delimiter is read outside of the loop, which starts within the first part.
  have hparts := partLines_delimited hfree [] epilogue
  rw [List.flatMap_cons, List.cons_append, List.cons_append] at hlines hparts
  rw [partLines, if_neg not_isClose_dashBoundary, if_pos isDelimiter_dashBoundary] at hparts
  obtain ⟨read, hread, heq⟩ := Option.map_eq_some_iff.mp hparts
  obtain ⟨-, rfl⟩ := List.cons.inj heq
  rw [parse]
  rw [hlines, List.dropWhile_cons_of_neg (by simp [isDelimiter_dashBoundary])]
  dsimp only
  rw [if_neg not_isClose_dashBoundary, hread]
  rfl

end Reading

end EnvoyFiles.Multipart
