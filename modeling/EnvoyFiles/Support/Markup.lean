import Mathlib

/-!
# Text and links in markup

Text in a markup page is escaped, and its reader resolves character references.  A link is
read as an absolute one, or as one relative to the page.  Nothing here depends on how a page
is put together.
-/

namespace EnvoyFiles.Markup

/-! ## Character references -/

/-- The character references of a reader.  `resolve` is given the text behind an ampersand and
yields what the reference denotes and how much of the text belongs to it. -/
structure References where
  resolve : List Char → Option (List Char × ℕ)
  ampersand : ∀ rest, resolve ("amp;".toList ++ rest) = some (['&'], 4)
  less : ∀ rest, resolve ("lt;".toList ++ rest) = some (['<'], 3)
  greater : ∀ rest, resolve ("gt;".toList ++ rest) = some (['>'], 3)

/-- A reader that knows the references of escaped text and no others. -/
def References.minimal : References where
  resolve text :=
    if "amp;".toList <+: text then some (['&'], 4)
    else if "lt;".toList <+: text then some (['<'], 3)
    else if "gt;".toList <+: text then some (['>'], 3)
    else none
  ampersand rest := if_pos (List.prefix_append _ rest)
  less rest := by
    rw [if_neg (by simp), if_pos (List.prefix_append _ rest)]
  greater rest := by
    rw [if_neg (by simp), if_neg (by simp), if_pos (List.prefix_append _ rest)]

/-- One character of escaped text. -/
def escapeChar (c : Char) : List Char :=
  if c = '&' then "&amp;".toList
  else if c = '<' then "&lt;".toList
  else if c = '>' then "&gt;".toList
  else [c]

/-- Escaped text. -/
def escape (text : List Char) : List Char :=
  text.flatMap escapeChar

/-- What a reader makes of text after it has skipped some of it. -/
def unescapeFrom (refs : References) : ℕ → List Char → List Char
  | _, [] => []
  | skipped + 1, _ :: rest => unescapeFrom refs skipped rest
  | 0, c :: rest =>
      if c = '&' then
        match refs.resolve rest with
        | some (text, length) => text ++ unescapeFrom refs length rest
        | none => c :: unescapeFrom refs 0 rest
      else c :: unescapeFrom refs 0 rest

/-- What a reader makes of text. -/
def unescape (refs : References) (text : List Char) : List Char :=
  unescapeFrom refs 0 text

section Escaping

variable {refs : References} {text rest : List Char} {c : Char}

theorem escape_cons : escape (c :: rest) = escapeChar c ++ escape rest :=
  List.flatMap_cons

/-- Escaped text starts and ends no tag. -/
theorem not_mem_escape (hbracket : c = '<' ∨ c = '>') : c ∉ escape text := by
  intro hmem
  obtain ⟨d, -, hd⟩ := List.mem_flatMap.mp hmem
  rw [escapeChar] at hd
  split_ifs at hd with hamp hless hgreater
  · rcases hbracket with rfl | rfl <;> exact absurd hd (by decide)
  · rcases hbracket with rfl | rfl <;> exact absurd hd (by decide)
  · rcases hbracket with rfl | rfl <;> exact absurd hd (by decide)
  · rw [List.mem_singleton] at hd
    rcases hbracket with rfl | rfl
    · exact hless hd.symm
    · exact hgreater hd.symm

theorem unescape_reference {reference resolved : List Char}
    (h : refs.resolve (reference ++ rest) = some (resolved, reference.length)) :
    unescape refs ('&' :: (reference ++ rest)) = resolved ++ unescape refs rest := by
  have hskip : ∀ skipped : List Char,
      unescapeFrom refs skipped.length (skipped ++ rest) = unescapeFrom refs 0 rest := by
    intro skipped
    induction skipped with
    | nil => rfl
    | cons first skipped ih => exact ih
  rw [unescape, unescapeFrom, if_pos rfl, h]
  dsimp only
  rw [hskip, unescape]

theorem unescape_escapeChar : unescape refs (escapeChar c ++ rest) = c :: unescape refs rest := by
  rw [escapeChar]
  split_ifs with hamp hless hgreater
  · rw [hamp]
    exact unescape_reference (refs.ampersand rest)
  · rw [hless]
    exact unescape_reference (refs.less rest)
  · rw [hgreater]
    exact unescape_reference (refs.greater rest)
  · rw [List.singleton_append, unescape, unescapeFrom, if_neg hamp, unescape]

/-- A reader of escaped text gets the text. -/
theorem unescape_escape : unescape refs (escape text) = text := by
  induction text with
  | nil => rw [escape, List.flatMap_nil, unescape, unescapeFrom]
  | cons c rest ih => rw [escape_cons, unescape_escapeChar, ih]

end Escaping

/-- Text between tags that starts and ends no tag and that a reader takes for `text`. -/
structure Shows (refs : References) (hole text : List Char) : Prop where
  opens_no_tag : '<' ∉ hole
  closes_no_tag : '>' ∉ hole
  reads : unescape refs hole = text

theorem shows_escape (refs : References) (text : List Char) : Shows refs (escape text) text :=
  ⟨not_mem_escape (Or.inl rfl), not_mem_escape (Or.inr rfl), unescape_escape⟩

/-! ## Links -/

/-- The link names a scheme: there is a colon before the path, the query and the fragment. -/
def HasScheme (link : List Char) : Prop :=
  ∃ scheme rest, link = scheme ++ ':' :: rest ∧ ∀ c ∈ scheme, c ≠ '/' ∧ c ≠ '?' ∧ c ≠ '#'

/-- The link is an absolute path. -/
def IsAbsolutePath (link : List Char) : Prop :=
  ['/'] <+: link

/-- The link names a host. -/
def NamesHost (link : List Char) : Prop :=
  ['/', '/'] <+: link

/-- Characters that stand for themselves in a segment. -/
def isPlain (c : Char) : Bool :=
  c.isAlphanum || c == '-' || c == '.' || c == '_' || c == '~'

/-- Digits of an escaped byte. -/
def isHexDigit (c : Char) : Bool :=
  c.isDigit || ('A' ≤ c && c ≤ 'F')

/-- Plain characters and escaped bytes. -/
inductive Segment : List Char → Prop
  | nil : Segment []
  | plain {c : Char} {rest : List Char} (hc : isPlain c = true) (hrest : Segment rest) :
      Segment (c :: rest)
  | escaped {high low : Char} {rest : List Char} (hhigh : isHexDigit high = true)
      (hlow : isHexDigit low = true) (hrest : Segment rest) : Segment ('%' :: high :: low :: rest)

section Links

variable {segment slash tail link : List Char}

theorem Segment.append (h : Segment segment) (htail : Segment tail) : Segment (segment ++ tail) := by
  induction h with
  | nil => exact htail
  | plain hc hrest ih => exact .plain hc ih
  | escaped hhigh hlow hrest ih => exact .escaped hhigh hlow ih

/-- The characters of a segment. -/
theorem Segment.mem (h : Segment segment) :
    ∀ c ∈ segment, isPlain c = true ∨ c = '%' ∨ isHexDigit c = true := by
  induction h with
  | nil => simp
  | plain hc hrest ih =>
      rw [List.forall_mem_cons]
      exact ⟨Or.inl hc, ih⟩
  | escaped hhigh hlow hrest ih =>
      rw [List.forall_mem_cons, List.forall_mem_cons, List.forall_mem_cons]
      exact ⟨Or.inr (Or.inl rfl), Or.inr (Or.inr hhigh), Or.inr (Or.inr hlow), ih⟩

theorem Segment.not_mem (h : Segment segment) {c : Char} (hc : c = '"' ∨ c = ':' ∨ c = '/') :
    c ∉ segment := by
  intro hmem
  have hcases := h.mem c hmem
  rcases hc with rfl | rfl | rfl <;> exact absurd hcases (by decide)

/-- A link is a segment, with at most one slash at its end. -/
def IsLink (link : List Char) : Prop :=
  ∃ segment slash, Segment segment ∧ (slash = [] ∨ slash = ['/']) ∧ link = segment ++ slash

/-- A link does not end the attribute it is in. -/
theorem IsLink.no_quote (h : IsLink link) : '"' ∉ link := by
  obtain ⟨segment, slash, hsegment, hslash, rfl⟩ := h
  rw [List.mem_append, not_or]
  refine ⟨hsegment.not_mem (Or.inl rfl), ?_⟩
  rcases hslash with rfl | rfl <;> decide

theorem IsLink.no_scheme (h : IsLink link) : ¬HasScheme link := by
  obtain ⟨segment, slash, hsegment, hslash, rfl⟩ := h
  rintro ⟨scheme, rest, hlink, -⟩
  have hcolon : ':' ∈ segment ++ slash := by
    rw [hlink]
    exact List.mem_append_right _ List.mem_cons_self
  rcases List.mem_append.mp hcolon with hmem | hmem
  · exact hsegment.not_mem (Or.inr (Or.inl rfl)) hmem
  · rcases hslash with rfl | rfl <;> exact absurd hmem (by decide)

/-- Only the empty segment makes an absolute path. -/
theorem Segment.isAbsolutePath_iff (h : Segment segment) (hslash : slash = [] ∨ slash = ['/']) :
    IsAbsolutePath (segment ++ slash) ↔ segment = [] ∧ slash = ['/'] := by
  constructor
  · rintro ⟨rest, hrest⟩
    cases segment with
    | nil =>
        rcases hslash with rfl | rfl
        · cases hrest
        · exact ⟨rfl, rfl⟩
    | cons c segment =>
        have hc : '/' = c := (List.cons.inj hrest).1
        exact absurd (hc ▸ List.mem_cons_self) (h.not_mem (Or.inr (Or.inr rfl)))
  · rintro ⟨rfl, rfl⟩
    exact List.prefix_refl _

theorem IsLink.no_host (h : IsLink link) : ¬NamesHost link := by
  obtain ⟨segment, slash, hsegment, hslash, rfl⟩ := h
  intro hhost
  have habsolute : IsAbsolutePath (segment ++ slash) := (List.prefix_append ['/'] ['/']).trans hhost
  obtain ⟨rfl, rfl⟩ := (hsegment.isAbsolutePath_iff hslash).mp habsolute
  exact absurd hhost.length_le (by decide)

end Links

end EnvoyFiles.Markup
