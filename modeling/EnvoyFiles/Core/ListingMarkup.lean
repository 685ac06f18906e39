import EnvoyFiles.Core.ListingOrder
import EnvoyFiles.Support.Markup
import EnvoyFiles.Support.Strings

/-!
# The markup of a listing

A page is a fixed text with holes.  The texts in its holes start and end no tag, and a reader
takes them for the path and the names they come from.  An entry's link stays inside its
attribute and leads below the page, except for a directory without a name.
-/

namespace EnvoyFiles.Listing

open Text Conditional Markup

/-! ## Names in links -/

section Names

variable {name : String}

theorem isPlain_of_isUnreserved (b : UInt8) :
    isUnreserved b = true → isPlain (Char.ofNat b.toNat) = true := by
  revert b
  exact forall_byte (by decide +kernel)

theorem isHexDigit_hexDigitUpper : ∀ n < 16, isHexDigit (hexDigitUpper n) = true := by
  decide

theorem segment_percentEncodeByte (b : UInt8) : Segment (percentEncodeByte b) := by
  have hb := b.toNat_lt
  rw [percentEncodeByte]
  split_ifs with hunreserved
  · exact .plain (isPlain_of_isUnreserved b hunreserved) .nil
  · exact .escaped (isHexDigit_hexDigitUpper _ (by omega)) (isHexDigit_hexDigitUpper _ (by omega))
      .nil

theorem segment_percentEncode (name : String) :
    Segment (percentEncodePathSegment name).toList := by
  rw [percentEncodePathSegment]
  rw [String.toList_ofList]
  induction asBytes name with
  | nil => exact .nil
  | cons b rest ih =>
      rw [List.flatMap_cons]
      exact (segment_percentEncodeByte b).append ih

theorem percentEncodeByte_ne_nil (b : UInt8) : percentEncodeByte b ≠ [] := by
  rw [percentEncodeByte]
  split_ifs
  · exact List.cons_ne_nil _ _
  · exact List.cons_ne_nil _ _

theorem percentEncodePathSegment_eq_empty : percentEncodePathSegment name = "" ↔ name = "" := by
  rw [← String.toList_eq_nil_iff, percentEncodePathSegment, ← asBytes_eq_nil]
  rw [String.toList_ofList]
  rw [List.flatMap_eq_nil_iff, List.eq_nil_iff_forall_not_mem]
  constructor
  · intro h b hb
    exact percentEncodeByte_ne_nil b (h b hb)
  · intro h b hb
    exact absurd hb (h b)

end Names

/-! ## The template -/

/-- What a row of the page is filled with. -/
structure RowHoles where
  href : String
  name : String
  size : String
  modified : String

/-- A row around its holes. -/
def rowTemplate (holes : RowHoles) : String :=
  "<tr><td><a href=\"" ++ holes.href ++ "\">" ++ holes.name ++
    "</a></td><td>" ++ holes.size ++ "</td><td>" ++ holes.modified ++ "</td></tr>\n"

/-- A page around its holes. -/
def pageTemplate (title heading : String) (atRoot : Bool) (rows : List RowHoles) : String :=
  "<!DOCTYPE html>\n<html>\n<head>\n" ++ "<meta charset=\"utf-8\">\n" ++
    "<title>Index of " ++ title ++ "</title>\n" ++
    "</head>\n<body>\n" ++
    "<h1>Index of " ++ heading ++ "</h1>\n" ++
    "<table>\n" ++
    "<tr><th>Name</th><th>Size</th><th>Last modified</th></tr>\n" ++
    (if atRoot then ""
      else "<tr><td><a href=\"../\">../</a></td><td></td><td></td></tr>\n") ++
    join (rows.map rowTemplate) "" ++ "</table>\n</body>\n</html>\n"

/-- The slash behind the name of a directory. -/
def slashOf (entry : DirEntry) : String :=
  if entry.isDir then "/" else ""

/-- What the renderer fills the row of an entry with. -/
def rowHoles (entry : DirEntry) (modified : String) : RowHoles where
  href := percentEncodePathSegment entry.name ++ slashOf entry
  name := encodeText entry.name ++ slashOf entry
  size := if entry.isDir then "" else humanizeSize entry.size
  modified := modified

/-- What the holes of a row make of an entry. -/
structure RowShows (refs : References) (crates : Crates) (entry : DirEntry) (holes : RowHoles) :
    Prop where
  name : Shows refs holes.name.toList (entry.name ++ slashOf entry).toList
  href : IsLink holes.href.toList
  no_quote : '"' ∉ holes.href.toList
  no_scheme : ¬HasScheme holes.href.toList
  no_host : ¬NamesHost holes.href.toList
  absolute : IsAbsolutePath holes.href.toList ↔ entry.isDir = true ∧ entry.name = ""
  size : holes.size = if entry.isDir then "" else humanizeSize entry.size
  modified : formatHttpDate crates entry.mtimeUnix = some holes.modified

section Template

variable {refs : References} {crates : Crates} {urlPath : String} {atRoot : Bool}
  {entry : DirEntry} {entries : List DirEntry} {row modified : String}

theorem shows_encodeText (refs : References) (text : String) :
    Shows refs (encodeText text).toList text.toList := by
  rw [encodeText]
  rw [String.toList_ofList]
  exact shows_escape refs text.toList

theorem shows_name : Shows refs (rowHoles entry modified).name.toList
    (entry.name ++ slashOf entry).toList := by
  have hname : (rowHoles entry modified).name = encodeText (entry.name ++ slashOf entry) := by
    have hslash : encodeText (slashOf entry) = slashOf entry := by
      rw [slashOf]
      cases entry.isDir <;> rfl
    simp only [encodeText, rowHoles] at hslash ⊢
    rw [String.toList_append, List.flatMap_append, String.ofList_append, hslash]
  rw [hname]
  exact shows_encodeText refs _

theorem rowHoles_href : ∃ segment slash, Segment segment ∧ (slash = [] ∨ slash = ['/']) ∧
    (rowHoles entry modified).href.toList = segment ++ slash ∧
    (segment = [] ↔ entry.name = "") ∧ (slash = ['/'] ↔ entry.isDir = true) := by
  refine ⟨(percentEncodePathSegment entry.name).toList, (slashOf entry).toList,
    segment_percentEncode entry.name, ?_, String.toList_append, ?_, ?_⟩
  · rw [slashOf]
    cases entry.isDir
    · exact Or.inl rfl
    · exact Or.inr rfl
  · rw [String.toList_eq_nil_iff, percentEncodePathSegment_eq_empty]
  · rw [slashOf]
    cases entry.isDir <;> decide

/-- What the renderer fills in shows the entry. -/
theorem rowShows (hmodified : formatHttpDate crates entry.mtimeUnix = some modified) :
    RowShows refs crates entry (rowHoles entry modified) := by
  obtain ⟨segment, slash, hsegment, hslash, hhref, hempty, hdir⟩ := @rowHoles_href entry modified
  have hlink : IsLink (rowHoles entry modified).href.toList :=
    ⟨segment, slash, hsegment, hslash, hhref⟩
  refine ⟨shows_name, hlink, hlink.no_quote, hlink.no_scheme, hlink.no_host, ?_, rfl, hmodified⟩
  rw [hhref, hsegment.isAbsolutePath_iff hslash, hempty, hdir, and_comm]

theorem renderRow_eq_some (h : renderRow crates entry = some row) :
    ∃ modified, formatHttpDate crates entry.mtimeUnix = some modified ∧
      row = rowTemplate (rowHoles entry modified) := by
  rw [renderRow] at h
  cases hmodified : formatHttpDate crates entry.mtimeUnix with
  | none =>
      rw [hmodified] at h
      cases h
  | some modified =>
      rw [hmodified] at h
      cases h
      exact ⟨modified, rfl, rfl⟩

/-- The rows of a page fill the template, each with what shows its entry. -/
theorem exists_rowHoles {rows : List String}
    (h : List.Forall₂ (fun entry row => renderRow crates entry = some row) entries rows) :
    ∃ holes, rows = holes.map rowTemplate ∧
      List.Forall₂ (RowShows refs crates) entries holes := by
  induction h with
  | nil => exact ⟨[], rfl, .nil⟩
  | cons hrow _ ih =>
      obtain ⟨modified, hmodified, rfl⟩ := renderRow_eq_some hrow
      obtain ⟨holes, rfl, hholes⟩ := ih
      exact ⟨rowHoles _ modified :: holes, rfl, .cons (rowShows hmodified) hholes⟩

end Template

/-- Neither a path nor a name adds markup to a page.  Every link stays inside its attribute
and leads below the page, except that of a directory with the empty name. -/
theorem listing_fills_template (refs : References) (crates : Crates) (urlPath : String)
    (atRoot : Bool) {entries : List DirEntry}
    (hdates : ∀ entry ∈ entries, (httpDateFrom entry.mtimeUnix).isSome = true) :
    ∃ (sorted : List DirEntry) (title heading : String) (rows : List RowHoles),
      sorted.Perm entries ∧
      renderListing crates urlPath atRoot entries =
        some (pageTemplate title heading atRoot rows) ∧
      Shows refs title.toList urlPath.toList ∧ Shows refs heading.toList urlPath.toList ∧
      List.Forall₂ (RowShows refs crates) sorted rows := by
  obtain ⟨rows, hrows⟩ := @exists_rows crates entries hdates
  obtain ⟨holes, rfl, hholes⟩ := @exists_rowHoles refs crates _ _ hrows
  exact ⟨entries.mergeSort (entryLe crates), encodeText urlPath, encodeText urlPath, holes,
    List.mergeSort_perm _ _, renderListing_eq_some hrows, shows_encodeText refs urlPath,
    shows_encodeText refs urlPath, hholes⟩

/-- A directory whose name closes the attribute and opens a tag, where it is not encoded. -/
theorem listing_fills_template_script :
    ∃ title heading row,
      renderListing Crates.plain "/<a>&amp;/" false [⟨"\"><script>", true, 0, 0⟩] =
        some (pageTemplate title heading false [row]) ∧
      RowShows References.minimal Crates.plain ⟨"\"><script>", true, 0, 0⟩ row := by
  obtain ⟨sorted, title, heading, rows, hperm, hpage, -, -, hrows⟩ :=
    @listing_fills_template References.minimal Crates.plain "/<a>&amp;/" false
      [⟨"\"><script>", true, 0, 0⟩] (by decide)
  rw [List.perm_singleton.mp hperm] at hrows
  obtain ⟨row, rest, hrow, hrest, rfl⟩ := List.forall₂_cons_left_iff.mp hrows
  rw [List.forall₂_nil_left_iff.mp hrest] at hpage
  exact ⟨title, heading, row, hpage, hrow⟩

/-- A directory with the empty name is linked to by an absolute path. -/
theorem nameless_link_absolute :
    renderListing Crates.plain "/" true [⟨"", true, 0, 0⟩] =
        some (pageTemplate "/" "/" true [⟨"/", "/", "", "Thu, 01 Jan 1970 00:00:00 GMT"⟩]) ∧
      IsAbsolutePath "/".toList := by
  refine ⟨?_, List.prefix_refl _⟩
  rw [renderListing]
  rw [List.mergeSort_singleton]
  rfl

end EnvoyFiles.Listing
