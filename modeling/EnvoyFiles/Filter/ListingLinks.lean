import EnvoyFiles.Core.ListingMarkup
import EnvoyFiles.Filter.Redirects

/-!
# Links in a listing

A listing links to its entries by their encoded names, relative to the URL it is served at.
The resolver of the request that follows the link decodes the name again.
-/

namespace EnvoyFiles.Filter

open Text Path Listing

/-! ## Encoded names -/

/-- The byte of an upper-case hexadecimal digit. -/
def hexByteUpper (n : ℕ) : UInt8 :=
  UInt8.ofNat (hexDigitUpper n).toNat

/-- A byte is encoded as itself, or as an escape of two digits that denote it. -/
theorem percentEncodeByte_cases (b : UInt8) :
    (isUnreserved b = true ∧ asBytes (String.ofList (percentEncodeByte b)) = [b] ∧ b ≠ 0x25) ∨
      (asBytes (String.ofList (percentEncodeByte b)) =
          [0x25, hexByteUpper (b.toNat / 16), hexByteUpper (b.toNat % 16)] ∧
        hexDigit (hexByteUpper (b.toNat / 16)) = some (UInt8.ofNat (b.toNat / 16)) ∧
        hexDigit (hexByteUpper (b.toNat % 16)) = some (UInt8.ofNat (b.toNat % 16)) ∧
        UInt8.ofNat (b.toNat / 16) * 16 + UInt8.ofNat (b.toNat % 16) = b) := by
  revert b
  exact forall_byte (by decide +kernel)

/-- No encoded character separates segments or starts a query. -/
theorem percentEncodeByte_safe (b : UInt8) :
    ∀ c ∈ percentEncodeByte b, c ≠ '/' ∧ isCut c = false := by
  have hall : (percentEncodeByte b).all (fun c => c != '/' && !isCut c) = true := by
    revert b
    exact forall_byte (by decide +kernel)
  intro c hc
  simpa using List.all_eq_true.mp hall c hc

/-- An encoded name decodes to the name. -/
theorem unescaped_percentEncode (bytes : Bytes) :
    Unescaped (asBytes (String.ofList (bytes.flatMap percentEncodeByte))) bytes := by
  induction bytes with
  | nil =>
      rw [List.flatMap_nil, asBytes_eq_nil.mpr rfl]
      exact .nil
  | cons b rest ih =>
      rw [List.flatMap_cons, String.ofList_append, asBytes_append]
      rcases percentEncodeByte_cases b with
        ⟨-, hencoded, hliteral⟩ | ⟨hencoded, hhigh, hlow, hvalue⟩
      · rw [hencoded]
        exact .literal (fun _ _ _ hescape _ => absurd hescape hliteral) ih
      · rw [hencoded]
        have hescape := Unescaped.escape hhigh hlow ih
        rwa [hvalue] at hescape

section Names

variable {name : String}

theorem percentEncodePathSegment_safe :
    ∀ c ∈ (percentEncodePathSegment name).toList, c ≠ '/' ∧ isCut c = false := by
  intro c hc
  rw [percentEncodePathSegment] at hc
  rw [String.toList_ofList] at hc
  obtain ⟨b, -, hb⟩ := List.mem_flatMap.mp hc
  exact percentEncodeByte_safe b c hb

theorem decodesTo_percentEncode (hseparator : '/' ∉ name.toList) :
    DecodesTo (percentEncodePathSegment name) name :=
  ⟨unescaped_percentEncode (asBytes name), hseparator⟩

end Names

/-! ## Links below a directory -/

section Links

variable {policy : PathPolicy} {path name relative : String} {segments : List String}
  {trailingSlash : Bool}

theorem uncut_append (hpath : ∀ c ∈ path.toList, isCut c = false)
    (hname : ∀ c ∈ name.toList, isCut c = false) :
    ∀ c ∈ (path ++ name).toList, isCut c = false := by
  intro c hc
  rw [String.toList_append, List.mem_append] at hc
  rcases hc with hc | hc
  · exact hpath c hc
  · exact hname c hc

theorem uncut_slash : ∀ c ∈ ("/" : String).toList, isCut c = false := by
  intro c hc
  have hslash : c = '/' := List.mem_singleton.mp hc
  rw [hslash]
  rfl

/-- A slash at the end adds no segment. -/
theorem rawSegments_slash (huncut : ∀ c ∈ path.toList, isCut c = false) :
    rawSegments (path ++ "/") = rawSegments path := by
  have hslash := uncut_append huncut uncut_slash
  have hpieces : split (path ++ "/" ++ "") '/' = split path '/' ++ split "" '/' :=
    split_append toList_slash
  have hempty : split "" '/' = [""] := by decide
  rw [String.append_empty, hempty] at hpieces
  simp only [rawSegments]
  rw [stripQueryAndFragment_eq hslash, stripQueryAndFragment_eq huncut, hpieces,
    List.filter_append, List.filter_cons_of_neg (by simp), List.filter_nil, List.append_nil]

/-- A segment behind a slash is the last one. -/
theorem rawSegments_segment (huncut : ∀ c ∈ path.toList, isCut c = false) (hname : name ≠ "")
    (hsafe : ∀ c ∈ name.toList, c ≠ '/' ∧ isCut c = false) :
    rawSegments (path ++ "/" ++ name) = rawSegments path ++ [name] := by
  have hjoined := uncut_append (uncut_append huncut uncut_slash) fun c hc => (hsafe c hc).2
  have hpieces : split (path ++ "/" ++ name) '/' = split path '/' ++ split name '/' :=
    split_append toList_slash
  have hsingle : split name '/' = [name] := split_of_not_mem fun hmem => (hsafe _ hmem).1 rfl
  rw [hsingle] at hpieces
  simp only [rawSegments]
  rw [stripQueryAndFragment_eq hjoined, stripQueryAndFragment_eq huncut, hpieces,
    List.filter_append, List.filter_cons_of_pos (by simpa using hname), List.filter_nil]

theorem join_concat (hsegments : segments ≠ []) :
    join (segments ++ [name]) "/" = join segments "/" ++ "/" ++ name := by
  induction segments with
  | nil => exact absurd rfl hsegments
  | cons first rest ih =>
      cases rest with
      | nil =>
          rw [List.singleton_append, join_cons_cons]
          simp [join]
      | cons second rest =>
          rw [List.cons_append, List.cons_append, join_cons_cons, join_cons_cons,
            ← List.cons_append, ih (List.cons_ne_nil _ _)]
          simp only [String.append_assoc]

/-- The path of an entry of a directory. -/
def entryPath (directory name : String) : String :=
  if directory = "" then name else directory ++ "/" ++ name

theorem join_entry (hsegments : ∀ segment ∈ segments, segment ≠ "") :
    join (segments ++ [name]) "/" = entryPath (join segments "/") name := by
  rw [entryPath]
  by_cases hnil : segments = []
  · have hempty : join [] "/" = "" := rfl
    rw [hnil, List.nil_append, hempty, if_pos rfl]
    simp [join]
  · rw [join_concat hnil, if_neg]
    intro hempty
    obtain ⟨first, rest, rfl⟩ := List.exists_cons_of_ne_nil hnil
    have hfirst := hsegments first List.mem_cons_self
    have hhead := @head?_join rest "/" '/' first toList_slash hfirst
    rw [hempty] at hhead
    exact hfirst (by simpa using hhead.symm)

/-- A path whose segments decode to those of a directory and a name leads to the entry. -/
theorem resolve_entry {link : String} {decoded : List String}
    (hlen : len link ≤ policy.maxPathLen) (hresolves : Resolves policy path decoded)
    (hsegments : rawSegments link = rawSegments path ++ [percentEncodePathSegment name])
    (hseparator : '/' ∉ name.toList) (hdot : name ≠ ".") (hparent : name ≠ "..")
    (hpermitted : rejectReasonForSegment name policy = none)
    (htrailing : (stripQueryAndFragment link).toList.getLast? = some '/' ↔ trailingSlash = true) :
    resolveRequestPath link policy =
      .ok (entryPath (join (decoded.filter (· ≠ ".")) "/") name) trailingSlash := by
  have hdecodes : Resolves policy link (decoded ++ [name]) := by
    constructor
    · rw [hsegments]
      exact List.rel_append hresolves.decodes (.cons (decodesTo_percentEncode hseparator) .nil)
    · intro segment hsegment
      rcases List.mem_append.mp hsegment with hfront | hback
      · exact hresolves.permitted segment hfront
      · rw [List.mem_singleton.mp hback]
        exact ⟨hparent, Or.inr hpermitted⟩
  have hrelative : join ((decoded ++ [name]).filter (· ≠ ".")) "/" =
      entryPath (join (decoded.filter (· ≠ ".")) "/") name := by
    rw [List.filter_append, List.filter_cons_of_pos (by simpa using hdot), List.filter_nil]
    exact join_entry fun segment hsegment => (hresolves.safe segment hsegment).nonempty
  obtain ⟨trailing, hresolve⟩ := resolves_iff.mpr ⟨hlen, _, hdecodes, hrelative.symm⟩
  have hslash := resolve_trailing hresolve
  have hsame : trailing = trailingSlash := by
    rw [hslash, Bool.eq_iff_iff, beq_iff_eq, htrailing]
  rw [hresolve, hsame]

/-- The link of an entry in a listing leads to the entry, with and without a slash. -/
theorem listing_link_resolves (hpath : resolveRequestPath path policy = .ok relative trailingSlash)
    (hquery : '?' ∉ path.toList) (hfragment : '#' ∉ path.toList)
    (hslash : path.toList.getLast? = some '/') (hname : name ≠ "")
    (hseparator : '/' ∉ name.toList) (hdot : name ≠ ".") (hparent : name ≠ "..")
    (hpermitted : rejectReasonForSegment name policy = none) :
    (len (path ++ percentEncodePathSegment name) ≤ policy.maxPathLen →
      resolveRequestPath (path ++ percentEncodePathSegment name) policy =
        .ok (entryPath relative name) false) ∧
    (len (path ++ percentEncodePathSegment name ++ "/") ≤ policy.maxPathLen →
      resolveRequestPath (path ++ percentEncodePathSegment name ++ "/") policy =
        .ok (entryPath relative name) true) := by
  obtain ⟨-, decoded, hresolves, rfl⟩ := resolves_iff.mp ⟨trailingSlash, hpath⟩
  obtain ⟨directory, rfl⟩ : ∃ directory, path = directory ++ "/" := by
    obtain ⟨front, hfront⟩ := List.getLast?_eq_some_iff.mp hslash
    refine ⟨String.ofList front, String.toList_inj.mp ?_⟩
    rw [String.toList_append, String.toList_ofList, toList_slash, hfront]
  have huncut : ∀ c ∈ (directory ++ "/").toList, isCut c = false := by
    intro c hc
    rw [isCut]
    rw [Bool.or_eq_false_iff, beq_eq_false_iff_ne, beq_eq_false_iff_ne]
    exact ⟨fun h => hquery (h ▸ hc), fun h => hfragment (h ▸ hc)⟩
  have hdirectory : ∀ c ∈ directory.toList, isCut c = false := by
    intro c hc
    exact huncut c (by
      rw [String.toList_append]
      exact List.mem_append_left _ hc)
  have hsegment := mt percentEncodePathSegment_eq_empty.mp hname
  have hsafe := @percentEncodePathSegment_safe name
  have hsegments := rawSegments_segment hdirectory hsegment hsafe
  rw [← rawSegments_slash hdirectory] at hsegments
  have hlink := uncut_append huncut fun c hc => (hsafe c hc).2
  constructor
  · intro hlen
    apply resolve_entry hlen hresolves hsegments hseparator hdot hparent hpermitted
    refine iff_of_false ?_ Bool.false_ne_true
    rw [stripQueryAndFragment_eq hlink, String.toList_append,
      List.getLast?_append_of_ne_nil _ (by simpa using hsegment)]
    exact fun hlast => (hsafe _ (List.mem_of_getLast? hlast)).1 rfl
  · intro hlen
    refine resolve_entry hlen hresolves ((rawSegments_slash hlink).trans hsegments) hseparator
      hdot hparent hpermitted ?_
    refine iff_of_true ?_ rfl
    rw [stripQueryAndFragment_eq (uncut_append hlink uncut_slash), String.toList_append,
      toList_slash, List.getLast?_append_of_ne_nil _ (List.cons_ne_nil _ _)]
    rfl

end Links

/-- A name that would be cut, split and unescaped if it were not encoded. -/
theorem listing_link_resolves_question :
    resolveRequestPath ("/a%20b/./" ++ percentEncodePathSegment "50% off? #1.txt") ⟨false, 4096⟩ =
        .ok "a b/50% off? #1.txt" false ∧
      resolveRequestPath ("/a%20b/./" ++ percentEncodePathSegment "50% off? #1.txt" ++ "/")
        ⟨false, 4096⟩ = .ok "a b/50% off? #1.txt" true := by
  have hpath : resolveRequestPath "/a%20b/./" ⟨false, 4096⟩ = .ok "a b" true := by decide
  obtain ⟨hfile, hdirectory⟩ := @listing_link_resolves ⟨false, 4096⟩ "/a%20b/./"
    "50% off? #1.txt" "a b" true hpath (by decide) (by decide) (by decide) (by decide) (by decide)
    (by decide) (by decide) (by decide)
  exact ⟨hfile (by decide), hdirectory (by decide)⟩

end EnvoyFiles.Filter
