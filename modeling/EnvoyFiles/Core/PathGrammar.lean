import EnvoyFiles.Core.Path
import EnvoyFiles.Support.Strings

/-!
# The grammar of request paths

What `resolve_request_path` accepts, stated without its loop: every non-empty
segment decodes once to text without a `/`, and the decoded segment passes the
rules.  An accepted path resolves to its decoded segments in order, so nothing
that decoding produces can leave the root.
-/

namespace EnvoyFiles.Path

open Text

/-! ## Percent-decoding -/

/-- A `%` with two hex digits behind it stands for one byte, and every other
byte, that of a malformed escape included, for itself. -/
inductive Unescaped : Bytes → Bytes → Prop where
  | nil : Unescaped [] []
  | escape {high low h l : UInt8} {rest decoded : Bytes} :
      hexDigit high = some h → hexDigit low = some l → Unescaped rest decoded →
      Unescaped (0x25 :: high :: low :: rest) ((h * 16 + l) :: decoded)
  | literal {b : UInt8} {rest decoded : Bytes} :
      (∀ high low tail, b = 0x25 → rest = high :: low :: tail →
        hexDigit high = none ∨ hexDigit low = none) →
      Unescaped rest decoded → Unescaped (b :: rest) (b :: decoded)

theorem unescaped_percentDecode (bytes : Bytes) :
    Unescaped bytes (percentDecode bytes) := by
  fun_induction percentDecode bytes with
  | case1 high low rest h l hlow hhigh ih => exact .escape hhigh hlow ih
  | case2 high low rest hmalformed ih =>
      refine .literal ?_ ih
      rintro _ _ _ - ⟨⟩
      by_contra hdigits
      push Not at hdigits
      obtain ⟨hhigh, hlow⟩ := hdigits
      obtain ⟨h, hh⟩ := Option.ne_none_iff_exists'.mp hhigh
      obtain ⟨l, hl⟩ := Option.ne_none_iff_exists'.mp hlow
      exact hmalformed h l hh hl
  | case3 b rest hnot ih =>
      refine .literal ?_ ih
      rintro high low tail rfl rfl
      exact (hnot high low tail rfl rfl).elim
  | case4 => exact .nil

theorem percentDecode_literal {b : UInt8} {rest : Bytes}
    (hmalformed : ∀ high low tail, b = 0x25 → rest = high :: low :: tail →
      hexDigit high = none ∨ hexDigit low = none) :
    percentDecode (b :: rest) = b :: percentDecode rest := by
  generalize hbytes : b :: rest = bytes
  fun_cases percentDecode bytes with
  | case1 high low tail h l hlow hhigh =>
      cases hbytes
      rcases hmalformed high low tail rfl rfl with hnone | hnone
      · cases hhigh.symm.trans hnone
      · cases hlow.symm.trans hnone
  | case2 high low tail _ => cases hbytes; rfl
  | case3 c tail _ => cases hbytes; rfl
  | case4 => cases hbytes

/-- Decoding is determined. -/
theorem Unescaped.unique {bytes decoded : Bytes} (h : Unescaped bytes decoded) :
    decoded = percentDecode bytes := by
  induction h with
  | nil => rfl
  | escape hhigh hlow _ ih => simp only [percentDecode, hhigh, hlow, ih]
  | literal hmalformed _ ih => rw [percentDecode_literal hmalformed, ih]

theorem unescaped_iff {bytes decoded : Bytes} :
    Unescaped bytes decoded ↔ decoded = percentDecode bytes := by
  constructor
  · exact Unescaped.unique
  · rintro rfl
    exact unescaped_percentDecode bytes

/-- Somewhere in the bytes a `%` has two hex digits behind it. -/
def HasEscape (bytes : Bytes) : Prop :=
  ∃ high low, [0x25, high, low] <:+: bytes ∧ hexDigit high ≠ none ∧ hexDigit low ≠ none

theorem Unescaped.length_le {bytes decoded : Bytes} (h : Unescaped bytes decoded) :
    decoded.length ≤ bytes.length := by
  induction h with
  | nil => exact Nat.le_refl _
  | escape _ _ _ ih =>
      simp only [List.length_cons]
      omega
  | literal _ _ ih =>
      simp only [List.length_cons]
      omega

/-- An escape makes the decoded bytes fewer. -/
theorem Unescaped.length_lt {bytes decoded : Bytes} (h : Unescaped bytes decoded)
    (hescape : HasEscape bytes) : decoded.length < bytes.length := by
  obtain ⟨high, low, hpart, hhigh, hlow⟩ := hescape
  induction h with
  | nil => nomatch List.infix_nil.mp hpart
  | escape _ _ hrest _ =>
      have hle := hrest.length_le
      simp only [List.length_cons]
      omega
  | literal hmalformed _ ih =>
      rcases List.infix_cons_iff.mp hpart with hfront | hlater
      · obtain ⟨hpercent, tail, htail⟩ := List.cons_prefix_cons.mp hfront
        rcases hmalformed high low tail hpercent.symm htail.symm with hnone | hnone
        · exact absurd hnone hhigh
        · exact absurd hnone hlow
      · have hlt := ih hlater
        simp only [List.length_cons]
        omega

/-- Bytes are their own decoding exactly if they hold no escape. -/
theorem unescaped_self_iff {bytes : Bytes} : Unescaped bytes bytes ↔ ¬HasEscape bytes := by
  constructor
  · intro h hescape
    exact absurd (h.length_lt hescape) (Nat.lt_irrefl _)
  · intro hnone
    induction bytes with
    | nil => exact .nil
    | cons b rest ih =>
        refine .literal ?_ (ih ?_)
        · rintro high low tail rfl rfl
          by_contra hdigits
          rw [not_or] at hdigits
          exact hnone ⟨high, low, (List.prefix_append [0x25, high, low] tail).isInfix, hdigits⟩
        · rintro ⟨high, low, hpart, hdigits⟩
          exact hnone ⟨high, low, hpart.trans (List.suffix_cons b rest).isInfix, hdigits⟩

/-! ## Segments -/

/-- A raw segment decodes to text in which no separator has appeared. -/
structure DecodesTo (raw decoded : String) : Prop where
  bytes : Unescaped (asBytes raw) (asBytes decoded)
  noSeparator : '/' ∉ decoded.toList

/-- A decoded segment that is skipped or passes the rules. -/
def Permitted (policy : PathPolicy) (decoded : String) : Prop :=
  decoded ≠ ".." ∧
    (decoded = "." ∨ rejectReasonForSegment decoded policy = none)

/-- The non-empty raw segments of a request path. -/
def rawSegments (rawPath : String) : List String :=
  (split (stripQueryAndFragment rawPath) '/').filter fun raw => !raw.isEmpty

theorem percentDecodeSegment_eq_ok {raw decoded : String} :
    percentDecodeSegment raw = .ok decoded ↔ DecodesTo raw decoded := by
  have hutf8 {s : String} : fromUtf8 (percentDecode (asBytes raw)) = some s ↔
      Unescaped (asBytes raw) (asBytes s) := by
    rw [fromUtf8_eq_some, unescaped_iff]
  rw [percentDecodeSegment]
  split
  · next hnone =>
      constructor
      · nofun
      · intro h
        rw [hutf8.mpr h.bytes] at hnone
        cases hnone
  · next s hs =>
      split
      · next hslash =>
          constructor
          · nofun
          · intro h
            rw [hutf8.mpr h.bytes] at hs
            cases hs
            exact absurd hslash h.noSeparator
      · next hslash =>
          rw [Except.ok.injEq]
          constructor
          · rintro rfl
            exact ⟨hutf8.mp hs, hslash⟩
          · intro h
            rw [hutf8.mpr h.bytes] at hs
            exact (Option.some.inj hs).symm

/-- The bytes of a raw segment determine what it decodes to. -/
theorem DecodesTo.unique {raw decoded decoded' : String}
    (h : DecodesTo raw decoded) (h' : DecodesTo raw decoded') :
    decoded = decoded' :=
  asBytes_injective (h.bytes.unique.trans h'.bytes.unique.symm)

/-- Nothing decodes to nothing only. -/
theorem DecodesTo.ne_empty {raw decoded : String} (h : DecodesTo raw decoded)
    (hraw : raw ≠ "") : decoded ≠ "" := by
  rintro rfl
  have hbytes := h.bytes
  rw [asBytes_eq_nil.mpr rfl] at hbytes
  generalize hraw' : asBytes raw = bytes at hbytes
  cases hbytes
  exact hraw (asBytes_eq_nil.mp hraw')

/-- One round of the loop on a segment that is not empty. -/
theorem resolveSegments_cons {policy : PathPolicy} {resolved out : List String}
    {raw : String} {rest : List String} (hraw : raw ≠ "") :
    resolveSegments policy resolved (raw :: rest) = .ok out ↔
      ∃ decoded, DecodesTo raw decoded ∧ Permitted policy decoded ∧
        resolveSegments policy (resolved ++ [decoded].filter (· ≠ ".")) rest =
          .ok out := by
  have hempty : ¬raw.isEmpty = true := by simpa using hraw
  rw [resolveSegments, if_neg hempty]
  split
  · next reason hdecode =>
      constructor
      · nofun
      · rintro ⟨decoded, hdecoded, -⟩
        rw [percentDecodeSegment_eq_ok.mpr hdecoded] at hdecode
        cases hdecode
  · next decoded hdecode =>
      have hdecoded := percentDecodeSegment_eq_ok.mp hdecode
      -- The decoded segment is the only candidate.
      have hunique {P : String → Prop} :
          (∃ other, DecodesTo raw other ∧ P other) ↔ P decoded := by
        constructor
        · rintro ⟨other, hother, h⟩
          rwa [hdecoded.unique hother]
        · exact fun h => ⟨decoded, hdecoded, h⟩
      rw [hunique]
      rw [Permitted]
      by_cases hdot : decoded = "."
      · subst hdot
        simp
      · rw [if_neg hdot]
        by_cases hdotdot : decoded = ".."
        · simp [hdotdot]
        · rw [if_neg hdotdot]
          cases hreject : rejectReasonForSegment decoded policy with
          | some reason => simp [hdot, hdotdot]
          | none => simp [hdot, hdotdot]

/-- The loop accepts where every segment that is left is in the grammar. -/
theorem resolveSegments_eq_ok {policy : PathPolicy} {resolved out : List String}
    {raws : List String} :
    resolveSegments policy resolved raws = .ok out ↔
      ∃ decoded, List.Forall₂ DecodesTo (raws.filter fun raw => !raw.isEmpty) decoded ∧
        (∀ segment ∈ decoded, Permitted policy segment) ∧
        out = resolved ++ decoded.filter (· ≠ ".") := by
  induction raws generalizing resolved with
  | nil =>
      constructor
      · rintro ⟨⟩
        exact ⟨[], .nil, nofun, (List.append_nil _).symm⟩
      · rintro ⟨decoded, hdecoded, -, rfl⟩
        cases hdecoded
        simp [resolveSegments]
  | cons raw rest ih =>
      by_cases hempty : raw = ""
      · rw [resolveSegments, if_pos (by simp [hempty]), ih,
          List.filter_cons_of_neg (by simp [hempty])]
      · rw [resolveSegments_cons hempty, List.filter_cons_of_pos (by simpa using hempty)]
        constructor
        · rintro ⟨first, hfirst, hpermitted, hrest⟩
          obtain ⟨decoded, hdecoded, hall, rfl⟩ := ih.mp hrest
          refine ⟨first :: decoded, .cons hfirst hdecoded, ?_, ?_⟩
          · intro segment hsegment
            rcases List.mem_cons.mp hsegment with rfl | hsegment
            · exact hpermitted
            · exact hall segment hsegment
          · rw [List.append_assoc, ← List.filter_append, List.singleton_append]
        · rintro ⟨decoded, hdecoded, hall, rfl⟩
          cases hdecoded with
          | @cons _ first _ decoded hfirst hdecoded =>
              refine ⟨first, hfirst, hall first List.mem_cons_self, ih.mpr ?_⟩
              refine ⟨decoded, hdecoded, fun segment hsegment =>
                hall segment (List.mem_cons_of_mem _ hsegment), ?_⟩
              rw [List.append_assoc, ← List.filter_append, List.singleton_append]

/-! ## Safe paths -/

/-- A path component that cannot lead out of its directory or name something
special in it. -/
structure SafeComponent (policy : PathPolicy) (component : String) : Prop where
  nonempty : component ≠ ""
  notDot : component ≠ "."
  notDotDot : component ≠ ".."
  noSeparator : '/' ∉ component.toList
  characters : ∀ c ∈ component.toList, c ≠ '\\' ∧ c ≠ ':' ∧ 0x20 ≤ c.toNat
  ending : component.toList.getLast? ≠ some '.' ∧ component.toList.getLast? ≠ some ' '
  dotfile : policy.serveDotfiles = false → component.toList.head? ≠ some '.'

/-- A relative path that stays below the directory it is joined to. -/
structure SafeRelative (policy : PathPolicy) (relative : String) : Prop where
  notAbsolute : relative.toList.head? ≠ some '/'
  characters : ∀ c ∈ relative.toList, c ≠ '\\' ∧ c ≠ ':' ∧ 0x20 ≤ c.toNat
  components : relative ≠ "" →
    ∀ component ∈ split relative '/', SafeComponent policy component

/-- The rules that a segment without a rejection reason passes. -/
theorem rejectReasonForSegment_eq_none {policy : PathPolicy} {segment : String}
    (h : rejectReasonForSegment segment policy = none) :
    (∀ c ∈ segment.toList, isBadCharacter c = false) ∧
      (segment.toList.getLast? ≠ some '.' ∧ segment.toList.getLast? ≠ some ' ') ∧
      (policy.serveDotfiles = false → segment.toList.head? ≠ some '.') ∧
      isWindowsReservedName segment = false := by
  rw [rejectReasonForSegment] at h
  split at h
  · cases h
  · next hcharacters =>
      split at h
      · cases h
      · next hending =>
          split at h
          · cases h
          · next hdotfile =>
              split at h
              · cases h
              · next hreserved =>
                  refine ⟨?_, not_or.mp hending, fun hserve hhead => hdotfile ?_, ?_⟩
                  · simpa using hcharacters
                  · simp [hserve, hhead]
                  · simpa using hreserved

theorem Permitted.safe {policy : PathPolicy} {raw decoded : String}
    (hdecodes : DecodesTo raw decoded) (hraw : raw ≠ "")
    (hpermitted : Permitted policy decoded) (hdot : decoded ≠ ".") :
    SafeComponent policy decoded := by
  obtain ⟨hdotdot, hskip | hrules⟩ := hpermitted
  · exact absurd hskip hdot
  obtain ⟨hcharacters, hending, hdotfile, -⟩ := rejectReasonForSegment_eq_none hrules
  refine ⟨hdecodes.ne_empty hraw, hdot, hdotdot, hdecodes.noSeparator, ?_, hending,
    hdotfile⟩
  intro c hc
  have hgood := hcharacters c hc
  simp only [isBadCharacter, Bool.or_eq_false_iff, beq_eq_false_iff_ne,
    decide_eq_false_iff_not, Nat.not_lt] at hgood
  exact ⟨hgood.1.1, hgood.1.2, hgood.2⟩

/-- Joining safe components makes a safe path. -/
theorem safeRelative_join {policy : PathPolicy} {segments : List String}
    (h : ∀ segment ∈ segments, SafeComponent policy segment) :
    SafeRelative policy (join segments "/") ∧
      (segments ≠ [] → split (join segments "/") '/' = segments) := by
  have hsplit : segments ≠ [] → split (join segments "/") '/' = segments := by
    intro hne
    exact split_join rfl hne fun segment hsegment => (h segment hsegment).noSeparator
  refine ⟨⟨?_, ?_, ?_⟩, hsplit⟩
  · cases segments with
    | nil => nofun
    | cons first rest =>
        have hfirst := h first List.mem_cons_self
        rw [head?_join rfl hfirst.nonempty]
        intro hhead
        exact hfirst.noSeparator (List.mem_of_head? hhead)
  · intro c hc
    rcases mem_join rfl hc with rfl | ⟨segment, hsegment, hmem⟩
    · decide
    · exact (h segment hsegment).characters c hmem
  · intro hne component hcomponent
    rw [hsplit (by rintro rfl; exact hne rfl)] at hcomponent
    exact h component hcomponent

/-! ## The resolver -/

/-- A path is accepted where the loop accepts its segments. -/
theorem resolveRequestPath_eq_ok {rawPath : String} {policy : PathPolicy}
    {relative : String} :
    (∃ trailingSlash, resolveRequestPath rawPath policy = .ok relative trailingSlash) ↔
      len rawPath ≤ policy.maxPathLen ∧
        ∃ resolved, resolveSegments policy []
          (split (stripQueryAndFragment rawPath) '/') = .ok resolved ∧
            relative = join resolved "/" := by
  rw [resolveRequestPath]
  split
  · next hlen =>
      constructor
      · rintro ⟨trailingSlash, h⟩
        cases h
      · rintro ⟨hle, -⟩
        exact absurd hle (Nat.not_le.mpr hlen)
  · next hlen =>
      simp only
      split
      · next reason hreason =>
          constructor
          · rintro ⟨trailingSlash, h⟩
            cases h
          · rintro ⟨-, resolved, hresolved, -⟩
            cases hreason.symm.trans hresolved
      · next resolved hresolved =>
          constructor
          · rintro ⟨trailingSlash, h⟩
            cases h
            exact ⟨Nat.not_lt.mp hlen, resolved, hresolved, rfl⟩
          · rintro ⟨-, resolved', hresolved', rfl⟩
            cases hresolved.symm.trans hresolved'
            exact ⟨_, rfl⟩

/-- Whether there is a trailing slash is read off the raw path. -/
theorem resolve_trailing {rawPath : String} {policy : PathPolicy} {relative : String}
    {trailingSlash : Bool} (h : resolveRequestPath rawPath policy = .ok relative trailingSlash) :
    trailingSlash = ((stripQueryAndFragment rawPath).toList.getLast? == some '/') := by
  rw [resolveRequestPath] at h
  split at h
  · nomatch h
  · dsimp only at h
    split at h
    · nomatch h
    · cases h
      rfl

/-- The decoded segments of an accepted path. -/
structure Resolves (policy : PathPolicy) (rawPath : String)
    (decoded : List String) : Prop where
  decodes : List.Forall₂ DecodesTo (rawSegments rawPath) decoded
  permitted : ∀ segment ∈ decoded, Permitted policy segment

theorem resolves_iff {rawPath : String} {policy : PathPolicy} {relative : String} :
    (∃ trailingSlash, resolveRequestPath rawPath policy = .ok relative trailingSlash) ↔
      len rawPath ≤ policy.maxPathLen ∧
        ∃ decoded, Resolves policy rawPath decoded ∧
          relative = join (decoded.filter (· ≠ ".")) "/" := by
  rw [resolveRequestPath_eq_ok]
  refine and_congr_right fun _ => ?_
  constructor
  · rintro ⟨resolved, hresolved, rfl⟩
    obtain ⟨decoded, hdecodes, hpermitted, rfl⟩ := resolveSegments_eq_ok.mp hresolved
    exact ⟨decoded, ⟨hdecodes, hpermitted⟩, rfl⟩
  · rintro ⟨decoded, hresolves, rfl⟩
    refine ⟨_, resolveSegments_eq_ok.mpr ?_, rfl⟩
    exact ⟨decoded, hresolves.decodes, hresolves.permitted, rfl⟩

/-- Every segment has a decoding exactly where there is a list of decodings. -/
theorem resolves_exists_iff {policy : PathPolicy} {rawPath : String} :
    (∃ decoded, Resolves policy rawPath decoded) ↔
      ∀ raw ∈ rawSegments rawPath,
        ∃ decoded, DecodesTo raw decoded ∧ Permitted policy decoded := by
  have hlists (raws : List String) :
      (∃ decoded, List.Forall₂ DecodesTo raws decoded ∧
        ∀ segment ∈ decoded, Permitted policy segment) ↔
      ∀ raw ∈ raws, ∃ decoded, DecodesTo raw decoded ∧ Permitted policy decoded := by
    induction raws with
    | nil => exact ⟨fun _ => nofun, fun _ => ⟨[], .nil, nofun⟩⟩
    | cons raw rest ih =>
        rw [List.forall_mem_cons, ← ih]
        constructor
        · rintro ⟨_, hdecodes, hall⟩
          cases hdecodes with
          | cons hfirst hrest =>
              rw [List.forall_mem_cons] at hall
              exact ⟨⟨_, hfirst, hall.1⟩, _, hrest, hall.2⟩
        · rintro ⟨⟨first, hfirst, hpermitted⟩, decoded, hrest, hall⟩
          exact ⟨first :: decoded, .cons hfirst hrest,
            List.forall_mem_cons.mpr ⟨hpermitted, hall⟩⟩
  rw [← hlists]
  constructor
  · rintro ⟨decoded, hresolves⟩
    exact ⟨decoded, hresolves.decodes, hresolves.permitted⟩
  · rintro ⟨decoded, hdecodes, hpermitted⟩
    exact ⟨decoded, hdecodes, hpermitted⟩

/-- The segments an accepted path keeps are safe. -/
theorem Resolves.safe {policy : PathPolicy} {rawPath : String}
    {decoded : List String} (h : Resolves policy rawPath decoded) :
    ∀ segment ∈ decoded.filter (· ≠ "."), SafeComponent policy segment := by
  intro segment hsegment
  obtain ⟨hmem, hdot⟩ := List.mem_filter.mp hsegment
  obtain ⟨raw, hraw, hdecodes⟩ := forall₂_mem_right h.decodes hmem
  have hne : raw ≠ "" := by
    simpa using (List.mem_filter.mp hraw).2
  exact Permitted.safe hdecodes hne (h.permitted segment hmem) (by simpa using hdot)

/-- A request path is accepted exactly where it is within the length limit and
each of its segments is in the grammar.  It resolves to its decoded segments
other than `.`, in order, which splitting gives back where there are any, and
the result is safe. -/
theorem resolver_accepts_its_grammar (rawPath : String) (policy : PathPolicy) :
    ((∃ relative trailingSlash,
        resolveRequestPath rawPath policy = .ok relative trailingSlash) ↔
      len rawPath ≤ policy.maxPathLen ∧
        ∀ raw ∈ rawSegments rawPath,
          ∃ decoded, DecodesTo raw decoded ∧ Permitted policy decoded) ∧
    ∀ relative trailingSlash,
      resolveRequestPath rawPath policy = .ok relative trailingSlash →
        ∃ decoded, List.Forall₂ DecodesTo (rawSegments rawPath) decoded ∧
          relative = join (decoded.filter (· ≠ ".")) "/" ∧
          (decoded.filter (· ≠ ".") ≠ [] →
            split relative '/' = decoded.filter (· ≠ ".")) ∧
          SafeRelative policy relative := by
  constructor
  · constructor
    · rintro ⟨relative, haccepted⟩
      obtain ⟨hlen, decoded, hresolves, -⟩ := resolves_iff.mp haccepted
      exact ⟨hlen, resolves_exists_iff.mp ⟨decoded, hresolves⟩⟩
    · rintro ⟨hlen, hsegments⟩
      obtain ⟨decoded, hresolves⟩ := resolves_exists_iff.mpr hsegments
      exact ⟨_, resolves_iff.mpr ⟨hlen, decoded, hresolves, rfl⟩⟩
  · intro relative trailingSlash haccepted
    obtain ⟨-, decoded, hresolves, rfl⟩ := resolves_iff.mp ⟨trailingSlash, haccepted⟩
    obtain ⟨hsafe, hsplit⟩ := safeRelative_join hresolves.safe
    exact ⟨decoded, hresolves.decodes, rfl, hsplit, hsafe⟩

theorem resolver_accepts_its_grammar_escaped_space :
    resolveRequestPath "/docs/./a%20b?x" ⟨false, 4096⟩ = .ok "docs/a b" false ∧
      SafeRelative ⟨false, 4096⟩ "docs/a b" := by
  have haccepted : resolveRequestPath "/docs/./a%20b?x" ⟨false, 4096⟩ =
      .ok "docs/a b" false := by
    decide
  obtain ⟨decoded, -, -, -, hsafe⟩ :=
    (resolver_accepts_its_grammar _ _).2 _ _ haccepted
  exact ⟨haccepted, hsafe⟩

/-- The path of the root has no segment, but splitting the empty string gives
one empty piece. -/
theorem root_path_splits_into_an_empty_piece :
    ¬∀ (rawPath : String) (policy : PathPolicy) (relative : String)
        (trailingSlash : Bool),
      resolveRequestPath rawPath policy = .ok relative trailingSlash →
        ∃ decoded, List.Forall₂ DecodesTo (rawSegments rawPath) decoded ∧
          split relative '/' = decoded.filter (· ≠ ".") := by
  intro hsplits
  have hroot : resolveRequestPath "/" ⟨false, 4096⟩ = .ok "" true := by
    decide
  obtain ⟨decoded, hdecodes, hsplit⟩ := hsplits _ _ _ _ hroot
  have hraw : rawSegments "/" = [] := by decide
  rw [hraw] at hdecodes
  cases hdecodes
  have hpiece : split "" '/' = [""] := by decide
  rw [hpiece] at hsplit
  cases hsplit

end EnvoyFiles.Path
