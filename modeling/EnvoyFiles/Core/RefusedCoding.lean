import EnvoyFiles.Core.EncodingRanks
import EnvoyFiles.Core.RangeGrammar

/-!
# Refused codings

The grammar of an `Accept-Encoding` header (RFC 9110 §12.5.3), in which the name of the
weight is `q` or `Q`.  The parser looks for `q=` only, so it gives an element with
`Q=0` the weight of an element without one.
-/

namespace EnvoyFiles.Encoding

open Text
open Range

/-! ## The grammar -/

def IsOws (text : String) : Prop :=
  ∀ c ∈ text.toList, c = ' ' ∨ c = '\t'

def isTchar (c : Char) : Bool :=
  c.isAlphanum || "!#$%&'*+-.^_`|~".toList.contains c

def IsToken (text : String) : Prop :=
  text ≠ "" ∧ ∀ c ∈ text.toList, isTchar c = true

/-- A weight from `0` to `1` with at most three decimals. -/
inductive IsQvalue : String → Prop where
  | zero : IsQvalue "0"
  | fraction {digits : String} : digits.toList.length ≤ 3 →
      (∀ c ∈ digits.toList, isAsciiDigit c = true) → IsQvalue ("0." ++ digits)
  | one : IsQvalue "1"
  | oneFraction {zeros : String} : zeros.toList.length ≤ 3 → (∀ c ∈ zeros.toList, c = '0') →
      IsQvalue ("1." ++ zeros)

/-- The weights of zero. -/
inductive IsZeroQvalue : String → Prop where
  | zero : IsZeroQvalue "0"
  | fraction {zeros : String} : (∀ c ∈ zeros.toList, c = '0') → IsZeroQvalue ("0." ++ zeros)

/-- A coding with the name and the value of its weight. -/
structure Element where
  coding : String
  weight : Option (String × String)

inductive IsElement : String → Element → Prop where
  | plain {coding : String} : IsToken coding → IsElement coding ⟨coding, none⟩
  | weighted {coding before after param qvalue : String} : IsToken coding → IsOws before →
      IsOws after → param = "q" ∨ param = "Q" → IsQvalue qvalue →
      IsElement (coding ++ (before ++ ";" ++ after ++ param ++ "=") ++ qvalue)
        ⟨coding, some (param, qvalue)⟩

/-- The pieces between the commas hold the elements, or nothing. -/
inductive IsList : List String → List Element → Prop where
  | nil : IsList [] []
  | blank {piece : String} {pieces : List String} {elements : List Element} :
      IsOws piece → IsList pieces elements → IsList (piece :: pieces) elements
  | element {before text after : String} {element : Element} {pieces : List String}
      {elements : List Element} :
      IsOws before → IsElement text element → IsOws after → IsList pieces elements →
      IsList ((before ++ text ++ after) :: pieces) (element :: elements)

/-! ## The characters of the grammar -/

theorem IsOws.space {text : String} (h : IsOws text) :
    ∀ c ∈ text.toList, isWhiteSpace c = true := by
  intro c hc
  rcases h c hc with rfl | rfl
  · decide
  · decide

theorem IsOws.not_semicolon {text : String} (h : IsOws text) : ';' ∉ text.toList := by
  intro hc
  rcases h _ hc with heq | heq
  · nomatch heq
  · nomatch heq

theorem isTchar_solid {c : Char} (h : isTchar c = true) : isWhiteSpace c = false := by
  simp only [isTchar, Bool.or_eq_true, List.contains_iff_mem] at h
  rcases h with halnum | hmark
  · simp only [Char.isAlphanum, Char.isAlpha, Char.isUpper, Char.isLower, Char.isDigit,
      Bool.or_eq_true, Bool.and_eq_true, decide_eq_true_eq, ge_iff_le, UInt32.le_iff_toNat_le]
      at halnum
    simp only [isWhiteSpace, Bool.or_eq_false_iff, Bool.and_eq_false_iff,
      decide_eq_false_iff_not, beq_eq_false_iff_ne, Char.toNat]
    have hbounds : 48 ≤ c.val.toNat ∧ c.val.toNat ≤ 122 := by
      rcases halnum with (h | h) | h
      · exact ⟨le_trans (by decide) h.1, le_trans h.2 (by decide)⟩
      · exact ⟨le_trans (by decide) h.1, le_trans h.2 (by decide)⟩
      · exact ⟨le_trans (by decide) h.1, le_trans h.2 (by decide)⟩
    omega
  · have hall : ∀ c ∈ "!#$%&'*+-.^_`|~".toList, isWhiteSpace c = false :=
      forall_chars (by decide)
    exact hall c hmark

theorem IsToken.solid {text : String} (h : IsToken text) :
    ∀ c ∈ text.toList, isWhiteSpace c = false :=
  fun c hc => isTchar_solid (h.2 c hc)

theorem IsToken.not_semicolon {text : String} (h : IsToken text) : ';' ∉ text.toList := by
  intro hc
  exact absurd (h.2 _ hc) (by decide)

theorem IsQvalue.chars {qvalue : String} (h : IsQvalue qvalue) :
    ∀ c ∈ qvalue.toList, isAsciiDigit c = true ∨ c = '.' := by
  intro c hc
  cases h with
  | zero =>
      left
      rw [List.mem_singleton.mp hc]
      decide
  | fraction _ hdigits =>
      have hstart : ∀ c ∈ "0.".toList, isAsciiDigit c = true ∨ c = '.' :=
        forall_chars (by decide)
      rw [String.toList_append] at hc
      rcases List.mem_append.mp hc with hc | hc
      · exact hstart c hc
      · exact Or.inl (hdigits c hc)
  | one =>
      left
      rw [List.mem_singleton.mp hc]
      decide
  | oneFraction _ hzeros =>
      have hstart : ∀ c ∈ "1.".toList, isAsciiDigit c = true ∨ c = '.' :=
        forall_chars (by decide)
      rw [String.toList_append] at hc
      rcases List.mem_append.mp hc with hc | hc
      · exact hstart c hc
      · left
        rw [hzeros c hc]
        decide

theorem IsQvalue.ne_empty {qvalue : String} (h : IsQvalue qvalue) : qvalue ≠ "" := by
  cases h with
  | zero => decide
  | fraction => simp
  | one => decide
  | oneFraction => simp

theorem IsQvalue.solid {qvalue : String} (h : IsQvalue qvalue) :
    ∀ c ∈ qvalue.toList, isWhiteSpace c = false := by
  intro c hc
  rcases h.chars c hc with hdigit | rfl
  · exact Range.isAsciiDigit_solid hdigit
  · decide

theorem IsQvalue.not_semicolon {qvalue : String} (h : IsQvalue qvalue) :
    ';' ∉ qvalue.toList := by
  intro hc
  rcases h.chars _ hc with hdigit | heq
  · exact absurd hdigit (by decide)
  · nomatch heq

theorem IsElement.ne_empty {text : String} {element : Element} (h : IsElement text element) :
    text ≠ "" := by
  cases h with
  | plain hcoding => exact hcoding.1
  | weighted hcoding => simp [hcoding.1]

/-- The white space around an element is not part of it. -/
theorem IsElement.bare {text : String} {element : Element} (h : IsElement text element) :
    Bare text := by
  cases h with
  | plain hcoding => exact bare_of_solid hcoding.solid
  | weighted hcoding _ _ _ hqvalue =>
      exact Bare.append (bare_of_solid hcoding.solid) (bare_of_solid hqvalue.solid) hcoding.1
        hqvalue.ne_empty _

/-! ## What is read -/

section Reading

variable {crates : Crates} {pieces : List String} {elements : List Element}
  {entries : List (AcceptEncodingEntry crates)}

/-- What parsing and comparing with zero do on the weights of the grammar. -/
structure ReadsQvalues (crates : Crates) : Prop where
  one : crates.weightPos crates.oneWeight = true
  parses : ∀ {qvalue : String}, IsQvalue qvalue → ∃ q, crates.parseWeight qvalue = some q ∧
    (crates.weightPos q = true ↔ ¬IsZeroQvalue qvalue)

/-- The entry has the name of the element, and a weight above zero unless the element has a
`q` of zero. -/
structure ReadAs (element : Element) (entry : AcceptEncodingEntry crates) : Prop where
  name : entry.name = element.coding
  positive : crates.weightPos entry.q = true ↔
    ∀ qvalue, element.weight = some ("q", qvalue) → ¬IsZeroQvalue qvalue

theorem parseQ_param (hcrates : ReadsQvalues crates) {before param qvalue : String}
    (hbefore : IsOws before) (hparam : param = "q" ∨ param = "Q") (hqvalue : IsQvalue qvalue) :
    ∃ q, parseQ crates crates.oneWeight [before ++ (param ++ "=" ++ qvalue)] = some q ∧
      (crates.weightPos q = true ↔ param = "q" → ¬IsZeroQvalue qvalue) := by
  have hbare : Bare (param ++ "=" ++ qvalue) := by
    refine Bare.append ?_ (bare_of_solid hqvalue.solid) ?_ hqvalue.ne_empty "="
    · apply bare_of_solid
      rcases hparam with rfl | rfl
      · exact forall_chars (by decide)
      · exact forall_chars (by decide)
    · rcases hparam with rfl | rfl <;> decide
  have htrim : trim (before ++ (param ++ "=" ++ qvalue)) = param ++ "=" ++ qvalue := by
    have hpadded := @trim_padded _ before "" hbefore.space nofun hbare
    rwa [String.append_empty] at hpadded
  rcases hparam with rfl | rfl
  · obtain ⟨q, hq, hpositive⟩ := hcrates.parses hqvalue
    refine ⟨q, ?_, ?_⟩
    · have hstrip : stripPrefix ("q" ++ "=" ++ qvalue) "q=" = some qvalue := stripPrefix_append
      simp only [parseQ, htrim, hstrip, trim_of_solid hqvalue.solid, hq]
    · rw [hpositive]
      exact ⟨fun h _ => h, fun h => h rfl⟩
  · refine ⟨crates.oneWeight, ?_, ?_⟩
    · have hstrip : stripPrefix ("Q" ++ "=" ++ qvalue) "q=" = none := by
        simp [stripPrefix]
      simp only [parseQ, htrim, hstrip]
    · exact iff_of_true hcrates.one fun h => absurd h (by decide)

/-- One piece with an element. -/
theorem parseItems_element (hcrates : ReadsQvalues crates) {before text after : String}
    {element : Element} (hbefore : IsOws before) (helement : IsElement text element)
    (hafter : IsOws after) :
    ∃ entry : AcceptEncodingEntry crates, ReadAs element entry ∧
      ∀ pieces, parseItems crates ((before ++ text ++ after) :: pieces) =
        (parseItems crates pieces).map (entry :: ·) := by
  have htrim := trim_padded hbefore.space hafter.space helement.bare
  have hsome : text.isEmpty = false := by simpa using helement.ne_empty
  cases helement with
  | plain hcoding =>
      refine ⟨⟨text, crates.oneWeight⟩, ⟨rfl, iff_of_true hcrates.one nofun⟩, ?_⟩
      intro pieces
      simp only [parseItems, htrim, hsome, split_of_not_mem hcoding.not_semicolon,
        trim_of_solid hcoding.solid, parseQ]
      cases parseItems crates pieces <;> rfl
  | @weighted coding before' after' param qvalue hcoding hbefore' hafter' hparam hqvalue =>
      obtain ⟨q, hq, hpositive⟩ := parseQ_param hcrates hafter' hparam hqvalue
      have hsplit : split (coding ++ (before' ++ ";" ++ after' ++ param ++ "=") ++ qvalue) ';' =
          [coding ++ before', after' ++ (param ++ "=" ++ qvalue)] := by
        have hname : ';' ∉ (coding ++ before').toList := by
          simp [hcoding.not_semicolon, hbefore'.not_semicolon]
        have hvalue : ';' ∉ (after' ++ (param ++ "=" ++ qvalue)).toList := by
          rcases hparam with rfl | rfl
          · simp [hafter'.not_semicolon, hqvalue.not_semicolon]
          · simp [hafter'.not_semicolon, hqvalue.not_semicolon]
        have hparts := @split_append ";" ';' (coding ++ before')
          (after' ++ (param ++ "=" ++ qvalue)) rfl
        rw [split_of_not_mem hname, split_of_not_mem hvalue, List.singleton_append] at hparts
        rw [← hparts]
        simp only [String.append_assoc]
      have hname : trim (coding ++ before') = coding := by
        have hpadded := @trim_padded coding "" before' nofun hbefore'.space
          (bare_of_solid hcoding.solid)
        rwa [String.empty_append] at hpadded
      refine ⟨⟨coding, q⟩, ⟨rfl, hpositive.trans ?_⟩, ?_⟩
      · constructor
        · intro h qvalue' hweight
          cases hweight
          exact h rfl
        · rintro h rfl
          exact h qvalue rfl
      · intro pieces
        have hcodingSome : coding.isEmpty = false := by simpa using hcoding.1
        simp only [parseItems, htrim, hsome, hsplit, hname, hcodingSome, hq]
        cases parseItems crates pieces <;> rfl

/-- A header that follows the grammar is read element by element. -/
theorem parseItems_list (hcrates : ReadsQvalues crates) (hlist : IsList pieces elements) :
    ∃ entries : List (AcceptEncodingEntry crates), parseItems crates pieces = some entries ∧
      List.Forall₂ ReadAs elements entries := by
  induction hlist with
  | nil => exact ⟨[], rfl, .nil⟩
  | @blank piece pieces elements hows _ ih =>
      obtain ⟨entries, hentries, hread⟩ := ih
      have hblank : trim piece = "" := by
        have hpadded := @trim_padded "" piece "" hows.space nofun ⟨nofun, nofun⟩
        rwa [String.append_empty, String.append_empty] at hpadded
      refine ⟨entries, ?_, hread⟩
      simp only [parseItems, hblank]
      exact hentries
  | element hbefore helement hafter _ ih =>
      obtain ⟨entries, hentries, hread⟩ := ih
      obtain ⟨entry, hentry, hparse⟩ := parseItems_element hcrates hbefore helement hafter
      refine ⟨entry :: entries, ?_, .cons hentry hread⟩
      rw [hparse, hentries]
      rfl

/-- Related lists have related first elements that satisfy a predicate. -/
theorem find?_related {α β : Type} {R : α → β → Prop} {p : α → Bool} {p' : β → Bool}
    {l : List α} {l' : List β} {a : α} (h : List.Forall₂ R l l')
    (hsame : ∀ a b, R a b → p' b = p a) (hfound : l.find? p = some a) :
    ∃ b, l'.find? p' = some b ∧ R a b := by
  induction h with
  | nil => nomatch hfound
  | @cons first first' l l' hfirst _ ih =>
      rw [List.find?_cons] at hfound ⊢
      rw [hsame first first' hfirst]
      by_cases hp : p first = true
      · rw [hp] at hfound ⊢
        obtain rfl := Option.some.inj hfound
        exact ⟨first', rfl, hfirst⟩
      · rw [Bool.not_eq_true] at hp
        rw [hp] at hfound ⊢
        exact ih hfound

theorem eqIgnoreAsciiCase_iff {a b : String} :
    eqIgnoreAsciiCase a b = true ↔ a.toList.map Char.toLower = b.toList.map Char.toLower := by
  rw [eqIgnoreAsciiCase, beq_iff_eq]

/-- Texts that agree in some letter case are named by the same names. -/
theorem eqIgnoreAsciiCase_congr {a b c : String} (h : eqIgnoreAsciiCase b c = true) :
    eqIgnoreAsciiCase a b = eqIgnoreAsciiCase a c := by
  simp only [eqIgnoreAsciiCase, eqIgnoreAsciiCase_iff.mp h]

/-- An element with a weight of zero that is the only one to name a coding keeps it from
being chosen, if its parameter is spelled `q` or nobody offers the coding. -/
theorem refused_coding_iff (hcrates : ReadsQvalues crates)
    {header coding name param qvalue : String}
    (hheader : IsList (split header ',') elements)
    (honly : elements.filter (fun e => eqIgnoreAsciiCase e.coding coding) =
      [⟨name, some (param, qvalue)⟩])
    (hzero : IsZeroQvalue qvalue) (order : List Encoding) :
    (∀ encoding ∈ negotiatePrecompressed crates (some header) order,
        eqIgnoreAsciiCase encoding.contentEncoding coding = false) ↔
      param = "q" ∨
        ∀ encoding ∈ order, eqIgnoreAsciiCase encoding.contentEncoding coding = false := by
  obtain ⟨entries, hentries, hread⟩ := parseItems_list hcrates hheader
  have hfound : elements.find? (fun e => eqIgnoreAsciiCase e.coding coding) =
      some ⟨name, some (param, qvalue)⟩ := by
    rw [← List.head?_filter, honly]
    rfl
  have hnames : ∀ (element : Element) (entry : AcceptEncodingEntry crates), ReadAs element entry →
      eqIgnoreAsciiCase entry.name coding = eqIgnoreAsciiCase element.coding coding := by
    intro element entry h
    rw [h.name]
  obtain ⟨entry, hentry, hreadAs⟩ := find?_related hread hnames hfound
  have hpositive : crates.weightPos entry.q = true ↔ param ≠ "q" := by
    rw [hreadAs.positive]
    constructor
    · rintro h rfl
      exact h qvalue rfl hzero
    · intro hparam qvalue' hweight
      cases hweight
      exact absurd rfl hparam
  have haccepted : ∀ encoding : Encoding,
      eqIgnoreAsciiCase encoding.contentEncoding coding = true →
        acceptanceFor entries encoding.contentEncoding = some entry.q := by
    intro encoding hnamed
    have hsame : (fun e : AcceptEncodingEntry crates =>
        eqIgnoreAsciiCase e.name encoding.contentEncoding) =
          fun e => eqIgnoreAsciiCase e.name coding :=
      funext fun e => eqIgnoreAsciiCase_congr hnamed
    simp only [acceptanceFor, hsame, hentry]
  by_cases hparam : param = "q"
  · refine iff_of_true ?_ (Or.inl hparam)
    intro encoding hencoding
    obtain ⟨-, q, hq, hweight⟩ := (mem_negotiated hentries).mp hencoding
    by_contra hnamed
    rw [haccepted encoding (Bool.eq_true_of_not_eq_false hnamed)] at hq
    obtain rfl := Option.some.inj hq
    exact hpositive.mp hweight hparam
  · rw [or_iff_right hparam]
    constructor
    · intro h encoding hmem
      by_contra hnamed
      have hnamed' := Bool.eq_true_of_not_eq_false hnamed
      exact hnamed (h encoding ((mem_negotiated hentries).mpr
        ⟨hmem, entry.q, haccepted encoding hnamed', hpositive.mpr hparam⟩))
    · intro h encoding hencoding
      exact h encoding ((mem_negotiated hentries).mp hencoding).1

end Reading

/-! ## Weights in thousandths -/

/-- The thousandths of a number with at most three decimals. -/
def parseThousandths (text : String) : Option ℕ :=
  let whole := text.toList.takeWhile (· ≠ '.')
  let fraction := (text.toList.dropWhile (· ≠ '.')).drop 1
  let digits := whole ++ (fraction ++ List.replicate (3 - fraction.length) '0')
  if whole ≠ [] ∧ digits.all isAsciiDigit then some (decimalValue digits) else none

/-- The crates' functions with weights in thousandths. -/
def thousandths : Crates :=
  { Crates.plain with
    oneWeight := (1000 : ℕ)
    parseWeight := parseThousandths }

theorem decimalValue_cons (c : Char) (digits : List Char) :
    decimalValue (c :: digits) =
      (c.toNat - '0'.toNat) * 10 ^ digits.length + decimalValue digits := by
  have happend := decimalValue_append [c] digits
  rw [List.singleton_append] at happend
  rw [happend]
  simp [decimalValue]

theorem decimalValue_eq_zero {digits : List Char} (h : ∀ c ∈ digits, isAsciiDigit c = true) :
    decimalValue digits = 0 ↔ ∀ c ∈ digits, c = '0' := by
  induction digits with
  | nil => exact iff_of_true rfl nofun
  | cons c digits ih =>
      obtain ⟨hdigit, hdigits⟩ := List.forall_mem_cons.mp h
      rw [decimalValue_cons, Nat.add_eq_zero_iff, ih hdigits, List.forall_mem_cons]
      refine and_congr_left fun _ => ?_
      simp only [isAsciiDigit, Bool.and_eq_true, decide_eq_true_iff] at hdigit
      have hlow : '0'.toNat ≤ c.toNat := hdigit.1
      have hpower : 0 < 10 ^ digits.length := Nat.pow_pos (by decide)
      constructor
      · intro hzero
        have hsub := (Nat.mul_eq_zero.mp hzero).resolve_right hpower.ne'
        exact Char.toNat_inj.mp (by omega)
      · rintro rfl
        simp

theorem isZeroQvalue_fraction {digits : String} :
    IsZeroQvalue ("0." ++ digits) ↔ ∀ c ∈ digits.toList, c = '0' := by
  constructor
  · intro h
    generalize htext : "0." ++ digits = text at h
    cases h with
    | zero =>
        have hlength := congrArg (fun s => s.toList.length) htext
        simp at hlength
    | @fraction zeros hzeros =>
        have hsame := congrArg String.toList htext
        rw [String.toList_append, String.toList_append] at hsame
        rw [List.append_cancel_left hsame]
        exact hzeros
  · exact .fraction

theorem IsZeroQvalue.head {qvalue : String} (h : IsZeroQvalue qvalue) :
    qvalue.toList.head? = some '0' := by
  cases h with
  | zero => rfl
  | fraction => simp

theorem isAsciiDigit_padded {fraction : List Char} {n : ℕ}
    (h : ∀ c ∈ fraction, isAsciiDigit c = true) :
    ∀ c ∈ fraction ++ List.replicate n '0', isAsciiDigit c = true := by
  intro c hc
  rcases List.mem_append.mp hc with hc | hc
  · exact h c hc
  · rw [List.eq_of_mem_replicate hc]
    decide

theorem parseThousandths_point {text : String} {whole : Char} {fraction : List Char}
    (htext : text.toList = whole :: '.' :: fraction) (hwhole : isAsciiDigit whole = true)
    (hfraction : ∀ c ∈ fraction, isAsciiDigit c = true) :
    parseThousandths text =
      some (decimalValue (whole :: (fraction ++ List.replicate (3 - fraction.length) '0'))) := by
  have hne : whole ≠ '.' := by
    rintro rfl
    exact absurd hwhole (by decide)
  have hall : (whole :: (fraction ++ List.replicate (3 - fraction.length) '0')).all
      isAsciiDigit = true := by
    rw [List.all_eq_true, List.forall_mem_cons]
    exact ⟨hwhole, isAsciiDigit_padded hfraction⟩
  simp [parseThousandths, htext, hne, hall]

theorem thousandths_readsQvalues : ReadsQvalues thousandths where
  one := rfl
  parses := by
    intro qvalue h
    have hpositive : ∀ n : ℕ, thousandths.weightPos n = true ↔ n ≠ 0 := by
      intro n
      exact decide_eq_true_iff.trans Nat.pos_iff_ne_zero
    have hzero : parseThousandths "0" = some 0 := by decide
    have hone : parseThousandths "1" = some 1000 := by decide
    cases h with
    | zero => exact ⟨(0 : ℕ), hzero, iff_of_false (by decide) fun h => h .zero⟩
    | @fraction digits _ hdigits =>
        have htext : ("0." ++ digits).toList = '0' :: '.' :: digits.toList :=
          String.toList_append
        refine ⟨_, parseThousandths_point htext (by decide) hdigits, ?_⟩
        rw [hpositive, isZeroQvalue_fraction, not_iff_not, decimalValue_eq_zero,
          List.forall_mem_cons, List.forall_mem_append]
        · constructor
          · exact fun h => h.2.1
          · exact fun h => ⟨rfl, h, fun c hc => List.eq_of_mem_replicate hc⟩
        · exact List.forall_mem_cons.mpr ⟨by decide, isAsciiDigit_padded hdigits⟩
    | one => exact ⟨(1000 : ℕ), hone, iff_of_true (by decide) fun h => nomatch h.head⟩
    | @oneFraction zeros _ hzeros =>
        have hdigits : ∀ c ∈ zeros.toList, isAsciiDigit c = true := by
          intro c hc
          rw [hzeros c hc]
          decide
        have htext : ("1." ++ zeros).toList = '1' :: '.' :: zeros.toList :=
          String.toList_append
        refine ⟨_, parseThousandths_point htext (by decide) hdigits, ?_⟩
        rw [hpositive, Ne, decimalValue_eq_zero, List.forall_mem_cons]
        · apply iff_of_true
          · intro h
            exact absurd h.1 (by decide)
          · intro h
            have hhead := h.head
            rw [htext, List.head?_cons] at hhead
            exact absurd hhead (by decide)
        · exact List.forall_mem_cons.mpr ⟨by decide, isAsciiDigit_padded hdigits⟩

/-- The element `gzip` refused with a weight of zero. -/
theorem gzip_refused {param : String} (hparam : param = "q" ∨ param = "Q") :
    IsElement ("gzip" ++ ("" ++ ";" ++ "" ++ param ++ "=") ++ "0") ⟨"gzip", some (param, "0")⟩ :=
  .weighted ⟨by decide, forall_chars (by decide)⟩ nofun nofun hparam .zero

/-- With a capital `Q` the refused coding is chosen. -/
theorem refused_coding_capital :
    IsList (split "gzip;Q=0" ',') [⟨"gzip", some ("Q", "0")⟩] ∧ IsZeroQvalue "0" ∧
      negotiatePrecompressed thousandths (some "gzip;Q=0") [brotli, gzip] = [gzip] ∧
      negotiatePrecompressed thousandths (some "gzip;q=0") [brotli, gzip] = [] := by
  refine ⟨?_, .zero, ?_, ?_⟩
  · exact @IsList.element "" _ "" _ _ _ nofun (gzip_refused (Or.inr rfl)) nofun .nil
  · decide +kernel
  · decide +kernel

/-- With a small `q` it is not, where all other codings are. -/
theorem refused_coding_gzip :
    negotiatePrecompressed thousandths (some "gzip;q=0, *") [brotli, gzip] = [brotli] ∧
      ∀ encoding ∈ negotiatePrecompressed thousandths (some "gzip;q=0, *") [brotli, gzip],
        eqIgnoreAsciiCase encoding.contentEncoding "gzip" = false := by
  refine ⟨by decide +kernel, ?_⟩
  have hpieces : IsList (split "gzip;q=0, *" ',') [⟨"gzip", some ("q", "0")⟩, ⟨"*", none⟩] := by
    refine @IsList.element "" _ "" _ _ _ nofun (gzip_refused (Or.inl rfl)) nofun ?_
    refine @IsList.element " " "*" "" _ _ _ ?_
      (.plain ⟨by decide, forall_chars (by decide)⟩) nofun .nil
    exact forall_chars (by decide)
  exact (refused_coding_iff thousandths_readsQvalues hpieces rfl .zero [brotli, gzip]).mpr
    (Or.inl rfl)

end EnvoyFiles.Encoding
