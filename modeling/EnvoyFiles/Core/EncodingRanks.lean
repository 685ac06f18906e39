import EnvoyFiles.Core.Encoding
import EnvoyFiles.Support.Sorting

/-!
# The encodings a client accepts

The positions of the server's order whose encoding the client weighs above zero, each
once, by descending weight and then by position.
-/

namespace EnvoyFiles.Encoding

open Text

section Weights

variable {crates : Crates} {entries : List (AcceptEncodingEntry crates)} {coding : String}
  {q : crates.Weight}

/-- The weight of a coding: that of the first entry that names it in any letter case,
else that of the first wildcard. -/
inductive Weighs (entries : List (AcceptEncodingEntry crates)) (coding : String) :
    crates.Weight → Prop where
  | named {before after : List (AcceptEncodingEntry crates)}
      {entry : AcceptEncodingEntry crates} :
      entries = before ++ entry :: after →
      (∀ earlier ∈ before, eqIgnoreAsciiCase earlier.name coding = false) →
      eqIgnoreAsciiCase entry.name coding = true → Weighs entries coding entry.q
  | wildcard {before after : List (AcceptEncodingEntry crates)}
      {entry : AcceptEncodingEntry crates} :
      (∀ other ∈ entries, eqIgnoreAsciiCase other.name coding = false) →
      entries = before ++ entry :: after → (∀ earlier ∈ before, earlier.name ≠ "*") →
      entry.name = "*" → Weighs entries coding entry.q

theorem acceptanceFor_named {before after : List (AcceptEncodingEntry crates)}
    {entry : AcceptEncodingEntry crates} (hentries : entries = before ++ entry :: after)
    (hbefore : ∀ earlier ∈ before, eqIgnoreAsciiCase earlier.name coding = false)
    (hnamed : eqIgnoreAsciiCase entry.name coding = true) :
    acceptanceFor entries coding = some entry.q := by
  have hfound : entries.find? (fun e => eqIgnoreAsciiCase e.name coding) = some entry := by
    refine List.find?_eq_some_iff_append.mpr ⟨hnamed, before, after, hentries, ?_⟩
    intro earlier hearlier
    rw [hbefore earlier hearlier]
    rfl
  simp only [acceptanceFor, hfound]

theorem acceptanceFor_unnamed
    (h : ∀ other ∈ entries, eqIgnoreAsciiCase other.name coding = false) :
    acceptanceFor entries coding = (entries.find? fun e => e.name == "*").map (·.q) := by
  have hnone : entries.find? (fun e => eqIgnoreAsciiCase e.name coding) = none := by
    rw [List.find?_eq_none]
    intro other hother
    rw [h other hother]
    exact Bool.false_ne_true
  simp only [acceptanceFor, hnone]

/-- `acceptanceFor` finds the weight of a coding, if it has one. -/
theorem acceptanceFor_eq_some :
    acceptanceFor entries coding = some q ↔ Weighs entries coding q := by
  constructor
  · intro h
    by_cases hnamed : ∃ entry ∈ entries, eqIgnoreAsciiCase entry.name coding = true
    · obtain ⟨entry, hfound⟩ := Option.isSome_iff_exists.mp (List.find?_isSome.mpr hnamed)
      obtain ⟨hname, before, after, hentries, hbefore⟩ := List.find?_eq_some_iff_append.mp hfound
      have hother : ∀ earlier ∈ before, eqIgnoreAsciiCase earlier.name coding = false := by
        intro earlier hearlier
        simpa using hbefore earlier hearlier
      rw [acceptanceFor_named hentries hother hname] at h
      cases h
      exact .named hentries hother hname
    · have hunnamed : ∀ other ∈ entries, eqIgnoreAsciiCase other.name coding = false := by
        intro other hother
        by_contra htrue
        exact hnamed ⟨other, hother, Bool.not_eq_false _ ▸ htrue⟩
      rw [acceptanceFor_unnamed hunnamed] at h
      obtain ⟨entry, hfound, rfl⟩ := Option.map_eq_some_iff.mp h
      obtain ⟨hstar, before, after, hentries, hbefore⟩ := List.find?_eq_some_iff_append.mp hfound
      refine .wildcard hunnamed hentries ?_ (beq_iff_eq.mp hstar)
      intro earlier hearlier
      simpa using hbefore earlier hearlier
  · intro h
    cases h with
    | named hentries hbefore hnamed => exact acceptanceFor_named hentries hbefore hnamed
    | @wildcard before after entry hunnamed hentries hbefore hstar =>
        have hfound : entries.find? (fun e => e.name == "*") = some entry := by
          refine List.find?_eq_some_iff_append.mpr
            ⟨beq_iff_eq.mpr hstar, before, after, hentries, ?_⟩
          intro earlier hearlier
          simpa using hbefore earlier hearlier
        rw [acceptanceFor_unnamed hunnamed, hfound]
        rfl

end Weights

/-! ## The accepted positions -/

section Ranks

variable {crates : Crates} {entries : List (AcceptEncodingEntry crates)}
  {order : List Encoding} {header : String} {q : crates.Weight} {i : ℕ} {encoding : Encoding}

/-- The order has the encoding at position `i`, and the client gives it a positive
weight. -/
structure AcceptedAt (entries : List (AcceptEncodingEntry crates)) (order : List Encoding)
    (q : crates.Weight) (i : ℕ) (encoding : Encoding) : Prop where
  position : order[i]? = some encoding
  weighs : Weighs entries encoding.contentEncoding q
  positive : crates.weightPos q = true

/-- The accepted positions with their weights, in the order of the server. -/
def scored (crates : Crates) (entries : List (AcceptEncodingEntry crates))
    (order : List Encoding) : List (crates.Weight × ℕ × Encoding) :=
  order.zipIdx.filterMap fun (encoding, serverRank) =>
    match acceptanceFor entries encoding.contentEncoding with
    | some q => if crates.weightPos q then some (q, serverRank, encoding) else none
    | none => none

theorem negotiatePrecompressed_eq (h : parseAcceptEncoding crates header = some entries) :
    negotiatePrecompressed crates (some header) order =
      ((scored crates entries order).mergeSort (scoredLe crates)).map (·.2.2) := by
  simp only [negotiatePrecompressed, h]
  rfl

theorem negotiatePrecompressed_malformed (h : parseAcceptEncoding crates header = none) :
    negotiatePrecompressed crates (some header) order = [] := by
  simp only [negotiatePrecompressed, h]

theorem mem_scored : (q, i, encoding) ∈ scored crates entries order ↔
    AcceptedAt entries order q i encoding := by
  simp only [scored, List.mem_filterMap, Prod.exists, List.mem_zipIdx_iff_getElem?]
  constructor
  · rintro ⟨encoding', i', hposition, hscore⟩
    split at hscore
    · next q' hq =>
        split at hscore
        · next hpositive =>
            cases hscore
            exact ⟨hposition, acceptanceFor_eq_some.mp hq, hpositive⟩
        · nomatch hscore
    · nomatch hscore
  · intro h
    refine ⟨encoding, i, h.position, ?_⟩
    rw [acceptanceFor_eq_some.mpr h.weighs]
    exact if_pos h.positive

/-- What is negotiated is in the order and has a positive weight. -/
theorem mem_negotiated (h : parseAcceptEncoding crates header = some entries) :
    encoding ∈ negotiatePrecompressed crates (some header) order ↔
      encoding ∈ order ∧ ∃ q, acceptanceFor entries encoding.contentEncoding = some q ∧
        crates.weightPos q = true := by
  rw [negotiatePrecompressed_eq h, List.mem_map]
  simp only [List.mem_mergeSort, Prod.exists, exists_eq_right, mem_scored]
  constructor
  · rintro ⟨q, i, hat⟩
    exact ⟨List.mem_of_getElem? hat.position, q, acceptanceFor_eq_some.mpr hat.weighs,
      hat.positive⟩
  · rintro ⟨hmem, q, hq, hpositive⟩
    obtain ⟨i, hposition⟩ := List.mem_iff_getElem?.mp hmem
    exact ⟨q, i, hposition, acceptanceFor_eq_some.mp hq, hpositive⟩

end Ranks

end EnvoyFiles.Encoding
