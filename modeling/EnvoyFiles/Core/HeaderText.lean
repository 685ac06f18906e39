import EnvoyFiles.Core.ResponsePlan
import EnvoyFiles.Support.Strings

/-!
# The text of header values

A header value can be built from text without control characters.  What the planner
formats itself, numbers and literals between them, is printable ASCII.
-/

namespace EnvoyFiles

open Text Range Conditional

/-- The text is printable ASCII. -/
def Printable (s : String) : Prop :=
  ∀ c ∈ s.toList, 0x20 ≤ c.toNat ∧ c.toNat < 0x7f

instance (s : String) : Decidable (Printable s) :=
  List.decidableBAll _ _

/-- Text that `HeaderValue::from_bytes` accepts. -/
def ValidHeaderText (s : String) : Prop :=
  ∀ c ∈ s.toList, (0x20 ≤ c.toNat ∨ c = '\t') ∧ c.toNat ≠ 0x7f

instance (s : String) : Decidable (ValidHeaderText s) :=
  List.decidableBAll _ _

theorem value_eq_some {s v : String} : value s = some v ↔ v = s ∧ ValidHeaderText s := by
  have hchar : ∀ c : Char, ((c.toNat < 0x20 && c != '\t') || c.toNat == 0x7f) = false ↔
      (0x20 ≤ c.toNat ∨ c = '\t') ∧ c.toNat ≠ 0x7f := by
    intro c
    rw [Bool.or_eq_false_iff, Bool.and_eq_false_iff, decide_eq_false_iff_not, bne_eq_false_iff_eq,
      beq_eq_false_iff_ne, Nat.not_lt]
  rw [value, headerValueFromBytes, ValidHeaderText]
  split
  · next hbad =>
      obtain ⟨c, hmem, hc⟩ := List.any_eq_true.mp hbad
      constructor
      · nofun
      · rintro ⟨-, hvalid⟩
        rw [(hchar c).mpr (hvalid c hmem)] at hc
        nomatch hc
  · next hgood =>
      rw [Bool.not_eq_true, List.any_eq_false] at hgood
      rw [Option.some.injEq]
      constructor
      · rintro rfl
        refine ⟨rfl, ?_⟩
        intro c hmem
        exact (hchar c).mp (Bool.not_eq_true _ ▸ hgood c hmem)
      · rintro ⟨rfl, -⟩
        rfl

namespace Printable

variable {s t : String}

theorem valid (h : Printable s) : ValidHeaderText s := by
  intro c hmem
  obtain ⟨hlow, hhigh⟩ := h c hmem
  exact ⟨Or.inl hlow, by omega⟩

theorem append (hs : Printable s) (ht : Printable t) : Printable (s ++ t) := by
  intro c hmem
  rw [String.toList_append] at hmem
  rcases List.mem_append.mp hmem with hmem | hmem
  · exact hs c hmem
  · exact ht c hmem

/-- Printable text has no byte below `0x20` in it. -/
theorem not_mem_asBytes (h : Printable s) {b : UInt8} (hb : b.toNat < 0x20) :
    b ∉ asBytes s := by
  intro hmem
  obtain ⟨c, hc, hval⟩ := (mem_asBytes (by omega)).mp hmem
  obtain ⟨hlow, -⟩ := h c hc
  omega

end Printable

/-- The digits of a number in a base up to sixteen are printable. -/
theorem printable_digit {base n : ℕ} (hlow : 1 < base) (hhigh : base ≤ 16) {c : Char}
    (h : c ∈ Nat.toDigits base n) : 0x20 ≤ c.toNat ∧ c.toNat < 0x7f := by
  have hsixteen : ∀ d < 16, 0x20 ≤ (Nat.digitChar d).toNat ∧ (Nat.digitChar d).toNat < 0x7f := by
    decide
  obtain ⟨d, hd, rfl⟩ := mem_toDigits hlow h
  exact hsixteen d (by omega)

theorem printable_toString (n : ℕ) : Printable (toString n) := by
  intro c hmem
  rw [Nat.toString_eq_ofList_toDigits, String.toList_ofList] at hmem
  exact printable_digit (by decide) (by decide) hmem

theorem printable_hex (n : ℕ) : Printable (hex n) := by
  intro c hmem
  rw [hex] at hmem
  rw [String.toList_ofList] at hmem
  exact printable_digit (by decide) (by decide) hmem

theorem printable_hex16 (n : ℕ) : Printable (hex16 n) := by
  intro c hmem
  rw [hex16] at hmem
  rw [String.toList_ofList] at hmem
  rcases List.mem_append.mp hmem with hmem | hmem
  · rw [List.eq_of_mem_replicate hmem]
    decide
  · exact printable_digit (by decide) (by decide) hmem

theorem printable_contentRange (range : ByteRange) (total : ℕ) :
    Printable (contentRange range total) := by
  have hbytes : Printable "bytes " := by decide
  have hdash : Printable "-" := by decide
  have hslash : Printable "/" := by decide
  exact ((((hbytes.append (printable_toString _)).append hdash).append
    (printable_toString _)).append hslash).append (printable_toString _)

theorem printable_contentRangeUnsatisfied (total : ℕ) :
    Printable (contentRangeUnsatisfied total) := by
  have hbytes : Printable "bytes */" := by decide
  exact hbytes.append (printable_toString _)

theorem printable_makeEtag (size : ℕ) (mtimeUnix : ℤ) (mtimeNanos : ℕ) :
    Printable (makeEtag size mtimeUnix mtimeNanos) := by
  have hquote : Printable "\"" := by decide
  have hdash : Printable "-" := by decide
  have hdot : Printable "." := by decide
  exact (((((hquote.append (printable_hex _)).append hdash).append
    (printable_hex _)).append hdot).append (printable_hex _)).append hquote

end EnvoyFiles
