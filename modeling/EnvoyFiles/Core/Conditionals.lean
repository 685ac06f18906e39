import EnvoyFiles.Core.Validators

/-!
# Tests of conditional headers

The precondition of a request and the test of the client's copy have one shape: a list of
tags is tested if there is one, and a date is compared with the modification time if there
is none.  What the two share is proved here for both.
-/

namespace EnvoyFiles.Conditional

/-- The test of a list of tags, or of a date where there is no list: `decode` reads the
tags, and `holds` compares the date with the modification time. -/
def tagOrDate (decode : String → Option (String → Bool)) (holds : ℕ → ℕ → Bool)
    (tags : Option String) (date : Option ℕ) (etag : Option String) (mtime : Option ℕ) :
    Option Bool :=
  match tags with
  | some raw =>
      match decode raw, etag with
      | some passes, some tag => some (!passes tag)
      | _, _ => some false
  | none =>
      match date with
      | none => some false
      | some date => mtime.map (holds date)

section Tests

variable {decode : String → Option (String → Bool)} {holds : ℕ → ℕ → Bool}
  {tags etag : Option String} {date mtime : Option ℕ}

/-- The test cannot be made where a date has to be compared with a modification time that
is no HTTP date. -/
theorem tagOrDate_eq_none : tagOrDate decode holds tags date etag mtime = none ↔
    mtime = none ∧ tags = none ∧ date.isSome = true := by
  cases tags with
  | some raw =>
      apply iff_of_false
      · simp only [tagOrDate]
        split <;> nofun
      · rintro ⟨-, hnone, -⟩
        nomatch hnone
  | none =>
      cases date with
      | none => simp [tagOrDate]
      | some date => simp [tagOrDate]

theorem tagOrDate_isSome (hmtime : mtime.isSome) :
    ∃ result, tagOrDate decode holds tags date etag mtime = some result := by
  apply Option.ne_none_iff_exists'.mp
  intro hnone
  rw [(tagOrDate_eq_none.mp hnone).1] at hmtime
  nomatch hmtime

end Tests

end EnvoyFiles.Conditional
