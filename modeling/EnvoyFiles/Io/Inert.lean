import EnvoyFiles.Io.Engine

/-!
# Inert handles

Where the prefetch of an open holds the whole file, the file is closed at once and its
handle is inert.  It then holds what the file held, and no more than the request asked to
prefetch.
-/

namespace EnvoyFiles

/-- A positional read of a regular file returns bytes that lie at the offset, and no more
of them than it is asked for. -/
def Os.ReadsFiles (os : Os) : Prop :=
  ∀ location file offset len data, os.tree location = some (.file file) →
    os.readAt location offset len = .ok data → data <+: (file.content.drop offset).take len

theorem Os.ofTree_readsFiles (tree : PathTree.Tree String RegularFile Directory) :
    (Os.ofTree tree).ReadsFiles := by
  intro location file offset len data hfile hread
  have hnode : tree location = some (.file file) := hfile
  rw [Os.ofTree] at hread
  dsimp only at hread
  rw [hnode] at hread
  cases hread
  exact List.prefix_rfl

namespace Engine

/-! ## Reads -/

section Reads

variable {read : ℕ → ℕ → Except IoError Bytes} {content buf data : Bytes} {offset len : ℕ}

/-- A part of a file from an offset on, continued where it ends. -/
theorem part_append (hbuf : buf <+: (content.drop offset).take len)
    (hdata : data <+: (content.drop (offset + buf.length)).take (len - buf.length)) :
    buf ++ data <+: (content.drop offset).take len := by
  obtain ⟨rest, hrest⟩ := hbuf
  have hdrop : rest = (content.drop (offset + buf.length)).take (len - buf.length) := by
    rw [← List.drop_drop, ← List.drop_take, ← hrest, List.drop_left]
  rw [← hdrop] at hdata
  rw [← hrest]
  exact (List.prefix_append_right_inj buf).mpr hdata

/-- Reading on keeps to the file. -/
theorem readRest_part
    (hread : ∀ offset len data, read offset len = .ok data →
      data <+: (content.drop offset).take len)
    (hbuf : buf <+: (content.drop offset).take len)
    (h : readRest read offset len buf = .ok data) :
    data <+: (content.drop offset).take len := by
  fun_induction readRest read offset len buf with
  | case1 buf _ error _ => nomatch h
  | case2 buf _ more _ _ =>
      cases h
      exact hbuf
  | case3 buf _ more hmore _ ih => exact ih (part_append hbuf (hread _ _ _ hmore)) h
  | case4 buf _ =>
      cases h
      exact hbuf

theorem readAt_part
    (hread : ∀ offset len data, read offset len = .ok data →
      data <+: (content.drop offset).take len)
    (h : readAt (some read) offset len = .ok data) :
    data <+: (content.drop offset).take len := by
  unfold readAt at h
  dsimp only at h
  split at h
  · cases h
  · next first hfirst =>
      split at h
      · cases h
        exact hread _ _ _ hfirst
      · exact readRest_part hread (hread _ _ _ hfirst) h

end Reads

/-! ## Opens -/

section Opens

variable {os : Os} {id : ℕ} {request : OpenRequest} {state : EngineState} {opened : Opened}

/-- The prefetch of a regular file is a part of its beginning. -/
theorem prefetch_part {location : Location} {file : RegularFile} {stat : FileStat}
    (hos : os.ReadsFiles) (hfile : os.tree location = some (.file file)) :
    prefetch os request location stat <+: file.content.take request.prefetchLen := by
  have hwant : (if stat.isDir then 0 else min request.prefetchLen stat.size) ≤
      request.prefetchLen := by
    split
    · exact Nat.zero_le _
    · exact Nat.min_le_left _ _
  unfold prefetch
  dsimp only
  generalize (if stat.isDir then 0 else min request.prefetchLen stat.size) = want at hwant
  split
  · split
    · next data hdata =>
        have hpart := readAt_part
          (fun offset len data => hos location file offset len data hfile) hdata
        rw [List.drop_zero] at hpart
        exact hpart.trans (List.take_prefix_take_left hwant)
    · exact List.nil_prefix
  · exact List.nil_prefix

/-- An open whose handle is inert has read the whole of a regular file, within what the
request asked to prefetch. -/
theorem openStat_inert (hos : os.ReadsFiles) (hid : id ≠ 0)
    (h : (openStat os id request state).1 = .ok opened) (hinert : opened.handle = ⟨0⟩) :
    opened.stat.isDir = false ∧ ∃ file, os.tree opened.file = some (.file file) ∧
      opened.stat.size = file.content.length ∧ opened.prefetch = file.content ∧
      file.content.length ≤ request.prefetchLen := by
  obtain ⟨-, metadata, -, hmetadata, -, hopened⟩ := openStatWith_ok h
  unfold registerFile at hopened
  dsimp only at hopened
  split at hopened
  · next hwhole =>
      obtain ⟨hfile, hlength⟩ := hwhole
      rcases Os.metadata_eq_ok hmetadata with ⟨file, hnode, rfl⟩ | ⟨directory, -, rfl⟩
      · have hpart := @prefetch_part os request opened.file file
          (statFromMetadata ⟨false, file.content.length, file.modified⟩) hos hnode
        have hcontent : opened.prefetch = file.content := by
          rw [hopened]
          exact (hpart.trans (List.take_prefix _ _)).eq_of_length hlength
        have hstat : opened.stat =
            statFromMetadata ⟨false, file.content.length, file.modified⟩ := by
          rw [hopened]
        have hle := hpart.length_le
        rw [hlength, List.length_take] at hle
        rw [hstat]
        exact ⟨rfl, file, hnode, rfl, hcontent, Nat.le_trans hle (Nat.min_le_left _ _)⟩
      · nomatch hfile
  · rw [hopened] at hinert
    exact absurd (FileHandle.mk.inj hinert) hid

end Opens

end Engine

end EnvoyFiles
