import EnvoyFiles.Filter.Stores
import EnvoyFiles.Io.Disk

/-!
# The store of a disk

What the filter finds on a filesystem without links: the results of the engine's opens and
directory reads.  Where two disks agree, so do their stores.
-/

namespace EnvoyFiles

open Filter PathTree

namespace Disk

theorem file_size (file : RegularFile) :
    (Engine.statFromMetadata ⟨false, file.content.length, file.modified⟩).isDir = false →
      (Engine.statFromMetadata ⟨false, file.content.length, file.modified⟩).size =
        file.content.length := by
  intro _
  rfl

theorem directory_size (directory : Directory) :
    (Engine.statFromMetadata ⟨true, directory.len, directory.modified⟩).isDir = false →
      (Engine.statFromMetadata ⟨true, directory.len, directory.modified⟩).size =
        ([] : Bytes).length := by
  intro hfile
  cases hfile

/-- The file at a location. -/
def stored (disk : Disk) (location : Location) : StoredFile :=
  match disk.tree location with
  | some (.file file) =>
      ⟨Engine.statFromMetadata ⟨false, file.content.length, file.modified⟩, file.content,
        file_size file⟩
  | some (.directory directory) =>
      ⟨Engine.statFromMetadata ⟨true, directory.len, directory.modified⟩, [],
        directory_size directory⟩
  | _ => ⟨⟨0, 0, 0, true⟩, [], Filter.directory_size⟩

/-- What the engine's opens and directory reads return. -/
def store (cfg : Config) (disk : Disk) : Store where
  opens path :=
    match (Engine.openStat disk.os 1 (openRequest cfg none path) ⟨[], []⟩).1 with
    | .error error => .error error
    | .ok opened => .ok (disk.stored opened.file)
  lists := Engine.readDir disk

end Disk

section Store

variable {cfg : Config} {disk other : Disk} {path : PathBuf} {location below : List String}
  {metadata : Metadata}

theorem Disk.stored_stat (h : disk.os.metadata location = .ok metadata) :
    Engine.statFromMetadata metadata = (disk.stored location).stat := by
  rw [Disk.stored]
  rcases Os.metadata_eq_ok h with ⟨file, hnode, rfl⟩ | ⟨directory, hnode, rfl⟩
  · rw [show disk.tree location = _ from hnode]
  · rw [show disk.tree location = _ from hnode]

/-- The prefetch of a file is its beginning. -/
theorem Disk.prefetch_stored (request : OpenRequest)
    (h : disk.os.metadata location = .ok metadata) :
    Engine.prefetch disk.os request location (Engine.statFromMetadata metadata) <+:
      (disk.stored location).content := by
  rcases Os.metadata_eq_ok h with ⟨file, hnode, rfl⟩ | ⟨directory, -, rfl⟩
  · change disk.tree location = _ at hnode
    have hread : disk.os.readAt location = fun offset len =>
        .ok ((file.content.drop offset).take len) := by
      rw [Disk.os, Os.ofTree]
      dsimp only
      rw [hnode]
    rw [Engine.prefetch, Disk.stored, Engine.statFromMetadata]
    rw [hnode]
    dsimp only
    rw [if_neg Bool.false_ne_true]
    split
    · rw [Engine.readAt]
      rw [hread]
      dsimp only
      rw [List.drop_zero, if_pos]
      · exact List.take_prefix _ _
      · left
        rw [List.length_take]
        omega
    · exact List.nil_prefix
  · rw [Engine.prefetch, Engine.statFromMetadata]
    dsimp only
    rw [if_pos rfl, if_neg (Nat.lt_irrefl 0)]
    exact List.nil_prefix

/-- Where a path of names opens, it is what lies there; nothing outside the root opens. -/
theorem Disk.store_opens (hup : ".." ∉ path.components) :
    (disk.store cfg).opens path =
      match disk.locate path with
      | .error error => .error error
      | .ok location =>
          match disk.os.metadata location with
          | .error error => .error error
          | .ok _ =>
              if Engine.startsWith location cfg.root then .ok (disk.stored location)
              else .error Engine.permissionDenied := by
  rw [Disk.store]
  dsimp only
  rw [@Disk.openStat_eq disk cfg.root (openRequest cfg none path) ⟨[], []⟩ hup rfl nofun 1]
  rw [show (openRequest cfg none path).path = path from rfl]
  cases disk.locate path with
  | error error => rfl
  | ok location =>
      dsimp only
      cases disk.os.metadata location with
      | error error => rfl
      | ok metadata =>
          dsimp only
          by_cases hinside : Engine.startsWith location cfg.root = true
          · rw [if_pos hinside, if_pos hinside]
            dsimp only
            rw [Engine.registerFile_file]
          · rw [if_neg hinside, if_neg hinside]

/-- What opens is located below the root. -/
theorem Disk.store_opens_eq_ok {file : StoredFile} (hup : ".." ∉ path.components)
    (h : (disk.store cfg).opens path = .ok file) :
    ∃ location metadata, disk.locate path = .ok location ∧
      disk.os.metadata location = .ok metadata ∧
      Engine.startsWith location cfg.root = true ∧ file = disk.stored location := by
  rw [Disk.store_opens hup] at h
  split at h
  · nomatch h
  · next location hfound =>
      split at h
      · nomatch h
      · next metadata hmetadata =>
          split at h
          · next hinside =>
              exact ⟨location, metadata, hfound, hmetadata, hinside, (Except.ok.inj h).symm⟩
          · nomatch h

/-- The store is what the engine serves, whatever it has opened and cached before. -/
theorem engine_opens_store {state : EngineState} (hup : ".." ∉ path.components)
    (hsound : Engine.CacheSound disk.os state.canonCache) (id : ℕ)
    (request : Option RequestData) :
    (∃ error, (Engine.openStat disk.os id (openRequest cfg request path) state).1 =
        .error error ∧ (disk.store cfg).opens path = .error error) ∨
      ∃ opened, (Engine.openStat disk.os id (openRequest cfg request path) state).1 =
          .ok opened ∧ (disk.store cfg).opens path = .ok (disk.stored opened.file) ∧
        opened.stat = (disk.stored opened.file).stat ∧
        opened.prefetch <+: (disk.stored opened.file).content := by
  rw [@Disk.openStat_eq disk cfg.root (openRequest cfg request path) state hup rfl hsound id,
    Disk.store_opens hup, show (openRequest cfg request path).path = path from rfl]
  cases disk.locate path with
  | error error => exact Or.inl ⟨error, rfl, rfl⟩
  | ok location =>
      dsimp only
      cases hmetadata : disk.os.metadata location with
      | error error => exact Or.inl ⟨error, rfl, rfl⟩
      | ok metadata =>
          dsimp only
          by_cases hinside : Engine.startsWith location cfg.root = true
          · rw [if_pos hinside, if_pos hinside]
            refine Or.inr ⟨_, rfl, ?_⟩
            rw [Engine.registerFile_file]
            refine ⟨rfl, ?_⟩
            unfold Engine.registerFile
            dsimp only
            split
            · exact ⟨Disk.stored_stat hmetadata, Disk.prefetch_stored _ hmetadata⟩
            · exact ⟨Disk.stored_stat hmetadata, Disk.prefetch_stored _ hmetadata⟩
          · rw [if_neg hinside, if_neg hinside]
            exact Or.inl ⟨_, rfl, rfl⟩

/-- Below a common root, agreeing disks open alike what is no dotfile. -/
theorem store_opens_congr (hagree : AgreeOutsideDotfiles location disk other)
    (hroot : CanonicalRoot disk.os cfg.root location)
    (hother : CanonicalRoot other.os cfg.root location)
    (hpath : path.components = location ++ below) (hdots : Undotted below) :
    (disk.store cfg).opens path = (other.store cfg).opens path := by
  have hup : ".." ∉ path.components := by
    rw [hpath]
    intro hmem
    rcases List.mem_append.mp hmem with hfront | hback
    · exact (hroot.plain _ hfront).ne_parent rfl
    · exact hdots.noParent hback
  rw [Disk.store_opens hup, Disk.store_opens hup, locate_congr hagree hroot hother hpath hdots]
  cases hfound : other.locate path with
  | error error => rfl
  | ok found =>
      have htree : disk.tree found = other.tree found := by
        rw [Disk.locate_location hfound, hpath]
        exact hagree.tree below hdots
      have hmetadata : disk.os.metadata found = other.os.metadata found := by
        simp only [Os.metadata]
        rw [show disk.os.tree = disk.tree from rfl, show other.os.tree = other.tree from rfl,
          htree]
      have hstored : disk.stored found = other.stored found := by
        simp only [Disk.stored]
        rw [htree]
      dsimp only
      rw [hmetadata, hstored]

/-- Nothing outside the root opens. -/
theorem store_opens_outside (hroot : CanonicalRoot disk.os cfg.root location)
    (hup : ".." ∉ path.components) (houtside : ¬location <+: path.components) :
    ∃ error, (disk.store cfg).opens path = .error error := by
  rw [Disk.store_opens hup]
  cases hfound : disk.locate path with
  | error error => exact ⟨error, rfl⟩
  | ok found =>
      dsimp only
      cases disk.os.metadata found with
      | error error => exact ⟨error, rfl⟩
      | ok metadata =>
          dsimp only
          rw [if_neg]
          · exact ⟨_, rfl⟩
          · rw [Engine.startsWith]
            rw [hroot.text, PathBuf.components_ofLocation hroot.plain,
              List.isPrefixOf_iff_prefix, Disk.locate_location hfound]
            exact houtside

/-- A directory opens by every text of its path. -/
theorem store_opens_directory {path' : PathBuf} {file : StoredFile}
    (hup : ".." ∉ path.components) (hsame : path'.components = path.components)
    (h : (disk.store cfg).opens path = .ok file) (hdir : file.stat.isDir = true) :
    (disk.store cfg).opens path' = .ok file := by
  have hup' : ".." ∉ path'.components := hsame ▸ hup
  obtain ⟨found, metadata, hfound, hmetadata, hinside, rfl⟩ := Disk.store_opens_eq_ok hup h
  have hdirectory : disk.os.isDirectory found = true := by
    rw [Os.metadata_isDir hmetadata]
    rw [← Disk.stored_stat hmetadata] at hdir
    exact hdir
  rw [Disk.store_opens hup', Disk.locate_directory hfound hdirectory hsame]
  dsimp only
  rw [hmetadata]
  exact if_pos hinside

end Store

end EnvoyFiles
