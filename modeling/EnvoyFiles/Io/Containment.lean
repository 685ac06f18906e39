import EnvoyFiles.Io.Engine
import EnvoyFiles.Support.Strings
import EnvoyFiles.Support.Transition

/-!
# What opens below a root lies below the root

In a filesystem that does not change, every entry of the canonicalization cache
is what a fresh canonicalization would yield, so the location that is checked is
the one that was opened.
-/

namespace EnvoyFiles

open Text

/-! ## The paths of a root -/

/-- A name that is one component of a path. -/
structure PlainName (name : String) : Prop where
  ne_empty : name ≠ ""
  ne_current : name ≠ "."
  ne_parent : name ≠ ".."
  no_separator : '/' ∉ name.toList

namespace PathBuf

/-- A piece that counts as a component. -/
def isComponent (piece : String) : Bool :=
  !(piece.isEmpty || piece == ".")

theorem components_eq (path : PathBuf) :
    path.components = (split path.raw '/').filter isComponent :=
  rfl

/-- The components of a path that never goes up are plain names. -/
theorem plain_components {path : PathBuf} (hup : ".." ∉ path.components) :
    ∀ name ∈ path.components, PlainName name := by
  intro name hname
  have hne : name ≠ ".." := fun hparent => hup (hparent ▸ hname)
  rw [components_eq] at hname
  obtain ⟨hpiece, hcomponent⟩ := List.mem_filter.mp hname
  have hneither : ¬(name = "" ∨ name = ".") := by simpa [isComponent] using hcomponent
  obtain ⟨hempty, hcurrent⟩ := not_or.mp hneither
  exact ⟨hempty, hcurrent, hne, not_mem_of_mem_split hpiece⟩

theorem isComponent_plain {name : String} (hname : PlainName name) :
    isComponent name = true := by
  simp [isComponent, hname.ne_empty, hname.ne_current]

theorem toList_separator : ("/" : String).toList = ['/'] :=
  rfl

/-- A text that ends with the separator is the separator behind a text. -/
theorem eq_append_separator {text : String} (h : text.toList.getLast? = some '/') :
    ∃ front, text = front ++ "/" := by
  refine ⟨String.ofList text.toList.dropLast, String.toList_inj.mp ?_⟩
  rw [String.toList_append, String.toList_ofList, toList_separator,
    List.dropLast_append_getLast? _ h]

/-- Joining a relative text adds its pieces. -/
theorem split_join_relative (base : PathBuf) {text : String}
    (hrelative : text.toList.head? ≠ some '/') :
    ∃ before, split (base.join text).raw '/' = before ++ split text '/' ∧
      before.filter isComponent = base.components := by
  rw [join]
  rw [if_neg hrelative, components_eq]
  by_cases hempty : base.raw = ""
  · refine ⟨[], ?_, ?_⟩
    · simp [hempty]
    · rw [hempty]
      rfl
  · by_cases htrailing : base.raw.toList.getLast? = some '/'
    · obtain ⟨front, hfront⟩ := eq_append_separator htrailing
      have hbase : split base.raw '/' = split front '/' ++ [""] := by
        rw [hfront, ← String.append_empty (s := front ++ "/"),
          split_append toList_separator]
        rfl
      refine ⟨split front '/', ?_, ?_⟩
      · simp only [htrailing, BEq.rfl, Bool.or_true, if_true]
        rw [hfront, split_append toList_separator]
      · rw [hbase, List.filter_append]
        exact (List.append_nil _).symm
    · refine ⟨split base.raw '/', ?_, rfl⟩
      simp only [String.isEmpty_iff, hempty, Bool.or_eq_true, beq_iff_eq, htrailing, or_self,
        if_false]
      rw [split_append toList_separator]

theorem components_join_relative (base : PathBuf) {text : String}
    (hrelative : text.toList.head? ≠ some '/') :
    (base.join text).components = base.components ++ (PathBuf.mk text).components := by
  obtain ⟨before, hsplit, hbefore⟩ := split_join_relative base hrelative
  rw [components_eq, components_eq ⟨text⟩, hsplit, List.filter_append, hbefore]

/-- Joining a plain name adds it as the last piece of the text. -/
theorem split_join_plain (base : PathBuf) {name : String} (hname : PlainName name) :
    ∃ before, split (base.join name).raw '/' = before ++ [name] ∧
      before.filter isComponent = base.components := by
  rw [← split_of_not_mem hname.no_separator]
  apply split_join_relative
  intro h
  exact hname.no_separator (List.mem_of_mem_head? h)

theorem components_join_plain {base : PathBuf} {name : String} (hname : PlainName name) :
    (base.join name).components = base.components ++ [name] := by
  obtain ⟨before, hsplit, hbefore⟩ := split_join_plain base hname
  rw [components_eq, hsplit, List.filter_append, hbefore,
    List.filter_cons_of_pos (isComponent_plain hname), List.filter_nil]

theorem requiresDirectory_join_plain {base : PathBuf} {name : String}
    (hname : PlainName name) : (base.join name).requiresDirectory = false := by
  obtain ⟨before, hsplit, -⟩ := split_join_plain base hname
  rw [requiresDirectory]
  rw [hsplit, List.getLast?_concat, Option.any_some]
  simp [hname.ne_empty, hname.ne_current]

/-- The text of a canonical path splits into its names behind the root. -/
theorem split_ofLocation {location : Location} (hplain : ∀ name ∈ location, PlainName name)
    (hne : location ≠ []) : split (ofLocation location).raw '/' = "" :: location := by
  have hraw : (ofLocation location).raw = "" ++ "/" ++ Text.join location "/" := by
    rw [String.empty_append]
    rfl
  rw [hraw, split_append toList_separator,
    split_join toList_separator hne fun name hname => (hplain name hname).no_separator]
  rfl

theorem components_ofLocation {location : Location}
    (hplain : ∀ name ∈ location, PlainName name) :
    (ofLocation location).components = location := by
  by_cases hne : location = []
  · subst hne
    rfl
  · rw [components_eq, split_ofLocation hplain hne]
    apply (List.filter_cons_of_neg (by decide)).trans
    rw [List.filter_eq_self]
    intro name hname
    exact isComponent_plain (hplain name hname)

theorem requiresDirectory_ofLocation {location : Location}
    (hplain : ∀ name ∈ location, PlainName name) (hne : location ≠ []) :
    (ofLocation location).requiresDirectory = false := by
  have hlast : PlainName (location.getLast hne) := hplain _ (List.getLast_mem hne)
  rw [requiresDirectory]
  rw [split_ofLocation hplain hne, List.getLast?_cons_of_ne_nil hne,
    List.getLast?_eq_some_getLast hne, Option.any_some]
  simp [hlast.ne_empty, hlast.ne_current]

end PathBuf

/-- A root that `std::fs::canonicalize` returned. -/
structure CanonicalRoot (os : Os) (root : PathBuf) (location : Location) : Prop where
  plain : ∀ name ∈ location, PlainName name
  text : root = PathBuf.ofLocation location
  resolves : os.canonicalize root = .ok location

/-- A path below a root: the root joined with plain names. -/
def PathBelow (root path : PathBuf) : Prop :=
  ∃ names : List String, (∀ name ∈ names, PlainName name) ∧
    path = names.foldl PathBuf.join root

/-- The last component of a path below a canonical root is the last thing in its
text. -/
theorem PathBelow.no_trailing_separator {os : Os} {root path : PathBuf} {location : Location}
    (hroot : CanonicalRoot os root location) (hpath : PathBelow root path) :
    path.requiresDirectory = false ∨ path.components = [] := by
  obtain ⟨names, hplain, rfl⟩ := hpath
  rcases List.eq_nil_or_concat names with rfl | ⟨before, last, rfl⟩
  · rw [List.foldl_nil, hroot.text]
    by_cases hne : location = []
    · right
      rw [PathBuf.components_ofLocation hroot.plain, hne]
    · left
      exact PathBuf.requiresDirectory_ofLocation hroot.plain hne
  · left
    rw [List.concat_eq_append, List.foldl_append, List.foldl_cons, List.foldl_nil]
    refine PathBuf.requiresDirectory_join_plain (hplain last ?_)
    rw [List.concat_eq_append]
    exact List.mem_append_cons_self

namespace Engine

/-! ## The cache in a fixed filesystem -/

/-- Every entry is what canonicalization yields. -/
def CacheSound (os : Os) (cache : CanonCache) : Prop :=
  ∀ entry ∈ cache, os.lookup entry.1 = .ok entry.2

section Cache

variable {os : Os} {cache : CanonCache} {path : PathBuf} {parent : List String}
  {location canonParent : Location}

theorem CacheSound.lookup (hsound : CacheSound os cache)
    (h : cache.lookup parent = some canonParent) : os.lookup parent = .ok canonParent := by
  obtain ⟨before, after, rfl, -⟩ := List.lookup_eq_some_iff.mp h
  exact hsound (parent, canonParent) (List.mem_append_cons_self)

theorem CacheSound.insert (hsound : CacheSound os cache)
    (h : os.lookup parent = .ok canonParent) :
    CacheSound os (insertEntry parent canonParent cache) := by
  intro entry hentry
  rcases List.mem_cons.mp hentry with rfl | hentry
  · exact h
  · exact hsound entry (List.mem_of_mem_filter hentry)

/-- Clearing at the cap and filling keep the cache sound. -/
theorem parentCachedCanonicalize_sound (hsound : CacheSound os cache) :
    CacheSound os (parentCachedCanonicalize os path cache).2 := by
  rw [parentCachedCanonicalize]
  split
  · split
    · exact hsound
    · split
      · exact hsound
      · next canonParent hparent =>
          refine CacheSound.insert ?_ hparent
          by_cases hfull : canonCacheMax ≤ cache.length
          · rw [if_pos hfull]
            intro entry hentry
            nomatch hentry
          · rw [if_neg hfull]
            exact hsound
  · exact hsound

/-- With a sound cache the shortcut through the parent finds the location of a
file that is not behind a final link. -/
theorem parentCachedCanonicalize_eq (hsound : CacheSound os cache)
    (hlink : os.finalIsSymlink path = false) (h : os.canonicalize path = .ok location) :
    (parentCachedCanonicalize os path cache).1 = .ok location := by
  rw [parentCachedCanonicalize]
  split
  · next parent name hparent hname =>
      obtain ⟨directory, hdirectory, rfl⟩ := Os.canonicalize_of_parent hname hlink h
      rw [PathBuf.parent_eq_some hparent] at hdirectory
      split
      · next canonParent hcached =>
          have hsame := hsound.lookup hcached
          rw [hdirectory, Except.ok.injEq] at hsame
          rw [hsame]
      · rw [hdirectory]
  · exact h

end Cache

/-! ## Requests below a root -/

/-- A request for a path below a root, in a given filesystem. -/
structure VisitBelow (os : Os) (root : PathBuf) (visit : Visit) : Prop where
  os_eq : visit.os = os
  containment : visit.request.containmentRoot = some root
  path : PathBelow root visit.request.path

/-- The file that was opened is the one its path names, it lies in the root or
below, and no final link led to it where links are denied. -/
structure OpenedWithin (os : Os) (location : Location) (request : OpenRequest)
    (opened : Opened) : Prop where
  resolved : os.canonicalize request.path = .ok opened.file
  below : location <+: opened.file
  no_link : request.denySymlinks = true → os.finalIsSymlink request.path = false

section Requests

variable {os : Os} {root : PathBuf} {location : Location} {visit : Visit}

/-- A file below a canonical root that opens without a followed link is not
behind a final link. -/
theorem openFile_not_symlink {file : Location} (hroot : CanonicalRoot os root location)
    (hpath : PathBelow root visit.request.path)
    (h : openFile os visit.request = .ok (file, false)) :
    os.finalIsSymlink visit.request.path = false := by
  rcases Os.openAt_noFollow ((openFile_ok h).2.1 rfl) with hdirectory | hlink
  · rcases hpath.no_trailing_separator hroot with hnone | hempty
    · rw [hnone] at hdirectory
      nomatch hdirectory
    · rw [Os.finalIsSymlink]
      rw [hempty]
      rfl
  · exact hlink

/-- One open, with any sound cache. -/
theorem openStat_within {id : ℕ} {state : EngineState} {opened : Opened}
    (hroot : CanonicalRoot os root location) (hvisit : VisitBelow os root visit)
    (hsound : CacheSound os state.canonCache)
    (h : (openStat os id visit.request state).1 = .ok opened) :
    OpenedWithin os location visit.request opened := by
  obtain ⟨finalIsSymlink, -, hopen, -, hverdict, -⟩ := openStatWith_ok h
  obtain ⟨hfile, -, hdenied⟩ := openFile_ok hopen
  obtain ⟨checked, hstarts, hlinked, hplain⟩ :=
    verifyContainment_ok hvisit.containment hverdict
  -- the location that was checked is the file that was opened
  have hchecked : checked = opened.file := by
    cases finalIsSymlink with
    | true =>
        have hcanonical := hlinked rfl
        rw [hfile, Except.ok.injEq] at hcanonical
        exact hcanonical.symm
    | false =>
        have hlink := openFile_not_symlink hroot hvisit.path hopen
        have hcanonical := hplain rfl
        rw [parentCachedCanonicalize_eq hsound hlink hfile, Except.ok.injEq] at hcanonical
        exact hcanonical.symm
  refine ⟨hfile, ?_, ?_⟩
  · rw [startsWith] at hstarts
    rw [hroot.text, PathBuf.components_ofLocation hroot.plain, List.isPrefixOf_iff_prefix,
      hchecked] at hstarts
    exact hstarts
  · intro hdeny
    cases finalIsSymlink with
    | true =>
        rw [hdenied rfl] at hdeny
        nomatch hdeny
    | false => exact openFile_not_symlink hroot hvisit.path hopen

theorem openStat_sound {id : ℕ} {request : OpenRequest} {state : EngineState}
    (hsound : CacheSound os state.canonCache) :
    CacheSound os (openStat os id request state).2.canonCache := by
  rw [openStat]
  rcases openStatWith_canonCache with hcache | hcache
  · rw [hcache]
    exact hsound
  · rw [hcache]
    exact parentCachedCanonicalize_sound hsound

/-- What holds of a session with a fixed filesystem and root. -/
structure Contained (os : Os) (location : Location) (session : Session) : Prop where
  sound : CacheSound os session.state.canonCache
  within : ∀ answer ∈ session.answers, ∀ opened, answer.outcome = .ok opened →
    OpenedWithin os location answer.visit.request opened

theorem Contained.start : Contained os location .start where
  sound := nofun
  within := nofun

theorem Contained.serve {session next : Session} (hcontained : Contained os location session)
    (hroot : CanonicalRoot os root location) (hvisit : VisitBelow os root visit)
    (hserve : session.serve visit = some next) : Contained os location next := by
  rw [Session.serve, Session.serveWith] at hserve
  cases hserve
  rw [hvisit.os_eq]
  constructor
  · exact openStat_sound hcontained.sound
  · intro answer hanswer opened hopened
    rcases List.mem_append.mp hanswer with hearlier | hlast
    · exact hcontained.within answer hearlier opened hopened
    · rw [List.mem_singleton] at hlast
      subst hlast
      exact openStat_within hroot hvisit hcontained.sound hopened

end Requests

/-- In a filesystem that does not change, whatever was requested before and
whatever the cache holds: a file that opens for a path below a canonical root is
the one that full resolution of the path names, it lies in the root or below it,
and where links are denied the final component is none. -/
theorem opened_files_lie_below_root {os : Os} {root : PathBuf} {location : Location}
    {visits : List Visit} {session : Session} (hroot : CanonicalRoot os root location)
    (hrun : Transition.Run Session.serve (fun _ visit => VisitBelow os root visit)
      .start visits session) :
    ∀ answer ∈ session.answers, ∀ opened, answer.outcome = .ok opened →
      os.canonicalize answer.visit.request.path = .ok opened.file ∧
        location <+: opened.file ∧
        (answer.visit.request.denySymlinks = true →
          os.finalIsSymlink answer.visit.request.path = false) := by
  have hcontained : Contained os location session :=
    hrun.invariant Contained.start fun _ _ _ hcontained hvisit hserve =>
      hcontained.serve hroot hvisit hserve
  intro answer hanswer opened hopened
  have hwithin := hcontained.within answer hanswer opened hopened
  exact ⟨hwithin.resolved, hwithin.below, hwithin.no_link⟩

/-- `/srv` with `hello.txt`, the directory `pages`, the link `latest` to it and,
in it, a link to `hello.txt`. -/
def linkedOs : Os :=
  .ofTree fun location =>
    match location with
    | [] => some (.directory ⟨0, .ok 0⟩)
    | ["srv"] => some (.directory ⟨0, .ok 0⟩)
    | ["srv", "hello.txt"] => some (.file ⟨[104, 105], .ok 0⟩)
    | ["srv", "latest"] => some (.symlink false [.name "pages"])
    | ["srv", "pages"] => some (.directory ⟨0, .ok 0⟩)
    | ["srv", "pages", "a.txt"] => some (.file ⟨[97], .ok 0⟩)
    | ["srv", "pages", "hello.txt"] =>
        some (.symlink false [.parent, .name "hello.txt"])
    | _ => none

def linkedRequest (path : String) (denySymlinks : Bool) : Visit :=
  ⟨linkedOs, ⟨⟨path⟩, some ⟨"/srv"⟩, denySymlinks, 4096⟩⟩

theorem opened_files_lie_below_root_linked :
    ∃ session : Session,
      session.answers.map (fun answer => answer.outcome.toOption.map Opened.file) =
          [some ["srv", "pages", "a.txt"], some ["srv", "pages", "a.txt"],
            some ["srv", "hello.txt"]] ∧
        ∀ answer ∈ session.answers, ∀ opened, answer.outcome = .ok opened →
          linkedOs.canonicalize answer.visit.request.path = .ok opened.file ∧
            ["srv"] <+: opened.file ∧
            (answer.visit.request.denySymlinks = true →
              linkedOs.finalIsSymlink answer.visit.request.path = false) := by
  have hroot : CanonicalRoot linkedOs ⟨"/srv"⟩ ["srv"] := by
    refine ⟨?_, rfl, by decide +kernel⟩
    intro name hname
    rw [List.mem_singleton] at hname
    subst hname
    constructor <;> decide
  have hbelow : ∀ names : List String, ∀ denySymlinks,
      (∀ name ∈ names, name = "latest" ∨ name = "pages" ∨ name = "a.txt" ∨
        name = "hello.txt") →
      VisitBelow linkedOs ⟨"/srv"⟩
        (linkedRequest (names.foldl PathBuf.join ⟨"/srv"⟩).raw denySymlinks) := by
    intro names denySymlinks hnames
    refine ⟨rfl, rfl, names, ?_, rfl⟩
    intro name hname
    rcases hnames name hname with rfl | rfl | rfl | rfl <;> constructor <;> decide
  have hrun : Transition.Run Session.serve
      (fun _ visit => VisitBelow linkedOs ⟨"/srv"⟩ visit) .start _ _ :=
    .cons (hbelow ["latest", "a.txt"] true (by decide)) rfl <|
      .cons (hbelow ["latest", "a.txt"] true (by decide)) rfl <|
        .cons (hbelow ["pages", "hello.txt"] false (by decide)) rfl <| .nil _
  exact ⟨_, by decide +kernel, opened_files_lie_below_root hroot hrun⟩

end Engine

end EnvoyFiles
