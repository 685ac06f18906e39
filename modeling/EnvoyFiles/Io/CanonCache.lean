import EnvoyFiles.Io.Engine
import EnvoyFiles.Support.Transition

/-!
# The canonicalization cache in a changing filesystem

The engine is compared with one that canonicalizes every path anew.  Between
two requests the filesystem may become any other one.  The two give the same
answers as long as no cached directory has crossed the root and no path ends in
a separator behind a link that crosses it; a directory that is replaced by a
link out of the root is still served.
-/

namespace EnvoyFiles

namespace Engine

/-- The verdict on a path in a directory that has been located. -/
def insideRoot (directory : Location) (name : String) (root : PathBuf) : Bool :=
  startsWith (directory ++ [name]) root

/-- What the shortcut through the parent relies on when a file has been opened at
a path. -/
structure ShortcutAgrees (os : Os) (cache : CanonCache) (path root : PathBuf)
    (file : Location) : Prop where
  /-- A cached directory lies in the root, with the file's name, exactly when
  the directory of that path does now. -/
  entry : ∀ parent name held present, path.parent = some parent →
    path.fileName = some name → cache.lookup parent = some held →
    os.lookup parent = .ok present → insideRoot held name root = insideRoot present name root
  /-- A link in front of a final separator lies in the root exactly when what it
  leads to does. -/
  link : path.requiresDirectory = true → os.finalIsSymlink path = true →
    ∀ parent name present, path.parent = some parent → path.fileName = some name →
    os.lookup parent = .ok present → insideRoot present name root = startsWith file root

/-- The condition on a request and the state in which it is served; it only
concerns what opens without following a link. -/
def CacheAgrees (session : Session) (visit : Visit) : Prop :=
  ∀ root file, visit.request.containmentRoot = some root →
    visit.os.openAt visit.request.path true = .ok file →
    ShortcutAgrees visit.os session.state.canonCache visit.request.path root file

/-- The engine without the cache gives the same answers, and every file that is
served below a root lies in it when it is served. -/
structure Transparent (visits : List Visit) (session : Session) : Prop where
  same_answers : ∃ uncached, Transition.Run (Session.serveWith uncachedCanonicalize)
    (fun _ _ => True) .start visits uncached ∧ session.answers = uncached.answers
  inside : ∀ answer ∈ session.answers, ∀ opened root, answer.outcome = .ok opened →
    answer.visit.request.containmentRoot = some root →
      answer.visit.os.canonicalize answer.visit.request.path = .ok opened.file ∧
        startsWith opened.file root = true

/-! ## One request -/

section Requests

variable {os : Os} {cache : CanonCache} {path root : PathBuf} {location : Location}
  {request : OpenRequest} {id : ℕ} {state other : EngineState} {opened : Opened}

/-- The shortcut gives the verdict of the location that the path leads to. -/
theorem ShortcutAgrees.verdict (hagrees : ShortcutAgrees os cache path root location)
    (hopen : os.openAt path true = .ok location) :
    ∃ checked, (parentCachedCanonicalize os path cache).1 = .ok checked ∧
      startsWith checked root = startsWith location root := by
  have h := Os.openAt_canonicalize hopen
  rw [parentCachedCanonicalize]
  split
  · next parent name hparent hname =>
      obtain ⟨present, hpresent⟩ := Os.lookup_parent hname h
      rw [PathBuf.parent_eq_some hparent] at hpresent
      -- the present directory with the file's name is judged like the file
      have hnow : insideRoot present name root = startsWith location root := by
        by_cases hlink : os.finalIsSymlink path = true
        · have hdirectory : path.requiresDirectory = true := by
            rcases Os.openAt_noFollow hopen with hdirectory | hnone
            · exact hdirectory
            · rw [hlink] at hnone
              nomatch hnone
          exact hagrees.link hdirectory hlink parent name present hparent hname hpresent
        · rw [Bool.not_eq_true] at hlink
          obtain ⟨directory, hdirectory, rfl⟩ := Os.canonicalize_of_parent hname hlink h
          rw [PathBuf.parent_eq_some hparent, hpresent, Except.ok.injEq] at hdirectory
          rw [hdirectory]
          rfl
      split
      · next held hheld =>
          refine ⟨held ++ [name], rfl, ?_⟩
          rw [← hnow]
          exact hagrees.entry parent name held present hparent hname hheld hpresent
      · rw [hpresent]
        exact ⟨present ++ [name], rfl, hnow⟩
  · exact ⟨location, h, rfl⟩

/-- An open whose shortcut agrees returns what it would without the cache. -/
theorem openStat_eq_uncached
    (hagrees : ∀ root file, request.containmentRoot = some root →
      os.openAt request.path true = .ok file →
      ShortcutAgrees os state.canonCache request.path root file) :
    (openStat os id request state).1 =
      (openStatWith uncachedCanonicalize os id request other).1 := by
  rw [openStat]
  apply openStatWith_congr
  intro file finalIsSymlink hopen
  obtain ⟨hfile, hplain, -⟩ := openFile_ok hopen
  simp only [verifyContainment]
  cases hroot : request.containmentRoot with
  | none => rfl
  | some root =>
      cases finalIsSymlink with
      | true =>
          simp only [hfile, if_true]
      | false =>
          obtain ⟨checked, hchecked, hverdict⟩ :=
            (hagrees root file hroot (hplain rfl)).verdict (hplain rfl)
          cases hshortcut : parentCachedCanonicalize os request.path state.canonCache with
          | mk found cache =>
              rw [hshortcut] at hchecked
              dsimp only at hchecked
              subst hchecked
              simp only [uncachedCanonicalize, hfile, hverdict,
                Bool.false_eq_true, if_false]

/-- Without the cache what is served lies in the root. -/
theorem uncached_inside (hroot : request.containmentRoot = some root)
    (h : (openStatWith uncachedCanonicalize os id request state).1 = .ok opened) :
    os.canonicalize request.path = .ok opened.file ∧ startsWith opened.file root = true := by
  obtain ⟨finalIsSymlink, -, hopen, -, hverdict, -⟩ := openStatWith_ok h
  obtain ⟨hfile, -, -⟩ := openFile_ok hopen
  obtain ⟨checked, hstarts, hlinked, hplain⟩ := verifyContainment_ok hroot hverdict
  refine ⟨hfile, ?_⟩
  have hchecked : os.canonicalize request.path = .ok checked := by
    cases finalIsSymlink with
    | true => exact hlinked rfl
    | false => exact hplain rfl
  rw [hfile, Except.ok.injEq] at hchecked
  rw [hchecked]
  exact hstarts

end Requests

/-! ## Runs -/

/-- A session and one without the cache that have given the same answers, each
of them the answer that is given without the cache. -/
structure SameAnswers (session uncached : Session) : Prop where
  next_id : session.nextId = uncached.nextId
  answers : session.answers = uncached.answers
  fresh : ∀ answer ∈ uncached.answers, ∃ state,
    answer.outcome = (openStatWith uncachedCanonicalize answer.visit.os answer.id
      answer.visit.request state).1

theorem SameAnswers.serve {session next uncached : Session} {visit : Visit}
    (hsame : SameAnswers session uncached) (hagrees : CacheAgrees session visit)
    (hserve : session.serve visit = some next) :
    ∃ next', uncached.serveWith uncachedCanonicalize visit = some next' ∧
      SameAnswers next next' := by
  refine ⟨_, rfl, ?_⟩
  have houtcome : (openStatWith parentCachedCanonicalize visit.os session.nextId
        visit.request session.state).1 =
      (openStatWith uncachedCanonicalize visit.os uncached.nextId visit.request
        uncached.state).1 := by
    rw [← hsame.next_id]
    exact openStat_eq_uncached hagrees
  rw [Session.serve, Session.serveWith] at hserve
  cases hserve
  constructor
  · exact congrArg (· + 1) hsame.next_id
  · dsimp only
    rw [houtcome, hsame.answers, hsame.next_id]
  · intro answer hanswer
    rcases List.mem_append.mp hanswer with hearlier | hlast
    · exact hsame.fresh answer hearlier
    · rw [List.mem_singleton] at hlast
      subst hlast
      exact ⟨uncached.state, rfl⟩

/-- As long as every request is served in a state where the shortcut through the
parent agrees with the filesystem, the cache is transparent, whatever happens to
the filesystem between the requests. -/
theorem agreeing_cache_is_transparent {visits : List Visit} {session : Session}
    (hrun : Transition.Run Session.serve CacheAgrees .start visits session) :
    Transparent visits session := by
  have hstart : SameAnswers .start .start := ⟨rfl, rfl, nofun⟩
  obtain ⟨uncached, huncached, hsame⟩ := hrun.simulates hstart
    fun _ _ _ _ hsame hagrees hserve => hsame.serve hagrees hserve
  refine ⟨⟨uncached, huncached, hsame.answers⟩, ?_⟩
  intro answer hanswer opened root hopened hroot
  rw [hsame.answers] at hanswer
  obtain ⟨state, hfresh⟩ := hsame.fresh answer hanswer
  rw [hopened] at hfresh
  exact uncached_inside hroot hfresh.symm

/-- `/srv/pages` is what is given, next to the directories `/srv/other` and
`/out`. -/
def pagesOs (pages : PathTree.Node String RegularFile Directory) : Os :=
  .ofTree fun location =>
    match location with
    | [] | ["srv"] | ["srv", "other"] | ["out"] => some (.directory ⟨0, .ok 0⟩)
    | ["srv", "pages"] => some pages
    | ["srv", "pages", "a.txt"] => some (.file ⟨[97], .ok 0⟩)
    | ["srv", "other", "a.txt"] => some (.file ⟨[98], .ok 0⟩)
    | ["out", "a.txt"] => some (.file ⟨[99], .ok 0⟩)
    | _ => none

def pagesVisit (pages : PathTree.Node String RegularFile Directory) : Visit :=
  ⟨pagesOs pages, ⟨⟨"/srv/pages/a.txt"⟩, some ⟨"/srv"⟩, false, 4096⟩⟩

/-- A directory that is replaced by a link to another one below the root. -/
theorem agreeing_cache_is_transparent_moved :
    ∃ session, Transparent
      [pagesVisit (.directory ⟨0, .ok 0⟩), pagesVisit (.symlink false [.name "other"])]
      session := by
  obtain ⟨first, hfirst⟩ : ∃ first,
      Session.serve .start (pagesVisit (.directory ⟨0, .ok 0⟩)) = some first := ⟨_, rfl⟩
  have hcache : first.state.canonCache = [(["srv", "pages"], ["srv", "pages"])] := by
    have hserved : (Session.serve .start (pagesVisit (.directory ⟨0, .ok 0⟩))).map
        (fun session => session.state.canonCache) =
          some [(["srv", "pages"], ["srv", "pages"])] := by decide +kernel
    rw [hfirst] at hserved
    exact Option.some.inj hserved
  refine ⟨_, agreeing_cache_is_transparent (.cons ?_ hfirst (.cons ?_ rfl (.nil _)))⟩
  · rintro root file hroot -
    cases hroot
    refine ⟨?_, nofun⟩
    intro parent name held present hparent hname hheld hpresent
    nomatch hheld
  · rintro root file hroot -
    cases hroot
    refine ⟨?_, nofun⟩
    intro parent name held present hparent hname hheld hpresent
    obtain rfl : ["srv", "pages"] = parent := Option.some.inj hparent
    obtain rfl : "a.txt" = name := Option.some.inj hname
    rw [hcache] at hheld
    obtain rfl : ["srv", "pages"] = held := Option.some.inj hheld
    obtain rfl : ["srv", "other"] = present := Except.ok.inj hpresent
    decide

/-- A directory that is replaced by a link out of the root is still served from
where it was when it was first opened. -/
theorem replaced_directory_is_served_from_outside :
    ¬∀ visits session,
      Transition.Run Session.serve (fun _ _ => True) .start visits session →
        Transparent visits session := by
  intro htransparent
  obtain ⟨session, hrun, hlast⟩ : ∃ session,
      Transition.Run Session.serve (fun _ _ => True) .start
        [pagesVisit (.directory ⟨0, .ok 0⟩), pagesVisit (.symlink true [.name "out"])]
        session ∧
      (session.answers.getLast?.bind fun answer => answer.outcome.toOption.map fun opened =>
        (answer.visit.request.containmentRoot, opened.file)) =
          some (some ⟨"/srv"⟩, ["out", "a.txt"]) :=
    ⟨_, .cons trivial rfl (.cons trivial rfl (.nil _)), by decide +kernel⟩
  obtain ⟨answer, hanswer, hopened⟩ := Option.bind_eq_some_iff.mp hlast
  obtain ⟨opened, houtcome, hfile⟩ := Option.map_eq_some_iff.mp hopened
  have hserved : answer.outcome = .ok opened := by
    cases hresult : answer.outcome with
    | error error =>
        rw [hresult] at houtcome
        nomatch houtcome
    | ok served =>
        rw [hresult] at houtcome
        rw [Option.some.inj houtcome]
  rw [Prod.mk.injEq] at hfile
  have hinside := ((htransparent _ session hrun).inside answer
    (List.mem_of_getLast? hanswer) opened _ hserved hfile.1).2
  rw [hfile.2] at hinside
  exact absurd hinside (by decide)

end Engine

end EnvoyFiles
