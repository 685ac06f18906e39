import EnvoyFiles.Server.Quiescence

/-!
# What a server keeps

The engine keeps a file open for a handle that is alive or on its way to `close`, and for
nothing else, so its tables stay small; once its loop has ended it keeps no file and calls
nothing back.
-/

namespace EnvoyFiles

open Filter

/-- `insert` replaces an entry. -/
theorem nodup_insertEntry {κ ν : Type*} [DecidableEq κ] (key : κ) (value : ν)
    {entries : List (κ × ν)} (h : (entries.map Prod.fst).Nodup) :
    ((insertEntry key value entries).map Prod.fst).Nodup := by
  rw [insertEntry, List.map_cons, List.nodup_cons]
  constructor
  · intro hmem
    obtain ⟨entry, hentry, hkey⟩ := List.mem_map.mp hmem
    have hne := (List.mem_filter.mp hentry).2
    simp [hkey] at hne
  · exact h.sublist (List.filter_sublist.map Prod.fst)

namespace Engine

/-- The cache is emptied where it would grow too large. -/
theorem parentCachedCanonicalize_length {os : Os} {path : PathBuf} {cache : CanonCache}
    (h : cache.length ≤ canonCacheMax) :
    (parentCachedCanonicalize os path cache).2.length ≤ canonCacheMax := by
  have hinsert {parent : List String} {location : Location} {small : CanonCache}
      (hsmall : small.length < canonCacheMax) :
      (insertEntry parent location small).length ≤ canonCacheMax := by
    rw [insertEntry, List.length_cons]
    exact (Nat.succ_le_succ (List.length_filter_le _ _)).trans hsmall
  rw [parentCachedCanonicalize]
  split
  · split
    · exact h
    · split
      · exact h
      · dsimp only
        split
        · exact hinsert (by decide)
        · next hroom => exact hinsert (Nat.lt_of_not_le hroom)
  · exact h

theorem openStat_cache_length {os : Os} {id : ℕ} {request : OpenRequest} {state : EngineState}
    (h : state.canonCache.length ≤ canonCacheMax) :
    (openStat os id request state).2.canonCache.length ≤ canonCacheMax := by
  have hcache : (openStat os id request state).2.canonCache = state.canonCache ∨
      (openStat os id request state).2.canonCache =
        (parentCachedCanonicalize os request.path state.canonCache).2 :=
    openStatWith_canonCache
  rcases hcache with hsame | hcanonicalized
  · rw [hsame]
    exact h
  · rw [hcanonicalized]
    exact parentCachedCanonicalize_length h

end Engine

namespace Reactor

/-- The tables of an engine. -/
structure Tidy {κ : Type} (s : Reactor κ) : Prop where
  files : (s.files.map Prod.fst).Nodup
  cache : s.canonCache.length ≤ Engine.canonCacheMax
  ended : s.running = false → s.files = []

section Tidy

variable {κ : Type} {s t : Reactor κ} {index : ℕ} {onDone : κ}

theorem tidy_initial : (initial : Reactor κ).Tidy :=
  ⟨List.nodup_nil, Nat.zero_le _, fun _ => rfl⟩

theorem Tidy.of_eq (h : s.Tidy) (hfiles : t.files = s.files)
    (hcache : t.canonCache = s.canonCache) (hrunning : t.running = s.running) : t.Tidy where
  files := by
    rw [hfiles]
    exact h.files
  cache := by
    rw [hcache]
    exact h.cache
  ended hstopped := by
    rw [hfiles]
    exact h.ended (hrunning ▸ hstopped)

/-- A turn of the loop closes files, and its end closes them all. -/
theorem Tidy.takeCommand (h : s.Tidy) (htake : s.takeCommand = some t) : t.Tidy where
  files := by
    rw [Reactor.takeCommand] at htake
    split at htake
    · split at htake
      · cases htake
      · cases htake
        exact List.nodup_nil
      · cases htake
        exact h.files.sublist (List.filter_sublist.map Prod.fst)
      all_goals
        cases htake
        exact h.files
    · cases htake
  cache := by
    rw [(takeCommand_frame htake).2]
    exact h.cache
  ended hstopped := by
    rw [takeCommand_stop htake hstopped]
    rfl

theorem Tidy.finishOpen (h : s.Tidy) {os : Os} {descriptor : ℕ} {result : Except IoError Opened}
    (hrunning : s.running = true)
    (hfinish : s.finishOpen index os descriptor = some (t, onDone, result)) : t.Tidy where
  files := by
    obtain ⟨id, request, state, -, -, hnext⟩ := finishOpen_cases hfinish
    cases result with
    | error error =>
        dsimp only at hnext
        rw [hnext]
        exact h.files
    | ok opened =>
        dsimp only at hnext
        rw [hnext, register]
        dsimp only
        split
        · exact h.files
        · exact nodup_insertEntry _ _ h.files
  cache := by
    obtain ⟨id, request, -, -, hcache, -⟩ := finishOpen_jobs hfinish
    rw [hcache]
    exact Engine.openStat_cache_length h.cache
  ended hstopped := by
    rw [(finishOpen_handles hfinish).1, hrunning] at hstopped
    cases hstopped

end Tidy

end Reactor

namespace Server

/-! ## Steps -/

section Steps

variable {crates : Crates} {cfg : Config} {ok : Server → Action → Prop} {n : ℕ} {s t : Server}
  {action : Action} {actions : List Action} {reactor : Reactor OnDone} {onDone : OnDone}
  {completion : Completion}

theorem runCallback_tables (h : runCallback { s with reactor } onDone completion = some t) :
    t.reactor.files = reactor.files ∧ t.reactor.canonCache = reactor.canonCache ∧
      t.reactor.running = reactor.running := by
  obtain ⟨stream, event, -, -, rfl⟩ := runCallback_cases h
  exact ⟨rfl, rfl, rfl⟩

theorem post_tables (reactor : Reactor OnDone) (command : Posted OnDone) :
    (reactor.post command).files = reactor.files ∧
      (reactor.post command).canonCache = reactor.canonCache ∧
        (reactor.post command).running = reactor.running := by
  obtain ⟨commands, heq⟩ := reactor.post_eq command
  rw [heq]
  exact ⟨rfl, rfl, rfl⟩

/-- Only the loop of the engine and the end of an open change its tables. -/
theorem step_tables (h : step crates cfg s action = some t) :
    (t.reactor.files = s.reactor.files ∧ t.reactor.canonCache = s.reactor.canonCache ∧
        t.reactor.running = s.reactor.running) ∨
      s.reactor.takeCommand = some t.reactor ∨
      ∃ index os descriptor reactor onDone result,
        s.reactor.finishOpen index os descriptor = some (reactor, onDone, result) ∧
          t.reactor.files = reactor.files ∧ t.reactor.canonCache = reactor.canonCache ∧
            t.reactor.running = reactor.running := by
  cases action with
  | newStream =>
      cases h
      exact Or.inl ⟨rfl, rfl, rfl⟩
  | callback index action =>
      obtain ⟨stream, filter, -, -, -, -, rfl⟩ := callback_cases h
      exact Or.inl ⟨rfl, rfl, rfl⟩
  | claimId index =>
      obtain ⟨stream, -, hnext⟩ := Option.bind_eq_some_iff.mp h
      split at hnext
      · cases hnext
        exact Or.inl ⟨rfl, rfl, rfl⟩
      · cases hnext
  | submit index =>
      obtain ⟨stream, -, hnext⟩ := Option.bind_eq_some_iff.mp h
      split at hnext
      · obtain ⟨position, -, hnext⟩ := Option.bind_eq_some_iff.mp hnext
        obtain ⟨reactor, hread, hnext⟩ := Option.bind_eq_some_iff.mp hnext
        cases hnext
        obtain ⟨entry, -, hposted⟩ := Option.bind_eq_some_iff.mp hread
        rw [← Option.some.inj hposted]
        exact Or.inl (post_tables _ _)
      · cases hnext
        exact Or.inl (post_tables _ _)
      · cases hnext
  | sendOpen index =>
      obtain ⟨reactor, hsend, hnext⟩ := Option.bind_eq_some_iff.mp h
      cases hnext
      obtain ⟨item, -, hposted⟩ := Option.bind_eq_some_iff.mp hsend
      rw [← Option.some.inj hposted]
      exact Or.inl (post_tables _ _)
  | destroy index =>
      obtain ⟨stream, -, hnext⟩ := Option.bind_eq_some_iff.mp h
      split at hnext
      · cases hnext
        exact Or.inl ⟨rfl, rfl, rfl⟩
      · cases hnext
  | dropInner index =>
      obtain ⟨reactor, hdrop, hnext⟩ := Option.bind_eq_some_iff.mp h
      cases hnext
      obtain ⟨inner, -, hposted⟩ := Option.bind_eq_some_iff.mp hdrop
      rw [← Option.some.inj hposted]
      split
      · exact Or.inl (post_tables _ _)
      · exact Or.inl ⟨rfl, rfl, rfl⟩
  | shutdown =>
      cases h
      exact Or.inl (post_tables _ _)
  | takeCommand =>
      obtain ⟨reactor, htake, hnext⟩ := Option.bind_eq_some_iff.mp h
      cases hnext
      exact Or.inr (Or.inl htake)
  | finishOpen index os descriptor =>
      obtain ⟨⟨reactor, onDone, result⟩, hfinish, hnext⟩ := Option.bind_eq_some_iff.mp h
      exact Or.inr (Or.inr ⟨_, _, _, _, _, _, hfinish, runCallback_tables hnext⟩)
  | finishRead index reply =>
      obtain ⟨⟨reactor, onDone, result⟩, hfinish, hnext⟩ := Option.bind_eq_some_iff.mp h
      have htables := runCallback_tables hnext
      obtain ⟨item, -, hitem⟩ := Option.bind_eq_some_iff.mp hfinish
      cases hitem
      exact Or.inl htables
  | finishReadDir index result =>
      obtain ⟨⟨reactor, onDone, result'⟩, hfinish, hnext⟩ := Option.bind_eq_some_iff.mp h
      have htables := runCallback_tables hnext
      obtain ⟨item, -, hitem⟩ := Option.bind_eq_some_iff.mp hfinish
      cases hitem
      exact Or.inl htables

/-- Behind its end the engine has no open that could end. -/
theorem Sound.no_open (h : Sound crates cfg n s) {index : ℕ} {os : Os} {descriptor : ℕ}
    (hfinish : s.reactor.finishOpen index os descriptor ≠ none) :
    s.reactor.running = true := by
  by_contra hstopped
  obtain ⟨hopening, -, -⟩ := h.stopped (by simpa using hstopped)
  rw [Reactor.finishOpen, hopening] at hfinish
  exact hfinish rfl

theorem step_tidy (h : Sound crates cfg n s) (htidy : s.reactor.Tidy)
    (hstep : step crates cfg s action = some t) : t.reactor.Tidy := by
  obtain ⟨hfiles, hcache, hrunning⟩ | htake |
    ⟨_, _, _, _, _, _, hfinish, hfiles, hcache, hrunning⟩ := step_tables hstep
  · exact htidy.of_eq hfiles hcache hrunning
  · exact htidy.takeCommand htake
  · have hgoes := h.no_open (hfinish ▸ Option.some_ne_none _)
    exact (htidy.finishOpen hgoes hfinish).of_eq hfiles hcache hrunning

theorem run_tidy (h : Sound crates cfg n s) (hdrawn : n + opens actions < CompioEngine.idRange)
    (htidy : s.reactor.Tidy) (hrun : ServerRun crates cfg ok s actions t) : t.reactor.Tidy := by
  induction hrun generalizing n with
  | nil s => exact htidy
  | @cons s u t action actions hok hstep hrest ih =>
      rw [opens_cons, ← add_assoc] at hdrawn
      exact ih (step_sound h (by omega) hstep) hdrawn (step_tidy h htidy hstep)

/-- An engine that has ended does not go on. -/
theorem step_stopped (h : Sound crates cfg n s) (hstopped : s.reactor.running = false)
    (hstep : step crates cfg s action = some t) :
    t.reactor.running = false ∧ action.finishes = false := by
  constructor
  · obtain ⟨-, -, hrunning⟩ | htake | ⟨_, _, _, _, _, _, hfinish, -⟩ := step_tables hstep
    · exact hrunning.trans hstopped
    · cases hstopped.symm.trans (Reactor.takeCommand_running htake)
    · cases hstopped.symm.trans (h.no_open (hfinish ▸ Option.some_ne_none _))
  · by_contra hfinishes
    cases hstopped.symm.trans (h.running hstep (by simpa using hfinishes))

end Steps

/-! ## Open files -/

section Files

variable {crates : Crates} {cfg : Config} {ok : Server → Action → Prop} {n : ℕ} {s t : Server}
  {actions : List Action}

end Files

/-! ## The load of the engine -/

section Load

variable {crates : Crates} {cfg : Config} {ok : Server → Action → Prop} {s : Server}
  {actions : List Action}

/-- What holds of each stream adds up. -/
theorem card_jobs_le {bound : ℕ} (streams : ℕ) (jobs : Multiset (Job OnDone))
    (howner : ∀ job ∈ jobs, job.onDone.stream < streams)
    (hbound : ∀ index < streams, (opsOf jobs index).card ≤ bound) :
    jobs.card ≤ streams * bound := by
  induction streams generalizing jobs with
  | zero =>
      have hnone : jobs = 0 := Multiset.eq_zero_of_forall_notMem fun job hjob =>
        absurd (howner job hjob) (Nat.not_lt_zero _)
      rw [hnone]
      exact Nat.zero_le _
  | succ streams ih =>
      have hsplit := congrArg Multiset.card
        (Multiset.filter_add_not (fun job : Job OnDone => job.onDone.stream = streams) jobs)
      rw [Multiset.card_add] at hsplit
      have hlast := hbound streams (Nat.lt_succ_self _)
      rw [opsOf, Multiset.card_map, Multiset.filter_map, Multiset.card_map] at hlast
      have hothers := ih (jobs.filter fun job => ¬job.onDone.stream = streams) ?_ ?_
      · rw [Nat.succ_mul]
        have hlast' : (jobs.filter fun job => job.onDone.stream = streams).card ≤ bound := hlast
        omega
      · intro job hjob
        obtain ⟨hmem, hne⟩ := Multiset.mem_filter.mp hjob
        exact lt_of_le_of_ne (Nat.lt_succ_iff.mp (howner job hmem)) hne
      · intro index hindex
        refine le_trans ?_ (hbound index (Nat.lt_succ_of_lt hindex))
        rw [opsOf, opsOf, Multiset.card_map, Multiset.card_map]
        exact Multiset.card_le_card (Multiset.filter_le_filter _
          (Multiset.map_le_map (Multiset.filter_le _ _)))

/-- While the engine goes on, it has no more to do for a stream than one open or a window of
reads, with what the stream has still to send. -/
theorem engine_load_bounded (hdrawn : opens actions < CompioEngine.idRange)
    (hrun : ServerRun crates cfg ok initial actions s) (hrunning : s.reactor.running = true) :
    (∀ index stream, s.streams[index]? = some stream →
      (opsOf s.reactor.jobs index).card + stream.submits.length ≤
        max 1 cfg.maxInflightReads) ∧
    s.reactor.jobs.card ≤ s.streams.length * max 1 cfg.maxInflightReads := by
  obtain ⟨hsound, -⟩ := run_accounts hdrawn hrun
  have hstreams : ∀ index stream, s.streams[index]? = some stream →
      (opsOf s.reactor.jobs index).card + stream.submits.length ≤
        max 1 cfg.maxInflightReads := by
    intro index stream hstream
    have hstreamSound := hsound.streams index stream hstream
    obtain ⟨earlier, halone⟩ := hstreamSound.run
    have hcard := congrArg Multiset.card (hstreamSound.ops hrunning)
    rw [Multiset.card_add, Multiset.coe_card, Multiset.coe_card] at hcard
    rw [hcard]
    exact run_loaded halone
  refine ⟨hstreams, card_jobs_le _ _ (fun job hjob => (hsound.jobs job hjob).1) ?_⟩
  intro index hindex
  have hstream := hstreams index _ (List.getElem?_eq_getElem hindex)
  omega

theorem engine_load_bounded_asked :
    ∃ s, replayed askedActions = some s ∧
      s.reactor.jobs.card ≤ s.streams.length * max 1 (Config.defaults ⟨"/srv"⟩).maxInflightReads := by
  have hfacts : (replayed askedActions).map (fun s => s.reactor.running) = some true := by decide
  obtain ⟨s, hs, hrunning⟩ := Option.map_eq_some_iff.mp hfacts
  exact ⟨s, hs, (engine_load_bounded (by decide) (replayed_run hs) hrunning).2⟩

end Load

/-! ## The end of the engine -/

section Ended

variable {crates : Crates} {cfg : Config} {ok : Server → Action → Prop} {n : ℕ} {s t : Server}
  {actions more : List Action}

theorem run_stopped (h : Sound crates cfg n s) (hdrawn : n + opens more < CompioEngine.idRange)
    (hstopped : s.reactor.running = false) (hmore : ServerRun crates cfg ok s more t) :
    t.reactor.running = false ∧ ∀ action ∈ more, action.finishes = false := by
  induction hmore generalizing n with
  | nil s => exact ⟨hstopped, fun _ haction => absurd haction List.not_mem_nil⟩
  | @cons s u t action more hok hstep hrest ih =>
      rw [opens_cons, ← add_assoc] at hdrawn
      obtain ⟨hstays, hsilent⟩ := step_stopped h hstopped hstep
      obtain ⟨hlast, hothers⟩ := ih (step_sound h (by omega) hstep) hdrawn hstays
      refine ⟨hlast, fun other hother => ?_⟩
      rcases List.mem_cons.mp hother with rfl | hlater
      · exact hsilent
      · exact hothers other hlater

/-- Once the loop of `run_reactor` has ended, whatever the streams go on to do, no callback
of the engine runs and no file is open. -/
theorem ended_engine_is_silent (hdrawn : opens actions + opens more < CompioEngine.idRange)
    (hrun : ServerRun crates cfg ok initial actions s) (hended : s.reactor.running = false)
    (hmore : ServerRun crates cfg ok s more t) :
    t.reactor.files = [] ∧ ∀ action ∈ more, action.finishes = false := by
  obtain ⟨hsound, -⟩ := run_accounts (by omega) hrun
  obtain ⟨hstopped, hsilent⟩ := run_stopped hsound hdrawn hended hmore
  have htidy : s.reactor.Tidy :=
    run_tidy sound_initial (by omega) Reactor.tidy_initial hrun
  exact ⟨(run_tidy hsound hdrawn htidy hmore).ended hstopped, hsilent⟩

/-- The configuration is dropped while a file is open. -/
def endedActions : List Action :=
  openedActions ++ [.shutdown, .takeCommand]

theorem ended_engine_is_silent_opened :
    ∃ s t, replayed endedActions = some s ∧
      ServerRun Crates.plain (Config.defaults ⟨"/srv"⟩) (fun _ _ => True) s
        [.callback 0 .commit, .callback 0 (.scheduled [])] t ∧ t.reactor.files = [] := by
  have hfacts : ((replayed endedActions).bind fun s =>
      (([.callback 0 .commit, .callback 0 (.scheduled [])] : List Action).foldlM
        (step Crates.plain (Config.defaults ⟨"/srv"⟩)) s).map fun _ =>
          s.reactor.running) = some false := by
    decide
  obtain ⟨s, hs, hmore⟩ := Option.bind_eq_some_iff.mp hfacts
  obtain ⟨t, ht, hended⟩ := Option.map_eq_some_iff.mp hmore
  have hrest := Transition.Run.of_foldlM (fun _ _ => trivial) ht
  exact ⟨s, t, hs, hrest, (ended_engine_is_silent (by decide) (replayed_run hs) hended hrest).1⟩

end Ended

end Server

end EnvoyFiles
