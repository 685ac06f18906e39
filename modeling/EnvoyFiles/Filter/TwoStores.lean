import EnvoyFiles.Filter.Stores

/-!
# One request on two stores

When whatever a request looks up is alike in two stores, a client cannot tell them apart:
every run on one store is followed by a run on the other.  The followed filter is in the same
state, but for the error of an index file, which is dropped when it is handled.
-/

namespace EnvoyFiles.Filter

/-! ## What a client receives -/

/-- The data sends of a trace. -/
def clientSends (trace : List Call) : List (Bytes × Bool) :=
  (dataSends trace).map Prod.snd

/-- A client of the store can have received this answer and this data. -/
def Store.Receives (crates : Crates) (cfg : Config) (headers : List (Bytes × Bytes))
    (store : Store) (answer : Option Call) (sends : List (Bytes × Bool)) : Prop :=
  ∃ contents actions s, StreamRun crates cfg (store.serves contents headers)
    State.initial actions s ∧ s.answer = answer ∧ clientSends s.trace = sends

/-- The request can make the filter panic. -/
def Store.Panics (crates : Crates) (cfg : Config) (headers : List (Bytes × Bytes))
    (store : Store) : Prop :=
  ∃ contents actions s reentry, StreamRun crates cfg (store.serves contents headers)
    State.initial actions s ∧ s.complete = false ∧
      step crates cfg s (.scheduled reentry) = none

/-- The request is answered alike on both stores. -/
structure SameToClient (crates : Crates) (cfg : Config) (headers : List (Bytes × Bytes))
    (store other : Store) : Prop where
  receives : ∀ answer sends, store.Receives crates cfg headers answer sends ↔
    other.Receives crates cfg headers answer sends
  panics : store.Panics crates cfg headers ↔ other.Panics crates cfg headers

/-! ## Operations on two stores -/

/-- The operation finds the same in both stores, or an index file that opens in neither. -/
inductive Alike (store other : Store) (phase : Phase) : Op → Prop where
  | opens {request : OpenRequest} {ctx : OpenCtx} :
      store.opens request.path = other.opens request.path →
      Alike store other phase (.openStat request ctx)
  | misses {request : OpenRequest} {ctx : OpenCtx} {dirFs : PathBuf}
      {pending : List (PathBuf × String)} {error error' : IoError} :
      phase = .resolvingIndex dirFs pending → store.opens request.path = .error error →
      other.opens request.path = .error error' →
      Alike store other phase (.openStat request ctx)
  | lists {path : PathBuf} : store.lists path = other.lists path →
      Alike store other phase (.readDir path)

/-- Both filters are in one state, but for the error of an index file; or both streams are
complete. -/
inductive Twin (s t : State) : Prop where
  | same : s = t → Twin s t
  | miss {dirFs : PathBuf} {pending : List (PathBuf × String)}
      {bridge : EventBridge.Inner IoEvent} {error error' : IoError} :
      s.phase = .resolvingIndex dirFs pending → s.pending = [] →
      s.bridge.events = [.openError error] → bridge.events = [.openError error'] →
      t = { s with bridge } → Twin s t
  | gone : s.complete = true → t.complete = true → s.trace = t.trace → Twin s t

section Twins

variable {crates : Crates} {cfg : Config} {store other : Store} {contents : FileHandle → Bytes}
  {headers : List (Bytes × Bytes)} {place : RequestData → Phase → Op → Prop}
  {good : Reaction → Prop} {s t u : State} {op : Op} {completion : Completion}

theorem Twin.trace_eq (h : Twin s t) : s.trace = t.trace := by
  cases h with
  | same heq => rw [heq]
  | miss _ _ _ _ heq => rw [heq]
  | gone _ _ htrace => exact htrace

theorem Twin.complete_eq (h : Twin s t) : s.complete = t.complete := by
  cases h with
  | same heq => rw [heq]
  | miss _ _ _ _ heq => rw [heq]
  | gone hs ht _ => rw [hs, ht]

/-- A read completes on both stores alike. -/
theorem serves_read (hread : op.isRead = true)
    (hok : (store.serves contents headers).completes s op completion) :
    (other.serves contents headers).completes s op completion := by
  cases op with
  | read handle offset len seq =>
      cases completion with
      | read result =>
          cases result with
          | ok data => exact hok
          | error error => trivial
      | openStat result => nomatch hok
      | readDir result => nomatch hok
  | openStat request ctx => nomatch hread
  | readDir path => nomatch hread

/-- What completes an operation on one store completes it on the other, but for the error of
an index file. -/
theorem serves_alike (halike : Alike store other s.phase op)
    (hok : (store.serves contents headers).completes s op completion) :
    (other.serves contents headers).completes s op completion ∨
      ∃ dirFs pending request ctx error error',
        s.phase = .resolvingIndex dirFs pending ∧ op = .openStat request ctx ∧
        completion = .openStat (.error error) ∧
        (other.serves contents headers).completes s op (.openStat (.error error')) := by
  cases halike with
  | @opens request ctx hsame =>
      left
      cases completion with
      | openStat result =>
          cases result with
          | error error => exact hsame.symm.trans hok
          | ok opened =>
              obtain ⟨handle, stat, prefetched⟩ := opened
              obtain ⟨file, hopens, hfile⟩ := hok
              exact ⟨file, hsame.symm.trans hopens, hfile⟩
      | read result => nomatch hok
      | readDir result => nomatch hok
  | @misses request ctx dirFs pending error error' hphase hstore hother =>
      right
      cases completion with
      | openStat result =>
          cases result with
          | error error'' =>
              exact ⟨dirFs, pending, request, ctx, error'', error', hphase, rfl, rfl, hother⟩
          | ok opened =>
              obtain ⟨handle, stat, prefetched⟩ := opened
              obtain ⟨file, hopens, -⟩ := hok
              cases hstore.symm.trans hopens
      | read result => nomatch hok
      | readDir result => nomatch hok
  | @lists path hsame =>
      left
      cases completion with
      | readDir result => exact Eq.trans hok hsame
      | read result => nomatch hok
      | openStat result => nomatch hok

/-- Whatever is pending is awaited by the lookup, or is a read. -/
theorem Looking.pending {env : Env} (h : Looking crates cfg env place good s)
    (haccount : Accounted cfg s) (hobeys : Obeys s) (hactive : s.complete = false)
    (hop : op ∈ s.pending) :
    op.isRead = true ∨ ∃ data, Awaiting env data op s ∧ place data s.phase op := by
  cases h with
  | idle hunasked =>
      rw [hunasked.pending] at hop
      nomatch hop
  | @seeking data awaited hawaiting hplace =>
      cases hawaiting.outstanding with
      | submitted hpending _ =>
          rw [hpending, List.mem_singleton] at hop
          exact Or.inr ⟨data, hop ▸ hawaiting, hop ▸ hplace⟩
      | completed _ hpending _ =>
          rw [hpending] at hop
          nomatch hop
  | answered _ _ _ _ hanswer =>
      left
      by_contra hread
      rw [Bool.not_eq_true] at hread
      have hticket : op.ticket = .opening := by
        cases op with
        | openStat request ctx => rfl
        | readDir path => rfl
        | read handle offset len seq => nomatch hread
      have hwork : .opening ∈ s.work := hticket ▸ ticket_pending hop
      have hresolving := (resolving_of_opening (haccount.balanced hactive) hwork).1
      cases (unanswered_of_resolving hobeys hresolving).symm.trans hanswer
  | gone hcomplete _ => cases hactive.symm.trans hcomplete

/-! ## Steps -/

theorem step_hook (hactive : s.complete = false) (hook : Hook) :
    step crates cfg s (.hook hook) = some (s.onHook hook) := by
  apply if_neg
  rw [hactive]
  nofun

/-- The error of an index file is dropped. -/
theorem onScheduled_miss {dirFs : PathBuf} {pending : List (PathBuf × String)}
    {bridge : EventBridge.Inner IoEvent} {error error' : IoError}
    (hphase : s.phase = .resolvingIndex dirFs pending)
    (hevents : s.bridge.events = [.openError error])
    (hevents' : bridge.events = [.openError error']) :
    onScheduled crates cfg { s with bridge } = onScheduled crates cfg s := by
  have hdropped (error : IoError) :
      handleOpenError cfg { s with bridge := .empty, batch := [] } error =
        openNextIndex cfg { s with bridge := .empty, batch := [] } := by
    rw [handleOpenError, resolver]
    dsimp only
    rw [hphase]
  simp only [onScheduled]
  simp only [EventBridge.process_fst, EventBridge.process_snd, hevents, hevents', handleBatch,
    handleEvent]
  rw [hdropped, hdropped]

theorem scheduled_miss {dirFs : PathBuf} {pending : List (PathBuf × String)}
    {bridge : EventBridge.Inner IoEvent} {error error' : IoError}
    (hactive : s.complete = false) (hphase : s.phase = .resolvingIndex dirFs pending)
    (hevents : s.bridge.events = [.openError error])
    (hevents' : bridge.events = [.openError error']) (reentry : List (List Hook)) :
    step crates cfg { s with bridge } (.scheduled reentry) =
      step crates cfg s (.scheduled reentry) := by
  have hactive' : ({ s with bridge } : State).complete = false := hactive
  rw [step_scheduled hactive, step_scheduled hactive']
  exact @onScheduled_miss crates cfg { s with reentry, commits := s.commits - 1 } _ _ _ _ _
    hphase hevents hevents'

/-- In a resolving filter a hook is only recorded. -/
theorem onHook_miss {dirFs : PathBuf} {pending : List (PathBuf × String)}
    (hphase : s.phase = .resolvingIndex dirFs pending) (hook : Hook) :
    s.onHook hook = s.record (.hook hook) := by
  have hrecord (call : Call) : (s.record call).phase = .resolvingIndex dirFs pending := hphase
  cases hook with
  | above =>
      unfold State.onHook onAboveHighWatermark
      dsimp only
      rw [hrecord]
  | below =>
      rw [State.onHook, onBelowLowWatermark]
      dsimp only
      rw [hrecord]

theorem deliver_open (hopen : s.bridge ≠ .closed) (event : IoEvent) :
    ∃ bridge, bridge.events = s.bridge.events ++ [event] ∧
      deliver s event = { s with bridge, delivering := s.delivering + 1 } := by
  obtain ⟨bridge, delivering, heq, ⟨-, -, hevents, rfl⟩ | ⟨hclosed, -, -⟩⟩ := deliver_eq s event
  · exact ⟨bridge, hevents, heq⟩
  · exact absurd hclosed hopen

/-- A completion on one store is followed on the other, with the error of an index file that
the other store has. -/
theorem twin_complete {index : ℕ}
    (hlooking : Looking crates cfg (store.serves contents headers) place good s)
    (haccount : Accounted cfg s) (hobeys : Obeys s) (hactive : s.complete = false)
    (halike : ∀ data phase op, place data phase op → Alike store other phase op)
    (hok : (store.serves contents headers).allows s (.complete index completion))
    (hstep : completeOp s index completion = some u) :
    ∃ completion' v, (other.serves contents headers).allows s (.complete index completion') ∧
      completeOp s index completion' = some v ∧ Twin u v := by
  obtain ⟨-, op, -, event, -, hget, hevent, -⟩ := completeOp_cases hstep
  have hallows {completion' : Completion}
      (hfollow : (other.serves contents headers).completes s op completion') :
      (other.serves contents headers).allows s (.complete index completion') := by
    intro op' hop'
    cases hget.symm.trans hop'
    exact hfollow
  rcases hlooking.pending haccount hobeys hactive (List.mem_of_getElem? hget) with
    hread | ⟨data, hawaiting, hplace⟩
  · exact ⟨completion, u, hallows (serves_read hread (hok op hget)), hstep, .same rfl⟩
  · rcases serves_alike (halike data s.phase op hplace) (hok op hget) with
      hfollow | ⟨dirFs, pending, request, ctx, error, error', hphase, rfl, rfl, hfollow⟩
    · exact ⟨completion, u, hallows hfollow, hstep, .same rfl⟩
    · cases hevent
      refine ⟨_, _, hallows hfollow, completeOp_eq hget rfl, ?_⟩
      rw [completeOp_eq hget rfl, Option.some.injEq] at hstep
      subst hstep
      have hopen : ({ s with pending := s.pending.eraseIdx index } : State).bridge ≠ .closed :=
        hawaiting.bridge
      obtain ⟨bridge, hbridge, heq⟩ := deliver_open hopen (.openError error)
      obtain ⟨bridge', hbridge', heq'⟩ := deliver_open hopen (.openError error')
      rw [heq, heq']
      cases hawaiting.outstanding with
      | completed _ hops _ =>
          rw [hops] at hget
          nomatch hget
      | submitted hops hevents =>
          have hnone : s.pending.eraseIdx index = [] := by
            rw [hops] at hget ⊢
            obtain ⟨hlt, -⟩ := List.getElem?_eq_some_iff.mp hget
            rw [Nat.lt_one_iff.mp hlt]
            rfl
          have hsingle (event : IoEvent) : s.bridge.events ++ [event] = [event] := by
            rw [hevents]
            rfl
          exact .miss hphase hnone (hbridge.trans (hsingle _)) (hbridge'.trans (hsingle _)) rfl

/-- The error of an index file is followed by that of the other store. -/
theorem twin_miss {action : Action} {dirFs : PathBuf} {pending : List (PathBuf × String)}
    {bridge : EventBridge.Inner IoEvent} {error error' : IoError}
    (hactive : s.complete = false) (hphase : s.phase = .resolvingIndex dirFs pending)
    (hpending : s.pending = []) (hevents : s.bridge.events = [.openError error])
    (hevents' : bridge.events = [.openError error'])
    (hstep : step crates cfg s action = some u) :
    ∃ v, step crates cfg { s with bridge } action = some v ∧ Twin u v := by
  cases action with
  | requestHeaders headers reentry =>
      rw [step] at hstep
      rw [hphase] at hstep
      cases hstep
  | complete index completion =>
      obtain ⟨before, op, after, event, hsplit, -, -, -⟩ := completeOp_cases hstep
      rw [hpending] at hsplit
      exact absurd hsplit.symm (by simp)
  | commit =>
      simp only [step] at hstep ⊢
      split at hstep
      · cases hstep
      · next hdelivering =>
          cases hstep
          rw [if_neg hdelivering]
          exact ⟨_, rfl, .miss hphase hpending hevents hevents' rfl⟩
  | scheduled reentry =>
      refine ⟨u, ?_, .same rfl⟩
      rw [← hstep]
      exact scheduled_miss hactive hphase hevents hevents' reentry
  | hook hook =>
      rw [step_hook hactive, onHook_miss hphase] at hstep
      cases hstep
      have hactive' : ({ s with bridge } : State).complete = false := hactive
      refine ⟨_, step_hook hactive' hook, .miss hphase hpending hevents hevents' ?_⟩
      exact @onHook_miss { s with bridge } dirFs pending hphase hook
  | streamComplete =>
      simp only [step, hactive, Bool.false_eq_true, if_false] at hstep ⊢
      cases hstep
      exact ⟨_, rfl, .same rfl⟩

/-- Every step on one store is followed on the other. -/
theorem twin_step {action : Action}
    (hlooking : Looking crates cfg (store.serves contents headers) place good s)
    (haccount : Accounted cfg s) (hobeys : Obeys s)
    (halike : ∀ data phase op, place data phase op → Alike store other phase op)
    (htwin : Twin s t) (hok : (store.serves contents headers).allows s action)
    (hstep : step crates cfg s action = some u) :
    ∃ actions v, StreamRun crates cfg (other.serves contents headers) t actions v ∧
      Twin u v := by
  cases hcomplete : s.complete with
  | true =>
      obtain ⟨hgone, htrace⟩ := step_gone hcomplete hstep
      exact ⟨[], t, .nil t, .gone hgone (htwin.complete_eq ▸ hcomplete)
        (htrace.trans htwin.trace_eq)⟩
  | false =>
      cases htwin with
      | gone hgone _ _ => cases hcomplete.symm.trans hgone
      | miss hphase hpending hevents hevents' heq =>
          subst heq
          obtain ⟨v, hnext, htwin⟩ :=
            twin_miss hcomplete hphase hpending hevents hevents' hstep
          refine ⟨[action], v, .single ?_ hnext, htwin⟩
          cases action with
          | complete index completion =>
              intro op hop
              have hnone : s.pending[index]? = some op := hop
              rw [hpending] at hnone
              nomatch hnone
          | requestHeaders headers' reentry => exact hok
          | _ => trivial
      | same heq =>
          subst heq
          cases action with
          | complete index completion =>
              obtain ⟨completion', v, hok', hnext, htwin⟩ :=
                twin_complete hlooking haccount hobeys hcomplete halike hok hstep
              exact ⟨[.complete index completion'], v, .single hok' hnext, htwin⟩
          | requestHeaders headers' reentry =>
              exact ⟨[.requestHeaders headers' reentry], u, .single hok hstep, .same rfl⟩
          | commit => exact ⟨[.commit], u, .single trivial hstep, .same rfl⟩
          | scheduled reentry =>
              exact ⟨[.scheduled reentry], u, .single trivial hstep, .same rfl⟩
          | hook hook => exact ⟨[.hook hook], u, .single trivial hstep, .same rfl⟩
          | streamComplete => exact ⟨[.streamComplete], u, .single trivial hstep, .same rfl⟩

/-! ## Runs -/

/-- Every run on one store is followed on the other. -/
theorem twin_run (hrule : LookupRule crates cfg (store.serves contents headers) place good)
    (halike : ∀ data phase op, place data phase op → Alike store other phase op)
    {actions : List Action}
    (hrun : StreamRun crates cfg (store.serves contents headers) State.initial actions s) :
    ∃ actions' t, StreamRun crates cfg (other.serves contents headers) State.initial actions' t ∧
      Twin s t := by
  have hinvariant : (∃ before, StreamRun crates cfg (store.serves contents headers)
      State.initial before s) ∧ ∃ actions' t, StreamRun crates cfg
        (other.serves contents headers) State.initial actions' t ∧ Twin s t := by
    refine hrun.invariant (I := fun s => (∃ before, StreamRun crates cfg
      (store.serves contents headers) State.initial before s) ∧ ∃ actions' t, StreamRun crates cfg
        (other.serves contents headers) State.initial actions' t ∧ Twin s t) ?_ ?_
    · exact ⟨⟨[], .nil _⟩, [], _, .nil _, .same rfl⟩
    · rintro u action v ⟨⟨before, hbefore⟩, actions', w, hfollow, htwin⟩ hok hstep
      have haccount : Accounted cfg u :=
        (run_invariant (fun _ _ => accounted_move) rfl (accounted_initial cfg) hbefore).1
      obtain ⟨more, x, hmore, hnext⟩ := twin_step (lookup_rule hrule hbefore) haccount
        (run_obeys hbefore) halike htwin hok hstep
      exact ⟨⟨before ++ [action], hbefore.append (.single hok hstep)⟩, actions' ++ more, x,
        hfollow.append hmore, hnext⟩
  exact hinvariant.2

/-- What a client of one store can receive, a client of the other can. -/
theorem receives_of_alike {answer : Option Call} {sends : List (Bytes × Bool)}
    (hrule : ∀ contents, LookupRule crates cfg (store.serves contents headers) place good)
    (halike : ∀ data phase op, place data phase op → Alike store other phase op)
    (h : store.Receives crates cfg headers answer sends) :
    other.Receives crates cfg headers answer sends := by
  obtain ⟨contents, actions, s, hrun, hanswer, hsends⟩ := h
  obtain ⟨actions', t, hrun', htwin⟩ := twin_run (hrule contents) halike hrun
  refine ⟨contents, actions', t, hrun', ?_, ?_⟩
  · rw [← hanswer]
    simp only [State.answer]
    rw [htwin.trace_eq]
  · rw [← hsends, htwin.trace_eq]

theorem panics_of_alike
    (hrule : ∀ contents, LookupRule crates cfg (store.serves contents headers) place good)
    (halike : ∀ data phase op, place data phase op → Alike store other phase op)
    (h : store.Panics crates cfg headers) : other.Panics crates cfg headers := by
  obtain ⟨contents, actions, s, reentry, hrun, hactive, hpanics⟩ := h
  obtain ⟨actions', t, hrun', htwin⟩ := twin_run (hrule contents) halike hrun
  refine ⟨contents, actions', t, reentry, hrun', htwin.complete_eq ▸ hactive, ?_⟩
  cases htwin with
  | same heq => rw [← heq, hpanics]
  | gone hgone _ _ => cases hactive.symm.trans hgone
  | miss hphase _ hevents hevents' heq =>
      rw [heq, scheduled_miss hactive hphase hevents hevents', hpanics]

end Twins

end EnvoyFiles.Filter
