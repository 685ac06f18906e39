import EnvoyFiles.Filter.Accounting

/-!
# The response protocol

Envoy accepts one response on a stream: a complete one, or headers followed by
data up to the end of stream.  `Stage.next` is the automaton of the exchanges
it allows, the trace of every run is one of its runs, and the rules of the
protocol are read off the automaton.
-/

namespace EnvoyFiles.Filter

open Transition

/-- How far the response has come. -/
inductive Stage where
  | waiting
  | body
  | ended
  deriving DecidableEq, Repr

/-- The exchanges that each stage allows. -/
def Stage.next : Stage → Call → Option Stage
  | stage, .hook _ => some stage
  | .waiting, .openStat _ => some .waiting
  | .waiting, .readDir _ => some .waiting
  | .waiting, .sendResponse _ _ _ => some .ended
  | .waiting, .sendResponseHeaders _ endStream =>
      some (if endStream then .ended else .body)
  | .body, .read _ _ _ _ => some .body
  | .body, .sendResponseData _ _ endStream =>
      some (if endStream then .ended else .body)
  | _, _ => none

/-- The runs of the automaton. -/
abbrev StageRun : Stage → List Call → Stage → Prop :=
  Run Stage.next fun _ _ => True

/-- `send_response` or `send_response_headers`. -/
def Call.startsResponse : Call → Bool
  | .sendResponse _ _ _ => true
  | .sendResponseHeaders _ _ => true
  | _ => false

/-- A call that signals the end of stream. -/
def Call.endsStream : Call → Bool
  | .sendResponse _ _ _ => true
  | .sendResponseHeaders _ endStream => endStream
  | .sendResponseData _ _ endStream => endStream
  | _ => false

/-! ## The rules of the automaton -/

theorem next_hook (stage : Stage) (hook : Hook) :
    stage.next (.hook hook) = some stage := by
  cases stage <;> rfl

/-- After the end of stream only hooks happen. -/
theorem next_ended {call : Call} {stage : Stage}
    (h : Stage.ended.next call = some stage) :
    stage = .ended ∧ ∃ hook, call = .hook hook := by
  cases call with
  | hook hook => exact ⟨(Option.some.inj h).symm, hook, rfl⟩
  | _ => cases h

theorem next_endsStream {stage stage' : Stage} {call : Call}
    (hends : call.endsStream = true) (h : stage.next call = some stage') :
    stage ≠ .ended ∧ stage' = .ended := by
  constructor
  · rintro rfl
    obtain ⟨-, hook, rfl⟩ := next_ended h
    cases hends
  · cases call with
    | sendResponse status headers body => cases stage <;> cases h; rfl
    | sendResponseHeaders headers endStream =>
        rw [show endStream = true from hends] at h
        cases stage <;> cases h; rfl
    | sendResponseData caller data endStream =>
        rw [show endStream = true from hends] at h
        cases stage <;> cases h; rfl
    | _ => cases hends

/-- The body starts with the headers that leave the stream open. -/
theorem next_body {stage : Stage} {call : Call}
    (h : stage.next call = some .body) :
    stage = .body ∨ ∃ headers, call = .sendResponseHeaders headers false := by
  cases stage with
  | body => exact Or.inl rfl
  | ended => exact absurd (next_ended h).1 nofun
  | waiting =>
      cases call with
      | sendResponseHeaders headers endStream =>
          cases endStream with
          | false => exact Or.inr ⟨headers, rfl⟩
          | true => cases h
      | _ => cases h

/-- A response starts once. -/
theorem next_startsResponse {stage stage' : Stage} {call : Call}
    (hstarts : call.startsResponse = true) (h : stage.next call = some stage') :
    stage = .waiting ∧ stage' ≠ .waiting := by
  cases call with
  | sendResponse status headers body =>
      cases stage <;> cases h
      exact ⟨rfl, nofun⟩
  | sendResponseHeaders headers endStream =>
      cases stage <;> cases endStream <;> cases h <;> exact ⟨rfl, nofun⟩
  | _ => cases hstarts

/-- No exchange leads back to waiting. -/
theorem next_waiting {stage : Stage} {call : Call}
    (h : stage.next call = some .waiting) : stage = .waiting := by
  cases stage with
  | waiting => rfl
  | ended => exact (next_ended h).1.symm
  | body =>
      rcases hcall : call with _ | _ | ⟨_, _, endStream⟩ | _ | _ | _ | _ <;>
        rw [hcall] at h
      case sendResponseData => cases endStream <;> cases h
      all_goals cases h

/-! ## Runs of the automaton -/

section Runs

variable {stage stage' : Stage} {calls : List Call}

theorem stageRun_ended (h : StageRun .ended calls stage) :
    ∀ call ∈ calls, ∃ hook, call = .hook hook := by
  generalize hstart : Stage.ended = start at h
  induction h with
  | nil => simp
  | cons _ hnext _ ih =>
      subst hstart
      obtain ⟨rfl, hook⟩ := next_ended hnext
      intro call hcall
      rcases List.mem_cons.mp hcall with rfl | hrest
      · exact hook
      · exact ih rfl call hrest

theorem stageRun_waiting (h : StageRun stage calls .waiting) :
    stage = .waiting := by
  generalize hend : Stage.waiting = last at h
  induction h with
  | nil => rfl
  | cons _ hnext _ ih =>
      subst hend
      rw [ih rfl] at hnext
      exact next_waiting hnext

theorem stageRun_body (h : StageRun stage calls .body) :
    stage = .body ∨ ∃ headers, .sendResponseHeaders headers false ∈ calls := by
  generalize hend : Stage.body = last at h
  induction h with
  | nil => exact Or.inl rfl
  | cons _ hnext _ ih =>
      subst hend
      rcases ih rfl with rfl | ⟨headers, hmem⟩
      · rcases next_body hnext with hbody | ⟨headers, rfl⟩
        · exact Or.inl hbody
        · exact Or.inr ⟨headers, List.mem_cons_self⟩
      · exact Or.inr ⟨headers, List.mem_cons_of_mem _ hmem⟩

/-- From a stage on, the response starts at most once, and only from
waiting. -/
theorem stageRun_starts (h : StageRun stage calls stage') :
    calls.countP Call.startsResponse ≤ if stage = .waiting then 1 else 0 := by
  induction h with
  | nil => exact Nat.zero_le _
  | @cons stage next last call calls _ hnext _ ih =>
      rw [List.countP_cons]
      by_cases hstarts : call.startsResponse = true
      · obtain ⟨rfl, hne⟩ := next_startsResponse hstarts hnext
        rw [if_neg hne] at ih
        simp [hstarts, Nat.le_zero.mp ih]
      · rw [if_neg hstarts, Nat.add_zero]
        apply ih.trans
        by_cases hwaiting : next = .waiting
        · subst hwaiting
          rw [next_waiting hnext]
        · rw [if_neg hwaiting]
          exact Nat.zero_le _

/-- From a stage on, the end of stream is signalled at most once, and not
after the end. -/
theorem stageRun_ends (h : StageRun stage calls stage') :
    calls.countP Call.endsStream ≤ if stage = .ended then 0 else 1 := by
  induction h with
  | nil => exact Nat.zero_le _
  | @cons stage next last call calls _ hnext _ ih =>
      rw [List.countP_cons]
      by_cases hends : call.endsStream = true
      · obtain ⟨hne, rfl⟩ := next_endsStream hends hnext
        rw [if_pos rfl] at ih
        simp [hends, hne, Nat.le_zero.mp ih]
      · rw [if_neg hends, Nat.add_zero]
        apply ih.trans
        by_cases hended : stage = .ended
        · subst hended
          rw [(next_ended hnext).1]
        · rw [if_neg hended]
          split <;> omega

end Runs

/-- What Envoy requires of the exchanges on one stream. -/
structure ResponseProtocol (trace : List Call) : Prop where
  responseOnce : trace.countP Call.startsResponse ≤ 1
  dataAfterHeaders : ∀ before caller data endStream after,
    trace = before ++ .sendResponseData caller data endStream :: after →
      ∃ headers, .sendResponseHeaders headers false ∈ before
  endOnce : trace.countP Call.endsStream ≤ 1
  /-- After the end of stream there is no send, no read and no other
  submission. -/
  silentAfterEnd : ∀ before call after,
    trace = before ++ call :: after → call.endsStream = true →
      ∀ later ∈ after, ∃ hook, later = .hook hook

/-- The automaton accepts only traces that follow the protocol. -/
theorem responseProtocol_of_stageRun {trace : List Call} {stage : Stage}
    (h : StageRun .waiting trace stage) : ResponseProtocol trace where
  responseOnce := stageRun_starts h
  dataAfterHeaders := by
    rintro before caller data endStream after rfl
    obtain ⟨u, v, hbefore, -, hnext, -⟩ := h.split_middle
    cases u with
    | body =>
        rcases stageRun_body hbefore with hstage | hheaders
        · cases hstage
        · exact hheaders
    | waiting => cases hnext
    | ended => cases hnext
  endOnce := stageRun_ends h
  silentAfterEnd := by
    rintro before call after rfl hends
    obtain ⟨u, v, -, -, hnext, hafter⟩ := h.split_middle
    obtain ⟨-, rfl⟩ := next_endsStream hends hnext
    exact stageRun_ended hafter

/-! ## The trace of a run -/

/-- The stage a phase stands for. -/
def Phase.stage : Phase → Stage
  | .idle => .waiting
  | .resolvingFile _ => .waiting
  | .resolvingIndex _ _ => .waiting
  | .streaming _ => .body
  | .done => .ended

/-- The trace has brought the response to the stage of the phase. -/
def Obeys (s : State) : Prop :=
  StageRun .waiting s.trace s.phase.stage

theorem stage_of_resolving {phase : Phase} (h : phase.isResolving = true) :
    phase.stage = .waiting := by
  cases phase with
  | resolvingFile pending => rfl
  | resolvingIndex dirFs pending => rfl
  | _ => cases h

theorem stage_withDepth (phase : Phase) (depth : ℕ) :
    (phase.withDepth depth).stage = phase.stage := by
  cases phase <;> rfl

section Moves

variable {crates : Crates} {cfg : Config} {env : Env} {s t : State}

/-- A call that the stage allows extends an obedient trace. -/
theorem Obeys.extend (h : Obeys s) {stage : Stage} {call : Call} {phase : Phase}
    (hphase : s.phase.stage = stage) (hnext : stage.next call = some phase.stage) :
    StageRun .waiting (s.trace ++ [call]) phase.stage :=
  Run.append h (Run.single trivial (hphase ▸ hnext))

/-- Every move obeys the protocol. -/
theorem obeys_move (hmove : Move crates cfg env s t) (haccount : Accounted cfg s)
    (h : Obeys s) : Obeys t := by
  cases hmove with
  | reentry reentry => exact h
  | hook hook =>
      obtain ⟨depth, commits, -, heq⟩ := onHook_eq s hook
      rw [heq]
      exact h.extend rfl ((next_hook _ hook).trans
        (congrArg some (stage_withDepth _ depth).symm))
  | refuse status headers hphase => exact h.extend (congrArg Phase.stage hphase) rfl
  | accept hphase _ _ => exact h.extend (congrArg Phase.stage hphase) rfl
  | complete _ _ _ =>
      rw [deliver]
      split <;> exact h
  | commit _ => exact h
  | drain _ _ => exact h
  | openNext hbatch hread _ hnext =>
      obtain ⟨hphase, -⟩ := haccount.opening hbatch hread
      have hstage := stage_of_resolving (nextOpen_resolving hnext)
      exact h.extend (stage_of_resolving hphase) (congrArg some hstage.symm)
  | readDir path hbatch hread =>
      obtain ⟨hphase, -⟩ := haccount.opening hbatch hread
      have hstage := stage_of_resolving hphase
      exact h.extend hstage (congrArg some hstage.symm)
  | respond status headers body hbatch hread =>
      obtain ⟨hphase, -⟩ := haccount.opening hbatch hread
      exact h.extend (stage_of_resolving hphase) rfl
  | sendHeaders headers hbatch hread =>
      obtain ⟨hphase, -⟩ := haccount.opening hbatch hread
      exact h.extend (stage_of_resolving hphase) rfl
  | beginStreaming hbatch _ _ _ _ =>
      obtain ⟨hphase, -⟩ := haccount.opening hbatch rfl
      exact h.extend (stage_of_resolving hphase) rfl
  | readOk _ hphase =>
      rw [Obeys] at h
      rw [hphase] at h
      exact h
  | readError _ hphase => exact h.extend (congrArg Phase.stage hphase) rfl
  | ignore _ _ _ => exact h
  | discard _ => exact h
  | flushMore hphase _ _ _ => exact h.extend (congrArg Phase.stage hphase) rfl
  | flushLast hphase _ _ _ => exact h.extend (congrArg Phase.stage hphase) rfl
  | issueSkip hphase _ _ _ =>
      rw [Obeys] at h
      rw [hphase] at h
      exact h
  | issueRead hphase _ _ _ => exact h.extend (congrArg Phase.stage hphase) rfl
  | streamComplete _ => exact h

end Moves

/-- Along a run the trace stays at the stage of the phase. -/
theorem run_obeys {crates : Crates} {cfg : Config} {env : Env} {actions : List Action}
    {s : State} (hrun : StreamRun crates cfg env State.initial actions s) : Obeys s := by
  have hinvariant : (Accounted cfg s ∧ Obeys s) ∧ s.batch = [] := by
    refine run_invariant (I := fun s => Accounted cfg s ∧ Obeys s) ?_ rfl ?_ hrun
    · rintro u v hmove ⟨haccount, hobeys⟩
      exact ⟨accounted_move hmove haccount, obeys_move hmove haccount hobeys⟩
    · exact ⟨accounted_initial cfg, Run.nil _⟩
  exact hinvariant.1.2

/-- Whatever the request, the filesystem and the order of events and hooks are,
the filter obeys the response protocol. -/
theorem filter_obeys_response_protocol {crates : Crates} {cfg : Config}
    {env : Env} {actions : List Action} {s : State}
    (hrun : StreamRun crates cfg env State.initial actions s) :
    ResponseProtocol s.trace :=
  responseProtocol_of_stageRun (run_obeys hrun)

/-- A file of three bytes, prefetched, with a pause and a resumption inside the
send of its headers. -/
def smallFileRun : Option State :=
  replay Crates.plain (Config.defaults ⟨"/srv"⟩) State.initial
    [.requestHeaders (getHeaders "/a") [],
      .complete 0 (.openStat (.ok (⟨1⟩, ⟨3, 0, 0, false⟩, [1, 2, 3]))),
      .commit, .scheduled [[.above, .below]]]

theorem filter_obeys_response_protocol_small_file :
    ∃ s, smallFileRun = some s ∧ s.trace.length = 5 ∧
      ResponseProtocol s.trace := by
  have hlength : smallFileRun.map (·.trace.length) = some 5 := by decide
  obtain ⟨s, hs, hlength⟩ := Option.map_eq_some_iff.mp hlength
  exact ⟨s, hs, hlength,
    filter_obeys_response_protocol (Run.of_foldlM any_allows hs)⟩

end EnvoyFiles.Filter
