import EnvoyFiles.Filter.Protocol
import EnvoyFiles.Support.History

/-!
# Backpressure

The filter counts how often it has been paused in the streaming phase only:
hooks that fire before the body starts are ignored, and `begin_streaming` sets
the count to zero.  A response whose body starts while the stream is paused
therefore sends against the pause.  Where the hooks delivered before the body
balance, the count is at least the number of open pauses and nothing is sent
while one is open.
-/

namespace EnvoyFiles.Filter

open History Transition

/-- How often a hook has been delivered. -/
def hookCount (hook : Hook) (trace : List Call) : ℕ :=
  trace.countP fun call => decide (call = .hook hook)

/-- The hooks nest: there are never more `below` than `above` so far. -/
def HooksNest (trace : List Call) : Prop :=
  ∀ before ∈ trace.inits, hookCount .below before ≤ hookCount .above before

instance (trace : List Call) : Decidable (HooksNest trace) :=
  inferInstanceAs (Decidable (∀ before ∈ trace.inits, _))

/-- A body send of `pump`. -/
def Call.isPumped : Call → Bool
  | .sendResponseData .pump _ _ => true
  | _ => false

/-- The headers of a body. -/
def Call.startsBody : Call → Bool
  | .sendResponseHeaders _ endStream => !endStream
  | _ => false

/-- No more pauses than resumptions have been delivered. -/
def Unpaused (trace : List Call) : Prop :=
  hookCount .above trace ≤ hookCount .below trace

instance (trace : List Call) : Decidable (Unpaused trace) :=
  inferInstanceAs (Decidable (_ ≤ _))

/-- `pump` sends no data while the stream is paused. -/
def RespectsPauses (trace : List Call) : Prop :=
  Always (fun before call => call.isPumped = true → Unpaused before) trace

/-- The headers of a body are sent while the stream is not paused. -/
def StartsUnpaused (trace : List Call) : Prop :=
  Always (fun before call => call.startsBody = true → Unpaused before) trace

instance (trace : List Call) : Decidable (RespectsPauses trace) :=
  inferInstanceAs (Decidable (Always _ _))

instance (trace : List Call) : Decidable (StartsUnpaused trace) :=
  inferInstanceAs (Decidable (Always _ _))

/-- The depth of a stream covers its open pauses. -/
def CoversPauses (phase : Phase) (trace : List Call) : Prop :=
  ∀ st, phase = .streaming st →
    hookCount .above trace ≤ hookCount .below trace + st.watermarkDepth

structure Paced (s : State) : Prop where
  depth : CoversPauses s.phase s.trace
  sends : RespectsPauses s.trace

theorem hookCount_snoc (hook : Hook) (trace : List Call) (call : Call) :
    hookCount hook (trace ++ [call]) =
      hookCount hook trace + if call = .hook hook then 1 else 0 := by
  simp only [hookCount]
  rw [List.countP_append, List.countP_singleton]
  simp

theorem hookCount_other {call : Call} (hook : Hook) (trace : List Call)
    (hcall : ∀ hook, call ≠ .hook hook) :
    hookCount hook (trace ++ [call]) = hookCount hook trace := by
  rw [hookCount_snoc, if_neg (hcall hook), Nat.add_zero]

theorem paced_initial : Paced State.initial :=
  ⟨nofun, always_nil⟩

section Moves

variable {crates : Crates} {cfg : Config} {env : Env} {s t : State}

theorem CoversPauses.other {phase : Phase} {trace : List Call} {call : Call}
    (h : CoversPauses phase trace) (hcall : ∀ hook, call ≠ .hook hook) :
    CoversPauses phase (trace ++ [call]) := by
  intro st hst
  rw [hookCount_other _ _ hcall, hookCount_other _ _ hcall]
  exact h st hst

/-- Only the depth of a stream matters. -/
theorem CoversPauses.streaming {st st' : Streaming} {trace : List Call}
    (h : CoversPauses (.streaming st) trace)
    (hdepth : st'.watermarkDepth = st.watermarkDepth) :
    CoversPauses (.streaming st') trace := by
  rintro _ ⟨⟩
  rw [hdepth]
  exact h st rfl

theorem coversPauses_of_not_streaming {phase : Phase} (trace : List Call)
    (hphase : phase.isStreaming = false) : CoversPauses phase trace := by
  rintro st rfl
  cases hphase

/-- A call that is not a send of `pump` adds nothing to respect. -/
theorem RespectsPauses.other {trace : List Call} {call : Call}
    (h : RespectsPauses trace) (hcall : call.isPumped = false) :
    RespectsPauses (trace ++ [call]) := by
  refine h.snoc fun hpumped => ?_
  rw [hcall] at hpumped
  cases hpumped

theorem Paced.streaming (h : Paced s) {st : Streaming}
    (hphase : s.phase = .streaming st) : CoversPauses (.streaming st) s.trace := by
  rw [← hphase]
  exact h.depth

/-- A hook moves the depth with the count of the pauses. -/
theorem onHook_paced (hook : Hook) (h : Paced s) : Paced (s.onHook hook) := by
  have hsends : RespectsPauses (s.trace ++ [.hook hook]) := h.sends.other rfl
  cases hphase : s.phase with
  | streaming st =>
      have hdepth := h.depth st hphase
      cases hook with
      | above =>
          simp only [State.onHook, onAboveHighWatermark, State.record, hphase]
          refine ⟨?_, hsends⟩
          rintro _ ⟨⟩
          show hookCount .above (s.trace ++ [.hook .above]) ≤
            hookCount .below (s.trace ++ [.hook .above]) + (st.watermarkDepth + 1)
          rw [hookCount_snoc, hookCount_snoc, if_pos rfl, if_neg (by decide)]
          omega
      | below =>
          have hcovers : CoversPauses
              (.streaming { st with watermarkDepth := st.watermarkDepth - 1 })
              (s.trace ++ [.hook .below]) := by
            rintro _ ⟨⟩
            show hookCount .above (s.trace ++ [.hook .below]) ≤
              hookCount .below (s.trace ++ [.hook .below]) + (st.watermarkDepth - 1)
            rw [hookCount_snoc, hookCount_snoc, if_neg (by decide), if_pos rfl]
            omega
          simp only [State.onHook, onBelowLowWatermark, State.record, hphase]
          split
          · exact ⟨hcovers, hsends⟩
          · exact ⟨hcovers, hsends⟩
  | _ =>
      obtain ⟨depth, commits, -, heq⟩ := onHook_eq s hook
      rw [heq, hphase]
      exact ⟨coversPauses_of_not_streaming _ rfl, hsends⟩

/-- Along the moves that start bodies unpaused, the pace is kept. -/
theorem paced_move (hmove : Move crates cfg env s t)
    (h : StartsUnpaused s.trace → Paced s) : StartsUnpaused t.trace → Paced t := by
  intro hstart
  cases hmove with
  | reentry reentry => exact ⟨(h hstart).depth, (h hstart).sends⟩
  | hook hook =>
      obtain ⟨depth, commits, -, heq⟩ := onHook_eq s hook
      rw [heq] at hstart
      exact onHook_paced hook (h hstart.init)
  | refuse status headers hphase =>
      exact ⟨coversPauses_of_not_streaming _ rfl, (h hstart.init).sends.other rfl⟩
  | accept hphase _ _ =>
      exact ⟨coversPauses_of_not_streaming _ rfl, (h hstart.init).sends.other rfl⟩
  | complete _ _ _ =>
      rw [deliver_trace] at hstart
      have hpaced := h hstart
      refine ⟨?_, ?_⟩
      · rw [deliver_phase, deliver_trace]
        exact hpaced.depth
      · rw [deliver_trace]
        exact hpaced.sends
  | commit _ => exact ⟨(h hstart).depth, (h hstart).sends⟩
  | drain _ _ => exact ⟨(h hstart).depth, (h hstart).sends⟩
  | openNext _ _ _ hnext =>
      refine ⟨coversPauses_of_not_streaming _ ?_, (h hstart.init).sends.other rfl⟩
      exact not_streaming_of_resolving (nextOpen_resolving hnext)
  | readDir _ _ _ =>
      have hpaced := h hstart.init
      exact ⟨hpaced.depth.other nofun, hpaced.sends.other rfl⟩
  | respond _ _ _ _ _ =>
      exact ⟨coversPauses_of_not_streaming _ rfl, (h hstart.init).sends.other rfl⟩
  | sendHeaders _ _ _ =>
      exact ⟨coversPauses_of_not_streaming _ rfl, (h hstart.init).sends.other rfl⟩
  | beginStreaming _ _ _ _ _ =>
      refine ⟨CoversPauses.other ?_ nofun, (h hstart.init).sends.other rfl⟩
      rintro _ ⟨⟩
      -- The depth starts at zero, so this is where the start must be unpaused.
      exact hstart.last rfl
  | readOk _ hphase =>
      have hpaced := h hstart
      exact ⟨(hpaced.streaming hphase).streaming rfl, hpaced.sends⟩
  | readError _ _ =>
      exact ⟨coversPauses_of_not_streaming _ rfl, (h hstart.init).sends.other rfl⟩
  | ignore _ _ _ => exact ⟨(h hstart).depth, (h hstart).sends⟩
  | discard _ => exact ⟨(h hstart).depth, (h hstart).sends⟩
  | flushMore hphase hdepth _ _ =>
      have hpaced := h hstart.init
      have hcovers := hpaced.streaming hphase
      have hunpaused : Unpaused s.trace := by
        have hcount := hcovers _ rfl
        rwa [hdepth, Nat.add_zero] at hcount
      constructor
      · exact CoversPauses.other (hcovers.streaming rfl) nofun
      · exact hpaced.sends.snoc fun _ => hunpaused
  | flushLast hphase hdepth _ _ =>
      have hpaced := h hstart.init
      have hunpaused : Unpaused s.trace := by
        have hcount := hpaced.streaming hphase _ rfl
        rwa [hdepth, Nat.add_zero] at hcount
      constructor
      · exact coversPauses_of_not_streaming _ rfl
      · exact hpaced.sends.snoc fun _ => hunpaused
  | issueSkip hphase _ _ _ =>
      have hpaced := h hstart
      exact ⟨(hpaced.streaming hphase).streaming rfl, hpaced.sends⟩
  | issueRead hphase _ _ _ =>
      have hpaced := h hstart.init
      refine ⟨CoversPauses.other ?_ nofun, hpaced.sends.other rfl⟩
      exact (hpaced.streaming hphase).streaming rfl
  | streamComplete _ => exact ⟨(h hstart).depth, (h hstart).sends⟩

end Moves

/-- In every run that starts its body unpaused, nothing is sent against a
pause. -/
theorem unpaused_start_respects_pauses {crates : Crates} {cfg : Config} {env : Env}
    {actions : List Action} {s : State}
    (hrun : StreamRun crates cfg env State.initial actions s)
    (hstart : StartsUnpaused s.trace) : RespectsPauses s.trace := by
  have hinvariant := run_invariant (I := fun s => StartsUnpaused s.trace → Paced s)
    (fun u v hmove => paced_move hmove) rfl (fun _ => paced_initial) hrun
  exact (hinvariant.1 hstart).sends

theorem unpaused_start_respects_pauses_small_file :
    ∃ s, smallFileRun = some s ∧ hookCount .above s.trace = 1 ∧
      RespectsPauses s.trace := by
  have hstart : smallFileRun.map (fun s =>
      decide (hookCount .above s.trace = 1 ∧ StartsUnpaused s.trace)) =
        some true := by
    decide
  obtain ⟨s, hs, hdecide⟩ := Option.map_eq_some_iff.mp hstart
  obtain ⟨hhooks, hunpaused⟩ := of_decide_eq_true hdecide
  exact ⟨s, hs, hhooks,
    unpaused_start_respects_pauses (Run.of_foldlM any_allows hs) hunpaused⟩

/-- Envoy pauses the stream while the file is being opened.  The body that
starts afterwards is sent against the pause. -/
def pausedStartRun : Option State :=
  replay Crates.plain (Config.defaults ⟨"/srv"⟩) State.initial
    [.requestHeaders (getHeaders "/a") [], .hook .above,
      .complete 0 (.openStat (.ok (⟨1⟩, ⟨3, 0, 0, false⟩, [1, 2, 3]))),
      .commit, .scheduled []]

theorem paused_start_sends_against_the_pause :
    ¬∀ actions s, StreamRun Crates.plain (Config.defaults ⟨"/srv"⟩) Env.any
      State.initial actions s → HooksNest s.trace → RespectsPauses s.trace := by
  intro hrespects
  have hsent : pausedStartRun.map (fun s =>
      decide (HooksNest s.trace ∧ ¬RespectsPauses s.trace)) = some true := by
    decide
  obtain ⟨s, hs, hdecide⟩ := Option.map_eq_some_iff.mp hsent
  obtain ⟨hnest, hnot⟩ := of_decide_eq_true hdecide
  exact hnot (hrespects _ s (Run.of_foldlM any_allows hs) hnest)

end EnvoyFiles.Filter
