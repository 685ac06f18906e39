import EnvoyFiles.Server.Server

/-!
# What the engine does for each stream

Every operation that a stream waits for is at one place: its callback has still to send it,
or the engine has it as a job whose callback leads back to the stream.  Every handle that is
alive is held by the stream whose open it comes from.
-/

namespace EnvoyFiles

open Filter

namespace Job

/-- A job is that of the operation that its callback has captured. -/
def Matches : Job Server.OnDone → Prop
  | .openStat _ request onDone => ∃ ctx, onDone.op = .openStat request ctx
  | .read handle offset len onDone => ∃ seq, onDone.op = .read ⟨handle.id⟩ offset len seq
  | .readDir path onDone => onDone.op = .readDir path

end Job

namespace Server

/-- The operations of one stream among some jobs. -/
def opsOf (jobs : Multiset (Job OnDone)) (index : ℕ) : Multiset Op :=
  ((jobs.map Job.onDone).filter fun onDone => onDone.stream = index).map OnDone.op

/-- The handles of one stream. -/
def handlesOf (handles : List (HandleInner × OnDone)) (index : ℕ) : List FileHandle :=
  (handles.filter fun entry => entry.2.stream = index).map fun entry => ⟨entry.1.id⟩

section Lists

variable {jobs : Multiset (Job OnDone)} {job : Job OnDone} {index other : ℕ}
  {handles more : List (HandleInner × OnDone)} {held available : List FileHandle}

theorem opsOf_cons_self (jobs : Multiset (Job OnDone)) (h : job.onDone.stream = index) :
    opsOf (job ::ₘ jobs) index = job.onDone.op ::ₘ opsOf jobs index := by
  rw [opsOf, Multiset.map_cons,
    Multiset.filter_cons_of_pos (p := fun onDone : OnDone => onDone.stream = index) _ h,
    Multiset.map_cons]
  rfl

theorem opsOf_cons_ne (jobs : Multiset (Job OnDone)) (h : job.onDone.stream ≠ index) :
    opsOf (job ::ₘ jobs) index = opsOf jobs index := by
  rw [opsOf, Multiset.map_cons,
    Multiset.filter_cons_of_neg (p := fun onDone : OnDone => onDone.stream = index) _ h]
  rfl

theorem handlesOf_append (handles more : List (HandleInner × OnDone)) (index : ℕ) :
    handlesOf (handles ++ more) index = handlesOf handles index ++ handlesOf more index := by
  rw [handlesOf, List.filter_append, List.map_append]
  rfl

/-- What one stream lets go of is nothing to another one. -/
theorem handlesOf_release_ne (h : other ≠ index) :
    handlesOf (handles.filter (holds index held)) other = handlesOf handles other := by
  rw [handlesOf, handlesOf, List.filter_filter]
  congr 1
  refine List.filter_congr fun entry _ => ?_
  by_cases hother : entry.2.stream = other
  · simp [holds, hother, h]
  · simp [hother]

theorem handlesOf_release_self :
    handlesOf (handles.filter (holds index held)) index =
      (handlesOf handles index).filter held.contains := by
  rw [handlesOf, handlesOf, List.filter_filter, List.filter_map, List.filter_filter]
  congr 1
  refine List.filter_congr fun entry _ => ?_
  by_cases hself : entry.2.stream = index
  · simp [holds, hself]
  · simp [hself]

/-- Of at most one handle, what is held stays. -/
theorem filter_held (hlength : available.length ≤ 1)
    (hle : (held : Multiset FileHandle) ≤ available) :
    ((available.filter held.contains : List FileHandle) : Multiset FileHandle) = held := by
  rcases available with _ | ⟨handle, _ | ⟨second, rest⟩⟩
  · rw [Multiset.coe_nil, Multiset.le_zero] at hle
    rw [hle]
    rfl
  · rw [Multiset.coe_singleton, Multiset.le_singleton] at hle
    rcases hle with hnone | hone
    · rw [(Multiset.coe_eq_zero held).mp hnone]
      rfl
    · rw [Multiset.coe_eq_singleton.mp hone]
      simp
  · simp at hlength

end Lists

/-! ## The accounts of a stream -/

/-- What holds of one stream of a server. -/
structure StreamSound (crates : Crates) (cfg : Config) (s : Server) (index : ℕ)
    (stream : Stream) : Prop where
  run : ∃ actions, StreamRun crates cfg Env.any State.initial actions stream.filter
  /-- While the engine goes on, each pending operation is at one place. -/
  ops : s.reactor.running = true →
    opsOf s.reactor.jobs index + (stream.submits : Multiset Op) = stream.filter.pending
  handles : (handlesOf s.reactor.handles index : Multiset FileHandle) = stream.held
  dropped : stream.alive = false → stream.filter.complete = true ∧ stream.submits = []

/-- What holds of a server after `n` calls of `open_stat`. -/
structure Sound (crates : Crates) (cfg : Config) (n : ℕ) (s : Server) : Prop where
  exact : s.reactor.running = true → s.reactor.Exact n
  stopped : s.reactor.running = false →
    s.reactor.opening = [] ∧ s.reactor.reading = [] ∧ s.reactor.listing = []
  jobs : ∀ job ∈ s.reactor.jobs, job.onDone.stream < s.streams.length ∧ job.Matches
  handles : ∀ entry ∈ s.reactor.handles, entry.2.stream < s.streams.length
  streams : ∀ index stream, s.streams[index]? = some stream →
    StreamSound crates cfg s index stream

section Streams

variable {crates : Crates} {cfg : Config} {n : ℕ} {s t : Server} {index : ℕ}
  {stream stream' : Stream} {reactor : Reactor OnDone}

theorem sound_initial : Sound crates cfg 0 initial where
  exact _ := Reactor.exact_initial
  stopped _ := ⟨rfl, rfl, rfl⟩
  jobs job hjob := absurd hjob (Multiset.notMem_zero job)
  handles entry hentry := absurd hentry List.not_mem_nil
  streams index stream hstream := by
    rw [initial, List.getElem?_nil] at hstream
    cases hstream

/-- The accounts of a stream are about its own operations and handles. -/
theorem StreamSound.of_eq (h : StreamSound crates cfg s index stream)
    (hrunning : t.reactor.running = true → s.reactor.running = true)
    (hops : t.reactor.running = true →
      opsOf t.reactor.jobs index = opsOf s.reactor.jobs index)
    (hhandles : handlesOf t.reactor.handles index = handlesOf s.reactor.handles index) :
    StreamSound crates cfg t index stream where
  run := h.run
  ops hgoes := by rw [hops hgoes, h.ops (hrunning hgoes)]
  handles := by rw [hhandles, h.handles]
  dropped := h.dropped

/-- A step of the engine that leaves jobs and handles as they are, or stops it. -/
theorem Sound.of_reactor (h : Sound crates cfg n s)
    (hrunning : reactor.running = true → s.reactor.running = true)
    (hexact : reactor.running = true → reactor.Exact n)
    (hstopped : reactor.running = false →
      reactor.opening = [] ∧ reactor.reading = [] ∧ reactor.listing = [])
    (hjobs : ∀ job ∈ reactor.jobs, job ∈ s.reactor.jobs)
    (hsame : reactor.running = true → reactor.jobs = s.reactor.jobs)
    (hhandles : reactor.handles = s.reactor.handles) :
    Sound crates cfg n { s with reactor } where
  exact := hexact
  stopped := hstopped
  jobs job hjob := h.jobs job (hjobs job hjob)
  handles := hhandles ▸ h.handles
  streams other stream hstream := by
    refine (h.streams other stream hstream).of_eq hrunning (fun hgoes => ?_) ?_
    · dsimp only
      rw [hsame hgoes]
    · dsimp only
      rw [hhandles]

/-- A step that changes one stream and what the engine has of it. -/
theorem Sound.of_stream {m : ℕ} (h : Sound crates cfg n s)
    (hstream : s.streams[index]? = some stream)
    (hrunning : reactor.running = s.reactor.running)
    (hexact : reactor.running = true → reactor.Exact m)
    (hstopped : reactor.running = false →
      reactor.opening = [] ∧ reactor.reading = [] ∧ reactor.listing = [])
    (hjobs : ∀ job ∈ reactor.jobs, job.onDone.stream < s.streams.length ∧ job.Matches)
    (hhandles : ∀ entry ∈ reactor.handles, entry.2.stream < s.streams.length)
    (hothers : ∀ other, other ≠ index →
      (reactor.running = true → opsOf reactor.jobs other = opsOf s.reactor.jobs other) ∧
        handlesOf reactor.handles other = handlesOf s.reactor.handles other)
    (hself : StreamSound crates cfg ⟨reactor, s.streams.set index stream'⟩ index stream') :
    Sound crates cfg m ⟨reactor, s.streams.set index stream'⟩ where
  exact := hexact
  stopped := hstopped
  jobs job hjob := by
    rw [List.length_set]
    exact hjobs job hjob
  handles entry hentry := by
    rw [List.length_set]
    exact hhandles entry hentry
  streams other stream'' hother := by
    dsimp only at hother
    obtain ⟨hlt, -⟩ := List.getElem?_eq_some_iff.mp hstream
    by_cases hindex : other = index
    · subst hindex
      rw [List.getElem?_set_self hlt] at hother
      cases hother
      exact hself
    · rw [List.getElem?_set_ne (Ne.symm hindex)] at hother
      obtain ⟨hops, hown⟩ := hothers other hindex
      exact (h.streams other stream'' hother).of_eq (fun hgoes => hrunning ▸ hgoes) hops hown

end Streams

/-! ## The worker threads -/

section Workers

variable {crates : Crates} {cfg : Config} {n : ℕ} {s t : Server} {index : ℕ}
  {stream stream' : Stream}

theorem Sound.newStream (h : Sound crates cfg n s) : Sound crates cfg n s.newStream where
  exact := h.exact
  stopped := h.stopped
  jobs job hjob := by
    obtain ⟨hlt, hmatches⟩ := h.jobs job hjob
    refine ⟨?_, hmatches⟩
    rw [Server.newStream, List.length_append]
    omega
  handles entry hentry := by
    have hlt := h.handles entry hentry
    rw [Server.newStream, List.length_append]
    omega
  streams index stream hstream := by
    rw [Server.newStream] at hstream
    dsimp only at hstream
    rcases Nat.lt_or_ge index s.streams.length with hlt | hge
    · rw [List.getElem?_append_left hlt] at hstream
      exact (h.streams index stream hstream).of_eq id (fun _ => rfl) rfl
    · rw [List.getElem?_append_right hge] at hstream
      obtain ⟨hlast, hnew⟩ := List.getElem?_eq_some_iff.mp hstream
      have hindex : index = s.streams.length := by
        rw [List.length_singleton] at hlast
        omega
      subst hindex
      simp only [Nat.sub_self, List.getElem_cons_zero] at hnew
      subst hnew
      have hops : opsOf s.reactor.jobs s.streams.length = 0 := by
        rw [opsOf, Multiset.filter_eq_nil.mpr, Multiset.map_zero]
        intro onDone hdone
        obtain ⟨job, hjob, rfl⟩ := Multiset.mem_map.mp hdone
        exact (h.jobs job hjob).1.ne
      have hhandles : handlesOf s.reactor.handles s.streams.length = [] := by
        rw [handlesOf, List.filter_eq_nil_iff.mpr, List.map_nil]
        intro entry hentry
        simpa using (h.handles entry hentry).ne
      refine ⟨⟨[], .nil _⟩, fun _ => ?_, ?_, by simp⟩
      · dsimp only [Server.newStream]
        rw [hops]
        rfl
      · dsimp only [Server.newStream]
        rw [hhandles]
        rfl

/-- The accounts where one stream changes, its handles become fewer and the operations the
engine has stay the same. -/
theorem Sound.setStream (h : Sound crates cfg n s) (hstream : s.streams[index]? = some stream)
    (hheld : (stream'.held : Multiset FileHandle) ≤ stream.held)
    (hlength : stream.held.length ≤ 1)
    (hrun : ∃ actions, StreamRun crates cfg Env.any State.initial actions stream'.filter)
    (hops : opsOf s.reactor.jobs index + (stream.submits : Multiset Op) = stream.filter.pending →
      opsOf s.reactor.jobs index + (stream'.submits : Multiset Op) = stream'.filter.pending)
    (hdropped : stream'.alive = false →
      stream'.filter.complete = true ∧ stream'.submits = []) :
    Sound crates cfg n (s.setStream index stream') := by
  have hstreams := h.streams index stream hstream
  refine h.of_stream hstream rfl (fun hgoes => (h.exact hgoes).release _) h.stopped h.jobs ?_ ?_ ?_
  · intro entry hentry
    exact h.handles entry (List.mem_filter.mp hentry).1
  · intro other hother
    exact ⟨fun _ => rfl, handlesOf_release_ne hother⟩
  · refine ⟨hrun, fun hgoes => hops (hstreams.ops hgoes), ?_, hdropped⟩
    have hown := hstreams.handles
    have hcard : (handlesOf s.reactor.handles index).length ≤ 1 := by
      rw [← Multiset.coe_card, hown, Multiset.coe_card]
      exact hlength
    exact (congrArg _ handlesOf_release_self).trans (filter_held hcard (hown ▸ hheld))

/-- What a stream holds is held by its filter. -/
theorem StreamSound.held_length (h : StreamSound crates cfg s index stream) :
    stream.held.length ≤ 1 := by
  obtain ⟨actions, hrun⟩ := h.run
  rw [Stream.held]
  split
  · exact (run_held hrun).1
  · exact Nat.zero_le 1

/-- Behind its completion a stream submits nothing. -/
theorem callback_gone {filter filter' : State} {action : Filter.Action}
    (hcomplete : filter.complete = true) (hcallback : action.isCallback = true)
    (hstep : Filter.step crates cfg filter action = some filter') :
    filter'.complete = true ∧ filter'.pending = filter.pending := by
  refine ⟨(step_gone hcomplete hstep).1, ?_⟩
  cases action with
  | complete index completion => cases hcallback
  | commit =>
      simp only [Filter.step] at hstep
      split at hstep
      · cases hstep
      · cases hstep
        rfl
  | requestHeaders headers reentry => simp [Filter.step, hcomplete] at hstep
  | scheduled reentry => simp [Filter.step, hcomplete] at hstep
  | hook hook => simp [Filter.step, hcomplete] at hstep
  | streamComplete => simp [Filter.step, hcomplete] at hstep

/-- What a callback does to its stream. -/
theorem callback_cases {action : Filter.Action}
    (h : s.callback crates cfg index action = some t) :
    ∃ stream filter, s.streams[index]? = some stream ∧ action.isCallback = true ∧
      stream.submits = [] ∧ Filter.step crates cfg stream.filter action = some filter ∧
      t = s.setStream index { stream with
        filter, submits := filter.pending.drop stream.filter.pending.length } := by
  obtain ⟨stream, hstream, hnext⟩ := Option.bind_eq_some_iff.mp h
  split at hnext
  · next hready =>
      obtain ⟨filter, hfilter, hset⟩ := Option.bind_eq_some_iff.mp hnext
      rw [Bool.and_eq_true, List.isEmpty_iff] at hready
      exact ⟨stream, filter, hstream, hready.1, hready.2, hfilter, (Option.some.inj hset).symm⟩
  · cases hnext

theorem Sound.callback (h : Sound crates cfg n s) {action : Filter.Action}
    (hstep : s.callback crates cfg index action = some t) : Sound crates cfg n t := by
  obtain ⟨stream, filter, hstream, hcallback, hsubmits, hfilter, rfl⟩ := callback_cases hstep
  have hsound := h.streams index stream hstream
  obtain ⟨actions, hrun⟩ := hsound.run
  obtain ⟨-, -, hbatch⟩ := run_opensAlone hrun
  obtain ⟨⟨more, hmore⟩, hheld⟩ := callback_keeps hcallback hbatch hfilter
  refine h.setStream hstream ?_ hsound.held_length ?_ ?_ ?_
  · rw [Stream.held, Stream.held]
    split
    · exact hheld
    · exact le_rfl
  · exact ⟨actions ++ [action], hrun.append (.single (any_allows _ _) hfilter)⟩
  · intro hops
    dsimp only
    rw [hsubmits, Multiset.coe_nil, add_zero] at hops
    rw [hops, ← hmore, List.drop_left, Multiset.coe_add]
  · intro hdead
    obtain ⟨hcomplete, -⟩ := hsound.dropped hdead
    obtain ⟨hgone, hpending⟩ := callback_gone hcomplete hcallback hfilter
    refine ⟨hgone, ?_⟩
    dsimp only
    rw [hpending, List.drop_length]

theorem Sound.destroy (h : Sound crates cfg n s) (hstep : s.destroy index = some t) :
    Sound crates cfg n t := by
  obtain ⟨stream, hstream, hnext⟩ := Option.bind_eq_some_iff.mp hstep
  split at hnext
  · next hready =>
      cases hnext
      rw [Bool.and_eq_true, List.isEmpty_iff] at hready
      have hsound := h.streams index stream hstream
      exact h.setStream hstream (Multiset.zero_le _) hsound.held_length hsound.run id
        (fun _ => hready)
  · cases hnext

/-- A stream hands its next submission to the engine. -/
theorem Sound.hand {m : ℕ} (h : Sound crates cfg n s)
    (hstream : s.streams[index]? = some stream) {reactor : Reactor OnDone} {op : Op}
    {submits : List Op} (hsubmits : stream.submits = op :: submits)
    (hrunning : reactor.running = s.reactor.running)
    (hexact : reactor.running = true → reactor.Exact m)
    (hstopped : reactor.running = false →
      reactor.opening = [] ∧ reactor.reading = [] ∧ reactor.listing = [])
    (hjobs : reactor.running = true ∨ reactor.jobs ≠ s.reactor.jobs →
      ∃ job : Job OnDone, job.onDone = ⟨index, op⟩ ∧ job.Matches ∧
        reactor.jobs = job ::ₘ s.reactor.jobs)
    (hhandles : reactor.handles = s.reactor.handles) :
    Sound crates cfg m
      { reactor, streams := s.streams.set index { stream with submits } } := by
  obtain ⟨hlt, -⟩ := List.getElem?_eq_some_iff.mp hstream
  have hsound := h.streams index stream hstream
  refine h.of_stream hstream hrunning hexact hstopped ?_ (hhandles ▸ h.handles) ?_ ?_
  · intro other hother
    by_cases hsame : reactor.jobs = s.reactor.jobs
    · rw [hsame] at hother
      exact h.jobs other hother
    · obtain ⟨job, hdone, hmatches, hcons⟩ := hjobs (Or.inr hsame)
      rw [hcons] at hother
      rcases Multiset.mem_cons.mp hother with rfl | hearlier
      · exact ⟨by rw [hdone]; exact hlt, hmatches⟩
      · exact h.jobs other hearlier
  · intro other hother
    refine ⟨fun hgoes => ?_, by rw [hhandles]⟩
    obtain ⟨job, hdone, -, hcons⟩ := hjobs (Or.inl hgoes)
    rw [hcons, opsOf_cons_ne]
    rw [hdone]
    exact Ne.symm hother
  · refine ⟨hsound.run, fun hgoes => ?_, ?_, fun hdead => ?_⟩
    · obtain ⟨job, hdone, -, hcons⟩ := hjobs (Or.inl hgoes)
      have hops := hsound.ops (hrunning ▸ hgoes)
      dsimp only
      rw [hcons, opsOf_cons_self _ (by rw [hdone]), hdone, ← hops, hsubmits, ← Multiset.cons_coe,
        Multiset.cons_add, Multiset.add_cons]
    · dsimp only
      rw [hhandles]
      exact hsound.handles
    · obtain ⟨-, hnone⟩ := hsound.dropped hdead
      rw [hsubmits] at hnone
      cases hnone

theorem Sound.claimId (h : Sound crates cfg n s) (hdrawn : n + 1 < CompioEngine.idRange)
    (hstep : s.claimId index = some t) : Sound crates cfg (n + 1) t := by
  obtain ⟨stream, hstream, hnext⟩ := Option.bind_eq_some_iff.mp hstep
  split at hnext
  · next request ctx submits hsubmits =>
      cases hnext
      have hmatches : (Job.openStat s.reactor.nextId request
          (⟨index, .openStat request ctx⟩ : OnDone)).Matches := ⟨ctx, rfl⟩
      exact h.hand hstream hsubmits rfl (fun hgoes => (h.exact hgoes).claimId hdrawn) h.stopped
        (fun _ => ⟨_, rfl, hmatches, Reactor.claimId_jobs _ _ _⟩) rfl
  · cases hnext

/-- A handle of the stream is found with its own id. -/
theorem ownHandle_found {handle : FileHandle} {position : ℕ} {entry : HandleInner × OnDone}
    {handles : List (HandleInner × OnDone)}
    (hfind : handles.findIdx? (ownHandle index handle) = some position)
    (hentry : handles[position]? = some entry) :
    entry.2.stream = index ∧ entry.1.id = handle.id := by
  obtain ⟨hlt, hown, -⟩ := List.findIdx?_eq_some_iff_getElem.mp hfind
  obtain ⟨-, rfl⟩ := List.getElem?_eq_some_iff.mp hentry
  simpa [ownHandle] using hown

/-- So does one that posts a command; it is dropped if the engine has ended. -/
theorem Sound.post (h : Sound crates cfg n s) (hstream : s.streams[index]? = some stream)
    {op : Op} {submits : List Op} (hsubmits : stream.submits = op :: submits)
    {command : Posted OnDone} {job : Job OnDone} (hjob : command.job = some job)
    (hdone : job.onDone = ⟨index, op⟩) (hmatches : job.Matches)
    (hexact : s.reactor.running = true → (s.reactor.post command).Exact n) :
    Sound crates cfg n
      { reactor := s.reactor.post command
        streams := s.streams.set index { stream with submits } } := by
  cases hrunning : s.reactor.running with
  | false =>
      have hsame : s.reactor.post command = s.reactor :=
        if_neg (by rw [hrunning]; exact Bool.false_ne_true)
      rw [hsame]
      refine h.hand hstream hsubmits rfl h.exact h.stopped ?_ rfl
      rintro (hgoes | hchanged)
      · exact absurd (hrunning.symm.trans hgoes) Bool.noConfusion
      · exact absurd rfl hchanged
  | true =>
      have hpost : s.reactor.post command =
          { s.reactor with commands := s.reactor.commands ++ [command] } := if_pos hrunning
      have hgoes : (s.reactor.post command).running = true := by
        rw [hpost]
        exact hrunning
      refine h.hand hstream hsubmits (hgoes.trans hrunning.symm) (fun _ => hexact hrunning)
        (fun hstop => absurd (hgoes.symm.trans hstop) Bool.noConfusion) (fun _ => ?_) (by rw [hpost])
      refine ⟨job, hdone, hmatches, ?_⟩
      rw [Reactor.post_jobs hrunning, hjob]
      rfl

theorem Sound.submit (h : Sound crates cfg n s) (hstep : s.submit index = some t) :
    Sound crates cfg n t := by
  obtain ⟨stream, hstream, hnext⟩ := Option.bind_eq_some_iff.mp hstep
  split at hnext
  · next handle offset len seq submits hsubmits =>
      obtain ⟨position, hfind, hnext⟩ := Option.bind_eq_some_iff.mp hnext
      obtain ⟨reactor, hread, hnext⟩ := Option.bind_eq_some_iff.mp hnext
      cases hnext
      obtain ⟨entry, hentry, hposted⟩ := Option.bind_eq_some_iff.mp hread
      have hexact := fun hrunning => (h.exact hrunning).read hrunning hread
      cases hposted
      have hmatches : (Job.read entry.1 offset len
          (⟨index, .read handle offset len seq⟩ : OnDone)).Matches := by
        refine ⟨seq, ?_⟩
        rw [(ownHandle_found hfind hentry).2]
      exact h.post hstream hsubmits rfl rfl hmatches hexact
  · next path submits hsubmits =>
      cases hnext
      have hmatches : (Job.readDir path (⟨index, .readDir path⟩ : OnDone)).Matches := rfl
      exact h.post hstream hsubmits rfl rfl hmatches
        fun hrunning => (h.exact hrunning).readDir hrunning path
  · cases hnext

theorem Sound.sendOpen (h : Sound crates cfg n s) (hstep : s.sendOpen index = some t) :
    Sound crates cfg n t := by
  obtain ⟨reactor, hsubmit, hnext⟩ := Option.bind_eq_some_iff.mp hstep
  cases hnext
  have hframe : reactor.running = s.reactor.running ∧ reactor.handles = s.reactor.handles ∧
      reactor.opening = s.reactor.opening ∧ reactor.reading = s.reactor.reading ∧
      reactor.listing = s.reactor.listing := by
    obtain ⟨item, -, hposted⟩ := Option.bind_eq_some_iff.mp hsubmit
    obtain ⟨commands, heq⟩ := Reactor.post_eq
      { s.reactor with submitting := s.reactor.submitting.eraseIdx index }
      (.openStat item.1.1 item.1.2 item.2)
    rw [← Option.some.inj hposted, heq]
    exact ⟨rfl, rfl, rfl, rfl, rfl⟩
  obtain ⟨hrunning, hhandles, hopening, hreading, hlisting⟩ := hframe
  refine h.of_reactor (fun hgoes => hrunning ▸ hgoes) (fun hgoes => ?_) (fun hstop => ?_)
    (fun job hjob => Multiset.mem_of_le (Reactor.submitOpen_jobs_le hsubmit) hjob)
    (fun hgoes => Reactor.submitOpen_jobs (hrunning ▸ hgoes) hsubmit) hhandles
  · exact (h.exact (hrunning ▸ hgoes)).submitOpen (hrunning ▸ hgoes) hsubmit
  · rw [hopening, hreading, hlisting]
    exact h.stopped (hrunning ▸ hstop)

theorem Sound.dropInner (h : Sound crates cfg n s) (hstep : s.dropInner index = some t) :
    Sound crates cfg n t := by
  obtain ⟨reactor, hdrop, hnext⟩ := Option.bind_eq_some_iff.mp hstep
  cases hnext
  have hframe : reactor.running = s.reactor.running ∧ reactor.handles = s.reactor.handles ∧
      reactor.opening = s.reactor.opening ∧ reactor.reading = s.reactor.reading ∧
      reactor.listing = s.reactor.listing := by
    obtain ⟨inner, -, hposted⟩ := Option.bind_eq_some_iff.mp hdrop
    obtain ⟨commands, heq⟩ := Reactor.post_eq
      { s.reactor with dropping := s.reactor.dropping.eraseIdx index } (.close inner)
    rw [← Option.some.inj hposted, heq]
    split <;> exact ⟨rfl, rfl, rfl, rfl, rfl⟩
  obtain ⟨hrunning, hhandles, hopening, hreading, hlisting⟩ := hframe
  have hjobs := Reactor.dropInner_jobs hdrop
  refine h.of_reactor (fun hgoes => hrunning ▸ hgoes) (fun hgoes => ?_) (fun hstop => ?_)
    (fun job hjob => hjobs ▸ hjob) (fun _ => hjobs) hhandles
  · exact (h.exact (hrunning ▸ hgoes)).dropInner (hrunning ▸ hgoes) hdrop
  · rw [hopening, hreading, hlisting]
    exact h.stopped (hrunning ▸ hstop)

theorem Sound.shutdown (h : Sound crates cfg n s) :
    Sound crates cfg n { s with reactor := s.reactor.shutdown } := by
  have hjobs : s.reactor.shutdown.jobs = s.reactor.jobs := Reactor.post_jobs_none rfl
  obtain ⟨commands, heq⟩ := s.reactor.post_eq .shutdown
  have hshutdown : s.reactor.shutdown = { s.reactor with commands } := heq
  have hrunning : s.reactor.shutdown.running = s.reactor.running := by rw [hshutdown]
  refine h.of_reactor (fun hgoes => hrunning ▸ hgoes)
    (fun hgoes => (h.exact (hrunning ▸ hgoes)).shutdown) (fun hstop => ?_)
    (fun job hjob => hjobs ▸ hjob) (fun _ => hjobs) (by rw [hshutdown])
  rw [hshutdown]
  exact h.stopped (hrunning ▸ hstop)

end Workers

/-! ## The runtime thread -/

section Runtime

variable {crates : Crates} {cfg : Config} {n : ℕ} {s t : Server} {index : ℕ}
  {stream : Stream} {reactor : Reactor OnDone} {onDone : OnDone} {completion : Completion}

theorem Sound.takeCommand (h : Sound crates cfg n s) (hstep : s.takeCommand = some t) :
    Sound crates cfg n t := by
  obtain ⟨reactor, htake, hnext⟩ := Option.bind_eq_some_iff.mp hstep
  cases hnext
  have hrunning := Reactor.takeCommand_running htake
  refine h.of_reactor (fun _ => hrunning) (fun hgoes => (h.exact hrunning).takeCommand htake hgoes)
    (fun hstop => ?_) (fun job => Multiset.mem_of_le (Reactor.takeCommand_jobs_le htake))
    (Reactor.takeCommand_jobs htake) (Reactor.takeCommand_frame htake).1
  rw [Reactor.takeCommand_stop htake hstop]
  exact ⟨rfl, rfl, rfl⟩

/-- What a callback of the engine does to its stream. -/
theorem runCallback_cases (h : s.runCallback onDone completion = some t) :
    ∃ stream event, s.streams[onDone.stream]? = some stream ∧
      onDone.op.onDone completion = some event ∧
      t = s.setStream onDone.stream { stream with
        filter := deliver
          { stream.filter with pending := stream.filter.pending.erase onDone.op } event } := by
  obtain ⟨stream, hstream, hnext⟩ := Option.bind_eq_some_iff.mp h
  obtain ⟨event, hevent, hset⟩ := Option.bind_eq_some_iff.mp hnext
  exact ⟨stream, event, hstream, hevent, (Option.some.inj hset).symm⟩

/-- A job of a stream is one of the operations that it waits for. -/
theorem Sound.job_pending (h : Sound crates cfg n s) (hrunning : s.reactor.running = true)
    {job : Job OnDone} (hjob : job ∈ s.reactor.jobs)
    (hstream : s.streams[job.onDone.stream]? = some stream) :
    job.onDone.op ∈ stream.filter.pending := by
  have hops := (h.streams _ stream hstream).ops hrunning
  obtain ⟨others, hothers⟩ := Multiset.exists_cons_of_mem hjob
  rw [← Multiset.mem_coe, ← hops, hothers, opsOf_cons_self _ rfl]
  exact Multiset.mem_add.mpr (Or.inl (Multiset.mem_cons_self _ _))

/-- Where a job is all that its stream waits for, no other job is one of the stream. -/
theorem Sound.job_alone (h : Sound crates cfg n s) (hrunning : s.reactor.running = true)
    {job : Job OnDone} {others : Multiset (Job OnDone)} (hjobs : s.reactor.jobs = job ::ₘ others)
    (hstream : s.streams[job.onDone.stream]? = some stream)
    (hpending : stream.filter.pending = [job.onDone.op]) :
    ∀ other ∈ others, other.onDone.stream ≠ job.onDone.stream := by
  intro other hother hsame
  have hops := (h.streams _ stream hstream).ops hrunning
  obtain ⟨rest, hrest⟩ := Multiset.exists_cons_of_mem hother
  rw [hjobs, hrest, opsOf_cons_self _ rfl, opsOf_cons_self _ hsame, hpending] at hops
  have hcard := congrArg Multiset.card hops
  simp only [Multiset.card_add, Multiset.card_cons, Multiset.coe_card, List.length_cons,
    List.length_nil] at hcard
  omega

/-- The callback of an operation is its completion. -/
theorem completeOp_erase {filter : State} {op : Op} {event : IoEvent} (hop : op ∈ filter.pending)
    (hevent : op.onDone completion = some event) :
    completeOp filter (filter.pending.idxOf op) completion =
      some (deliver { filter with pending := filter.pending.erase op } event) := by
  rw [completeOp, List.getElem?_idxOf hop, List.erase_eq_eraseIdx_of_idxOf rfl]
  rw [Option.bind_eq_bind, Option.bind_some, hevent]
  rfl

/-- At most the handle of its event comes to those that a stream holds. -/
theorem delivered_held (stream : Stream) (pending : List Op) (event : IoEvent) :
    (Stream.held { stream with filter := deliver { stream.filter with pending } event } :
      Multiset FileHandle) ≤ (event.handle.toList : Multiset FileHandle) + stream.held := by
  rw [Stream.held, Stream.held]
  split
  · rcases deliver_held { stream.filter with pending } event with ⟨-, hheld⟩ | ⟨-, hheld⟩
    · exact hheld.le
    · rw [hheld]
      exact Multiset.le_add_left _ _
  · exact Multiset.zero_le _

/-- The end of a task, with the handle that its callback gets. -/
theorem Sound.finish (h : Sound crates cfg n s) (hrunning : s.reactor.running = true)
    {job : Job OnDone} (hjobs : s.reactor.jobs = job ::ₘ reactor.jobs)
    (hdone : job.onDone = onDone) (hgoes : reactor.running = s.reactor.running)
    (hexact : reactor.Exact n) {more : List (HandleInner × OnDone)}
    (hhandles : reactor.handles = s.reactor.handles ++ more)
    (howner : ∀ entry ∈ more, entry.2 = onDone)
    (hgot : ∀ event, onDone.op.onDone completion = some event →
      more.map (fun entry => (⟨entry.1.id⟩ : FileHandle)) = event.handle.toList)
    (hstep : runCallback { s with reactor } onDone completion = some t) :
    Sound crates cfg n t := by
  obtain ⟨stream, event, hstream, hevent, rfl⟩ := runCallback_cases hstep
  obtain ⟨hlt, -⟩ := List.getElem?_eq_some_iff.mp hstream
  have hsound := h.streams _ stream hstream
  have hpending : onDone.op ∈ stream.filter.pending := by
    rw [← hdone] at hstream ⊢
    exact h.job_pending hrunning (hjobs ▸ Multiset.mem_cons_self _ _) hstream
  obtain ⟨actions, hrun⟩ := hsound.run
  obtain ⟨hone, hopen⟩ := run_held hrun
  have hmore : handlesOf more onDone.stream = event.handle.toList := by
    rw [← hgot event hevent, handlesOf, List.filter_eq_self.mpr]
    intro entry hentry
    rw [howner entry hentry]
    exact decide_eq_true rfl
  have hheld : stream.held.length + event.handle.toList.length ≤ 1 := by
    have hle : event.handle.toList.length ≤ 1 := by cases event.handle <;> simp
    by_cases hisOpen : onDone.op.isOpen = true
    · have hnone : stream.held = [] := by
        rw [Stream.held, hopen _ hpending hisOpen]
        split <;> rfl
      rw [hnone, List.length_nil, zero_add]
      exact hle
    · rw [onDone_handle hevent (by simpa using hisOpen)]
      exact hsound.held_length
  have hrest : reactor.running = true := hgoes.trans hrunning
  refine h.of_stream hstream hgoes (fun _ => hexact.release _)
    (fun hstop => absurd (hrest.symm.trans hstop) Bool.noConfusion) ?_ ?_ ?_ ?_
  · intro other hother
    exact h.jobs other (hjobs ▸ Multiset.mem_cons_of_mem hother)
  · intro entry hentry
    have hmem : entry ∈ s.reactor.handles ++ more := hhandles ▸ (List.mem_filter.mp hentry).1
    rcases List.mem_append.mp hmem with hearlier | hnew
    · exact h.handles entry hearlier
    · rw [howner entry hnew]
      exact hlt
  · intro other hother
    constructor
    · intro _
      rw [hjobs, opsOf_cons_ne _ (by rw [hdone]; exact Ne.symm hother)]
      rfl
    · refine (handlesOf_release_ne hother).trans ?_
      dsimp only
      rw [hhandles, handlesOf_append]
      have hnone : handlesOf more other = [] := by
        rw [handlesOf, List.filter_eq_nil_iff.mpr, List.map_nil]
        intro entry hentry
        rw [howner entry hentry]
        simpa using Ne.symm hother
      rw [hnone, List.append_nil]
  · refine ⟨⟨actions ++ [.complete (stream.filter.pending.idxOf onDone.op) completion], ?_⟩,
      fun _ => ?_, ?_, fun hdead => ?_⟩
    · exact hrun.append (.single (any_allows _ _) (completeOp_erase hpending hevent))
    · have hops := hsound.ops hrunning
      rw [hjobs, opsOf_cons_self _ (by rw [hdone]), hdone, Multiset.cons_add] at hops
      dsimp only
      rw [deliver_pending, ← Multiset.coe_erase, ← hops, Multiset.erase_cons_head]
      rfl
    · refine (congrArg _ handlesOf_release_self).trans ?_
      have hown : (handlesOf reactor.handles onDone.stream : Multiset FileHandle) =
          (event.handle.toList : Multiset FileHandle) + stream.held := by
        rw [hhandles, handlesOf_append, hmore, ← hsound.handles, Multiset.coe_add,
          Multiset.coe_eq_coe]
        exact List.perm_append_comm
      refine filter_held ?_ (hown ▸ ?_)
      · rw [← Multiset.coe_card, hown, Multiset.card_add, Multiset.coe_card, Multiset.coe_card]
        omega
      · exact delivered_held stream _ event
    · obtain ⟨hcomplete, hnone⟩ := hsound.dropped hdead
      exact ⟨(deliver_complete _ _).trans hcomplete, hnone⟩

theorem Sound.finishOpen (h : Sound crates cfg n s) {os : Os} {descriptor : ℕ}
    (hrunning : s.reactor.running = true)
    (hstep : s.finishOpen index os descriptor = some t) : Sound crates cfg n t := by
  obtain ⟨⟨reactor, onDone, result⟩, hfinish, hnext⟩ := Option.bind_eq_some_iff.mp hstep
  obtain ⟨id, request, -, -, -, hjobs⟩ := Reactor.finishOpen_jobs hfinish
  have hdone : (Job.openStat id request onDone).onDone = onDone := rfl
  have hexact := (h.exact hrunning).finishOpen hfinish
  obtain ⟨ctx, hop⟩ := (h.jobs (.openStat id request onDone)
    (hjobs ▸ Multiset.mem_cons_self _ _)).2
  obtain ⟨hgoes, ⟨error, rfl, hhandles⟩ | ⟨opened, rfl, hhandles⟩⟩ :=
    Reactor.finishOpen_handles hfinish
  · refine h.finish hrunning hjobs hdone hgoes hexact (hhandles.trans (List.append_nil _).symm)
      (fun _ hentry => absurd hentry List.not_mem_nil) ?_ hnext
    intro event hevent
    rw [hop] at hevent
    cases hevent
    rfl
  · refine h.finish hrunning hjobs hdone hgoes hexact hhandles
      (fun entry hentry => by rw [List.mem_singleton.mp hentry]) ?_ hnext
    intro event hevent
    rw [hop] at hevent
    cases hevent
    rfl

theorem Sound.finishRead (h : Sound crates cfg n s)
    {reply : ℕ → ℕ → ℕ → Except IoError Bytes} (hrunning : s.reactor.running = true)
    (hstep : s.finishRead index reply = some t) : Sound crates cfg n t := by
  obtain ⟨⟨reactor, onDone, result⟩, hfinish, hnext⟩ := Option.bind_eq_some_iff.mp hstep
  obtain ⟨task, -, hjobs, -⟩ := Reactor.finishRead_jobs hfinish
  have hdone : (Job.read task.handle task.offset task.len onDone).onDone = onDone := rfl
  have hexact := (h.exact hrunning).finishRead hfinish
  obtain ⟨seq, hop⟩ := (h.jobs (.read task.handle task.offset task.len onDone)
    (hjobs ▸ Multiset.mem_cons_self _ _)).2
  obtain ⟨hgoes, hhandles⟩ : reactor.running = s.reactor.running ∧
      reactor.handles = s.reactor.handles ++ [] := by
    obtain ⟨item, -, hitem⟩ := Option.bind_eq_some_iff.mp hfinish
    cases hitem
    exact ⟨rfl, (List.append_nil _).symm⟩
  refine h.finish hrunning hjobs hdone hgoes hexact hhandles
    (fun _ hentry => absurd hentry List.not_mem_nil) ?_ hnext
  intro event hevent
  have hread : onDone.op.isOpen = false := by
    rw [hop]
    rfl
  rw [onDone_handle hevent hread]
  rfl

theorem Sound.finishReadDir (h : Sound crates cfg n s) {result : ReadDirResult}
    (hrunning : s.reactor.running = true)
    (hstep : s.finishReadDir index result = some t) : Sound crates cfg n t := by
  obtain ⟨⟨reactor, onDone, result'⟩, hfinish, hnext⟩ := Option.bind_eq_some_iff.mp hstep
  obtain ⟨path, -, hjobs, -⟩ := Reactor.finishReadDir_jobs hfinish
  have hdone : (Job.readDir path onDone).onDone = onDone := rfl
  have hexact := (h.exact hrunning).finishReadDir hfinish
  have hop : onDone.op = .readDir path :=
    (h.jobs (.readDir path onDone) (hjobs ▸ Multiset.mem_cons_self _ _)).2
  obtain ⟨hgoes, hhandles⟩ : reactor.running = s.reactor.running ∧
      reactor.handles = s.reactor.handles ++ [] := by
    obtain ⟨item, -, hitem⟩ := Option.bind_eq_some_iff.mp hfinish
    cases hitem
    exact ⟨rfl, (List.append_nil _).symm⟩
  refine h.finish hrunning hjobs hdone hgoes hexact hhandles
    (fun _ hentry => absurd hentry List.not_mem_nil) ?_ hnext
  intro event hevent
  have hlist : onDone.op.isOpen = false := by
    rw [hop]
    rfl
  rw [onDone_handle hevent hlist]
  rfl

/-- Behind its end the engine completes nothing. -/
theorem Sound.running (h : Sound crates cfg n s) {action : Action}
    (hstep : step crates cfg s action = some t) (hfinish : action.finishes = true) : s.reactor.running = true := by
  by_contra hnot
  obtain ⟨hopening, hreading, hlisting⟩ := h.stopped (by simpa using hnot)
  cases action with
  | finishOpen index os descriptor =>
      obtain ⟨next, hnext, -⟩ := Option.bind_eq_some_iff.mp hstep
      obtain ⟨task, htask, -⟩ := Option.bind_eq_some_iff.mp hnext
      rw [hopening] at htask
      cases htask
  | finishRead index reply =>
      obtain ⟨next, hnext, -⟩ := Option.bind_eq_some_iff.mp hstep
      obtain ⟨task, htask, -⟩ := Option.bind_eq_some_iff.mp hnext
      rw [hreading] at htask
      cases htask
  | finishReadDir index result =>
      obtain ⟨next, hnext, -⟩ := Option.bind_eq_some_iff.mp hstep
      obtain ⟨task, htask, -⟩ := Option.bind_eq_some_iff.mp hnext
      rw [hlisting] at htask
      cases htask
  | _ => cases hfinish

end Runtime

/-! ## Runs -/

section Runs

variable {crates : Crates} {cfg : Config} {n : ℕ} {s t : Server} {action : Action}
  {actions : List Action} {ok : Server → Action → Prop}

/-- Every step of a server keeps the accounts. -/
theorem step_sound (h : Sound crates cfg n s) (hdrawn : n + opens [action] < CompioEngine.idRange)
    (hstep : step crates cfg s action = some t) : Sound crates cfg (n + opens [action]) t := by
  cases action with
  | newStream =>
      cases hstep
      exact h.newStream
  | callback stream action => exact h.callback hstep
  | claimId stream => exact h.claimId hdrawn hstep
  | submit stream => exact h.submit hstep
  | sendOpen index => exact h.sendOpen hstep
  | destroy stream => exact h.destroy hstep
  | dropInner index => exact h.dropInner hstep
  | shutdown =>
      cases hstep
      exact h.shutdown
  | takeCommand => exact h.takeCommand hstep
  | finishOpen index os descriptor => exact h.finishOpen (h.running hstep rfl) hstep
  | finishRead index reply => exact h.finishRead (h.running hstep rfl) hstep
  | finishReadDir index result => exact h.finishReadDir (h.running hstep rfl) hstep

theorem opens_cons (action : Action) (actions : List Action) :
    opens (action :: actions) = opens [action] + opens actions := by
  cases action <;> simp only [opens] <;> omega

/-- In every run of a server the accounts hold. -/
theorem run_sound (h : Sound crates cfg n s) (hdrawn : n + opens actions < CompioEngine.idRange)
    (hrun : ServerRun crates cfg ok s actions t) : Sound crates cfg (n + opens actions) t := by
  induction hrun generalizing n with
  | nil s => exact h
  | @cons s u t action actions hok hstep hrest ih =>
      rw [opens_cons, ← add_assoc] at hdrawn ⊢
      exact ih (step_sound h (by omega) hstep) hdrawn

/-! ## Conservation -/

/-- Nothing is lost, doubled or mixed up between the streams and the engine. -/
structure Conserved (s : Server) : Prop where
  /-- While the engine goes on, a stream waits for what the engine has to do for it and what
  its callback has still to send, each operation once. -/
  ops : s.reactor.running = true → ∀ index stream, s.streams[index]? = some stream →
    opsOf s.reactor.jobs index + (stream.submits : Multiset Op) = stream.filter.pending
  /-- A job is done for a stream with that stream's own arguments. -/
  jobs : ∀ job ∈ s.reactor.jobs, job.Matches ∧
    ∃ stream, s.streams[job.onDone.stream]? = some stream ∧
      (s.reactor.running = true → job.onDone.op ∈ stream.filter.pending)
  /-- The handles that are alive are those that streams hold, at most one each. -/
  handles : ∀ index stream, s.streams[index]? = some stream →
    (handlesOf s.reactor.handles index : Multiset FileHandle) = stream.held ∧
      stream.held.length ≤ 1
  owners : ∀ entry ∈ s.reactor.handles, ∃ stream,
    s.streams[entry.2.stream]? = some stream ∧ ⟨entry.1.id⟩ ∈ stream.held

/-- A handle is one of those of its stream. -/
theorem mem_handlesOf {handles : List (HandleInner × OnDone)} {entry : HandleInner × OnDone}
    (hentry : entry ∈ handles) : ⟨entry.1.id⟩ ∈ handlesOf handles entry.2.stream :=
  List.mem_map.mpr ⟨entry, List.mem_filter.mpr ⟨hentry, by simp⟩, rfl⟩

/-- In every run, in whatever order the threads go on, nothing is lost, doubled or mixed up. -/
theorem server_conserves (hdrawn : opens actions < CompioEngine.idRange)
    (hrun : ServerRun crates cfg ok initial actions s) : Conserved s := by
  have hsound := run_sound sound_initial (by rwa [zero_add]) hrun
  refine ⟨fun hrunning index stream hstream => (hsound.streams index stream hstream).ops hrunning,
    fun job hjob => ?_, fun index stream hstream => ?_, fun entry hentry => ?_⟩
  · obtain ⟨hlt, hmatches⟩ := hsound.jobs job hjob
    have hstream := List.getElem?_eq_getElem hlt
    exact ⟨hmatches, _, hstream, fun hrunning => hsound.job_pending hrunning hjob hstream⟩
  · have hstreams := hsound.streams index stream hstream
    exact ⟨hstreams.handles, hstreams.held_length⟩
  · have hstream := List.getElem?_eq_getElem (hsound.handles entry hentry)
    refine ⟨_, hstream, ?_⟩
    rw [← Multiset.mem_coe, ← (hsound.streams _ _ hstream).handles, Multiset.mem_coe]
    exact mem_handlesOf hentry

/-- A stream that has asked for the headers of a file, so that nothing is prefetched. -/
def askedActions : List Action :=
  [.newStream,
    .callback 0 (.requestHeaders
      [(Text.asBytes ":method", Text.asBytes "HEAD"), (Text.asBytes ":path", Text.asBytes "/a")]
      [])]

/-- Its file has been opened, and the event is on its way. -/
def openedActions : List Action :=
  askedActions ++ [.claimId 0, .sendOpen 0, .takeCommand, .finishOpen 0 smallFileOs 7]

def replayed (actions : List Action) : Option Server :=
  actions.foldlM (step Crates.plain (Config.defaults ⟨"/srv"⟩)) initial

theorem replayed_run (h : replayed actions = some s) :
    ServerRun Crates.plain (Config.defaults ⟨"/srv"⟩) (fun _ _ => True) initial actions s :=
  Transition.Run.of_foldlM (fun _ _ => trivial) h

theorem server_conserves_opened : ∃ s, replayed openedActions = some s ∧ Conserved s := by
  have hsome : (replayed openedActions).isSome = true := by decide
  obtain ⟨s, hs⟩ := Option.isSome_iff_exists.mp hsome
  exact ⟨s, hs, server_conserves (by decide) (replayed_run hs)⟩

end Runs

end Server

end EnvoyFiles
