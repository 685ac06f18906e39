import EnvoyFiles.Io.Reactor
import EnvoyFiles.Support.Custody

/-!
# The file table

The handles of open files are the holders of the entries of the file table: a `Read` uses
an entry, the `Close` of the last clone releases it, and the channel keeps their order.
Every step of the engine is a step of that custody or leaves it as it is, so the table is
exact in every interleaving.
-/

namespace EnvoyFiles

open Custody

/-- The entry of a handle in the file table. -/
def HandleInner.entry (inner : HandleInner) : ℕ × File :=
  (inner.id, inner.file)

/-- The entries of some handles; an inert handle has none. -/
def entries (inners : List HandleInner) : Multiset (ℕ × File) :=
  ((inners.filter fun inner => inner.id ≠ 0).map HandleInner.entry : List (ℕ × File))

namespace Command

/-- The id an open is to use. -/
def openId : Command → Option ℕ
  | .openStat id _ => some id
  | _ => none

/-- What a command says about an entry of the file table. -/
def message : Command → Option (Message ℕ File)
  | .read handle _ _ => if handle.id ≠ 0 then some (.use handle.entry) else none
  | .close handle => some (.release handle.entry)
  | _ => none

theorem read_message_inert {handle : HandleInner} {offset len : ℕ} (hid : handle.id = 0) :
    (read handle offset len).message = none :=
  if_neg (not_not.mpr hid)

theorem read_message {handle : HandleInner} {offset len : ℕ} (hid : handle.id ≠ 0) :
    (read handle offset len).message = some (.use handle.entry) :=
  if_pos hid

end Command

section Entries

variable {inner : HandleInner} {inners : List HandleInner}

theorem entries_append (inners later : List HandleInner) :
    entries (inners ++ later) = entries inners + entries later := by
  simp only [entries]
  rw [List.filter_append, List.map_append, Multiset.coe_add]

theorem entries_single (hid : inner.id ≠ 0) : entries [inner] = {inner.entry} := by
  rw [entries]
  rw [List.filter_cons_of_pos (by simpa using hid)]
  rfl

theorem entries_inert (hid : inner.id = 0) : entries [inner] = 0 := by
  rw [entries]
  rw [List.filter_cons_of_neg (by simpa using hid)]
  rfl

theorem entries_perm {others : List HandleInner} (h : inners.Perm others) :
    entries inners = entries others :=
  Multiset.coe_eq_coe.mpr ((h.filter _).map _)

theorem entries_cons (inner : HandleInner) (inners : List HandleInner) :
    entries (inner :: inners) = entries [inner] + entries inners :=
  entries_append [inner] inners

theorem mem_entries {entry : ℕ × File} :
    entry ∈ entries inners ↔ ∃ inner ∈ inners, inner.id ≠ 0 ∧ inner.entry = entry := by
  rw [entries]
  simp [and_assoc]

end Entries

/-- A list is one of its elements and the others. -/
theorem perm_eraseIdx {α : Type*} {items : List α} {index : ℕ} {item : α}
    (h : items[index]? = some item) : items.Perm (item :: items.eraseIdx index) := by
  obtain ⟨hindex, rfl⟩ := List.getElem?_eq_some_iff.mp h
  exact (List.getElem_cons_eraseIdx_perm hindex).symm

namespace CompioEngine

/-- The ids that are drawn and have no file yet. -/
def reserved (s : CompioEngine) : Multiset ℕ :=
  (s.submitting.map Prod.fst : List ℕ) + (s.commands.filterMap Command.openId : List ℕ) +
    (s.opening.map Prod.fst : List ℕ)

/-- The file table in the custody of the handles. -/
def custody (s : CompioEngine) : Custody.State ℕ File where
  reserved := s.reserved
  holders := entries (s.handles.map SharedHandle.inner) + entries s.dropping
  messages := s.commands.filterMap Command.message
  table key := s.files.lookup key

/-! ## Steps -/

section Steps

variable {s t : CompioEngine} {index offset len : ℕ}

/-- A command other than an open says something about an entry or nothing. -/
theorem send_custody {command : Command} (hopen : command.openId = none) :
    (s.send command).custody =
      { s.custody with messages := s.custody.messages ++ command.message.toList } := by
  have hopens : [command].filterMap Command.openId = [] := by
    rw [List.filterMap_cons_none hopen]
    rfl
  have hmessages : [command].filterMap Command.message = command.message.toList := by
    cases hmessage : command.message with
    | none =>
        rw [List.filterMap_cons_none hmessage]
        rfl
    | some message =>
        rw [List.filterMap_cons_some hmessage]
        rfl
  unfold custody reserved send
  dsimp only
  rw [List.filterMap_append, List.filterMap_append, hopens, hmessages, List.append_nil]

theorem claimId_custody (s : CompioEngine) (request : OpenRequest) :
    (s.claimId request).custody = s.custody.reserve s.nextId := by
  have hreserved : (s.claimId request).reserved = s.nextId ::ₘ s.reserved := by
    unfold reserved claimId
    dsimp only
    rw [List.map_append, ← Multiset.coe_add, ← Multiset.singleton_add]
    show _ + ({s.nextId} : Multiset ℕ) + _ + _ = _
    abel
  rw [custody, State.reserve]
  rw [hreserved]
  rfl

theorem submitOpen_custody (h : s.submitOpen index = some t) : t.custody = s.custody := by
  obtain ⟨⟨id, request⟩, hitem, hnext⟩ := Option.bind_eq_some_iff.mp h
  cases hnext
  have hreserved : (send { s with submitting := s.submitting.eraseIdx index }
      (.openStat id request)).reserved = s.reserved := by
    have hperm := (perm_eraseIdx hitem).map Prod.fst
    unfold reserved send
    dsimp only
    rw [Multiset.coe_eq_coe.mpr hperm, List.filterMap_append, ← Multiset.coe_add,
      List.map_cons, ← Multiset.cons_coe, ← Multiset.singleton_add]
    show _ + (_ + ({id} : Multiset ℕ)) + _ = _
    abel
  rw [custody]
  rw [hreserved]
  rw [send]
  rw [List.filterMap_append]
  exact congrArg (State.mk _ _ · _) (List.append_nil _)

/-- A read uses the entry of its handle, unless the handle is inert. -/
theorem read_custody (h : s.read index offset len = some t) :
    t.custody = s.custody ∨ Move s.custody t.custody := by
  obtain ⟨shared, hitem, hnext⟩ := Option.bind_eq_some_iff.mp h
  cases hnext
  have hsend := @send_custody s (.read shared.inner offset len) rfl
  by_cases hid : shared.inner.id = 0
  · left
    rw [Command.read_message_inert hid] at hsend
    exact hsend.trans (congrArg (State.mk _ _ · _) (List.append_nil _))
  · right
    have hheld : shared.inner.entry ∈ s.custody.holders := by
      refine Multiset.mem_add.mpr (Or.inl (mem_entries.mpr ⟨shared.inner, ?_, hid, rfl⟩))
      exact List.mem_map_of_mem (List.mem_of_getElem? hitem)
    rw [hsend, Command.read_message hid]
    exact .use hheld

theorem readDir_custody (s : CompioEngine) (path : PathBuf) :
    (s.readDir path).custody = s.custody :=
  (send_custody rfl).trans (congrArg (State.mk _ _ · _) (List.append_nil _))

/-- Clones share one entry. -/
theorem set_inner {shared shared' : SharedHandle} (hitem : s.handles[index]? = some shared)
    (hinner : shared'.inner = shared.inner) :
    (s.handles.set index shared').map SharedHandle.inner =
      s.handles.map SharedHandle.inner := by
  obtain ⟨hindex, rfl⟩ := List.getElem?_eq_some_iff.mp hitem
  calc (s.handles.set index shared').map SharedHandle.inner
      = (s.handles.map SharedHandle.inner).set index s.handles[index].inner := by
        rw [List.map_set, hinner]
    _ = (s.handles.set index s.handles[index]).map SharedHandle.inner := List.map_set.symm
    _ = s.handles.map SharedHandle.inner := by rw [List.set_getElem_self]

theorem cloneHandle_custody (h : s.cloneHandle index = some t) : t.custody = s.custody := by
  obtain ⟨shared, hitem, hnext⟩ := Option.bind_eq_some_iff.mp h
  cases hnext
  have hinner := @set_inner s index shared { shared with clones := shared.clones + 1 } hitem rfl
  rw [custody]
  dsimp only
  rw [hinner]
  rfl

/-- The last clone leaves its entry to the `Drop`. -/
theorem dropHandle_custody (h : s.dropHandle index = some t) : t.custody = s.custody := by
  obtain ⟨shared, hitem, hnext⟩ := Option.bind_eq_some_iff.mp h
  have hnext := Option.some.inj hnext
  by_cases hlast : shared.clones ≤ 1
  · rw [if_pos hlast] at hnext
    subst hnext
    have hperm := (perm_eraseIdx hitem).map SharedHandle.inner
    have hholders : entries ((s.handles.eraseIdx index).map SharedHandle.inner) +
        entries (s.dropping ++ [shared.inner]) =
          entries (s.handles.map SharedHandle.inner) + entries s.dropping := by
      rw [entries_perm hperm, List.map_cons, entries_append,
        entries_cons shared.inner ((s.handles.eraseIdx index).map SharedHandle.inner),
        add_comm (entries [shared.inner]), add_assoc, add_comm (entries [shared.inner])]
    exact congrArg (State.mk _ · _ _) hholders
  · rw [if_neg hlast] at hnext
    subst hnext
    have hinner := @set_inner s index shared { shared with clones := shared.clones - 1 } hitem
      rfl
    rw [custody]
    dsimp only
    rw [hinner]
    rfl

/-- The `Drop` releases the entry, unless the handle is inert. -/
theorem dropInner_custody (h : s.dropInner index = some t) :
    t.custody = s.custody ∨ Move s.custody t.custody := by
  obtain ⟨inner, hitem, hnext⟩ := Option.bind_eq_some_iff.mp h
  have hnext := Option.some.inj hnext
  have hdropping : entries s.dropping =
      entries [inner] + entries (s.dropping.eraseIdx index) := by
    rw [entries_perm (perm_eraseIdx hitem), entries_cons]
  by_cases hid : inner.id = 0
  · left
    rw [if_neg (not_not.mpr hid)] at hnext
    subst hnext
    rw [entries_inert hid, zero_add] at hdropping
    exact congrArg (fun rest => State.mk s.reserved
      (entries (s.handles.map SharedHandle.inner) + rest) _ _) hdropping.symm
  · right
    rw [if_pos hid] at hnext
    subst hnext
    rw [entries_single hid] at hdropping
    have hholders : s.custody.holders = inner.entry ::ₘ
        (entries (s.handles.map SharedHandle.inner) +
          entries (s.dropping.eraseIdx index)) := by
      rw [custody]
      dsimp only
      rw [hdropping, ← Multiset.singleton_add]
      abel
    rw [send_custody rfl]
    exact .release hholders

theorem takeClose_custody {handle : HandleInner} {commands : List Command}
    (hcommands : s.commands = .close handle :: commands) :
    Move s.custody
      { s with commands, files := removeEntry handle.id s.files : CompioEngine }.custody := by
  have hmessages : s.custody.messages =
      .release handle.entry :: commands.filterMap Command.message := by
    rw [custody]
    dsimp only
    rw [hcommands]
    rfl
  have htable : (fun key => (removeEntry handle.id s.files).lookup key) =
      Function.update s.custody.table handle.entry.1 none := by
    funext key
    rw [Function.update_apply, lookup_removeEntry]
    rfl
  have hcustody :
      { s with commands, files := removeEntry handle.id s.files : CompioEngine }.custody =
        { s.custody with
          messages := commands.filterMap Command.message
          table := Function.update s.custody.table handle.entry.1 none } := by
    rw [← htable]
    unfold custody reserved
    dsimp only
    rw [hcommands]
    rfl
  rw [hcustody]
  exact .takeRelease hmessages

/-- A task is spawned for an open. -/
theorem takeOpen_custody {id : ℕ} {request : OpenRequest} {commands : List Command}
    (hcommands : s.commands = .openStat id request :: commands) :
    { s with commands, opening := s.opening ++ [(id, request)] : CompioEngine }.custody =
      s.custody := by
  have hreserved : { s with
      commands, opening := s.opening ++ [(id, request)] : CompioEngine }.reserved =
        s.reserved := by
    have hopens : s.commands.filterMap Command.openId =
        id :: commands.filterMap Command.openId := by
      rw [hcommands]
      rfl
    unfold reserved
    dsimp only
    rw [hopens, List.map_append, ← Multiset.coe_add, ← Multiset.cons_coe,
      ← Multiset.singleton_add]
    show _ + _ + (_ + ({id} : Multiset ℕ)) = _
    abel
  unfold custody
  rw [hreserved]
  dsimp only
  rw [hcommands]
  rfl

theorem takeRead_custody {handle : HandleInner} {commands : List Command}
    {reading : List ReadTask} (hcommands : s.commands = .read handle offset len :: commands) :
    { s with commands, reading : CompioEngine }.custody = s.custody ∨
      Move s.custody { s with commands, reading : CompioEngine }.custody := by
  have hcustody : { s with commands, reading : CompioEngine }.custody =
      { s.custody with messages := commands.filterMap Command.message } := by
    unfold custody reserved
    dsimp only
    rw [hcommands]
    rfl
  have hmessages : s.custody.messages =
      (Command.read handle offset len :: commands).filterMap Command.message := by
    rw [custody]
    dsimp only
    rw [hcommands]
  rw [hcustody]
  by_cases hid : handle.id = 0
  · left
    rw [List.filterMap_cons_none (Command.read_message_inert hid)] at hmessages
    rw [← hmessages]
  · right
    rw [List.filterMap_cons_some (Command.read_message hid)] at hmessages
    exact .takeUse hmessages

/-- The runtime thread takes a use or a release of an entry, or a command that changes
nothing for the table. -/
theorem takeCommand_custody (h : s.takeCommand = some t) :
    t.custody = s.custody ∨ Move s.custody t.custody := by
  rw [takeCommand] at h
  split at h
  · nomatch h
  · next handle commands hcommands =>
      cases h
      exact Or.inr (takeClose_custody hcommands)
  · next id request commands hcommands =>
      cases h
      exact Or.inl (takeOpen_custody hcommands)
  · next handle offset len commands hcommands =>
      cases h
      exact takeRead_custody hcommands
  · next path commands hcommands =>
      cases h
      left
      unfold custody reserved
      dsimp only
      rw [hcommands]
      rfl

/-- The callback of an open gets the only clone of a new handle. -/
theorem entries_register (s : CompioEngine) (id : ℕ) (opened : Opened) (descriptor : ℕ) :
    (s.register id opened descriptor).custody.holders =
      entries [⟨opened.handle.id, ⟨descriptor, opened.file⟩⟩] + s.custody.holders := by
  rw [custody, register]
  dsimp only
  rw [List.map_append, entries_append, add_comm (entries _), add_assoc]
  rfl

theorem register_inert (s : CompioEngine) {id descriptor : ℕ} {opened : Opened}
    (hinert : opened.inert) (hhandle : opened.handle.id = 0) :
    (s.register id opened descriptor).custody = s.custody := by
  have hholders := s.entries_register id opened descriptor
  rw [entries_inert hhandle, zero_add] at hholders
  have hfiles : (s.register id opened descriptor).files = s.files := if_pos hinert
  rw [custody] at hholders ⊢
  dsimp only at hholders
  rw [hholders, hfiles]
  rfl

theorem register_file (s : CompioEngine) {id descriptor : ℕ} {opened : Opened}
    (hopen : ¬opened.inert) (hhandle : opened.handle.id = id) (hid : id ≠ 0) :
    (s.register id opened descriptor).custody =
      { s.custody with
        holders := (id, ⟨descriptor, opened.file⟩) ::ₘ s.custody.holders
        table := Function.update s.custody.table id (some ⟨descriptor, opened.file⟩) } := by
  have hholders := s.entries_register id opened descriptor
  rw [hhandle, entries_single hid, Multiset.singleton_add] at hholders
  have hfiles : (s.register id opened descriptor).files =
      insertEntry id ⟨descriptor, opened.file⟩ s.files := if_neg hopen
  have htable : (fun key => (s.register id opened descriptor).files.lookup key) =
      Function.update s.custody.table id (some ⟨descriptor, opened.file⟩) := by
    funext key
    rw [hfiles, lookup_insertEntry, Function.update_apply]
    rfl
  rw [custody] at hholders htable ⊢
  dsimp only at hholders
  rw [hholders, htable]
  rfl

/-- An open that ends gives up its id or registers its file. -/
theorem finishOpen_custody {os : Os} {descriptor : ℕ}
    (hids : ∀ id ∈ s.reserved, 0 < id) (h : s.finishOpen index os descriptor = some t) :
    Move s.custody t.custody := by
  obtain ⟨⟨id, request⟩, hitem, hnext⟩ := Option.bind_eq_some_iff.mp h
  dsimp only at hnext
  have hreserved : s.reserved = id ::ₘ { s with opening := s.opening.eraseIdx index :
      CompioEngine }.reserved := by
    have hperm := (perm_eraseIdx hitem).map Prod.fst
    unfold reserved
    dsimp only
    rw [Multiset.coe_eq_coe.mpr hperm, List.map_cons, ← Multiset.cons_coe, Multiset.add_cons]
  have hid : id ≠ 0 := by
    refine (hids id ?_).ne'
    rw [hreserved]
    exact Multiset.mem_cons_self id _
  cases hopen : Engine.openStat os id request s.engineState with
  | mk result state =>
      rw [hopen] at hnext
      cases result with
      | error error =>
          cases hnext
          exact .withdraw hreserved
      | ok opened =>
          cases hnext
          obtain ⟨hhandle, -⟩ := openStat_registers hopen
          by_cases hinert : opened.inert
          · rw [if_pos hinert] at hhandle
            rw [register_inert _ hinert hhandle]
            exact .withdraw hreserved
          · rw [if_neg hinert] at hhandle
            rw [register_file _ hinert hhandle hid]
            exact .register hreserved

/-- Every action but the drawing of an id is a move of the custody, or none. -/
theorem step_custody {action : Action} (hids : ∀ id ∈ s.reserved, 0 < id)
    (hclaim : opens [action] = 0) (h : s.step action = some t) :
    t.custody = s.custody ∨ Move s.custody t.custody := by
  cases action with
  | claimId request => nomatch hclaim
  | submitOpen index => exact Or.inl (submitOpen_custody h)
  | read index offset len => exact read_custody h
  | readDir path =>
      cases h
      exact Or.inl (readDir_custody s path)
  | cloneHandle index => exact Or.inl (cloneHandle_custody h)
  | dropHandle index => exact Or.inl (dropHandle_custody h)
  | dropInner index => exact dropInner_custody h
  | takeCommand => exact takeCommand_custody h
  | finishOpen index os descriptor => exact Or.inr (finishOpen_custody hids h)
  | finishRead index =>
      obtain ⟨task, -, hnext⟩ := Option.bind_eq_some_iff.mp h
      cases hnext
      exact Or.inl rfl
  | finishReadDir index =>
      obtain ⟨path, -, hnext⟩ := Option.bind_eq_some_iff.mp h
      cases hnext
      exact Or.inl rfl

/-- Only `open_stat` draws an id. -/
theorem step_nextId {action : Action} (hclaim : opens [action] = 0)
    (h : s.step action = some t) : t.nextId = s.nextId := by
  cases action with
  | claimId request => nomatch hclaim
  | submitOpen index =>
      obtain ⟨item, -, hnext⟩ := Option.bind_eq_some_iff.mp h
      cases hnext
      rfl
  | read index offset len =>
      obtain ⟨shared, -, hnext⟩ := Option.bind_eq_some_iff.mp h
      cases hnext
      rfl
  | readDir path =>
      cases h
      rfl
  | cloneHandle index =>
      obtain ⟨shared, -, hnext⟩ := Option.bind_eq_some_iff.mp h
      cases hnext
      rfl
  | dropHandle index =>
      obtain ⟨shared, -, hnext⟩ := Option.bind_eq_some_iff.mp h
      rw [← Option.some.inj hnext]
      split <;> rfl
  | dropInner index =>
      obtain ⟨inner, -, hnext⟩ := Option.bind_eq_some_iff.mp h
      rw [← Option.some.inj hnext]
      split <;> rfl
  | takeCommand =>
      unfold step takeCommand at h
      dsimp only at h
      split at h
      · nomatch h
      all_goals
        cases h
        rfl
  | finishOpen index os descriptor =>
      obtain ⟨⟨id, request⟩, -, hnext⟩ := Option.bind_eq_some_iff.mp h
      dsimp only at hnext
      split at hnext
      all_goals
        cases hnext
        rfl
  | finishRead index =>
      obtain ⟨task, -, hnext⟩ := Option.bind_eq_some_iff.mp h
      cases hnext
      rfl
  | finishReadDir index =>
      obtain ⟨path, -, hnext⟩ := Option.bind_eq_some_iff.mp h
      cases hnext
      rfl

end Steps

/-! ## Every interleaving -/

/-- What holds after `n` calls of `open_stat`. -/
structure Sound (n : ℕ) (s : CompioEngine) : Prop where
  nextId : s.nextId = (n + 1) % idRange
  ids : ∀ id ∈ s.custody.keys, 0 < id ∧ id ≤ n
  exact : Exact s.custody

/-- Ids up to `n` do not come back. -/
structure Aged (n : ℕ) (s t : CompioEngine) : Prop where
  reserved : ∀ id ≤ n, id ∈ t.reserved → id ∈ s.reserved
  keys : ∀ id ≤ n, id ∈ t.custody.keys → id ∈ s.custody.keys

section Runs

variable {n : ℕ} {s t : CompioEngine} {action : Action} {actions : List Action}

theorem sound_initial : Sound 0 initial where
  nextId := rfl
  ids id hid := absurd hid (Multiset.notMem_zero id)
  exact := exact_empty

theorem Aged.refl (n : ℕ) (s : CompioEngine) : Aged n s s :=
  ⟨fun _ _ hid => hid, fun _ _ hid => hid⟩

theorem Aged.trans {m : ℕ} {u : CompioEngine} (hle : n ≤ m) (h : Aged n s t)
    (hlater : Aged m t u) : Aged n s u where
  reserved id hid hmem := h.reserved id hid (hlater.reserved id (hid.trans hle) hmem)
  keys id hid hmem := h.keys id hid (hlater.keys id (hid.trans hle) hmem)

theorem Sound.claimId (h : Sound n s) (hopens : n + 1 < idRange) (request : OpenRequest) :
    Sound (n + 1) (s.claimId request) ∧ Aged n s (s.claimId request) := by
  have hdrawn : s.nextId = n + 1 := h.nextId.trans (Nat.mod_eq_of_lt hopens)
  have hcustody := claimId_custody s request
  rw [hdrawn] at hcustody
  have hfresh : n + 1 ∉ s.custody.keys := fun hmem =>
    absurd (h.ids _ hmem).2 (Nat.not_succ_le_self n)
  have hkeys : (s.claimId request).custody.keys = (n + 1) ::ₘ s.custody.keys := by
    rw [hcustody, reserve_keys]
  refine ⟨⟨?_, ?_, ?_⟩, ⟨?_, ?_⟩⟩
  · show (s.nextId + 1) % idRange = _
    rw [hdrawn]
  · intro id hid
    rw [hkeys] at hid
    rcases Multiset.mem_cons.mp hid with rfl | hold
    · exact ⟨Nat.succ_pos n, le_rfl⟩
    · exact ⟨(h.ids id hold).1, (h.ids id hold).2.trans (Nat.le_succ n)⟩
  · rw [hcustody]
    exact h.exact.reserve hfresh
  · intro id hid hmem
    have hreserved : (s.claimId request).reserved = (n + 1) ::ₘ s.reserved :=
      congrArg State.reserved hcustody
    rw [hreserved] at hmem
    exact (Multiset.mem_cons.mp hmem).resolve_left (by omega)
  · intro id hid hmem
    rw [hkeys] at hmem
    exact (Multiset.mem_cons.mp hmem).resolve_left (by omega)

theorem Sound.of_custody (h : Sound n s) (hnext : t.nextId = s.nextId)
    (hcustody : t.custody = s.custody ∨ Move s.custody t.custody) :
    Sound n t ∧ Aged n s t := by
  rcases hcustody with hsame | hmove
  · refine ⟨⟨hnext.trans h.nextId, ?_, ?_⟩, ⟨fun id _ hid => ?_, fun id _ hid => ?_⟩⟩
    · rw [hsame]
      exact h.ids
    · rw [hsame]
      exact h.exact
    · have hreserved : t.reserved = s.reserved := congrArg State.reserved hsame
      rw [hreserved] at hid
      exact hid
    · rw [hsame] at hid
      exact hid
  · refine ⟨⟨hnext.trans h.nextId, fun id hid => ?_, hmove.exact h.exact⟩,
      ⟨fun id _ hid => ?_, fun id _ hid => ?_⟩⟩
    · exact h.ids id (Multiset.mem_of_le hmove.keys_le hid)
    · exact Multiset.mem_of_le hmove.reserved_le hid
    · exact Multiset.mem_of_le hmove.keys_le hid

theorem step_sound (h : Sound n s) (hopens : n + opens [action] < idRange)
    (hstep : s.step action = some t) : Sound (n + opens [action]) t ∧ Aged n s t := by
  have hids : ∀ id ∈ s.reserved, 0 < id := by
    intro id hid
    exact (h.ids id (Multiset.mem_add.mpr (Or.inl hid))).1
  by_cases hclaim : opens [action] = 0
  · rw [hclaim]
    exact h.of_custody (step_nextId hclaim hstep) (step_custody hids hclaim hstep)
  · cases action with
    | claimId request =>
        cases hstep
        exact h.claimId hopens request
    | _ => exact absurd rfl hclaim

theorem opens_cons : opens (action :: actions) = opens [action] + opens actions := by
  cases action with
  | claimId request => exact Nat.add_comm _ _
  | _ => exact (Nat.zero_add _).symm

theorem opens_append (actions later : List Action) :
    opens (actions ++ later) = opens actions + opens later := by
  induction actions with
  | nil => exact (Nat.zero_add _).symm
  | cons action actions ih =>
      rw [List.cons_append, opens_cons, ih, @opens_cons action actions, Nat.add_assoc]

theorem run_sound (h : Sound n s) (hopens : n + opens actions < idRange)
    (hrun : EngineRun s actions t) : Sound (n + opens actions) t ∧ Aged n s t := by
  induction hrun generalizing n with
  | nil s => exact ⟨h, Aged.refl n s⟩
  | @cons s u t action actions _ hstep hrest ih =>
      rw [opens_cons, ← Nat.add_assoc] at hopens ⊢
      obtain ⟨hu, hfirst⟩ := step_sound h (Nat.lt_of_le_of_lt (Nat.le_add_right _ _) hopens)
        hstep
      obtain ⟨ht, hlater⟩ := ih hu hopens
      exact ⟨ht, hfirst.trans (Nat.le_add_right _ _) hlater⟩

end Runs

/-! ## The exact table -/

/-- No clone of a handle is left, and its `Drop` has returned. -/
structure LetGo (id : ℕ) (s : CompioEngine) : Prop where
  handles : ∀ shared ∈ s.handles, shared.inner.id ≠ id
  dropping : ∀ inner ∈ s.dropping, inner.id ≠ id

/-- What the file table has to do with the handles that are alive. -/
structure TableExact (s : CompioEngine) : Prop where
  /-- A `Read` that is taken finds the file of the handle it was sent through. -/
  finds : ∀ handle offset len commands, s.commands = .read handle offset len :: commands →
    handle.id ≠ 0 → s.files.lookup handle.id = some handle.file
  /-- Handles of different opens have different ids. -/
  distinct : ∀ (i j : ℕ) (first second : SharedHandle), s.handles[i]? = some first →
    s.handles[j]? = some second → first.inner.id ≠ 0 →
      first.inner.id = second.inner.id → i = j
  /-- What is let go of is gone when the channel is drained. -/
  gone : ∀ id, LetGo id s → s.commands = [] → s.files.lookup id = none
  quiescent : s.commands = [] → s.dropping = [] → ∀ id file,
    s.files.lookup id = some file ↔
      ∃ shared ∈ s.handles, shared.inner = ⟨id, file⟩ ∧ id ≠ 0

section Tables

variable {n id : ℕ} {file : File} {s t u : CompioEngine} {before between after : List Action}

theorem mem_holders : (id, file) ∈ s.custody.holders ↔
    id ≠ 0 ∧ ((∃ shared ∈ s.handles, shared.inner = ⟨id, file⟩) ∨ ⟨id, file⟩ ∈ s.dropping) := by
  have hentry (inners : List HandleInner) :
      (id, file) ∈ entries inners ↔ id ≠ 0 ∧ ⟨id, file⟩ ∈ inners := by
    rw [mem_entries]
    constructor
    · rintro ⟨inner, hinner, hid, hentry⟩
      cases hentry
      exact ⟨hid, hinner⟩
    · rintro ⟨hid, hinner⟩
      exact ⟨_, hinner, hid, rfl⟩
  rw [custody]
  dsimp only
  rw [Multiset.mem_add, hentry, hentry, List.mem_map, and_or_left]

/-- What is let go of has no entry among the holders. -/
theorem LetGo.notMem_holders (h : LetGo id s) : (id, file) ∉ s.custody.holders := by
  intro hmem
  obtain ⟨-, ⟨shared, hshared, hinner⟩ | hdropping⟩ := mem_holders.mp hmem
  · exact h.handles shared hshared (congrArg HandleInner.id hinner)
  · exact h.dropping _ hdropping rfl

theorem drained_messages (hdrained : s.commands = []) : s.custody.messages = [] := by
  rw [custody]
  dsimp only
  rw [hdrained]
  rfl

/-- An id of which no clone is left is not owned once the channel is drained. -/
theorem LetGo.notMem_owned (h : LetGo id s) (hdrained : s.commands = []) :
    id ∉ (owned s.custody.holders s.custody.messages).map Prod.fst := by
  rw [drained_messages hdrained]
  intro hmem
  obtain ⟨⟨id', file⟩, hentry, hid⟩ := Multiset.mem_map.mp hmem
  cases hid
  rw [owned, released] at hentry
  rw [add_zero] at hentry
  exact h.notMem_holders hentry

theorem Sound.handles_pairwise (h : Sound n s) :
    s.handles.Pairwise fun first second =>
      first.inner.id ≠ 0 → second.inner.id ≠ 0 → first.inner.id ≠ second.inner.id := by
  have hnodup := h.exact.holders_nodup
  rw [custody] at hnodup
  dsimp only at hnodup
  rw [Multiset.map_add] at hnodup
  have hlive := (Multiset.nodup_add.mp hnodup).1
  rw [entries] at hlive
  rw [Multiset.map_coe, Multiset.coe_nodup, List.map_map] at hlive
  have hpairwise := List.pairwise_filter.mp (List.pairwise_map.mp hlive)
  refine (List.pairwise_map.mp hpairwise).imp fun hne hfirst hsecond => ?_
  exact hne (decide_eq_true hfirst) (decide_eq_true hsecond)

theorem Sound.distinct (h : Sound n s) {i j : ℕ} {first second : SharedHandle}
    (hfirst : s.handles[i]? = some first) (hsecond : s.handles[j]? = some second)
    (hid : first.inner.id ≠ 0) (hsame : first.inner.id = second.inner.id) : i = j := by
  obtain ⟨hi, rfl⟩ := List.getElem?_eq_some_iff.mp hfirst
  obtain ⟨hj, rfl⟩ := List.getElem?_eq_some_iff.mp hsecond
  have hpairwise := List.pairwise_iff_getElem.mp h.handles_pairwise
  rcases Nat.lt_trichotomy i j with hlt | heq | hgt
  · exact absurd hsame (hpairwise i j hi hj hlt hid (hsame ▸ hid))
  · exact heq
  · exact absurd hsame.symm (hpairwise j i hj hi hgt (hsame ▸ hid) hid)

theorem Sound.tableExact (h : Sound n s) : TableExact s where
  finds handle offset len commands hcommands hid := by
    have hmessages : s.custody.messages =
        .use handle.entry :: commands.filterMap Command.message := by
      rw [custody]
      dsimp only
      rw [hcommands, List.filterMap_cons_some (Command.read_message hid)]
    exact h.exact.use_finds hmessages
  distinct i j first second hfirst hsecond hid hsame := h.distinct hfirst hsecond hid hsame
  gone id hgone hdrained := by
    cases htable : s.files.lookup id with
    | none => rfl
    | some file =>
        have hheld := (h.exact.table_iff_of_drained (drained_messages hdrained) id file).mp
          htable
        exact absurd hheld hgone.notMem_holders
  quiescent hdrained hdropping id file := by
    have htable := h.exact.table_iff_of_drained (drained_messages hdrained) id file
    rw [mem_holders, hdropping] at htable
    refine htable.trans ⟨?_, ?_⟩
    · rintro ⟨hid, ⟨shared, hshared, hinner⟩ | hnone⟩
      · exact ⟨shared, hshared, hinner, hid⟩
      · nomatch hnone
    · rintro ⟨shared, hshared, hinner, hid⟩
      exact ⟨hid, Or.inl ⟨shared, hshared, hinner⟩⟩

end Tables

/-- In every interleaving the file table is exact.  The entry of a handle that was let go
of is gone once the channel was drained, and does not come back. -/
theorem file_table_exact {before between after : List Action} {s t u : CompioEngine}
    (hopens : opens (before ++ (between ++ after)) < idRange)
    (hbefore : EngineRun initial before s) (hbetween : EngineRun s between t)
    (hafter : EngineRun t after u) :
    TableExact u ∧ ∀ shared ∈ s.handles, shared.inner.id ≠ 0 →
      LetGo shared.inner.id t → t.commands = [] →
        u.files.lookup shared.inner.id = none := by
  rw [opens_append, opens_append] at hopens
  have hs := (run_sound sound_initial (by omega) hbefore).1
  obtain ⟨ht, hkept⟩ := run_sound hs (by omega) hbetween
  obtain ⟨hu, hlater⟩ := run_sound ht (by omega) hafter
  refine ⟨hu.tableExact, fun shared hshared hid hgone hdrained => ?_⟩
  have hheld : shared.inner.entry ∈ s.custody.holders :=
    mem_holders.mpr ⟨hid, Or.inl ⟨shared, hshared, rfl⟩⟩
  have howned : shared.inner.id ∈ (owned s.custody.holders s.custody.messages).map Prod.fst :=
    Multiset.mem_map_of_mem Prod.fst (mem_owned_of_holders hheld)
  have hdrawn : shared.inner.id ≤ 0 + opens before :=
    (hs.ids _ (Multiset.mem_add.mpr (Or.inr howned))).2
  have hunreserved : shared.inner.id ∉ s.reserved := by
    intro hreserved
    have hdisjoint := (Multiset.nodup_add.mp hs.exact.keys_nodup).2.2
    exact Multiset.disjoint_left.mp hdisjoint hreserved howned
  have hunused : shared.inner.id ∉ t.custody.keys := by
    intro hkey
    rcases Multiset.mem_add.mp hkey with hreserved | howned
    · exact hunreserved (hkept.reserved _ hdrawn hreserved)
    · exact hgone.notMem_owned hdrained howned
  exact hu.exact.none_of_unused fun hkey =>
    hunused (hlater.keys _ (hdrawn.trans (Nat.le_add_right _ _)) hkey)

/-! ### Witness -/

/-- A file of two bytes. -/
def notesOs : Os :=
  .ofTree fun location =>
    match location with
    | [] => some (.directory ⟨0, .ok 0⟩)
    | ["notes"] => some (.file ⟨[104, 105], .ok 0⟩)
    | _ => none

/-- The file is opened without a prefetch. -/
def openNotes : List Action :=
  [.claimId ⟨⟨"/notes"⟩, none, false, 0⟩, .submitOpen 0, .takeCommand,
    .finishOpen 0 notesOs 7]

/-- A read is overtaken by the drop of both clones. -/
def closeNotes : List Action :=
  [.cloneHandle 0, .read 0 0 2, .dropHandle 0, .dropHandle 0, .dropInner 0, .takeCommand,
    .takeCommand]

theorem file_table_exact_notes :
    ∃ s t, EngineRun initial openNotes s ∧ EngineRun s closeNotes t ∧
      s.files = [(1, ⟨7, ["notes"]⟩)] ∧ t.files.lookup 1 = none := by
  have hopened : (openNotes.foldlM step initial).map
      (fun s => (s.files, s.handles.map SharedHandle.inner)) =
        some ([(1, ⟨7, ["notes"]⟩)], [⟨1, ⟨7, ["notes"]⟩⟩]) := by
    decide
  obtain ⟨s, hs, hstate⟩ := Option.map_eq_some_iff.mp hopened
  obtain ⟨hfiles, hhandles⟩ := Prod.mk.inj hstate
  have hclosed : (((openNotes ++ closeNotes).foldlM step initial).map fun t =>
      (t.commands.length, t.handles.length, t.dropping.length)) = some (0, 0, 0) := by
    decide
  obtain ⟨t, ht, hcounts⟩ := Option.map_eq_some_iff.mp hclosed
  rw [List.foldlM_append, hs] at ht
  have hbefore : EngineRun initial openNotes s :=
    Transition.Run.of_foldlM (fun _ _ => trivial) hs
  have hbetween : EngineRun s closeNotes t :=
    Transition.Run.of_foldlM (fun _ _ => trivial) ht
  obtain ⟨hcommands, hrest⟩ := Prod.mk.inj hcounts
  obtain ⟨hlive, hdropping⟩ := Prod.mk.inj hrest
  have hgone : LetGo 1 t := by
    constructor
    · rw [List.length_eq_zero_iff.mp hlive]
      nofun
    · rw [List.length_eq_zero_iff.mp hdropping]
      nofun
  obtain ⟨shared, hshared, hinner⟩ : ∃ shared ∈ s.handles,
      shared.inner = ⟨1, ⟨7, ["notes"]⟩⟩ := by
    apply List.mem_map.mp
    rw [hhandles]
    exact List.mem_cons_self
  have hid : shared.inner.id = 1 := congrArg HandleInner.id hinner
  have htable := (file_table_exact (by decide) hbefore hbetween (.nil t)).2 shared hshared
  rw [hid] at htable
  exact ⟨s, t, hbefore, hbetween, hfiles,
    htable Nat.one_ne_zero hgone (List.length_eq_zero_iff.mp hcommands)⟩

end CompioEngine

end EnvoyFiles
