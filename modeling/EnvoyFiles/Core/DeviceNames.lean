import EnvoyFiles.Core.PathGrammar

/-!
# Windows device names

Windows opens a device for every component whose part before the first `.` names one, in any
letter case and with any number of spaces behind the name.  The rules for segments compare the
part before the first `.` as it stands, and look for a space at the end of the whole segment
only, so a name followed by spaces and an extension passes.
-/

namespace EnvoyFiles.Path

open Text

/-- The part of a component before its first `.`. -/
def baseName (component : String) : List Char :=
  component.toList.takeWhile (· ≠ '.')

/-- The component is a device name by the rule of Windows. -/
def IsDeviceName (component : String) : Prop :=
  ∃ name ∈ reservedNames,
    eqIgnoreAsciiCase name (String.ofList ((baseName component).rdropWhile (· = ' '))) = true

instance (component : String) : Decidable (IsDeviceName component) :=
  inferInstanceAs (Decidable (∃ name ∈ reservedNames, _ = true))

/-- A device name with spaces between it and the first `.`. -/
def IsPaddedDeviceName (component : String) : Prop :=
  ∃ name ∈ reservedNames, ∃ base padding rest : List Char,
    component.toList = base ++ padding ++ '.' :: rest ∧
      eqIgnoreAsciiCase name (String.ofList base) = true ∧
      padding ≠ [] ∧ ∀ c ∈ padding, c = ' '

section DeviceNames

variable {name component : String} {base padding rest : List Char}

theorem isWindowsReservedName_iff : isWindowsReservedName component = true ↔
    ∃ name ∈ reservedNames,
      eqIgnoreAsciiCase name (String.ofList (baseName component)) = true := by
  rw [isWindowsReservedName, splitOnce, baseName]
  by_cases hdot : '.' ∈ component.toList
  · simp only [if_pos hdot]
    rw [List.any_eq_true]
  · have hall : component.toList.takeWhile (· ≠ '.') = component.toList := by
      rw [List.takeWhile_eq_self_iff]
      intro c hc
      simpa using ne_of_mem_of_not_mem hc hdot
    simp only [if_neg hdot]
    rw [List.any_eq_true, hall, String.ofList_toList]

/-- A device name holds neither a `.` nor a space. -/
theorem notMem_of_eqIgnoreAsciiCase (hname : name ∈ reservedNames)
    (h : eqIgnoreAsciiCase name (String.ofList base) = true) : '.' ∉ base ∧ ' ' ∉ base := by
  have hletters : ∀ name ∈ reservedNames,
      '.' ∉ name.toList.map Char.toLower ∧ ' ' ∉ name.toList.map Char.toLower := by decide
  obtain ⟨hdot, hspace⟩ := hletters name hname
  rw [eqIgnoreAsciiCase, beq_iff_eq, String.toList_ofList] at h
  rw [h] at hdot hspace
  exact ⟨fun hmem => hdot (List.mem_map_of_mem hmem), fun hmem => hspace (List.mem_map_of_mem hmem)⟩

/-- Spaces behind a text without them are dropped again. -/
theorem rdropWhile_spaces (hbase : ' ' ∉ base) (hpadding : ∀ c ∈ padding, c = ' ') :
    (base ++ padding).rdropWhile (· = ' ') = base := by
  rw [List.rdropWhile, List.reverse_append]
  rw [List.dropWhile_append_of_pos]
  · have hkeep : base.rdropWhile (· = ' ') = base := by
      rw [List.rdropWhile_eq_self_iff]
      intro hne hlast
      exact hbase (of_decide_eq_true hlast ▸ List.getLast_mem hne)
    rwa [List.rdropWhile] at hkeep
  · intro c hc
    exact decide_eq_true (hpadding c (List.mem_reverse.mp hc))

theorem IsPaddedDeviceName.isDeviceName (h : IsPaddedDeviceName component) :
    IsDeviceName component := by
  obtain ⟨name, hname, base, padding, rest, hcomponent, hsame, -, hpadding⟩ := h
  obtain ⟨hdot, hspace⟩ := notMem_of_eqIgnoreAsciiCase hname hsame
  have hbase : baseName component = base ++ padding := by
    rw [baseName, hcomponent, List.takeWhile_append_of_pos]
    · simp
    · intro c hc
      rw [decide_eq_true_eq]
      rintro rfl
      rcases List.mem_append.mp hc with hc | hc
      · exact hdot hc
      · exact absurd (hpadding _ hc) (by decide)
  refine ⟨name, hname, ?_⟩
  rw [hbase, rdropWhile_spaces hspace hpadding]
  exact hsame

/-- The device names that the rules for segments let through. -/
theorem isDeviceName_iff (hreserved : isWindowsReservedName component = false)
    (hlast : component.toList.getLast? ≠ some ' ') :
    IsDeviceName component ↔ IsPaddedDeviceName component := by
  constructor
  · rintro ⟨name, hname, hsame⟩
    have hparts := List.rdropWhile_append_rtakeWhile (p := (· = ' ')) (l := baseName component)
    have hspaces : ∀ c ∈ (baseName component).rtakeWhile (· = ' '), c = ' ' := by
      intro c hc
      simpa using List.mem_rtakeWhile_imp hc
    have hpadding : (baseName component).rtakeWhile (· = ' ') ≠ [] := by
      intro hnil
      rw [hnil, List.append_nil] at hparts
      rw [hparts] at hsame
      have htrue := isWindowsReservedName_iff.mpr ⟨name, hname, hsame⟩
      rw [hreserved] at htrue
      exact Bool.false_ne_true htrue
    have hdrop : component.toList =
        baseName component ++ component.toList.dropWhile (· ≠ '.') :=
      (List.takeWhile_append_dropWhile ..).symm
    cases hrest : component.toList.dropWhile (· ≠ '.') with
    | nil =>
        -- Without a `.` the spaces would end the segment.
        rw [hrest, List.append_nil, ← hparts] at hdrop
        have hend := List.getLast?_eq_some_getLast hpadding
        rw [hdrop, List.getLast?_append_of_ne_nil _ hpadding, hend] at hlast
        exact absurd (congrArg some (hspaces _ (List.getLast_mem hpadding))) hlast
    | cons dot rest =>
        have hdot : dot = '.' := by
          have hhead := List.head?_dropWhile_not (fun c : Char => decide (c ≠ '.')) component.toList
          rw [hrest] at hhead
          simpa using hhead
        refine ⟨name, hname, _, _, rest, ?_, hsame, hpadding, hspaces⟩
        rw [hparts, ← hdot, ← hrest]
        exact hdrop
  · exact IsPaddedDeviceName.isDeviceName

end DeviceNames

/-- The accepted paths without a device name are those of which no segment decodes to a
device name with spaces between it and the first `.`. -/
theorem device_names_rejected_iff {rawPath relative : String} {policy : PathPolicy}
    {trailingSlash : Bool}
    (h : resolveRequestPath rawPath policy = .ok relative trailingSlash) :
    (∀ component ∈ split relative '/', ¬IsDeviceName component) ↔
      ∀ raw ∈ rawSegments rawPath, ∀ decoded, DecodesTo raw decoded →
        ¬IsPaddedDeviceName decoded := by
  obtain ⟨-, decoded, hresolves, rfl⟩ := resolves_iff.mp ⟨trailingSlash, h⟩
  obtain ⟨hsafe, hsplit⟩ := safeRelative_join hresolves.safe
  have hdot : ¬IsPaddedDeviceName "." := by
    rintro h
    exact absurd h.isDeviceName (by decide)
  -- What is compared on both sides are the decoded segments that are kept.
  have hkept : (∀ component ∈ split (join (decoded.filter (· ≠ ".")) "/") '/',
      ¬IsDeviceName component) ↔
        ∀ segment ∈ decoded.filter (· ≠ "."), ¬IsDeviceName segment := by
    by_cases hnone : decoded.filter (· ≠ ".") = []
    · rw [hnone]
      exact iff_of_true (by decide) nofun
    · rw [hsplit hnone]
  rw [hkept]
  constructor
  · intro hdevices raw hraw other hother hpadded
    obtain ⟨segment, hsegment, hdecodes⟩ := forall₂_mem_right hresolves.decodes.flip hraw
    rw [hother.unique hdecodes] at hpadded
    refine hdevices segment (List.mem_filter.mpr ⟨hsegment, ?_⟩) hpadded.isDeviceName
    rw [decide_eq_true_eq]
    rintro rfl
    exact hdot hpadded
  · intro hpadded segment hsegment hdevice
    obtain ⟨hmem, hne⟩ := List.mem_filter.mp hsegment
    obtain ⟨raw, hraw, hdecodes⟩ := forall₂_mem_right hresolves.decodes hmem
    have hrules : rejectReasonForSegment segment policy = none :=
      (hresolves.permitted segment hmem).2.resolve_left (by simpa using hne)
    obtain ⟨-, hending, -, hreserved⟩ := rejectReasonForSegment_eq_none hrules
    exact hpadded raw hraw segment hdecodes ((isDeviceName_iff hreserved hending.2).mp hdevice)

theorem device_names_rejected_iff_console :
    resolveRequestPath "/a/console.txt" ⟨false, 4096⟩ = .ok "a/console.txt" false ∧
      ((∀ component ∈ split "a/console.txt" '/', ¬IsDeviceName component) ↔
        ∀ raw ∈ rawSegments "/a/console.txt", ∀ decoded, DecodesTo raw decoded →
          ¬IsPaddedDeviceName decoded) := by
  have haccepted : resolveRequestPath "/a/console.txt" ⟨false, 4096⟩ =
      .ok "a/console.txt" false := by
    decide
  exact ⟨haccepted, device_names_rejected_iff haccepted⟩

/-- The device `CON`, with a space and an extension behind it, is served. -/
theorem padded_device_name_accepted :
    ¬∀ (rawPath : String) (policy : PathPolicy) (relative : String) (trailingSlash : Bool),
      resolveRequestPath rawPath policy = .ok relative trailingSlash →
        ∀ component ∈ split relative '/', ¬IsDeviceName component := by
  intro hrejected
  have haccepted : resolveRequestPath "/CON%20.txt" ⟨false, 4096⟩ = .ok "CON .txt" false := by
    decide
  have hdevice : IsDeviceName "CON .txt" := by decide
  exact hrejected _ _ _ _ haccepted "CON .txt" (by decide) hdevice

end EnvoyFiles.Path
