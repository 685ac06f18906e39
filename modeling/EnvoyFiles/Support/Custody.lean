import Mathlib

/-!
# Entries in the custody of their holders

A table whose entries are put in long after their keys were drawn, and taken out by a
message that the holder of an entry sends when it lets go of it.  Messages are taken in
the order they were sent in, so an entry that is used is still there: the use was sent
before the release.  Every step keeps the table exact.
-/

namespace Custody

variable {κ φ : Type*}

/-- A message about an entry, from a holder of it. -/
inductive Message (κ φ : Type*) where
  | use (entry : κ × φ)
  | release (entry : κ × φ)

structure State (κ φ : Type*) where
  /-- Keys that were drawn and have no entry yet. -/
  reserved : Multiset κ
  holders : Multiset (κ × φ)
  messages : List (Message κ φ)
  table : κ → Option φ

/-! ## Owned entries -/

/-- The entries whose release is under way. -/
def released : List (Message κ φ) → Multiset (κ × φ)
  | [] => 0
  | .use _ :: messages => released messages
  | .release entry :: messages => entry ::ₘ released messages

/-- The entries that are held or whose release is under way. -/
def owned (holders : Multiset (κ × φ)) (messages : List (Message κ φ)) :
    Multiset (κ × φ) :=
  holders + released messages

section Owned

variable {holders : Multiset (κ × φ)} {messages : List (Message κ φ)} {entry : κ × φ}

theorem released_append (messages later : List (Message κ φ)) :
    released (messages ++ later) = released messages + released later := by
  induction messages with
  | nil => exact (zero_add _).symm
  | cons message messages ih =>
      cases message with
      | use entry => exact ih
      | release entry =>
          show entry ::ₘ released (messages ++ later) = entry ::ₘ released messages + _
          rw [ih, Multiset.cons_add]

theorem owned_cons : owned (entry ::ₘ holders) messages = entry ::ₘ owned holders messages :=
  Multiset.cons_add entry holders _

theorem owned_use : owned holders (messages ++ [.use entry]) = owned holders messages := by
  rw [owned]
  rw [released_append]
  exact congrArg (holders + ·) (add_zero (released messages))

theorem owned_takeUse : owned holders (.use entry :: messages) = owned holders messages :=
  rfl

theorem owned_takeRelease :
    owned holders (.release entry :: messages) = entry ::ₘ owned holders messages :=
  Multiset.add_cons entry holders _

/-- Letting go of an entry leaves it owned. -/
theorem owned_release :
    owned holders (messages ++ [.release entry]) = owned (entry ::ₘ holders) messages := by
  have hone : released [.release entry] = {entry} := rfl
  rw [owned_cons]
  simp only [owned]
  rw [released_append, hone, ← add_assoc, add_comm, Multiset.singleton_add]

theorem mem_owned_of_holders (h : entry ∈ holders) : entry ∈ owned holders messages :=
  Multiset.mem_add.mpr (Or.inl h)

end Owned

/-- The keys that are in use. -/
def State.keys (s : State κ φ) : Multiset κ :=
  s.reserved + (owned s.holders s.messages).map Prod.fst

/-! ## Covered messages -/

/-- Every use is of an entry that is held, or released by a later message. -/
def Covered (holders : Multiset (κ × φ)) : List (Message κ φ) → Prop
  | [] => True
  | .use entry :: messages => entry ∈ owned holders messages ∧ Covered holders messages
  | .release _ :: messages => Covered holders messages

section Covered

variable {holders : Multiset (κ × φ)} {messages : List (Message κ φ)} {entry : κ × φ}

/-- A new holder covers nothing less. -/
theorem covered_cons (h : Covered holders messages) :
    Covered (entry ::ₘ holders) messages := by
  induction messages with
  | nil => trivial
  | cons message messages ih =>
      cases message with
      | use earlier =>
          obtain ⟨hearlier, hrest⟩ := h
          refine ⟨?_, ih hrest⟩
          rw [owned_cons]
          exact Multiset.mem_cons_of_mem hearlier
      | release earlier => exact ih h

/-- A holder may send a use. -/
theorem covered_use (hentry : entry ∈ holders) (h : Covered holders messages) :
    Covered holders (messages ++ [.use entry]) := by
  induction messages with
  | nil => exact ⟨mem_owned_of_holders hentry, trivial⟩
  | cons message messages ih =>
      cases message with
      | use earlier =>
          obtain ⟨hearlier, hrest⟩ := h
          have howned : earlier ∈ owned holders (messages ++ [.use entry]) := by
            rw [owned_use]
            exact hearlier
          exact ⟨howned, ih hrest⟩
      | release earlier => exact ih h

/-- A holder that lets go sends the release behind every use of its entry. -/
theorem covered_release (h : Covered (entry ::ₘ holders) messages) :
    Covered holders (messages ++ [.release entry]) := by
  induction messages with
  | nil => trivial
  | cons message messages ih =>
      cases message with
      | use earlier =>
          obtain ⟨hearlier, hrest⟩ := h
          have howned : earlier ∈ owned holders (messages ++ [.release entry]) := by
            rw [owned_release]
            exact hearlier
          exact ⟨howned, ih hrest⟩
      | release earlier => exact ih h

end Covered

/-! ## Steps -/

/-- A key is drawn. -/
def State.reserve (s : State κ φ) (key : κ) : State κ φ :=
  { s with reserved := key ::ₘ s.reserved }

/-- What else may be done. -/
inductive Move [DecidableEq κ] : State κ φ → State κ φ → Prop where
  /-- A key is given up. -/
  | withdraw {s key reserved} : s.reserved = key ::ₘ reserved → Move s { s with reserved }
  | register {s key value reserved} : s.reserved = key ::ₘ reserved →
      Move s { s with
        reserved
        holders := (key, value) ::ₘ s.holders
        table := Function.update s.table key (some value) }
  | use {s entry} : entry ∈ s.holders →
      Move s { s with messages := s.messages ++ [.use entry] }
  | release {s entry holders} : s.holders = entry ::ₘ holders →
      Move s { s with holders, messages := s.messages ++ [.release entry] }
  | takeUse {s entry messages} : s.messages = .use entry :: messages →
      Move s { s with messages }
  | takeRelease {s entry messages} : s.messages = .release entry :: messages →
      Move s { s with messages, table := Function.update s.table entry.1 none }

/-- The table holds what is owned, under keys of which none is used twice, and every use
finds its entry. -/
structure Exact (s : State κ φ) : Prop where
  keys_nodup : s.keys.Nodup
  table_iff : ∀ key value, s.table key = some value ↔ (key, value) ∈ owned s.holders s.messages
  covered : Covered s.holders s.messages

theorem exact_empty : Exact (⟨0, 0, [], fun _ => none⟩ : State κ φ) where
  keys_nodup := Multiset.nodup_zero
  table_iff _ _ := ⟨nofun, fun h => absurd h (Multiset.notMem_zero _)⟩
  covered := trivial

theorem reserve_keys (s : State κ φ) (key : κ) : (s.reserve key).keys = key ::ₘ s.keys :=
  Multiset.cons_add key s.reserved _

theorem Exact.reserve {s : State κ φ} {key : κ} (h : Exact s) (hfresh : key ∉ s.keys) :
    Exact (s.reserve key) where
  keys_nodup := by
    rw [reserve_keys]
    exact Multiset.nodup_cons.mpr ⟨hfresh, h.keys_nodup⟩
  table_iff := h.table_iff
  covered := h.covered

/-- Where a key is in use beside some entries, none of these is under the key. -/
theorem notMem_of_cons_nodup {entries : Multiset (κ × φ)} {reserved : Multiset κ} {key : κ}
    (h : (key ::ₘ (reserved + entries.map Prod.fst)).Nodup) (value : φ) :
    (key, value) ∉ entries := by
  intro hmem
  refine (Multiset.nodup_cons.mp h).1 (Multiset.mem_add.mpr (Or.inr ?_))
  exact Multiset.mem_map_of_mem Prod.fst hmem

section Moves

variable [DecidableEq κ] {s t : State κ φ}

/-- A move brings no key into use. -/
theorem Move.keys_le (h : Move s t) : t.keys ≤ s.keys := by
  simp only [State.keys]
  cases h with
  | withdraw hreserved =>
      rw [hreserved]
      exact add_le_add (Multiset.le_cons_self _ _) le_rfl
  | register hreserved =>
      dsimp only
      rw [hreserved, owned_cons, Multiset.map_cons, Multiset.add_cons, Multiset.cons_add]
  | use hentry =>
      dsimp only
      rw [owned_use]
  | release hholders =>
      dsimp only
      rw [owned_release, hholders]
  | takeUse hmessages =>
      rw [hmessages, owned_takeUse]
  | takeRelease hmessages =>
      dsimp only
      rw [hmessages, owned_takeRelease, Multiset.map_cons, Multiset.add_cons]
      exact Multiset.le_cons_self _ _

/-- Keys are reserved by drawing them only. -/
theorem Move.reserved_le (h : Move s t) : t.reserved ≤ s.reserved := by
  cases h with
  | withdraw hreserved =>
      rw [hreserved]
      exact Multiset.le_cons_self _ _
  | register hreserved =>
      rw [hreserved]
      exact Multiset.le_cons_self _ _
  | _ => exact le_rfl

theorem Move.exact (h : Move s t) (hs : Exact s) : Exact t where
  keys_nodup := Multiset.nodup_of_le h.keys_le hs.keys_nodup
  table_iff key value := by
    have hkeys := hs.keys_nodup
    have htable := hs.table_iff key value
    rw [State.keys] at hkeys
    cases h with
    | withdraw hreserved => exact htable
    | @register new file reserved hreserved =>
        rw [hreserved, Multiset.cons_add] at hkeys
        dsimp only
        rw [owned_cons, Multiset.mem_cons]
        by_cases hkey : key = new
        · subst hkey
          rw [Function.update_self]
          constructor
          · intro hsome
            cases hsome
            exact Or.inl rfl
          · rintro (hentry | hentry)
            · cases hentry
              rfl
            · exact absurd hentry (notMem_of_cons_nodup hkeys value)
        · rw [Function.update_of_ne hkey, htable]
          constructor
          · exact Or.inr
          · rintro (hentry | hentry)
            · cases hentry
              exact absurd rfl hkey
            · exact hentry
    | use hentry =>
        dsimp only
        rw [owned_use]
        exact htable
    | release hholders =>
        dsimp only
        rw [owned_release, ← hholders]
        exact htable
    | takeUse hmessages =>
        rw [hmessages, owned_takeUse] at htable
        exact htable
    | @takeRelease entry messages hmessages =>
        rw [hmessages, owned_takeRelease, Multiset.map_cons, Multiset.add_cons] at hkeys
        rw [hmessages, owned_takeRelease, Multiset.mem_cons] at htable
        dsimp only
        by_cases hkey : key = entry.1
        · subst hkey
          rw [Function.update_self]
          constructor
          · nofun
          · intro hentry
            exact absurd hentry (notMem_of_cons_nodup hkeys value)
        · rw [Function.update_of_ne hkey, htable]
          constructor
          · rintro (hentry | hentry)
            · cases hentry
              exact absurd rfl hkey
            · exact hentry
          · exact Or.inr
  covered := by
    have hcovered := hs.covered
    cases h with
    | withdraw hreserved => exact hcovered
    | register hreserved => exact covered_cons hcovered
    | use hentry => exact covered_use hentry hcovered
    | release hholders =>
        rw [hholders] at hcovered
        exact covered_release hcovered
    | takeUse hmessages =>
        rw [hmessages] at hcovered
        exact hcovered.2
    | takeRelease hmessages =>
        rw [hmessages] at hcovered
        exact hcovered

end Moves

/-! ## Exact tables -/

section Tables

variable {s : State κ φ} {entry : κ × φ} {messages : List (Message κ φ)}

/-- A use that is taken finds its entry. -/
theorem Exact.use_finds (h : Exact s) (hmessages : s.messages = .use entry :: messages) :
    s.table entry.1 = some entry.2 := by
  have hcovered := h.covered
  rw [hmessages] at hcovered
  apply (h.table_iff entry.1 entry.2).mpr
  rw [hmessages]
  exact hcovered.1

/-- No two holders hold one key. -/
theorem Exact.holders_nodup (h : Exact s) : (s.holders.map Prod.fst).Nodup := by
  refine Multiset.nodup_of_le ?_ h.keys_nodup
  refine le_trans ?_ (Multiset.le_add_left _ _)
  exact Multiset.map_le_map (Multiset.le_add_right _ _)

/-- A key that is not in use has no entry. -/
theorem Exact.none_of_unused (h : Exact s) {key : κ} (hkey : key ∉ s.keys) :
    s.table key = none := by
  cases htable : s.table key with
  | none => rfl
  | some value =>
      have howned := (h.table_iff key value).mp htable
      refine absurd ?_ hkey
      exact Multiset.mem_add.mpr (Or.inr (Multiset.mem_map_of_mem Prod.fst howned))

/-- Once all messages are taken, the table holds what is held. -/
theorem Exact.table_iff_of_drained (h : Exact s) (hmessages : s.messages = []) (key : κ)
    (value : φ) : s.table key = some value ↔ (key, value) ∈ s.holders := by
  rw [h.table_iff, hmessages]
  rw [owned, released]
  rw [add_zero]

end Tables

end Custody
