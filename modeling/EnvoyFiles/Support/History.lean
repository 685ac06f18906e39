import Mathlib

/-!
# Properties of every moment of a history

A history is the list of the events so far.  `Always P` says that each event
stood in the relation `P` to the history before it, which is how the rules about
"so far" are stated, and it is checked one event at a time.
-/

namespace History

variable {α : Type*} {P Q : List α → α → Prop} {history : List α} {event : α}

/-- Every event of the history satisfies `P` together with what came before
it. -/
def Always (P : List α → α → Prop) (history : List α) : Prop :=
  ∀ before event after, history = before ++ event :: after → P before event

theorem always_nil : Always P [] := by
  intro before event after h
  simp at h

/-- One more event: it is checked against the history so far. -/
theorem always_snoc :
    Always P (history ++ [event]) ↔ Always P history ∧ P history event := by
  constructor
  · intro h
    refine ⟨fun before other after hsplit => ?_, h history event [] rfl⟩
    apply h before other (after ++ [event])
    rw [hsplit, List.append_assoc, List.cons_append]
  · rintro ⟨hhistory, hevent⟩ before other after hsplit
    rcases List.eq_nil_or_concat after with rfl | ⟨after', last, rfl⟩
    · obtain ⟨rfl, hlast⟩ := List.append_inj' hsplit rfl
      cases hlast
      exact hevent
    · have hassoc : before ++ other :: (after'.concat last) =
          (before ++ other :: after') ++ [last] := by
        rw [List.concat_eq_append, List.append_assoc, List.cons_append]
      obtain ⟨hinit, -⟩ := List.append_inj' (hsplit.trans hassoc) rfl
      exact hhistory before other after' hinit

/-- An event that satisfies `P` whatever came before it can be added. -/
theorem Always.snoc (h : Always P history) (hevent : P history event) :
    Always P (history ++ [event]) :=
  always_snoc.mpr ⟨h, hevent⟩

/-- The events by their positions. -/
theorem always_iff_get :
    Always P history ↔
      ∀ i : Fin history.length, P (history.take i) (history.get i) := by
  constructor
  · intro h i
    apply h _ _ (history.drop (i + 1))
    rw [List.get_eq_getElem, List.getElem_cons_drop, List.take_append_drop]
  · rintro h before event after rfl
    have hlt : before.length < (before ++ event :: after).length := by simp
    simpa using h ⟨before.length, hlt⟩

instance [∀ before event, Decidable (P before event)] :
    Decidable (Always P history) :=
  decidable_of_iff _ always_iff_get.symm

theorem Always.init (h : Always P (history ++ [event])) : Always P history :=
  (always_snoc.mp h).1

theorem Always.last (h : Always P (history ++ [event])) : P history event :=
  (always_snoc.mp h).2

end History
