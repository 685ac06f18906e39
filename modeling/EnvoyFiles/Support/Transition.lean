import Mathlib

/-!
# Runs of a partial step function

A machine is a partial function `step` from a state and an action to the next
state.  A run performs a list of actions, each of which an environment
condition `ok` allows in the state it is taken in.  What one step preserves, a
run preserves.
-/

namespace Transition

variable {σ α : Type*}

/-- `Run step ok s actions t`: performing `actions` in order leads from `s` to
`t`, and `ok` allows each action where it is taken. -/
inductive Run (step : σ → α → Option σ) (ok : σ → α → Prop) :
    σ → List α → σ → Prop where
  | nil (s : σ) : Run step ok s [] s
  | cons {s t u : σ} {a : α} {actions : List α} :
      ok s a → step s a = some t → Run step ok t actions u →
        Run step ok s (a :: actions) u

namespace Run

variable {step : σ → α → Option σ} {ok ok' : σ → α → Prop}
  {s t u : σ} {actions : List α}

/-- A predicate that every allowed step preserves holds along a run. -/
theorem invariant {I : σ → Prop} (hrun : Run step ok s actions t) (hs : I s)
    (hstep : ∀ s a t, I s → ok s a → step s a = some t → I t) : I t := by
  induction hrun with
  | nil s => exact hs
  | cons hok hnext _ ih => exact ih (hstep _ _ _ hs hok hnext)

/-- Only the actions that are taken have to be allowed. -/
theorem mono_of_mem (hrun : Run step ok s actions t)
    (hok : ∀ s, ∀ a ∈ actions, ok s a → ok' s a) : Run step ok' s actions t := by
  induction hrun with
  | nil s => exact nil s
  | @cons s _ _ a actions h hnext _ ih =>
      refine cons (hok s a List.mem_cons_self h) hnext (ih ?_)
      intro s b hmem
      exact hok s b (List.mem_cons_of_mem a hmem)

/-- What holds along a run can be used where its actions have to be allowed. -/
theorem mono_of_invariant {I : σ → Prop} (hrun : Run step ok s actions t) (hs : I s)
    (hstep : ∀ s a t, I s → ok s a → step s a = some t → I t)
    (hok : ∀ s a, I s → ok s a → ok' s a) : Run step ok' s actions t := by
  induction hrun with
  | nil s => exact nil s
  | @cons s _ _ a _ h hnext _ ih =>
      exact cons (hok s a hs h) hnext (ih (hstep s a _ hs h hnext))

theorem append {more : List α} (hrun : Run step ok s actions t)
    (hmore : Run step ok t more u) : Run step ok s (actions ++ more) u := by
  induction hrun with
  | nil s => exact hmore
  | cons h hnext _ ih => exact cons h hnext (ih hmore)

theorem single {a : α} (hok : ok s a) (hnext : step s a = some t) :
    Run step ok s [a] t :=
  cons hok hnext (nil t)

theorem foldlM_cons {a : α} (h : (a :: actions).foldlM step s = some t) :
    ∃ u, step s a = some u ∧ actions.foldlM step u = some t :=
  Option.bind_eq_some_iff.mp h

/-- Where every action is allowed, performing the actions one after another is
a run. -/
theorem of_foldlM (hok : ∀ s a, ok s a)
    (h : actions.foldlM step s = some t) : Run step ok s actions t := by
  induction actions generalizing s with
  | nil => cases h; exact nil _
  | cons a actions ih =>
      obtain ⟨u, hnext, hrest⟩ := foldlM_cons h
      exact cons (hok s a) hnext (ih hrest)

/-- Where a state with `I` can always go on to another one in which `f` is
larger, runs make `f` as large as desired. -/
theorem exists_growing {I : σ → Prop} {f : σ → ℕ}
    (hgrow : ∀ s, I s → ∃ actions t, Run step ok s actions t ∧ I t ∧ f s < f t)
    (hs : I s) (n : ℕ) : ∃ actions t, Run step ok s actions t ∧ I t ∧ n ≤ f t := by
  induction n with
  | zero => exact ⟨[], s, nil s, hs, Nat.zero_le _⟩
  | succ n ih =>
      obtain ⟨actions, t, hrun, ht, hle⟩ := ih
      obtain ⟨more, u, hmore, hu, hlt⟩ := hgrow t ht
      exact ⟨actions ++ more, u, hrun.append hmore, hu, Nat.lt_of_le_of_lt hle hlt⟩

/-- A run is followed by a machine that can take every step of it from a related
state. -/
theorem simulates {τ : Type*} {follow : τ → α → Option τ} {R : σ → τ → Prop} {s' : τ}
    (hrun : Run step ok s actions t) (hs : R s s')
    (hstep : ∀ s a t s', R s s' → ok s a → step s a = some t →
      ∃ t', follow s' a = some t' ∧ R t t') :
    ∃ t', Run follow (fun _ _ => True) s' actions t' ∧ R t t' := by
  induction hrun generalizing s' with
  | nil s => exact ⟨s', nil s', hs⟩
  | cons hok hnext _ ih =>
      obtain ⟨u', hfollow, hrelated⟩ := hstep _ _ _ _ hs hok hnext
      obtain ⟨t', hrest, ht⟩ := ih hrelated
      exact ⟨t', cons trivial hfollow hrest, ht⟩

/-- A run is followed by a machine that answers every step of it with a run of its own, perhaps
an empty one, from a related state. -/
theorem simulates_parts {τ β : Type*} {follow : τ → β → Option τ} {allowed : τ → β → Prop}
    {R : σ → τ → Prop} {stands : α → List β → Prop} {s' : τ} (hrun : Run step ok s actions t)
    (hs : R s s')
    (hstep : ∀ s a t s', R s s' → ok s a → step s a = some t →
      ∃ part t', stands a part ∧ Run follow allowed s' part t' ∧ R t t') :
    ∃ parts t', List.Forall₂ stands actions parts ∧ Run follow allowed s' parts.flatten t' ∧
      R t t' := by
  induction hrun generalizing s' with
  | nil s => exact ⟨[], s', .nil, nil s', hs⟩
  | cons hok hnext _ ih =>
      obtain ⟨part, u', hstands, hpart, hrelated⟩ := hstep _ _ _ _ hs hok hnext
      obtain ⟨parts, t', hall, hrest, ht⟩ := ih hrelated
      refine ⟨part :: parts, t', .cons hstands hall, ?_, ht⟩
      rw [List.flatten_cons]
      exact hpart.append hrest

/-- The run of a list with an action in its middle passes that action. -/
theorem split_middle {before after : List α} {a : α}
    (hrun : Run step ok s (before ++ a :: after) t) :
    ∃ u v, Run step ok s before u ∧ ok u a ∧ step u a = some v ∧
      Run step ok v after t := by
  induction before generalizing s with
  | nil =>
      cases hrun with
      | cons hok hnext hrest => exact ⟨s, _, nil s, hok, hnext, hrest⟩
  | cons b before ih =>
      cases hrun with
      | cons hok hnext hrest =>
          obtain ⟨u, v, hbefore, hmiddle⟩ := ih hrest
          exact ⟨u, v, cons hok hnext hbefore, hmiddle⟩

end Run

/-- A predicate preserved by one transition is preserved by any number. -/
theorem closure_invariant {move : σ → σ → Prop} {I : σ → Prop} {s t : σ}
    (hmoves : Relation.ReflTransGen move s t)
    (hmove : ∀ s t, move s t → I s → I t) (hs : I s) : I t := by
  induction hmoves with
  | refl => exact hs
  | tail _ hlast ih => exact hmove _ _ hlast ih

end Transition
