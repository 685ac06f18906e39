import EnvoyFiles.Support.Transition

/-!
# Potentials

Amortised accounting for the runs of a machine.  A potential is a measure of the states that
pays for what a step costs beyond what it earns; then it does so along a run.  Where every
step takes from the potential, runs are bounded by it, and some run goes on until no step
is left.
-/

namespace Transition

variable {σ α : Type*} {step : σ → α → Option σ} {ok : σ → α → Prop}

/-- The potential pays for a run if it pays for each step. -/
theorem Run.potential {f : σ → ℕ} {cost gain : α → ℕ} {s t : σ} {actions : List α}
    (hrun : Run step ok s actions t)
    (hstep : ∀ s a t, ok s a → step s a = some t → f t + cost a ≤ f s + gain a) :
    f t + (actions.map cost).sum ≤ f s + (actions.map gain).sum := by
  induction hrun with
  | nil s => exact le_rfl
  | @cons s u t a actions hok hnext _ ih =>
      have hfirst := hstep s a u hok hnext
      rw [List.map_cons, List.map_cons, List.sum_cons, List.sum_cons]
      omega

/-- A run is not longer than what it takes from the potential. -/
theorem Run.length_le {f : σ → ℕ} {s t : σ} {actions : List α} (hrun : Run step ok s actions t)
    (hstep : ∀ s a t, ok s a → step s a = some t → f t < f s) :
    f t + actions.length ≤ f s := by
  induction hrun with
  | nil s => exact le_rfl
  | @cons s u t a actions hok hnext _ ih =>
      have hfirst := hstep s a u hok hnext
      rw [List.length_cons]
      omega

/-- Where every step takes from the potential, some run ends with no step left. -/
theorem exists_stuck {f : σ → ℕ}
    (hstep : ∀ s a t, ok s a → step s a = some t → f t < f s) (s : σ) :
    ∃ actions t, Run step ok s actions t ∧ ∀ a, ok t a → step t a = none := by
  induction hpotential : f s using Nat.strong_induction_on generalizing s with
  | _ n ih =>
      subst hpotential
      by_cases hstuck : ∀ a, ok s a → step s a = none
      · exact ⟨[], s, .nil s, hstuck⟩
      · push Not at hstuck
        obtain ⟨a, hok, hsome⟩ := hstuck
        obtain ⟨t, hnext⟩ := Option.ne_none_iff_exists'.mp hsome
        obtain ⟨actions, u, hrun, hlast⟩ := ih (f t) (hstep s a t hok hnext) t rfl
        exact ⟨a :: actions, u, .cons hok hnext hrun, hlast⟩

/-- One term of a sum changes. -/
theorem sum_map_set {β : Type*} (f : β → ℕ) {list : List β} {index : ℕ} {old new : β}
    (hold : list[index]? = some old) :
    ((list.set index new).map f).sum + f old = (list.map f).sum + f new := by
  induction list generalizing index with
  | nil => cases hold
  | cons first rest ih =>
      cases index with
      | zero =>
          cases hold
          simp only [List.set_cons_zero, List.map_cons, List.sum_cons]
          omega
      | succ index =>
          have hrest := ih hold
          simp only [List.set_cons_succ, List.map_cons, List.sum_cons]
          omega

end Transition
