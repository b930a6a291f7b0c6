import Mathlib.Logic.Relation
import Mathlib.Tactic.Lemma

/-!
# Executions that end together

Execution by a step that may fail. It either comes to a state without a next one or never ends. Two
executions end together if their states are related in such a way that each time both of them end,
or both go on to states that are related again (`end_together`).
-/

namespace ObjectBackend

variable {σ τ : Type}

/-- Some steps of an execution. -/
abbrev Steps (step : σ → Option σ) : σ → σ → Prop :=
  Relation.ReflTransGen fun s t => step s = some t

/-- The state after a number of steps. -/
def after? (step : σ → Option σ) : Nat → σ → Option σ
  | 0, s => some s
  | n + 1, s => step s >>= after? step n

/-- An execution never ends: each state that it comes to has a next one. -/
def NeverEnds (step : σ → Option σ) (s : σ) : Prop := ∀ t, Steps step s t → ∃ u, step t = some u

/-- At least one step of an execution. -/
abbrev Advances (step : σ → Option σ) : σ → σ → Prop :=
  Relation.TransGen fun s t => step s = some t

variable {step : σ → Option σ} {step' : τ → Option τ} {s t u : σ}

/-- A state that comes after some steps is reached by steps. -/
lemma steps_of_after? {n : Nat} (comes : after? step n s = some t) : Steps step s t := by
  induction n generalizing s with
  | zero =>
    obtain rfl := Option.some.inj comes
    exact .refl
  | succ n ih =>
    obtain ⟨_, first, rest⟩ := Option.bind_eq_some_iff.1 comes
    exact .head first (ih rest)

/-- An execution has at most one end. -/
lemma Steps.eq_of_ends (steps : Steps step s t) (steps' : Steps step s u) (ends : step t = none)
    (ends' : step u = none) : t = u := by
  have stays : ∀ {t u}, step t = none → Steps step t u → t = u := by
    intro t u ends steps
    rcases steps.cases_head with eq | ⟨_, first, _⟩
    · exact eq
    · cases ends.symm.trans first
  rcases Relation.ReflTransGen.total_of_right_unique
    (fun _ _ _ eq eq' => Option.some.inj (eq.symm.trans eq')) steps steps' with rest | rest
  · exact stays ends rest
  · exact (stays ends' rest).symm

/-- There is only one next state. -/
lemma Advances.of_step (advances : Advances step s u) (first : step s = some t) :
    Steps step t u := by
  obtain ⟨t', first', rest⟩ := Relation.TransGen.head'_iff.1 advances
  obtain rfl : t = t' := Option.some.inj (first.symm.trans first')
  exact rest

/-- A system never ends if it does not end after a step. -/
lemma NeverEnds.of_step (first : step s = some t) (rest : NeverEnds step t) : NeverEnds step s := by
  intro u steps
  rcases steps.cases_head with rfl | ⟨t', first', steps⟩
  · exact ⟨t, first⟩
  · obtain rfl : t = t' := Option.some.inj (first.symm.trans first')
    exact rest u steps

/-- An execution that comes from some states to some of these states again never ends. -/
lemma NeverEnds.of_advances {P : σ → Prop} (again : ∀ s, P s → ∃ t, Advances step s t ∧ P t)
    (start : P s) : NeverEnds step s := by
  intro t steps
  have ahead : ∃ u, Advances step t u ∧ P u := by
    induction steps with
    | refl => exact again s start
    | tail _ next ih =>
      obtain ⟨u, advances, holds⟩ := ih
      rcases Relation.reflTransGen_iff_eq_or_transGen.1 (advances.of_step next) with rfl | rest
      · exact again _ holds
      · exact ⟨u, rest, holds⟩
  obtain ⟨u, advances, _⟩ := ahead
  obtain ⟨v, first, _⟩ := Relation.TransGen.head'_iff.1 advances
  exact ⟨v, first⟩

/-- Two executions end together, or neither of them does. -/
theorem end_together {Related Ended : σ → τ → Prop}
    (progress : ∀ s t, Related s t →
      (∃ s' t', Steps step s s' ∧ Steps step' t t' ∧ Ended s' t') ∨
        ∃ s' t', Advances step s s' ∧ Advances step' t t' ∧ Related s' t')
    {s : σ} {t : τ} (related : Related s t) :
    (∃ s' t', Steps step s s' ∧ Steps step' t t' ∧ Ended s' t') ∨
      NeverEnds step s ∧ NeverEnds step' t := by
  let End (s : σ) (t : τ) : Prop := ∃ s' t', Steps step s s' ∧ Steps step' t t' ∧ Ended s' t'
  by_cases ends : End s t
  · exact .inl ends
  -- as long as they have not ended, they go on to where they have not ended either
  have again : ∀ s t, Related s t → ¬ End s t →
      ∃ s' t', Advances step s s' ∧ Advances step' t t' ∧ Related s' t' ∧ ¬ End s' t' := by
    intro s t related goes
    rcases progress s t related with ends | ⟨s', t', first, second, related⟩
    · exact absurd ends goes
    · refine ⟨s', t', first, second, related, ?_⟩
      rintro ⟨s'', t'', rest, rest', ended⟩
      exact goes ⟨s'', t'', first.to_reflTransGen.trans rest, second.to_reflTransGen.trans rest',
        ended⟩
  refine .inr ⟨?_, ?_⟩
  · refine .of_advances (P := fun s => ∃ t, Related s t ∧ ¬ End s t) ?_ ⟨t, related, ends⟩
    rintro s ⟨t, related, goes⟩
    obtain ⟨s', t', first, _, related, goes⟩ := again s t related goes
    exact ⟨s', first, t', related, goes⟩
  · refine .of_advances (P := fun t => ∃ s, Related s t ∧ ¬ End s t) ?_ ⟨s, related, ends⟩
    rintro t ⟨s, related, goes⟩
    obtain ⟨s', t', _, second, related, goes⟩ := again s t related goes
    exact ⟨t', second, s', related, goes⟩

end ObjectBackend
