import LambdaCalculus.Proofs.Reduction.Relabel
import LambdaCalculus.Proofs.Reduction.WordContraction

/-!
# Reduction ignores labels

Neither the spans of a term nor its declared types have a part in its reduction.
The main statement compares two runs: the one on a relabeled term is the
relabeled one, with the same steps and the same recorded terms in the same
order.  So a run ends on a term exactly if it ends on the relabeled term, and
every label of a result is one of the term that was reduced.  The three passes
of a contraction in words ignore labels as well, and they need no bound on the
indices for it.
-/

namespace LambdaCalculus

variable (change : Label -> Label)

/-! ## Contraction in words -/

namespace Term

theorem substituteWrapping_mapLabels
    (body replacement : Term)
    (target : Nat) :
    (body.mapLabels change).substituteWrapping target
        (replacement.mapLabels change) =
      (body.substituteWrapping target replacement).mapLabels change := by
  induction body generalizing target with
  | var span index =>
      rw [mapLabels_var, substituteWrapping, substituteWrapping]
      split <;> rfl
  | abs span declared body bodyHypothesis =>
      rw [mapLabels_abs, substituteWrapping, substituteWrapping,
        bodyHypothesis, mapLabels_abs]
  | app span function argument functionHypothesis argumentHypothesis =>
      rw [mapLabels_app, substituteWrapping, substituteWrapping,
        functionHypothesis, argumentHypothesis, mapLabels_app]

theorem shift_mapLabels
    (term : Term)
    (delta : Int)
    (cutoff : Nat) :
    (term.mapLabels change).shift delta cutoff =
      (term.shift delta cutoff).map (mapLabels change) := by
  induction term generalizing cutoff with
  | var span index =>
      rw [mapLabels_var, shift, shift, Option.map_map]
      rfl
  | abs span declared body bodyHypothesis =>
      rw [mapLabels_abs, shift, shift, bodyHypothesis, Option.map_map,
        Option.map_map]
      rfl
  | app span function argument functionHypothesis argumentHypothesis =>
      rw [mapLabels_app, shift, shift, functionHypothesis, argumentHypothesis]
      cases function.shift delta cutoff with
      | none => rfl
      | some function => cases argument.shift delta cutoff <;> rfl

theorem substituteShiftingUnder_mapLabels
    (term replacement : Term)
    (depth target : Nat) :
    (term.mapLabels change).substituteShiftingUnder depth target
        (replacement.mapLabels change) =
      (term.substituteShiftingUnder depth target replacement).map
        (mapLabels change) := by
  induction term generalizing depth target with
  | var span index =>
      rw [mapLabels_var, substituteShiftingUnder, substituteShiftingUnder]
      split
      next =>
          split
          next => rfl
          next => exact shift_mapLabels change replacement _ 0
      next => rfl
  | abs span declared body bodyHypothesis =>
      rw [mapLabels_abs, substituteShiftingUnder, substituteShiftingUnder,
        bodyHypothesis, Option.map_map, Option.map_map]
      rfl
  | app span function argument functionHypothesis argumentHypothesis =>
      rw [mapLabels_app, substituteShiftingUnder, substituteShiftingUnder,
        functionHypothesis, argumentHypothesis]
      cases function.substituteShiftingUnder depth target replacement with
      | none => rfl
      | some function =>
          cases argument.substituteShiftingUnder depth target replacement <;>
            rfl

theorem contract_mapLabels
    (body argument : Term) :
    (body.mapLabels change).contract (argument.mapLabels change) =
      (body.contract argument).map (mapLabels change) := by
  rw [contract, contract, shift_mapLabels]
  cases argument.shift 1 0 with
  | none => rfl
  | some lifted =>
      simp only [Option.map_some, Option.bind_some, substituteShifting,
        substituteShiftingUnder_mapLabels]
      cases body.substituteShiftingUnder 0 0 lifted with
      | none => rfl
      | some replaced => exact shift_mapLabels change replaced (-1) 0

end Term

theorem Strategy.contractInWords_mapLabels
    (strategy : Strategy)
    (body argument : Term) :
    strategy.contractInWords (body.mapLabels change)
        (argument.mapLabels change) =
      (strategy.contractInWords body argument).map (Term.mapLabels change) := by
  cases strategy with
  | weakHead =>
      exact congrArg some
        (Term.substituteWrapping_mapLabels change body argument 0)
  | full => exact Term.contract_mapLabels change body argument

/-! ## Runs -/

namespace Plan

/-- Under every plan and for every change of spans and declared types: a run on
the relabeled term ends exactly if the run on the term does, in the same way,
after as many steps, with the relabeled term, and has recorded the relabeled
terms in the same order.  Every label of what a run gives or records is a label
of its term.  Contraction in words commutes with the change, too. -/
theorem run_ignores_labels
    (plan : Plan)
    (term : Term) :
    (∀ outcome, plan.EndsWith (term.mapLabels change) outcome ↔
      ∃ original, plan.EndsWith term original ∧
        outcome.status = original.status ∧
        outcome.steps = original.steps ∧
        outcome.term = original.term.mapLabels change ∧
        outcome.trace = original.trace.map fun observation =>
          ⟨observation.step, observation.focus.mapLabels change⟩) ∧
    (∀ outcome, plan.EndsWith term outcome ->
      outcome.term.labels ⊆ term.labels ∧
        ∀ observation ∈ outcome.trace,
          observation.focus.labels ⊆ term.labels) ∧
    (∀ body argument : Term,
      plan.strategy.contractInWords (body.mapLabels change)
          (argument.mapLabels change) =
        (plan.strategy.contractInWords body argument).map
          (Term.mapLabels change)) := by
  refine ⟨?ends, fun _ => EndsWith.labels_subset,
    plan.strategy.contractInWords_mapLabels change⟩
  case ends =>
    intro outcome
    rw [endsWith_mapLabels_iff]
    constructor
    · rintro ⟨original, ended, rfl⟩
      exact ⟨original, ended, rfl, rfl, rfl, rfl⟩
    · rintro ⟨original, ended, sameStatus, sameSteps, sameTerm, sameTrace⟩
      obtain ⟨finish, status, steps, trace⟩ := outcome
      refine ⟨original, ended, ?_⟩
      simp only at sameStatus sameSteps sameTerm sameTrace
      rw [sameStatus, sameSteps, sameTerm, sameTrace]
      rfl

/-- The head strategy copies the declared argument of `(λ. 0 0) (λ:1. 0)` in two
recorded steps; without spans and with another declared type it does the same,
and the result carries the labels of the argument. -/
theorem run_ignores_labels_copied :
    let argument := fun outer inner declared =>
      Term.abs outer declared (.var inner 0)
    let twice := fun whole outer inner left right argument =>
      Term.app whole
        (.abs outer none (.app inner (.var left 0) (.var right 0))) argument
    let copied := argument ⟨0, 9, 20⟩ ⟨0, 18, 19⟩ (some 1)
    let erased := argument .nowhere .nowhere (some 2)
    let plan := Plan.mk .weakHead ⟨5, 20⟩ true
    let term := twice ⟨0, 0, 21⟩ ⟨0, 1, 8⟩ ⟨0, 4, 7⟩ ⟨0, 5, 6⟩ ⟨0, 6, 7⟩ copied
    let relabeled := twice .nowhere .nowhere .nowhere .nowhere .nowhere erased
    plan.EndsWith term
        ⟨copied, .normal, 2,
          [⟨1, .app ⟨0, 4, 7⟩ copied copied⟩, ⟨2, copied⟩]⟩ ∧
      plan.EndsWith relabeled
        ⟨erased, .normal, 2,
          [⟨1, .app .nowhere erased erased⟩, ⟨2, erased⟩]⟩ ∧
      copied.labels ⊆ term.labels := by
  intro argument twice copied erased plan term relabeled
  have ended : plan.EndsWith term
      ⟨copied, .normal, 2,
        [⟨1, .app ⟨0, 4, 7⟩ copied copied⟩, ⟨2, copied⟩]⟩ :=
    ⟨3, by decide⟩
  obtain ⟨ends, carried, _⟩ := run_ignores_labels
    (fun label => ⟨.nowhere, label.declared.map (· + 1)⟩) plan term
  exact ⟨ended, (ends _).mpr ⟨_, ended, rfl, rfl, rfl, rfl⟩,
    (carried _ ended).1⟩

end Plan
end LambdaCalculus
