import LambdaCalculus.Proofs.Reduction.Closedness
import LambdaCalculus.Proofs.Reduction.Fuel

/-!
# Invariants of a run

A run changes its progress in three ways only: it counts a contraction and goes
on, it meets the step limit, or it counts a contraction that makes the term too
large.  What all three keep, a whole run of either strategy keeps.
-/

namespace LambdaCalculus
namespace Plan

/-- The property is kept by everything that a run does to its progress. -/
structure Keeps
    (plan : Plan)
    (property : Progress -> Prop) : Prop where
  /-- A contraction is counted and may be recorded. -/
  contracted : ∀ progress head spine, progress.status = .normal ->
    property progress ->
    property (plan.observe { progress with steps := progress.steps + 1 } head
      spine)
  /-- No step is left. -/
  exhausted : ∀ progress, progress.status = .normal -> property progress ->
    property { progress with status := .stepLimit }
  /-- A contraction is counted that makes the term too large. -/
  exceeded : ∀ progress, progress.status = .normal -> property progress ->
    property { progress with steps := progress.steps + 1, status := .sizeLimit }

/-- Only a normal status is changed when a head run is finished. -/
theorem settle_status_eq_sizeLimit_iff
    (head : Term)
    (spine : Spine)
    (progress : Progress) :
    (settle head spine progress).status = .sizeLimit ↔
      progress.status = .sizeLimit := by
  by_cases going : progress.status = .normal
  · unfold settle
    split <;> simp [going]
  · rw [settle_of_stopped head spine going]

namespace Keeps

variable {plan : Plan} {property : Progress -> Prop}
  {before after : Progress}

theorem headRun
    (keeps : plan.Keeps property)
    (ran : plan.headRun fuel term pending before = some (head, spine, after))
    (going : before.status = .normal)
    (holds : property before) :
    property after := by
  induction fuel generalizing term pending before with
  | zero => cases ran
  | succ fuel inductionHypothesis =>
      cases redex : (pending.rebuild term).hasHeadRedex with
      | false =>
          rw [headRun_final plan fuel before redex] at ran
          cases ran
          exact holds
      | true =>
          obtain ⟨binderSpan, declared, body, frame, rest, unwound⟩ :=
            Term.unwind_of_hasHeadRedex redex
          rw [headRun_redex plan fuel before unwound] at ran
          split at ran
          next =>
              cases ran
              exact keeps.exhausted before going holds
          next =>
          split at ran
          next =>
              cases ran
              exact keeps.exceeded before going holds
          next =>
              apply inductionHypothesis ran
              · rw [observe_status]
                exact going
              · exact keeps.contracted before _ rest going holds

theorem normalize
    (keeps : plan.Keeps property)
    (fuel : Nat) :
    (∀ term before finish after,
      plan.normalize fuel term before = some (finish, after) ->
      before.status = .normal -> property before -> property after) ∧
    (∀ spine before finish after,
      plan.normalizeSpine fuel spine before = some (finish, after) ->
      property before -> property after) := by
  induction fuel with
  | zero =>
      constructor
      · intro term before finish after ran
        cases ran
      · intro spine before finish after ran
        cases ran
  | succ fuel inductionHypothesis =>
      obtain ⟨terms, spines⟩ := inductionHypothesis
      constructor
      · intro term before finish after ran going holds
        cases level_of_normalize ran with
        | stopped headRan _ => exact keeps.headRun headRan going holds
        | body span declared headRan goesOn bodyRan =>
            exact terms _ _ _ _ bodyRan goesOn
              (keeps.headRun headRan going holds)
        | arguments span index headRan _ spineRan =>
            exact spines _ _ _ _ spineRan (keeps.headRun headRan going holds)
      · intro spine before finish after ran holds
        by_cases going : before.status = .normal
        · cases spine with
          | nil =>
              cases ran
              exact holds
          | cons frame rest =>
              obtain ⟨argument, between, others, argumentRan, othersRan, rfl⟩ :=
                exists_of_normalizeSpine_cons ran going
              exact spines _ _ _ _ othersRan
                (terms _ _ _ _ argumentRan going holds)
        · rw [(normalizeSpine_stopped ran going).2]
          exact holds

/-- A run ends with progress that has the property, if it has it at the start.
Only the status of the head strategy can still change, from normal to stuck. -/
theorem endsWith
    (keeps : plan.Keeps property)
    (starts : property .start)
    (ended : plan.EndsWith term outcome) :
    ∃ progress, property progress ∧ outcome.steps = progress.steps ∧
      outcome.trace = progress.observations.reverse ∧
      (outcome.status = .sizeLimit ↔ progress.status = .sizeLimit) := by
  obtain ⟨fuel, ran⟩ := ended
  cases strategy : plan.strategy with
  | weakHead =>
      simp only [run_weakHead strategy, Option.map_eq_some_iff] at ran
      obtain ⟨⟨head, spine, progress⟩, headRan, rfl⟩ := ran
      refine ⟨progress, keeps.headRun headRan rfl starts,
        settle_steps head spine progress, ?_, ?_⟩
      · simp only [Progress.outcome, settle_observations]
      · simp only [Progress.outcome, settle_status_eq_sizeLimit_iff]
  | full =>
      simp only [run_full strategy, Option.map_eq_some_iff] at ran
      obtain ⟨⟨finish, progress⟩, normalized, rfl⟩ := ran
      exact ⟨progress, (keeps.normalize fuel).1 _ _ _ _ normalized rfl starts,
        rfl, rfl, Iff.rfl⟩

end Keeps
end Plan
end LambdaCalculus
