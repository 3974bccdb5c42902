import LambdaCalculus.Proofs.Reduction.Steps
import LambdaCalculus.Proofs.Term.Instantiation

/-!
# Contractions anywhere

A beta step contracts any one redex of a term, under binders and in arguments
as well as at the head.  Leftmost steps are beta steps.  A step stays one when
a variable around the redex is instantiated, and a head step also when it is
raised.
-/

namespace LambdaCalculus

/-- One contraction of any redex. -/
inductive BetaStep : Term -> Term -> Prop
  | contract
      (span binderSpan : Span)
      (declared : Option TypeId)
      (body argument : Term) :
      BetaStep (.app span (.abs binderSpan declared body) argument)
        (body.instantiate argument)
  | body
      (span : Span)
      (declared : Option TypeId)
      (step : BetaStep body next) :
      BetaStep (.abs span declared body) (.abs span declared next)
  | function
      (span : Span)
      (argument : Term)
      (step : BetaStep function next) :
      BetaStep (.app span function argument) (.app span next argument)
  | argument
      (span : Span)
      (function : Term)
      (step : BetaStep argument next) :
      BetaStep (.app span function argument) (.app span function next)

theorem LeftmostStep.beta
    (step : LeftmostStep start finish) :
    BetaStep start finish := by
  induction step with
  | contract span binderSpan declared body argument =>
      exact BetaStep.contract span binderSpan declared body argument
  | body span declared step inductionHypothesis =>
      exact BetaStep.body span declared inductionHypothesis
  | function span argument applied step inductionHypothesis =>
      exact BetaStep.function span argument inductionHypothesis
  | argument span applied normal step inductionHypothesis =>
      exact BetaStep.argument span _ inductionHypothesis

namespace BetaStep

/-- A step stays one when a variable outside the redex is instantiated. -/
theorem instantiateAt
    (step : BetaStep start finish)
    (place : Nat)
    (argument : Term) :
    BetaStep (start.instantiateAt place argument)
      (finish.instantiateAt place argument) := by
  induction step generalizing place with
  | contract span binderSpan declared body operand =>
      have commute :=
        Term.instantiateAt_instantiateAt body operand argument 0 place
      rw [Nat.zero_add] at commute
      unfold Term.instantiate
      rw [commute]
      exact contract span binderSpan declared _ _
  | body span declared step inductionHypothesis =>
      exact body span declared (inductionHypothesis (place + 1))
  | function span operand step inductionHypothesis =>
      exact function span _ (inductionHypothesis place)
  | argument span operator step inductionHypothesis =>
      exact BetaStep.argument span _ (inductionHypothesis place)

end BetaStep

/-! ## Head steps of the full strategy -/

namespace HeadStep

theorem raise
    (step : HeadStep .full start finish)
    (amount cutoff : Nat) :
    HeadStep .full (start.raise amount cutoff)
      (finish.raise amount cutoff) := by
  induction step with
  | contract span binderSpan declared body argument =>
      have commute :=
        Term.raise_instantiateAt body argument amount cutoff 0
      rw [Nat.zero_add] at commute
      unfold Strategy.contract Term.instantiate
      rw [commute]
      exact contract span binderSpan declared _ _
  | function span argument step inductionHypothesis =>
      exact function span _ inductionHypothesis

theorem instantiateAt
    (step : HeadStep .full start finish)
    (place : Nat)
    (argument : Term) :
    HeadStep .full (start.instantiateAt place argument)
      (finish.instantiateAt place argument) := by
  induction step with
  | contract span binderSpan declared body operand =>
      have commute :=
        Term.instantiateAt_instantiateAt body operand argument 0 place
      rw [Nat.zero_add] at commute
      unfold Strategy.contract Term.instantiate
      rw [commute]
      exact contract span binderSpan declared _ _
  | function span operand step inductionHypothesis =>
      exact function span _ inductionHypothesis

end HeadStep
end LambdaCalculus
