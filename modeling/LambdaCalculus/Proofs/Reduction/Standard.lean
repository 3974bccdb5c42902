import LambdaCalculus.Proofs.Reduction.Beta
import LambdaCalculus.Proofs.Term.Alike
import Mathlib.Logic.Relation

/-!
# Standard reduction

A standard reduction performs head steps until the head is as it should be,
and then standard reductions in the parts.  Any sequence of contractions, in
whatever order, can be put into this form.  Where the last term has no redex, a
standard reduction is a sequence of leftmost steps; so leftmost steps find the
normal form that any other order finds.  Spans play no part in this: the
relation forgets the spans of its second term.
-/

namespace LambdaCalculus

/-- Any number of head steps of the full strategy. -/
abbrev HeadSteps : Term -> Term -> Prop :=
  Relation.ReflTransGen (HeadStep .full)

namespace HeadSteps

theorem function
    (span : Span)
    (argument : Term)
    (steps : HeadSteps start finish) :
    HeadSteps (.app span start argument) (.app span finish argument) :=
  steps.lift (Term.app span · argument)
    fun _ _ => HeadStep.function span argument

theorem raise
    (steps : HeadSteps start finish)
    (amount cutoff : Nat) :
    HeadSteps (start.raise amount cutoff) (finish.raise amount cutoff) :=
  steps.lift (·.raise amount cutoff) fun _ _ step => step.raise amount cutoff

theorem instantiateAt
    (steps : HeadSteps start finish)
    (place : Nat)
    (argument : Term) :
    HeadSteps (start.instantiateAt place argument)
      (finish.instantiateAt place argument) :=
  steps.lift (·.instantiateAt place argument)
    fun _ _ step => step.instantiateAt place argument

end HeadSteps

/-- Head steps lead from the first term to one with the head of the second, and
the parts are related likewise. -/
inductive Standard : Term -> Term -> Prop
  | var
      (otherSpan : Span)
      (steps : HeadSteps start (.var span index)) :
      Standard start (.var otherSpan index)
  | abs
      (otherSpan : Span)
      (steps : HeadSteps start (.abs span declared body))
      (inner : Standard body next) :
      Standard start (.abs otherSpan declared next)
  | app
      (otherSpan : Span)
      (steps : HeadSteps start (.app span function argument))
      (functionStandard : Standard function nextFunction)
      (argumentStandard : Standard argument nextArgument) :
      Standard start (.app otherSpan nextFunction nextArgument)

namespace Standard

theorem refl
    (term : Term) :
    Standard term term := by
  induction term with
  | var span index => exact var span .refl
  | abs span declared body inductionHypothesis =>
      exact abs span .refl inductionHypothesis
  | app span function argument functionHypothesis argumentHypothesis =>
      exact app span .refl functionHypothesis argumentHypothesis

/-- Head steps may be put in front. -/
theorem prepend
    (steps : HeadSteps start middle)
    (standard : Standard middle finish) :
    Standard start finish := by
  cases standard with
  | var otherSpan further => exact var otherSpan (steps.trans further)
  | abs otherSpan further inner =>
      exact abs otherSpan (steps.trans further) inner
  | app otherSpan further functionStandard argumentStandard =>
      exact app otherSpan (steps.trans further) functionStandard
        argumentStandard

/-- The spans of the second term are of no importance. -/
theorem alike
    (standard : Standard start finish)
    (same : finish.alike other = true) :
    Standard start other := by
  induction standard generalizing other with
  | var otherSpan steps =>
      cases other with
      | var span index =>
          simp only [Term.alike, beq_iff_eq] at same
          exact same ▸ var span steps
      | abs span declared body => cases same
      | app span function argument => cases same
  | abs otherSpan steps inner inductionHypothesis =>
      cases other with
      | var span index => cases same
      | abs span declared body =>
          simp only [Term.alike, Bool.and_eq_true, beq_iff_eq] at same
          exact same.1 ▸ abs span steps (inductionHypothesis same.2)
      | app span function argument => cases same
  | app otherSpan steps functionStandard argumentStandard functionHypothesis
      argumentHypothesis =>
      cases other with
      | var span index => cases same
      | abs span declared body => cases same
      | app span function argument =>
          simp only [Term.alike, Bool.and_eq_true] at same
          exact app span steps (functionHypothesis same.1)
            (argumentHypothesis same.2)

/-! ## Raising and instantiating -/

theorem raise
    (standard : Standard start finish)
    (amount cutoff : Nat) :
    Standard (start.raise amount cutoff) (finish.raise amount cutoff) := by
  induction standard generalizing cutoff with
  | var otherSpan steps => exact var otherSpan (steps.raise amount cutoff)
  | abs otherSpan steps inner inductionHypothesis =>
      exact abs otherSpan (steps.raise amount cutoff)
        (inductionHypothesis (cutoff + 1))
  | app otherSpan steps functionStandard argumentStandard functionHypothesis
      argumentHypothesis =>
      exact app otherSpan (steps.raise amount cutoff)
        (functionHypothesis cutoff) (argumentHypothesis cutoff)

theorem instantiateAt
    (standard : Standard start finish)
    (argumentStandard : Standard argument nextArgument)
    (place : Nat) :
    Standard (start.instantiateAt place argument)
      (finish.instantiateAt place nextArgument) := by
  induction standard generalizing place with
  | @var start span index otherSpan steps =>
      refine prepend (steps.instantiateAt place argument) ?_
      rcases Nat.lt_trichotomy index place with bound | here | free
      · rw [Term.instantiateAt_var_of_lt span argument bound,
          Term.instantiateAt_var_of_lt otherSpan nextArgument bound]
        exact var otherSpan .refl
      · rw [Term.instantiateAt_var_of_eq span argument here,
          Term.instantiateAt_var_of_eq otherSpan nextArgument here]
        exact argumentStandard.raise place 0
      · rw [Term.instantiateAt_var_of_gt span argument free,
          Term.instantiateAt_var_of_gt otherSpan nextArgument free]
        exact var otherSpan .refl
  | abs otherSpan steps inner inductionHypothesis =>
      exact abs otherSpan (steps.instantiateAt place argument)
        (inductionHypothesis (place + 1))
  | app otherSpan steps functionStandard operandStandard functionHypothesis
      operandHypothesis =>
      exact app otherSpan (steps.instantiateAt place argument)
        (functionHypothesis place) (operandHypothesis place)

/-! ## Contractions of the second term -/

/-- A redex of the second term comes from one of the first, which a head step
contracts. -/
theorem contract
    (standard : Standard start
      (.app span (.abs binderSpan declared body) argument)) :
    Standard start (body.instantiate argument) := by
  cases standard with
  | @app _ otherSpan function operand _ _ _ steps functionStandard
      argumentStandard =>
      cases functionStandard with
      | @abs _ innerSpan _ inner _ _ functionSteps innerStandard =>
          have contracted : HeadStep .full
              (.app otherSpan (.abs innerSpan declared inner) operand)
              (inner.instantiate operand) :=
            HeadStep.contract otherSpan innerSpan declared inner operand
          have together : HeadSteps start (inner.instantiate operand) :=
            (steps.trans (functionSteps.function otherSpan operand)).tail
              contracted
          exact prepend together
            (innerStandard.instantiateAt argumentStandard 0)

/-- A beta step behind a standard reduction gives a standard reduction. -/
theorem beta
    (standard : Standard start middle)
    (step : BetaStep middle finish) :
    Standard start finish := by
  induction step generalizing start with
  | contract span binderSpan declared body argument => exact standard.contract
  | body span declared step inductionHypothesis =>
      cases standard with
      | abs _ steps inner => exact abs span steps (inductionHypothesis inner)
  | function span argument step inductionHypothesis =>
      cases standard with
      | app _ steps functionStandard argumentStandard =>
          exact app span steps (inductionHypothesis functionStandard)
            argumentStandard
  | argument span function step inductionHypothesis =>
      cases standard with
      | app _ steps functionStandard argumentStandard =>
          exact app span steps functionStandard
            (inductionHypothesis argumentStandard)

end Standard

/-! ## Leftmost steps -/

namespace Term

@[simp] theorem isAbstraction_withoutSpans
    (term : Term) :
    term.withoutSpans.isAbstraction = term.isAbstraction := by
  cases term <;> rfl

@[simp] theorem hasRedex_withoutSpans
    (term : Term) :
    term.withoutSpans.hasRedex = term.hasRedex := by
  induction term with
  | var span index => rfl
  | abs span declared body inductionHypothesis => exact inductionHypothesis
  | app span function argument functionHypothesis argumentHypothesis =>
      rw [withoutSpans_app, hasRedex_app, hasRedex_app, functionHypothesis,
        argumentHypothesis, isAbstraction_withoutSpans]

theorem isAbstraction_of_alike
    (same : alike left right = true) :
    left.isAbstraction = right.isAbstraction := by
  rw [← isAbstraction_withoutSpans left, (alike_iff left right).mp same,
    isAbstraction_withoutSpans]

theorem hasRedex_of_alike
    (same : alike left right = true) :
    left.hasRedex = right.hasRedex := by
  rw [← hasRedex_withoutSpans left, (alike_iff left right).mp same,
    hasRedex_withoutSpans]

end Term

/-- Any number of leftmost steps. -/
abbrev LeftmostSteps : Term -> Term -> Prop :=
  Relation.ReflTransGen LeftmostStep

theorem Steps.reflTransGen
    {step : Term -> Term -> Prop}
    (steps : Steps step count start finish) :
    Relation.ReflTransGen step start finish := by
  induction steps with
  | refl term => exact .refl
  | cons first rest inductionHypothesis => exact .head first inductionHypothesis

namespace LeftmostSteps

/-- Leftmost steps lead to one term without a redex at most. -/
theorem unique
    (left : LeftmostSteps start leftFinish)
    (leftNormal : leftFinish.hasRedex = false)
    (right : LeftmostSteps start rightFinish)
    (rightNormal : rightFinish.hasRedex = false) :
    leftFinish = rightFinish := by
  induction left using Relation.ReflTransGen.head_induction_on with
  | refl =>
      cases right.cases_head with
      | inl same => exact same
      | inr further =>
          obtain ⟨middle, step, _⟩ := further
          rw [step.hasRedex] at leftNormal
          cases leftNormal
  | head first rest inductionHypothesis =>
      cases right.cases_head with
      | inl same =>
          rw [← same, first.hasRedex] at rightNormal
          cases rightNormal
      | inr further =>
          obtain ⟨middle, step, others⟩ := further
          rw [step.deterministic first] at others
          exact inductionHypothesis others

/-- Once a term is an abstraction it stays one. -/
theorem isAbstraction
    (steps : LeftmostSteps start finish)
    (applied : finish.isAbstraction = false) :
    start.isAbstraction = false := by
  induction steps using Relation.ReflTransGen.head_induction_on with
  | refl => exact applied
  | head first rest inductionHypothesis =>
      cases first with
      | contract => rfl
      | body => cases inductionHypothesis
      | function => rfl
      | argument => rfl

/-- Leftmost steps of a function that does not become an abstraction are
leftmost steps of the application. -/
theorem function
    (span : Span)
    (argument : Term)
    (steps : LeftmostSteps start finish)
    (applied : finish.isAbstraction = false) :
    LeftmostSteps (.app span start argument) (.app span finish argument) := by
  induction steps using Relation.ReflTransGen.head_induction_on with
  | refl => exact .refl
  | head first rest inductionHypothesis =>
      have notYet := isAbstraction (.head first rest) applied
      exact .head (LeftmostStep.function span argument notYet first)
        inductionHypothesis

end LeftmostSteps

theorem HeadSteps.leftmost
    (steps : HeadSteps start finish) :
    LeftmostSteps start finish :=
  steps.lift id fun _ _ => HeadStep.leftmost

/-- A standard reduction to a term without a redex contracts leftmost redexes
only.  In an application the function comes first, and its normal form lets the
argument go on. -/
theorem Standard.leftmost
    (standard : Standard start finish)
    (normal : finish.hasRedex = false) :
    ∃ reached, LeftmostSteps start reached ∧
      reached.alike finish = true := by
  induction standard with
  | @var start span index otherSpan steps =>
      exact ⟨.var span index, steps.leftmost, by simp [Term.alike]⟩
  | @abs start span declared body next otherSpan steps inner
      inductionHypothesis =>
      obtain ⟨reached, bodySteps, same⟩ := inductionHypothesis normal
      have inside : LeftmostSteps (.abs span declared body)
          (.abs span declared reached) :=
        bodySteps.lift (Term.abs span declared)
          fun _ _ => LeftmostStep.body span declared
      exact ⟨.abs span declared reached, steps.leftmost.trans inside,
        by simp [Term.alike, same]⟩
  | @app start span function argument nextFunction nextArgument otherSpan
      steps functionStandard argumentStandard functionHypothesis
      argumentHypothesis =>
      simp only [Term.hasRedex_app, Bool.or_eq_false_iff] at normal
      obtain ⟨⟨applied, functionNormal⟩, argumentNormal⟩ := normal
      obtain ⟨reached, functionSteps, sameFunction⟩ :=
        functionHypothesis functionNormal
      obtain ⟨reachedArgument, argumentSteps, sameArgument⟩ :=
        argumentHypothesis argumentNormal
      rw [← Term.isAbstraction_of_alike sameFunction] at applied
      rw [← Term.hasRedex_of_alike sameFunction] at functionNormal
      have inFunction := functionSteps.function span argument applied
      have inArgument : LeftmostSteps (.app span reached argument)
          (.app span reached reachedArgument) :=
        argumentSteps.lift (Term.app span reached)
          fun _ _ => LeftmostStep.argument span applied functionNormal
      exact ⟨.app span reached reachedArgument,
        (steps.leftmost.trans inFunction).trans inArgument,
        by simp [Term.alike, sameFunction, sameArgument]⟩

end LambdaCalculus
