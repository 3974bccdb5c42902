import LambdaCalculus.Reduction.Run

/-!
# Contraction steps

A head step contracts the abstraction at the end of the application spine
with its first argument.  A leftmost step contracts the redex that starts
first in the written term and is not inside another one; it may be under
binders and in arguments.  Both are deterministic, and each is possible exactly
when there is a redex of its kind.  A head step of the full strategy is a
leftmost one.
-/

namespace LambdaCalculus

/-! ## Counted sequences -/

/-- Exactly `count` steps lead from the first term to the second. -/
inductive Steps (step : Term -> Term -> Prop) : Nat -> Term -> Term -> Prop
  | refl (term : Term) :
      Steps step 0 term term
  | cons
      (first : step start middle)
      (rest : Steps step count middle finish) :
      Steps step (count + 1) start finish

namespace Steps

theorem single
    {step : Term -> Term -> Prop}
    (first : step start finish) :
    Steps step 1 start finish :=
  cons first (refl finish)

theorem trans
    {step : Term -> Term -> Prop}
    {count more : Nat}
    (first : Steps step count start middle)
    (second : Steps step more middle finish) :
    Steps step (count + more) start finish := by
  induction first with
  | refl term =>
      rw [Nat.zero_add]
      exact second
  | cons first rest inductionHypothesis =>
      rw [Nat.add_right_comm]
      exact cons first (inductionHypothesis second)

/-- Steps carried into a context. -/
theorem map
    {step surroundedStep : Term -> Term -> Prop}
    (surround : Term -> Term)
    (carried : ∀ {start finish},
      step start finish -> surroundedStep (surround start) (surround finish))
    (steps : Steps step count start finish) :
    Steps surroundedStep count (surround start) (surround finish) := by
  induction steps with
  | refl term => exact refl (surround term)
  | cons first rest inductionHypothesis =>
      exact cons (carried first) inductionHypothesis

/-- What every step preserves, every sequence of steps preserves. -/
theorem preserves
    {step : Term -> Term -> Prop}
    (steps : Steps step count start finish)
    (invariant : Term -> Prop)
    (preserved : ∀ start finish,
      step start finish -> invariant start -> invariant finish)
    (holds : invariant start) :
    invariant finish := by
  induction steps with
  | refl term => exact holds
  | cons first rest inductionHypothesis =>
      exact inductionHypothesis (preserved _ _ first holds)

/-- A deterministic step reaches one term in a given number of steps. -/
theorem unique
    {step : Term -> Term -> Prop}
    (leftSteps : Steps step count start left)
    (deterministic : ∀ start left right,
      step start left -> step start right -> left = right)
    (rightSteps : Steps step count start right) :
    left = right := by
  induction leftSteps with
  | refl term =>
      cases rightSteps
      rfl
  | cons first rest inductionHypothesis =>
      cases rightSteps with
      | cons otherFirst otherRest =>
          rw [deterministic _ _ _ otherFirst first] at otherRest
          exact inductionHypothesis otherRest

end Steps

/-! ## Redexes -/

namespace Term

/-- The term is an abstraction. -/
def isAbstraction : Term -> Bool
  | .abs _ _ _ => true
  | _ => false

/-- The term is an application. -/
def isApplication : Term -> Bool
  | .app _ _ _ => true
  | _ => false

/-- The head of the term is an abstraction that has an argument. -/
def hasHeadRedex : Term -> Bool
  | .app _ function _ => function.isAbstraction || function.hasHeadRedex
  | _ => false

/-- An abstraction has an argument somewhere in the term. -/
def hasRedex : Term -> Bool
  | .var _ _ => false
  | .abs _ _ body => body.hasRedex
  | .app _ function argument =>
      function.isAbstraction || function.hasRedex || argument.hasRedex

@[simp] theorem isAbstraction_abs
    (span : Span)
    (declared : Option TypeId)
    (body : Term) :
    (abs span declared body).isAbstraction = true :=
  rfl

@[simp] theorem isAbstraction_app
    (span : Span)
    (function argument : Term) :
    (app span function argument).isAbstraction = false :=
  rfl

theorem isAbstraction_of_isApplication
    {term : Term}
    (application : term.isApplication = true) :
    term.isAbstraction = false := by
  cases term with
  | var span index => cases application
  | abs span declared body => cases application
  | app span function argument => rfl

@[simp] theorem hasHeadRedex_app
    (span : Span)
    (function argument : Term) :
    (app span function argument).hasHeadRedex =
      (function.isAbstraction || function.hasHeadRedex) :=
  rfl

@[simp] theorem hasRedex_abs
    (span : Span)
    (declared : Option TypeId)
    (body : Term) :
    (abs span declared body).hasRedex = body.hasRedex :=
  rfl

@[simp] theorem hasRedex_app
    (span : Span)
    (function argument : Term) :
    (app span function argument).hasRedex =
      (function.isAbstraction || function.hasRedex || argument.hasRedex) :=
  rfl

end Term

/-! ## Head steps -/

/-- One contraction at the head, performed as the strategy does. -/
inductive HeadStep (strategy : Strategy) : Term -> Term -> Prop
  | contract
      (span binderSpan : Span)
      (declared : Option TypeId)
      (body argument : Term) :
      HeadStep strategy (.app span (.abs binderSpan declared body) argument)
        (strategy.contract body argument)
  | function
      (span : Span)
      (argument : Term)
      (step : HeadStep strategy function next) :
      HeadStep strategy (.app span function argument) (.app span next argument)

namespace HeadStep

theorem isAbstraction_eq_false
    (step : HeadStep strategy start finish) :
    start.isAbstraction = false := by
  cases step with
  | contract => rfl
  | function => rfl

theorem deterministic
    (left : HeadStep strategy start leftFinish)
    (right : HeadStep strategy start rightFinish) :
    leftFinish = rightFinish := by
  induction left generalizing rightFinish with
  | contract span binderSpan declared body argument =>
      cases right with
      | contract => rfl
      | function _ _ step => cases step
  | function span argument step inductionHypothesis =>
      cases right with
      | contract => cases step
      | function _ _ otherStep => rw [inductionHypothesis otherStep]

/-- A head step stays one when more arguments follow. -/
theorem rebuild
    (step : HeadStep strategy start finish)
    (spine : Spine) :
    HeadStep strategy (spine.rebuild start) (spine.rebuild finish) := by
  induction spine generalizing start finish with
  | nil => exact step
  | cons frame rest inductionHypothesis =>
      exact inductionHypothesis (function frame.span frame.argument step)

/-- There is a head step exactly when there is a redex at the head. -/
theorem exists_iff
    (strategy : Strategy)
    (term : Term) :
    (∃ next, HeadStep strategy term next) ↔ term.hasHeadRedex = true := by
  constructor
  · rintro ⟨next, step⟩
    induction step with
    | contract => rfl
    | function span argument step inductionHypothesis =>
        rw [Term.hasHeadRedex_app, inductionHypothesis, Bool.or_true]
  · intro redex
    induction term with
    | var span index => cases redex
    | abs span declared body inductionHypothesis => cases redex
    | app span function argument functionHypothesis argumentHypothesis =>
        cases function with
        | abs binderSpan declared body =>
            exact ⟨_, contract span binderSpan declared body argument⟩
        | var => cases redex
        | app =>
            obtain ⟨next, step⟩ := functionHypothesis redex
            exact ⟨_, HeadStep.function span argument step⟩

end HeadStep

/-! ## Leftmost steps -/

/-- One contraction of the leftmost outermost redex. -/
inductive LeftmostStep : Term -> Term -> Prop
  | contract
      (span binderSpan : Span)
      (declared : Option TypeId)
      (body argument : Term) :
      LeftmostStep (.app span (.abs binderSpan declared body) argument)
        (body.instantiate argument)
  | body
      (span : Span)
      (declared : Option TypeId)
      (step : LeftmostStep body next) :
      LeftmostStep (.abs span declared body) (.abs span declared next)
  | function
      (span : Span)
      (argument : Term)
      (applied : function.isAbstraction = false)
      (step : LeftmostStep function next) :
      LeftmostStep (.app span function argument) (.app span next argument)
  | argument
      (span : Span)
      (applied : function.isAbstraction = false)
      (normal : function.hasRedex = false)
      (step : LeftmostStep argument next) :
      LeftmostStep (.app span function argument) (.app span function next)

namespace LeftmostStep

/-- There is a leftmost step exactly when there is a redex. -/
theorem exists_iff
    (term : Term) :
    (∃ next, LeftmostStep term next) ↔ term.hasRedex = true := by
  constructor
  · rintro ⟨next, step⟩
    induction step with
    | contract => rfl
    | body span declared step inductionHypothesis => exact inductionHypothesis
    | function span argument applied step inductionHypothesis =>
        rw [Term.hasRedex_app, inductionHypothesis, Bool.or_true, Bool.true_or]
    | argument span applied normal step inductionHypothesis =>
        rw [Term.hasRedex_app, inductionHypothesis, Bool.or_true]
  · intro redex
    induction term with
    | var span index => cases redex
    | abs span declared inner inductionHypothesis =>
        obtain ⟨next, step⟩ := inductionHypothesis redex
        exact ⟨_, body span declared step⟩
    | app span operator operand operatorHypothesis operandHypothesis =>
        cases applied : operator.isAbstraction with
        | true =>
            cases operator with
            | abs binderSpan declared inner =>
                exact ⟨_, contract span binderSpan declared inner operand⟩
            | var => cases applied
            | app => cases applied
        | false =>
            cases normal : operator.hasRedex with
            | true =>
                obtain ⟨next, step⟩ := operatorHypothesis normal
                exact ⟨_, function span operand applied step⟩
            | false =>
                rw [Term.hasRedex_app, applied, normal] at redex
                obtain ⟨next, step⟩ := operandHypothesis redex
                exact ⟨_, argument span applied normal step⟩

theorem hasRedex
    (step : LeftmostStep start finish) :
    start.hasRedex = true :=
  (exists_iff start).mp ⟨finish, step⟩

theorem deterministic
    (left : LeftmostStep start leftFinish)
    (right : LeftmostStep start rightFinish) :
    leftFinish = rightFinish := by
  induction left generalizing rightFinish with
  | contract span binderSpan declared body argument =>
      cases right with
      | contract => rfl
      | function _ _ applied _ => cases applied
      | argument _ applied _ _ => cases applied
  | body span declared step inductionHypothesis =>
      cases right with
      | body _ _ otherStep => rw [inductionHypothesis otherStep]
  | function span argument applied step inductionHypothesis =>
      cases right with
      | contract => cases applied
      | function _ _ _ otherStep => rw [inductionHypothesis otherStep]
      | argument _ _ normal _ =>
          rw [step.hasRedex] at normal
          cases normal
  | argument span applied normal step inductionHypothesis =>
      cases right with
      | contract => cases applied
      | function _ _ _ otherStep =>
          rw [otherStep.hasRedex] at normal
          cases normal
      | argument _ _ _ otherStep => rw [inductionHypothesis otherStep]

/-- A leftmost step of a function stays one when more arguments follow. -/
theorem rebuild
    (step : LeftmostStep start finish)
    (applied : start.isAbstraction = false)
    (spine : Spine) :
    LeftmostStep (spine.rebuild start) (spine.rebuild finish) := by
  induction spine generalizing start finish with
  | nil => exact step
  | cons frame rest inductionHypothesis =>
      exact inductionHypothesis
        (function frame.span frame.argument applied step) rfl

end LeftmostStep

/-- A head step of the full strategy contracts the leftmost redex. -/
theorem HeadStep.leftmost
    (step : HeadStep .full start finish) :
    LeftmostStep start finish := by
  induction step with
  | contract span binderSpan declared body argument =>
      exact LeftmostStep.contract span binderSpan declared body argument
  | function span argument step inductionHypothesis =>
      exact LeftmostStep.function span argument step.isAbstraction_eq_false
        inductionHypothesis

end LambdaCalculus
