import LambdaCalculus.Proofs.Reduction.HeadRun
import LambdaCalculus.Proofs.Reduction.WordContraction

/-!
# Runs in 64-bit words

A run asks for a contraction at each redex that it meets and is otherwise the
same for every contraction.  So where one contraction is undefined or does what
another one does, a run by the first that never asks for an undefined
contraction is the run by the second.

The contraction in words and the one with unbounded indices both extend the
contraction of those redexes in which no index comes near the sign bit.  If a
run meets no other redexes, it is the same in words.
-/

namespace LambdaCalculus

/-- Where the first contraction is defined the second does the same. -/
def Contraction.Extends
    (narrow wide : Contraction) : Prop :=
  ∀ body argument next,
    narrow body argument = some next -> wide body argument = some next

namespace Plan

/-- Unless the first computation meets something undefined, the second one is
the same. -/
def SameWhereDefined
    (first second : Except Interruption α) : Prop :=
  first ≠ .error .undefined -> second = first

namespace SameWhereDefined

theorem refl
    (computation : Except Interruption α) :
    SameWhereDefined computation computation :=
  fun _ => rfl

theorem bind
    {first second : Except Interruption α}
    {afterFirst afterSecond : α -> Except Interruption β}
    (same : SameWhereDefined first second)
    (sameAfter : ∀ value,
      SameWhereDefined (afterFirst value) (afterSecond value)) :
    SameWhereDefined (first >>= afterFirst) (second >>= afterSecond) := by
  intro defined
  have firstDefined : first ≠ .error .undefined := by
    rintro rfl
    exact defined rfl
  rw [same firstDefined]
  cases first with
  | error interruption => rfl
  | ok value => exact sameAfter value defined

end SameWhereDefined

variable {narrow wide : Contraction}

/-! ## Runs by two contractions -/

theorem headRunBy_sameWhereDefined
    (extending : narrow.Extends wide)
    (plan : Plan)
    (fuel : Nat)
    (term : Term)
    (pending : Spine)
    (progress : Progress) :
    SameWhereDefined
      (headRunBy narrow plan fuel term pending progress)
      (headRunBy wide plan fuel term pending progress) := by
  induction fuel generalizing term pending progress with
  | zero => exact .refl _
  | succ fuel inductionHypothesis =>
      rw [headRunBy, headRunBy]
      obtain ⟨head, spine⟩ := term.unwind pending
      cases head with
      | var span index => exact .refl _
      | app span function argument => exact .refl _
      | abs span declared body =>
          cases spine with
          | nil => exact .refl _
          | cons frame rest =>
              dsimp only
              by_cases exhausted : plan.budget.stepsExhausted progress.steps
              · simp only [if_pos exhausted]
                exact .refl _
              · simp only [if_neg exhausted]
                cases contracted : narrow body frame.argument with
                | none => exact fun defined => absurd rfl defined
                | some next =>
                    simp only [extending body frame.argument next contracted]
                    by_cases exceeded : plan.budget.nodesExceeded next rest
                    · simp only [if_pos exceeded]
                      exact .refl _
                    · simp only [if_neg exceeded]
                      exact inductionHypothesis next rest _

theorem normalizeBy_sameWhereDefined
    (extending : narrow.Extends wide)
    (plan : Plan)
    (fuel : Nat) :
    (∀ term progress, SameWhereDefined
      (normalizeBy narrow plan fuel term progress)
      (normalizeBy wide plan fuel term progress)) ∧
    (∀ spine progress, SameWhereDefined
      (normalizeSpineBy narrow plan fuel spine progress)
      (normalizeSpineBy wide plan fuel spine progress)) := by
  induction fuel with
  | zero => exact ⟨fun _ _ => .refl _, fun _ _ => .refl _⟩
  | succ fuel inductionHypothesis =>
      obtain ⟨terms, spines⟩ := inductionHypothesis
      constructor
      · intro term progress
        rw [normalizeBy, normalizeBy]
        apply SameWhereDefined.bind
        · exact headRunBy_sameWhereDefined extending plan fuel term [] progress
        · rintro ⟨head, spine, reached⟩
          dsimp only
          by_cases going : reached.status = .normal
          · simp only [if_pos going]
            cases head with
            | abs span declared body =>
                exact (terms body reached).bind fun _ => .refl _
            | var span index =>
                exact (spines spine reached).bind fun _ => .refl _
            | app span function argument =>
                exact (spines spine reached).bind fun _ => .refl _
          · simp only [if_neg going]
            exact .refl _
      · intro spine progress
        cases spine with
        | nil => exact .refl _
        | cons frame rest =>
            rw [normalizeSpineBy, normalizeSpineBy]
            by_cases going : progress.status = .normal
            · simp only [if_pos going]
              apply (terms frame.argument progress).bind
              intro first
              exact (spines rest first.2).bind fun _ => .refl _
            · simp only [if_neg going]
              exact .refl _

/-- A run that asks for no undefined contraction is the run by any contraction
that extends its own. -/
theorem runBy_sameWhereDefined
    (extending : narrow.Extends wide)
    (plan : Plan)
    (fuel : Nat)
    (term : Term) :
    SameWhereDefined (runBy narrow plan fuel term)
      (runBy wide plan fuel term) := by
  rw [runBy, runBy]
  cases plan.strategy with
  | weakHead =>
      exact (headRunBy_sameWhereDefined extending plan fuel term [] .start).bind
        fun _ => .refl _
  | full =>
      exact ((normalizeBy_sameWhereDefined extending plan fuel).1 term
        .start).bind fun _ => .refl _

end Plan

/-! ## Contraction where it fits -/

instance (body argument : Term) :
    Decidable (Term.ContractionFits body argument) :=
  decidable_of_iff
    (body.indicesBelow Word.signBit = true ∧
      argument.indicesBelow (Word.signBit - 1 - body.binderDepth) = true ∧
      body.binderDepth + argument.binderDepth < Word.signBit)
    ⟨fun ⟨bodyBelow, argumentBelow, depthBelow⟩ =>
        ⟨bodyBelow, argumentBelow, depthBelow⟩,
      fun ⟨bodyBelow, argumentBelow, depthBelow⟩ =>
        ⟨bodyBelow, argumentBelow, depthBelow⟩⟩

/-- The contraction of those redexes in which no index comes near the sign
bit. -/
def Strategy.contractionWhereFits (strategy : Strategy) : Contraction :=
  fun body argument =>
    if Term.ContractionFits body argument then
      strategy.contraction body argument
    else
      none

theorem Strategy.contractionWhereFits_extends
    (strategy : Strategy) :
    strategy.contractionWhereFits.Extends strategy.contraction ∧
      strategy.contractionWhereFits.Extends strategy.contractInWords := by
  have fitting : ∀ body argument next,
      strategy.contractionWhereFits body argument = some next ->
      Term.ContractionFits body argument ∧
        strategy.contraction body argument = some next :=
    fun _ _ _ contracted => Option.ite_none_right_eq_some.mp contracted
  constructor
  · intro body argument next contracted
    exact (fitting body argument next contracted).2
  · intro body argument next contracted
    obtain ⟨fits, same⟩ := fitting body argument next contracted
    rw [strategy.contractInWords_eq fits]
    exact same

namespace Plan

/-- A run that contracts in words; `none` when the fuel does not suffice or an
index would be captured. -/
def runInWords
    (plan : Plan)
    (fuel : Nat)
    (term : Term) : Option Outcome :=
  (runBy plan.strategy.contractInWords plan fuel term).toOption

/-- No index comes near the sign bit in any redex that the run contracts. -/
def RedexesFit
    (plan : Plan)
    (fuel : Nat)
    (term : Term) : Prop :=
  runBy plan.strategy.contractionWhereFits plan fuel term ≠ .error .undefined

instance
    (plan : Plan)
    (fuel : Nat)
    (term : Term) :
    Decidable (plan.RedexesFit fuel term) :=
  match ran : runBy plan.strategy.contractionWhereFits plan fuel term with
  | .error .undefined => isFalse fun fits => fits ran
  | .error .outOfFuel => isTrue fun undefined => by
      rw [ran] at undefined
      cases undefined
  | .ok _ => isTrue fun undefined => by
      rw [ran] at undefined
      cases undefined

/-- With whatever fuel, a run in words is the run with unbounded indices, if no
index comes near the sign bit in a redex that is contracted. -/
theorem runInWords_eq_run
    {plan : Plan}
    (fits : plan.RedexesFit fuel term) :
    plan.runInWords fuel term = plan.run fuel term := by
  obtain ⟨unbounded, words⟩ := plan.strategy.contractionWhereFits_extends
  rw [runInWords, run, runBy_sameWhereDefined words plan fuel term fits,
    runBy_sameWhereDefined unbounded plan fuel term fits]

example :
    let function := Term.abs .nowhere none (.abs .nowhere none
      (.app .nowhere (.var .nowhere 1) (.var .nowhere 0)))
    let plan := Plan.mk .full .unlimited false
    plan.RedexesFit 4 (.app .nowhere function (.var .nowhere 3)) ∧
      ¬ plan.RedexesFit 4
        (.app .nowhere function (.var .nowhere Word.signBit)) := by
  decide

/-- So it ends with the same outcomes. -/
theorem runInWords_endsWith_iff
    {plan : Plan}
    (fits : ∀ fuel, plan.RedexesFit fuel term) :
    (∃ fuel, plan.runInWords fuel term = some outcome) ↔
      plan.EndsWith term outcome := by
  unfold EndsWith
  simp only [runInWords_eq_run (fits _)]

end Plan
end LambdaCalculus
