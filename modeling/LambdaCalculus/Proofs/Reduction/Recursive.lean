import LambdaCalculus.Proofs.Reduction.HeadRun
import LambdaCalculus.Reduction.Recursive

/-!
# The recursion and the loop

Weak head reduction by recursion ends on a term exactly when finitely many head
steps lead from it to a term without a redex at its head, and that term is the
result.  The loop over an explicit spine ends under the same condition with the
same term.  So neither of them ends without the other, and they give the same
term with the same spans.
-/

namespace LambdaCalculus
namespace Term

/-! ## One call of the recursion -/

/-- The recursion gives the result for some fuel. -/
def BetaReducesTo
    (term result : Term) : Prop :=
  ∃ fuel, term.betaReduce fuel = some result

theorem betaReduce_app_of_abs
    {function : Term}
    (span : Span)
    (argument : Term)
    (reduced : function.betaReduce fuel = some (.abs binderSpan declared body)) :
    (app span function argument).betaReduce (fuel + 1) =
      (body.substitute 0 argument).betaReduce fuel := by
  rw [betaReduce, reduced]

theorem betaReduce_app_of_not_abs
    {function head : Term}
    (span : Span)
    (argument : Term)
    (reduced : function.betaReduce fuel = some head)
    (neutral : head.isAbstraction = false) :
    (app span function argument).betaReduce (fuel + 1) =
      some (app span head argument) := by
  rw [betaReduce, reduced]
  cases head with
  | abs binderSpan declared body => cases neutral
  | var headSpan index => rfl
  | app headSpan left right => rfl

/-- The recursion on an application first reduces its function; it goes on
with the contraction if that gives an abstraction. -/
theorem betaReduce_app_cases
    {span : Span}
    {function argument result : Term}
    (reduced :
      (app span function argument).betaReduce (fuel + 1) = some result) :
    (∃ binderSpan declared body,
        function.betaReduce fuel = some (.abs binderSpan declared body) ∧
        (body.substitute 0 argument).betaReduce fuel = some result) ∨
      ∃ head, function.betaReduce fuel = some head ∧
        head.isAbstraction = false ∧ result = app span head argument := by
  cases functionReduced : function.betaReduce fuel with
  | none =>
      rw [betaReduce, functionReduced] at reduced
      cases reduced
  | some head =>
      cases neutral : head.isAbstraction with
      | true =>
          cases head with
          | abs binderSpan declared body =>
              rw [betaReduce_app_of_abs span argument functionReduced]
                at reduced
              exact Or.inl ⟨binderSpan, declared, body, rfl, reduced⟩
          | var headSpan index => cases neutral
          | app headSpan left right => cases neutral
      | false =>
          rw [betaReduce_app_of_not_abs span argument functionReduced neutral]
            at reduced
          exact Or.inr ⟨head, rfl, neutral, (Option.some.inj reduced).symm⟩

/-- More fuel does not change the result. -/
theorem betaReduce_mono
    {term : Term}
    (enough : fuel ≤ more)
    (reduced : term.betaReduce fuel = some result) :
    term.betaReduce more = some result := by
  induction fuel generalizing more term result with
  | zero => cases reduced
  | succ fuel inductionHypothesis =>
      obtain ⟨more, rfl⟩ := Nat.exists_eq_add_of_le' enough
      have le : fuel ≤ more + fuel := Nat.le_add_left fuel more
      rw [← Nat.add_assoc]
      cases term with
      | var span index => exact reduced
      | abs span declared body => exact reduced
      | app span function argument =>
          obtain ⟨binderSpan, declared, body, functionReduced, bodyReduced⟩ |
              ⟨head, functionReduced, neutral, rfl⟩ :=
            betaReduce_app_cases reduced
          · rw [betaReduce_app_of_abs span argument
              (inductionHypothesis le functionReduced)]
            exact inductionHypothesis le bodyReduced
          · exact betaReduce_app_of_not_abs span argument
              (inductionHypothesis le functionReduced) neutral

theorem BetaReducesTo.unique
    {term left right : Term}
    (leftReduced : term.BetaReducesTo left)
    (rightReduced : term.BetaReducesTo right) :
    left = right := by
  obtain ⟨leftFuel, leftReduced⟩ := leftReduced
  obtain ⟨rightFuel, rightReduced⟩ := rightReduced
  have fromLeft := betaReduce_mono (Nat.le_max_left leftFuel rightFuel)
    leftReduced
  have fromRight := betaReduce_mono (Nat.le_max_right leftFuel rightFuel)
    rightReduced
  rw [fromLeft] at fromRight
  exact Option.some.inj fromRight

/-! ## The recursion performs head steps -/

theorem headSteps_of_betaReduce
    {term result : Term}
    (reduced : term.betaReduce fuel = some result) :
    ∃ count, Steps (HeadStep .weakHead) count term result ∧
      result.hasHeadRedex = false := by
  induction fuel generalizing term result with
  | zero => cases reduced
  | succ fuel inductionHypothesis =>
      cases term with
      | var span index =>
          cases reduced
          exact ⟨0, Steps.refl _, rfl⟩
      | abs span declared body =>
          cases reduced
          exact ⟨0, Steps.refl _, rfl⟩
      | app span function argument =>
          have carried {left right : Term} :
              HeadStep .weakHead left right ->
                HeadStep .weakHead (app span left argument)
                  (app span right argument) :=
            HeadStep.function span argument
          obtain ⟨binderSpan, declared, body, functionReduced, bodyReduced⟩ |
              ⟨head, functionReduced, neutral, rfl⟩ :=
            betaReduce_app_cases reduced
          · obtain ⟨functionCount, functionSteps, _⟩ :=
              inductionHypothesis functionReduced
            obtain ⟨bodyCount, bodySteps, final⟩ :=
              inductionHypothesis bodyReduced
            have contracted : HeadStep .weakHead
                (app span (abs binderSpan declared body) argument)
                (body.substitute 0 argument) :=
              HeadStep.contract span binderSpan declared body argument
            have before := functionSteps.map (app span · argument) carried
            exact ⟨_, before.trans (Steps.cons contracted bodySteps), final⟩
          · obtain ⟨count, steps, final⟩ := inductionHypothesis functionReduced
            refine ⟨count, steps.map (app span · argument) carried, ?_⟩
            rw [hasHeadRedex_app, neutral, final, Bool.or_false]

/-- A term without a redex at its head is its own result. -/
theorem betaReducesTo_self
    {term : Term}
    (final : term.hasHeadRedex = false) :
    term.BetaReducesTo term := by
  induction term with
  | var span index => exact ⟨1, rfl⟩
  | abs span declared body inductionHypothesis => exact ⟨1, rfl⟩
  | app span function argument functionHypothesis argumentHypothesis =>
      rw [hasHeadRedex_app, Bool.or_eq_false_iff] at final
      obtain ⟨neutral, functionFinal⟩ := final
      obtain ⟨fuel, reduced⟩ := functionHypothesis functionFinal
      exact ⟨fuel + 1,
        betaReduce_app_of_not_abs span argument reduced neutral⟩

/-- A term has the result of the term that a head step leads to. -/
theorem BetaReducesTo.of_headStep
    (step : HeadStep .weakHead start next)
    (reduced : next.BetaReducesTo result) :
    start.BetaReducesTo result := by
  induction step generalizing result with
  | contract span binderSpan declared body argument =>
      obtain ⟨fuel, reduced⟩ := reduced
      refine ⟨fuel + 2, ?_⟩
      rw [betaReduce_app_of_abs span argument rfl]
      exact betaReduce_mono (Nat.le_succ fuel) reduced
  | @function function next span argument step inductionHypothesis =>
      obtain ⟨fuel, reduced⟩ := reduced
      cases fuel with
      | zero => cases reduced
      | succ fuel =>
          obtain ⟨binderSpan, declared, body, functionReduced, bodyReduced⟩ |
              ⟨head, functionReduced, neutral, rfl⟩ :=
            betaReduce_app_cases reduced
          · obtain ⟨other, otherReduced⟩ :=
              inductionHypothesis ⟨fuel, functionReduced⟩
            refine ⟨max fuel other + 1, ?_⟩
            rw [betaReduce_app_of_abs span argument
              (betaReduce_mono (Nat.le_max_right fuel other) otherReduced)]
            exact betaReduce_mono (Nat.le_max_left fuel other) bodyReduced
          · obtain ⟨other, otherReduced⟩ :=
              inductionHypothesis ⟨fuel, functionReduced⟩
            exact ⟨other + 1,
              betaReduce_app_of_not_abs span argument otherReduced neutral⟩

/-- The recursion gives the term where the head steps end. -/
theorem betaReducesTo_iff
    (term result : Term) :
    term.BetaReducesTo result ↔
      ∃ count, Steps (HeadStep .weakHead) count term result ∧
        result.hasHeadRedex = false := by
  constructor
  · rintro ⟨fuel, reduced⟩
    exact headSteps_of_betaReduce reduced
  · rintro ⟨count, steps, final⟩
    induction steps with
    | refl term => exact betaReducesTo_self final
    | cons first rest inductionHypothesis =>
        exact BetaReducesTo.of_headStep first (inductionHypothesis final)

/-- Without a redex at its head a term is an abstraction or its head is a
variable. -/
theorem exists_head_eq_var
    {term : Term}
    (final : term.hasHeadRedex = false)
    (neutral : term.isAbstraction = false) :
    ∃ span index, term.head = .var span index := by
  induction term with
  | var span index => exact ⟨span, index, rfl⟩
  | abs span declared body inductionHypothesis => cases neutral
  | app span function argument functionHypothesis argumentHypothesis =>
      rw [hasHeadRedex_app, Bool.or_eq_false_iff] at final
      exact functionHypothesis final.2 final.1

end Term

/-! ## The loop performs head steps -/

namespace Plan

/-- A head run that has left no redex is stuck exactly when it has left an
application. -/
theorem settle_status
    (normal : progress.status = .normal)
    (whole : head.isApplication = false)
    (noRedex : (spine.rebuild head).hasHeadRedex = false) :
    (settle head spine progress).status =
      if (spine.rebuild head).isApplication then .stuck else .normal := by
  rw [Term.hasHeadRedex_rebuild whole] at noRedex
  rw [Term.isApplication_rebuild, whole, Bool.false_or]
  cases spine with
  | nil =>
      cases head with
      | var span index => exact normal
      | abs span declared body => exact normal
      | app span function argument => cases whole
  | cons frame rest =>
      cases head with
      | var span index =>
          unfold settle
          rw [normal]
          rfl
      | abs span declared body => cases noRedex
      | app span function argument => cases whole

@[simp] theorem settle_steps
    (head : Term)
    (spine : Spine)
    (progress : Progress) :
    (settle head spine progress).steps = progress.steps := by
  unfold settle
  split <;> rfl

/-- The loop performs the head steps that it counts. -/
theorem EndsWith.headSteps_term
    {plan : Plan}
    (ended : plan.EndsWith term outcome)
    (weakHead : plan.strategy = .weakHead) :
    Steps (HeadStep .weakHead) outcome.steps term outcome.term := by
  obtain ⟨head, spine, progress, ran, rfl⟩ := headRan_of_endsWith weakHead ended
  obtain ⟨count, counted, steps⟩ := ran.steps
  have total : (settle head spine progress).steps = count := by
    rw [settle_steps, counted]
    exact Nat.zero_add count
  rw [weakHead, ← total] at steps
  exact steps

/-- Without limits the loop performs the head steps that it counts, until there
is none. -/
theorem EndsWith.headSteps
    {traced : Bool}
    (ended : (Plan.mk .weakHead .unlimited traced).EndsWith term outcome) :
    Steps (HeadStep .weakHead) outcome.steps term outcome.term ∧
      outcome.term.hasHeadRedex = false ∧
      outcome.status =
        if outcome.term.isApplication then .stuck else .normal := by
  have steps := ended.headSteps_term rfl
  obtain ⟨head, spine, progress, headRan, rfl⟩ := headRan_of_endsWith rfl ended
  obtain ⟨kept, whole, noRedex⟩ := headRan.ended.final_of_unlimited rfl
  exact ⟨steps, noRedex, settle_status kept whole noRedex⟩

/-- Without limits the loop performs head steps until there is none. -/
theorem headSteps_of_endsWith
    {traced : Bool}
    (ended : (Plan.mk .weakHead .unlimited traced).EndsWith term outcome) :
    (∃ count, Steps (HeadStep .weakHead) count term outcome.term ∧
        outcome.term.hasHeadRedex = false) ∧
      outcome.status =
        if outcome.term.isApplication then .stuck else .normal := by
  obtain ⟨steps, noRedex, status⟩ := ended.headSteps
  exact ⟨⟨outcome.steps, steps, noRedex⟩, status⟩

/-- Without limits the loop ends if the head steps do. -/
theorem exists_endsWith
    (traced : Bool)
    (steps : Steps (HeadStep .weakHead) count term finish)
    (final : finish.hasHeadRedex = false) :
    ∃ outcome, (Plan.mk .weakHead .unlimited traced).EndsWith term outcome := by
  obtain ⟨fuel, ⟨head, spine, progress⟩, ran⟩ :=
    exists_headRun ⟨.weakHead, .unlimited, traced⟩ term [] .start rfl steps
      final
  refine ⟨(settle head spine progress).outcome (spine.rebuild head), fuel, ?_⟩
  rw [run_weakHead rfl, ran, Option.map_some]

/-- Weak head reduction by recursion and by the loop end on the same terms.
They give the same term, which is an application exactly when the loop is
stuck, and then has a variable as its head. -/
theorem run_weakHead_refines_betaReduce
    (traced : Bool)
    (term : Term) :
    ((∃ result, term.BetaReducesTo result) ↔
        ∃ outcome,
          (Plan.mk .weakHead .unlimited traced).EndsWith term outcome) ∧
      ∀ result outcome,
        term.BetaReducesTo result ->
        (Plan.mk .weakHead .unlimited traced).EndsWith term outcome ->
        outcome.term = result ∧
          outcome.status =
            (if result.isApplication then .stuck else .normal) ∧
          (result.isApplication = true ->
            ∃ span index, result.head = .var span index) := by
  constructor
  · constructor
    · rintro ⟨result, reduced⟩
      obtain ⟨count, steps, final⟩ :=
        (Term.betaReducesTo_iff term result).mp reduced
      exact exists_endsWith traced steps final
    · rintro ⟨outcome, ended⟩
      exact ⟨outcome.term,
        (Term.betaReducesTo_iff term _).mpr (headSteps_of_endsWith ended).1⟩
  · intro result outcome reduced ended
    obtain ⟨performed, status⟩ := headSteps_of_endsWith ended
    have same : result = outcome.term :=
      reduced.unique ((Term.betaReducesTo_iff term _).mpr performed)
    obtain ⟨count, steps, final⟩ := performed
    subst same
    refine ⟨rfl, status, ?_⟩
    intro application
    exact Term.exists_head_eq_var final
      (Term.isAbstraction_of_isApplication application)

/-- Both end on `((λ. 0) 3 5)` with `(3 5)`, where the loop is stuck. -/
theorem run_weakHead_refines_betaReduce_free :
    let three := Term.var ⟨0, 6, 7⟩ 3
    let five := Term.var ⟨0, 8, 9⟩ 5
    let identity := Term.abs ⟨0, 1, 5⟩ none (.var ⟨0, 3, 4⟩ 0)
    let term := Term.app ⟨0, 0, 10⟩ (.app ⟨0, 0, 7⟩ identity three) five
    ∃ outcome,
      (Plan.mk .weakHead .unlimited true).EndsWith term outcome ∧
      outcome.term = .app ⟨0, 0, 10⟩ three five ∧
      outcome.status = .stuck := by
  intro three five identity term
  obtain ⟨together, agree⟩ := run_weakHead_refines_betaReduce true term
  have reduced : term.BetaReducesTo (.app ⟨0, 0, 10⟩ three five) :=
    ⟨3, by decide⟩
  obtain ⟨outcome, ended⟩ := together.mp ⟨_, reduced⟩
  obtain ⟨same, status, _⟩ := agree _ outcome reduced ended
  exact ⟨outcome, ended, same, status⟩

end Plan
end LambdaCalculus
