import LambdaCalculus.Proofs.Reduction.Closedness
import LambdaCalculus.Proofs.Reduction.Termination
import LambdaCalculus.Proofs.Reduction.WordContraction

/-!
# The two strategies agree

On a closed term the head steps of the two strategies are the same, although one
substitutes verbatim and the other raises and lowers indices: the argument of
the redex is closed, and its body has no other free index.  So the head strategy
performs the first leftmost steps of the full one.  Without limits the full
strategy does the rest of its work on what the head strategy leaves, and it does
not end where the head strategy does not.
-/

namespace LambdaCalculus

/-! ## Head steps of closed terms -/

/-- In words, too, both contractions of a closed redex are the same. -/
theorem Term.contract_eq_substituteWrapping
    (bodyClosed : body.closedUnder 1 = true)
    (argumentClosed : argument.closed = true)
    (fits : ContractionFits body argument) :
    body.contract argument = some (body.substituteWrapping 0 argument) := by
  have verbatim := Strategy.weakHead.contractInWords_eq fits
  have same : Strategy.weakHead.contract body argument =
      Strategy.full.contract body argument :=
    substitute_eq_instantiateAt bodyClosed argumentClosed
  rw [same, ← Strategy.full.contractInWords_eq fits] at verbatim
  exact verbatim.symm

/-- On a closed term both strategies perform the same head step. -/
theorem HeadStep.weakHead_iff_full
    (closed : start.closed = true) :
    HeadStep .weakHead start finish ↔ HeadStep .full start finish := by
  constructor
  · intro step
    exact (step.full_of_closed closed).1
  · intro step
    have redex := (HeadStep.exists_iff .full start).mp ⟨finish, step⟩
    obtain ⟨next, verbatim⟩ := (HeadStep.exists_iff .weakHead start).mpr redex
    have same := (verbatim.full_of_closed closed).1.deterministic step
    rwa [same] at verbatim

/-- On a closed term both strategies perform the same head steps one after
another, because these leave closed terms. -/
theorem Steps.weakHead_iff_full
    (closed : start.closed = true) :
    Steps (HeadStep .weakHead) count start finish ↔
      Steps (HeadStep .full) count start finish := by
  induction count generalizing start with
  | zero =>
      constructor <;> rintro ⟨⟩ <;> exact .refl _
  | succ count inductionHypothesis =>
      have next : ∀ {middle}, HeadStep .weakHead start middle ->
          middle.closed = true :=
        fun step => (step.full_of_closed closed).2
      constructor
      · rintro (_ | ⟨first, rest⟩)
        exact .cons ((HeadStep.weakHead_iff_full closed).mp first)
          ((inductionHypothesis (next first)).mp rest)
      · rintro (_ | ⟨first, rest⟩)
        have verbatim := (HeadStep.weakHead_iff_full closed).mpr first
        exact .cons verbatim ((inductionHypothesis (next verbatim)).mpr rest)

/-! ## Normal forms -/

/-- Leftmost steps to a term without a redex lead to one term, in one number of
steps. -/
theorem Steps.normal_unique
    (left : Steps LeftmostStep count start finish)
    (normal : finish.hasRedex = false)
    (right : Steps LeftmostStep otherCount start other)
    (otherNormal : other.hasRedex = false) :
    count = otherCount ∧ finish = other := by
  have normalizes : start.NormalizesIn count := ⟨finish, left, normal⟩
  obtain ⟨rest, rfl, reached, further, _⟩ := normalizes.after right
  cases further with
  | cons step _ =>
      rw [step.hasRedex] at otherNormal
      cases otherNormal
  | refl =>
      exact ⟨rfl, left.unique (fun _ _ _ => LeftmostStep.deterministic) right⟩

namespace Plan

/-- The run ends. -/
def Ends
    (plan : Plan)
    (term : Term) : Prop :=
  ∃ outcome, plan.EndsWith term outcome

/-- Where leftmost steps lead from one term to another, the full strategy ends on
the one exactly if it does on the other. -/
theorem ends_iff_of_leftmostSteps
    {traced : Bool}
    (steps : Steps LeftmostStep count start middle) :
    (Plan.mk .full .unlimited traced).Ends start ↔
      (Plan.mk .full .unlimited traced).Ends middle := by
  constructor
  · rintro ⟨outcome, ended⟩
    obtain ⟨_, normal, wholeSteps⟩ := ended.leftmostSteps
    have normalizes : start.NormalizesIn outcome.steps :=
      ⟨outcome.term, wholeSteps, normal⟩
    obtain ⟨rest, _, finish, restSteps, finishNormal⟩ := normalizes.after steps
    exact exists_endsWith_of_leftmost traced restSteps.reflTransGen finishNormal
  · rintro ⟨outcome, ended⟩
    obtain ⟨_, normal, restSteps⟩ := ended.leftmostSteps
    exact exists_endsWith_of_leftmost traced
      (steps.trans restSteps).reflTransGen normal

/-- If the full strategy ends on a closed term, so does the head strategy. -/
theorem Ends.weakHead
    {traced : Bool}
    (closed : term.closed = true)
    (ends : (Plan.mk .full .unlimited traced).Ends term) :
    (Plan.mk .weakHead .unlimited traced).Ends term := by
  obtain ⟨outcome, ended⟩ := ends
  obtain ⟨_, normal, steps⟩ := ended.leftmostSteps
  have normalizes : term.NormalizesIn outcome.steps :=
    ⟨outcome.term, steps, normal⟩
  obtain ⟨headCount, finish, headSteps, final⟩ := normalizes.headSteps
  exact exists_endsWith traced
    ((Steps.weakHead_iff_full closed).mpr headSteps) final

/-- Without limits, on a closed term: where the head strategy ends, the full
strategy ends on the term exactly if it ends on what the head strategy leaves;
then it gives the same term, with the same spans, and the steps add up.  Where
the head strategy does not end, the full strategy does not end either.  In words
the two contractions of a closed redex are the same where its indices fit. -/
theorem run_full_through_weakHead
    (traced : Bool)
    (term : Term)
    (closed : term.closed = true) :
    (∀ head, (Plan.mk .weakHead .unlimited traced).EndsWith term head ->
      head.status = .normal ∧
      ((Plan.mk .full .unlimited traced).Ends term ↔
        (Plan.mk .full .unlimited traced).Ends head.term) ∧
      ∀ whole rest,
        (Plan.mk .full .unlimited traced).EndsWith term whole ->
        (Plan.mk .full .unlimited traced).EndsWith head.term rest ->
          whole.term = rest.term ∧
            whole.status = .normal ∧ rest.status = .normal ∧
            whole.steps = head.steps + rest.steps) ∧
    (¬ (Plan.mk .weakHead .unlimited traced).Ends term ->
      ¬ (Plan.mk .full .unlimited traced).Ends term) ∧
    (∀ body argument : Term,
      body.closedUnder 1 = true -> argument.closed = true ->
      Term.ContractionFits body argument ->
        body.contract argument =
          some (body.substituteWrapping 0 argument)) := by
  refine ⟨?ends, fun diverges ends => diverges (ends.weakHead closed),
    fun _ _ => Term.contract_eq_substituteWrapping⟩
  case ends =>
    intro head headEnded
    obtain ⟨headSteps, _, _⟩ := headEnded.headSteps
    have steps : Steps LeftmostStep head.steps term head.term :=
      ((Steps.weakHead_iff_full closed).mp headSteps).map id HeadStep.leftmost
    refine ⟨headEnded.status_of_closed closed, ends_iff_of_leftmostSteps steps,
      ?_⟩
    intro whole rest wholeEnded restEnded
    obtain ⟨wholeStatus, wholeNormal, wholeSteps⟩ := wholeEnded.leftmostSteps
    obtain ⟨restStatus, restNormal, restSteps⟩ := restEnded.leftmostSteps
    obtain ⟨counts, terms⟩ := wholeSteps.normal_unique wholeNormal
      (steps.trans restSteps) restNormal
    exact ⟨terms, wholeStatus, restStatus, counts⟩

/-- On `(λ. λ. (λ. 0) 1) (λ. 0)` the head strategy takes one step and leaves
`λ. (λ. 0) (λ. 0)`; the full strategy takes one step more.  The first redex is
contracted alike in words. -/
theorem run_full_through_weakHead_under :
    let identity := Term.abs ⟨0, 5, 8⟩ none (.var ⟨0, 7, 8⟩ 0)
    let inner := fun argument =>
      Term.abs ⟨0, 3, 12⟩ none (.app ⟨0, 4, 11⟩ identity argument)
    let body := inner (.var ⟨0, 9, 10⟩ 1)
    let term := Term.app ⟨0, 0, 20⟩ (.abs ⟨0, 1, 12⟩ none body) identity
    let finish := Term.abs ⟨0, 3, 12⟩ none identity
    term.closed = true ∧
      (Plan.mk .weakHead .unlimited false).EndsWith term
        ⟨inner identity, .normal, 1, []⟩ ∧
      (Plan.mk .full .unlimited false).EndsWith (inner identity)
        ⟨finish, .normal, 1, []⟩ ∧
      ∃ whole, (Plan.mk .full .unlimited false).EndsWith term whole ∧
        whole.term = finish ∧ whole.steps = 2 ∧
        Term.ContractionFits body identity ∧
        body.contract identity = some (body.substituteWrapping 0 identity) := by
  intro identity inner body term finish
  have closed : term.closed = true := by decide
  have headEnded : (Plan.mk .weakHead .unlimited false).EndsWith term
      ⟨inner identity, .normal, 1, []⟩ :=
    ⟨2, by decide⟩
  have restEnded : (Plan.mk .full .unlimited false).EndsWith (inner identity)
      ⟨finish, .normal, 1, []⟩ :=
    ⟨4, by decide⟩
  have fits : Term.ContractionFits body identity :=
    ⟨by decide, by decide, by decide⟩
  obtain ⟨ends, _, words⟩ := run_full_through_weakHead false term closed
  obtain ⟨_, together, agree⟩ := ends _ headEnded
  obtain ⟨whole, wholeEnded⟩ := together.mpr ⟨_, restEnded⟩
  obtain ⟨sameTerm, _, _, counts⟩ := agree whole _ wholeEnded restEnded
  exact ⟨closed, headEnded, restEnded, whole, wholeEnded, sameTerm, counts,
    fits, words body identity (by decide) (by decide) fits⟩

end Plan
end LambdaCalculus
