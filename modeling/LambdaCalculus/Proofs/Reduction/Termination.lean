import LambdaCalculus.Proofs.Reduction.Fuel
import LambdaCalculus.Proofs.Reduction.Normalize
import LambdaCalculus.Proofs.Reduction.Standard

/-!
# Finding normal forms

Without limits a run of the full strategy ends when finitely many leftmost steps
lead to a term without a redex.  As leftmost steps find every normal form that
contractions in any order find, so does the run: also where some argument has
no normal form at all and has to be discarded.
-/

namespace LambdaCalculus

/-! ## Counted leftmost steps to a normal form -/

/-- So many leftmost steps lead to a term without a redex. -/
def Term.NormalizesIn
    (count : Nat)
    (term : Term) : Prop :=
  ∃ finish, Steps LeftmostStep count term finish ∧ finish.hasRedex = false

namespace Term

theorem exists_normalizesIn
    (steps : LeftmostSteps term finish)
    (normal : finish.hasRedex = false) :
    ∃ count, term.NormalizesIn count := by
  induction steps using Relation.ReflTransGen.head_induction_on with
  | refl => exact ⟨0, finish, Steps.refl finish, normal⟩
  | head first rest inductionHypothesis =>
      obtain ⟨count, reached, steps, reachedNormal⟩ := inductionHypothesis
      exact ⟨count + 1, reached, Steps.cons first steps, reachedNormal⟩

/-- Leftmost steps that have been performed are the first of those that lead to
the normal form. -/
theorem NormalizesIn.after
    {count : Nat}
    {start middle : Term}
    (normalizes : start.NormalizesIn count)
    (steps : Steps LeftmostStep first start middle) :
    ∃ rest, count = first + rest ∧ middle.NormalizesIn rest := by
  induction steps generalizing count with
  | refl term => exact ⟨count, (Nat.zero_add count).symm, normalizes⟩
  | @cons start middle first finish step steps inductionHypothesis =>
      obtain ⟨reached, toReached, normal⟩ := normalizes
      cases toReached with
      | refl =>
          rw [step.hasRedex] at normal
          cases normal
      | @cons _ other count _ otherStep otherSteps =>
          rw [otherStep.deterministic step] at otherSteps
          obtain ⟨rest, rfl, restNormalizes⟩ :=
            inductionHypothesis ⟨reached, otherSteps, normal⟩
          exact ⟨rest, by omega, restNormalizes⟩

/-- A term with a normal form has one without a redex at its head, and head
steps lead to it. -/
theorem NormalizesIn.headSteps
    {count : Nat}
    {term : Term}
    (normalizes : term.NormalizesIn count) :
    ∃ headCount finish, Steps (HeadStep .full) headCount term finish ∧
      finish.hasHeadRedex = false := by
  induction count generalizing term with
  | zero =>
      obtain ⟨finish, steps, normal⟩ := normalizes
      cases steps
      refine ⟨0, _, Steps.refl _, ?_⟩
      cases redex : term.hasHeadRedex with
      | false => rfl
      | true =>
          rw [hasRedex_of_hasHeadRedex redex] at normal
          cases normal
  | succ count inductionHypothesis =>
      cases redex : term.hasHeadRedex with
      | false => exact ⟨0, term, Steps.refl term, redex⟩
      | true =>
          obtain ⟨next, step⟩ := (HeadStep.exists_iff .full term).mpr redex
          obtain ⟨rest, counted, nextNormalizes⟩ :=
            normalizes.after (Steps.single step.leftmost)
          obtain rfl : count = rest := by omega
          obtain ⟨headCount, finish, steps, final⟩ :=
            inductionHypothesis nextNormalizes
          exact ⟨headCount + 1, finish, Steps.cons step steps, final⟩

theorem NormalizesIn.body
    {count : Nat}
    {span : Span}
    {body : Term}
    (normalizes : (abs span declared body).NormalizesIn count) :
    body.NormalizesIn count := by
  induction count generalizing body with
  | zero =>
      obtain ⟨finish, steps, normal⟩ := normalizes
      cases steps
      exact ⟨body, Steps.refl body, normal⟩
  | succ count inductionHypothesis =>
      obtain ⟨finish, steps, normal⟩ := normalizes
      cases steps with
      | cons first rest =>
          cases first with
          | body _ _ step =>
              obtain ⟨reached, bodySteps, bodyNormal⟩ :=
                inductionHypothesis ⟨finish, rest, normal⟩
              exact ⟨reached, Steps.cons step bodySteps, bodyNormal⟩

/-! ### Neutral terms -/

/-- The head of the term is a variable. -/
def isNeutral (term : Term) : Bool :=
  !term.isAbstraction && !term.hasHeadRedex

theorem isNeutral_app
    (span : Span)
    (function argument : Term) :
    (app span function argument).isNeutral = function.isNeutral := by
  simp [isNeutral]

theorem isAbstraction_of_isNeutral
    {term : Term}
    (neutral : term.isNeutral = true) :
    term.isAbstraction = false := by
  simp only [isNeutral, Bool.and_eq_true, Bool.not_eq_true'] at neutral
  exact neutral.1

/-- Contractions leave the head of a neutral term alone. -/
theorem isNeutral_of_leftmostStep
    (step : LeftmostStep start finish)
    (neutral : start.isNeutral = true) :
    finish.isNeutral = true := by
  induction step with
  | contract => cases neutral
  | body => cases neutral
  | function span argument applied step inductionHypothesis =>
      rw [isNeutral_app] at neutral ⊢
      exact inductionHypothesis neutral
  | argument span applied normal step inductionHypothesis =>
      rw [isNeutral_app] at neutral ⊢
      exact neutral

/-- The function and the argument of a neutral application are normalized
independently. -/
theorem NormalizesIn.parts
    {count : Nat}
    {span : Span}
    {function argument : Term}
    (normalizes : (app span function argument).NormalizesIn count)
    (neutral : function.isNeutral = true) :
    (∃ fewer, fewer ≤ count ∧ function.NormalizesIn fewer) ∧
      ∃ fewer, fewer ≤ count ∧ argument.NormalizesIn fewer := by
  have applied := isAbstraction_of_isNeutral neutral
  induction count generalizing function argument with
  | zero =>
      obtain ⟨finish, steps, normal⟩ := normalizes
      cases steps
      simp only [hasRedex_app, Bool.or_eq_false_iff] at normal
      exact ⟨⟨0, Nat.le_refl 0, function, Steps.refl function, normal.1.2⟩,
        ⟨0, Nat.le_refl 0, argument, Steps.refl argument, normal.2⟩⟩
  | succ count inductionHypothesis =>
      obtain ⟨finish, steps, normal⟩ := normalizes
      cases steps with
      | cons first rest =>
          cases first with
          | contract => cases applied
          | function _ _ _ step =>
              have stillNeutral := isNeutral_of_leftmostStep step neutral
              obtain ⟨⟨fewer, bound, reached, steps, reachedNormal⟩,
                  other, otherBound, argumentNormalizes⟩ :=
                inductionHypothesis ⟨finish, rest, normal⟩ stillNeutral
                  (isAbstraction_of_isNeutral stillNeutral)
              exact ⟨⟨fewer + 1, by omega, reached, Steps.cons step steps,
                reachedNormal⟩, other, by omega, argumentNormalizes⟩
          | argument _ _ _ step =>
              obtain ⟨⟨other, otherBound, functionNormalizes⟩,
                  fewer, bound, reached, steps, reachedNormal⟩ :=
                inductionHypothesis ⟨finish, rest, normal⟩ neutral applied
              exact ⟨⟨other, by omega, functionNormalizes⟩,
                fewer + 1, by omega, reached, Steps.cons step steps,
                reachedNormal⟩

/-- So are all arguments behind a neutral head. -/
theorem NormalizesIn.frames
    {count : Nat}
    {head : Term}
    {spine : Spine}
    (normalizes : (spine.rebuild head).NormalizesIn count)
    (neutral : head.isNeutral = true) :
    (∃ fewer, fewer ≤ count ∧ head.NormalizesIn fewer) ∧
      ∀ frame ∈ spine, ∃ fewer, fewer ≤ count ∧
        frame.argument.NormalizesIn fewer := by
  induction spine generalizing head with
  | nil => exact ⟨⟨count, Nat.le_refl count, normalizes⟩, by simp⟩
  | cons frame rest inductionHypothesis =>
      obtain ⟨⟨fewer, bound, appNormalizes⟩, others⟩ :=
        inductionHypothesis normalizes
          (by rw [isNeutral_app]; exact neutral)
      obtain ⟨⟨least, leastBound, headNormalizes⟩,
          first, firstBound, firstNormalizes⟩ := appNormalizes.parts neutral
      refine ⟨⟨least, by omega, headNormalizes⟩, ?_⟩
      intro other member
      rcases List.mem_cons.mp member with rfl | inRest
      · exact ⟨first, by omega, firstNormalizes⟩
      · exact others other inRest

theorem nodeCount_le_rebuild
    (spine : Spine)
    (head : Term) :
    head.nodeCount ≤ (spine.rebuild head).nodeCount := by
  induction spine generalizing head with
  | nil => exact Nat.le_refl _
  | cons frame rest inductionHypothesis =>
      have bound := inductionHypothesis (app frame.span head frame.argument)
      simp only [nodeCount_app, Spine.rebuild_cons] at bound ⊢
      omega

/-- The arguments of a spine are smaller than the whole term. -/
theorem nodeCount_lt_rebuild
    {frame : Frame}
    {spine : Spine}
    (head : Term)
    (member : frame ∈ spine) :
    frame.argument.nodeCount < (spine.rebuild head).nodeCount := by
  induction spine generalizing head with
  | nil => cases member
  | cons first rest inductionHypothesis =>
      rcases List.mem_cons.mp member with rfl | inRest
      · have bound :=
          nodeCount_le_rebuild rest (app frame.span head frame.argument)
        simp only [nodeCount_app, Spine.rebuild_cons] at bound ⊢
        omega
      · exact inductionHypothesis _ inRest

end Term

/-! ## Runs of the full strategy -/

namespace Plan

/-- Normalizing the term ends, whatever came before. -/
def NormalizingEnds
    (plan : Plan)
    (term : Term) : Prop :=
  ∀ before, ∃ fuel result, plan.normalize fuel term before = some result

/-- Normalizing a spine ends if it does for each argument. -/
theorem exists_normalizeSpine
    (plan : Plan)
    (spine : Spine)
    (before : Progress)
    (ends : ∀ frame ∈ spine, plan.NormalizingEnds frame.argument) :
    ∃ fuel result, plan.normalizeSpine fuel spine before = some result := by
  induction spine generalizing before with
  | nil => exact ⟨1, _, rfl⟩
  | cons frame rest inductionHypothesis =>
      by_cases going : before.status = .normal
      · obtain ⟨fuel, first, argumentRan⟩ :=
          ends frame List.mem_cons_self before
        obtain ⟨restFuel, others, restRan⟩ := inductionHypothesis first.2
          fun other member => ends other (List.mem_cons_of_mem frame member)
        have argumentRanMore :=
          (normalize_mono plan (Nat.le_max_left fuel restFuel)).1 _ _ _
            argumentRan
        have restRanMore :=
          (normalize_mono plan (Nat.le_max_right fuel restFuel)).2 _ _ _
            restRan
        refine ⟨max fuel restFuel + 1,
          ({ frame with argument := first.1 } :: others.1, others.2), ?_⟩
        rw [normalizeSpine_cons _ frame rest going, argumentRanMore,
          Option.bind_some, restRanMore, Option.map_some]
      · refine ⟨1, (frame :: rest, before), ?_⟩
        rw [normalizeSpine_succ, if_neg going]

/-- One level of normalization ends if normalization ends for the parts that
its head run leaves. -/
theorem exists_normalize_of_headRun
    {plan : Plan}
    (headRan : plan.headRun fuel term [] before = some (head, spine, after))
    (bodyEnds : ∀ span declared body, head = .abs span declared body ->
      plan.NormalizingEnds body)
    (argumentEnds : ∀ frame ∈ spine, plan.NormalizingEnds frame.argument) :
    ∃ fuel result, plan.normalize fuel term before = some result := by
  by_cases going : after.status = .normal
  · have whole := isApplication_of_headRun headRan going
    cases head with
    | app span function argument => cases whole
    | abs span declared body =>
        obtain ⟨bodyFuel, reached, bodyRan⟩ :=
          bodyEnds span declared body rfl after
        have headRanMore := headRun_mono (Nat.le_max_left fuel bodyFuel) headRan
        have bodyRanMore :=
          (normalize_mono plan (Nat.le_max_right fuel bodyFuel)).1 _ _ _ bodyRan
        refine ⟨max fuel bodyFuel + 1,
          (spine.rebuild (.abs span declared reached.1), reached.2), ?_⟩
        rw [normalize_of_abs headRanMore going, bodyRanMore, Option.map_some]
    | var span index =>
        obtain ⟨spineFuel, reached, spineRan⟩ :=
          exists_normalizeSpine plan spine after argumentEnds
        have headRanMore :=
          headRun_mono (Nat.le_max_left fuel spineFuel) headRan
        have spineRanMore :=
          (normalize_mono plan (Nat.le_max_right fuel spineFuel)).2 _ _ _
            spineRan
        refine ⟨max fuel spineFuel + 1,
          (reached.1.rebuild (.var span index), reached.2), ?_⟩
        rw [normalize_of_var headRanMore going, spineRanMore, Option.map_some]
  · exact ⟨fuel + 1, _, normalize_of_stopped headRan going⟩

/-- Normalization ends if the leftmost steps do.  Their number falls with every
step of the head run; where the head run performs none, the term falls apart into
smaller ones. -/
theorem normalizingEnds_of_normalizesIn
    {plan : Plan}
    {count : Nat}
    {term : Term}
    (full : plan.strategy = .full)
    (unlimited : plan.budget = .unlimited)
    (normalizes : term.NormalizesIn count) :
    plan.NormalizingEnds term := by
  induction count using Nat.strongRecOn generalizing term with
  | ind count fewerSteps =>
  induction size : term.nodeCount using Nat.strongRecOn generalizing term with
  | ind size smallerTerms =>
  intro before
  obtain ⟨headCount, finish, headSteps, final⟩ := normalizes.headSteps
  rw [← full] at headSteps
  obtain ⟨fuel, ⟨head, spine, after⟩, headRan⟩ :=
    exists_headRun plan term [] before unlimited headSteps final
  have ran := headRan_of_headRun headRan
  obtain ⟨_, whole, noRedex⟩ := ran.ended.final_of_unlimited unlimited
  obtain ⟨performed, _, steps⟩ := ran.steps
  rw [full] at steps
  obtain ⟨rest, counted, normalizesRest⟩ :=
    normalizes.after (steps.map id HeadStep.leftmost)
  have partEnds : ∀ (part : Term) (fewer : Nat), fewer ≤ rest ->
      part.nodeCount < (spine.rebuild head).nodeCount ->
      part.NormalizesIn fewer -> plan.NormalizingEnds part := by
    intro part fewer bound smaller partNormalizes
    cases steps with
    | cons first others =>
        exact fewerSteps fewer (by omega) partNormalizes
    | refl =>
        rcases Nat.lt_or_eq_of_le bound with less | same
        · exact fewerSteps fewer (by omega) partNormalizes
        · obtain rfl : fewer = count := by omega
          exact smallerTerms part.nodeCount (size ▸ smaller) partNormalizes rfl
  apply exists_normalize_of_headRun headRan
  · rintro span declared body rfl
    obtain rfl := Term.spine_eq_nil_of_abs noRedex
    exact partEnds body rest (Nat.le_refl rest) (by simp)
      normalizesRest.body
  · intro frame member
    cases head with
    | app span function argument => cases whole
    | abs span declared body =>
        obtain rfl := Term.spine_eq_nil_of_abs noRedex
        cases member
    | var span index =>
        obtain ⟨fewer, bound, argumentNormalizes⟩ :=
          (normalizesRest.frames rfl).2 frame member
        exact partEnds frame.argument fewer bound
          (Term.nodeCount_lt_rebuild _ member) argumentNormalizes

/-! ## Contractions in any order -/

/-- Without limits a run of the full strategy ends if the leftmost steps do. -/
theorem exists_endsWith_of_leftmost
    (traced : Bool)
    (steps : LeftmostSteps term finish)
    (normal : finish.hasRedex = false) :
    ∃ outcome, (Plan.mk .full .unlimited traced).EndsWith term outcome := by
  obtain ⟨count, normalizes⟩ := Term.exists_normalizesIn steps normal
  have ends : (Plan.mk .full .unlimited traced).NormalizingEnds term :=
    normalizingEnds_of_normalizesIn rfl rfl normalizes
  obtain ⟨fuel, result, normalized⟩ := ends .start
  refine ⟨result.2.outcome result.1, fuel, ?_⟩
  rw [run_full rfl, normalized, Option.map_some]

/-- Without limits the term of a run that ends has no redex, and the leftmost
steps that the run counts lead to it. -/
theorem EndsWith.leftmostSteps
    {traced : Bool}
    (ended : (Plan.mk .full .unlimited traced).EndsWith term outcome) :
    outcome.status = .normal ∧ outcome.term.hasRedex = false ∧
      Steps LeftmostStep outcome.steps term outcome.term := by
  obtain ⟨progress, isOutcome, performs, fullEnd⟩ := performs_of_endsWith rfl ended
  have sameStatus : outcome.status = progress.status := by
    rw [isOutcome]
    rfl
  obtain ⟨count, counted, steps⟩ := performs.steps
  have sameCount : outcome.steps = count := by
    rw [isOutcome]
    exact counted.trans (Nat.zero_add count)
  rw [sameStatus, sameCount]
  cases fullEnd with
  | normal status noRedex => exact ⟨status, noRedex, steps⟩
  | stepLimit status exhausted redex => cases exhausted
  | sizeLimit status limited => exact absurd rfl limited

theorem EndsWith.leftmost
    {traced : Bool}
    (ended : (Plan.mk .full .unlimited traced).EndsWith term outcome) :
    outcome.status = .normal ∧ outcome.term.hasRedex = false ∧
      LeftmostSteps term outcome.term := by
  obtain ⟨status, noRedex, steps⟩ := ended.leftmostSteps
  exact ⟨status, noRedex, steps.reflTransGen⟩

end Plan

/-- One contraction of any redex, whatever the spans of the two terms. -/
def BetaStepUpToSpans
    (start finish : Term) : Prop :=
  ∃ before after, start.alike before = true ∧ BetaStep before after ∧
    after.alike finish = true

/-- Any sequence of contractions can be put into standard order. -/
theorem Standard.of_betaSteps
    (steps : Relation.ReflTransGen BetaStepUpToSpans start finish) :
    Standard start finish := by
  induction steps with
  | refl => exact Standard.refl start
  | tail steps step inductionHypothesis =>
      obtain ⟨before, after, sameStart, contracted, sameFinish⟩ := step
      exact ((inductionHypothesis.alike sameStart).beta contracted).alike
        sameFinish

/-- If contractions in some order lead from a term to one without a redex, the
run of the full strategy without limits ends, and it ends with that term. -/
theorem Plan.run_full_of_betaSteps
    (traced : Bool)
    (term normalForm : Term)
    (steps : Relation.ReflTransGen BetaStepUpToSpans term normalForm)
    (normal : normalForm.hasRedex = false) :
    (∃ outcome, (Plan.mk .full .unlimited traced).EndsWith term outcome) ∧
      ∀ outcome, (Plan.mk .full .unlimited traced).EndsWith term outcome ->
        outcome.status = .normal ∧
          outcome.term.alike normalForm = true := by
  obtain ⟨reached, leftmost, same⟩ :=
    (Standard.of_betaSteps steps).leftmost normal
  have reachedNormal : reached.hasRedex = false := by
    rw [Term.hasRedex_of_alike same, normal]
  refine ⟨exists_endsWith_of_leftmost traced leftmost reachedNormal, ?_⟩
  intro outcome ended
  obtain ⟨status, outcomeNormal, outcomeSteps⟩ := ended.leftmost
  rw [outcomeSteps.unique outcomeNormal leftmost reachedNormal]
  exact ⟨status, same⟩

/-- In `(λ. λ. 1 0) ((λ. 4) Ω)`, where `Ω` is `(λ. 0 0) (λ. 0 0)`, a contraction
of `Ω` gives `Ω` again.  After it the argument is contracted to `3`, and then it
takes its place under the remaining binder as `4`.  The run, which contracts at
the head first, ends with the same `λ. 4 0`. -/
theorem Plan.run_full_of_betaSteps_inside_out :
    let double := Term.abs .nowhere none
      (.app .nowhere (.var .nowhere 0) (.var .nowhere 0))
    let omega := Term.app .nowhere double double
    let function := Term.abs .nowhere none (.abs .nowhere none
      (.app .nowhere (.var .nowhere 1) (.var .nowhere 0)))
    let argument := Term.app .nowhere (.abs .nowhere none (.var .nowhere 4))
      omega
    let term := Term.app .nowhere function argument
    let finish := Term.abs .nowhere none
      (.app .nowhere (.var .nowhere 4) (.var .nowhere 0))
    Relation.ReflTransGen BetaStepUpToSpans term finish ∧
      finish.hasRedex = false ∧
      ∃ outcome, (Plan.mk .full .unlimited false).EndsWith term outcome ∧
        outcome.status = .normal ∧ outcome.term.alike finish = true := by
  intro double omega function argument term finish
  let reduced := Term.app .nowhere function (.var .nowhere 3)
  have inside : BetaStepUpToSpans term term :=
    ⟨term, term, by decide, BetaStep.argument .nowhere function
      (BetaStep.argument .nowhere _
        (BetaStep.contract .nowhere .nowhere none _ double)), by decide⟩
  have between : BetaStepUpToSpans term reduced :=
    ⟨term, reduced, by decide, BetaStep.argument .nowhere function
      (BetaStep.contract .nowhere .nowhere none (.var .nowhere 4) omega),
      by decide⟩
  have outside : BetaStepUpToSpans reduced finish :=
    ⟨reduced, finish, by decide,
      BetaStep.contract .nowhere .nowhere none _ (.var .nowhere 3), by decide⟩
  have steps : Relation.ReflTransGen BetaStepUpToSpans term finish :=
    .tail (.tail (.single inside) between) outside
  obtain ⟨⟨outcome, ended⟩, agrees⟩ :=
    run_full_of_betaSteps false term finish steps rfl
  exact ⟨steps, rfl, outcome, ended, agrees outcome ended⟩

end LambdaCalculus
