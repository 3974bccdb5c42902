import LambdaCalculus.Proofs.Reduction.HeadRun

/-!
# Normalization is leftmost outermost reduction

Normalizing a term performs leftmost steps on it.  The head run at each level
contracts leftmost redexes of the whole term, because all levels around it
have been left without a redex to its left.  So wherever a limit stops the
run, the term that is put together again is the one that the counted leftmost
steps lead to.
-/

namespace LambdaCalculus

/-! ## Redexes in a spine -/

namespace Term

theorem hasRedex_of_hasHeadRedex
    {term : Term}
    (redex : term.hasHeadRedex = true) :
    term.hasRedex = true := by
  induction term with
  | var span index => cases redex
  | abs span declared body inductionHypothesis => cases redex
  | app span function argument functionHypothesis argumentHypothesis =>
      rw [hasHeadRedex_app, Bool.or_eq_true] at redex
      rw [hasRedex_app]
      rcases redex with applied | functionRedex
      · rw [applied, Bool.true_or, Bool.true_or]
      · rw [functionHypothesis functionRedex, Bool.or_true, Bool.true_or]

theorem hasRedex_rebuild
    {head : Term}
    (redex : head.hasRedex = true)
    (spine : Spine) :
    (spine.rebuild head).hasRedex = true := by
  induction spine generalizing head with
  | nil => exact redex
  | cons frame rest inductionHypothesis =>
      apply inductionHypothesis
      rw [hasRedex_app, redex, Bool.or_true, Bool.true_or]

end Term

namespace Plan

/-! ## Counted leftmost steps -/

/-- Part of a run leads from one term to another by the leftmost steps that it
counts, and stays within the budget. -/
structure Performs
    (plan : Plan)
    (start : Term)
    (before : Progress)
    (finish : Term)
    (after : Progress) : Prop where
  /-- The steps are leftmost ones. -/
  steps : ∃ count, after.steps = before.steps + count ∧
    Steps LeftmostStep count start finish
  /-- The steps are within the budget. -/
  permits : plan.budget.Permits before.steps ->
    plan.budget.Permits after.steps

namespace Performs

theorem refl
    (plan : Plan)
    (term : Term)
    (progress : Progress) :
    Performs plan term progress term progress :=
  ⟨⟨0, rfl, Steps.refl term⟩, id⟩

theorem trans
    (first : Performs plan start before middle between)
    (second : Performs plan middle between finish after) :
    Performs plan start before finish after := by
  obtain ⟨count, counted, steps⟩ := first.steps
  obtain ⟨more, moreCounted, moreSteps⟩ := second.steps
  refine ⟨⟨count + more, ?_, steps.trans moreSteps⟩, ?_⟩
  · rw [moreCounted, counted, Nat.add_assoc]
  · exact second.permits ∘ first.permits

theorem map
    (surround : Term -> Term)
    (carried : ∀ {start finish}, LeftmostStep start finish ->
      LeftmostStep (surround start) (surround finish))
    (performs : Performs plan start before finish after) :
    Performs plan (surround start) before (surround finish) after := by
  obtain ⟨count, counted, steps⟩ := performs.steps
  exact ⟨⟨count, counted, steps.map surround carried⟩, performs.permits⟩

end Performs

theorem HeadRan.performs
    {plan : Plan}
    (full : plan.strategy = .full)
    (ran : HeadRan plan start before head spine after) :
    Performs plan start before (spine.rebuild head) after := by
  obtain ⟨count, counted, steps⟩ := ran.steps
  rw [full] at steps
  exact ⟨⟨count, counted, steps.map id HeadStep.leftmost⟩, ran.permits⟩

/-- Why a run of the full strategy ends with a term, and the status that it
leaves for it. -/
inductive FullEnd
    (plan : Plan)
    (term : Term)
    (progress : Progress) : Prop
  | normal
      (status : progress.status = .normal)
      (noRedex : term.hasRedex = false)
  | stepLimit
      (status : progress.status = .stepLimit)
      (exhausted : plan.budget.stepsExhausted progress.steps = true)
      (redex : term.hasRedex = true)
  | sizeLimit
      (status : progress.status = .sizeLimit)
      (limited : plan.budget.maxNodes ≠ 0)

/-- A limit that stops the run inside a term stops it for the whole term. -/
theorem FullEnd.surround
    {inner outer : Term}
    {progress : Progress}
    (ended : FullEnd plan inner progress)
    (stopped : progress.status ≠ .normal)
    (redex : inner.hasRedex = true -> outer.hasRedex = true) :
    FullEnd plan outer progress := by
  cases ended with
  | normal status noRedex => exact absurd status stopped
  | stepLimit status exhausted innerRedex =>
      exact FullEnd.stepLimit status exhausted (redex innerRedex)
  | sizeLimit status limited => exact FullEnd.sizeLimit status limited

theorem FullEnd.hasRedex_eq_false
    {progress : Progress}
    (ended : FullEnd plan term progress)
    (going : progress.status = .normal) :
    term.hasRedex = false := by
  cases ended with
  | normal status noRedex => exact noRedex
  | stepLimit status exhausted redex =>
      rw [going] at status
      cases status
  | sizeLimit status limited =>
      rw [going] at status
      cases status

theorem maxNodes_ne_zero
    {budget : Budget}
    (exceeded : budget.nodesExceeded head spine = true) :
    budget.maxNodes ≠ 0 := by
  simp only [Budget.nodesExceeded, Bool.and_eq_true, bne_iff_ne] at exceeded
  exact exceeded.1

/-! ## One level -/

/-- Normalizing with this fuel performs leftmost steps. -/
def NormalizesLeftmost
    (plan : Plan)
    (fuel : Nat) : Prop :=
  ∀ {term before finish after},
    before.status = .normal ->
    plan.normalize fuel term before = some (finish, after) ->
    Performs plan term before finish after ∧ FullEnd plan finish after

/-- Normalizing the arguments of a head without a redex, with this fuel,
performs leftmost steps of the whole application. -/
def NormalizesSpineLeftmost
    (plan : Plan)
    (fuel : Nat) : Prop :=
  ∀ head {spine before finish after},
    head.isAbstraction = false ->
    head.hasRedex = false ->
    before.status = .normal ->
    plan.normalizeSpine fuel spine before = some (finish, after) ->
    Performs plan (spine.rebuild head) before (finish.rebuild head) after ∧
      FullEnd plan (finish.rebuild head) after

/-- A run that has been stopped leaves all arguments as they are. -/
theorem normalizeSpine_stopped
    {plan : Plan}
    {before : Progress}
    (ran : plan.normalizeSpine fuel spine before = some (finish, after))
    (stopped : before.status ≠ .normal) :
    finish = spine ∧ after = before := by
  cases fuel with
  | zero => cases ran
  | succ fuel =>
      cases spine with
      | nil =>
          cases ran
          exact ⟨rfl, rfl⟩
      | cons frame rest =>
          rw [normalizeSpine_succ, if_neg stopped] at ran
          cases ran
          exact ⟨rfl, rfl⟩

/-- One more level of fuel for a spine.  The arguments behind the one that is
normalized play no part in its steps. -/
theorem NormalizesSpineLeftmost.succ
    {plan : Plan}
    (terms : NormalizesLeftmost plan fuel)
    (spines : NormalizesSpineLeftmost plan fuel) :
    NormalizesSpineLeftmost plan (fuel + 1) := by
  intro head spine before finish after neutral normal status ran
  cases spine with
  | nil =>
      cases ran
      exact ⟨Performs.refl plan _ _, FullEnd.normal status normal⟩
  | cons frame rest =>
      rw [normalizeSpine_succ, if_pos status] at ran
      split at ran
      next => cases ran
      next argument between argumentRan =>
          split at ran
          next => cases ran
          next restFinish restAfter restRan =>
              cases ran
              obtain ⟨argumentPerforms, argumentEnded⟩ :=
                terms status argumentRan
              have performs := argumentPerforms.map
                (fun term => Spine.rebuild (.app frame.span head term) rest)
                (fun step => (LeftmostStep.argument frame.span neutral normal
                  step).rebuild rfl rest)
              by_cases going : between.status = .normal
              · have noRedex := argumentEnded.hasRedex_eq_false going
                have whole :
                    (Term.app frame.span head argument).hasRedex = false := by
                  rw [Term.hasRedex_app, neutral, normal, noRedex]
                  rfl
                obtain ⟨restPerforms, restEnded⟩ :=
                  spines _ rfl whole going restRan
                exact ⟨performs.trans restPerforms, restEnded⟩
              · obtain ⟨rfl, rfl⟩ := normalizeSpine_stopped restRan going
                refine ⟨performs, argumentEnded.surround going ?_⟩
                intro redex
                rw [Spine.rebuild_cons]
                apply Term.hasRedex_rebuild
                rw [Term.hasRedex_app, redex, Bool.or_true]

theorem NormalizesLeftmost.succ
    {plan : Plan}
    (full : plan.strategy = .full)
    (terms : NormalizesLeftmost plan fuel)
    (spines : NormalizesSpineLeftmost plan fuel) :
    NormalizesLeftmost plan (fuel + 1) := by
  intro term before finish after status ran
  rw [normalize_succ] at ran
  split at ran
  next => cases ran
  next head spine between headRun =>
      have headRan := headRan_of_headRun headRun
      have performs := headRan.performs full
      cases headRan.ended with
      | stepLimit limited exhausted redex =>
          rw [limited, if_neg (by decide)] at ran
          cases ran
          refine ⟨performs, FullEnd.stepLimit limited exhausted ?_⟩
          exact Term.hasRedex_of_hasHeadRedex redex
      | sizeLimit limited exceeded =>
          rw [limited, if_neg (by decide)] at ran
          cases ran
          exact ⟨performs,
            FullEnd.sizeLimit limited (maxNodes_ne_zero exceeded)⟩
      | final kept whole noRedex =>
          rw [status] at kept
          rw [if_pos kept] at ran
          cases head with
          | app span function argument => cases whole
          | var span index =>
              simp only at ran
              split at ran
              next => cases ran
              next spineFinish spineAfter spineRan =>
                  cases ran
                  obtain ⟨spinePerforms, ended⟩ :=
                    spines (.var span index) rfl rfl kept spineRan
                  exact ⟨performs.trans spinePerforms, ended⟩
          | abs span declared body =>
              obtain rfl := Term.spine_eq_nil_of_abs noRedex
              simp only at ran
              split at ran
              next => cases ran
              next bodyFinish bodyAfter bodyRan =>
                  cases ran
                  obtain ⟨bodyPerforms, ended⟩ := terms kept bodyRan
                  have inside := bodyPerforms.map (.abs span declared)
                    (LeftmostStep.body span declared)
                  refine ⟨performs.trans inside, ?_⟩
                  cases ended with
                  | normal status noRedex =>
                      exact FullEnd.normal status noRedex
                  | stepLimit status exhausted redex =>
                      exact FullEnd.stepLimit status exhausted redex
                  | sizeLimit status limited =>
                      exact FullEnd.sizeLimit status limited

/-! ## Whole runs -/

theorem normalizesLeftmost
    {plan : Plan}
    (full : plan.strategy = .full)
    (fuel : Nat) :
    NormalizesLeftmost plan fuel ∧ NormalizesSpineLeftmost plan fuel := by
  induction fuel with
  | zero =>
      constructor
      · intro term before finish after status ran
        cases ran
      · intro head spine before finish after neutral normal status ran
        cases ran
  | succ fuel inductionHypothesis =>
      obtain ⟨terms, spines⟩ := inductionHypothesis
      exact ⟨terms.succ full spines, spines.succ terms⟩

/-- A run of the full strategy, with any budget, performs the leftmost steps
that it counts. -/
theorem performs_of_endsWith
    {plan : Plan}
    (full : plan.strategy = .full)
    (ended : plan.EndsWith term outcome) :
    ∃ progress, outcome = progress.outcome outcome.term ∧
      Performs plan term .start outcome.term progress ∧
      FullEnd plan outcome.term progress := by
  obtain ⟨fuel, ran⟩ := ended
  rw [run_full full] at ran
  obtain ⟨⟨finish, progress⟩, normalized, rfl⟩ :=
    Option.map_eq_some_iff.mp ran
  obtain ⟨performs, ended⟩ :=
    (normalizesLeftmost full fuel).1 rfl normalized
  exact ⟨progress, rfl, performs, ended⟩

/-- Without a node limit a run of the full strategy gives the term that as many
leftmost outermost contractions as it counts lead to.  It is normal exactly
when that term has no redex; otherwise the step limit has been met. -/
theorem run_full_eq_leftmost
    (maxSteps : Nat)
    (traced : Bool)
    (term : Term)
    (outcome : Outcome)
    (ended : (Plan.mk .full ⟨maxSteps, 0⟩ traced).EndsWith term outcome) :
    (∀ finish, Steps LeftmostStep outcome.steps term finish ↔
        finish = outcome.term) ∧
      (outcome.status = .normal ↔ outcome.term.hasRedex = false) ∧
      (outcome.status ≠ .normal ->
        outcome.status = .stepLimit ∧ maxSteps ≠ 0 ∧
          outcome.steps = maxSteps ∧ outcome.term.hasRedex = true) := by
  obtain ⟨progress, isOutcome, performs, fullEnd⟩ := performs_of_endsWith rfl ended
  have steps : outcome.steps = progress.steps := by rw [isOutcome]; rfl
  have status : outcome.status = progress.status := by rw [isOutcome]; rfl
  obtain ⟨count, counted, leftmost⟩ := performs.steps
  rw [steps, status]
  refine ⟨?_, ?_⟩
  · intro finish
    have counts : progress.steps = count := by
      rw [counted]
      exact Nat.zero_add count
    rw [counts]
    constructor
    · intro other
      exact other.unique (fun _ _ _ => LeftmostStep.deterministic) leftmost
    · rintro rfl
      exact leftmost
  · cases fullEnd with
    | normal status noRedex =>
        constructor
        · rw [status, noRedex]
          exact ⟨fun _ => rfl, fun _ => rfl⟩
        · intro stopped
          exact absurd status stopped
    | sizeLimit status limited => exact absurd rfl limited
    | stepLimit status exhausted redex =>
        have permits := performs.permits (Budget.permits_zero _)
        obtain ⟨limited, met⟩ := permits.eq_maxSteps exhausted
        constructor
        · rw [status, redex]
          decide
        · intro _
          exact ⟨status, limited, met, redex⟩

/-- With one step `λ. 0 ((λ. λ. 1) (0 0) 0)` becomes `λ. 0 ((λ. 1 1) 0)`: the
argument takes the place of the variable and is raised over the binder that it
is carried under. -/
theorem run_full_eq_leftmost_argument :
    let zero := Term.var .nowhere 0
    let one := Term.var .nowhere 1
    let around := fun function => Term.abs .nowhere none
      (.app .nowhere zero (.app .nowhere function zero))
    let start := around (.app .nowhere
      (.abs .nowhere none (.abs .nowhere none one)) (.app .nowhere zero zero))
    let finish := around (.abs .nowhere none (.app .nowhere one one))
    (Plan.mk .full ⟨1, 0⟩ false).EndsWith start ⟨finish, .stepLimit, 1, []⟩ ∧
      Steps LeftmostStep 1 start finish ∧ finish.hasRedex = true := by
  intro zero one around start finish
  have ended : (Plan.mk .full ⟨1, 0⟩ false).EndsWith start
      ⟨finish, .stepLimit, 1, []⟩ :=
    ⟨6, by decide⟩
  obtain ⟨leftmost, _, limited⟩ :=
    run_full_eq_leftmost 1 false start _ ended
  exact ⟨ended, (leftmost _).mpr rfl, (limited (by decide)).2.2.2⟩

end Plan
end LambdaCalculus
