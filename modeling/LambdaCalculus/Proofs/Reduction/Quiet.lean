import LambdaCalculus.Proofs.Reduction.Invariants
import LambdaCalculus.Proofs.Reduction.Termination

/-!
# Quiet runs

A run that is not traced records nothing.  A run on a term in which the strategy
finds no redex does nothing: whatever the budget, it ends at once and gives the
term back.
-/

namespace LambdaCalculus
namespace Plan

/-! ## Runs that are not traced -/

theorem observe_of_untraced
    {plan : Plan}
    (untraced : plan.traced = false)
    (progress : Progress)
    (head : Term)
    (spine : Spine) :
    plan.observe progress head spine = progress := by
  rw [observe, untraced]
  rfl

theorem keeps_of_untraced
    {plan : Plan}
    (untraced : plan.traced = false) :
    plan.Keeps fun progress => progress.observations = [] where
  contracted progress head spine _ nothing := by
    rw [observe_of_untraced untraced]
    exact nothing
  exhausted _ _ nothing := nothing
  exceeded _ _ nothing := nothing

/-- A run that is not traced records nothing. -/
theorem EndsWith.trace_eq_nil
    {plan : Plan}
    (untraced : plan.traced = false)
    (ended : plan.EndsWith term outcome) :
    outcome.trace = [] := by
  obtain ⟨progress, nothing, _, sameTrace, _⟩ :=
    (keeps_of_untraced untraced).endsWith rfl ended
  rw [sameTrace, nothing, List.reverse_nil]

/-! ## Runs without a redex -/

/-- Normalizing the term changes nothing. -/
def Rests
    (plan : Plan)
    (term : Term) : Prop :=
  ∀ before : Progress, before.status = .normal ->
    ∃ fuel, plan.normalize fuel term before = some (term, before)

theorem exists_normalizeSpine_of_rests
    {plan : Plan}
    {spine : Spine}
    {before : Progress}
    (going : before.status = .normal)
    (rests : ∀ frame ∈ spine, plan.Rests frame.argument) :
    ∃ fuel, plan.normalizeSpine fuel spine before = some (spine, before) := by
  induction spine with
  | nil => exact ⟨1, rfl⟩
  | cons frame rest inductionHypothesis =>
      rw [List.forall_mem_cons] at rests
      obtain ⟨fuel, argumentRan⟩ := rests.1 before going
      obtain ⟨restFuel, restRan⟩ := inductionHypothesis rests.2
      have argumentRanMore :=
        (normalize_mono plan (Nat.le_max_left fuel restFuel)).1 _ _ _
          argumentRan
      have restRanMore :=
        (normalize_mono plan (Nat.le_max_right fuel restFuel)).2 _ _ _ restRan
      refine ⟨max fuel restFuel + 1, ?_⟩
      rw [normalizeSpine_cons _ frame rest going, argumentRanMore,
        Option.bind_some, restRanMore, Option.map_some]

/-- A term without a redex has none in its head nor in its arguments. -/
theorem hasRedex_of_rebuild
    {head : Term}
    {spine : Spine}
    (noRedex : (spine.rebuild head).hasRedex = false) :
    head.hasRedex = false ∧
      ∀ frame ∈ spine, frame.argument.hasRedex = false := by
  induction spine generalizing head with
  | nil => exact ⟨noRedex, nofun⟩
  | cons frame rest inductionHypothesis =>
      obtain ⟨application, others⟩ := inductionHypothesis noRedex
      rw [Term.hasRedex_app, Bool.or_eq_false_iff,
        Bool.or_eq_false_iff] at application
      exact ⟨application.1.2,
        List.forall_mem_cons.mpr ⟨application.2, others⟩⟩

theorem rests_of_hasRedex_eq_false
    (plan : Plan)
    {term : Term}
    (noRedex : term.hasRedex = false) :
    plan.Rests term := by
  induction nodes : term.nodeCount using Nat.strongRecOn generalizing term with
  | ind size smallerTerms =>
  intro before going
  have final : (Spine.rebuild term []).hasHeadRedex = false := by
    cases redex : term.hasHeadRedex with
    | false => exact redex
    | true =>
        rw [Term.hasRedex_of_hasHeadRedex redex] at noRedex
        cases noRedex
  have headRan := fun fuel => headRun_final plan fuel before final
  have rebuilt : (term.unwind []).2.rebuild (term.unwind []).1 = term :=
    term.rebuild_unwind []
  have whole := Term.isApplication_unwind term []
  generalize term.unwind [] = unwound at headRan rebuilt whole
  obtain ⟨head, spine⟩ := unwound
  subst rebuilt
  obtain ⟨headNormal, argumentsNormal⟩ := hasRedex_of_rebuild noRedex
  cases head with
  | app span function argument => cases whole
  | abs span declared body =>
      obtain rfl := Term.spine_eq_nil_of_abs final
      have smaller : body.nodeCount < size := by
        rw [← nodes]
        exact Nat.lt_succ_self _
      have bodyNormal : body.hasRedex = false := headNormal
      obtain ⟨fuel, bodyRan⟩ :=
        smallerTerms _ smaller bodyNormal rfl before going
      have bodyRanMore :=
        (normalize_mono plan (Nat.le_succ fuel)).1 _ _ _ bodyRan
      refine ⟨fuel + 1 + 1, ?_⟩
      rw [normalize_of_abs (headRan fuel) going, bodyRanMore, Option.map_some]
  | var span index =>
      have argumentsRest : ∀ frame ∈ spine, plan.Rests frame.argument := by
        intro frame member
        have smaller := Term.nodeCount_lt_rebuild (.var span index) member
        rw [nodes] at smaller
        exact smallerTerms _ smaller (argumentsNormal frame member) rfl
      obtain ⟨fuel, spineRan⟩ :=
        exists_normalizeSpine_of_rests going argumentsRest
      have spineRanMore :=
        (normalize_mono plan (Nat.le_succ fuel)).2 _ _ _ spineRan
      refine ⟨fuel + 1 + 1, ?_⟩
      rw [normalize_of_var (headRan fuel) going, spineRanMore, Option.map_some]

/-- The strategy is finished with the term.  The head strategy would be stuck
at a variable with arguments. -/
def Finished
    (plan : Plan)
    (term : Term) : Prop :=
  match plan.strategy with
  | .weakHead => term.isAbstraction = true
  | .full => term.hasRedex = false

/-- A run on a term that the strategy is finished with gives the term back
without a step. -/
theorem Finished.endsWith
    {plan : Plan}
    (finished : plan.Finished term) :
    plan.EndsWith term ⟨term, .normal, 0, []⟩ := by
  unfold Finished at finished
  split at finished
  next weakHead =>
      cases term with
      | var span index => cases finished
      | app span function argument => cases finished
      | abs span declared body =>
          refine ⟨1, ?_⟩
          rw [run_weakHead weakHead]
          rfl
  next full =>
      obtain ⟨fuel, normalized⟩ :=
        rests_of_hasRedex_eq_false plan finished .start rfl
      refine ⟨fuel, ?_⟩
      rw [run_full full]
      exact Option.map_eq_some_iff.mpr ⟨_, normalized, rfl⟩

/-- A run on a closed term that ends normally has finished with its term. -/
theorem finished_of_endsWith
    {plan : Plan}
    (closed : term.closed = true)
    (ended : plan.EndsWith term outcome)
    (normal : outcome.status = .normal) :
    plan.Finished outcome.term := by
  unfold Finished
  split
  next weakHead => exact ((plan.outcome_of_closed closed ended).2.2 weakHead).2 normal
  next full =>
      obtain ⟨progress, isOutcome, _, fullEnd⟩ := performs_of_endsWith full ended
      apply fullEnd.hasRedex_eq_false
      rw [← normal, isOutcome]
      rfl

end Plan
end LambdaCalculus
