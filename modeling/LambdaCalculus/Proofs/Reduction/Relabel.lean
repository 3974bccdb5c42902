import LambdaCalculus.Proofs.Reduction.Fuel
import LambdaCalculus.Proofs.Term.Relabel

/-!
# Runs on relabeled terms

A run looks at the structure of its term and at no label.  So a run on a
relabeled term is the relabeled run: it takes the same steps, ends in the same
way and gives the relabeled term.  In particular it never invents a label.
-/

namespace LambdaCalculus

variable (change : Label -> Label)

/-! ## Spines -/

/-- The same argument with other labels. -/
def Frame.mapLabels (frame : Frame) : Frame where
  argument := frame.argument.mapLabels change
  span := (change ⟨frame.span, none⟩).span

/-- The same arguments with other labels. -/
def Spine.mapLabels (spine : Spine) : Spine :=
  spine.map (Frame.mapLabels change)

@[simp] theorem Frame.mapLabels_argument
    (frame : Frame) :
    (frame.mapLabels change).argument = frame.argument.mapLabels change :=
  rfl

@[simp] theorem Spine.mapLabels_nil :
    Spine.mapLabels change [] = [] :=
  rfl

@[simp] theorem Spine.mapLabels_cons
    (frame : Frame)
    (rest : Spine) :
    Spine.mapLabels change (frame :: rest) =
      frame.mapLabels change :: rest.mapLabels change :=
  rfl

theorem Term.mapLabels_rebuild
    (head : Term)
    (spine : Spine) :
    (spine.rebuild head).mapLabels change =
      (spine.mapLabels change).rebuild (head.mapLabels change) := by
  induction spine generalizing head with
  | nil => rfl
  | cons frame rest inductionHypothesis =>
      rw [Spine.rebuild_cons, inductionHypothesis]
      rfl

theorem Term.mapLabels_unwind
    (term : Term)
    (spine : Spine) :
    (term.mapLabels change).unwind (spine.mapLabels change) =
      ((term.unwind spine).1.mapLabels change,
        (term.unwind spine).2.mapLabels change) := by
  induction term generalizing spine with
  | var span index => rfl
  | abs span declared body bodyHypothesis => rfl
  | app span function argument functionHypothesis argumentHypothesis =>
      exact functionHypothesis (⟨argument, span⟩ :: spine)

theorem Budget.nodesExceeded_mapLabels
    (budget : Budget)
    (head : Term)
    (spine : Spine) :
    budget.nodesExceeded (head.mapLabels change) (spine.mapLabels change) =
      budget.nodesExceeded head spine := by
  rw [nodesExceeded, nodesExceeded, Spine.nodeCount_eq_nodeCount_rebuild,
    Spine.nodeCount_eq_nodeCount_rebuild, ← Term.mapLabels_rebuild,
    Term.nodeCount_mapLabels]

theorem Strategy.mapLabels_contract
    (strategy : Strategy)
    (body argument : Term) :
    (strategy.contract body argument).mapLabels change =
      strategy.contract (body.mapLabels change) (argument.mapLabels change) := by
  cases strategy with
  | weakHead => exact Term.mapLabels_substitute change body argument 0
  | full => exact Term.mapLabels_instantiateAt change body argument 0

/-! ## Runs -/

/-- The same observations with other labels. -/
def Progress.mapLabels (progress : Progress) : Progress :=
  { progress with
    observations := progress.observations.map fun observation =>
      ⟨observation.step, observation.focus.mapLabels change⟩ }

/-- The same outcome with other labels. -/
def Outcome.mapLabels (outcome : Outcome) : Outcome where
  term := outcome.term.mapLabels change
  status := outcome.status
  steps := outcome.steps
  trace := outcome.trace.map fun observation =>
    ⟨observation.step, observation.focus.mapLabels change⟩

theorem Progress.mapLabels_outcome
    (progress : Progress)
    (term : Term) :
    (progress.outcome term).mapLabels change =
      (progress.mapLabels change).outcome (term.mapLabels change) := by
  simp [Outcome.mapLabels, Progress.outcome, Progress.mapLabels,
    List.map_reverse]

namespace Plan

theorem mapLabels_observe
    (plan : Plan)
    (progress : Progress)
    (head : Term)
    (spine : Spine) :
    (plan.observe progress head spine).mapLabels change =
      plan.observe (progress.mapLabels change) (head.mapLabels change)
        (spine.mapLabels change) := by
  unfold observe
  split
  next => simp [Progress.mapLabels, Term.mapLabels_rebuild]
  next => rfl

theorem mapLabels_settle
    (head : Term)
    (spine : Spine)
    (progress : Progress) :
    (settle head spine progress).mapLabels change =
      settle (head.mapLabels change) (spine.mapLabels change)
        (progress.mapLabels change) := by
  obtain ⟨status, steps, observations⟩ := progress
  cases head with
  | abs span declared body => rfl
  | app span function argument => rfl
  | var span index =>
      cases spine with
      | nil => rfl
      | cons frame rest => cases status <;> rfl

theorem headRun_mapLabels
    (plan : Plan)
    (fuel : Nat)
    (term : Term)
    (pending : Spine)
    (progress : Progress) :
    plan.headRun fuel (term.mapLabels change) (pending.mapLabels change)
        (progress.mapLabels change) =
      (plan.headRun fuel term pending progress).map fun reached =>
        (reached.1.mapLabels change, reached.2.1.mapLabels change,
          reached.2.2.mapLabels change) := by
  induction fuel generalizing term pending progress with
  | zero => rfl
  | succ fuel inductionHypothesis =>
      have relabeled := Term.mapLabels_unwind change term pending
      cases unwound : term.unwind pending with
      | mk head spine =>
      rw [unwound] at relabeled
      cases head with
      | var span index =>
          rw [headRun_succ, headRun_succ, relabeled, unwound]
          rfl
      | app span function argument =>
          rw [headRun_succ, headRun_succ, relabeled, unwound]
          rfl
      | abs span declared body =>
          cases spine with
          | nil =>
              rw [headRun_succ, headRun_succ, relabeled, unwound]
              rfl
          | cons frame rest =>
              have exceeded := plan.budget.nodesExceeded_mapLabels change
                (plan.strategy.contract body frame.argument) rest
              have continues := inductionHypothesis
                (plan.strategy.contract body frame.argument) rest
                (plan.observe { progress with steps := progress.steps + 1 }
                  (plan.strategy.contract body frame.argument) rest)
              rw [mapLabels_observe] at continues
              rw [Strategy.mapLabels_contract] at continues exceeded
              rw [Term.mapLabels_abs, Spine.mapLabels_cons] at relabeled
              rw [headRun_redex plan fuel _ relabeled,
                headRun_redex plan fuel progress unwound,
                Frame.mapLabels_argument, exceeded]
              change (if plan.budget.stepsExhausted progress.steps then _
                else _) = _
              split
              next => rfl
              next =>
                  split
                  next =>
                      simp only [Option.map_some, Strategy.mapLabels_contract]
                      rfl
                  next => exact continues

/-- What normalization gives, with other labels. -/
theorem normalize_mapLabels
    (plan : Plan)
    (fuel : Nat) :
    (∀ term progress,
      plan.normalize fuel (term.mapLabels change) (progress.mapLabels change) =
        (plan.normalize fuel term progress).map fun reached =>
          (reached.1.mapLabels change, reached.2.mapLabels change)) ∧
    (∀ spine progress,
      plan.normalizeSpine fuel (Spine.mapLabels change spine)
          (progress.mapLabels change) =
        (plan.normalizeSpine fuel spine progress).map fun reached =>
          (reached.1.mapLabels change, reached.2.mapLabels change)) := by
  induction fuel with
  | zero => exact ⟨fun _ _ => rfl, fun _ _ => rfl⟩
  | succ fuel inductionHypothesis =>
      obtain ⟨terms, spines⟩ := inductionHypothesis
      constructor
      · intro term progress
        have relabeled := headRun_mapLabels change plan fuel term [] progress
        rw [Spine.mapLabels_nil] at relabeled
        cases headRan : plan.headRun fuel term [] progress with
        | none =>
            rw [headRan] at relabeled
            rw [normalize_succ, normalize_succ, headRan, relabeled]
            rfl
        | some reached =>
            obtain ⟨head, spine, after⟩ := reached
            rw [headRan] at relabeled
            simp only [Option.map_some] at relabeled
            by_cases going : after.status = .normal
            · have whole := isApplication_of_headRun headRan going
              cases head with
              | app span function argument => cases whole
              | var span index =>
                  rw [normalize_of_var headRan going,
                    normalize_of_var relabeled going, spines]
                  simp only [Option.map_map, Function.comp_def,
                    Term.mapLabels_rebuild, Term.mapLabels_var]
              | abs span declared body =>
                  rw [normalize_of_abs headRan going,
                    normalize_of_abs relabeled going, terms]
                  simp only [Option.map_map, Function.comp_def,
                    Term.mapLabels_rebuild, Term.mapLabels_abs]
            · rw [normalize_of_stopped headRan going,
                normalize_of_stopped relabeled going]
              simp only [Option.map_some, Term.mapLabels_rebuild]
      · intro spine progress
        cases spine with
        | nil => rfl
        | cons frame rest =>
            by_cases going : progress.status = .normal
            · have alsoGoing : (progress.mapLabels change).status = .normal :=
                going
              rw [normalizeSpine_cons fuel frame rest going,
                Spine.mapLabels_cons, normalizeSpine_cons fuel _ _ alsoGoing,
                Frame.mapLabels_argument, terms]
              cases plan.normalize fuel frame.argument progress with
              | none => rfl
              | some first =>
                  simp only [Option.map_some, Option.bind_some, spines,
                    Option.map_map, Function.comp_def, Spine.mapLabels_cons]
                  rfl
            · rw [Spine.mapLabels_cons, normalizeSpine_succ, normalizeSpine_succ,
                if_neg going]
              exact if_neg going

/-- A run on a relabeled term is the relabeled run. -/
theorem run_mapLabels
    (plan : Plan)
    (fuel : Nat)
    (term : Term) :
    plan.run fuel (term.mapLabels change) =
      (plan.run fuel term).map (Outcome.mapLabels change) := by
  cases strategy : plan.strategy with
  | weakHead =>
      have relabeled : plan.headRun fuel (term.mapLabels change) [] .start =
          _ := headRun_mapLabels change plan fuel term [] .start
      simp only [run_weakHead strategy, relabeled, Option.map_map]
      congr 1
      funext reached
      simp only [Function.comp_apply, Progress.mapLabels_outcome,
        mapLabels_settle, Term.mapLabels_rebuild]
  | full =>
      have relabeled : plan.normalize fuel (term.mapLabels change) .start =
          _ := (normalize_mapLabels change plan fuel).1 term .start
      simp only [run_full strategy, relabeled, Option.map_map]
      congr 1
      funext reached
      simp only [Function.comp_apply, Progress.mapLabels_outcome]

theorem endsWith_mapLabels_iff
    (plan : Plan)
    (term : Term)
    (outcome : Outcome) :
    plan.EndsWith (term.mapLabels change) outcome ↔
      ∃ original, plan.EndsWith term original ∧
        original.mapLabels change = outcome := by
  unfold EndsWith
  simp only [run_mapLabels, Option.map_eq_some_iff]
  constructor
  · rintro ⟨fuel, original, ran, same⟩
    exact ⟨original, ⟨fuel, ran⟩, same⟩
  · rintro ⟨original, ⟨fuel, ran⟩, same⟩
    exact ⟨fuel, original, ran, same⟩

/-- The run on a relabeled term ends with the relabeled outcome. -/
theorem EndsWith.mapLabels
    {plan : Plan}
    (ended : plan.EndsWith term outcome) :
    plan.EndsWith (term.mapLabels change) (outcome.mapLabels change) :=
  (endsWith_mapLabels_iff change plan term _).mpr ⟨outcome, ended, rfl⟩

/-- Terms that differ in their spans at most have runs that differ in spans at
most. -/
theorem EndsWith.of_alike
    {plan : Plan}
    {left right : Term}
    (same : left.withoutSpans = right.withoutSpans)
    (ended : plan.EndsWith left outcome) :
    ∃ other, plan.EndsWith right other ∧
      other.status = outcome.status ∧
      other.term.withoutSpans = outcome.term.withoutSpans := by
  simp only [Term.withoutSpans_eq_relabel, Term.relabel_eq_mapLabels] at same ⊢
  have relabeled := ended.mapLabels fun label =>
    ⟨Span.nowhere, label.declared.map id⟩
  rw [same, endsWith_mapLabels_iff] at relabeled
  obtain ⟨other, otherEnded, isRelabeled⟩ := relabeled
  have sameStatus := congrArg Outcome.status isRelabeled
  have sameTerm := congrArg Outcome.term isRelabeled
  exact ⟨other, otherEnded, sameStatus, sameTerm⟩

/-- What a run gives and what it records carry no label that its term does not
carry.  A change that moves every other label leaves the term as it is, and so its
only run. -/
theorem EndsWith.labels_subset
    {plan : Plan}
    (ended : plan.EndsWith term outcome) :
    outcome.term.labels ⊆ term.labels ∧
      ∀ observation ∈ outcome.trace,
        observation.focus.labels ⊆ term.labels := by
  let change : Label -> Label := fun label =>
    if label ∈ term.labels then label
    else ⟨{ label.span with lo := label.span.lo + 1 }, label.declared⟩
  have moves : ∀ label,
      (change label).span = label.span ↔ label ∈ term.labels := by
    intro label
    simp only [change]
    split
    next carried => simp [carried]
    next missing =>
        refine iff_of_false (fun same => ?_) missing
        exact Nat.succ_ne_self _ (congrArg Span.lo same)
  have keeps : ∀ label, (change label).declared = label.declared := by
    intro label
    simp only [change]
    split <;> rfl
  have unchanged : term.mapLabels change = term :=
    (term.labels_subset_iff_mapLabels change moves keeps).mp
      (List.Subset.refl _)
  have relabeled := ended.mapLabels change
  rw [unchanged] at relabeled
  have same : outcome.mapLabels change = outcome := relabeled.unique ended
  constructor
  · rw [Term.labels_subset_iff_mapLabels change moves keeps]
    exact congrArg Outcome.term same
  · intro observation recorded
    rw [Term.labels_subset_iff_mapLabels change moves keeps]
    have sameTrace := (congrArg Outcome.trace same).trans
      (List.map_id outcome.trace).symm
    have kept := List.map_inj_left.mp sameTrace observation recorded
    exact congrArg Observation.focus kept

/-- A run declares no type that its term does not declare. -/
theorem EndsWith.declaresOnly
    {plan : Plan}
    (ended : plan.EndsWith term outcome)
    (declares : term.declaresOnly accepted = true) :
    outcome.term.declaresOnly accepted = true := by
  rw [Term.declaresOnly_iff_labels] at declares ⊢
  intro label carried
  exact declares label (ended.labels_subset.1 carried)

end Plan
end LambdaCalculus
