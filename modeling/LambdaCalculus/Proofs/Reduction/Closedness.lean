import LambdaCalculus.Proofs.Reduction.Beta
import LambdaCalculus.Proofs.Reduction.Normalize
import LambdaCalculus.Proofs.Reduction.Recursive

/-!
# Runs on closed terms

Contraction leaves no index free that was bound before.  So every term that a
run reaches from a closed one is closed, whatever stops the run; and because the
head of a closed term is no variable, the head strategy never gets stuck and
ends normally with an abstraction only.
-/

namespace LambdaCalculus

/-! ## Steps -/

namespace Term

/-- Raising a term over some binders is undone by putting it under them. -/
theorem closedUnder_raise
    {term : Term}
    (amount cutoff : Nat)
    (closed : term.closedUnder (cutoff + binders) = true) :
    (term.raise amount cutoff).closedUnder (cutoff + amount + binders) =
      true := by
  induction term generalizing cutoff with
  | var span index =>
      rw [closedUnder_var, decide_eq_true_eq] at closed
      rw [raise_var, closedUnder_var, decide_eq_true_eq]
      split <;> omega
  | abs span declared body bodyHypothesis =>
      rw [closedUnder_abs, Nat.add_right_comm] at closed
      rw [raise_abs, closedUnder_abs, Nat.add_right_comm,
        Nat.add_right_comm cutoff]
      exact bodyHypothesis (cutoff + 1) closed
  | app span function argument functionHypothesis argumentHypothesis =>
      rw [closedUnder_app, Bool.and_eq_true] at closed
      rw [raise_app, closedUnder_app, functionHypothesis cutoff closed.1,
        argumentHypothesis cutoff closed.2]
      rfl

/-- Instantiation leaves one free variable less. -/
theorem closedUnder_instantiateAt
    {body argument : Term}
    (depth : Nat)
    (bodyClosed : body.closedUnder (depth + binders + 1) = true)
    (argumentClosed : argument.closedUnder binders = true) :
    (body.instantiateAt depth argument).closedUnder (depth + binders) =
      true := by
  induction body generalizing depth with
  | var span index =>
      rw [closedUnder_var, decide_eq_true_eq] at bodyClosed
      rcases Nat.lt_trichotomy index depth with bound | here | free
      · rw [instantiateAt_var_of_lt span argument bound, closedUnder_var,
          decide_eq_true_eq]
        omega
      · have raised := closedUnder_raise depth 0
          (by rwa [Nat.zero_add] : argument.closedUnder (0 + binders) = true)
        rw [instantiateAt_var_of_eq span argument here]
        rwa [Nat.zero_add] at raised
      · rw [instantiateAt_var_of_gt span argument free, closedUnder_var,
          decide_eq_true_eq]
        omega
  | abs span declared inner innerHypothesis =>
      rw [instantiateAt_abs, closedUnder_abs, Nat.add_right_comm]
      apply innerHypothesis
      rwa [closedUnder_abs, Nat.add_right_comm depth] at bodyClosed
  | app span function operand functionHypothesis operandHypothesis =>
      rw [closedUnder_app, Bool.and_eq_true] at bodyClosed
      rw [instantiateAt_app, closedUnder_app,
        functionHypothesis depth bodyClosed.1,
        operandHypothesis depth bodyClosed.2]
      rfl

end Term

/-- No contraction leaves an index free that was bound before. -/
theorem BetaStep.closedUnder
    (step : BetaStep start finish)
    (closed : start.closedUnder binders = true) :
    finish.closedUnder binders = true := by
  induction step generalizing binders with
  | contract span binderSpan declared body argument =>
      rw [Term.closedUnder_app, Bool.and_eq_true, Term.closedUnder_abs] at closed
      have contracted := Term.closedUnder_instantiateAt 0
        (by rw [Nat.zero_add]; exact closed.1) closed.2
      rwa [Nat.zero_add] at contracted
  | body span declared step inductionHypothesis =>
      exact inductionHypothesis closed
  | function span argument step inductionHypothesis =>
      rw [Term.closedUnder_app, Bool.and_eq_true] at closed ⊢
      exact ⟨inductionHypothesis closed.1, closed.2⟩
  | argument span function step inductionHypothesis =>
      rw [Term.closedUnder_app, Bool.and_eq_true] at closed ⊢
      exact ⟨closed.1, inductionHypothesis closed.2⟩

/-- On a closed term the verbatim contraction is the capture-free one, and it
leaves a closed term. -/
theorem HeadStep.full_of_closed
    (step : HeadStep .weakHead start finish)
    (closed : start.closed = true) :
    HeadStep .full start finish ∧ finish.closed = true := by
  induction step with
  | contract span binderSpan declared body argument =>
      rw [Term.closed, Term.closedUnder_app, Bool.and_eq_true] at closed
      obtain ⟨bodyClosed, argumentClosed⟩ := closed
      have same : Strategy.weakHead.contract body argument =
          Strategy.full.contract body argument :=
        Term.substitute_eq_instantiateAt bodyClosed argumentClosed
      refine ⟨?_, Term.closedUnder_substitute bodyClosed argumentClosed⟩
      rw [same]
      exact contract span binderSpan declared body argument
  | function span argument step inductionHypothesis =>
      rw [Term.closed, Term.closedUnder_app, Bool.and_eq_true] at closed
      obtain ⟨functionStep, nextClosed⟩ := inductionHypothesis closed.1
      refine ⟨function span argument functionStep, ?_⟩
      rw [Term.closed, Term.closedUnder_app, Bool.and_eq_true]
      exact ⟨nextClosed, closed.2⟩

/-! ## Heads -/

namespace Term

theorem closedUnder_head
    {term : Term}
    (closed : term.closedUnder binders = true) :
    term.head.closedUnder binders = true := by
  induction term with
  | var span index => exact closed
  | abs span declared body bodyHypothesis => exact closed
  | app span function argument functionHypothesis argumentHypothesis =>
      rw [closedUnder_app, Bool.and_eq_true] at closed
      exact functionHypothesis closed.1

/-- A closed application has a redex at its head, because its head is no
variable. -/
theorem isApplication_eq_false_of_closed
    {term : Term}
    (closed : term.closed = true)
    (final : term.hasHeadRedex = false) :
    term.isApplication = false := by
  cases application : term.isApplication with
  | false => rfl
  | true =>
      obtain ⟨span, index, isVariable⟩ :=
        exists_head_eq_var final (isAbstraction_of_isApplication application)
      have headClosed := closedUnder_head closed
      rw [isVariable] at headClosed
      cases headClosed

theorem isAbstraction_of_closed
    {term : Term}
    (closed : term.closed = true)
    (final : term.hasHeadRedex = false) :
    term.isAbstraction = true := by
  have whole := isApplication_eq_false_of_closed closed final
  cases term with
  | var span index => cases closed
  | abs span declared body => rfl
  | app span function argument => cases whole

end Term

/-! ## What a run records -/

namespace Plan

theorem mem_observe
    {plan : Plan}
    {progress : Progress}
    (recorded : observation ∈ (plan.observe progress head spine).observations) :
    observation = ⟨progress.steps, spine.rebuild head⟩ ∨
      observation ∈ progress.observations := by
  unfold observe at recorded
  split at recorded
  next => exact List.mem_cons.mp recorded
  next => exact Or.inr recorded

/-- Every contraction that a head run records shows the whole term after so
many head steps. -/
theorem headSteps_of_observation
    {plan : Plan}
    {before after : Progress}
    (ran : plan.headRun fuel term pending before = some (head, spine, after))
    (recorded : observation ∈ after.observations) :
    observation ∈ before.observations ∨
      ∃ count, observation.step = before.steps + count ∧
        Steps (HeadStep plan.strategy) count (pending.rebuild term)
          observation.focus := by
  induction fuel generalizing term pending before with
  | zero => cases ran
  | succ fuel inductionHypothesis =>
      cases redex : (pending.rebuild term).hasHeadRedex with
      | false =>
          rw [headRun_final plan fuel before redex] at ran
          cases ran
          exact Or.inl recorded
      | true =>
          obtain ⟨binderSpan, declared, body, frame, rest, unwound⟩ :=
            Term.unwind_of_hasHeadRedex redex
          have first := HeadStep.of_unwind plan.strategy unwound
          rw [headRun_redex plan fuel before unwound] at ran
          split at ran
          next =>
              cases ran
              exact Or.inl recorded
          next =>
          split at ran
          next =>
              cases ran
              exact Or.inl recorded
          next =>
              rcases inductionHypothesis ran with earlier | ⟨count, number, steps⟩
              · rcases mem_observe earlier with rfl | before
                · exact Or.inr ⟨1, rfl, Steps.single first⟩
                · exact Or.inl before
              · refine Or.inr ⟨count + 1, ?_, Steps.cons first steps⟩
                rw [number, observe_steps, Nat.add_assoc, Nat.add_comm 1]

@[simp] theorem settle_observations
    (head : Term)
    (spine : Spine)
    (progress : Progress) :
    (settle head spine progress).observations = progress.observations := by
  unfold settle
  split <;> rfl

theorem settle_of_stopped
    (head : Term)
    (spine : Spine)
    (stopped : progress.status ≠ .normal) :
    settle head spine progress = progress := by
  unfold settle
  split
  next normal => exact absurd normal stopped
  next => rfl

/-! ## Runs of the head strategy -/

/-- What the head strategy shows of a run on a closed term is closed. -/
theorem closed_of_mem_trace
    {plan : Plan}
    (weakHead : plan.strategy = .weakHead)
    (ended : plan.EndsWith term outcome)
    (closed : term.closed = true)
    (recorded : observation ∈ outcome.trace) :
    observation.focus.closed = true := by
  obtain ⟨fuel, ran⟩ := ended
  rw [run_weakHead weakHead] at ran
  obtain ⟨⟨head, spine, progress⟩, headRun, rfl⟩ :=
    Option.map_eq_some_iff.mp ran
  have member : observation ∈ progress.observations := by
    simpa [Progress.outcome] using recorded
  rcases headSteps_of_observation headRun member with absent | ⟨_, _, steps⟩
  · cases absent
  · rw [weakHead] at steps
    exact steps.preserves (fun term => term.closed = true)
      (fun _ _ step closed => (step.full_of_closed closed).2) closed

/-- However a run of the head strategy on a closed term ends, its term is
closed; it is never stuck, and it ends normally with an abstraction only. -/
theorem weakHead_of_closed
    {plan : Plan}
    (weakHead : plan.strategy = .weakHead)
    (ended : plan.EndsWith term outcome)
    (closed : term.closed = true) :
    outcome.term.closed = true ∧ outcome.status ≠ .stuck ∧
      (outcome.status = .normal -> outcome.term.isAbstraction = true) := by
  obtain ⟨head, spine, progress, ran, rfl⟩ := headRan_of_endsWith weakHead ended
  obtain ⟨count, _, steps⟩ := ran.steps
  rw [weakHead] at steps
  have finishClosed : (spine.rebuild head).closed = true :=
    steps.preserves (fun term => term.closed = true)
      (fun _ _ step closed => (step.full_of_closed closed).2) closed
  refine ⟨finishClosed, ?_⟩
  change (settle head spine progress).status ≠ .stuck ∧
    ((settle head spine progress).status = .normal ->
      (spine.rebuild head).isAbstraction = true)
  cases ran.ended with
  | final kept whole noRedex =>
      rw [settle_status kept whole noRedex,
        Term.isApplication_eq_false_of_closed finishClosed noRedex]
      exact ⟨nofun,
        fun _ => Term.isAbstraction_of_closed finishClosed noRedex⟩
  | stepLimit limited exhausted redex =>
      rw [settle_of_stopped head spine (by rw [limited]; nofun), limited]
      exact ⟨nofun, nofun⟩
  | sizeLimit limited exceeded =>
      rw [settle_of_stopped head spine (by rw [limited]; nofun), limited]
      exact ⟨nofun, nofun⟩

/-- Without limits the head strategy does not get stuck on a closed term. -/
theorem EndsWith.status_of_closed
    {traced : Bool}
    (ended : (Plan.mk .weakHead .unlimited traced).EndsWith term outcome)
    (closed : term.closed = true) :
    outcome.status = .normal := by
  obtain ⟨⟨count, steps, final⟩, status⟩ := headSteps_of_endsWith ended
  have outcomeClosed : outcome.term.closed = true :=
    steps.preserves (fun term => term.closed = true)
      (fun _ _ step closed => (step.full_of_closed closed).2) closed
  rw [status, Term.isApplication_eq_false_of_closed outcomeClosed final]
  rfl

/-! ## Runs of the full strategy -/

/-- However a run of the full strategy on a closed term ends, its term is closed
and it is not stuck. -/
theorem full_of_closed
    {plan : Plan}
    (full : plan.strategy = .full)
    (ended : plan.EndsWith term outcome)
    (closed : term.closed = true) :
    outcome.term.closed = true ∧ outcome.status ≠ .stuck := by
  obtain ⟨progress, isOutcome, performs, fullEnd⟩ :=
    performs_of_endsWith full ended
  obtain ⟨count, _, steps⟩ := performs.steps
  refine ⟨steps.preserves (fun term => term.closed = true)
    (fun _ _ step closed => step.beta.closedUnder closed) closed, ?_⟩
  have status : outcome.status = progress.status := by rw [isOutcome]; rfl
  rw [status]
  cases fullEnd with
  | normal status noRedex => rw [status]; nofun
  | stepLimit status exhausted redex => rw [status]; nofun
  | sizeLimit status limited => rw [status]; nofun

/-! ## Runs of either strategy -/

theorem outcome_of_closed
    (plan : Plan)
    (closed : term.closed = true)
    (ended : plan.EndsWith term outcome) :
    outcome.term.closed = true ∧ outcome.status ≠ .stuck ∧
      (plan.strategy = .weakHead ->
        (∀ observation ∈ outcome.trace, observation.focus.closed = true) ∧
        (outcome.status = .normal -> outcome.term.isAbstraction = true)) := by
  cases isStrategy : plan.strategy with
  | weakHead =>
      obtain ⟨finishClosed, notStuck, final⟩ :=
        weakHead_of_closed isStrategy ended closed
      refine ⟨finishClosed, notStuck, fun _ => ⟨?_, final⟩⟩
      intro observation recorded
      exact closed_of_mem_trace isStrategy ended closed recorded
  | full =>
      obtain ⟨finishClosed, notStuck⟩ := full_of_closed isStrategy ended closed
      exact ⟨finishClosed, notStuck, nofun⟩

end Plan
end LambdaCalculus
