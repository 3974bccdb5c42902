import LambdaCalculus.Proofs.Reduction.Steps

/-!
# Head runs

A head run performs head steps on the whole term: the head that it works on,
applied to the pending arguments.  It counts each of them, and it ends for one
of three reasons: there is no redex at the head, there is one but no step is
left for it, or the last contraction made the term too large.  Without limits
only the first reason remains, and a term from which finitely many steps lead
to the end of all steps has a head run that ends.
-/

namespace LambdaCalculus

namespace Budget

/-- So many contractions are within the budget. -/
def Permits
    (budget : Budget)
    (steps : Nat) : Prop :=
  budget.maxSteps = 0 ∨ steps ≤ budget.maxSteps

theorem permits_zero
    (budget : Budget) :
    budget.Permits 0 :=
  Or.inr (Nat.zero_le budget.maxSteps)

theorem permits_succ
    {budget : Budget}
    (left : budget.stepsExhausted steps = false) :
    budget.Permits (steps + 1) := by
  simp only [stepsExhausted, Bool.and_eq_false_iff, bne_eq_false_iff_eq,
    decide_eq_false_iff_not, Nat.not_le] at left
  exact left

/-- The step limit is met exactly when it cuts a run off. -/
theorem Permits.eq_maxSteps
    {budget : Budget}
    (permits : budget.Permits steps)
    (exhausted : budget.stepsExhausted steps = true) :
    budget.maxSteps ≠ 0 ∧ steps = budget.maxSteps := by
  simp only [stepsExhausted, Bool.and_eq_true, bne_iff_ne,
    decide_eq_true_eq] at exhausted
  obtain ⟨limited, reached⟩ := exhausted
  rcases permits with unlimited | within
  · exact absurd unlimited limited
  · exact ⟨limited, Nat.le_antisymm within reached⟩

end Budget

/-! ## Redexes in a spine -/

namespace Term

theorem isApplication_unwind
    (term : Term)
    (spine : Spine) :
    (term.unwind spine).1.isApplication = false := by
  induction term generalizing spine with
  | var span index => rfl
  | abs span declared body inductionHypothesis => rfl
  | app span function argument functionHypothesis argumentHypothesis =>
      exact functionHypothesis (⟨argument, span⟩ :: spine)

theorem hasHeadRedex_rebuild_app
    (span : Span)
    (function argument : Term)
    (spine : Spine) :
    (spine.rebuild (app span function argument)).hasHeadRedex =
      (app span function argument).hasHeadRedex := by
  induction spine generalizing span function argument with
  | nil => rfl
  | cons frame rest inductionHypothesis =>
      rw [Spine.rebuild_cons, inductionHypothesis, hasHeadRedex_app,
        isAbstraction_app, Bool.false_or]

/-- A head that is no application has a redex exactly when it is an
abstraction with an argument. -/
theorem hasHeadRedex_rebuild
    {head : Term}
    (whole : head.isApplication = false)
    (spine : Spine) :
    (spine.rebuild head).hasHeadRedex =
      (head.isAbstraction && !spine.isEmpty) := by
  have noRedex : head.hasHeadRedex = false := by
    cases head with
    | var span index => rfl
    | abs span declared body => rfl
    | app span function argument => cases whole
  cases spine with
  | nil => simp [noRedex]
  | cons frame rest =>
      rw [Spine.rebuild_cons, hasHeadRedex_rebuild_app, hasHeadRedex_app,
        noRedex]
      simp

/-- An abstraction that is not part of a redex has no argument. -/
theorem spine_eq_nil_of_abs
    {span : Span}
    {body : Term}
    {spine : Spine}
    (noRedex : (spine.rebuild (abs span declared body)).hasHeadRedex =
      false) :
    spine = [] := by
  rw [hasHeadRedex_rebuild rfl] at noRedex
  cases spine with
  | nil => rfl
  | cons frame rest => cases noRedex

theorem isApplication_rebuild
    (head : Term)
    (spine : Spine) :
    (spine.rebuild head).isApplication =
      (head.isApplication || !spine.isEmpty) := by
  induction spine generalizing head with
  | nil => simp
  | cons frame rest inductionHypothesis =>
      rw [Spine.rebuild_cons, inductionHypothesis]
      simp [isApplication]

/-- A redex at the head of a term is found by unwinding it. -/
theorem unwind_of_hasHeadRedex
    {term : Term}
    {pending : Spine}
    (redex : (pending.rebuild term).hasHeadRedex = true) :
    ∃ span declared body frame rest,
      term.unwind pending = (abs span declared body, frame :: rest) := by
  have whole := isApplication_unwind term pending
  rw [← rebuild_unwind, hasHeadRedex_rebuild whole] at redex
  generalize term.unwind pending = unwound at redex
  obtain ⟨head, spine⟩ := unwound
  cases head with
  | var span index => cases redex
  | app span function argument => cases redex
  | abs span declared body =>
      cases spine with
      | nil => cases redex
      | cons frame rest => exact ⟨span, declared, body, frame, rest, rfl⟩

theorem rebuild_of_unwind
    {term : Term}
    {pending : Spine}
    (unwound : term.unwind pending =
      (abs binderSpan declared body, frame :: rest)) :
    pending.rebuild term =
      Spine.rebuild (app frame.span (abs binderSpan declared body)
        frame.argument) rest := by
  rw [← rebuild_unwind, unwound, Spine.rebuild_cons]

end Term

/-- The redex that unwinding finds is contracted by a head step. -/
theorem HeadStep.of_unwind
    {term : Term}
    {pending : Spine}
    (strategy : Strategy)
    (unwound : term.unwind pending =
      (.abs binderSpan declared body, frame :: rest)) :
    HeadStep strategy (pending.rebuild term)
      (Spine.rebuild (strategy.contract body frame.argument) rest) := by
  rw [Term.rebuild_of_unwind unwound]
  apply HeadStep.rebuild
  exact contract frame.span binderSpan declared body frame.argument

namespace Plan

/-- The run ends with the outcome for some fuel. -/
def EndsWith
    (plan : Plan)
    (term : Term)
    (outcome : Outcome) : Prop :=
  ∃ fuel, plan.run fuel term = some outcome

@[simp] theorem observe_steps
    (plan : Plan)
    (progress : Progress)
    (head : Term)
    (spine : Spine) :
    (plan.observe progress head spine).steps = progress.steps := by
  unfold observe
  split <;> rfl

@[simp] theorem observe_status
    (plan : Plan)
    (progress : Progress)
    (head : Term)
    (spine : Spine) :
    (plan.observe progress head spine).status = progress.status := by
  unfold observe
  split <;> rfl

/-! ## One round -/

/-- A head run stops at a head without a redex. -/
theorem headRun_final
    (plan : Plan)
    (fuel : Nat)
    (progress : Progress)
    (noRedex : (pending.rebuild term).hasHeadRedex = false) :
    plan.headRun (fuel + 1) term pending progress =
      some ((term.unwind pending).1, (term.unwind pending).2, progress) := by
  have whole := Term.isApplication_unwind term pending
  rw [← Term.rebuild_unwind, Term.hasHeadRedex_rebuild whole] at noRedex
  rw [headRun_succ]
  split
  next unwound =>
      rw [unwound] at noRedex
      cases noRedex
  next unwound => rw [unwound]

/-- A head run at a redex stops or goes on with its contraction. -/
theorem headRun_redex
    (plan : Plan)
    (fuel : Nat)
    (progress : Progress)
    (unwound : term.unwind pending =
      (.abs span declared body, frame :: rest)) :
    plan.headRun (fuel + 1) term pending progress =
      if plan.budget.stepsExhausted progress.steps then
        some (.abs span declared body, frame :: rest,
          { progress with status := .stepLimit })
      else if plan.budget.nodesExceeded
          (plan.strategy.contract body frame.argument) rest then
        some (plan.strategy.contract body frame.argument, rest,
          { progress with steps := progress.steps + 1, status := .sizeLimit })
      else
        plan.headRun fuel (plan.strategy.contract body frame.argument) rest
          (plan.observe { progress with steps := progress.steps + 1 }
            (plan.strategy.contract body frame.argument) rest) := by
  rw [headRun_succ, unwound]

/-! ## What a head run does -/

/-- Why a head run ends with a head, a spine and a number of steps, and the
status that it leaves for it. -/
inductive HeadEnd
    (plan : Plan)
    (status : Status)
    (head : Term)
    (spine : Spine) : Progress -> Prop
  | final
      (kept : progress.status = status)
      (whole : head.isApplication = false)
      (noRedex : (spine.rebuild head).hasHeadRedex = false) :
      HeadEnd plan status head spine progress
  | stepLimit
      (limited : progress.status = .stepLimit)
      (exhausted : plan.budget.stepsExhausted progress.steps = true)
      (redex : (spine.rebuild head).hasHeadRedex = true) :
      HeadEnd plan status head spine progress
  | sizeLimit
      (limited : progress.status = .sizeLimit)
      (exceeded : plan.budget.nodesExceeded head spine = true) :
      HeadEnd plan status head spine progress

/-- What a head run that starts on a term does. -/
structure HeadRan
    (plan : Plan)
    (start : Term)
    (before : Progress)
    (head : Term)
    (spine : Spine)
    (after : Progress) : Prop where
  /-- It performs the head steps that it counts. -/
  steps : ∃ count, after.steps = before.steps + count ∧
    Steps (HeadStep plan.strategy) count start (spine.rebuild head)
  /-- It stays within the budget. -/
  permits : plan.budget.Permits before.steps ->
    plan.budget.Permits after.steps
  /-- It ends for one of three reasons. -/
  ended : HeadEnd plan before.status head spine after

/-- One contraction in front of a head run. -/
theorem HeadRan.contracted
    {plan : Plan}
    {before : Progress}
    (first : HeadStep plan.strategy start middle)
    (left : plan.budget.stepsExhausted before.steps = false)
    (counted : next.steps = before.steps + 1)
    (kept : next.status = before.status)
    (ran : HeadRan plan middle next head spine after) :
    HeadRan plan start before head spine after := by
  obtain ⟨count, total, rest⟩ := ran.steps
  refine ⟨⟨count + 1, ?_, Steps.cons first rest⟩, ?_, ?_⟩
  · rw [total, counted, Nat.add_assoc, Nat.add_comm 1]
  · intro _
    apply ran.permits
    rw [counted]
    exact Budget.permits_succ left
  · rw [← kept]
    exact ran.ended

theorem headRan_of_headRun
    (ran : plan.headRun fuel term pending before = some (head, spine, after)) :
    HeadRan plan (pending.rebuild term) before head spine after := by
  induction fuel generalizing term pending before with
  | zero => cases ran
  | succ fuel inductionHypothesis =>
      cases redex : (pending.rebuild term).hasHeadRedex with
      | false =>
          rw [headRun_final plan fuel before redex] at ran
          cases ran
          have whole := Term.isApplication_unwind term pending
          rw [← Term.rebuild_unwind] at redex ⊢
          exact ⟨⟨0, rfl, Steps.refl _⟩, id, HeadEnd.final rfl whole redex⟩
      | true =>
          obtain ⟨binderSpan, declared, body, frame, rest, unwound⟩ :=
            Term.unwind_of_hasHeadRedex redex
          have first := HeadStep.of_unwind plan.strategy unwound
          rw [headRun_redex plan fuel before unwound] at ran
          split at ran
          next exhausted =>
              cases ran
              rw [Term.rebuild_of_unwind unwound] at redex ⊢
              refine ⟨⟨0, rfl, Steps.refl _⟩, id, ?_⟩
              exact HeadEnd.stepLimit rfl exhausted redex
          next left =>
              rw [Bool.not_eq_true] at left
              split at ran
              next exceeded =>
                  cases ran
                  refine ⟨⟨1, rfl, Steps.single first⟩, ?_, ?_⟩
                  · intro _
                    exact Budget.permits_succ left
                  · exact HeadEnd.sizeLimit rfl exceeded
              next =>
                  refine (inductionHypothesis ran).contracted first left ?_ ?_
                  · rw [observe_steps]
                  · rw [observe_status]

/-- A head run that no limit has stopped leaves no redex. -/
theorem HeadEnd.final_of_normal
    {progress : Progress}
    (ended : HeadEnd plan status head spine progress)
    (normal : progress.status = .normal) :
    head.isApplication = false ∧
      (spine.rebuild head).hasHeadRedex = false := by
  cases ended with
  | final kept whole noRedex => exact ⟨whole, noRedex⟩
  | stepLimit limited exhausted redex =>
      rw [normal] at limited
      cases limited
  | sizeLimit limited exceeded =>
      rw [normal] at limited
      cases limited

/-- A run of the head strategy is a head run of the whole term. -/
theorem headRan_of_endsWith
    {plan : Plan}
    (weakHead : plan.strategy = .weakHead)
    (ended : plan.EndsWith term outcome) :
    ∃ head spine progress,
      HeadRan plan term .start head spine progress ∧
      outcome = (settle head spine progress).outcome (spine.rebuild head) := by
  obtain ⟨fuel, ran⟩ := ended
  rw [run_weakHead weakHead] at ran
  obtain ⟨⟨head, spine, progress⟩, headRun, rfl⟩ :=
    Option.map_eq_some_iff.mp ran
  exact ⟨head, spine, progress, headRan_of_headRun headRun, rfl⟩

/-! ## Runs without limits -/

/-- Without limits a head run keeps its status and leaves no redex. -/
theorem HeadEnd.final_of_unlimited
    {plan : Plan}
    (ended : HeadEnd plan status head spine progress)
    (unlimited : plan.budget = .unlimited) :
    progress.status = status ∧ head.isApplication = false ∧
      (spine.rebuild head).hasHeadRedex = false := by
  cases ended with
  | final kept whole noRedex => exact ⟨kept, whole, noRedex⟩
  | stepLimit limited exhausted redex =>
      rw [unlimited] at exhausted
      cases exhausted
  | sizeLimit limited exceeded =>
      rw [unlimited] at exceeded
      cases exceeded

/-- Without limits a head run ends if finitely many head steps lead to a term
without a redex at its head. -/
theorem exists_headRun
    (plan : Plan)
    (term : Term)
    (pending : Spine)
    (progress : Progress)
    (unlimited : plan.budget = .unlimited)
    (steps : Steps (HeadStep plan.strategy) count (pending.rebuild term) finish)
    (final : finish.hasHeadRedex = false) :
    ∃ fuel result, plan.headRun fuel term pending progress = some result := by
  induction count generalizing term pending progress with
  | zero =>
      cases steps
      exact ⟨1, _, headRun_final plan 0 progress final⟩
  | succ count inductionHypothesis =>
      cases steps with
      | cons first rest =>
          have redex := (HeadStep.exists_iff plan.strategy _).mp ⟨_, first⟩
          obtain ⟨binderSpan, declared, body, frame, arguments, unwound⟩ :=
            Term.unwind_of_hasHeadRedex redex
          have contracted := HeadStep.of_unwind plan.strategy unwound
          rw [first.deterministic contracted] at rest
          obtain ⟨fuel, result, ran⟩ := inductionHypothesis _ arguments
            (plan.observe { progress with steps := progress.steps + 1 }
              (plan.strategy.contract body frame.argument) arguments) rest
          refine ⟨fuel + 1, result, ?_⟩
          rw [headRun_redex plan fuel progress unwound, unlimited]
          exact ran

end Plan
end LambdaCalculus
