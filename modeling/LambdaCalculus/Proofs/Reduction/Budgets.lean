import LambdaCalculus.Proofs.Reduction.Closedness

/-!
# Budgets of the head strategy

A run of the head strategy goes through the terms that head steps lead to and
stops at the first one for which there is a reason: the term has just become too
large, it has no redex at its head, or no step is left, tested in this order.
The size of a term that is being worked on is counted along its spine, which is
the same as counting the nodes of the whole term.
-/

namespace LambdaCalculus

namespace Budget

/-- Why the head strategy stops at a term that it has reached by so many steps,
if it does.  The first term is not measured. -/
def headStop?
    (budget : Budget)
    (steps : Nat)
    (term : Term) : Option Status :=
  if 1 ≤ steps ∧ budget.maxNodes ≠ 0 ∧ budget.maxNodes < term.nodeCount then
    some .sizeLimit
  else if term.hasHeadRedex = false then
    some (if term.isApplication then .stuck else .normal)
  else if budget.maxSteps ≠ 0 ∧ steps = budget.maxSteps then
    some .stepLimit
  else
    none

/-- The term is the first one, or small enough. -/
def Admits
    (budget : Budget)
    (steps : Nat)
    (term : Term) : Prop :=
  ¬ (1 ≤ steps ∧ budget.maxNodes ≠ 0 ∧ budget.maxNodes < term.nodeCount)

theorem admits_zero
    (budget : Budget)
    (term : Term) :
    budget.Admits 0 term :=
  fun ⟨counted, _⟩ => absurd counted (by decide)

/-- The budget measures the whole term. -/
theorem nodesExceeded_iff
    (budget : Budget)
    (head : Term)
    (spine : Spine) :
    budget.nodesExceeded head spine = true ↔
      budget.maxNodes ≠ 0 ∧
        budget.maxNodes < (spine.rebuild head).nodeCount := by
  simp only [nodesExceeded, Spine.nodeCount_eq_nodeCount_rebuild,
    Bool.and_eq_true, bne_iff_ne, decide_eq_true_eq]

theorem headStop?_of_exceeded
    {budget : Budget}
    (exceeded : budget.nodesExceeded head spine = true) :
    budget.headStop? (steps + 1) (spine.rebuild head) = some .sizeLimit := by
  rw [nodesExceeded_iff] at exceeded
  rw [headStop?, if_pos ⟨Nat.le_add_left 1 steps, exceeded⟩]

theorem admits_of_within
    {budget : Budget}
    (within : budget.nodesExceeded head spine = false) :
    budget.Admits steps (spine.rebuild head) := by
  rintro ⟨_, exceeded⟩
  rw [(nodesExceeded_iff budget head spine).mpr exceeded] at within
  cases within

theorem headStop?_of_final
    {budget : Budget}
    (admits : budget.Admits steps term)
    (noRedex : term.hasHeadRedex = false) :
    budget.headStop? steps term =
      some (if term.isApplication then .stuck else .normal) := by
  rw [headStop?, if_neg admits, if_pos noRedex]

/-- At a redex only the number of steps matters. -/
theorem headStop?_of_redex
    {budget : Budget}
    (permits : budget.Permits steps)
    (admits : budget.Admits steps term)
    (redex : term.hasHeadRedex = true) :
    budget.headStop? steps term =
      if budget.stepsExhausted steps then some .stepLimit else none := by
  rw [headStop?, if_neg admits, if_neg (by rw [redex]; nofun)]
  cases exhausted : budget.stepsExhausted steps with
  | true => rw [if_pos (permits.eq_maxSteps exhausted), if_pos rfl]
  | false =>
      have left := permits_succ exhausted
      rw [if_neg, if_neg Bool.false_ne_true]
      rintro ⟨limited, met⟩
      rcases left with unlimited | within
      · exact limited unlimited
      · omega

end Budget

namespace Plan

variable {plan : Plan} {before after : Progress}

/-- What a head run that starts at a term which the budget admits comes to: it
stops at the term that it gives, for the reason that it gives, and at none of the
terms in front of it. -/
structure StopsFirst
    (budget : Budget)
    (start : Term)
    (steps : Nat)
    (finish : Term)
    (total : Nat)
    (status : Status) : Prop where
  /-- Head steps lead to the term. -/
  reached : ∃ count, total = steps + count ∧
    Steps (HeadStep .weakHead) count start finish
  /-- There is a reason to stop. -/
  stopped : budget.headStop? total finish = some status
  /-- There has been none before. -/
  passed : ∀ count term, steps + count < total ->
    Steps (HeadStep .weakHead) count start term ->
    budget.headStop? (steps + count) term = none

/-- A term at which there is a reason to stop is the first one. -/
theorem StopsFirst.here
    {budget : Budget}
    (stopped : budget.headStop? steps term = some status) :
    StopsFirst budget term steps term steps status where
  reached := ⟨0, rfl, Steps.refl term⟩
  stopped := stopped
  passed := fun count _ less => absurd less (by omega)

/-- One step from a term at which there is no reason to stop. -/
theorem StopsFirst.later
    {budget : Budget}
    (going : budget.headStop? steps start = none)
    (first : HeadStep .weakHead start middle)
    (stops : StopsFirst budget middle (steps + 1) finish total status) :
    StopsFirst budget start steps finish total status := by
  obtain ⟨⟨count, counted, reached⟩, stopped, passed⟩ := stops
  refine ⟨⟨count + 1, by omega, Steps.cons first reached⟩, stopped, ?_⟩
  intro earlier term less steps
  cases steps with
  | refl => exact going
  | cons other rest =>
      rw [other.deterministic first] at rest
      have none := passed _ term (by omega) rest
      rwa [Nat.add_assoc, Nat.add_comm 1] at none

/-- One round of a head run stops, wherever its fuel comes from, or goes on from a
term at which there is no reason to stop. -/
theorem headRun_round
    (weakHead : plan.strategy = .weakHead)
    (going : before.status = .normal)
    (permits : plan.budget.Permits before.steps)
    (admits : plan.budget.Admits before.steps (pending.rebuild term)) :
    (∃ head spine after,
      (∀ fuel, plan.headRun (fuel + 1) term pending before =
        some (head, spine, after)) ∧
      StopsFirst plan.budget (pending.rebuild term) before.steps
        (spine.rebuild head) after.steps (settle head spine after).status) ∨
    (∃ next rest between,
      (∀ fuel, plan.headRun (fuel + 1) term pending before =
        plan.headRun fuel next rest between) ∧
      plan.budget.headStop? before.steps (pending.rebuild term) = none ∧
      HeadStep .weakHead (pending.rebuild term) (rest.rebuild next) ∧
      between.status = .normal ∧ between.steps = before.steps + 1 ∧
      plan.budget.Permits between.steps ∧
      plan.budget.Admits between.steps (rest.rebuild next)) := by
  cases redex : (pending.rebuild term).hasHeadRedex with
  | false =>
      refine Or.inl ⟨_, _, before,
        fun fuel => headRun_final plan fuel before redex, ?_⟩
      have whole := Term.isApplication_unwind term pending
      rw [← Term.rebuild_unwind] at redex admits ⊢
      rw [settle_status going whole redex]
      exact .here (Budget.headStop?_of_final admits redex)
  | true =>
      obtain ⟨binderSpan, declared, body, frame, rest, unwound⟩ :=
        Term.unwind_of_hasHeadRedex redex
      have round := fun fuel => headRun_redex plan fuel before unwound
      have first := HeadStep.of_unwind plan.strategy unwound
      have stop := Budget.headStop?_of_redex permits admits redex
      cases exhausted : plan.budget.stepsExhausted before.steps with
      | true =>
          rw [exhausted] at stop
          simp only [exhausted, if_true] at round
          refine Or.inl ⟨_, _, _, round, ?_⟩
          rw [Term.rebuild_of_unwind unwound] at stop ⊢
          rw [settle_of_stopped]
          · exact .here stop
          · nofun
      | false =>
          rw [exhausted] at stop
          rw [weakHead] at first
          simp only [exhausted, Bool.false_eq_true, if_false, weakHead] at round
          have left := Budget.permits_succ exhausted
          cases exceeded : plan.budget.nodesExceeded
              (Strategy.weakHead.contract body frame.argument) rest with
          | true =>
              simp only [exceeded, if_true] at round
              refine Or.inl ⟨_, _, _, round, .later stop first ?_⟩
              rw [settle_of_stopped]
              · exact .here (Budget.headStop?_of_exceeded exceeded)
              · nofun
          | false =>
              simp only [exceeded, Bool.false_eq_true, if_false] at round
              refine Or.inr ⟨_, rest, _, round, stop, first, ?_⟩
              rw [observe_status, observe_steps]
              exact ⟨going, rfl, left, Budget.admits_of_within exceeded⟩

/-- A head run stops at the first term at which there is a reason to. -/
theorem stopsFirst_of_headRun
    (weakHead : plan.strategy = .weakHead)
    (ran : plan.headRun fuel term pending before = some (head, spine, after))
    (going : before.status = .normal)
    (permits : plan.budget.Permits before.steps)
    (admits : plan.budget.Admits before.steps (pending.rebuild term)) :
    StopsFirst plan.budget (pending.rebuild term) before.steps
      (spine.rebuild head) after.steps (settle head spine after).status := by
  induction fuel generalizing term pending before with
  | zero => cases ran
  | succ fuel inductionHypothesis =>
      rcases headRun_round weakHead going permits admits with
        ⟨_, _, _, stops, first⟩ |
        ⟨next, rest, between, goes, passed, first, status, counted, left, fits⟩
      · rw [stops] at ran
        cases ran
        exact first
      · rw [goes] at ran
        apply StopsFirst.later passed first
        rw [← counted]
        exact inductionHypothesis ran status left fits

/-- A head run ends if head steps lead to a term at which there is a reason to
stop. -/
theorem exists_headRun_of_headStop?
    (plan : Plan)
    (term : Term)
    (pending : Spine)
    (before : Progress)
    (weakHead : plan.strategy = .weakHead)
    (steps : Steps (HeadStep .weakHead) count (pending.rebuild term) finish)
    (stopped : plan.budget.headStop? (before.steps + count) finish ≠ none)
    (going : before.status = .normal)
    (permits : plan.budget.Permits before.steps)
    (admits : plan.budget.Admits before.steps (pending.rebuild term)) :
    ∃ fuel result, plan.headRun fuel term pending before = some result := by
  induction count generalizing term pending before with
  | zero =>
      rcases headRun_round weakHead going permits admits with
        ⟨_, _, _, stops, _⟩ | ⟨_, _, _, _, passed, _⟩
      · exact ⟨1, _, stops 0⟩
      · cases steps
        exact absurd passed stopped
  | succ count inductionHypothesis =>
      rcases headRun_round weakHead going permits admits with
        ⟨_, _, _, stops, _⟩ |
        ⟨next, rest, between, goes, passed, first, status, counted, left, fits⟩
      · exact ⟨1, _, stops 0⟩
      · cases steps with
        | cons other behind =>
            rw [other.deterministic first] at behind
            rw [Nat.add_comm count, ← Nat.add_assoc, ← counted] at stopped
            obtain ⟨fuel, result, ran⟩ :=
              inductionHypothesis next rest between behind stopped status left
                fits
            exact ⟨fuel + 1, result, (goes fuel).trans ran⟩

/-- The head strategy ends exactly if head steps lead to a term at which there is
a reason to stop.  It gives the first such term with the number of steps to it
and with the reason.  What it measures on the way is the size of the whole
term. -/
theorem run_weakHead_stops_first
    (budget : Budget)
    (traced : Bool)
    (term : Term) :
    ((∃ outcome, (Plan.mk .weakHead budget traced).EndsWith term outcome) ↔
      ∃ count reached, Steps (HeadStep .weakHead) count term reached ∧
        budget.headStop? count reached ≠ none) ∧
    (∀ outcome, (Plan.mk .weakHead budget traced).EndsWith term outcome ->
      (∀ reached, Steps (HeadStep .weakHead) outcome.steps term reached ↔
        reached = outcome.term) ∧
      budget.headStop? outcome.steps outcome.term = some outcome.status ∧
      ∀ count reached, count < outcome.steps ->
        Steps (HeadStep .weakHead) count term reached ->
        budget.headStop? count reached = none) ∧
    (∀ (head : Term) (spine : Spine),
      spine.nodeCount head = (spine.rebuild head).nodeCount) := by
  have permits := budget.permits_zero
  have admits := budget.admits_zero term
  have stops : ∀ outcome,
      (Plan.mk .weakHead budget traced).EndsWith term outcome ->
      StopsFirst budget term 0 outcome.term outcome.steps outcome.status := by
    rintro outcome ⟨fuel, ran⟩
    rw [run_weakHead rfl] at ran
    obtain ⟨⟨head, spine, progress⟩, headRan, rfl⟩ :=
      Option.map_eq_some_iff.mp ran
    have first := stopsFirst_of_headRun rfl headRan rfl permits admits
    rw [← settle_steps head spine progress] at first
    exact first
  refine ⟨⟨?ends, ?reaches⟩, ?first, Spine.nodeCount_eq_nodeCount_rebuild⟩
  case ends =>
    rintro ⟨outcome, ended⟩
    obtain ⟨⟨count, counted, reached⟩, stopped, _⟩ := stops outcome ended
    rw [counted, Nat.zero_add] at stopped
    exact ⟨count, _, reached, by rw [stopped]; nofun⟩
  case reaches =>
    rintro ⟨count, reached, steps, stopped⟩
    rw [← Nat.zero_add count] at stopped
    obtain ⟨fuel, result, ran⟩ := exists_headRun_of_headStop?
      ⟨.weakHead, budget, traced⟩ term [] .start rfl steps stopped rfl permits
      admits
    exact ⟨_, fuel, by rw [run_weakHead rfl, ran, Option.map_some]⟩
  case first =>
    intro outcome ended
    obtain ⟨⟨count, counted, reached⟩, stopped, passed⟩ := stops outcome ended
    rw [Nat.zero_add] at counted
    subst counted
    refine ⟨?_, stopped, ?_⟩
    · intro other
      constructor
      · intro steps
        exact steps.unique (fun _ _ _ => HeadStep.deterministic) reached
      · rintro rfl
        exact reached
    · intro earlier other less steps
      have none := passed earlier other (by omega) steps
      rwa [Nat.zero_add] at none

/-- `(λ. 0 0 0) (λ. 0 0 0)` grows by seven nodes with each step.  With two steps
and twenty-six nodes both limits are met after the second step, and the size is
what stops the run; the first step is within both. -/
theorem run_weakHead_stops_first_growing :
    let zero := Term.var .nowhere 0
    let copy := Term.abs .nowhere none (.app .nowhere (.app .nowhere zero zero)
      zero)
    let start := Term.app .nowhere copy copy
    let once := Term.app .nowhere start copy
    let twice := Term.app .nowhere once copy
    let budget := Budget.mk 2 26
    (Plan.mk .weakHead budget false).EndsWith start
        ⟨twice, .sizeLimit, 2, []⟩ ∧
      twice.nodeCount = 27 ∧ twice.hasHeadRedex = true ∧
      budget.headStop? 2 twice = some .sizeLimit ∧
      Steps (HeadStep .weakHead) 2 start twice ∧
      budget.headStop? 1 once = none := by
  intro zero copy start once twice budget
  have ended : (Plan.mk .weakHead budget false).EndsWith start
      ⟨twice, .sizeLimit, 2, []⟩ :=
    ⟨2, by decide⟩
  obtain ⟨_, first, _⟩ := run_weakHead_stops_first budget false start
  obtain ⟨reached, stopped, passed⟩ := first _ ended
  refine ⟨ended, rfl, rfl, stopped, (reached _).mpr rfl, ?_⟩
  exact passed 1 once (by decide) (Steps.single (.contract ..))

end Plan
end LambdaCalculus
