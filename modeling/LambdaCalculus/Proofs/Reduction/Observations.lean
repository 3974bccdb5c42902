import LambdaCalculus.Proofs.Reduction.Invariants
import LambdaCalculus.Proofs.Term.Nodes

/-!
# What a traced run records

A traced run records its contractions one by one, numbered from one.  The head
strategy shows the whole term after each of them, the full strategy the part of
it that it is working on.  A contraction that makes the term too large is counted
but not recorded, so a run that the node limit stops has one record less than
steps.
-/

namespace LambdaCalculus

/-! ## Numbers -/

/-- The contractions have been recorded in order, latest first.  Only the one
that has made the term too large is missing. -/
structure Progress.Numbered (progress : Progress) : Prop where
  /-- All contractions are there. -/
  complete : progress.status ≠ .sizeLimit ->
    progress.observations.map Observation.step =
      (List.range' 1 progress.steps).reverse
  /-- All contractions but the last are there. -/
  lastMissing : progress.status = .sizeLimit ->
    ∃ recorded, progress.steps = recorded + 1 ∧
      progress.observations.map Observation.step =
        (List.range' 1 recorded).reverse

namespace Plan

variable {plan : Plan}

theorem reverse_range'_succ
    (count : Nat) :
    (List.range' 1 (count + 1)).reverse =
      (count + 1) :: (List.range' 1 count).reverse := by
  rw [List.range'_1_concat, List.reverse_append, Nat.add_comm 1]
  rfl

theorem keeps_numbered
    (traced : plan.traced = true) :
    plan.Keeps Progress.Numbered where
  contracted progress head spine going numbered := by
    have numbers := numbered.complete (by rw [going]; nofun)
    constructor
    · intro _
      rw [observe_steps, observe, if_pos traced, List.map_cons, numbers,
        reverse_range'_succ]
    · intro tooLarge
      rw [observe_status, going] at tooLarge
      cases tooLarge
  exhausted progress going numbered := by
    have numbers := numbered.complete (by rw [going]; nofun)
    exact ⟨fun _ => numbers, nofun⟩
  exceeded progress going numbered := by
    have numbers := numbered.complete (by rw [going]; nofun)
    exact ⟨fun within => absurd rfl within,
      fun _ => ⟨progress.steps, rfl, numbers⟩⟩

/-- A traced run numbers its contractions; one that has made the term too large
is not recorded. -/
theorem EndsWith.numbers
    (ended : plan.EndsWith term outcome)
    (traced : plan.traced = true) :
    (outcome.status ≠ .sizeLimit ->
      outcome.trace.map Observation.step = List.range' 1 outcome.steps) ∧
    (outcome.status = .sizeLimit ->
      ∃ recorded, outcome.steps = recorded + 1 ∧
        outcome.trace.map Observation.step = List.range' 1 recorded) := by
  have starts : Progress.Numbered .start := ⟨fun _ => rfl, nofun⟩
  obtain ⟨progress, numbered, sameSteps, sameTrace, sizeLimit⟩ :=
    (keeps_numbered traced).endsWith starts ended
  rw [sameSteps, sameTrace, List.map_reverse, ne_eq, sizeLimit]
  constructor
  · intro within
    rw [numbered.complete within, List.reverse_reverse]
  · intro tooLarge
    obtain ⟨recorded, counted, numbers⟩ := numbered.lastMissing tooLarge
    exact ⟨recorded, counted, by rw [numbers, List.reverse_reverse]⟩

/-! ## The head strategy shows whole terms -/

/-- What the head strategy records is the term after so many head steps. -/
theorem EndsWith.headSteps_of_mem_trace
    (ended : plan.EndsWith term outcome)
    (weakHead : plan.strategy = .weakHead)
    (recorded : observation ∈ outcome.trace) :
    Steps (HeadStep .weakHead) observation.step term observation.focus := by
  obtain ⟨fuel, ran⟩ := ended
  rw [run_weakHead weakHead] at ran
  obtain ⟨⟨head, spine, progress⟩, headRan, rfl⟩ :=
    Option.map_eq_some_iff.mp ran
  have member : observation ∈ progress.observations := by
    simpa [Progress.outcome] using recorded
  rcases headSteps_of_observation headRan member with absent | ⟨_, number, steps⟩
  · cases absent
  · have sameNumber : observation.step = _ := number.trans (Nat.zero_add _)
    rw [weakHead, ← sameNumber] at steps
    exact steps

/-! ## The full strategy shows parts of terms -/

/-- The observation shows a part of the term to which the leftmost steps lead that
are counted after the given number of steps. -/
def Shows
    (start : Term)
    (steps : Nat)
    (observation : Observation) : Prop :=
  ∃ count reached path, observation.step = steps + count ∧
    Steps LeftmostStep count start reached ∧
    reached.nodeAt? path = some observation.focus

theorem Shows.after
    {before between : Progress}
    (performs : Performs plan start before middle between)
    (shown : Shows middle between.steps observation) :
    Shows start before.steps observation := by
  obtain ⟨count, counted, steps⟩ := performs.steps
  obtain ⟨more, reached, path, number, moreSteps, found⟩ := shown
  refine ⟨count + more, reached, path, ?_, steps.trans moreSteps, found⟩
  rw [number, counted, Nat.add_assoc]

/-- What is a part of a term is a part of every term around it. -/
theorem Shows.surround
    (surround : Term -> Term)
    (way : List Branch)
    (inside : ∀ inner, (surround inner).nodeAt? way = some inner)
    (carried : ∀ {start finish}, LeftmostStep start finish ->
      LeftmostStep (surround start) (surround finish))
    (shown : Shows start steps observation) :
    Shows (surround start) steps observation := by
  obtain ⟨count, reached, path, number, leftmost, found⟩ := shown
  refine ⟨count, surround reached, way ++ path, number,
    leftmost.map surround carried, ?_⟩
  rw [Term.nodeAt?_append, inside, Option.bind_some, found]

/-- The head of a spine is behind as many functions as there are arguments. -/
theorem nodeAt?_rebuild
    (head : Term)
    (spine : Spine) :
    (spine.rebuild head).nodeAt? (List.replicate spine.length .function) =
      some head := by
  induction spine generalizing head with
  | nil => rfl
  | cons frame rest inductionHypothesis =>
      rw [Spine.rebuild_cons, List.length_cons, List.replicate_succ',
        Term.nodeAt?_append, inductionHypothesis]
      rfl

/-- Normalizing with this fuel records parts of the term that is normalized. -/
def NormalizesShowing
    (plan : Plan)
    (fuel : Nat) : Prop :=
  ∀ {term before finish after},
    before.status = .normal ->
    plan.normalize fuel term before = some (finish, after) ->
    ∀ observation ∈ after.observations,
      observation ∈ before.observations ∨
        Shows term before.steps observation

/-- Normalizing the arguments of a head without a redex, with this fuel, records
parts of the whole application. -/
def NormalizesSpineShowing
    (plan : Plan)
    (fuel : Nat) : Prop :=
  ∀ head {spine before finish after},
    head.isAbstraction = false ->
    head.hasRedex = false ->
    before.status = .normal ->
    plan.normalizeSpine fuel spine before = some (finish, after) ->
    ∀ observation ∈ after.observations,
      observation ∈ before.observations ∨
        Shows (spine.rebuild head) before.steps observation

/-- One more level of fuel for a spine.  Each argument is normalized in the middle
of the application that it belongs to. -/
theorem NormalizesSpineShowing.succ
    (full : plan.strategy = .full)
    (terms : NormalizesShowing plan fuel)
    (spines : NormalizesSpineShowing plan fuel) :
    NormalizesSpineShowing plan (fuel + 1) := by
  intro head spine before finish after neutral normal going ran observation
    recorded
  cases spine with
  | nil =>
      cases ran
      exact Or.inl recorded
  | cons frame rest =>
      obtain ⟨argument, between, others, argumentRan, othersRan, rfl⟩ :=
        exists_of_normalizeSpine_cons ran going
      obtain ⟨argumentPerforms, argumentEnded⟩ :=
        (normalizesLeftmost full fuel).1 going argumentRan
      let around := fun term => Spine.rebuild (.app frame.span head term) rest
      have carried : ∀ {start finish}, LeftmostStep start finish ->
          LeftmostStep (around start) (around finish) := fun step =>
        (LeftmostStep.argument frame.span neutral normal step).rebuild rfl rest
      have early : observation ∈ between.observations ->
          observation ∈ before.observations ∨
            Shows (around frame.argument) before.steps observation := by
        intro earlier
        rcases terms going argumentRan observation earlier with start | shown
        · exact Or.inl start
        · refine Or.inr (shown.surround around
            (List.replicate rest.length .function ++ [.argument]) ?_ carried)
          intro inner
          rw [Term.nodeAt?_append, nodeAt?_rebuild]
          rfl
      by_cases goesOn : between.status = .normal
      · have noRedex := argumentEnded.hasRedex_eq_false goesOn
        have whole : (Term.app frame.span head argument).hasRedex = false := by
          rw [Term.hasRedex_app, neutral, normal, noRedex]
          rfl
        rcases spines _ rfl whole goesOn othersRan observation recorded with
          earlier | shown
        · exact early earlier
        · exact Or.inr (shown.after (argumentPerforms.map around carried))
      · rw [(normalizeSpine_stopped othersRan goesOn).2] at recorded
        exact early recorded

/-- What the head run of a level records, the level records. -/
theorem shows_of_headRun
    {before between : Progress}
    (full : plan.strategy = .full)
    (headRan : plan.headRun fuel term [] before = some (head, spine, between))
    (recorded : observation ∈ between.observations) :
    observation ∈ before.observations ∨ Shows term before.steps observation := by
  rcases headSteps_of_observation headRan recorded with
    earlier | ⟨count, number, steps⟩
  · exact Or.inl earlier
  · rw [full] at steps
    exact Or.inr ⟨count, observation.focus, [], number,
      steps.map id HeadStep.leftmost, rfl⟩

theorem NormalizesShowing.succ
    (full : plan.strategy = .full)
    (terms : NormalizesShowing plan fuel)
    (spines : NormalizesSpineShowing plan fuel) :
    NormalizesShowing plan (fuel + 1) := by
  intro term before finish after going ran observation recorded
  cases level_of_normalize ran with
  | stopped headRan _ => exact shows_of_headRun full headRan recorded
  | body span declared headRan goesOn bodyRan =>
      have performs := (headRan_of_headRun headRan).performs full
      rcases terms goesOn bodyRan observation recorded with earlier | shown
      · exact shows_of_headRun full headRan earlier
      · have inside := shown.surround (.abs span declared) [.body]
          (fun _ => rfl) (LeftmostStep.body span declared)
        exact Or.inr (inside.after performs)
  | arguments span index headRan goesOn spineRan =>
      have performs := (headRan_of_headRun headRan).performs full
      rcases spines (.var span index) rfl rfl goesOn spineRan observation
        recorded with earlier | shown
      · exact shows_of_headRun full headRan earlier
      · exact Or.inr (shown.after performs)

theorem normalizesShowing
    (full : plan.strategy = .full)
    (fuel : Nat) :
    NormalizesShowing plan fuel ∧ NormalizesSpineShowing plan fuel := by
  induction fuel with
  | zero =>
      constructor
      · intro term before finish after going ran
        cases ran
      · intro head spine before finish after neutral normal going ran
        cases ran
  | succ fuel inductionHypothesis =>
      obtain ⟨terms, spines⟩ := inductionHypothesis
      exact ⟨terms.succ full spines, spines.succ full terms⟩

/-- What the full strategy records is a part of the term after so many leftmost
steps. -/
theorem EndsWith.leftmostSteps_of_mem_trace
    (ended : plan.EndsWith term outcome)
    (full : plan.strategy = .full)
    (recorded : observation ∈ outcome.trace) :
    ∃ reached path, Steps LeftmostStep observation.step term reached ∧
      reached.nodeAt? path = some observation.focus := by
  obtain ⟨fuel, ran⟩ := ended
  rw [run_full full] at ran
  obtain ⟨⟨finish, progress⟩, normalized, rfl⟩ :=
    Option.map_eq_some_iff.mp ran
  have member : observation ∈ progress.observations := by
    simpa [Progress.outcome] using recorded
  rcases (normalizesShowing full fuel).1 rfl normalized observation member with
    absent | ⟨count, reached, path, number, steps, found⟩
  · cases absent
  · have sameNumber : observation.step = count :=
      number.trans (Nat.zero_add count)
    rw [← sameNumber] at steps
    exact ⟨reached, path, steps, found⟩

/-! ## Whole runs -/

/-- The last record of a head run that has recorded all its contractions shows
the term that the run gives. -/
theorem EndsWith.getLast?_trace
    (ended : plan.EndsWith term outcome)
    (weakHead : plan.strategy = .weakHead)
    (numbers : outcome.trace.map Observation.step =
      List.range' 1 outcome.steps)
    (contracted : 0 < outcome.steps) :
    outcome.trace.getLast? = some ⟨outcome.steps, outcome.term⟩ := by
  have last : (outcome.trace.map Observation.step).getLast? =
      some outcome.steps := by
    rw [numbers, List.getLast?_range', if_neg (by omega)]
    congr 1
    omega
  rw [List.getLast?_map, Option.map_eq_some_iff] at last
  obtain ⟨observation, found, number⟩ := last
  have shown := ended.headSteps_of_mem_trace weakHead
    (List.mem_of_getLast? found)
  rw [number] at shown
  have same : observation.focus = outcome.term :=
    shown.unique (fun _ _ _ => HeadStep.deterministic)
      (ended.headSteps_term weakHead)
  rw [found, ← number, ← same]

/-- A traced run records all its contractions in order exactly if the node limit
does not stop it; if it does, the contraction that has made the term too large is
the only one that is missing.  The head strategy shows the whole term after each
contraction, and the last record shows the term that it gives.  The full strategy
shows a part of the whole term. -/
theorem run_records_contractions
    (plan : Plan)
    (term : Term)
    (outcome : Outcome)
    (traced : plan.traced = true)
    (ended : plan.EndsWith term outcome) :
    (outcome.trace.map Observation.step = List.range' 1 outcome.steps ↔
      outcome.status ≠ .sizeLimit) ∧
    (outcome.status = .sizeLimit ->
      ∃ recorded, outcome.steps = recorded + 1 ∧
        outcome.trace.map Observation.step = List.range' 1 recorded) ∧
    (plan.strategy = .weakHead ->
      (∀ observation ∈ outcome.trace, ∀ reached,
        Steps (HeadStep .weakHead) observation.step term reached ↔
          reached = observation.focus) ∧
      (outcome.status ≠ .sizeLimit -> 0 < outcome.steps ->
        outcome.trace.getLast? = some ⟨outcome.steps, outcome.term⟩)) ∧
    (plan.strategy = .full ->
      ∀ observation ∈ outcome.trace,
        ∃ reached path, Steps LeftmostStep observation.step term reached ∧
          reached.nodeAt? path = some observation.focus) := by
  obtain ⟨complete, lastMissing⟩ := ended.numbers traced
  refine ⟨⟨?_, complete⟩, lastMissing, ?_, ?_⟩
  · intro numbers tooLarge
    obtain ⟨recorded, counted, fewer⟩ := lastMissing tooLarge
    have lengths := congrArg List.length (numbers.symm.trans fewer)
    rw [List.length_range', List.length_range'] at lengths
    omega
  · intro weakHead
    refine ⟨?_, fun within =>
      ended.getLast?_trace weakHead (complete within)⟩
    intro observation recorded reached
    have shown := ended.headSteps_of_mem_trace weakHead recorded
    constructor
    · intro steps
      exact steps.unique (fun _ _ _ => HeadStep.deterministic) shown
    · rintro rfl
      exact shown
  · intro full observation recorded
    exact ended.leftmostSteps_of_mem_trace full recorded

/-- `(λ. λ. 1) (λ. 0) (λ. 0 0)` is contracted twice, and both contractions are
recorded, the second one with the final term. -/
theorem run_records_contractions_constant :
    let zero := Term.var .nowhere 0
    let identity := Term.abs .nowhere none zero
    let copy := Term.abs .nowhere none (.app .nowhere zero zero)
    let keep := Term.abs .nowhere none (.abs .nowhere none (.var .nowhere 1))
    let start := Term.app .nowhere (.app .nowhere keep identity) copy
    let once := Term.app .nowhere (.abs .nowhere none identity) copy
    let plan := Plan.mk .weakHead .unlimited true
    let outcome := Outcome.mk identity .normal 2 [⟨1, once⟩, ⟨2, identity⟩]
    plan.traced = true ∧ plan.EndsWith start outcome ∧
      outcome.trace.map Observation.step = List.range' 1 2 ∧
      Steps (HeadStep .weakHead) 1 start once ∧
      outcome.trace.getLast? = some ⟨2, identity⟩ := by
  intro zero identity copy keep start once plan outcome
  have ended : plan.EndsWith start outcome := ⟨3, by decide⟩
  obtain ⟨numbers, _, shows, _⟩ :=
    run_records_contractions plan start outcome rfl ended
  obtain ⟨whole, last⟩ := shows rfl
  refine ⟨rfl, ended, numbers.mpr (by decide), ?_, last (by decide) (by decide)⟩
  exact (whole ⟨1, once⟩ (by decide) once).mpr rfl

/-- With four nodes `(λ. 0 0) (λ. 0)` becomes too large by its only contraction,
which is counted but not recorded. -/
theorem run_omits_exceeding_contraction :
    let zero := Term.var .nowhere 0
    let identity := Term.abs .nowhere none zero
    let copy := Term.abs .nowhere none (.app .nowhere zero zero)
    let outcome := Outcome.mk (.app .nowhere identity identity) .sizeLimit 1 []
    (Plan.mk .weakHead ⟨0, 4⟩ true).EndsWith (.app .nowhere copy identity)
        outcome ∧
      outcome.trace.map Observation.step ≠ List.range' 1 outcome.steps :=
  ⟨⟨2, by decide⟩, by decide⟩

end Plan
end LambdaCalculus
