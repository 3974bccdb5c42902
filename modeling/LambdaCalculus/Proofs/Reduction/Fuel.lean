import LambdaCalculus.Proofs.Reduction.HeadRun

/-!
# Fuel

The fuel of a run bounds its recursion and nothing else: more fuel does not
change what a head run or a normalization gives.  So a run has one outcome at
most.  One level of normalization is described by what its head run leaves: a
limit that has been met, an abstraction, or a variable with its arguments.
-/

namespace LambdaCalculus
namespace Plan

/-! ## Head runs -/

/-- More fuel does not change where a head run ends. -/
theorem headRun_mono
    {plan : Plan}
    (enough : fuel ≤ more)
    (ran : plan.headRun fuel term pending progress = some result) :
    plan.headRun more term pending progress = some result := by
  induction fuel generalizing more term pending progress with
  | zero => cases ran
  | succ fuel inductionHypothesis =>
      obtain ⟨more, rfl⟩ : ∃ less, more = less + 1 :=
        ⟨more - 1, by omega⟩
      cases redex : (pending.rebuild term).hasHeadRedex with
      | false =>
          rw [headRun_final plan fuel progress redex] at ran
          rw [headRun_final plan more progress redex]
          exact ran
      | true =>
          obtain ⟨binderSpan, declared, body, frame, rest, unwound⟩ :=
            Term.unwind_of_hasHeadRedex redex
          rw [headRun_redex plan fuel progress unwound] at ran
          rw [headRun_redex plan more progress unwound]
          split at ran
          next exhausted =>
              rw [if_pos exhausted]
              exact ran
          next left =>
              rw [if_neg left]
              split at ran
              next exceeded =>
                  rw [if_pos exceeded]
                  exact ran
              next within =>
                  rw [if_neg within]
                  exact inductionHypothesis (Nat.le_of_succ_le_succ enough) ran

/-! ## One level of normalization -/

/-- Normalization ends with its head run when a limit has stopped that. -/
theorem normalize_of_stopped
    {plan : Plan}
    (headRan : plan.headRun fuel term [] before = some (head, spine, after))
    (stopped : after.status ≠ .normal) :
    plan.normalize (fuel + 1) term before =
      some (spine.rebuild head, after) := by
  rw [normalize_succ, headRan]
  simp only [if_neg stopped]

/-- Normalization goes on under the binder of an abstraction. -/
theorem normalize_of_abs
    {plan : Plan}
    (headRan : plan.headRun fuel term [] before =
      some (.abs span declared body, spine, after))
    (going : after.status = .normal) :
    plan.normalize (fuel + 1) term before =
      (plan.normalize fuel body after).map fun reached =>
        (spine.rebuild (.abs span declared reached.1), reached.2) := by
  rw [normalize_succ, headRan]
  simp only [if_pos going]
  cases plan.normalize fuel body after <;> rfl

/-- Normalization goes on in the arguments of a variable. -/
theorem normalize_of_var
    {plan : Plan}
    (headRan : plan.headRun fuel term [] before =
      some (.var span index, spine, after))
    (going : after.status = .normal) :
    plan.normalize (fuel + 1) term before =
      (plan.normalizeSpine fuel spine after).map fun reached =>
        (reached.1.rebuild (.var span index), reached.2) := by
  rw [normalize_succ, headRan]
  simp only [if_pos going]
  cases plan.normalizeSpine fuel spine after <;> rfl

/-- The first argument is normalized before the others. -/
theorem normalizeSpine_cons
    {plan : Plan}
    {before : Progress}
    (fuel : Nat)
    (frame : Frame)
    (rest : Spine)
    (going : before.status = .normal) :
    plan.normalizeSpine (fuel + 1) (frame :: rest) before =
      (plan.normalize fuel frame.argument before).bind fun first =>
        (plan.normalizeSpine fuel rest first.2).map fun others =>
          ({ frame with argument := first.1 } :: others.1, others.2) := by
  rw [normalizeSpine_succ, if_pos going]
  cases plan.normalize fuel frame.argument before with
  | none => rfl
  | some first =>
      simp only [Option.bind_some]
      cases plan.normalizeSpine fuel rest first.2 <;> rfl

/-- The head that a head run gives is no application. -/
theorem isApplication_of_headRun
    {plan : Plan}
    (headRan : plan.headRun fuel term pending before =
      some (head, spine, after))
    (kept : after.status = .normal) :
    head.isApplication = false :=
  ((headRan_of_headRun headRan).ended.final_of_normal kept).1

/-- How one level of normalization comes to its result. -/
inductive Level
    (plan : Plan)
    (fuel : Nat)
    (term : Term)
    (before : Progress) : Term -> Progress -> Prop
  /-- A limit has stopped the head run. -/
  | stopped
      (headRan : plan.headRun fuel term [] before = some (head, spine, after))
      (stopped : after.status ≠ .normal) :
      Level plan fuel term before (spine.rebuild head) after
  /-- The head run has left an abstraction, whose body is normalized. -/
  | body
      (span : Span)
      (declared : Option TypeId)
      (headRan : plan.headRun fuel term [] before =
        some (.abs span declared body, [], between))
      (going : between.status = .normal)
      (bodyRan : plan.normalize fuel body between = some (finish, after)) :
      Level plan fuel term before (.abs span declared finish) after
  /-- The head run has left a variable, whose arguments are normalized. -/
  | arguments
      (span : Span)
      (index : Nat)
      (headRan : plan.headRun fuel term [] before =
        some (.var span index, spine, between))
      (going : between.status = .normal)
      (spineRan : plan.normalizeSpine fuel spine between =
        some (finish, after)) :
      Level plan fuel term before (finish.rebuild (.var span index)) after

theorem level_of_normalize
    {plan : Plan}
    (ran : plan.normalize (fuel + 1) term before = some (finish, after)) :
    Level plan fuel term before finish after := by
  cases headRan : plan.headRun fuel term [] before with
  | none =>
      rw [normalize_succ, headRan] at ran
      cases ran
  | some reached =>
      obtain ⟨head, spine, between⟩ := reached
      by_cases going : between.status = .normal
      · obtain ⟨whole, noRedex⟩ :=
          (headRan_of_headRun headRan).ended.final_of_normal going
        cases head with
        | app span function argument => cases whole
        | var span index =>
            rw [normalize_of_var headRan going, Option.map_eq_some_iff] at ran
            obtain ⟨_, spineRan, same⟩ := ran
            cases same
            exact .arguments span index headRan going spineRan
        | abs span declared body =>
            obtain rfl := Term.spine_eq_nil_of_abs noRedex
            rw [normalize_of_abs headRan going, Option.map_eq_some_iff] at ran
            obtain ⟨_, bodyRan, same⟩ := ran
            cases same
            exact .body span declared headRan going bodyRan
      · rw [normalize_of_stopped headRan going] at ran
        cases ran
        exact .stopped headRan going

/-- The two runs that make up the normalization of some arguments. -/
theorem exists_of_normalizeSpine_cons
    {plan : Plan}
    {before : Progress}
    (ran : plan.normalizeSpine (fuel + 1) (frame :: rest) before =
      some (finish, after))
    (going : before.status = .normal) :
    ∃ argument between others,
      plan.normalize fuel frame.argument before = some (argument, between) ∧
      plan.normalizeSpine fuel rest between = some (others, after) ∧
      finish = { frame with argument } :: others := by
  rw [normalizeSpine_cons fuel frame rest going,
    Option.bind_eq_some_iff] at ran
  obtain ⟨first, argumentRan, restRan⟩ := ran
  obtain ⟨others, othersRan, same⟩ := Option.map_eq_some_iff.mp restRan
  cases same
  exact ⟨_, _, _, argumentRan, othersRan, rfl⟩

/-! ## Whole runs -/

/-- More fuel does not change what normalization gives. -/
theorem normalize_mono
    (plan : Plan)
    (enough : fuel ≤ more) :
    (∀ term before result,
      plan.normalize fuel term before = some result ->
        plan.normalize more term before = some result) ∧
    (∀ spine before result,
      plan.normalizeSpine fuel spine before = some result ->
        plan.normalizeSpine more spine before = some result) := by
  induction fuel generalizing more with
  | zero =>
      constructor
      · intro term before result ran
        cases ran
      · intro spine before result ran
        cases ran
  | succ fuel inductionHypothesis =>
      obtain ⟨more, rfl⟩ : ∃ less, more = less + 1 :=
        ⟨more - 1, by omega⟩
      have less := Nat.le_of_succ_le_succ enough
      obtain ⟨terms, spines⟩ := inductionHypothesis less
      constructor
      · rintro term before ⟨finish, after⟩ ran
        cases level_of_normalize ran with
        | stopped headRan stopped =>
            exact normalize_of_stopped (headRun_mono less headRan) stopped
        | body span declared headRan going bodyRan =>
            rw [normalize_of_abs (headRun_mono less headRan) going,
              terms _ _ _ bodyRan]
            rfl
        | arguments span index headRan going spineRan =>
            rw [normalize_of_var (headRun_mono less headRan) going,
              spines _ _ _ spineRan]
            rfl
      · rintro spine before ⟨finish, after⟩ ran
        cases spine with
        | nil => exact ran
        | cons frame rest =>
            by_cases going : before.status = .normal
            · obtain ⟨argument, between, others, argumentRan, restRan, rfl⟩ :=
                exists_of_normalizeSpine_cons ran going
              rw [normalizeSpine_cons more frame rest going,
                terms _ _ _ argumentRan, Option.bind_some,
                spines _ _ _ restRan, Option.map_some]
            · rw [normalizeSpine_succ, if_neg going] at ran ⊢
              exact ran

/-- A run has one outcome at most. -/
theorem EndsWith.unique
    {plan : Plan}
    (left : plan.EndsWith term leftOutcome)
    (right : plan.EndsWith term rightOutcome) :
    leftOutcome = rightOutcome := by
  have mono : ∀ {fuel more outcome}, fuel ≤ more ->
      plan.run fuel term = some outcome ->
        plan.run more term = some outcome := by
    intro fuel more outcome enough ran
    cases strategy : plan.strategy with
    | weakHead =>
        simp only [run_weakHead strategy, Option.map_eq_some_iff] at ran ⊢
        obtain ⟨reached, headRan, rfl⟩ := ran
        exact ⟨reached, headRun_mono enough headRan, rfl⟩
    | full =>
        simp only [run_full strategy, Option.map_eq_some_iff] at ran ⊢
        obtain ⟨reached, normalized, rfl⟩ := ran
        exact ⟨reached, (normalize_mono plan enough).1 _ _ _ normalized, rfl⟩
  obtain ⟨leftFuel, leftRan⟩ := left
  obtain ⟨rightFuel, rightRan⟩ := right
  have fromLeft := mono (Nat.le_max_left leftFuel rightFuel) leftRan
  have fromRight := mono (Nat.le_max_right leftFuel rightFuel) rightRan
  rw [fromLeft] at fromRight
  exact Option.some.inj fromRight

end Plan
end LambdaCalculus
