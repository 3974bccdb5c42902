import LambdaCalculus.Proofs.Reduction.Closedness
import LambdaCalculus.Proofs.Reduction.Termination
import LambdaCalculus.Proofs.Typing.Derivation

/-!
# Typed terms have no infinite reductions

A term is reducible at a function type when its applications to reducible
arguments are reducible, and at any other type when it has no infinite
sequence of contractions.  Reducible terms have no infinite sequence at any
type, and a typed term is reducible once its variables are instantiated with
reducible terms.  Therefore runs without limits on a program that passes the
check end, for both strategies, and they end with a normal term.
-/

namespace LambdaCalculus
namespace Term

/-! ## Instantiating several variables -/

/-- Instantiates the variables from `place` on with the arguments, the last
argument first. -/
def instantiateAllAt
    (term : Term) : Nat -> List Term -> Term
  | _, [] => term
  | place, argument :: arguments =>
      (term.instantiateAllAt (place + 1) arguments).instantiateAt place argument

theorem instantiateAllAt_abs
    (span : Span)
    (declared : Option TypeId)
    (body : Term)
    (place : Nat)
    (arguments : List Term) :
    (abs span declared body).instantiateAllAt place arguments =
      abs span declared (body.instantiateAllAt (place + 1) arguments) := by
  induction arguments generalizing place with
  | nil => rfl
  | cons argument arguments inductionHypothesis =>
      rw [instantiateAllAt, inductionHypothesis]
      rfl

theorem instantiateAllAt_app
    (span : Span)
    (function operand : Term)
    (place : Nat)
    (arguments : List Term) :
    (app span function operand).instantiateAllAt place arguments =
      app span (function.instantiateAllAt place arguments)
        (operand.instantiateAllAt place arguments) := by
  induction arguments generalizing place with
  | nil => rfl
  | cons argument arguments inductionHypothesis =>
      rw [instantiateAllAt, inductionHypothesis]
      rfl

theorem instantiateAllAt_var_of_lt
    {place : Nat}
    (span : Span)
    (arguments : List Term)
    (bound : index < place) :
    (var span index).instantiateAllAt place arguments = var span index := by
  induction arguments generalizing place with
  | nil => rfl
  | cons argument arguments inductionHypothesis =>
      rw [instantiateAllAt, inductionHypothesis (Nat.lt_succ_of_lt bound),
        instantiateAt_var_of_lt span argument bound]

/-- A variable that has an argument becomes that argument. -/
theorem instantiateAllAt_var_of_getElem?
    {index : Nat}
    (span : Span)
    (place : Nat)
    {arguments : List Term}
    (found : arguments[index]? = some argument) :
    (var span (place + index)).instantiateAllAt place arguments =
      argument.raise place 0 := by
  induction arguments generalizing place index with
  | nil => cases found
  | cons first arguments inductionHypothesis =>
      rw [instantiateAllAt]
      cases index with
      | zero =>
          cases found
          rw [Nat.add_zero,
            instantiateAllAt_var_of_lt span arguments (Nat.lt_succ_self place),
            instantiateAt_var_of_eq span argument rfl]
      | succ index =>
          rw [Nat.add_comm index 1, ← Nat.add_assoc,
            inductionHypothesis (place + 1) found]
          exact instantiateAt_raise_cancel argument first (Nat.zero_le place)
            (Nat.le_add_left place 0)

/-! ## Terms without infinite reductions -/

/-- Every sequence of contractions that starts at the term ends. -/
def StronglyNormalizes (term : Term) : Prop :=
  Acc (fun next start => BetaStep start next) term

namespace StronglyNormalizes

/-- A term inherits the property from a term that follows all its steps. -/
theorem of_simulation
    (surround : Term -> Term)
    (carried : ∀ {start next},
      BetaStep start next -> BetaStep (surround start) (surround next))
    (normalizes : (surround term).StronglyNormalizes) :
    term.StronglyNormalizes := by
  generalize surrounded : surround term = whole at normalizes
  induction normalizes generalizing term with
  | intro whole _ inductionHypothesis =>
      subst surrounded
      exact Acc.intro term fun next step =>
        inductionHypothesis (surround next) (carried step) rfl

/-- Leftmost steps lead to a term without a redex. -/
theorem leftmost
    (normalizes : term.StronglyNormalizes) :
    ∃ finish, LeftmostSteps term finish ∧ finish.hasRedex = false := by
  induction normalizes with
  | intro term _ inductionHypothesis =>
      cases redex : term.hasRedex with
      | false => exact ⟨term, .refl, redex⟩
      | true =>
          obtain ⟨next, step⟩ := (LeftmostStep.exists_iff term).mpr redex
          obtain ⟨finish, steps, normal⟩ := inductionHypothesis next step.beta
          exact ⟨finish, .head step steps, normal⟩

end StronglyNormalizes
end Term

/-! ## Reducible terms -/

/-- The term behaves like one of the given type. -/
def Reducible : TypeTree -> Term -> Prop
  | .arrow parameter result, term =>
      ∀ span argument, Reducible parameter argument ->
        Reducible result (.app span term argument)
  | .invalid, term => term.StronglyNormalizes
  | .error, term => term.StronglyNormalizes
  | .base _, term => term.StronglyNormalizes

namespace Reducible

theorem step
    {tree : TypeTree}
    (reducible : Reducible tree start)
    (step : BetaStep start finish) :
    Reducible tree finish := by
  induction tree generalizing start finish with
  | invalid => exact reducible.inv step
  | error => exact reducible.inv step
  | base name => exact reducible.inv step
  | arrow parameter result parameterHypothesis resultHypothesis =>
      intro span argument argumentReducible
      exact resultHypothesis (reducible span argument argumentReducible)
        (BetaStep.function span argument step)

/-- A reducible term has no infinite reduction, and a term that is no
abstraction is reducible if every step makes it so.  The second gives the
variables that the first needs at a function type. -/
theorem normalizes_and_of_steps
    (tree : TypeTree) :
    (∀ term, Reducible tree term -> term.StronglyNormalizes) ∧
      ∀ term, term.isAbstraction = false ->
        (∀ next, BetaStep term next -> Reducible tree next) ->
        Reducible tree term := by
  induction tree with
  | invalid => exact ⟨fun _ => id, fun term _ steps => Acc.intro term steps⟩
  | error => exact ⟨fun _ => id, fun term _ steps => Acc.intro term steps⟩
  | base name => exact ⟨fun _ => id, fun term _ steps => Acc.intro term steps⟩
  | arrow parameter result parameterHypothesis resultHypothesis =>
      constructor
      · intro term reducible
        have variableReducible : Reducible parameter (.var .nowhere 0) := by
          apply parameterHypothesis.2 _ rfl
          intro next step
          cases step
        have normalizes := resultHypothesis.1 _
          (reducible .nowhere _ variableReducible)
        exact normalizes.of_simulation (.app .nowhere · _)
          (BetaStep.function .nowhere _)
      · intro term neutral steps span argument argumentReducible
        have normalizes := parameterHypothesis.1 argument argumentReducible
        induction normalizes with
        | intro argument _ argumentHypothesis =>
            apply resultHypothesis.2 _ rfl
            intro next step
            cases step with
            | contract => cases neutral
            | function _ _ step =>
                exact steps _ step span argument argumentReducible
            | argument _ _ step =>
                exact argumentHypothesis _ step (argumentReducible.step step)

theorem stronglyNormalizes
    (reducible : Reducible tree term) :
    term.StronglyNormalizes :=
  (normalizes_and_of_steps tree).1 term reducible

theorem of_steps
    (neutral : term.isAbstraction = false)
    (steps : ∀ next, BetaStep term next -> Reducible tree next) :
    Reducible tree term :=
  (normalizes_and_of_steps tree).2 term neutral steps

theorem var
    (tree : TypeTree)
    (span : Span)
    (index : Nat) :
    Reducible tree (.var span index) := by
  apply of_steps rfl
  intro next step
  cases step

/-- An abstraction is reducible if its body is, with any reducible argument.  A step
of its application is inside the body or inside the argument, where steps come to an
end, or it contracts the application. -/
theorem abs
    (span : Span)
    (declared : Option TypeId)
    (instances : ∀ argument, Reducible parameter argument ->
      Reducible result (body.instantiate argument)) :
    Reducible (.arrow parameter result) (.abs span declared body) := by
  intro applicationSpan argument argumentReducible
  have bodyNormalizes : body.StronglyNormalizes :=
    (instances _ (var parameter .nowhere 0)).stronglyNormalizes.of_simulation
      (Term.instantiate · _) (·.instantiateAt 0 _)
  induction bodyNormalizes generalizing argument with
  | intro body _ bodyHypothesis =>
  have argumentNormalizes := argumentReducible.stronglyNormalizes
  induction argumentNormalizes with
  | intro argument _ argumentHypothesis =>
  apply of_steps rfl
  intro next step
  cases step with
  | contract => exact instances argument argumentReducible
  | argument _ _ step =>
      exact argumentHypothesis _ step (argumentReducible.step step)
  | function _ _ step =>
      cases step with
      | body _ _ step =>
          apply bodyHypothesis _ step _ argument argumentReducible
          intro operand operandReducible
          exact (instances operand operandReducible).step
            (step.instantiateAt 0 operand)

end Reducible

/-! ## Typed terms -/

namespace HasTree

/-- A typed term is reducible when its variables are instantiated with
reducible terms of their types. -/
theorem reducible
    (typed : HasTree types context term tree)
    (arguments : List Term)
    (reducibles : List.Forall₂ Reducible context arguments) :
    Reducible tree (term.instantiateAllAt 0 arguments) := by
  induction typed generalizing arguments with
  | @var context index tree span found =>
      obtain ⟨argument, argumentFound, argumentReducible⟩ :=
        exists_getElem?_of_forall₂ reducibles found
      have instantiated :=
        Term.instantiateAllAt_var_of_getElem? span 0 argumentFound
      rw [Nat.zero_add, Term.raise_zero] at instantiated
      rw [instantiated]
      exact argumentReducible
  | abs span bodyTyped inductionHypothesis =>
      rw [Term.instantiateAllAt_abs]
      apply Reducible.abs
      intro argument argumentReducible
      exact inductionHypothesis (argument :: arguments)
        (.cons argumentReducible reducibles)
  | app span functionTyped argumentTyped functionHypothesis
      argumentHypothesis =>
      rw [Term.instantiateAllAt_app]
      exact functionHypothesis arguments reducibles span _
        (argumentHypothesis arguments reducibles)

theorem stronglyNormalizes
    (typed : HasTree types [] term tree) :
    term.StronglyNormalizes :=
  (typed.reducible [] .nil).stronglyNormalizes

theorem closedUnder
    (typed : HasTree types context term tree) :
    term.closedUnder context.length = true := by
  induction typed with
  | var span found =>
      exact decide_eq_true (List.getElem?_eq_some_iff.mp found).1
  | abs span bodyTyped inductionHypothesis => exact inductionHypothesis
  | app span functionTyped argumentTyped functionHypothesis
      argumentHypothesis =>
      rw [Term.closedUnder_app, functionHypothesis, argumentHypothesis]
      rfl

end HasTree

/-! ## Head steps of closed terms -/

namespace Term

/-- The head steps of a closed term without infinite reductions end. -/
theorem StronglyNormalizes.weakHead
    (normalizes : term.StronglyNormalizes)
    (closed : term.closed = true) :
    ∃ count finish, Steps (HeadStep .weakHead) count term finish ∧
      finish.hasHeadRedex = false := by
  induction normalizes with
  | intro term _ inductionHypothesis =>
      cases redex : term.hasHeadRedex with
      | false => exact ⟨0, term, Steps.refl term, redex⟩
      | true =>
          obtain ⟨next, step⟩ := (HeadStep.exists_iff .weakHead term).mpr redex
          obtain ⟨fullStep, nextClosed⟩ := step.full_of_closed closed
          obtain ⟨count, finish, steps, final⟩ :=
            inductionHypothesis next fullStep.leftmost.beta nextClosed
          exact ⟨count + 1, finish, Steps.cons step steps, final⟩

end Term

/-! ## Runs of programs that pass the check -/

/-- A run without limits on a program that passes the check ends, whatever the
strategy.  Its one outcome has the normal status, and its term has no redex that
the strategy contracts: none at the head, or none at all.  The declared numbers
have to denote types, as all numbers do in a pool where the parts of a type are
numbered first. -/
theorem Plan.run_of_check
    (types : TypePool)
    (term : Term)
    (type : TypeId)
    (declares : term.declaresOnly types.denotesType = true)
    (checked : (term.check types).result = .ok type)
    (strategy : Strategy)
    (traced : Bool) :
    ∃ outcome, (Plan.mk strategy .unlimited traced).EndsWith term outcome ∧
      outcome.status = .normal ∧
      (match strategy with
        | .weakHead => outcome.term.hasHeadRedex
        | .full => outcome.term.hasRedex) = false ∧
      ∀ other, (Plan.mk strategy .unlimited traced).EndsWith term other ->
        other = outcome := by
  obtain ⟨tree, typed, _⟩ := Term.hasTree_of_check declares checked
  have normalizes := typed.stronglyNormalizes
  have closed : term.closed = true := typed.closedUnder
  cases strategy with
  | full =>
      obtain ⟨finish, steps, normal⟩ := normalizes.leftmost
      obtain ⟨outcome, ended⟩ := exists_endsWith_of_leftmost traced steps normal
      obtain ⟨status, noRedex, _⟩ := ended.leftmost
      exact ⟨outcome, ended, status, noRedex, fun other otherEnded =>
        otherEnded.unique ended⟩
  | weakHead =>
      obtain ⟨count, finish, steps, final⟩ := normalizes.weakHead closed
      obtain ⟨outcome, ended⟩ := exists_endsWith traced steps final
      exact ⟨outcome, ended, ended.status_of_closed closed,
        ended.headSteps.2.1, fun other otherEnded => otherEnded.unique ended⟩

/-- The runs of both strategies on `(λf:A→A. λx:A. f (f x)) (λy:A. y)` end. -/
theorem Plan.run_of_check_twice :
    let types := ((TypePool.empty.base "A").2.function 1 1).2
    let identity := Term.abs .nowhere (some 1) (.var .nowhere 0)
    let twice := Term.abs .nowhere (some 2) (.abs .nowhere (some 1)
      (.app .nowhere (.var .nowhere 1)
        (.app .nowhere (.var .nowhere 1) (.var .nowhere 0))))
    let term := Term.app .nowhere twice identity
    term.declaresOnly types.denotesType = true ∧
      (term.check types).result = .ok 2 ∧
      ∀ strategy, ∃ outcome,
        (Plan.mk strategy .unlimited true).EndsWith term outcome ∧
          outcome.status = .normal ∧ outcome.term.hasHeadRedex = false := by
  intro types identity twice term
  have declares : term.declaresOnly types.denotesType = true := by decide
  have checked : (term.check types).result = .ok 2 := by decide
  refine ⟨declares, checked, ?_⟩
  intro strategy
  obtain ⟨outcome, ended, normal, noRedex, _⟩ :=
    run_of_check types term 2 declares checked strategy true
  refine ⟨outcome, ended, normal, ?_⟩
  cases strategy with
  | weakHead => exact noRedex
  | full =>
      rw [Bool.eq_false_iff]
      intro redex
      rw [Term.hasRedex_of_hasHeadRedex redex] at noRedex
      cases noRedex

/-! ## Numbers that denote no type -/

/-- Nothing but the term itself can be reached from a term that steps to
itself, if the step is the only one. -/
theorem Steps.eq_of_loop
    {step : Term -> Term -> Prop}
    (steps : Steps step count start finish)
    (deterministic : ∀ start left right,
      step start left -> step start right -> left = right)
    (loop : step start start) :
    finish = start := by
  induction steps with
  | refl term => rfl
  | cons first rest inductionHypothesis =>
      obtain rfl := deterministic _ _ _ first loop
      exact inductionHypothesis loop

/-- With `T` numbered as `T→T` the program `(λx:T. x x) (λx:T. x x)` passes the
check, and no run on it ends.  The number of `T` is one of the pool, but `T`
denotes no type. -/
theorem Plan.run_of_check_circular :
    let types := (TypePool.empty.function 1 1).2
    let double := Term.abs .nowhere (some 1)
      (.app .nowhere (.var .nowhere 0) (.var .nowhere 0))
    let term := Term.app .nowhere double double
    (term.check types).result = .ok 1 ∧ types.isValid 1 = true ∧
      types.denotesType 1 = false ∧
      ∀ strategy traced outcome,
        ¬ (Plan.mk strategy .unlimited traced).EndsWith term outcome := by
  intro types double term
  refine ⟨by decide, by decide, by decide, ?_⟩
  intro strategy traced outcome ended
  cases strategy with
  | weakHead =>
      obtain ⟨steps, noRedex, _⟩ := ended.headSteps
      have loop : HeadStep .weakHead term term :=
        .contract .nowhere .nowhere (some 1) _ double
      rw [steps.eq_of_loop (fun _ _ _ => HeadStep.deterministic) loop]
        at noRedex
      cases noRedex
  | full =>
      obtain ⟨_, noRedex, steps⟩ := ended.leftmostSteps
      have loop : LeftmostStep term term :=
        .contract .nowhere .nowhere (some 1) _ double
      rw [steps.eq_of_loop (fun _ _ _ => LeftmostStep.deterministic) loop]
        at noRedex
      cases noRedex

end LambdaCalculus
