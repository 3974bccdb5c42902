import LambdaCalculus.Term.Substitution

/-!
# Reduction runs

A run contracts redexes in a fixed order until none is left or a budget is
used up.  This module has the parameters and the outcome of a run, and the
application spine on which a run works.
-/

namespace LambdaCalculus

/-- Which redexes are contracted. -/
inductive Strategy
  /-- The redex at the head, as long as there is one. -/
  | weakHead
  /-- The leftmost outermost redex, also under binders and in arguments. -/
  | full
deriving DecidableEq

namespace Strategy

/-- The name of a strategy. -/
def name : Strategy -> Text
  | .weakHead => "whnf"
  | .full => "full"

/-- The strategy with a given name. -/
def ofName? (name : Text) : Option Strategy :=
  [Strategy.weakHead, .full].find? (fun strategy => strategy.name == name)

/-- The name of the strategy with a given number. -/
def nameOfNumber (number : Nat) : Text :=
  ([Strategy.weakHead, .full].map name).getD number "unknown"

end Strategy

/-- How a run ended. -/
inductive Status
  /-- No redex of the strategy is left. -/
  | normal
  /-- A redex is left and no step is. -/
  | stepLimit
  /-- The term has become too large. -/
  | sizeLimit
  /-- The head is a variable with arguments. -/
  | stuck
deriving DecidableEq

namespace Status

/-- The name of a status. -/
def name : Status -> Text
  | .normal => "normal"
  | .stepLimit => "step-limit"
  | .sizeLimit => "size-limit"
  | .stuck => "stuck"

/-- The name of the status with a given number. -/
def nameOfNumber (number : Nat) : Text :=
  ([Status.normal, .stepLimit, .sizeLimit, .stuck].map name).getD number
    "unknown"

end Status

/-- What a run may use; zero stands for no limit. -/
structure Budget where
  /-- The greatest number of contractions. -/
  maxSteps : Nat
  /-- The greatest number of nodes after a contraction. -/
  maxNodes : Nat
deriving DecidableEq

namespace Budget

/-- The budget without limits. -/
def unlimited : Budget := ⟨0, 0⟩

/-- One more contraction after `steps` is beyond the budget. -/
def stepsExhausted
    (budget : Budget)
    (steps : Nat) : Bool :=
  budget.maxSteps != 0 && budget.maxSteps <= steps

end Budget

/-- The parameters of a run. -/
structure Plan where
  /-- Which redexes are contracted. -/
  strategy : Strategy
  /-- What the run may use. -/
  budget : Budget
  /-- The terms after each contraction are recorded. -/
  traced : Bool
deriving DecidableEq

/-- A contraction that was recorded. -/
structure Observation where
  /-- The number of contractions so far, this one included. -/
  step : Nat
  /-- The term in focus after the contraction. -/
  focus : Term
deriving DecidableEq

/-- How far a run has come. -/
structure Progress where
  /-- How the run stands. -/
  status : Status
  /-- The number of contractions. -/
  steps : Nat
  /-- The recorded contractions, latest first. -/
  observations : List Observation
deriving DecidableEq

/-- The start of a run. -/
def Progress.start : Progress :=
  ⟨.normal, 0, []⟩

/-- The outcome of a run. -/
structure Outcome where
  /-- The term reached. -/
  term : Term
  /-- How the run ended. -/
  status : Status
  /-- The number of contractions. -/
  steps : Nat
  /-- The recorded contractions in order. -/
  trace : List Observation
deriving DecidableEq

/-- The outcome of a run that reached a term. -/
def Progress.outcome
    (progress : Progress)
    (term : Term) : Outcome :=
  ⟨term, progress.status, progress.steps, progress.observations.reverse⟩

/-! ## Spines -/

/-- A pending argument with the span of its application. -/
structure Frame where
  /-- The argument. -/
  argument : Term
  /-- The span of the application. -/
  span : Span
deriving DecidableEq

/-- The arguments that a head is applied to, first argument first. -/
abbrev Spine := List Frame

namespace Spine

/-- The head applied to all arguments of the spine. -/
def rebuild
    (head : Term) : Spine -> Term
  | [] => head
  | frame :: rest =>
      rebuild (.app frame.span head frame.argument) rest

@[simp] theorem rebuild_nil
    (head : Term) :
    rebuild head [] = head :=
  rfl

@[simp] theorem rebuild_cons
    (head : Term)
    (frame : Frame)
    (rest : Spine) :
    rebuild head (frame :: rest) =
      rebuild (.app frame.span head frame.argument) rest :=
  rfl

/-- The number of nodes of the head applied to all arguments. -/
def nodeCount
    (head : Term)
    (spine : Spine) : Nat :=
  spine.foldl (fun nodes frame => nodes + (frame.argument.nodeCount + 1))
    head.nodeCount

/-- Counting along the spine is counting in the whole term. -/
theorem nodeCount_eq_nodeCount_rebuild
    (head : Term)
    (spine : Spine) :
    nodeCount head spine = (rebuild head spine).nodeCount := by
  induction spine generalizing head with
  | nil => rfl
  | cons frame rest inductionHypothesis =>
      rw [rebuild_cons, <- inductionHypothesis]
      simp only [nodeCount, List.foldl_cons, Term.nodeCount_app,
        Nat.add_assoc]

end Spine

/-- The head applied to all arguments is larger than the budget allows. -/
def Budget.nodesExceeded
    (budget : Budget)
    (head : Term)
    (spine : Spine) : Bool :=
  budget.maxNodes != 0 && budget.maxNodes < Spine.nodeCount head spine

/-- The head of a term and its arguments in front of those of a spine. -/
def Term.unwind : Term -> Spine -> Term × Spine
  | .app span function argument, spine =>
      function.unwind (⟨argument, span⟩ :: spine)
  | head, spine => (head, spine)

@[simp] theorem Term.unwind_var
    (span : Span)
    (index : Nat)
    (spine : Spine) :
    (Term.var span index).unwind spine = (.var span index, spine) :=
  rfl

@[simp] theorem Term.unwind_abs
    (span : Span)
    (declared : Option TypeId)
    (body : Term)
    (spine : Spine) :
    (Term.abs span declared body).unwind spine =
      (.abs span declared body, spine) :=
  rfl

@[simp] theorem Term.unwind_app
    (span : Span)
    (function argument : Term)
    (spine : Spine) :
    (Term.app span function argument).unwind spine =
      function.unwind (⟨argument, span⟩ :: spine) :=
  rfl

/-- Unwinding a term loses nothing of it. -/
theorem Term.rebuild_unwind
    (term : Term)
    (spine : Spine) :
    (term.unwind spine).2.rebuild (term.unwind spine).1 =
      spine.rebuild term := by
  induction term generalizing spine with
  | var span index => rfl
  | abs span declared body inductionHypothesis => rfl
  | app span function argument functionHypothesis argumentHypothesis =>
      rw [unwind_app, functionHypothesis, Spine.rebuild_cons]

end LambdaCalculus
