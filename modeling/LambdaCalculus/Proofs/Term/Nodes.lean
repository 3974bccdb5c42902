import LambdaCalculus.Term.Basic

/-!
# Nodes of a term

A path from the root leads to every node of a term.  The node itself is what
stands there without the nodes below it: an index or a declared type, and a
span.  A term is determined by the nodes at the ends of its paths.
-/

namespace LambdaCalculus

/-- The way from a node to one below it. -/
inductive Branch
  /-- From an abstraction to its body. -/
  | body
  /-- From an application to its function. -/
  | function
  /-- From an application to its argument. -/
  | argument
deriving DecidableEq

/-- The number of binders that a path goes through. -/
def Branch.binders (path : List Branch) : Nat :=
  path.count .body

theorem Branch.binders_cons
    (branch : Branch)
    (path : List Branch) :
    binders (branch :: path) = binders [branch] + binders path := by
  rw [binders, ← List.singleton_append, List.count_append, binders, binders]

namespace Term

/-! ## Terms at the ends of paths -/

/-- The node at the end of a branch. -/
def child? : Term -> Branch -> Option Term
  | .abs _ _ body, .body => some body
  | .app _ function _, .function => some function
  | .app _ _ argument, .argument => some argument
  | _, _ => none

/-- The node at the end of a path from the root. -/
def nodeAt?
    (term : Term) : List Branch -> Option Term
  | [] => some term
  | branch :: path => (term.child? branch).bind fun child => child.nodeAt? path

theorem nodeAt?_append
    (term : Term)
    (path inner : List Branch) :
    term.nodeAt? (path ++ inner) =
      (term.nodeAt? path).bind fun node => node.nodeAt? inner := by
  induction path generalizing term with
  | nil => rfl
  | cons branch path inductionHypothesis =>
      rw [List.cons_append, nodeAt?, nodeAt?]
      cases term.child? branch with
      | none => rfl
      | some child => exact inductionHypothesis child

/-! ## What stands at the end of a path -/

/-- What stands at the root of a term, without the nodes below it. -/
inductive Root
  | var (span : Span) (index : Nat)
  | abs (span : Span) (declared : Option TypeId)
  | app (span : Span)
deriving DecidableEq

/-- The same root with another index, if it has one. -/
def Root.mapIndex
    (change : Nat -> Nat) : Root -> Root
  | .var span index => .var span (change index)
  | .abs span declared => .abs span declared
  | .app span => .app span

/-- The root of a term. -/
def root : Term -> Root
  | .var span index => .var span index
  | .abs span declared _ => .abs span declared
  | .app span _ _ => .app span

/-- What stands at the end of a path. -/
def rootAt?
    (term : Term)
    (path : List Branch) : Option Root :=
  (term.nodeAt? path).map root

theorem rootAt?_of_child
    {term child : Term}
    (found : term.child? branch = some child)
    (path : List Branch) :
    term.rootAt? (branch :: path) = child.rootAt? path := by
  rw [rootAt?, nodeAt?, found]
  rfl

theorem rootAt?_of_noChild
    {term : Term}
    (absent : term.child? branch = none)
    (path : List Branch) :
    term.rootAt? (branch :: path) = none := by
  rw [rootAt?, nodeAt?, absent]
  rfl

/-- Terms with the same nodes at the ends of all paths are the same. -/
theorem eq_of_rootAt?
    {left right : Term}
    (same : ∀ path, left.rootAt? path = right.rootAt? path) :
    left = right := by
  have roots : left.root = right.root := Option.some.inj (same [])
  induction left generalizing right with
  | var span index =>
      cases right with
      | var => cases roots; rfl
      | abs => cases roots
      | app => cases roots
  | abs span declared body bodyHypothesis =>
      cases right with
      | var => cases roots
      | app => cases roots
      | abs otherSpan otherDeclared otherBody =>
          cases roots
          have below : ∀ path, body.rootAt? path = otherBody.rootAt? path :=
            fun path => same (.body :: path)
          rw [bodyHypothesis below (Option.some.inj (below []))]
  | app span function argument functionHypothesis argumentHypothesis =>
      cases right with
      | var => cases roots
      | abs => cases roots
      | app otherSpan otherFunction otherArgument =>
          cases roots
          have functions :
              ∀ path, function.rootAt? path = otherFunction.rootAt? path :=
            fun path => same (.function :: path)
          have arguments :
              ∀ path, argument.rootAt? path = otherArgument.rootAt? path :=
            fun path => same (.argument :: path)
          rw [functionHypothesis functions (Option.some.inj (functions [])),
            argumentHypothesis arguments (Option.some.inj (arguments []))]

end Term
end LambdaCalculus
