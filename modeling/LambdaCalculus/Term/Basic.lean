import LambdaCalculus.Source.Span
import LambdaCalculus.Types.Pool

/-!
# Terms

Terms of the lambda calculus with de Bruijn indices: a variable counts the
binders between itself and the one that binds it.  An abstraction may declare
the type of its argument.  Every node remembers the span that it was read
from.
-/

namespace LambdaCalculus

/-- A term with de Bruijn indices. -/
inductive Term
  /-- The variable bound by the binder that is `index` binders away. -/
  | var (span : Span) (index : Nat)
  /-- A function of one argument, whose type may be declared. -/
  | abs (span : Span) (declared : Option TypeId) (body : Term)
  /-- A function applied to an argument. -/
  | app (span : Span) (function argument : Term)
deriving DecidableEq, Inhabited

namespace Term

/-- The span of the root of a term. -/
def span : Term -> Span
  | .var span _ => span
  | .abs span _ _ => span
  | .app span _ _ => span

/-- The same term with another span at its root. -/
def withSpan (span : Span) : Term -> Term
  | .var _ index => .var span index
  | .abs _ declared body => .abs span declared body
  | .app _ function argument => .app span function argument

/-- Two terms are alike when they differ in their spans at most. -/
def alike : Term -> Term -> Bool
  | .var _ left, .var _ right => left == right
  | .abs _ leftDeclared leftBody,
      .abs _ rightDeclared rightBody =>
      leftDeclared == rightDeclared && leftBody.alike rightBody
  | .app _ leftFunction leftArgument,
      .app _ rightFunction rightArgument =>
      leftFunction.alike rightFunction && leftArgument.alike rightArgument
  | _, _ => false

/-! ## Measures -/

/-- The number of nodes. -/
def nodeCount : Term -> Nat
  | .var _ _ => 1
  | .abs _ _ body => body.nodeCount + 1
  | .app _ function argument =>
      function.nodeCount + argument.nodeCount + 1

@[simp] theorem nodeCount_var
    (span : Span)
    (index : Nat) :
    (var span index).nodeCount = 1 :=
  rfl

@[simp] theorem nodeCount_abs
    (span : Span)
    (declared : Option TypeId)
    (body : Term) :
    (abs span declared body).nodeCount = body.nodeCount + 1 :=
  rfl

@[simp] theorem nodeCount_app
    (span : Span)
    (function argument : Term) :
    (app span function argument).nodeCount =
      function.nodeCount + argument.nodeCount + 1 :=
  rfl

/-- The number of nodes on a longest path from the root. -/
def depth : Term -> Nat
  | .var _ _ => 1
  | .abs _ _ body => body.depth + 1
  | .app _ function argument =>
      max function.depth argument.depth + 1

/-- The greatest number of abstractions around a place in the term. -/
def binderDepth : Term -> Nat
  | .var _ _ => 0
  | .abs _ _ body => body.binderDepth + 1
  | .app _ function argument =>
      max function.binderDepth argument.binderDepth

/-- The number of arguments that the head of a term is applied to. -/
def spineLength : Term -> Nat
  | .app _ function _ => function.spineLength + 1
  | _ => 0

/-- What is left of a term when all its arguments are taken away. -/
def head : Term -> Term
  | .app _ function _ => function.head
  | term => term

/-- The arguments that the head of a term is applied to, first argument first. -/
def arguments : Term -> List Term
  | .app _ function argument => function.arguments ++ [argument]
  | _ => []

theorem nodeCount_head_le
    (term : Term) :
    term.head.nodeCount ≤ term.nodeCount := by
  induction term with
  | var span index => exact Nat.le_refl _
  | abs span declared body => exact Nat.le_refl _
  | app span function argument functionHypothesis =>
      rw [nodeCount_app]
      exact Nat.le_trans functionHypothesis (by omega)

theorem nodeCount_lt_of_mem_arguments
    {term part : Term}
    (member : part ∈ term.arguments) :
    part.nodeCount < term.nodeCount := by
  induction term with
  | var span index => cases member
  | abs span declared body => cases member
  | app span function argument functionHypothesis =>
      rw [nodeCount_app]
      rcases List.mem_append.mp member with earlier | last
      · have smaller := functionHypothesis earlier
        omega
      · rw [List.mem_singleton.mp last]
        omega

/-- Every index is bound by an abstraction of the term or by one of `binders`
binders around it. -/
def closedUnder (binders : Nat) : Term -> Bool
  | .var _ index => index < binders
  | .abs _ _ body => body.closedUnder (binders + 1)
  | .app _ function argument =>
      function.closedUnder binders && argument.closedUnder binders

@[simp] theorem closedUnder_var
    (binders : Nat)
    (span : Span)
    (index : Nat) :
    (var span index).closedUnder binders = decide (index < binders) :=
  rfl

@[simp] theorem closedUnder_abs
    (binders : Nat)
    (span : Span)
    (declared : Option TypeId)
    (body : Term) :
    (abs span declared body).closedUnder binders =
      body.closedUnder (binders + 1) :=
  rfl

@[simp] theorem closedUnder_app
    (binders : Nat)
    (span : Span)
    (function argument : Term) :
    (app span function argument).closedUnder binders =
      (function.closedUnder binders && argument.closedUnder binders) :=
  rfl

/-- Every index is bound within the term. -/
def closed (term : Term) : Bool :=
  term.closedUnder 0

/-- Some abstraction declares the type of its argument. -/
def annotated : Term -> Bool
  | .var _ _ => false
  | .abs _ declared body => declared.isSome || body.annotated
  | .app _ function argument =>
      function.annotated || argument.annotated

/-- Every declared type is accepted. -/
def declaresOnly
    (accepted : TypeId -> Bool) : Term -> Bool
  | .var _ _ => true
  | .abs _ declared body =>
      declared.all accepted && body.declaresOnly accepted
  | .app _ function argument =>
      function.declaresOnly accepted && argument.declaresOnly accepted

theorem declaresOnly_mono
    {narrow wide : TypeId -> Bool}
    (wider : ∀ type, narrow type = true -> wide type = true)
    {term : Term}
    (declares : term.declaresOnly narrow = true) :
    term.declaresOnly wide = true := by
  induction term with
  | var span index => rfl
  | abs span declared body bodyHypothesis =>
      simp only [declaresOnly, Bool.and_eq_true] at declares ⊢
      refine ⟨?_, bodyHypothesis declares.2⟩
      cases declared with
      | none => rfl
      | some type => exact wider type declares.1
  | app span function argument functionHypothesis argumentHypothesis =>
      simp only [declaresOnly, Bool.and_eq_true] at declares ⊢
      exact ⟨functionHypothesis declares.1, argumentHypothesis declares.2⟩

end Term
end LambdaCalculus
