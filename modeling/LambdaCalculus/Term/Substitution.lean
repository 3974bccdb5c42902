import LambdaCalculus.Term.Basic

/-!
# Substitution

Two ways to put a term in place of an index.  Verbatim substitution copies
the replacement as it is and leaves every other index alone; it is right for
a closed replacement in a body with no other free index.  Instantiation is
the contraction of a redex: it raises the argument over the binders that it
is carried under, and lowers the indices that pointed past the contracted
binder.
-/

namespace LambdaCalculus
namespace Term

/-- Puts `replacement`, as it is, in place of the variable that is `target`
binders away from the root. -/
def substitute : Term -> (target : Nat) -> (replacement : Term) -> Term
  | .var span index, target, replacement =>
      if index = target then replacement else .var span index
  | .abs span declared body, target, replacement =>
      .abs span declared (body.substitute (target + 1) replacement)
  | .app span function argument, target, replacement =>
      .app span
        (function.substitute target replacement)
        (argument.substitute target replacement)

@[simp] theorem substitute_var
    (span : Span)
    (index target : Nat)
    (replacement : Term) :
    (var span index).substitute target replacement =
      if index = target then replacement else var span index :=
  rfl

@[simp] theorem substitute_abs
    (span : Span)
    (declared : Option TypeId)
    (body : Term)
    (target : Nat)
    (replacement : Term) :
    (abs span declared body).substitute target replacement =
      abs span declared (body.substitute (target + 1) replacement) :=
  rfl

@[simp] theorem substitute_app
    (span : Span)
    (function argument : Term)
    (target : Nat)
    (replacement : Term) :
    (app span function argument).substitute target replacement =
      app span (function.substitute target replacement)
        (argument.substitute target replacement) :=
  rfl

/-- Adds `amount` to every index that points past `cutoff` binders. -/
def raise : Term -> (amount cutoff : Nat) -> Term
  | .var span index, amount, cutoff =>
      .var span (if index < cutoff then index else index + amount)
  | .abs span declared body, amount, cutoff =>
      .abs span declared (body.raise amount (cutoff + 1))
  | .app span function argument, amount, cutoff =>
      .app span
        (function.raise amount cutoff)
        (argument.raise amount cutoff)

@[simp] theorem raise_var
    (span : Span)
    (index amount cutoff : Nat) :
    (var span index).raise amount cutoff =
      var span (if index < cutoff then index else index + amount) :=
  rfl

@[simp] theorem raise_abs
    (span : Span)
    (declared : Option TypeId)
    (body : Term)
    (amount cutoff : Nat) :
    (abs span declared body).raise amount cutoff =
      abs span declared (body.raise amount (cutoff + 1)) :=
  rfl

@[simp] theorem raise_app
    (span : Span)
    (function argument : Term)
    (amount cutoff : Nat) :
    (app span function argument).raise amount cutoff =
      app span (function.raise amount cutoff)
        (argument.raise amount cutoff) :=
  rfl

/-- Puts `argument` in place of the variable that is `depth` binders away from
the root and removes the binder of that variable. -/
def instantiateAt : Term -> (depth : Nat) -> (argument : Term) -> Term
  | .var span index, depth, argument =>
      if index < depth then .var span index
      else if index = depth then argument.raise depth 0
      else .var span (index - 1)
  | .abs span declared body, depth, argument =>
      .abs span declared (body.instantiateAt (depth + 1) argument)
  | .app span function operand, depth, argument =>
      .app span
        (function.instantiateAt depth argument)
        (operand.instantiateAt depth argument)

@[simp] theorem instantiateAt_var
    (span : Span)
    (index depth : Nat)
    (argument : Term) :
    (var span index).instantiateAt depth argument =
      if index < depth then var span index
      else if index = depth then argument.raise depth 0
      else var span (index - 1) :=
  rfl

@[simp] theorem instantiateAt_abs
    (span : Span)
    (declared : Option TypeId)
    (body : Term)
    (depth : Nat)
    (argument : Term) :
    (abs span declared body).instantiateAt depth argument =
      abs span declared (body.instantiateAt (depth + 1) argument) :=
  rfl

@[simp] theorem instantiateAt_app
    (span : Span)
    (function operand : Term)
    (depth : Nat)
    (argument : Term) :
    (app span function operand).instantiateAt depth argument =
      app span (function.instantiateAt depth argument)
        (operand.instantiateAt depth argument) :=
  rfl

/-- The contraction of an abstraction with this body applied to `argument`. -/
def instantiate
    (body argument : Term) : Term :=
  body.instantiateAt 0 argument

end Term
end LambdaCalculus
