import LambdaCalculus.Typing.Check

/-!
# Type checking with a record of errors

A checker goes through a term with the types of the enclosing abstractions on a
stack, innermost last.  It notes errors and reports them as they arise, and a flag
tells whether there has been one; from then on nothing is checked any more.
-/

namespace LambdaCalculus

/-- What a checker works on and has found. -/
structure Checker where
  /-- No error has been found. -/
  ok : Bool
  /-- The types of the enclosing abstractions, innermost last. -/
  context : List TypeId
  /-- The types numbered. -/
  types : TypePool
  /-- The errors found. -/
  errors : List TypeError
  /-- The diagnostics so far. -/
  diagnostics : Diagnostics

namespace Checker

/-- The checker before anything is checked. -/
def start
    (types : TypePool)
    (known : Diagnostics) : Checker :=
  ⟨true, [], types, [], known⟩

/-- Notes an error and reports it. -/
def fail
    (checker : Checker)
    (error : TypeError) : Checker :=
  { checker with
    ok := false
    errors := checker.errors ++ [error]
    diagnostics := checker.diagnostics ++ [error.diagnostic checker.types] }

/-- Goes through a term and gives its type, or the error type. -/
def visit : Term -> Checker -> TypeId × Checker
  | .var span index, checker =>
      if !checker.ok then
        (TypePool.errorId, checker)
      else if checker.context.length <= index then
        (TypePool.errorId,
          checker.fail ⟨span, checker.context.length, .unboundIndex index⟩)
      else
        (checker.context.getD (checker.context.length - 1 - index)
          TypePool.errorId, checker)
  | .abs span none _, checker =>
      if !checker.ok then
        (TypePool.errorId, checker)
      else
        (TypePool.errorId,
          checker.fail ⟨span, checker.context.length, .typeNotDeclared⟩)
  | .abs _ (some declared) body, checker =>
      if !checker.ok then
        (TypePool.errorId, checker)
      else
        let (bodyType, inner) :=
          visit body { checker with context := checker.context ++ [declared] }
        let checker := { inner with context := inner.context.dropLast }
        if !checker.ok then
          (TypePool.errorId, checker)
        else
          let (type, types) := checker.types.function declared bodyType
          (type, { checker with types := types })
  | .app span function argument, checker =>
      if !checker.ok then
        (TypePool.errorId, checker)
      else
        let (functionType, checker) := visit function checker
        if !checker.ok then
          (TypePool.errorId, checker)
        else
          let (argumentType, checker) := visit argument checker
          if !checker.ok then
            (TypePool.errorId, checker)
          else
            let error : TypeError :=
              ⟨span, checker.context.length,
                .invalidApplication function functionType
                  argument argumentType⟩
            match checker.types.function? functionType with
            | some (parameter, result) =>
                if parameter = argumentType then
                  (result, checker)
                else
                  (TypePool.errorId, checker.fail error)
            | none => (TypePool.errorId, checker.fail error)

/-- Checks a whole term.  The type is the error type if there is an error. -/
def check
    (term : Term)
    (types : TypePool)
    (known : Diagnostics) : TypeId × Checker :=
  let (type, checker) := visit term (start types known)
  (if checker.ok then type else TypePool.errorId, checker)

end Checker
end LambdaCalculus
