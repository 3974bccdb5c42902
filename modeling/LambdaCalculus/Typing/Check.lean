import LambdaCalculus.Diagnostic.Basic
import LambdaCalculus.Term.Printer

/-!
# Type checking

The type of a term in which every abstraction declares the type of its
argument.  Checking stops at the first fault; the function types numbered on
the way stay in the pool.
-/

namespace LambdaCalculus

/-- What is wrong with a node. -/
inductive TypeFault
  /-- The function does not take arguments of the argument's type. -/
  | invalidApplication
      (function : Term)
      (functionType : TypeId)
      (argument : Term)
      (argumentType : TypeId)
  /-- The abstraction declares no type. -/
  | typeNotDeclared
  /-- No enclosing abstraction binds the index. -/
  | unboundIndex (index : Nat)
deriving DecidableEq

/-- A fault of a node that stands under some binders. -/
structure TypeError where
  /-- The span of the node. -/
  span : Span
  /-- The number of abstractions around the node. -/
  binders : Nat
  /-- What is wrong. -/
  fault : TypeFault
deriving DecidableEq

namespace TypeError

/-- The code that reports an error. -/
def code (error : TypeError) : Diagnostic.Code :=
  match error.fault with
  | .invalidApplication _ _ _ _ => .typeInvalidApplication
  | .typeNotDeclared => .typeAnnotationRequired
  | .unboundIndex _ => .typeUnboundIndex

/-- What fills the message of an error.  Terms are named as in the whole
program. -/
def arguments
    (types : TypePool)
    (error : TypeError) : List Text :=
  match error.fault with
  | .invalidApplication function functionType argument argumentType =>
      [function.render types .named error.binders,
        types.text functionType,
        argument.render types .named error.binders,
        types.text argumentType]
  | .typeNotDeclared => []
  | .unboundIndex index => [Text.decimal index, Text.decimal error.binders]

/-- The diagnostic that reports an error. -/
def diagnostic
    (types : TypePool)
    (error : TypeError) : Diagnostic where
  severity := .error
  code := error.code
  span := error.span
  arguments := error.arguments types

/-- A one-line account of an error. -/
def message
    (types : TypePool)
    (error : TypeError) : Text :=
  match error.fault with
  | .invalidApplication function functionType argument argumentType =>
      "attempted to apply term (" ++
        function.render types .named error.binders ++ "):" ++
        types.text functionType ++ " to term (" ++
        argument.render types .named error.binders ++ "):" ++
        types.text argumentType
  | .typeNotDeclared => "binder has no type annotation"
  | .unboundIndex index =>
      "variable index " ++ Text.decimal index ++
        " escapes a typing context of depth " ++ Text.decimal error.binders

end TypeError

/-- The type of a term or its first fault, with the types numbered by then. -/
structure Checked where
  /-- The type, or the first fault. -/
  result : Except TypeError TypeId
  /-- The types numbered by then. -/
  types : TypePool

namespace Checked

/-- The type of a term that has one, and the error type otherwise. -/
def type (checked : Checked) : TypeId :=
  match checked.result with
  | .ok type => type
  | .error _ => TypePool.errorId

/-- The faults found, which is the first one if there is any. -/
def errors (checked : Checked) : List TypeError :=
  match checked.result with
  | .ok _ => []
  | .error error => [error]

/-- What checking adds to the diagnostics. -/
def diagnostics (checked : Checked) : Diagnostics :=
  checked.errors.map (TypeError.diagnostic checked.types)

end Checked

namespace Term

/-- The type of a term whose free indices have the types of the context,
innermost first. -/
def checkIn : List TypeId -> Term -> TypePool -> Checked
  | context, .var span index, types =>
      match context[index]? with
      | some type => ⟨.ok type, types⟩
      | none => ⟨.error ⟨span, context.length, .unboundIndex index⟩, types⟩
  | context, .abs span none _, types =>
      ⟨.error ⟨span, context.length, .typeNotDeclared⟩, types⟩
  | context, .abs _ (some declared) body, types =>
      match checkIn (declared :: context) body types with
      | ⟨.error error, types⟩ => ⟨.error error, types⟩
      | ⟨.ok bodyType, types⟩ =>
          ⟨.ok (types.function declared bodyType).1,
            (types.function declared bodyType).2⟩
  | context, .app span function argument, types =>
      match checkIn context function types with
      | ⟨.error error, types⟩ => ⟨.error error, types⟩
      | ⟨.ok functionType, types⟩ =>
          match checkIn context argument types with
          | ⟨.error error, types⟩ => ⟨.error error, types⟩
          | ⟨.ok argumentType, types⟩ =>
              let error : TypeError :=
                ⟨span, context.length,
                  .invalidApplication function functionType
                    argument argumentType⟩
              match types.function? functionType with
              | some (parameter, result) =>
                  if parameter = argumentType then
                    ⟨.ok result, types⟩
                  else
                    ⟨.error error, types⟩
              | none => ⟨.error error, types⟩

/-- The type of a term in the empty context. -/
def check
    (term : Term)
    (types : TypePool) : Checked :=
  term.checkIn [] types

end Term
end LambdaCalculus
