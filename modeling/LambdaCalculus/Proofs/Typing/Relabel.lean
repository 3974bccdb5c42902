import LambdaCalculus.Proofs.Term.Relabel
import LambdaCalculus.Typing.Check

/-!
# Checking relabeled terms

The type of a term does not depend on where its nodes stand.  Checking a term
with other spans numbers the same types and gives the same type; a fault is the
same one with other spans.
-/

namespace LambdaCalculus

variable (spans : Span -> Span)

/-- The same fault in a term with other spans. -/
def TypeFault.relabel : TypeFault -> TypeFault
  | .invalidApplication function functionType argument argumentType =>
      .invalidApplication (function.relabel spans id) functionType
        (argument.relabel spans id) argumentType
  | .typeNotDeclared => .typeNotDeclared
  | .unboundIndex index => .unboundIndex index

/-- The same error in a term with other spans. -/
def TypeError.relabel (error : TypeError) : TypeError where
  span := spans error.span
  binders := error.binders
  fault := error.fault.relabel spans

/-- The same result for a term with other spans. -/
def Checked.relabel (checked : Checked) : Checked where
  result := checked.result.mapError (TypeError.relabel spans)
  types := checked.types

@[simp] theorem Checked.relabel_ok
    (type : TypeId)
    (types : TypePool) :
    Checked.relabel spans ⟨.ok type, types⟩ = ⟨.ok type, types⟩ :=
  rfl

/-- Checking looks at spans only to say where a fault is. -/
theorem Term.checkIn_relabel
    (context : List TypeId)
    (term : Term)
    (types : TypePool) :
    (term.relabel spans id).checkIn context types =
      (term.checkIn context types).relabel spans := by
  induction term generalizing context types with
  | var span index =>
      rw [relabel_var, checkIn, checkIn]
      split <;> rfl
  | abs span declared body bodyHypothesis =>
      cases declared with
      | none => rfl
      | some declared =>
          rw [relabel_abs, Option.map_some, checkIn, checkIn]
          simp only [id_eq, bodyHypothesis]
          cases body.checkIn (declared :: context) types with
          | mk result later => cases result <;> rfl
  | app span function argument functionHypothesis argumentHypothesis =>
      rw [relabel_app, checkIn, checkIn, functionHypothesis]
      cases function.checkIn context types with
      | mk functionResult between =>
      cases functionResult with
      | error error => rfl
      | ok functionType =>
          simp only [Checked.relabel_ok, argumentHypothesis]
          cases argument.checkIn context between with
          | mk argumentResult later =>
          cases argumentResult with
          | error error => rfl
          | ok argumentType =>
              simp only [Checked.relabel_ok]
              split
              next => split <;> rfl
              next => rfl

/-- The types of a term do not depend on its spans. -/
theorem Term.check_relabel
    (term : Term)
    (types : TypePool) :
    (term.relabel spans id).check types = (term.check types).relabel spans :=
  term.checkIn_relabel spans [] types

end LambdaCalculus
