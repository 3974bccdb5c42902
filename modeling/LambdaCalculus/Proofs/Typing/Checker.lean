import LambdaCalculus.Typing.Checker

/-!
# The record of a checker

A checker that has found no error goes through a term as the function that gives a
type or the first error: it notes and reports just this error, if there is one,
and the stack is as it was.  A checker that has found an error does nothing.
-/

namespace LambdaCalculus
namespace Checker

/-- Behind an error nothing is checked. -/
theorem visit_of_failed
    {checker : Checker}
    (failed : checker.ok = false)
    (term : Term) :
    visit term checker = (TypePool.errorId, checker) := by
  cases term with
  | var span index => simp [visit, failed]
  | abs span declared body => cases declared <;> simp [visit, failed]
  | app span function argument => simp [visit, failed]

/-- What a checker without an error has found behind a term. -/
def after
    (context : List TypeId)
    (errors : List TypeError)
    (diagnostics : Diagnostics)
    (checked : Checked) : TypeId × Checker :=
  (checked.type,
    { ok := checked.result.isOk
      context := context
      types := checked.types
      errors := errors ++ checked.errors
      diagnostics := diagnostics ++ checked.diagnostics })

theorem after_ok
    (context : List TypeId)
    (errors : List TypeError)
    (diagnostics : Diagnostics)
    (type : TypeId)
    (types : TypePool) :
    after context errors diagnostics ⟨.ok type, types⟩ =
      (type, ⟨true, context, types, errors, diagnostics⟩) := by
  simp [after, Checked.type, Checked.errors, Checked.diagnostics, Except.isOk,
    Except.toBool]

/-- A checker without an error gives the type of a term, and notes and reports
its first error if there is one. -/
theorem visit_eq
    (term : Term)
    (context : List TypeId)
    (types : TypePool)
    (errors : List TypeError)
    (diagnostics : Diagnostics) :
    visit term ⟨true, context, types, errors, diagnostics⟩ =
      after context errors diagnostics
        (term.checkIn context.reverse types) := by
  induction term generalizing context types with
  | var span index =>
      simp only [visit, Bool.not_true, Bool.false_eq_true, if_false,
        Term.checkIn]
      split
      next unbound =>
          rw [List.getElem?_eq_none (by simpa using unbound),
            List.length_reverse]
          rfl
      next bound =>
          have inside : index < context.length := Nat.not_le.mp bound
          rw [List.getElem?_reverse inside, List.getD_eq_getElem?_getD,
            List.getElem?_eq_getElem (by omega), Option.getD_some, after_ok]
  | abs span declared body bodyHypothesis =>
      cases declared with
      | none =>
          simp only [visit, Bool.not_true, Bool.false_eq_true, if_false,
            Term.checkIn, List.length_reverse]
          rfl
      | some declared =>
          simp only [visit, Bool.not_true, Bool.false_eq_true, if_false,
            bodyHypothesis, List.reverse_append, List.reverse_singleton,
            List.singleton_append, Term.checkIn]
          rcases body.checkIn (declared :: context.reverse) types with
            ⟨error | bodyType, later⟩
          · simp only [after, List.dropLast_concat]
            rfl
          · simp only [after_ok, List.dropLast_concat]
            rfl
  | app span function argument functionHypothesis argumentHypothesis =>
      simp only [visit, Bool.not_true, Bool.false_eq_true, if_false,
        functionHypothesis, Term.checkIn]
      rcases function.checkIn context.reverse types with
        ⟨error | functionType, between⟩
      · rfl
      · simp only [after_ok, Bool.not_true, Bool.false_eq_true, if_false,
          argumentHypothesis]
        rcases argument.checkIn context.reverse between with
          ⟨error | argumentType, later⟩
        · rfl
        · simp only [after_ok, Bool.not_true, Bool.false_eq_true, if_false,
            List.length_reverse]
          cases later.function? functionType with
          | none => rfl
          | some parts =>
              obtain ⟨parameter, result⟩ := parts
              by_cases same : parameter = argumentType
              · simp only [if_pos same, after_ok]
              · simp only [if_neg same]
                rfl

/-- A checker that starts on a whole term comes to the type of the term or to its
first error, and it reports this behind what it has known before. -/
theorem check_eq
    (term : Term)
    (types : TypePool)
    (known : Diagnostics) :
    check term types known =
      after [] [] known (term.check types) := by
  rw [check, start, visit_eq, List.reverse_nil, ← Term.check]
  rcases term.check types with ⟨error | type, later⟩
  · rfl
  · simp only [after_ok, if_true]

/-- The flag is down exactly if an error has been noted.  It is one error, and it
is reported once. -/
theorem errors_check
    (term : Term)
    (types : TypePool)
    (known : Diagnostics) :
    let checker := (check term types known).2
    (checker.ok = true ∧ checker.errors = [] ∧
        checker.diagnostics = known) ∨
      ∃ error, checker.ok = false ∧ checker.errors = [error] ∧
        checker.diagnostics = known ++ [error.diagnostic checker.types] := by
  rw [check_eq]
  rcases term.check types with ⟨error | type, later⟩
  · exact Or.inr ⟨error, rfl, rfl, rfl⟩
  · rw [after_ok]
    exact Or.inl ⟨rfl, rfl, rfl⟩

end Checker
end LambdaCalculus
