import LambdaCalculus.Term.Basic

/-!
# Terms up to spans

Two terms are alike when they become equal once all spans are forgotten.
-/

namespace LambdaCalculus
namespace Term

/-- The same term with no place in any source. -/
def withoutSpans : Term -> Term
  | .var _ index => .var .nowhere index
  | .abs _ declared body => .abs .nowhere declared body.withoutSpans
  | .app _ function argument =>
      .app .nowhere function.withoutSpans argument.withoutSpans

@[simp] theorem withoutSpans_var
    (span : Span)
    (index : Nat) :
    (var span index).withoutSpans = var .nowhere index :=
  rfl

@[simp] theorem withoutSpans_abs
    (span : Span)
    (declared : Option TypeId)
    (body : Term) :
    (abs span declared body).withoutSpans =
      abs .nowhere declared body.withoutSpans :=
  rfl

@[simp] theorem withoutSpans_app
    (span : Span)
    (function argument : Term) :
    (app span function argument).withoutSpans =
      app .nowhere function.withoutSpans argument.withoutSpans :=
  rfl

@[simp] theorem withoutSpans_withSpan
    (span : Span)
    (term : Term) :
    (term.withSpan span).withoutSpans = term.withoutSpans := by
  cases term <;> rfl

/-- Terms are alike exactly when they are equal without their spans. -/
theorem alike_iff
    (left right : Term) :
    left.alike right = true ↔ left.withoutSpans = right.withoutSpans := by
  induction left generalizing right with
  | var span index => cases right <;> simp [alike]
  | abs span declared body bodyHypothesis =>
      cases right <;> simp [alike, bodyHypothesis]
  | app span function argument functionHypothesis argumentHypothesis =>
      cases right <;> simp [alike, functionHypothesis, argumentHypothesis]

end Term
end LambdaCalculus
