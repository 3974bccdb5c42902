import LambdaCalculus.Proofs.Reduction.Normalize
import LambdaCalculus.Proofs.Typing.Relation

/-!
# Reduction keeps types

A contraction of the full strategy keeps the type of a term in any context.
The verbatim contraction of the head strategy keeps it in the empty context,
where the argument is closed.  As every run performs such steps on the whole
term, the term that it ends with has the type of the term that it started
with, whatever stopped it.
-/

namespace LambdaCalculus
namespace HasType

/-- The body and the argument of a redex agree on the type of the argument. -/
theorem redex
    (typed : HasType types context
      (.app span (.abs binderSpan declared body) argument) type) :
    ∃ parameter, HasType types (parameter :: context) body type ∧
      HasType types context argument parameter := by
  cases typed with
  | app _ functionTyped argumentTyped isFunction =>
      cases functionTyped with
      | abs _ bodyTyped interned =>
          rw [interned.function?_eq] at isFunction
          cases isFunction
          exact ⟨_, bodyTyped, argumentTyped⟩

/-- A leftmost step keeps the type in any context. -/
theorem leftmostStep
    (step : LeftmostStep start finish)
    (typed : HasType types context start type) :
    HasType types context finish type := by
  induction step generalizing context type with
  | contract span binderSpan declared body argument =>
      obtain ⟨parameter, bodyTyped, argumentTyped⟩ := typed.redex
      exact bodyTyped.instantiateAt [] argumentTyped
  | body span declared step inductionHypothesis =>
      cases typed with
      | abs _ bodyTyped interned =>
          exact abs span (inductionHypothesis bodyTyped) interned
  | function span argument applied step inductionHypothesis =>
      cases typed with
      | app _ functionTyped argumentTyped isFunction =>
          exact app span (inductionHypothesis functionTyped) argumentTyped
            isFunction
  | argument span applied normal step inductionHypothesis =>
      cases typed with
      | app _ functionTyped argumentTyped isFunction =>
          exact app span functionTyped (inductionHypothesis argumentTyped)
            isFunction

/-- A head step with verbatim substitution keeps the type in the empty
context. -/
theorem headStep
    (step : HeadStep .weakHead start finish)
    (typed : HasType types [] start type) :
    HasType types [] finish type := by
  induction step generalizing type with
  | contract span binderSpan declared body argument =>
      obtain ⟨parameter, bodyTyped, argumentTyped⟩ := typed.redex
      exact bodyTyped.substitute [] argumentTyped
  | function span argument step inductionHypothesis =>
      cases typed with
      | app _ functionTyped argumentTyped isFunction =>
          exact app span (inductionHypothesis functionTyped) argumentTyped
            isFunction

/-- A run keeps the type of its term. -/
theorem endsWith
    {plan : Plan}
    (ended : plan.EndsWith term outcome)
    (typed : HasType types [] term type) :
    HasType types [] outcome.term type := by
  cases strategy : plan.strategy with
  | full =>
      obtain ⟨progress, _, performs, _⟩ :=
        Plan.performs_of_endsWith strategy ended
      obtain ⟨count, _, steps⟩ := performs.steps
      exact steps.preserves (HasType types [] · type)
        (fun _ _ => leftmostStep) typed
  | weakHead =>
      obtain ⟨head, spine, progress, headRan, rfl⟩ :=
        Plan.headRan_of_endsWith strategy ended
      obtain ⟨count, _, steps⟩ := headRan.steps
      rw [strategy] at steps
      exact steps.preserves (HasType types [] · type)
        (fun _ _ => headStep) typed

end HasType

/-- The term that a run ends with has the type of the term that it starts with,
under the same number, and checking it numbers no further type.  This holds
for every strategy and every budget. -/
theorem check_eq_of_endsWith
    (plan : Plan)
    (types : TypePool)
    (term : Term)
    (type : TypeId)
    (outcome : Outcome)
    (checked : (term.check types).result = .ok type)
    (ended : plan.EndsWith term outcome) :
    outcome.term.check (term.check types).types =
      ⟨.ok type, (term.check types).types⟩ := by
  have whole : term.checkIn [] types = ⟨.ok type, (term.check types).types⟩ :=
    congrArg (Checked.mk · (term.check types).types) checked
  obtain ⟨_, typed⟩ := hasType_of_checkIn whole
  exact (typed.endsWith ended).checkIn_eq

/-- A run of `(λf:A→A. λx:A. f (f x)) (λy:A. y)` that the first contraction
makes too large ends with a term of type `A→A`. -/
theorem check_eq_of_endsWith_twice :
    let types := ((TypePool.empty.base "A").2.function 1 1).2
    let identity := Term.abs .nowhere (some 1) (.var .nowhere 0)
    let twice := Term.abs .nowhere (some 2) (.abs .nowhere (some 1)
      (.app .nowhere (.var .nowhere 1)
        (.app .nowhere (.var .nowhere 1) (.var .nowhere 0))))
    let known := (Term.check (.app .nowhere twice identity) types).types
    Term.check (.abs .nowhere (some 1) (.app .nowhere identity
      (.app .nowhere identity (.var .nowhere 0)))) known = ⟨.ok 2, known⟩ := by
  intro types identity twice known
  exact check_eq_of_endsWith ⟨.full, ⟨0, 3⟩, false⟩ types
    (.app .nowhere twice identity) 2
    ⟨.abs .nowhere (some 1) (.app .nowhere identity
      (.app .nowhere identity (.var .nowhere 0))), .sizeLimit, 1, []⟩
    (by decide) ⟨5, by decide⟩

end LambdaCalculus
