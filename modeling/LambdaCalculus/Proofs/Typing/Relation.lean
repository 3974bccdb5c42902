import LambdaCalculus.Proofs.Types.Interning
import LambdaCalculus.Term.Substitution
import LambdaCalculus.Typing.Check

/-!
# The typing relation

A term has a type in a context when every abstraction in it declares the type
of its argument and every application fits.  The relation is about the numbers
of a fixed pool that has all types of the derivation.  Checking a term makes
such a pool and derivation, and checking a term that has a derivation finds its
type and leaves the pool as it is.
-/

namespace LambdaCalculus

/-- The term has the type in the context, innermost type first.  All types that
occur have numbers in the pool. -/
inductive HasType (types : TypePool) : List TypeId -> Term -> TypeId -> Prop
  | var
      (span : Span)
      (found : context[index]? = some type) :
      HasType types context (.var span index) type
  | abs
      (span : Span)
      (bodyTyped : HasType types (declared :: context) body bodyType)
      (interned : types.Interned (.function declared bodyType) type) :
      HasType types context (.abs span (some declared) body) type
  | app
      (span : Span)
      (functionTyped : HasType types context function functionType)
      (argumentTyped : HasType types context argument parameter)
      (isFunction : types.function? functionType = some (parameter, type)) :
      HasType types context (.app span function argument) type

namespace HasType

/-- A derivation stays one while the pool grows. -/
theorem grow
    (typed : HasType types context term type)
    (grows : types.GrowsTo later) :
    HasType later context term type := by
  induction typed with
  | var span found => exact var span found
  | abs span bodyTyped interned inductionHypothesis =>
      exact abs span inductionHypothesis (interned.grow grows)
  | app span functionTyped argumentTyped isFunction functionHypothesis
      argumentHypothesis =>
      exact app span functionHypothesis argumentHypothesis
        (grows.function?_eq isFunction)

/-! ## Checking -/

/-- Checking a term that has a type finds it and numbers no type. -/
theorem checkIn_eq
    (typed : HasType types context term type) :
    term.checkIn context types = ⟨.ok type, types⟩ := by
  induction typed with
  | var span found => rw [Term.checkIn, found]
  | abs span bodyTyped interned inductionHypothesis =>
      have same : types.function _ _ = (_, types) := interned
      rw [Term.checkIn, inductionHypothesis]
      simp only [same]
  | app span functionTyped argumentTyped isFunction functionHypothesis
      argumentHypothesis =>
      rw [Term.checkIn, functionHypothesis]
      simp only [argumentHypothesis, isFunction, if_true]

/-- A term has one type at most, because checking finds it. -/
theorem type_unique
    (left : HasType types context term leftType)
    (right : HasType types context term rightType) :
    leftType = rightType := by
  have same : Checked.mk (.ok leftType) types = ⟨.ok rightType, types⟩ :=
    left.checkIn_eq.symm.trans right.checkIn_eq
  exact Except.ok.inj (congrArg Checked.result same)

end HasType

/-- A term for which checking finds a type has it in the pool that checking
leaves. -/
theorem hasType_of_checkIn
    (checked : term.checkIn context types = ⟨.ok type, later⟩) :
    types.GrowsTo later ∧ HasType later context term type := by
  induction term generalizing context types later type with
  | var span index =>
      rw [Term.checkIn] at checked
      split at checked
      next found =>
          cases checked
          exact ⟨TypePool.GrowsTo.refl _, HasType.var span found⟩
      next => cases checked
  | abs span declared body inductionHypothesis =>
      cases declared with
      | none => cases checked
      | some declared =>
          rw [Term.checkIn] at checked
          split at checked
          next => cases checked
          next bodyType between bodyChecked =>
              cases checked
              obtain ⟨grows, bodyTyped⟩ := inductionHypothesis bodyChecked
              have growsMore :=
                TypePool.grows_intern between (.function declared bodyType)
              refine ⟨grows.trans growsMore, ?_⟩
              exact HasType.abs span (bodyTyped.grow growsMore)
                (TypePool.interned_intern between _)
  | app span function argument functionHypothesis argumentHypothesis =>
      rw [Term.checkIn] at checked
      split at checked
      next => cases checked
      next functionType between functionChecked =>
          split at checked
          next => cases checked
          next argumentType after argumentChecked =>
              simp only at checked
              split at checked
              next parameter result isFunction =>
                  split at checked
                  next same =>
                      cases checked
                      subst same
                      obtain ⟨grows, functionTyped⟩ :=
                        functionHypothesis functionChecked
                      obtain ⟨growsMore, argumentTyped⟩ :=
                        argumentHypothesis argumentChecked
                      refine ⟨grows.trans growsMore, ?_⟩
                      exact HasType.app span (functionTyped.grow growsMore)
                        argumentTyped isFunction
                  next => cases checked
              next => cases checked

/-! ## Weakening and substitution -/

namespace HasType

/-- A derivation uses no type behind its context. -/
theorem append
    (typed : HasType types context term type)
    (more : List TypeId) :
    HasType types (context ++ more) term type := by
  induction typed with
  | var span found =>
      refine var span ?_
      rw [List.getElem?_append_left (List.getElem?_eq_some_iff.mp found).1]
      exact found
  | abs span bodyTyped interned inductionHypothesis =>
      exact abs span inductionHypothesis interned
  | app span functionTyped argumentTyped isFunction functionHypothesis
      argumentHypothesis =>
      exact app span functionHypothesis argumentHypothesis isFunction

/-- A term is raised over the binders that are put into its context. -/
theorem raise
    {term : Term}
    (front middle : List TypeId)
    {back : List TypeId}
    (typed : HasType types (front ++ back) term type) :
    HasType types (front ++ (middle ++ back))
      (term.raise middle.length front.length) type := by
  induction term generalizing front type with
  | var span index =>
      cases typed with
      | var _ found =>
          rw [Term.raise_var]
          refine var span ?_
          split
          next inFront =>
              rw [List.getElem?_append_left inFront] at found ⊢
              exact found
          next behind =>
              rw [Nat.not_lt] at behind
              rw [List.getElem?_append_right behind] at found
              rw [List.getElem?_append_right (by omega),
                List.getElem?_append_right (by omega), ← found]
              congr 1
              omega
  | abs span declared body inductionHypothesis =>
      cases typed with
      | abs _ bodyTyped interned =>
          exact abs span (inductionHypothesis (_ :: front) bodyTyped) interned
  | app span function argument functionHypothesis argumentHypothesis =>
      cases typed with
      | app _ functionTyped argumentTyped isFunction =>
          exact app span (functionHypothesis front functionTyped)
            (argumentHypothesis front argumentTyped) isFunction

/-- Instantiating a variable with an argument of its type keeps the type. -/
theorem instantiateAt
    {body argument : Term}
    (front : List TypeId)
    {back : List TypeId}
    {parameter : TypeId}
    (typed : HasType types (front ++ parameter :: back) body type)
    (argumentTyped : HasType types back argument parameter) :
    HasType types (front ++ back)
      (body.instantiateAt front.length argument) type := by
  induction body generalizing front type with
  | var span index =>
      cases typed with
      | var _ found =>
          rw [Term.instantiateAt_var]
          split
          next inFront =>
              refine var span ?_
              rw [List.getElem?_append_left inFront] at found ⊢
              exact found
          next behind =>
              rw [List.getElem?_append_right (Nat.not_lt.mp behind)] at found
              split
              next same =>
                  rw [same, Nat.sub_self, List.getElem?_cons_zero] at found
                  cases found
                  exact argumentTyped.raise [] front
              next different =>
                  refine var span ?_
                  rw [List.getElem?_append_right (by omega), ← found]
                  rw [show index - front.length =
                    (index - 1 - front.length) + 1 by omega]
                  rw [List.getElem?_cons_succ]
  | abs span declared inner inductionHypothesis =>
      cases typed with
      | abs _ bodyTyped interned =>
          exact abs span (inductionHypothesis (_ :: front) bodyTyped) interned
  | app span function operand functionHypothesis operandHypothesis =>
      cases typed with
      | app _ functionTyped operandTyped isFunction =>
          exact app span (functionHypothesis front functionTyped)
            (operandHypothesis front operandTyped) isFunction

/-- Substituting a closed argument, as it is, for the outermost variable of a
context keeps the type. -/
theorem substitute
    {body argument : Term}
    (front : List TypeId)
    {parameter : TypeId}
    (typed : HasType types (front ++ [parameter]) body type)
    (argumentTyped : HasType types [] argument parameter) :
    HasType types front (body.substitute front.length argument) type := by
  induction body generalizing front type with
  | var span index =>
      cases typed with
      | var _ found =>
          rw [Term.substitute_var]
          split
          next same =>
              rw [same, List.getElem?_concat_length] at found
              cases found
              exact argumentTyped.append front
          next different =>
              have bound := (List.getElem?_eq_some_iff.mp found).1
              rw [List.length_append, List.length_singleton] at bound
              refine var span ?_
              rw [List.getElem?_append_left (by omega)] at found
              exact found
  | abs span declared inner inductionHypothesis =>
      cases typed with
      | abs _ bodyTyped interned =>
          exact abs span (inductionHypothesis (_ :: front) bodyTyped) interned
  | app span function operand functionHypothesis operandHypothesis =>
      cases typed with
      | app _ functionTyped operandTyped isFunction =>
          exact app span (functionHypothesis front functionTyped)
            (operandHypothesis front operandTyped) isFunction

end HasType
end LambdaCalculus
