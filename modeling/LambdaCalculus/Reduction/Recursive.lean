import LambdaCalculus.Term.Substitution

/-!
# Recursive weak head reduction

The weak head normal form by recursion on the function of an application,
without budgets and without an explicit spine.
-/

namespace LambdaCalculus
namespace Term

/-- The weak head normal form of a term; `none` when the fuel does not
suffice. -/
def betaReduce : Nat -> Term -> Option Term
  | 0, _ => none
  | fuel + 1, .app span function argument =>
      match betaReduce fuel function with
      | none => none
      | some (.abs _ _ body) => betaReduce fuel (body.substitute 0 argument)
      | some function => some (.app span function argument)
  | _ + 1, term => some term

end Term
end LambdaCalculus
