import LambdaCalculus.Text.Basic

/-!
# Scopes

A scope is the list of names bound around a place, innermost first, so the
place of a name in the list is its de Bruijn index and an inner binder hides
an outer one of the same name.
-/

namespace LambdaCalculus

/-- The names bound around a place, innermost first. -/
abbrev Scope := List Text

namespace Scope

/-- The scope under one more binder. -/
def extend
    (scope : Scope)
    (name : Text) : Scope :=
  name :: scope

/-- The index of the innermost binder of a name. -/
def index?
    (scope : Scope)
    (name : Text) : Option Nat :=
  scope.idxOf? name

end Scope
end LambdaCalculus
