import LambdaCalculus.Text.Basic

/-!
# The type pool

Types are kept once and referred to by number.  Number zero is the error
type; every other number stands for a base type or for a function type whose
parts are numbers again.  A number that has not been given out yet may be
used as a part.
-/

namespace LambdaCalculus

/-- The number of a type. -/
abbrev TypeId := Nat

/-- How a type other than the error type is formed. -/
inductive TypeFormer
  /-- A named type without structure. -/
  | base (name : Text)
  /-- The functions from the parameter type to the result type. -/
  | function (parameter result : TypeId)
deriving DecidableEq

/-- The types numbered so far. -/
structure TypePool where
  /-- The types from number one on. -/
  formers : List TypeFormer
deriving DecidableEq

namespace TypePool

/-- The pool that holds the error type only. -/
def empty : TypePool := ⟨[]⟩

/-- The number of the error type. -/
def errorId : TypeId := 0

/-- How many numbers have been given out. -/
def count (types : TypePool) : Nat :=
  types.formers.length + 1

/-- A number has been given out. -/
def isValid
    (types : TypePool)
    (type : TypeId) : Bool :=
  type < types.count

/-- How the type with a given number is formed. -/
def former?
    (types : TypePool) : TypeId -> Option TypeFormer
  | 0 => none
  | position + 1 => types.formers[position]?

@[simp] theorem former?_zero
    (types : TypePool) :
    types.former? 0 = none :=
  rfl

@[simp] theorem former?_succ
    (types : TypePool)
    (position : Nat) :
    types.former? (position + 1) = types.formers[position]? :=
  rfl

/-- The number of a type formed in a given way, which is given out now if no
type is formed so yet. -/
def intern
    (types : TypePool)
    (former : TypeFormer) : TypeId × TypePool :=
  match types.formers.idxOf? former with
  | some position => (position + 1, types)
  | none => (types.count, ⟨types.formers ++ [former]⟩)

/-- The number of a base type. -/
def base
    (types : TypePool)
    (name : Text) : TypeId × TypePool :=
  types.intern (.base name)

/-- The number of a function type. -/
def function
    (types : TypePool)
    (parameter result : TypeId) : TypeId × TypePool :=
  types.intern (.function parameter result)

/-- The parameter and result of a function type. -/
def function?
    (types : TypePool)
    (type : TypeId) : Option (TypeId × TypeId) :=
  match types.former? type with
  | some (.function parameter result) => some (parameter, result)
  | _ => none

/-- The parameter of a function type; the error type for any other. -/
def parameter
    (types : TypePool)
    (type : TypeId) : TypeId :=
  match types.function? type with
  | some (parameter, _) => parameter
  | none => errorId

/-- The result of a function type; the error type for any other. -/
def result
    (types : TypePool)
    (type : TypeId) : TypeId :=
  match types.function? type with
  | some (_, result) => result
  | none => errorId

/-- The name of a base type; empty for any other. -/
def baseName
    (types : TypePool)
    (type : TypeId) : Text :=
  match types.former? type with
  | some (.base name) => name
  | _ => []

end TypePool
end LambdaCalculus
