import LambdaCalculus.Types.Pool

/-!
# Type trees

The type that a number denotes is a tree: the numbers of its parts are
replaced by the types that they denote in turn.  Types are shown by way of
their trees.
-/

namespace LambdaCalculus

/-- A type without numbers. -/
inductive TypeTree
  /-- No type has the number. -/
  | invalid
  /-- The error type. -/
  | error
  /-- A named type without structure. -/
  | base (name : Text)
  /-- The functions from the parameter type to the result type. -/
  | arrow (parameter result : TypeTree)
deriving DecidableEq

namespace TypeTree

/-- A type in source notation.  The parameter always stands in parentheses,
so that the arrow need not be read in one direction. -/
def text : TypeTree -> Text
  | .invalid => "<invalid>"
  | .error => "<error>"
  | .base name => name
  | .arrow parameter result => "(" ++ parameter.text ++ ")→" ++ result.text

/-- A type with its structure spelled out. -/
def debug : TypeTree -> Text
  | .invalid => "Invalid"
  | .error => "Error"
  | .base name => "Base(" ++ name ++ ")"
  | .arrow parameter result =>
      "Function(" ++ parameter.debug ++ ", " ++ result.debug ++ ")"

end TypeTree

namespace TypePool

/-- The tree of a number, unfolded to a bounded depth. -/
def unfold
    (types : TypePool) : Nat -> TypeId -> TypeTree
  | 0, _ => .invalid
  | depth + 1, type =>
      if type = errorId then
        .error
      else
        match types.former? type with
        | none => .invalid
        | some (.base name) => .base name
        | some (.function parameter result) =>
            .arrow (types.unfold depth parameter) (types.unfold depth result)

/-- The tree that a number denotes.  A chain of parts that never comes back to
a number meets each number at most once, so the count of the pool bounds its
depth. -/
def tree
    (types : TypePool)
    (type : TypeId) : TypeTree :=
  types.unfold types.count type

/-- A type in source notation. -/
def text
    (types : TypePool)
    (type : TypeId) : Text :=
  (types.tree type).text

/-- A type with its structure spelled out. -/
def debug
    (types : TypePool)
    (type : TypeId) : Text :=
  (types.tree type).debug

/-- Every type of the pool in source notation, by number. -/
def texts (types : TypePool) : List Text :=
  (List.range types.count).map types.text

end TypePool
end LambdaCalculus
