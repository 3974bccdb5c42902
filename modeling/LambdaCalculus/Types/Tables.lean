import LambdaCalculus.Types.Pool

/-!
# The type pool in two tables

The types of a pool as one table, with the error type in front, and the names of
the base types as another.  A base type refers to its name by place.  Types are
found by going through the table.
-/

namespace LambdaCalculus

/-- An entry in a table of types. -/
inductive TypeEntry
  | error
  /-- A base type whose name has a place in the table of names. -/
  | base (place : Nat)
  | function (parameter result : TypeId)
deriving DecidableEq

/-- A table of types and a table of names. -/
structure TypeTables where
  /-- The types; the number of a type is its place. -/
  types : List TypeEntry
  /-- The names of the base types. -/
  names : List Text
deriving DecidableEq

namespace TypeTables

/-- The tables with the error type only. -/
def start : TypeTables := ⟨[.error], []⟩

/-- The entry is a base type of that name. -/
def isBase
    (tables : TypeTables)
    (name : Text) : TypeEntry -> Bool
  | .base place => tables.names[place]? == some name
  | _ => false

/-- The number of a base type. -/
def base
    (tables : TypeTables)
    (name : Text) : TypeId × TypeTables :=
  match tables.types.findIdx? (tables.isBase name) with
  | some type => (type, tables)
  | none =>
      (tables.types.length,
        ⟨tables.types ++ [.base tables.names.length], tables.names ++ [name]⟩)

/-- The number of a function type. -/
def function
    (tables : TypeTables)
    (parameter result : TypeId) : TypeId × TypeTables :=
  match tables.types.findIdx? (· == .function parameter result) with
  | some type => (type, tables)
  | none =>
      (tables.types.length,
        { tables with types := tables.types ++ [.function parameter result] })

/-- The number of a type formed in a given way. -/
def intern
    (tables : TypeTables) : TypeFormer -> TypeId × TypeTables
  | .base name => tables.base name
  | .function parameter result => tables.function parameter result

/-- The parameter of a function type; the error type for any other. -/
def parameter
    (tables : TypeTables)
    (type : TypeId) : TypeId :=
  match tables.types[type]? with
  | some (.function parameter _) => parameter
  | _ => TypePool.errorId

/-- The result of a function type; the error type for any other. -/
def result
    (tables : TypeTables)
    (type : TypeId) : TypeId :=
  match tables.types[type]? with
  | some (.function _ result) => result
  | _ => TypePool.errorId

/-- The name of a base type; empty for any other. -/
def baseName
    (tables : TypeTables)
    (type : TypeId) : Text :=
  match tables.types[type]? with
  | some (.base place) => tables.names.getD place []
  | _ => []

end TypeTables
end LambdaCalculus
