import LambdaCalculus.Term.Basic
import LambdaCalculus.Text.Numeral
import LambdaCalculus.Types.Tree
import LambdaCalculus.Word

/-!
# Printing terms

A term is shown with names, with indices or with its structure spelled out.
Names are given by depth: the binder under `level` others is called by the
letters of `level` in base twenty-six, so no two binders on a path share a
name.  An application shows its head and all arguments in one pair of
parentheses.
-/

namespace LambdaCalculus

/-- How terms and types are shown. -/
inductive Style
  | named
  | indexed
  | debug
deriving DecidableEq

/-- The name of the binder under `level` others: `a` to `z`, then `ba`, `bb`
and so on. -/
def binderName (level : Nat) : Text :=
  Text.numeral 26 (fun digit => (97 + digit).toUInt8) level

namespace TypePool

/-- A type in the given style; only the spelled out style differs. -/
def render
    (types : TypePool)
    (style : Style)
    (type : TypeId) : Text :=
  match style with
  | .debug => types.debug type
  | _ => types.text type

end TypePool

namespace Term

/-- The declared type of a binder in source notation. -/
def declarationText
    (types : TypePool) : Option TypeId -> Text
  | none => []
  | some type => ":" ++ types.text type

/-- Puts an application in parentheses, unless it stands as the function of
another one, where the outer parentheses serve both. -/
def enclose
    (asFunction : Bool)
    (inner : Text) : Text :=
  if asFunction then inner else "(" ++ inner ++ ")"

/-- A variable under `level` binders: the name of its binder, or its index
when nothing binds it. -/
def variableName
    (level index : Nat) : Text :=
  if index < level then binderName (level - 1 - index) else Text.decimal index

/-- A term with names, under `level` binders. -/
def named
    (types : TypePool)
    (asFunction : Bool)
    (level : Nat) : Term -> Text
  | .var _ index => variableName level index
  | .abs _ declared body =>
      "(λ" ++ binderName level ++ declarationText types declared ++ "." ++
        named types false (Word.next level) body ++ ")"
  | .app _ function argument =>
      enclose asFunction
        (named types true level function ++ " " ++
          named types false level argument)

/-- A term with indices. -/
def indexed
    (types : TypePool)
    (asFunction : Bool) : Term -> Text
  | .var _ index => Text.decimal index
  | .abs _ declared body =>
      "(λ" ++ declarationText types declared ++ " " ++
        indexed types false body ++ ")"
  | .app _ function argument =>
      enclose asFunction
        (indexed types true function ++ " " ++
          indexed types false argument)

/-- The declared type of a binder with its structure spelled out. -/
def declarationDebug
    (types : TypePool) : Option TypeId -> Text
  | none => []
  | some type => "type=" ++ types.debug type ++ ", "

/-- A term with its structure spelled out. -/
def debug
    (types : TypePool) : Term -> Text
  | .var _ index => "Variable(" ++ Text.decimal index ++ ")"
  | .abs _ declared body =>
      "Abstraction(" ++ declarationDebug types declared ++ "body=" ++
        debug types body ++ ")"
  | .app _ function argument =>
      "Application(function=" ++ debug types function ++ ", argument=" ++
        debug types argument ++ ")"

/-- A term in the given style.  In the named style it stands under
`outerBinders` binders. -/
def render
    (types : TypePool)
    (style : Style)
    (outerBinders : Nat)
    (term : Term) : Text :=
  match style with
  | .named => named types false outerBinders term
  | .indexed => indexed types false term
  | .debug => debug types term

end Term
end LambdaCalculus
