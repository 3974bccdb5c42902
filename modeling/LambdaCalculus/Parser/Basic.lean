import LambdaCalculus.Parser.Error
import LambdaCalculus.Types.Pool

/-!
# Parsers

A parser reads from the front of a list of tokens.  It also numbers the types
that it meets, and these stay numbered when it stops with an error later.
-/

namespace LambdaCalculus

/-- Why a parser stops. -/
inductive Stop
  /-- An error token, which the lexer has reported. -/
  | lexical
  /-- A parse error. -/
  | fault (error : ParseError)
  /-- The bound on the recursion was too small. -/
  | outOfFuel
deriving DecidableEq

/-- What the reason of a stop adds to the diagnostics. -/
def Stop.diagnostics : Stop -> Diagnostics
  | .fault error => [error.diagnostic]
  | _ => []

/-- The result of a parser, with the types numbered by then. -/
inductive Parsed (Value : Type)
  /-- A value was read and some tokens are left. -/
  | done (value : Value) (rest : List Token) (types : TypePool)
  /-- The tokens cannot be read. -/
  | stopped (reason : Stop) (types : TypePool)

/-- Reads a value from the front of a list of tokens. -/
def Parser (Value : Type) : Type :=
  List Token -> TypePool -> Parsed Value

namespace Parser

/-- Reads nothing and gives a value. -/
def result (value : Value) : Parser Value :=
  fun tokens types => .done value tokens types

/-- Reads with one parser and then with another that depends on the value. -/
def andThen
    (first : Parser Value)
    (next : Value -> Parser Other) : Parser Other :=
  fun tokens types =>
    match first tokens types with
    | .done value rest types => next value rest types
    | .stopped reason types => .stopped reason types

instance : Monad Parser where
  pure := result
  bind := andThen

/-- Stops at once. -/
def stop (reason : Stop) : Parser Value :=
  fun _ types => .stopped reason types

/-- The kind of the next token, which stays where it is. -/
def nextKind : Parser (Option Token.Kind) :=
  fun tokens types => .done (tokens.head?.map Token.kind) tokens types

/-- Stops because the next token, or the end of input, cannot stand here. -/
def refuse
    (finish : Span)
    (expected : Text)
    (error : Token -> ParseError) : Parser Value :=
  fun tokens types =>
    match tokens with
    | [] => .stopped (.fault (.unexpectedEnd finish expected)) types
    | token :: _ =>
        if token.kind = .error then
          .stopped .lexical types
        else
          .stopped (.fault (error token)) types

/-- Reads a token of the given kind. -/
def token
    (finish : Span)
    (kind : Token.Kind)
    (expected : Text)
    (error : Token -> ParseError) : Parser Token :=
  fun tokens types =>
    match tokens with
    | found :: rest =>
        if found.kind = kind then
          .done found rest types
        else
          refuse finish expected error tokens types
    | [] => refuse finish expected error tokens types

/-- Reads a token of the given kind, or stops because it was expected. -/
def expect
    (finish : Span)
    (kind : Token.Kind)
    (expected : Text) : Parser Token :=
  token finish kind expected (.expectedToken expected)

/-- Reads a token of the given kind if there is one, and tells whether. -/
def accept (kind : Token.Kind) : Parser Bool :=
  fun tokens types =>
    match tokens with
    | found :: rest =>
        if found.kind = kind then
          .done true rest types
        else
          .done false tokens types
    | [] => .done false tokens types

/-- Reads nothing and numbers a type. -/
def intern (former : TypeFormer) : Parser TypeId :=
  fun tokens types =>
    .done (types.intern former).1 tokens (types.intern former).2

end Parser
end LambdaCalculus
