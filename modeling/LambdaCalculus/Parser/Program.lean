import LambdaCalculus.Parser.Basic
import LambdaCalculus.Parser.Scope
import LambdaCalculus.Term.Basic
import LambdaCalculus.Token.Lexer

/-!
# Programs

The grammar is

* a term is a name, or `(λ name term)` with an optional dot or `: type .`
  behind the name, or a function and one or more arguments in parentheses;
* a type is an atom, or an atom, an arrow and a type;
* an atom is a name, or a type in parentheses.

A program is one term and nothing behind it.  Reading stops at the first
error.  The recursion is bounded by a fuel computed from the number of tokens,
which always suffices because no level of the recursion takes more than two
steps without reading a token.
-/

namespace LambdaCalculus
namespace Parser

/-- Fuel that suffices to read from so many tokens. -/
def enoughFuel (tokens : List Token) : Nat :=
  2 * tokens.length + 2

/-! ## Types -/

mutual

/-- Reads a type; arrows associate to the right. -/
def typeWith (finish : Span) : Nat -> Parser TypeId
  | 0 => stop .outOfFuel
  | fuel + 1 => do
      let parameter ← atomWith finish fuel
      let arrow ← accept .arrow
      if arrow then do
        let result ← typeWith finish fuel
        intern (.function parameter result)
      else
        pure parameter

/-- Reads a base type or a type in parentheses. -/
def atomWith (finish : Span) : Nat -> Parser TypeId
  | 0 => stop .outOfFuel
  | fuel + 1 => do
      match ← nextKind with
      | some .leftParenthesis => do
          let _ ← accept .leftParenthesis
          let inner ← typeWith finish fuel
          let _ ← expect finish .rightParenthesis "')'"
          pure inner
      | _ => do
          let name ← token finish .identifier "a type" .typeExpected
          intern (.base name.lexeme)

end

/-- Reads a type. -/
def type (finish : Span) : Parser TypeId :=
  fun tokens types => typeWith finish (enoughFuel tokens) tokens types

/-! ## Terms -/

/-- Reads what may stand between the name and the body of an abstraction: a
declared type with a dot behind it, a dot, or nothing. -/
def declaration (finish : Span) : Parser (Option TypeId) := do
  let colon ← accept .colon
  if colon then do
    let declared ← type finish
    let _ ← expect finish .dot "'.'"
    pure (some declared)
  else do
    let _ ← accept .dot
    pure none

/-- The variable of a name that is in scope. -/
def variableOf
    (scope : Scope)
    (name : Token) : Parser Term :=
  match scope.index? name.lexeme with
  | some index => pure (.var name.span index)
  | none => stop (.fault (.unboundVariable name))

/-- Stops at a right parenthesis: the function in front of it, which starts
behind `left`, has no argument. -/
def requireArgument
    (source : Text)
    (left : Token)
    (function : Term) : Parser Unit :=
  fun tokens types =>
    match tokens with
    | right :: _ =>
        if right.kind = .rightParenthesis then
          .stopped (.fault (.argumentMissing (left.span.join right.span)
            (source.slice function.span.lo function.span.hi))) types
        else
          .done () tokens types
    | [] => .done () tokens types

mutual

/-- Reads a term whose free names are those of the scope. -/
def termWith (stream : TokenStream) : Nat -> Scope -> Parser Term
  | 0, _ => stop .outOfFuel
  | fuel + 1, scope => do
      match ← nextKind with
      | some .identifier => do
          let name ← expect stream.finish .identifier "a term"
          variableOf scope name
      | _ => do
          let left ← token stream.finish .leftParenthesis "a term"
            .unexpectedToken
          let lambda ← accept .lambda
          if lambda then do
            let name ← token stream.finish .identifier "a binder name"
              .binderNameExpected
            let declared ← declaration stream.finish
            let body ← termWith stream fuel (scope.extend name.lexeme)
            let right ← expect stream.finish .rightParenthesis "')'"
            pure (.abs (left.span.join right.span) declared body)
          else do
            let function ← termWith stream fuel scope
            requireArgument stream.source left function
            argumentsWith stream fuel scope left function

/-- Reads further arguments of a function up to the right parenthesis that
matches `left`. -/
def argumentsWith
    (stream : TokenStream) : Nat -> Scope -> Token -> Term -> Parser Term
  | 0, _, _, _ => stop .outOfFuel
  | fuel + 1, scope, left, function => do
      match ← nextKind with
      | none => refuse stream.finish "')'" (.expectedToken "')'")
      | some .rightParenthesis => do
          let right ← expect stream.finish .rightParenthesis "')'"
          pure (function.withSpan (left.span.join right.span))
      | some _ => do
          let argument ← termWith stream fuel scope
          argumentsWith stream fuel scope left
            (.app (left.span.join argument.span) function argument)

end

/-- Reads nothing, and stops unless the input ends here. -/
def endOfInput : Parser Unit :=
  fun tokens types =>
    match tokens with
    | [] => .done () tokens types
    | token :: _ =>
        if token.kind = .error then
          .stopped .lexical types
        else
          .stopped (.fault (.trailingInput token)) types

/-- Reads a term in the empty scope with nothing behind it. -/
def program (stream : TokenStream) : Parser Term := do
  let term ← fun tokens types =>
    termWith stream (enoughFuel tokens) [] tokens types
  endOfInput
  pure term

end Parser

/-- What comes of parsing a source. -/
structure ParseResult where
  /-- The term, if the source is a program. -/
  term : Option Term
  /-- The types numbered by then. -/
  types : TypePool
  /-- The diagnostics that arose. -/
  diagnostics : Diagnostics

/-- Parses lexed tokens.  Nothing is parsed when the source, or an earlier
one that was `known` to be faulty, is not valid UTF-8. -/
def Lexed.parse
    (lexed : Lexed)
    (types : TypePool)
    (known : Diagnostics) : ParseResult :=
  if Diagnostics.hasCode (known ++ lexed.diagnostics) .invalidUtf8 then
    ⟨none, types, lexed.diagnostics⟩
  else
    match Parser.program lexed.stream lexed.stream.tokens types with
    | .done term _ types => ⟨some term, types, lexed.diagnostics⟩
    | .stopped reason types =>
        ⟨none, types, lexed.diagnostics ++ reason.diagnostics⟩

/-- Lexes and parses a source with the given number. -/
def parse
    (file : Nat)
    (source : Text)
    (types : TypePool)
    (known : Diagnostics) : ParseResult :=
  (lex file source).parse types known

end LambdaCalculus
