import LambdaCalculus.Diagnostic.Basic
import LambdaCalculus.Token.Basic

/-!
# Parse errors

The ways in which a list of tokens fails to be a program, each with the
diagnostic that reports it.
-/

namespace LambdaCalculus

/-- Why a list of tokens is not a program. -/
inductive ParseError
  /-- The input ends where something else is expected. -/
  | unexpectedEnd (span : Span) (expected : Text)
  /-- A certain token is expected where another one stands. -/
  | expectedToken (expected : Text) (found : Token)
  /-- No term starts with this token. -/
  | unexpectedToken (found : Token)
  /-- The term is complete and more follows. -/
  | trailingInput (found : Token)
  /-- The lambda is not followed by a name. -/
  | binderNameExpected (found : Token)
  /-- A function stands in parentheses without an argument. -/
  | argumentMissing (span : Span) (function : Text)
  /-- No type starts with this token. -/
  | typeExpected (found : Token)
  /-- No enclosing binder has this name. -/
  | unboundVariable (found : Token)
deriving DecidableEq

namespace ParseError

/-- The code that reports an error. -/
def code : ParseError -> Diagnostic.Code
  | .unexpectedEnd _ _ => .unexpectedEnd
  | .expectedToken _ _ => .expectedToken
  | .unexpectedToken _ => .unexpectedToken
  | .trailingInput _ => .trailingInput
  | .binderNameExpected _ => .binderNameExpected
  | .argumentMissing _ _ => .applicationNeedsArgument
  | .typeExpected _ => .typeExpected
  | .unboundVariable _ => .unboundVariable

/-- Where an error is. -/
def span : ParseError -> Span
  | .unexpectedEnd span _ => span
  | .expectedToken _ found => found.span
  | .unexpectedToken found => found.span
  | .trailingInput found => found.span
  | .binderNameExpected found => found.span
  | .argumentMissing span _ => span
  | .typeExpected found => found.span
  | .unboundVariable found => found.span

/-- What fills the message of an error. -/
def arguments : ParseError -> List Text
  | .unexpectedEnd _ expected => [expected]
  | .expectedToken expected found => [expected, found.lexeme]
  | .unexpectedToken found => [found.lexeme]
  | .trailingInput found => [found.lexeme]
  | .binderNameExpected found => [found.lexeme]
  | .argumentMissing _ function => [function]
  | .typeExpected found => [found.lexeme]
  | .unboundVariable found => [found.lexeme]

/-- The diagnostic that reports an error.  Empty arguments are left out. -/
def diagnostic (error : ParseError) : Diagnostic where
  severity := .error
  code := error.code
  span := error.span
  arguments := error.arguments.filter fun argument => !argument.isEmpty

end ParseError
end LambdaCalculus
