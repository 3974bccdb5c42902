import LambdaCalculus.Source.Span

/-!
# Diagnostics

A diagnostic is a code, a place and the arguments of the code's message.
Diagnostics are collected in the order in which they arise.
-/

namespace LambdaCalculus
namespace Diagnostic

/-- How bad a diagnostic is.  After a fatal one the input cannot be trusted. -/
inductive Severity
  | error
  | fatal
deriving DecidableEq

/-- The name of a severity. -/
def Severity.name : Severity -> Text
  | .error => "error"
  | .fatal => "fatal"

/-- What a diagnostic is about. -/
inductive Code
  | invalidUtf8
  | unknownCharacter
  | expectedToken
  | unexpectedToken
  | unexpectedEnd
  | trailingInput
  | binderNameExpected
  | applicationNeedsArgument
  | typeExpected
  | unboundVariable
  | typeInvalidApplication
  | typeAnnotationRequired
  | typeUnboundIndex
  | reduceStepBudget
  | reduceSizeBudget
  | reduceStuck
  /-- A number that no code has. -/
  | unlisted (number : Nat)
deriving DecidableEq

namespace Code

/-- The codes in the order of their numbers. -/
def listed : List Code :=
  [.invalidUtf8, .unknownCharacter, .expectedToken, .unexpectedToken,
    .unexpectedEnd, .trailingInput, .binderNameExpected,
    .applicationNeedsArgument, .typeExpected, .unboundVariable,
    .typeInvalidApplication, .typeAnnotationRequired, .typeUnboundIndex,
    .reduceStepBudget, .reduceSizeBudget, .reduceStuck]

/-- The code with a given number. -/
def ofNumber (number : Nat) : Code :=
  listed.getD number (.unlisted number)

/-- The name of a code. -/
def name : Code -> Text
  | .invalidUtf8 => "InvalidUtf8"
  | .unknownCharacter => "UnknownCharacter"
  | .expectedToken => "ExpectedToken"
  | .unexpectedToken => "UnexpectedToken"
  | .unexpectedEnd => "UnexpectedEof"
  | .trailingInput => "TrailingInput"
  | .binderNameExpected => "BinderNameExpected"
  | .applicationNeedsArgument => "ApplicationNeedsArgument"
  | .typeExpected => "TypeExpected"
  | .unboundVariable => "UnboundVariable"
  | .typeInvalidApplication => "TypeInvalidApplication"
  | .typeAnnotationRequired => "TypeAnnotationRequired"
  | .typeUnboundIndex => "TypeUnboundIndex"
  | .reduceStepBudget => "ReduceStepBudget"
  | .reduceSizeBudget => "ReduceSizeBudget"
  | .reduceStuck => "ReduceStuck"
  | .unlisted _ => "Unknown"

/-- The code with a given name. -/
def ofName? (name : Text) : Option Code :=
  listed.find? (fun code => code.name == name)

end Code
end Diagnostic

/-- A code at a place, with the arguments of its message. -/
structure Diagnostic where
  /-- How bad it is. -/
  severity : Diagnostic.Severity
  /-- What it is about. -/
  code : Diagnostic.Code
  /-- Where it is. -/
  span : Span
  /-- What fills the slots of the message. -/
  arguments : List Text
deriving DecidableEq

/-- The diagnostics so far, oldest first. -/
abbrev Diagnostics := List Diagnostic

namespace Diagnostics

/-- Some diagnostic is fatal. -/
def hasFatal (diagnostics : Diagnostics) : Bool :=
  diagnostics.any (fun diagnostic => diagnostic.severity == .fatal)

/-- The oldest diagnostic with a given code. -/
def firstWith?
    (diagnostics : Diagnostics)
    (code : Diagnostic.Code) : Option Diagnostic :=
  diagnostics.find? (fun diagnostic => diagnostic.code == code)

/-- Some diagnostic has the given code. -/
def hasCode
    (diagnostics : Diagnostics)
    (code : Diagnostic.Code) : Bool :=
  (diagnostics.firstWith? code).isSome

end Diagnostics
end LambdaCalculus
