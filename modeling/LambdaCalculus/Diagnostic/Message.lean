import LambdaCalculus.Diagnostic.Basic
import LambdaCalculus.Text.Numeral

/-!
# Messages

Every code has a template: a text in which a number in braces holds the place
of the argument with that number.  A template is filled from left to right, and
what an argument contains is never looked at again.
-/

namespace LambdaCalculus

namespace Template

/-- The byte in front of the number of a placeholder. -/
def openingBrace : UInt8 := 0x7B

/-- The byte behind the number of a placeholder. -/
def closingBrace : UInt8 := 0x7D

/-- What stands in front of the next closing brace. -/
def label (text : Text) : Text :=
  text.takeWhile (· != closingBrace)

/-- The number of the placeholder that a text starts with: an opening brace, a
number and a closing brace. -/
def placeholder?
    (first : UInt8)
    (rest : Text) : Option Nat :=
  if first == openingBrace && rest.contains closingBrace &&
      Text.isNumber (label rest) then
    some (Text.decimalValue (label rest))
  else
    none

/-- The template with its placeholders replaced by the arguments.  A
placeholder without an argument stays as it is. -/
def fill
    (arguments : List Text)
    (template : Text) : Text :=
  match template with
  | [] => []
  | first :: rest =>
      match (placeholder? first rest).bind (arguments[·]?) with
      | some argument =>
          argument ++ fill arguments (rest.drop ((label rest).length + 1))
      | none => first :: fill arguments rest
termination_by template.length
decreasing_by
  · simp only [List.length_drop, List.length_cons]
    omega
  · simp only [List.length_cons]
    omega

end Template

namespace Diagnostic

/-- The template of a code's message. -/
def Code.template : Code -> Text
  | .invalidUtf8 =>
      "invalid UTF-8 sequence starting at byte offset \x7b0\x7d " ++
        "(byte=0x\x7b1\x7d)"
  | .unknownCharacter => "unknown character '\x7b0\x7d'"
  | .expectedToken => "expected \x7b0\x7d, got '\x7b1\x7d'"
  | .unexpectedToken => "unexpected token '\x7b0\x7d'"
  | .unexpectedEnd => "unexpected end of input; expected \x7b0\x7d"
  | .trailingInput => "unexpected '\x7b0\x7d' after the end of the term"
  | .binderNameExpected =>
      "expected a binder name after the lambda, got '\x7b0\x7d'"
  | .applicationNeedsArgument =>
      "application needs at least one argument; '(\x7b0\x7d)' is not a term"
  | .typeExpected => "expected a type, got '\x7b0\x7d'"
  | .unboundVariable =>
      "unbound variable '\x7b0\x7d'; no enclosing lambda binds it"
  | .typeInvalidApplication =>
      "attempted to apply term (\x7b0\x7d):\x7b1\x7d " ++
        "to term (\x7b2\x7d):\x7b3\x7d"
  | .typeAnnotationRequired =>
      "binder has no type annotation; " ++
        "every lambda of a typed term must declare its argument type"
  | .typeUnboundIndex =>
      "variable index \x7b0\x7d escapes a typing context of depth \x7b1\x7d"
  | .reduceStepBudget =>
      "no normal form reached within \x7b0\x7d reduction steps"
  | .reduceSizeBudget =>
      "reduction produced a term larger than \x7b0\x7d nodes"
  | .reduceStuck =>
      "reduction is stuck: variable '\x7b0\x7d' is applied to arguments"
  | .unlisted _ => "unknown diagnostic"

/-- The filled template of a diagnostic. -/
def message (diagnostic : Diagnostic) : Text :=
  Template.fill diagnostic.arguments diagnostic.code.template

end Diagnostic
end LambdaCalculus
