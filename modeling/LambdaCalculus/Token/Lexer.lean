import LambdaCalculus.Diagnostic.Basic
import LambdaCalculus.Text.Utf8
import LambdaCalculus.Token.Basic

/-!
# The lexer

Blank bytes separate tokens.  An identifier is a longest run of letters, a
fixed symbol is one of a few spellings, and every other code point is an error
token of its own.  A source that is not valid UTF-8 has no tokens at all.
-/

namespace LambdaCalculus
namespace Token

/-- The fixed symbols and how each is spelled after its first byte. -/
def spellings : List (Kind × UInt8 × Text) :=
  [(.leftParenthesis, 0x28, []),
    (.rightParenthesis, 0x29, []),
    (.lambda, 0x5C, []),
    (.dot, 0x2E, []),
    (.colon, 0x3A, []),
    (.arrow, 0x2D, [0x3E]),
    (.lambda, 0xCE, [0xBB]),
    (.arrow, 0xE2, [0x86, 0x92])]

/-- The spelling that a source starts with. -/
def spelling?
    (first : UInt8)
    (rest : Text) : Option (Kind × UInt8 × Text) :=
  spellings.find? fun (_, lead, others) =>
    lead == first && others.isPrefixOf rest

/-- The kind of the token that starts with a byte that is not blank, and the
number of its further bytes. -/
def front
    (first : UInt8)
    (rest : Text) : Kind × Nat :=
  if Text.isLetter first then
    (.identifier, (rest.takeWhile Text.isLetter).length)
  else
    match spelling? first rest with
    | some (kind, _, others) => (kind, others.length)
    | none => (.error, ((Text.lead? first).map Text.Lead.trailing).getD 0)

/-- The tokens of a text whose first byte has the given offset. -/
def scan (file offset : Nat) (text : Text) : List Token :=
  match text with
  | [] => []
  | first :: rest =>
      if Text.isBlank first then
        scan file (offset + 1) rest
      else
        let further := (front first rest).2
        let lexeme := first :: rest.take further
        { kind := (front first rest).1
          span := ⟨file, offset, offset + lexeme.length⟩
          lexeme := lexeme } ::
          scan file (offset + lexeme.length) (rest.drop further)
termination_by text.length
decreasing_by
  · simp only [List.length_cons]
    omega
  · simp only [List.length_drop, List.length_cons]
    omega

/-- The diagnostic of an error token. -/
def unknownCharacter (token : Token) : Diagnostic where
  severity := .error
  code := .unknownCharacter
  span := token.span
  arguments := [token.lexeme]

end Token

/-- The diagnostic of a source whose bytes are not valid UTF-8 from `offset`
on. -/
def invalidUtf8
    (file : Nat)
    (source : Text)
    (offset : Nat) : Diagnostic where
  severity := .fatal
  code := .invalidUtf8
  span := ⟨file, offset, min (offset + 1) source.length⟩
  arguments := [Text.decimal offset, Text.hexByte (source.getD offset 0)]

/-- The tokens of a source with the diagnostics that arise on the way. -/
structure Lexed where
  /-- The tokens. -/
  stream : TokenStream
  /-- One diagnostic for each error token, or a fatal one for the source. -/
  diagnostics : Diagnostics
deriving DecidableEq

/-- The tokens and diagnostics of a source with the given number. -/
def lex
    (file : Nat)
    (source : Text) : Lexed :=
  let finish : Span := ⟨file, source.length, source.length⟩
  match Text.firstInvalid? source with
  | some offset =>
      { stream := ⟨source, [], finish⟩
        diagnostics := [invalidUtf8 file source offset] }
  | none =>
      let tokens := Token.scan file 0 source
      { stream := ⟨source, tokens, finish⟩
        diagnostics :=
          (tokens.filter (fun token => token.kind == .error)).map
            Token.unknownCharacter }

end LambdaCalculus
