import LambdaCalculus.Source.Span
import LambdaCalculus.Text.Numeral

/-!
# Tokens

A source is read as a list of tokens followed by the end of input.  The end
is no token: it is the empty span behind the last byte, so a list of tokens
can be consumed without ever consuming the end.
-/

namespace LambdaCalculus

namespace Token

/-- What a token is. -/
inductive Kind
  /-- A character outside the alphabet. -/
  | error
  | identifier
  | leftParenthesis
  | rightParenthesis
  | lambda
  | dot
  | colon
  | arrow
deriving DecidableEq

/-- The name of a kind. -/
def Kind.name : Kind -> Text
  | .error => "error"
  | .identifier => "ident"
  | .leftParenthesis => "("
  | .rightParenthesis => ")"
  | .lambda => "λ"
  | .dot => "."
  | .colon => ":"
  | .arrow => "→"

/-- What can be asked for at a place in the input. -/
inductive Symbol
  /-- No token is left. -/
  | endOfInput
  /-- A token of this kind. -/
  | token (kind : Kind)
  /-- A number that no symbol has; the input shows it nowhere. -/
  | unlisted (number : Nat)
deriving DecidableEq

namespace Symbol

/-- The symbols in the order of their numbers. -/
def listed : List Symbol :=
  [.endOfInput, .token .error, .token .identifier, .token .leftParenthesis,
    .token .rightParenthesis, .token .lambda, .token .dot, .token .colon,
    .token .arrow]

/-- The symbol with a given number. -/
def ofNumber (number : Nat) : Symbol :=
  listed.getD number (.unlisted number)

/-- The name of a symbol. -/
def name : Symbol -> Text
  | .endOfInput => "eof"
  | .token kind => kind.name
  | .unlisted _ => "unknown"

/-- The symbol with a given name. -/
def ofName? (name : Text) : Option Symbol :=
  listed.find? (fun symbol => symbol.name == name)

end Symbol
end Token

/-- A piece of the source with its kind. -/
structure Token where
  /-- What it is. -/
  kind : Token.Kind
  /-- Where it stands. -/
  span : Span
  /-- The bytes of the source at its place. -/
  lexeme : Text
deriving DecidableEq

/-- The tokens of a source. -/
structure TokenStream where
  /-- The source itself. -/
  source : Text
  /-- The tokens in the order of the source. -/
  tokens : List Token
  /-- The empty span at the end of the source. -/
  finish : Span
deriving DecidableEq

namespace TokenStream

/-- A line of a token listing: symbol, lexeme and span. -/
structure Entry where
  /-- The symbol at this place. -/
  symbol : Token.Symbol
  /-- Its span. -/
  span : Span
  /-- Its bytes. -/
  lexeme : Text
deriving DecidableEq

/-- The listing of one token. -/
def Entry.ofToken (token : Token) : Entry :=
  ⟨.token token.kind, token.span, token.lexeme⟩

/-- The listing of the end of input. -/
def finishEntry (stream : TokenStream) : Entry :=
  ⟨.endOfInput, stream.finish, []⟩

/-- Every token and then the end of input. -/
def entries (stream : TokenStream) : List Entry :=
  stream.tokens.map Entry.ofToken ++ [stream.finishEntry]

/-- One line of the listing as text. -/
def Entry.render (entry : Entry) : Text :=
  entry.symbol.name ++ " '" ++ entry.lexeme ++ "' [" ++
    Text.decimal entry.span.lo ++ "," ++ Text.decimal entry.span.hi ++ ")\n"

/-- The listing as text. -/
def dump (stream : TokenStream) : Text :=
  stream.entries.flatMap Entry.render

end TokenStream
end LambdaCalculus
