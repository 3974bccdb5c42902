import LambdaCalculus.Parser.Program
import LambdaCalculus.Token.Cursor

/-!
# Parsing with a cursor

The grammar of programs, read through a cursor.  A cursor can look and step
behind the last token: there it shows the end of input again and again.  So
nothing in a cursor keeps a parser from passing the end, or from reading for ever
without getting on.
-/

namespace LambdaCalculus

/-- The kind of the token that an entry shows; what is no token counts as an
error. -/
def TokenStream.Entry.kind (entry : Entry) : Token.Kind :=
  match entry.symbol with
  | .token kind => kind
  | _ => .error

/-- The token that an entry shows. -/
def TokenStream.Entry.token (entry : Entry) : Token :=
  ⟨entry.kind, entry.span, entry.lexeme⟩

/-- The result of a parser that reads through a cursor, with the cursor and the
types as they are then. -/
inductive CursorParsed (Value : Type)
  /-- A value was read. -/
  | done (value : Value) (cursor : Cursor) (types : TypePool)
  /-- The entries cannot be read. -/
  | stopped (reason : Stop) (cursor : Cursor) (types : TypePool)

/-- Reads a value from a cursor on. -/
def CursorParser (Value : Type) : Type :=
  Cursor -> TypePool -> CursorParsed Value

namespace CursorParser

/-- Reads nothing and gives a value. -/
def result (value : Value) : CursorParser Value :=
  fun cursor types => .done value cursor types

/-- Reads with one parser and then with another that depends on the value. -/
def andThen
    (first : CursorParser Value)
    (next : Value -> CursorParser Other) : CursorParser Other :=
  fun cursor types =>
    match first cursor types with
    | .done value cursor types => next value cursor types
    | .stopped reason cursor types => .stopped reason cursor types

instance : Monad CursorParser where
  pure := result
  bind := andThen

/-- Stops at once. -/
def stop (reason : Stop) : CursorParser Value :=
  fun cursor types => .stopped reason cursor types

/-- The entry at the cursor, which stays where it is. -/
def peek : CursorParser TokenStream.Entry :=
  fun cursor types => .done (cursor.peek 0) cursor types

/-- Whether the cursor shows the symbol. -/
def isAt (symbol : Token.Symbol) : CursorParser Bool :=
  fun cursor types => .done (cursor.isAt symbol) cursor types

/-- Passes the entry at the cursor. -/
def bump : CursorParser TokenStream.Entry :=
  fun cursor types => .done cursor.bump.1 cursor.bump.2 types

/-- Passes the entry at the cursor if it shows the symbol, and tells whether. -/
def eat (symbol : Token.Symbol) : CursorParser Bool :=
  fun cursor types =>
    .done (cursor.eat symbol).1 (cursor.eat symbol).2 types

/-- Stops because the entry at the cursor cannot stand there. -/
def refuse
    (expected : Text)
    (error : Token -> ParseError) : CursorParser Value := do
  let entry ← peek
  match entry.symbol with
  | .token .error => stop .lexical
  | .endOfInput => stop (.fault (.unexpectedEnd entry.span expected))
  | _ => stop (.fault (error entry.token))

/-- Passes a token of the given kind. -/
def token
    (kind : Token.Kind)
    (expected : Text)
    (error : Token -> ParseError) : CursorParser Token := do
  let entry ← peek
  let eaten ← eat (.token kind)
  if eaten then
    pure entry.token
  else
    refuse expected error

/-- Passes a token of the given kind, or stops because it was expected. -/
def expect
    (kind : Token.Kind)
    (expected : Text) : CursorParser Token :=
  token kind expected (.expectedToken expected)

/-- Reads nothing and numbers a type. -/
def intern (former : TypeFormer) : CursorParser TypeId :=
  fun cursor types =>
    .done (types.intern former).1 cursor (types.intern former).2

/-- Fuel that suffices to read on from a cursor. -/
def enoughFuel (cursor : Cursor) : Nat :=
  2 * (cursor.stream.tokens.length - cursor.position) + 2

/-! ## Types -/

mutual

/-- Reads a type. -/
def typeWith : Nat -> CursorParser TypeId
  | 0 => stop .outOfFuel
  | fuel + 1 => do
      let parameter ← atomWith fuel
      let arrow ← eat (.token .arrow)
      if arrow then do
        let result ← typeWith fuel
        intern (.function parameter result)
      else
        pure parameter

/-- Reads a base type or a type in parentheses. -/
def atomWith : Nat -> CursorParser TypeId
  | 0 => stop .outOfFuel
  | fuel + 1 => do
      let entry ← peek
      match entry.symbol with
      | .token .identifier => do
          let name ← bump
          intern (.base name.lexeme)
      | .token .leftParenthesis => do
          let _ ← bump
          let inner ← typeWith fuel
          let _ ← expect .rightParenthesis "')'"
          pure inner
      | _ => refuse "a type" .typeExpected

end

/-- Reads a type. -/
def type : CursorParser TypeId :=
  fun cursor types => typeWith (enoughFuel cursor) cursor types

/-! ## Terms -/

/-- Reads what may stand between the name and the body of an abstraction. -/
def declaration : CursorParser (Option TypeId) := do
  let colon ← eat (.token .colon)
  if colon then do
    let declared ← type
    let _ ← expect .dot "'.'"
    pure (some declared)
  else do
    let _ ← eat (.token .dot)
    pure none

/-- The variable of a name that is in scope. -/
def variableOf
    (scope : Scope)
    (name : Token) : CursorParser Term :=
  match scope.index? name.lexeme with
  | some index => pure (.var name.span index)
  | none => stop (.fault (.unboundVariable name))

/-- Stops at a right parenthesis: the function in front of it has no
argument. -/
def requireArgument
    (left : Token)
    (function : Term) : CursorParser Unit :=
  fun cursor types =>
    if cursor.isAt (.token .rightParenthesis) then
      .stopped (.fault (.argumentMissing
        (left.span.join (cursor.peek 0).span)
        (cursor.stream.source.slice function.span.lo function.span.hi)))
        cursor types
    else
      .done () cursor types

mutual

/-- Reads a term whose free names are those of the scope. -/
def termWith : Nat -> Scope -> CursorParser Term
  | 0, _ => stop .outOfFuel
  | fuel + 1, scope => do
      let entry ← peek
      match entry.symbol with
      | .token .identifier => do
          let name ← bump
          variableOf scope name.token
      | .token .leftParenthesis => do
          let left ← bump
          let lambda ← eat (.token .lambda)
          if lambda then do
            let name ← token .identifier "a binder name" .binderNameExpected
            let declared ← declaration
            let body ← termWith fuel (scope.extend name.lexeme)
            let right ← expect .rightParenthesis "')'"
            pure (.abs (left.span.join right.span) declared body)
          else do
            let function ← termWith fuel scope
            requireArgument left.token function
            argumentsWith fuel scope left.token function
      | _ => refuse "a term" .unexpectedToken

/-- Reads further arguments of a function up to the right parenthesis, or the end
of input, that follows them. -/
def argumentsWith : Nat -> Scope -> Token -> Term -> CursorParser Term
  | 0, _, _, _ => stop .outOfFuel
  | fuel + 1, scope, left, function => do
      let closed ← isAt (.token .rightParenthesis)
      let ended ← isAt .endOfInput
      if closed || ended then do
        let right ← expect .rightParenthesis "')'"
        pure (function.withSpan (left.span.join right.span))
      else do
        let argument ← termWith fuel scope
        argumentsWith fuel scope left
          (.app (left.span.join argument.span) function argument)

end

/-- Reads a term in the empty scope with nothing behind it. -/
def programWith (fuel : Nat) : CursorParser Term := do
  let term ← termWith fuel []
  let ended ← isAt .endOfInput
  if ended then
    pure term
  else
    refuse [] .trailingInput

end CursorParser

/-- Parses lexed tokens through a cursor in front of the first one. -/
def Lexed.parseWith
    (fuel : Nat)
    (lexed : Lexed)
    (types : TypePool)
    (known : Diagnostics) : ParseResult :=
  if Diagnostics.hasCode (known ++ lexed.diagnostics) .invalidUtf8 then
    ⟨none, types, lexed.diagnostics⟩
  else
    match CursorParser.programWith fuel (.ofStream lexed.stream) types with
    | .done term _ types => ⟨some term, types, lexed.diagnostics⟩
    | .stopped reason _ types =>
        ⟨none, types, lexed.diagnostics ++ reason.diagnostics⟩

end LambdaCalculus
