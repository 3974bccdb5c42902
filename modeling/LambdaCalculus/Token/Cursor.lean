import LambdaCalculus.Token.Basic
import LambdaCalculus.Word

/-!
# Cursors

A cursor is a reading position in a token stream.  Every position behind the
last token shows the end of input.
-/

namespace LambdaCalculus

/-- A reading position; the end of input may be passed once. -/
structure Cursor where
  /-- The stream that is read. -/
  stream : TokenStream
  /-- The number of entries passed so far. -/
  position : Nat

namespace Cursor

/-- The position in front of the first token. -/
def ofStream (stream : TokenStream) : Cursor :=
  ⟨stream, 0⟩

/-- The entry with a given number, counted from the start of the stream. -/
def entryAt
    (cursor : Cursor)
    (index : Nat) : TokenStream.Entry :=
  match cursor.stream.tokens[index]? with
  | some token => .ofToken token
  | none => cursor.stream.finishEntry

/-- The entry `ahead` places behind the reading position, where positions are
64-bit words. -/
def peek
    (cursor : Cursor)
    (ahead : Nat) : TokenStream.Entry :=
  cursor.entryAt (Word.ofNat (cursor.position + ahead))

/-- The symbol at the reading position is the given one. -/
def isAt
    (cursor : Cursor)
    (symbol : Token.Symbol) : Bool :=
  (cursor.peek 0).symbol == symbol

/-- Passes the current entry, unless the end of input has been passed. -/
def advance (cursor : Cursor) : Cursor :=
  if cursor.position < cursor.stream.entries.length then
    { cursor with position := cursor.position + 1 }
  else
    cursor

/-- The current entry, and the cursor behind it. -/
def bump (cursor : Cursor) : TokenStream.Entry × Cursor :=
  (cursor.peek 0, cursor.advance)

/-- Passes the current entry if it shows the given symbol. -/
def eat
    (cursor : Cursor)
    (symbol : Token.Symbol) : Bool × Cursor :=
  if cursor.isAt symbol then (true, cursor.advance) else (false, cursor)

end Cursor
end LambdaCalculus
