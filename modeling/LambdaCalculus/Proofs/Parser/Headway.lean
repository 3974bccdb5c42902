import LambdaCalculus.Proofs.Parser.Positions

/-!
# Reading with a cursor terminates

A call that reads through a cursor gives one and the same result with all fuel
from some amount on, and this result is not a stop for lack of fuel.  So the
recursion terminates when nothing bounds it.  What the call has read are one or
more tokens, and wherever it stops it stands in front of the end of input.
-/

namespace LambdaCalculus

/-- The cursor of a result. -/
def CursorParsed.cursor : CursorParsed Value -> Cursor
  | .done _ cursor _ => cursor
  | .stopped _ cursor _ => cursor

namespace CursorParsed.Tracks

variable {stream : TokenStream} {parsed : Parsed Value}
  {poorer richer : CursorParsed Value}

theorem sameStream
    (tracks : Tracks stream start parsed poorer richer) :
    poorer.cursor.stream = stream := by
  cases tracks <;> rfl

theorem forward
    (tracks : Tracks stream start parsed poorer richer) :
    start ≤ poorer.cursor.position := by
  cases tracks <;> assumption

theorem inside
    (tracks : Tracks stream start parsed poorer richer) :
    poorer.cursor.position ≤ stream.tokens.length := by
  cases tracks <;> assumption

theorem of_stopped
    (tracks : Tracks stream start parsed (.stopped reason there later) richer) :
    parsed = .stopped reason later := by
  cases tracks <;> rfl

theorem of_done
    (tracks : Tracks stream start parsed (.done value there later) richer) :
    parsed = .done value (stream.tokens.drop there.position) later := by
  cases tracks
  rfl

/-- More fuel makes a difference only where the fuel has run out. -/
theorem eq_of_remains
    (tracks : Tracks stream start parsed poorer richer)
    (remains : ∀ later, parsed ≠ .stopped .outOfFuel later) :
    richer = poorer := by
  cases tracks with
  | done => rfl
  | stopped => rfl
  | outOfFuel types => exact absurd rfl (remains types)

end CursorParsed.Tracks

namespace CursorParser

/-! ## Calls -/

/-- What a call at a position comes to, for every fuel. -/
structure HeadwayAt
    (stream : TokenStream)
    (start : Nat)
    (types : TypePool)
    (call : Nat -> CursorParser Value) : Prop where
  /-- With enough fuel the call does not run out of it. -/
  lasts : ∀ fuel there later,
    enoughFuel (stream.cursorAt start) ≤ fuel ->
    call fuel (stream.cursorAt start) types ≠ .stopped .outOfFuel there later
  /-- How much more there is than enough does not matter. -/
  settled : ∀ fuel, enoughFuel (stream.cursorAt start) ≤ fuel ->
    call fuel (stream.cursorAt start) types =
      call (enoughFuel (stream.cursorAt start)) (stream.cursorAt start) types
  /-- The stream stays the same. -/
  sameStream : ∀ fuel,
    (call fuel (stream.cursorAt start) types).cursor.stream = stream
  /-- The cursor does not go back. -/
  forward : ∀ fuel,
    start ≤ (call fuel (stream.cursorAt start) types).cursor.position
  /-- The cursor does not pass the end of input, which stands behind the last
  token. -/
  inside : ∀ fuel,
    (call fuel (stream.cursorAt start) types).cursor.position ≤
      stream.tokens.length
  /-- A call that gives a value has passed at least one token. -/
  advances : ∀ fuel value there later,
    call fuel (stream.cursorAt start) types = .done value there later ->
    start < there.position

/-- The fuel that a cursor asks for is the fuel for the tokens that are left. -/
theorem enoughFuel_cursorAt
    (stream : TokenStream)
    (start : Nat) :
    enoughFuel (stream.cursorAt start) =
      Parser.enoughFuel (stream.tokens.drop start) := by
  rw [Parser.enoughFuel, List.length_drop]
  rfl

/-- A call makes headway if it simulates a parser of lists that reads a token and
for which the fuel computed from the tokens is enough. -/
theorem HeadwayAt.of_simulates
    {parser : Nat -> Parser Value}
    {call : Nat -> CursorParser Value}
    (simulates : ∀ {fuel more}, fuel ≤ more ->
      SimulatesAt stream start (parser fuel) (call fuel) (call more))
    (lasts : ∀ tokens types later,
      parser (Parser.enoughFuel tokens) tokens types ≠
        .stopped .outOfFuel later)
    (advances : ∀ fuel, Parser.Advances (parser fuel))
    (types : TypePool) :
    HeadwayAt stream start types call := by
  have settled : ∀ fuel, enoughFuel (stream.cursorAt start) ≤ fuel ->
      call fuel (stream.cursorAt start) types =
        call (enoughFuel (stream.cursorAt start)) (stream.cursorAt start)
          types := by
    intro fuel enough
    have tracks := simulates enough types
    rw [enoughFuel_cursorAt] at tracks ⊢
    exact tracks.eq_of_remains (lasts _ types)
  have tracks : ∀ fuel, CursorParsed.Tracks stream start
      (parser fuel (stream.tokens.drop start) types)
      (call fuel (stream.cursorAt start) types)
      (call fuel (stream.cursorAt start) types) :=
    fun fuel => simulates (Nat.le_refl fuel) types
  refine ⟨?_, settled, fun fuel => (tracks fuel).sameStream,
    fun fuel => (tracks fuel).forward, fun fuel => (tracks fuel).inside, ?_⟩
  · intro fuel there later enough exhausted
    have enoughTracks := tracks (enoughFuel (stream.cursorAt start))
    rw [← settled fuel enough, exhausted, enoughFuel_cursorAt] at enoughTracks
    exact lasts _ _ _ enoughTracks.of_stopped
  · intro fuel value there later read
    have readTracks := tracks fuel
    rw [read] at readTracks
    have shorter := advances fuel _ _ _ _ _ readTracks.of_done
    rw [List.length_drop, List.length_drop] at shorter
    omega

/-! ## Types -/

theorem headway_typeWith
    {stream : TokenStream}
    (fits : stream.tokens.length < Word.modulus)
    (reachable : start ≤ stream.tokens.length)
    (types : TypePool) :
    HeadwayAt stream start types typeWith := by
  refine .of_simulates
    (fun atMost => (simulates_types_and_atoms fits atMost).1 start reachable)
    (Parser.fuelled_typeWith stream.finish).lasts
    (Parser.advances_typeWith stream.finish) types

theorem headway_atomWith
    {stream : TokenStream}
    (fits : stream.tokens.length < Word.modulus)
    (reachable : start ≤ stream.tokens.length)
    (types : TypePool) :
    HeadwayAt stream start types atomWith := by
  refine .of_simulates
    (fun atMost => (simulates_types_and_atoms fits atMost).2 start reachable)
    ?_ (Parser.advances_atomWith stream.finish) types
  intro tokens types later exhausted
  cases (Parser.completes_types_and_atoms stream.finish _).2 _ _ _ _
    (Nat.le_succ _) exhausted

/-! ## Terms and programs -/

theorem headway_termWith
    {stream : TokenStream}
    (fits : stream.tokens.length < Word.modulus)
    (reachable : start ≤ stream.tokens.length)
    (scope : Scope)
    (types : TypePool) :
    HeadwayAt stream start types fun fuel => termWith fuel scope :=
  .of_simulates
    (fun atMost =>
      (simulates_terms_and_arguments fits atMost).1 scope start reachable)
    (Parser.fuelled_termWith stream scope).lasts
    (fun fuel => Parser.advances_termWith stream fuel scope) types

theorem headway_argumentsWith
    {stream : TokenStream}
    (fits : stream.tokens.length < Word.modulus)
    (reachable : start ≤ stream.tokens.length)
    (scope : Scope)
    (left : Token)
    (function : Term)
    (types : TypePool) :
    HeadwayAt stream start types
      fun fuel => argumentsWith fuel scope left function := by
  refine .of_simulates
    (fun atMost => (simulates_terms_and_arguments fits atMost).2 scope left
      function start reachable)
    ?_ ?_ types
  · intro tokens types later exhausted
    cases (Parser.completes_terms_and_arguments stream _).2 _ _ _ _ _ _ _
      (Nat.le_refl _) exhausted
  · rintro (_ | fuel)
    · intro tokens types term rest later read
      cases read
    · exact Parser.advances_argumentsWith
        ((Parser.predictive_terms_and_arguments stream fuel).2 [left] scope left)
        function

/-- To look for the end of input is to read nothing or to refuse a token. -/
theorem simulates_endOfInput
    {stream : TokenStream}
    (fits : stream.tokens.length < Word.modulus)
    (term : Term) :
    let ends := isAt .endOfInput >>= fun ended =>
      if ended then Pure.pure term else refuse [] .trailingInput
    Simulates stream (Parser.endOfInput >>= fun _ => Pure.pure term)
      ends ends := by
  intro ends start reachable
  rcases Cursor.atToken_or_atEnd fits reachable with ⟨found, atToken⟩ | atEnd
  · refine .isAt_bind atToken.not_isAt_end fun types => ?_
    have refused : (Parser.endOfInput >>= fun _ => Pure.pure term)
          (stream.tokens.drop start) types =
        Parser.refuse stream.finish [] .trailingInput
          (stream.tokens.drop start) types := by
      rw [atToken.left, Parser.bind_apply, Parser.endOfInput, Parser.refuse]
      by_cases isError : found.kind = .error
      · simp only [if_pos isError]
      · simp only [if_neg isError]
    rw [refused]
    exact SimulatesAt.refuse_atToken atToken types
  · refine .isAt_bind atEnd.isAt_end fun types => ?_
    have read := Simulates.pure term start reachable types
    rw [atEnd.left] at read ⊢
    exact read

theorem simulates_program
    {stream : TokenStream}
    (fits : stream.tokens.length < Word.modulus)
    (atMost : fuel ≤ more) :
    Simulates stream
      (Parser.termWith stream fuel [] >>= fun term =>
        Parser.endOfInput >>= fun _ => Pure.pure term)
      (programWith fuel) (programWith more) :=
  ((simulates_terms_and_arguments fits atMost).1 []).bind fun term =>
    simulates_endOfInput fits term

theorem headway_program
    {stream : TokenStream}
    (fits : stream.tokens.length < Word.modulus)
    (types : TypePool) :
    HeadwayAt stream 0 types programWith := by
  refine .of_simulates
    (fun atMost => simulates_program fits atMost 0 (Nat.zero_le _)) ?_ ?_ types
  · intro tokens types later exhausted
    change Parser.program stream tokens types = _ at exhausted
    cases Parser.program_completable exhausted
  · intro fuel tokens types term rest later read
    obtain ⟨term, between, _, termRead, afterTerm⟩ := Parser.of_bind_done read
    have shorter :=
      Parser.advances_termWith stream fuel [] _ _ _ _ _ termRead
    obtain ⟨_, _, _, endRead, afterEnd⟩ := Parser.of_bind_done afterTerm
    have predictive : Parser.Predictive stream.finish [] Parser.endOfInput :=
      .endOfInput
    have notLonger := predictive.length_le endRead
    cases afterEnd
    omega

end CursorParser

/-- Parsing through a cursor is parsing. -/
theorem Lexed.parseWith_eq_parse
    {lexed : Lexed}
    (fits : lexed.stream.tokens.length < Word.modulus)
    (enough : CursorParser.enoughFuel (.ofStream lexed.stream) ≤ fuel)
    (types : TypePool)
    (known : Diagnostics) :
    lexed.parseWith fuel types known = lexed.parse types known := by
  have tracks := CursorParser.simulates_program fits
    (Nat.le_refl (CursorParser.enoughFuel (.ofStream lexed.stream))) 0
    (Nat.zero_le _) types
  have settled : CursorParser.programWith fuel (.ofStream lexed.stream) types =
      CursorParser.programWith
        (CursorParser.enoughFuel (.ofStream lexed.stream))
        (lexed.stream.cursorAt 0) types :=
    (CursorParser.headway_program fits types).settled fuel enough
  change CursorParsed.Tracks lexed.stream 0
    (Parser.program lexed.stream lexed.stream.tokens types) _ _ at tracks
  unfold Lexed.parseWith Lexed.parse
  rw [settled]
  generalize Parser.program lexed.stream lexed.stream.tokens types = parsed
    at tracks ⊢
  generalize CursorParser.programWith _ (lexed.stream.cursorAt 0) types =
    outcome at tracks ⊢
  cases tracks <;> rfl

/-- Parsing terminates and stays in front of the end of input, for tokens of any
kinds whose positions are words.  With fuel that is not too small the parser
through a cursor is the parser; every call for a program, a term, further
arguments, a type or an atom, from wherever a cursor can stand, settles on one
result, passes at least one token before it gives a value and never passes the
end of input. -/
theorem Lexed.parse_makes_headway
    (lexed : Lexed)
    (fits : lexed.stream.tokens.length < Word.modulus) :
    (∀ fuel types known,
      CursorParser.enoughFuel (.ofStream lexed.stream) ≤ fuel ->
      lexed.parseWith fuel types known = lexed.parse types known) ∧
    (∀ types,
      CursorParser.HeadwayAt lexed.stream 0 types CursorParser.programWith) ∧
    ∀ start types, start ≤ lexed.stream.tokens.length ->
      (∀ scope, CursorParser.HeadwayAt lexed.stream start types
        fun fuel => CursorParser.termWith fuel scope) ∧
      (∀ scope left function,
        CursorParser.HeadwayAt lexed.stream start types
          fun fuel => CursorParser.argumentsWith fuel scope left function) ∧
      CursorParser.HeadwayAt lexed.stream start types CursorParser.typeWith ∧
      CursorParser.HeadwayAt lexed.stream start types CursorParser.atomWith := by
  refine ⟨fun fuel types known enough =>
    parseWith_eq_parse fits enough types known,
    CursorParser.headway_program fits, ?_⟩
  intro start types reachable
  exact ⟨fun scope => CursorParser.headway_termWith fits reachable scope types,
    fun scope left function =>
      CursorParser.headway_argumentsWith fits reachable scope left function
        types,
    CursorParser.headway_typeWith fits reachable types,
    CursorParser.headway_atomWith fits reachable types⟩

/-- In `(λx ?)` reading stops in front of the question mark, which is no token
of the language. -/
theorem Lexed.parse_makes_headway_error :
    let lexed := lex 0 "(λx ?)"
    lexed.stream.tokens.map Token.kind =
        [.leftParenthesis, .lambda, .identifier, .error, .rightParenthesis] ∧
      (∀ fuel, 12 ≤ fuel ->
        (CursorParser.programWith fuel (.ofStream lexed.stream)
          .empty).cursor.position = 3) ∧
      ∀ fuel, 12 ≤ fuel ->
        lexed.parseWith fuel .empty [] = lexed.parse .empty [] := by
  intro lexed
  obtain ⟨same, programs, _⟩ := parse_makes_headway lexed (by decide +kernel)
  have twelve : CursorParser.enoughFuel (.ofStream lexed.stream) = 12 := by
    decide +kernel
  rw [← twelve]
  refine ⟨by decide +kernel, ?_, fun fuel => same fuel .empty []⟩
  intro fuel enough
  have settled := (programs .empty).settled fuel enough
  change CursorParser.programWith fuel (.ofStream lexed.stream) .empty = _
    at settled
  rw [settled]
  decide +kernel

end LambdaCalculus
