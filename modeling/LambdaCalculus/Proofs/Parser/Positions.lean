import LambdaCalculus.Parser.Positioned
import LambdaCalculus.Proofs.Parser.Lookahead

/-!
# The cursor stays in front of the end

A parser that reads through a cursor does what the parser of lists does with the
tokens that are left behind the cursor.  So the cursor passes tokens only, and
never the end of input, although it could.  With more fuel it does the same,
unless it had run out of fuel.
-/

namespace LambdaCalculus

/-! ## What a cursor shows -/

/-- The cursor at a position of the stream. -/
def TokenStream.cursorAt
    (stream : TokenStream)
    (position : Nat) : Cursor :=
  ⟨stream, position⟩

/-- The cursor shows a token, which is the first one that is left. -/
structure Cursor.AtToken
    (stream : TokenStream)
    (position : Nat)
    (token : Token) : Prop where
  /-- The position is in front of the end. -/
  inside : position < stream.tokens.length
  /-- The token is left, and those behind it. -/
  left : stream.tokens.drop position =
    token :: stream.tokens.drop (position + 1)
  /-- The token is shown. -/
  shown : (stream.cursorAt position).peek 0 = .ofToken token

/-- The cursor shows the end of input, and no token is left. -/
structure Cursor.AtEnd
    (stream : TokenStream)
    (position : Nat) : Prop where
  /-- No token is left. -/
  left : stream.tokens.drop position = []
  /-- The end is shown. -/
  shown : (stream.cursorAt position).peek 0 = stream.finishEntry

theorem Cursor.AtToken.nextKind
    {stream : TokenStream}
    {found : Token}
    (atToken : AtToken stream start found) :
    (stream.tokens.drop start).head?.map Token.kind = some found.kind := by
  rw [atToken.left]
  rfl

theorem Cursor.AtToken.not_isAt_end
    {stream : TokenStream}
    {found : Token}
    (atToken : AtToken stream start found) :
    (stream.cursorAt start).isAt .endOfInput = false := by
  rw [isAt, atToken.shown]
  rfl

theorem Cursor.AtEnd.isAt_end
    {stream : TokenStream}
    (atEnd : AtEnd stream start) :
    (stream.cursorAt start).isAt .endOfInput = true := by
  rw [isAt, atEnd.shown]
  rfl

theorem Cursor.AtEnd.nextKind
    {stream : TokenStream}
    (atEnd : AtEnd stream start) :
    (stream.tokens.drop start).head?.map Token.kind = none := by
  rw [atEnd.left]
  rfl

/-- Up to the end the cursor shows what is left, if positions fit in a word. -/
theorem Cursor.atToken_or_atEnd
    {stream : TokenStream}
    {position : Nat}
    (fits : stream.tokens.length < Word.modulus)
    (reachable : position ≤ stream.tokens.length) :
    (∃ token, AtToken stream position token) ∨ AtEnd stream position := by
  have isPosition : Word.ofNat (position + 0) = position :=
    Word.ofNat_of_lt (Nat.lt_of_le_of_lt reachable fits)
  have shown : (stream.cursorAt position).peek 0 =
      (stream.cursorAt position).entryAt position :=
    congrArg (stream.cursorAt position).entryAt isPosition
  rcases Nat.lt_or_eq_of_le reachable with inside | rfl
  · refine Or.inl ⟨stream.tokens[position], inside,
      List.drop_eq_getElem_cons inside, ?_⟩
    rw [shown, entryAt]
    simp only [TokenStream.cursorAt, List.getElem?_eq_getElem inside]
  · refine Or.inr ⟨List.drop_length, ?_⟩
    rw [shown, entryAt]
    simp only [TokenStream.cursorAt, List.getElem?_length]

/-! ## Simulation -/

/-- The first result at a cursor is the result of a parser of lists: the cursor
stands in front of the rest, has not gone back and has not passed the end.  The
second one, which came about with more fuel, is the same unless the fuel has run
out before. -/
inductive CursorParsed.Tracks
    (stream : TokenStream)
    (start : Nat) :
    Parsed Value -> CursorParsed Value -> CursorParsed Value -> Prop
  | done
      (value : Value)
      (types : TypePool)
      (forward : start ≤ position)
      (reachable : position ≤ stream.tokens.length) :
      Tracks stream start (.done value (stream.tokens.drop position) types)
        (.done value (stream.cursorAt position) types)
        (.done value (stream.cursorAt position) types)
  | stopped
      (reason : Stop)
      (types : TypePool)
      (forward : start ≤ position)
      (reachable : position ≤ stream.tokens.length) :
      Tracks stream start (.stopped reason types)
        (.stopped reason (stream.cursorAt position) types)
        (.stopped reason (stream.cursorAt position) types)
  | outOfFuel
      (types : TypePool)
      (richer : CursorParsed Value)
      (forward : start ≤ position)
      (reachable : position ≤ stream.tokens.length) :
      Tracks stream start (.stopped .outOfFuel types)
        (.stopped .outOfFuel (stream.cursorAt position) types) richer

theorem CursorParsed.Tracks.weaken
    {stream : TokenStream}
    {parsed : Parsed Value}
    {poorer richer : CursorParsed Value}
    (tracks : Tracks stream later parsed poorer richer)
    (forward : start ≤ later) :
    Tracks stream start parsed poorer richer := by
  cases tracks with
  | done value types further reachable =>
      exact .done value types (Nat.le_trans forward further) reachable
  | stopped reason types further reachable =>
      exact .stopped reason types (Nat.le_trans forward further) reachable
  | outOfFuel types richer further reachable =>
      exact .outOfFuel types richer (Nat.le_trans forward further) reachable

namespace CursorParser

/-- From this position on the poorer cursor parser does what the parser of lists
does with the tokens that are left, and so does the richer one unless the fuel
has run out. -/
def SimulatesAt
    (stream : TokenStream)
    (start : Nat)
    (parser : Parser Value)
    (poorer richer : CursorParser Value) : Prop :=
  ∀ types, CursorParsed.Tracks stream start
    (parser (stream.tokens.drop start) types)
    (poorer (stream.cursorAt start) types)
    (richer (stream.cursorAt start) types)

/-- The cursor parsers do what the parser of lists does, from every position up
to the end. -/
def Simulates
    (stream : TokenStream)
    (parser : Parser Value)
    (poorer richer : CursorParser Value) : Prop :=
  ∀ start, start ≤ stream.tokens.length ->
    SimulatesAt stream start parser poorer richer

section Rules

variable {stream : TokenStream} {start : Nat}

theorem SimulatesAt.bind
    {parser : Parser Value}
    {poorer richer : CursorParser Value}
    {next : Value -> Parser Other}
    {poorerNext richerNext : Value -> CursorParser Other}
    (simulates : SimulatesAt stream start parser poorer richer)
    (nextSimulates : ∀ value,
      Simulates stream (next value) (poorerNext value) (richerNext value)) :
    SimulatesAt stream start (parser >>= next) (poorer >>= poorerNext)
      (richer >>= richerNext) := by
  intro types
  have tracks := simulates types
  rw [Parser.bind_apply]
  change CursorParsed.Tracks stream start _ (andThen poorer poorerNext _ types)
    (andThen richer richerNext _ types)
  unfold andThen
  revert tracks
  generalize parser (stream.tokens.drop start) types = parsed
  generalize poorer (stream.cursorAt start) types = poorerOutcome
  generalize richer (stream.cursorAt start) types = richerOutcome
  intro tracks
  cases tracks with
  | outOfFuel later _ forward reachable =>
      exact .outOfFuel later _ forward reachable
  | stopped reason later forward reachable =>
      exact .stopped reason later forward reachable
  | @done position value later forward reachable =>
      exact (nextSimulates value position reachable later).weaken forward

theorem Simulates.bind
    {parser : Parser Value}
    {poorer richer : CursorParser Value}
    {next : Value -> Parser Other}
    {poorerNext richerNext : Value -> CursorParser Other}
    (simulates : Simulates stream parser poorer richer)
    (nextSimulates : ∀ value,
      Simulates stream (next value) (poorerNext value) (richerNext value)) :
    Simulates stream (parser >>= next) (poorer >>= poorerNext)
      (richer >>= richerNext) :=
  fun start reachable => (simulates start reachable).bind nextSimulates

theorem Simulates.outOfFuel
    (richer : CursorParser Value) :
    Simulates stream (Parser.stop .outOfFuel) (CursorParser.stop .outOfFuel)
      richer :=
  fun _ reachable types => .outOfFuel types _ (Nat.le_refl _) reachable

theorem Simulates.pure
    (value : Value) :
    Simulates stream (Pure.pure value) (Pure.pure value) (Pure.pure value) :=
  fun _ reachable types => .done value types (Nat.le_refl _) reachable

theorem Simulates.stop
    {Value : Type}
    (reason : Stop) :
    Simulates stream (Parser.stop reason : Parser Value)
      (CursorParser.stop reason) (CursorParser.stop reason) :=
  fun _ reachable types => .stopped reason types (Nat.le_refl _) reachable

theorem Simulates.intern
    (former : TypeFormer) :
    Simulates stream (Parser.intern former) (CursorParser.intern former)
      (CursorParser.intern former) :=
  fun _ reachable _ => .done _ _ (Nat.le_refl _) reachable

/-! ## Looking at an entry -/

theorem SimulatesAt.peek_bind
    {parser : Parser Value}
    {poorerNext richerNext : TokenStream.Entry -> CursorParser Value}
    (shown : (stream.cursorAt start).peek 0 = entry)
    (simulates : SimulatesAt stream start parser (poorerNext entry)
      (richerNext entry)) :
    SimulatesAt stream start parser (peek >>= poorerNext)
      (peek >>= richerNext) := by
  subst shown
  exact simulates

theorem SimulatesAt.isAt_bind
    {symbol : Token.Symbol}
    {parser : Parser Value}
    {poorerNext richerNext : Bool -> CursorParser Value}
    (known : (stream.cursorAt start).isAt symbol = answer)
    (simulates : SimulatesAt stream start parser (poorerNext answer)
      (richerNext answer)) :
    SimulatesAt stream start parser (isAt symbol >>= poorerNext)
      (isAt symbol >>= richerNext) := by
  subst known
  exact simulates

theorem SimulatesAt.nextKind_bind
    {next : Option Token.Kind -> Parser Value}
    {poorer richer : CursorParser Value}
    (known : (stream.tokens.drop start).head?.map Token.kind = kind)
    (simulates : SimulatesAt stream start (next kind) poorer richer) :
    SimulatesAt stream start (Parser.nextKind >>= next) poorer richer := by
  subst known
  exact simulates

/-! ## Refusing an entry -/

theorem SimulatesAt.refuse_atToken
    {Value : Type}
    {error : Token -> ParseError}
    {found : Token}
    (atToken : Cursor.AtToken stream start found) :
    SimulatesAt stream start
      (Parser.refuse stream.finish expected error : Parser Value)
      (refuse expected error) (refuse expected error) := by
  have reachable := Nat.le_of_lt atToken.inside
  refine .peek_bind atToken.shown fun types => ?_
  rw [atToken.left, Parser.refuse]
  obtain ⟨kind, span, lexeme⟩ := found
  cases kind <;> exact .stopped _ types (Nat.le_refl _) reachable

theorem SimulatesAt.refuse_atEnd
    {Value : Type}
    {error : Token -> ParseError}
    (reachable : start ≤ stream.tokens.length)
    (atEnd : Cursor.AtEnd stream start) :
    SimulatesAt stream start
      (Parser.refuse stream.finish expected error : Parser Value)
      (refuse expected error) (refuse expected error) := by
  refine .peek_bind atEnd.shown fun types => ?_
  rw [atEnd.left]
  exact .stopped _ types (Nat.le_refl _) reachable

/-- The parser of lists may look for a token and go on; it is refused all the
same. -/
theorem SimulatesAt.token_bind_refuse
    {error : Token -> ParseError}
    {next : Token -> Parser Value}
    (isOther : (stream.tokens.drop start).head?.map Token.kind ≠ some kind)
    (refused : SimulatesAt stream start
      (Parser.refuse stream.finish expected error : Parser Value)
      (refuse expected error) (refuse expected error)) :
    SimulatesAt stream start
      (Parser.token stream.finish kind expected error >>= next)
      (refuse expected error) (refuse expected error) := by
  intro types
  have same :=
    calc (Parser.token stream.finish kind expected error >>= next)
          (stream.tokens.drop start) types
      _ = (Parser.refuse stream.finish expected error >>= next)
          (stream.tokens.drop start) types := by
        simp only [Parser.bind_apply, Parser.token_of_other types isOther]
      _ = Parser.refuse stream.finish expected error
          (stream.tokens.drop start) types := Parser.refuse_bind _ types
  rw [same]
  exact refused types

theorem SimulatesAt.token_refuse_atToken
    {error : Token -> ParseError}
    {next : Token -> Parser Value}
    {found : Token}
    (atToken : Cursor.AtToken stream start found)
    (isOther : found.kind ≠ kind) :
    SimulatesAt stream start
      (Parser.token stream.finish kind expected error >>= next)
      (CursorParser.refuse expected error)
      (CursorParser.refuse expected error) := by
  refine .token_bind_refuse ?_ (.refuse_atToken atToken)
  rw [atToken.nextKind]
  exact fun isKind => isOther (Option.some.inj isKind)

theorem SimulatesAt.token_refuse_atEnd
    {error : Token -> ParseError}
    {next : Token -> Parser Value}
    (reachable : start ≤ stream.tokens.length)
    (atEnd : Cursor.AtEnd stream start) :
    SimulatesAt stream start
      (Parser.token stream.finish kind expected error >>= next)
      (CursorParser.refuse expected error)
      (CursorParser.refuse expected error) := by
  refine .token_bind_refuse ?_ (.refuse_atEnd reachable atEnd)
  rw [atEnd.nextKind]
  exact (Option.some_ne_none kind).symm

/-! ## Passing a token -/

theorem advance_atToken
    {found : Token}
    (atToken : Cursor.AtToken stream start found) :
    (stream.cursorAt start).advance = stream.cursorAt (start + 1) := by
  have inside : start < stream.entries.length := by
    have isInside := atToken.inside
    rw [TokenStream.entries, List.length_append, List.length_map]
    exact Nat.lt_add_right _ isInside
  exact if_pos inside

/-- Where both parsers have passed a token they go on behind it. -/
theorem SimulatesAt.of_passed
    {found : Token}
    {parser behind : Parser Value}
    {poorer poorerBehind richer richerBehind : CursorParser Value}
    (atToken : Cursor.AtToken stream start found)
    (passes : ∀ rest types, parser (found :: rest) types = behind rest types)
    (poorerPasses : ∀ types,
      poorer (stream.cursorAt start) types =
        poorerBehind (stream.cursorAt (start + 1)) types)
    (richerPasses : ∀ types,
      richer (stream.cursorAt start) types =
        richerBehind (stream.cursorAt (start + 1)) types)
    (simulates : Simulates stream behind poorerBehind richerBehind) :
    SimulatesAt stream start parser poorer richer := by
  intro types
  rw [atToken.left, passes, poorerPasses, richerPasses]
  exact (simulates (start + 1) atToken.inside types).weaken (Nat.le_succ start)

theorem bump_bind
    {found : Token}
    (next : TokenStream.Entry -> CursorParser Value)
    (atToken : Cursor.AtToken stream start found)
    (types : TypePool) :
    (bump >>= next) (stream.cursorAt start) types =
      next (.ofToken found) (stream.cursorAt (start + 1)) types := by
  rw [← advance_atToken atToken, ← atToken.shown]
  rfl

theorem SimulatesAt.token_bump
    {found : Token}
    {next : Token -> Parser Value}
    {poorerNext richerNext : TokenStream.Entry -> CursorParser Value}
    (atToken : Cursor.AtToken stream start found)
    (isKind : found.kind = kind)
    (simulates : Simulates stream (next found) (poorerNext (.ofToken found))
      (richerNext (.ofToken found))) :
    SimulatesAt stream start
      (Parser.token stream.finish kind expected error >>= next)
      (bump >>= poorerNext) (bump >>= richerNext) := by
  refine .of_passed atToken ?_ (bump_bind poorerNext atToken)
    (bump_bind richerNext atToken) simulates
  intro rest types
  rw [Parser.bind_apply, Parser.token_of_kind _ _ _ _ _ isKind]

theorem SimulatesAt.accept_bump
    {found : Token}
    {next : Bool -> Parser Value}
    {poorerNext richerNext : TokenStream.Entry -> CursorParser Value}
    (atToken : Cursor.AtToken stream start found)
    (isKind : found.kind = kind)
    (simulates : Simulates stream (next true) (poorerNext (.ofToken found))
      (richerNext (.ofToken found))) :
    SimulatesAt stream start (Parser.accept kind >>= next)
      (bump >>= poorerNext) (bump >>= richerNext) := by
  refine .of_passed atToken ?_ (bump_bind poorerNext atToken)
    (bump_bind richerNext atToken) simulates
  intro rest types
  rw [Parser.bind_apply, Parser.accept_of_kind _ _ isKind]

theorem isAt_token_iff
    (fits : stream.tokens.length < Word.modulus)
    (reachable : start ≤ stream.tokens.length)
    (kind : Token.Kind) :
    (stream.cursorAt start).isAt (.token kind) = true ↔
      (stream.tokens.drop start).head?.map Token.kind = some kind := by
  rcases Cursor.atToken_or_atEnd fits reachable with ⟨found, atToken⟩ | atEnd
  · rw [Cursor.isAt, atToken.shown, atToken.left]
    simp [TokenStream.Entry.ofToken]
  · rw [Cursor.isAt, atEnd.shown, atEnd.left]
    simp [TokenStream.finishEntry]

theorem Simulates.eat
    (fits : stream.tokens.length < Word.modulus)
    (kind : Token.Kind) :
    Simulates stream (Parser.accept kind) (eat (.token kind))
      (eat (.token kind)) := by
  intro start reachable types
  have isNext := isAt_token_iff fits reachable kind
  unfold CursorParser.eat Cursor.eat
  cases answer : (stream.cursorAt start).isAt (.token kind) with
  | true =>
      replace isNext := isNext.mp answer
      rcases Cursor.atToken_or_atEnd fits reachable with
        ⟨found, atToken⟩ | atEnd
      · rw [atToken.left] at isNext ⊢
        rw [Parser.accept_of_kind _ _ (Option.some.inj isNext), if_pos rfl,
          advance_atToken atToken]
        exact .done true types (Nat.le_succ start) atToken.inside
      · rw [atEnd.left] at isNext
        cases isNext
  | false =>
      rw [answer] at isNext
      rw [Parser.accept_of_other types fun isKind =>
        Bool.false_ne_true (isNext.mpr isKind)]
      exact .done false types (Nat.le_refl _) reachable

theorem Simulates.refuse
    {Value : Type}
    (fits : stream.tokens.length < Word.modulus)
    (expected : Text)
    (error : Token -> ParseError) :
    Simulates stream
      (Parser.refuse stream.finish expected error : Parser Value)
      (CursorParser.refuse expected error)
      (CursorParser.refuse expected error) := by
  intro start reachable
  rcases Cursor.atToken_or_atEnd fits reachable with ⟨found, atToken⟩ | atEnd
  · exact .refuse_atToken atToken
  · exact .refuse_atEnd reachable atEnd

/-- To look for a token is to accept it or to refuse what stands there. -/
theorem token_eq_accept_bind
    {tokens : List Token}
    {found : Token}
    (finish : Span)
    (kind : Token.Kind)
    (expected : Text)
    (error : Token -> ParseError)
    (isNext : tokens ≠ [] -> tokens.head? = some found)
    (types : TypePool) :
    Parser.token finish kind expected error tokens types =
      (Parser.accept kind >>= fun accepted =>
        if accepted then Pure.pure found
        else Parser.refuse finish expected error) tokens types := by
  cases tokens with
  | nil => rfl
  | cons first rest =>
      obtain rfl := Option.some.inj (isNext (List.cons_ne_nil _ _))
      rw [Parser.bind_apply, Parser.token, Parser.accept]
      split <;> rfl

theorem Simulates.token
    (fits : stream.tokens.length < Word.modulus)
    (kind : Token.Kind)
    (expected : Text)
    (error : Token -> ParseError) :
    Simulates stream (Parser.token stream.finish kind expected error)
      (CursorParser.token kind expected error)
      (CursorParser.token kind expected error) := by
  intro start reachable
  have simulates : ∀ entry : TokenStream.Entry,
      let eats := CursorParser.eat (.token kind) >>= fun eaten =>
        if eaten then Pure.pure entry.token
        else CursorParser.refuse expected error
      SimulatesAt stream start
        (Parser.accept kind >>= fun accepted =>
          if accepted then Pure.pure entry.token
          else Parser.refuse stream.finish expected error) eats eats := by
    intro entry
    refine (Simulates.eat fits kind start reachable).bind fun accepted => ?_
    cases accepted with
    | true => exact .pure entry.token
    | false => exact .refuse fits expected error
  rcases Cursor.atToken_or_atEnd fits reachable with ⟨found, atToken⟩ | atEnd
  · refine .peek_bind atToken.shown fun types => ?_
    rw [token_eq_accept_bind stream.finish kind expected error
      (fun _ => by rw [atToken.left]; rfl) types]
    exact simulates (.ofToken found) types
  · refine .peek_bind atEnd.shown fun types => ?_
    rw [token_eq_accept_bind stream.finish kind expected error
      (fun left => (left atEnd.left).elim) types]
    exact simulates stream.finishEntry types

theorem Simulates.expect
    (fits : stream.tokens.length < Word.modulus)
    (kind : Token.Kind)
    (expected : Text) :
    Simulates stream (Parser.expect stream.finish kind expected)
      (CursorParser.expect kind expected) (CursorParser.expect kind expected) :=
  .token fits kind expected (.expectedToken expected)

theorem Simulates.variableOf
    (scope : Scope)
    (name : Token) :
    Simulates stream (Parser.variableOf scope name)
      (CursorParser.variableOf scope name)
      (CursorParser.variableOf scope name) := by
  unfold Parser.variableOf CursorParser.variableOf
  cases scope.index? name.lexeme with
  | some index => exact .pure _
  | none => exact .stop _

theorem Simulates.requireArgument
    (fits : stream.tokens.length < Word.modulus)
    (left : Token)
    (function : Term) :
    Simulates stream (Parser.requireArgument stream.source left function)
      (CursorParser.requireArgument left function)
      (CursorParser.requireArgument left function) := by
  intro start reachable types
  have isNext := isAt_token_iff fits reachable .rightParenthesis
  unfold CursorParser.requireArgument
  rcases Cursor.atToken_or_atEnd fits reachable with ⟨found, atToken⟩ | atEnd
  · rw [atToken.left, Parser.requireArgument]
    rw [atToken.left] at isNext
    by_cases isRight : found.kind = .rightParenthesis
    · rw [if_pos isRight, if_pos (isNext.mpr (congrArg some isRight)),
        atToken.shown]
      exact .stopped _ types (Nat.le_refl _) reachable
    · rw [if_neg isRight, if_neg fun isAt =>
        isRight (Option.some.inj (isNext.mp isAt)), ← atToken.left]
      exact .done () types (Nat.le_refl _) reachable
  · have notRight : ¬ (stream.cursorAt start).isAt
        (.token .rightParenthesis) = true := by
      rw [isNext, atEnd.left]
      intro isSome
      cases isSome
    rw [if_neg notRight, atEnd.left, Parser.requireArgument, ← atEnd.left]
    exact .done () types (Nat.le_refl _) reachable

end Rules

/-! ## Types -/

theorem simulates_types_and_atoms
    {stream : TokenStream}
    (fits : stream.tokens.length < Word.modulus)
    (atMost : fuel ≤ more) :
    Simulates stream (Parser.typeWith stream.finish fuel) (typeWith fuel)
        (typeWith more) ∧
      Simulates stream (Parser.atomWith stream.finish fuel) (atomWith fuel)
        (atomWith more) := by
  induction fuel generalizing more with
  | zero => exact ⟨.outOfFuel _, .outOfFuel _⟩
  | succ fuel inductionHypothesis =>
      obtain ⟨more, rfl⟩ := Nat.exists_eq_add_of_le' atMost
      obtain ⟨typeSimulates, atomSimulates⟩ :=
        inductionHypothesis (Nat.le_add_left fuel more)
      rw [← Nat.add_assoc]
      constructor
      · rw [Parser.typeWith, typeWith, typeWith]
        refine atomSimulates.bind fun parameter => ?_
        refine (Simulates.eat fits .arrow).bind fun arrow => ?_
        split
        next => exact typeSimulates.bind fun result => .intern _
        next => exact .pure parameter
      · intro start reachable
        rw [Parser.atomWith, atomWith, atomWith]
        rcases Cursor.atToken_or_atEnd fits reachable with
          ⟨found, atToken⟩ | atEnd
        · have isNext := atToken.nextKind
          refine .peek_bind atToken.shown (.nextKind_bind isNext ?_)
          obtain ⟨kind, span, lexeme⟩ := found
          cases kind with
          | identifier => exact .token_bump atToken rfl (.intern _)
          | leftParenthesis =>
              refine .accept_bump atToken rfl ?_
              refine typeSimulates.bind fun inner => ?_
              exact (Simulates.expect fits _ _).bind fun _ => .pure inner
          | _ =>
              refine .token_refuse_atToken atToken ?_
              intro isKind
              cases isKind
        · have noNext := atEnd.nextKind
          refine .peek_bind atEnd.shown (.nextKind_bind noNext ?_)
          exact .token_refuse_atEnd reachable atEnd

theorem simulates_declaration
    {stream : TokenStream}
    (fits : stream.tokens.length < Word.modulus) :
    Simulates stream (Parser.declaration stream.finish) declaration
      declaration := by
  have typeSimulates :
      Simulates stream (Parser.type stream.finish) type type := by
    intro start reachable types
    have sameFuel : Parser.enoughFuel (stream.tokens.drop start) =
        enoughFuel (stream.cursorAt start) := by
      rw [Parser.enoughFuel, List.length_drop]
      rfl
    rw [Parser.type, sameFuel]
    exact (simulates_types_and_atoms fits (Nat.le_refl _)).1 start reachable
      types
  unfold Parser.declaration declaration
  refine (Simulates.eat fits .colon).bind fun colon => ?_
  split
  next =>
      refine typeSimulates.bind fun declared => ?_
      exact (Simulates.expect fits _ _).bind fun _ => .pure _
  next => exact (Simulates.eat fits .dot).bind fun _ => .pure _

/-! ## Terms -/

/-- One more level of terms is simulated if the levels below are. -/
theorem simulates_termWith_succ
    {stream : TokenStream}
    (fits : stream.tokens.length < Word.modulus)
    (termSimulates : ∀ scope, Simulates stream
      (Parser.termWith stream fuel scope) (termWith fuel scope)
      (termWith more scope))
    (argumentsSimulate : ∀ scope left function, Simulates stream
      (Parser.argumentsWith stream fuel scope left function)
      (argumentsWith fuel scope left function)
      (argumentsWith more scope left function))
    (scope : Scope) :
    Simulates stream (Parser.termWith stream (fuel + 1) scope)
      (termWith (fuel + 1) scope) (termWith (more + 1) scope) := by
  intro start reachable
  rw [Parser.termWith, termWith, termWith]
  rcases Cursor.atToken_or_atEnd fits reachable with
    ⟨found, atToken⟩ | atEnd
  · have isNext := atToken.nextKind
    refine .peek_bind atToken.shown (.nextKind_bind isNext ?_)
    obtain ⟨kind, span, lexeme⟩ := found
    cases kind with
    | identifier => exact .token_bump atToken rfl (.variableOf scope _)
    | leftParenthesis =>
        refine .token_bump atToken rfl ?_
        refine (Simulates.eat fits .lambda).bind fun lambda => ?_
        split
        next =>
            refine (Simulates.token fits _ _ _).bind fun name => ?_
            refine (simulates_declaration fits).bind fun declared => ?_
            refine (termSimulates _).bind fun body => ?_
            exact (Simulates.expect fits _ _).bind fun right => .pure _
        next =>
            refine (termSimulates scope).bind fun function => ?_
            refine (Simulates.requireArgument fits _ function).bind
              fun _ => ?_
            exact argumentsSimulate scope _ function
    | _ =>
        refine .token_refuse_atToken atToken ?_
        intro isKind
        cases isKind
  · have noNext := atEnd.nextKind
    refine .peek_bind atEnd.shown (.nextKind_bind noNext ?_)
    exact .token_refuse_atEnd reachable atEnd

/-- One more level of arguments is simulated if the levels below are.  At the end of
input, where one parser refuses the end, the other expects a parenthesis. -/
theorem simulates_argumentsWith_succ
    {stream : TokenStream}
    (fits : stream.tokens.length < Word.modulus)
    (termSimulates : ∀ scope, Simulates stream
      (Parser.termWith stream fuel scope) (termWith fuel scope)
      (termWith more scope))
    (argumentsSimulate : ∀ scope left function, Simulates stream
      (Parser.argumentsWith stream fuel scope left function)
      (argumentsWith fuel scope left function)
      (argumentsWith more scope left function))
    (scope : Scope)
    (left : Token)
    (function : Term) :
    Simulates stream
      (Parser.argumentsWith stream (fuel + 1) scope left function)
      (argumentsWith (fuel + 1) scope left function)
      (argumentsWith (more + 1) scope left function) := by
  intro start reachable
  rw [Parser.argumentsWith, argumentsWith, argumentsWith]
  have closes : ∀ next : Token -> Term,
      let closing := CursorParser.expect .rightParenthesis "')'" >>=
        fun right => Pure.pure (next right)
      Simulates stream
        (Parser.expect stream.finish .rightParenthesis "')'" >>=
          fun right => Pure.pure (next right)) closing closing :=
    fun next => (Simulates.expect fits _ _).bind fun right => .pure _
  rcases Cursor.atToken_or_atEnd fits reachable with
    ⟨found, atToken⟩ | atEnd
  · have notEnd := atToken.not_isAt_end
    by_cases isRight : found.kind = .rightParenthesis
    · have isNext := atToken.nextKind
      rw [isRight] at isNext
      refine .nextKind_bind isNext (.isAt_bind
        ((isAt_token_iff fits reachable _).mpr isNext)
        (.isAt_bind notEnd ?_))
      exact closes _ start reachable
    · have notRight := isAt_token_iff fits reachable .rightParenthesis
      rw [atToken.nextKind, Option.some.injEq, iff_false_right isRight,
        Bool.not_eq_true] at notRight
      refine .nextKind_bind atToken.nextKind
        (.isAt_bind notRight (.isAt_bind notEnd ?_))
      have further : Simulates stream
          (Parser.termWith stream fuel scope >>= fun argument =>
            Parser.argumentsWith stream fuel scope left
              (.app (left.span.join argument.span) function argument))
          (termWith fuel scope >>= fun argument =>
            argumentsWith fuel scope left
              (.app (left.span.join argument.span) function argument))
          (termWith more scope >>= fun argument =>
            argumentsWith more scope left
              (.app (left.span.join argument.span) function argument)) :=
        (termSimulates scope).bind fun argument =>
          argumentsSimulate scope left _
      split
      next isNone => cases isNone
      next isSome => exact (isRight (Option.some.inj isSome)).elim
      next => exact further start reachable
  · have isEnd := atEnd.isAt_end
    have notRight := isAt_token_iff fits reachable .rightParenthesis
    rw [atEnd.nextKind, iff_false_right (Option.some_ne_none _).symm,
      Bool.not_eq_true] at notRight
    refine .nextKind_bind atEnd.nextKind
      (.isAt_bind notRight (.isAt_bind isEnd fun types => ?_))
    have closed := closes
      (fun right => function.withSpan (left.span.join right.span)) start
      reachable types
    rw [atEnd.left] at closed ⊢
    exact closed

theorem simulates_terms_and_arguments
    {stream : TokenStream}
    (fits : stream.tokens.length < Word.modulus)
    (atMost : fuel ≤ more) :
    (∀ scope, Simulates stream (Parser.termWith stream fuel scope)
        (termWith fuel scope) (termWith more scope)) ∧
      ∀ scope left function,
        Simulates stream (Parser.argumentsWith stream fuel scope left function)
          (argumentsWith fuel scope left function)
          (argumentsWith more scope left function) := by
  induction fuel generalizing more with
  | zero => exact ⟨fun _ => .outOfFuel _, fun _ _ _ => .outOfFuel _⟩
  | succ fuel inductionHypothesis =>
      obtain ⟨more, rfl⟩ := Nat.exists_eq_add_of_le' atMost
      obtain ⟨termSimulates, argumentsSimulate⟩ :=
        inductionHypothesis (Nat.le_add_left fuel more)
      exact ⟨simulates_termWith_succ fits termSimulates argumentsSimulate,
        simulates_argumentsWith_succ fits termSimulates argumentsSimulate⟩

end CursorParser
end LambdaCalculus
