import LambdaCalculus.Proofs.Parser.Fuel

/-!
# Parsers look one token ahead

What a parser does depends on the tokens that it reads and on the one behind
them.  Where it stops, the tokens in front of the offending one are blameless:
alone they are read or end too early, and together with the offending token they
are refused whatever follows.  The property passes from the parts of a parser to
the whole, and a bound on the recursion can be taken away from it.
-/

namespace LambdaCalculus

/-- The error is about the first token that is left, or about the end of input
when none is.  Its span may start at a token that has been passed. -/
def ParseError.At
    (finish : Span)
    (passed : List Token)
    (error : ParseError) : List Token -> Prop
  | [] => ∃ expected, error = .unexpectedEnd finish expected
  | token :: _ =>
      error.code ≠ .unexpectedEnd ∧
        (error.span = token.span ∨
          ∃ left ∈ passed, error.span = left.span.join token.span)

theorem ParseError.At.of_found?
    {error : ParseError}
    (isFound : error.found? = some token) :
    error.At finish passed (token :: rest) :=
  ⟨(ParseError.of_found? isFound).1, Or.inl (ParseError.of_found? isFound).2⟩

/-- The stop is at the first token that is left. -/
inductive Stop.At
    (finish : Span)
    (passed rest : List Token) : Stop -> Prop
  | lexical
      {token : Token}
      (isNext : rest.head? = some token)
      (isError : token.kind = .error) :
      Stop.At finish passed rest .lexical
  | fault
      (isAt : error.At finish passed rest) :
      Stop.At finish passed rest (.fault error)
  | outOfFuel : Stop.At finish passed rest .outOfFuel

theorem Stop.At.mono
    {passed more : List Token}
    (isAt : Stop.At finish passed rest reason)
    (kept : passed ⊆ more) :
    Stop.At finish more rest reason := by
  cases isAt with
  | lexical isNext isError => exact lexical isNext isError
  | outOfFuel => exact outOfFuel
  | fault isAt =>
      apply fault
      cases rest with
      | nil => exact isAt
      | cons token rest =>
          obtain ⟨notEnd, here | ⟨left, member, joined⟩⟩ := isAt
          · exact ⟨notEnd, Or.inl here⟩
          · exact ⟨notEnd, Or.inr ⟨left, kept member, joined⟩⟩

namespace Parser

/-- Every token has been read, or more of them are expected. -/
inductive EndsOpen (finish : Span) : Parsed Value -> Prop
  | done (value : Value) (later : TypePool) :
      EndsOpen finish (.done value [] later)
  | unexpectedEnd (expected : Text) (later : TypePool) :
      EndsOpen finish (.stopped (.fault (.unexpectedEnd finish expected)) later)
  | outOfFuel (later : TypePool) :
      EndsOpen finish (.stopped .outOfFuel later)

/-- The tokens look like the rest from in front, or there are none. -/
def Follows (other rest : List Token) : Prop :=
  other = [] ∨ other.head? = rest.head?

theorem Follows.refl
    (rest : List Token) :
    Follows rest rest :=
  Or.inr rfl

theorem Follows.nil
    (rest : List Token) :
    Follows [] rest :=
  Or.inl rfl

theorem Follows.head?_kind_ne
    {other tokens : List Token}
    (follows : Follows other tokens)
    (isOther : tokens.head?.map Token.kind ≠ some kind) :
    other.head?.map Token.kind ≠ some kind := by
  rcases follows with rfl | same
  · simp
  · rwa [same]

/-- How a parser reads the tokens, and how it reads others that are the same up
to the next one. -/
inductive LooksAhead
    (finish : Span)
    (passed : List Token)
    (parser : Parser Value)
    (tokens : List Token)
    (types : TypePool) : Prop
  | done
      (value : Value)
      (consumed rest : List Token)
      (later : TypePool)
      (split : tokens = consumed ++ rest)
      (reads : ∀ other, Follows other rest ->
        parser (consumed ++ other) types = .done value other later)
  | stopped
      (reason : Stop)
      (consumed rest : List Token)
      (later : TypePool)
      (split : tokens = consumed ++ rest)
      (isAt : reason.At finish (passed ++ consumed) rest)
      (stops : ∀ other, other.head? = rest.head? ->
        parser (consumed ++ other) types = .stopped reason later)
      (endsOpen : EndsOpen finish (parser consumed types))

/-- The parser looks no further than one token ahead. -/
def Predictive
    (finish : Span)
    (passed : List Token)
    (parser : Parser Value) : Prop :=
  ∀ tokens types, LooksAhead finish passed parser tokens types

/-- The parser reads at least one token. -/
def Advances (parser : Parser Value) : Prop :=
  ∀ tokens types value rest later,
    parser tokens types = .done value rest later ->
    rest.length < tokens.length

/-! ## Refused tokens -/

theorem token_of_other
    (types : TypePool)
    (isOther : tokens.head?.map Token.kind ≠ some kind) :
    token finish kind expected error tokens types =
      refuse finish expected error tokens types := by
  cases tokens with
  | nil => rfl
  | cons found rest =>
      have different : found.kind ≠ kind := by simpa using isOther
      simp [token, different]

theorem refuse_bind
    {next : Value -> Parser Other}
    (tokens : List Token)
    (types : TypePool) :
    (refuse finish expected error >>= next) tokens types =
      refuse finish expected error tokens types := by
  rw [bind_apply]
  cases tokens with
  | nil => rfl
  | cons found rest =>
      by_cases isError : found.kind = .error
      · simp [refuse, isError]
      · simp [refuse, isError]

/-- A parser that stops at the next token before it has read any. -/
theorem LooksAhead.of_stopped
    {parser : Parser Value}
    (isAt : reason.At finish passed (found :: rest))
    (stops : ∀ behind,
      parser (found :: behind) types = .stopped reason types)
    (endsOpen : EndsOpen finish (parser [] types)) :
    LooksAhead finish passed parser (found :: rest) types := by
  rw [← List.append_nil passed] at isAt
  refine .stopped reason [] (found :: rest) types rfl isAt ?_ endsOpen
  intro other same
  obtain ⟨behind, rfl⟩ := List.head?_eq_some_iff.mp same
  exact stops behind

/-- A parser that refuses the next token. -/
theorem LooksAhead.of_refuse
    {parser : Parser Value}
    (expected : Text)
    (error : Token -> ParseError)
    (named : ∀ found, (error found).found? = some found)
    (refuses : ∀ other, Follows other tokens ->
      parser other types = refuse finish expected error other types) :
    LooksAhead finish passed parser tokens types := by
  have endsOpen : EndsOpen finish (parser [] types) := by
    rw [refuses [] (.nil tokens)]
    exact .unexpectedEnd expected types
  cases tokens with
  | nil =>
      refine .stopped (.fault (.unexpectedEnd finish expected)) [] [] types rfl
        (.fault ⟨expected, rfl⟩) ?_ endsOpen
      intro other same
      rw [List.nil_append, refuses other (Or.inr same),
        List.head?_eq_none_iff.mp same]
      rfl
  | cons found rest =>
      have refused : ∀ behind, parser (found :: behind) types =
          refuse finish expected error (found :: behind) types :=
        fun behind => refuses (found :: behind) (Or.inr rfl)
      by_cases isError : found.kind = .error
      · refine .of_stopped (.lexical rfl isError) ?_ endsOpen
        intro behind
        simp [refused, refuse, isError]
      · refine .of_stopped (.fault (.of_found? (named found))) ?_ endsOpen
        intro behind
        simp [refused, refuse, isError]

/-! ## Sequences -/

theorem head?_append_congr
    {other rest : List Token}
    (consumed : List Token)
    (same : other.head? = rest.head?) :
    (consumed ++ other).head? = (consumed ++ rest).head? := by
  rw [List.head?_append, List.head?_append, same]

theorem Follows.append
    {other rest : List Token}
    (follows : Follows other rest)
    (consumed : List Token) :
    Follows (consumed ++ other) (consumed ++ rest) := by
  cases consumed with
  | nil => exact follows
  | cons token consumed => exact Or.inr rfl

namespace Predictive

theorem mono
    {parser : Parser Value}
    (predictive : Predictive finish passed parser)
    (kept : passed ⊆ more) :
    Predictive finish more parser := by
  intro tokens types
  cases predictive tokens types with
  | done value consumed rest later split reads =>
      exact .done value consumed rest later split reads
  | stopped reason consumed rest later split isAt stops endsOpen =>
      exact .stopped reason consumed rest later split
        (isAt.mono (List.append_subset.mpr
          ⟨List.subset_append_of_subset_left _ kept,
            List.subset_append_right _ _⟩))
        stops endsOpen

theorem endsOpen_nil
    {parser : Parser Value}
    (predictive : Predictive finish passed parser)
    (types : TypePool) :
    EndsOpen finish (parser [] types) := by
  cases predictive [] types with
  | done value consumed rest later split reads =>
      obtain ⟨rfl, rfl⟩ := List.append_eq_nil_iff.mp split.symm
      have read := reads [] (.nil _)
      rw [List.nil_append] at read
      rw [read]
      exact .done value later
  | stopped reason consumed rest later split isAt stops endsOpen =>
      obtain ⟨rfl, rfl⟩ := List.append_eq_nil_iff.mp split.symm
      exact endsOpen

theorem length_le
    {parser : Parser Value}
    (predictive : Predictive finish passed parser)
    (read : parser tokens types = .done value rest later) :
    rest.length ≤ tokens.length := by
  cases predictive tokens types with
  | done value consumed others later split reads =>
      have same := reads others (.refl _)
      rw [← split, read] at same
      cases same
      rw [split, List.length_append]
      omega
  | stopped reason consumed others later split isAt stops endsOpen =>
      have same := stops others rfl
      rw [← split, read] at same
      cases same

/-- The second parser may blame what the first one has read. -/
theorem bind_of_read
    {first : Parser Value}
    {next : Value -> Parser Other}
    (firstPredictive : Predictive finish passed first)
    (nextPredictive : ∀ {value consumed rest types later},
      first (consumed ++ rest) types = .done value rest later ->
      Predictive finish (passed ++ consumed) (next value)) :
    Predictive finish passed (first >>= next) := by
  intro tokens types
  cases firstPredictive tokens types with
  | stopped reason consumed rest later split isAt stops endsOpen =>
      refine .stopped reason consumed rest later split isAt ?_ ?_
      · intro other same
        rw [bind_apply, stops other same]
      · rw [bind_apply]
        generalize read : first consumed types = result at endsOpen
        cases endsOpen with
        | done value later =>
            rw [← List.append_nil consumed] at read
            exact (nextPredictive read).endsOpen_nil later
        | unexpectedEnd expected later => exact .unexpectedEnd expected later
        | outOfFuel later => exact .outOfFuel later
  | done value consumed rest later split reads =>
      have read := reads rest (.refl _)
      cases nextPredictive read rest later with
      | done value further final later restSplit nextReads =>
          refine .done value (consumed ++ further) final later ?_ ?_
          · rw [split, restSplit, List.append_assoc]
          · intro other follows
            have sameAhead : Follows (further ++ other) rest := by
              rw [restSplit]
              exact follows.append further
            rw [List.append_assoc]
            simp only [bind_apply, reads _ sameAhead, nextReads other follows]
      | stopped reason further final later restSplit isAt stops endsOpen =>
          refine .stopped reason (consumed ++ further) final later ?_ ?_ ?_ ?_
          · rw [split, restSplit, List.append_assoc]
          · rwa [← List.append_assoc]
          · intro other same
            have sameAhead : Follows (further ++ other) rest := by
              rw [restSplit]
              exact Or.inr (head?_append_congr further same)
            rw [List.append_assoc]
            simp only [bind_apply, reads _ sameAhead, stops other same]
          · have sameAhead : Follows further rest := by
              have cut := (Follows.nil final).append further
              rwa [List.append_nil, ← restSplit] at cut
            simpa only [bind_apply, reads _ sameAhead] using endsOpen

theorem bind
    {first : Parser Value}
    {next : Value -> Parser Other}
    (firstPredictive : Predictive finish passed first)
    (nextPredictive : ∀ value, Predictive finish passed (next value)) :
    Predictive finish passed (first >>= next) :=
  firstPredictive.bind_of_read fun _ =>
    (nextPredictive _).mono (List.subset_append_left _ _)

/-- A parser that chooses by the kind of the next token, and then reads it.  It
advances, so the token is among those that it has read. -/
theorem nextKind_bind
    {next : Option Token.Kind -> Parser Value}
    (advances : Advances (nextKind >>= next))
    (nextPredictive : ∀ kind, Predictive finish passed (next kind)) :
    Predictive finish passed (nextKind >>= next) := by
  have choose : ∀ {tokens types}, (nextKind >>= next) tokens types =
      next (tokens.head?.map Token.kind) tokens types := rfl
  intro tokens types
  cases nextPredictive (tokens.head?.map Token.kind) tokens types with
  | done value consumed rest later split reads =>
      refine .done value consumed rest later split ?_
      intro other follows
      cases consumed with
      | nil =>
          have read := reads rest (.refl rest)
          rw [← split, ← choose] at read
          have shorter := advances _ _ _ _ _ read
          rw [split, List.nil_append] at shorter
          omega
      | cons token consumed =>
          rw [choose, ← reads other follows, split]
          rfl
  | stopped reason consumed rest later split isAt stops endsOpen =>
      refine .stopped reason consumed rest later split isAt ?_ ?_
      · intro other same
        rw [choose, head?_append_congr consumed same, ← split]
        exact stops other same
      · rw [choose]
        cases consumed with
        | nil => exact (nextPredictive none).endsOpen_nil types
        | cons token consumed =>
            rw [split] at endsOpen
            exact endsOpen

/-! ## Primitive parsers -/

theorem pure
    (value : Value) :
    Predictive finish passed (Pure.pure value) :=
  fun tokens types => .done value [] tokens types rfl fun _ _ => rfl

theorem intern
    (former : TypeFormer) :
    Predictive finish passed (Parser.intern former) :=
  fun tokens _ => .done _ [] tokens _ rfl fun _ _ => rfl

theorem outOfFuel :
    Predictive finish passed (Parser.stop .outOfFuel : Parser Value) :=
  fun tokens types => .stopped .outOfFuel [] tokens types rfl .outOfFuel
    (fun _ _ => rfl) (.outOfFuel types)

theorem accept
    (kind : Token.Kind) :
    Predictive finish passed (Parser.accept kind) := by
  intro tokens types
  by_cases isKind : tokens.head?.map Token.kind = some kind
  · obtain ⟨found, rest, rfl, foundKind⟩ := of_head?_kind isKind
    refine .done true [found] rest types rfl ?_
    intro other _
    exact accept_of_kind other types foundKind
  · refine .done false [] tokens types rfl ?_
    intro other follows
    exact accept_of_other types (follows.head?_kind_ne isKind)

theorem refuse
    (named : ∀ found, (error found).found? = some found) :
    Predictive finish passed
      (Parser.refuse finish expected error : Parser Value) :=
  fun _ _ => .of_refuse expected error named fun _ _ => rfl

theorem token
    (named : ∀ found, (error found).found? = some found) :
    Predictive finish passed (Parser.token finish kind expected error) := by
  intro tokens types
  by_cases isKind : tokens.head?.map Token.kind = some kind
  · obtain ⟨found, rest, rfl, foundKind⟩ := of_head?_kind isKind
    refine .done found [found] rest types rfl ?_
    intro other _
    exact token_of_kind finish expected error other types foundKind
  · refine .of_refuse expected error named ?_
    intro other follows
    exact token_of_other types (follows.head?_kind_ne isKind)

theorem expect :
    Predictive finish passed (Parser.expect finish kind expected) :=
  token fun _ => rfl

/-- A name that is not bound is itself the offending token. -/
theorem expect_variableOf
    (scope : Scope) :
    Predictive finish passed
      (Parser.expect finish .identifier expected >>= variableOf scope) := by
  intro tokens types
  by_cases isKind : tokens.head?.map Token.kind = some .identifier
  · obtain ⟨name, rest, rfl, isName⟩ := of_head?_kind isKind
    have read : ∀ other,
        (Parser.expect finish .identifier expected >>= variableOf scope)
          (name :: other) types = variableOf scope name other types := by
      intro other
      rw [bind_apply, expect_of_kind _ _ _ _ isName]
    cases found : scope.index? name.lexeme with
    | some index =>
        refine .done (.var name.span index) [name] rest types rfl ?_
        intro other _
        rw [List.singleton_append, read, variableOf, found]
        rfl
    | none =>
        have blamed : ParseError.At finish passed (.unboundVariable name)
            (name :: rest) :=
          .of_found? rfl
        refine .of_stopped (.fault blamed) ?_ (.unexpectedEnd expected types)
        intro behind
        rw [read, variableOf, found]
        rfl
  · refine .of_refuse expected (.expectedToken expected) (fun _ => rfl) ?_
    intro other follows
    rw [bind_apply, Parser.expect,
      token_of_other types (follows.head?_kind_ne isKind)]
    exact refuse_bind other types

/-- A missing argument is blamed on all that has been read since the left
parenthesis. -/
theorem requireArgument
    (source : Text)
    {left : Token}
    (leftPassed : left ∈ passed)
    (function : Term) :
    Predictive finish passed (Parser.requireArgument source left function) := by
  intro tokens types
  by_cases isKind : tokens.head?.map Token.kind = some .rightParenthesis
  · obtain ⟨right, rest, rfl, isRight⟩ := of_head?_kind isKind
    have blamed : ParseError.At finish passed
        (.argumentMissing (left.span.join right.span)
          (source.slice function.span.lo function.span.hi))
        (right :: rest) :=
      ⟨by simp [ParseError.code], Or.inr ⟨left, leftPassed, rfl⟩⟩
    refine .of_stopped (.fault blamed) ?_ (.done () types)
    intro behind
    simp [Parser.requireArgument, isRight]
  · refine .done () [] tokens types rfl ?_
    intro other follows
    have notRight := follows.head?_kind_ne isKind
    cases other with
    | nil => rfl
    | cons found behind =>
        have different : found.kind ≠ .rightParenthesis := by
          simpa using notRight
        simp [Parser.requireArgument, different]

theorem endOfInput :
    Predictive finish passed Parser.endOfInput := by
  intro tokens types
  cases tokens with
  | nil =>
      refine .done () [] [] types rfl ?_
      intro other follows
      have isNil : other = [] := by
        simpa [Follows] using follows
      rw [isNil]
      rfl
  | cons found rest =>
      by_cases isError : found.kind = .error
      · refine .of_stopped (.lexical rfl isError) ?_ (.done () types)
        intro behind
        simp [Parser.endOfInput, isError]
      · have blamed : ParseError.At finish passed (.trailingInput found)
            (found :: rest) :=
          .of_found? rfl
        refine .of_stopped (.fault blamed) ?_ (.done () types)
        intro behind
        simp [Parser.endOfInput, isError]

/-- The fuel computed from the tokens in front of a parser is not looked at. -/
theorem withEnoughFuel
    {parser : Nat -> Parser Value}
    (fuelled : Fuelled parser)
    (predictive : ∀ fuel, Predictive finish passed (parser fuel)) :
    Predictive finish passed fun tokens types =>
      parser (enoughFuel tokens) tokens types := by
  intro tokens types
  cases predictive (enoughFuel tokens) tokens types with
  | done value consumed rest later split reads =>
      refine .done value consumed rest later split ?_
      intro other follows
      have read := reads other follows
      refine (fuelled.eq_of_remains fun _ => ?_).trans read
      simp [read]
  | stopped reason consumed rest later split isAt stops endsOpen =>
      have isStopped := stops rest rfl
      rw [← split] at isStopped
      refine .stopped reason consumed rest later split isAt ?_ ?_
      · intro other same
        have stopped := stops other same
        refine (fuelled.eq_of_remains fun between => ?_).trans stopped
        rw [stopped, ← isStopped]
        exact fuelled.lasts tokens types between
      · have shorter : enoughFuel consumed ≤ enoughFuel tokens := by
          rw [split, enoughFuel, enoughFuel, List.length_append]
          omega
        rwa [fuelled.eq_of_enough types shorter] at endsOpen

end Predictive

/-! ## Types -/

theorem advances_atomWith
    (finish : Span)
    (fuel : Nat) :
    Advances (atomWith finish fuel) := by
  intro tokens types number rest later read
  obtain ⟨consumed, _, rfl, isAtom, _⟩ :=
    (derives_types_and_atoms finish fuel).2 _ _ _ _ _ read
  have positive := isAtom.length_pos
  rw [List.length_append]
  omega

theorem advances_typeWith
    (finish : Span)
    (fuel : Nat) :
    Advances (typeWith finish fuel) := by
  intro tokens types number rest later read
  obtain ⟨consumed, _, rfl, isType, _⟩ :=
    (derives_types_and_atoms finish fuel).1 _ _ _ _ _ read
  have positive := isType.length_pos
  rw [List.length_append]
  omega

theorem predictive_types_and_atoms
    (finish : Span)
    (passed : List Token)
    (fuel : Nat) :
    Predictive finish passed (typeWith finish fuel) ∧
      Predictive finish passed (atomWith finish fuel) := by
  induction fuel with
  | zero => exact ⟨.outOfFuel, .outOfFuel⟩
  | succ fuel inductionHypothesis =>
      obtain ⟨typePredictive, atomPredictive⟩ := inductionHypothesis
      constructor
      · rw [typeWith]
        refine atomPredictive.bind fun parameter => ?_
        refine (Predictive.accept .arrow).bind fun accepted => ?_
        split
        next => exact typePredictive.bind fun _ => .intern _
        next => exact .pure parameter
      · have advances := advances_atomWith finish (fuel + 1)
        rw [atomWith] at advances ⊢
        refine .nextKind_bind advances fun kind => ?_
        split
        next =>
            refine (Predictive.accept .leftParenthesis).bind fun _ => ?_
            refine typePredictive.bind fun inner => ?_
            exact Predictive.expect.bind fun _ => .pure inner
        next =>
            refine Predictive.bind (.token fun _ => rfl) ?_
            exact fun name => .intern _

theorem predictive_declaration
    (finish : Span)
    (passed : List Token) :
    Predictive finish passed (declaration finish) := by
  have typePredictive : Predictive finish passed (type finish) :=
    .withEnoughFuel (fuelled_typeWith finish) fun fuel =>
      (predictive_types_and_atoms finish passed fuel).1
  unfold declaration
  refine (Predictive.accept .colon).bind fun accepted => ?_
  split
  next =>
      refine typePredictive.bind fun declared => ?_
      exact Predictive.expect.bind fun _ => .pure _
  next => exact (Predictive.accept .dot).bind fun _ => .pure _

/-! ## Terms -/

theorem advances_termWith
    (stream : TokenStream)
    (fuel : Nat)
    (scope : Scope) :
    Advances (termWith stream fuel scope) := by
  intro tokens types term rest later read
  obtain ⟨consumed, _, rfl, isTerm, _⟩ := termWith_sound read
  have positive := isTerm.length_pos
  rw [List.length_append]
  omega

theorem advances_argumentsWith
    (predictive : ∀ function, Predictive stream.finish passed
      (argumentsWith stream fuel scope left function))
    (function : Term) :
    Advances (argumentsWith stream (fuel + 1) scope left function) := by
  intro tokens types term rest later read
  rw [argumentsWith] at read
  obtain ⟨kind, _, _, kindRead, afterKind⟩ := of_bind_done read
  obtain ⟨_, rfl, rfl⟩ := of_nextKind_done kindRead
  split at afterKind
  next => exact (of_refuse_done afterKind).elim
  next =>
      obtain ⟨right, _, _, rightRead, afterRight⟩ := of_bind_done afterKind
      obtain ⟨rfl, _, rfl⟩ := of_token_done rightRead
      cases afterRight
      exact Nat.lt_succ_self _
  next =>
      obtain ⟨argument, _, _, argumentRead, othersRead⟩ :=
        of_bind_done afterKind
      have shorter := advances_termWith _ _ _ _ _ _ _ _ argumentRead
      have notLonger := (predictive _).length_le othersRead
      omega

theorem predictive_terms_and_arguments
    (stream : TokenStream)
    (fuel : Nat) :
    (∀ passed scope,
      Predictive stream.finish passed (termWith stream fuel scope)) ∧
    ∀ passed scope left function, Predictive stream.finish passed
      (argumentsWith stream fuel scope left function) := by
  induction fuel with
  | zero => exact ⟨fun _ _ => .outOfFuel, fun _ _ _ _ => .outOfFuel⟩
  | succ fuel inductionHypothesis =>
      obtain ⟨termPredictive, argumentsPredictive⟩ := inductionHypothesis
      constructor
      · intro passed scope
        have advances := advances_termWith stream (fuel + 1) scope
        rw [termWith] at advances ⊢
        refine .nextKind_bind advances fun kind => ?_
        split
        next => exact .expect_variableOf scope
        next =>
            refine Predictive.bind_of_read (.token fun _ => rfl) ?_
            intro left consumed rest types later leftRead
            obtain ⟨front, _, _⟩ := of_token_done leftRead
            have isLeft : consumed = [left] :=
              List.append_cancel_right front
            subst isLeft
            refine (Predictive.accept .lambda).bind fun accepted => ?_
            split
            next =>
                refine Predictive.bind (.token fun _ => rfl) ?_
                intro name
                refine (predictive_declaration _ _).bind fun declared => ?_
                refine (termPredictive _ _).bind fun body => ?_
                exact Predictive.expect.bind fun _ => .pure _
            next =>
                refine (termPredictive _ scope).bind fun function => ?_
                have leftPassed : left ∈ passed ++ [left] := by simp
                refine (Predictive.requireArgument stream.source leftPassed
                  function).bind fun _ => ?_
                exact argumentsPredictive _ scope left function
      · intro passed scope left function
        have advances := advances_argumentsWith
          (argumentsPredictive passed scope left) function
        rw [argumentsWith] at advances ⊢
        refine .nextKind_bind advances fun kind => ?_
        split
        next => exact .refuse fun _ => rfl
        next => exact Predictive.expect.bind fun _ => .pure _
        next =>
            refine (termPredictive passed scope).bind fun argument => ?_
            exact argumentsPredictive passed scope left _

/-- The parser of programs looks one token ahead. -/
theorem predictive_program
    (stream : TokenStream) :
    Predictive stream.finish [] (program stream) := by
  unfold program
  refine Predictive.bind (.withEnoughFuel (fuelled_termWith stream [])
    fun fuel => (predictive_terms_and_arguments stream fuel).1 [] []) ?_
  exact fun term => Predictive.endOfInput.bind fun _ => .pure term

end Parser
end LambdaCalculus
