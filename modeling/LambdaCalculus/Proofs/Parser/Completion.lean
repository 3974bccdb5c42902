import LambdaCalculus.Proofs.Parser.Translation

/-!
# Unfinished input can be completed

Where the parser meets the end of input too early, some further tokens make a
term of what it has read: an open type is closed, a missing body is the bound
variable, a missing argument is the identity.  The parser never stops for lack
of fuel, because every two levels of the recursion read a token.
-/

namespace LambdaCalculus

/-- A token of a kind that is spelled like the name of its kind. -/
def Token.ofKind (kind : Token.Kind) : Token :=
  ⟨kind, .nowhere, kind.name⟩

/-- The token that an error is about, unless it is about the end of input or
about more than a token. -/
def ParseError.found? : ParseError -> Option Token
  | .unexpectedEnd _ _ => none
  | .expectedToken _ found => some found
  | .unexpectedToken found => some found
  | .trailingInput found => some found
  | .binderNameExpected found => some found
  | .argumentMissing _ _ => none
  | .typeExpected found => some found
  | .unboundVariable found => some found

theorem ParseError.of_found?
    {error : ParseError}
    (isFound : error.found? = some token) :
    error.code ≠ .unexpectedEnd ∧ error.span = token.span := by
  cases error <;> simp_all [found?, code, span]

namespace Grammar

/-- The tokens are a term whose free names are in scope. -/
def IsTermIn
    (scope : Scope)
    (tokens : List Token) : Prop :=
  ∃ named, IsTerm tokens named ∧ named.BoundIn scope

/-- The tokens are one or more terms whose free names are in scope, and a right
parenthesis. -/
def AreArgumentsIn
    (scope : Scope)
    (tokens : List Token) : Prop :=
  ∃ consumed arguments right, tokens = consumed ++ [right] ∧
    right.kind = .rightParenthesis ∧ AreTerms consumed arguments ∧
    arguments ≠ [] ∧ ∀ argument ∈ arguments, argument.BoundIn scope

/-- The tokens of the identity. -/
def identityTokens : List Token :=
  [.ofKind .leftParenthesis, .ofKind .lambda, .ofKind .identifier,
    .ofKind .identifier, .ofKind .rightParenthesis]

theorem isTermIn_identityTokens
    (scope : Scope) :
    IsTermIn scope identityTokens :=
  ⟨.abs _ none (.var _), .abs rfl rfl rfl .empty (.name rfl) rfl,
    List.mem_cons_self⟩

theorem boundIn_foldl
    {arguments : List NamedTerm}
    {function : NamedTerm}
    (functionBound : function.BoundIn scope)
    (argumentsBound : ∀ argument ∈ arguments, argument.BoundIn scope) :
    (arguments.foldl .app function).BoundIn scope := by
  induction arguments generalizing function with
  | nil => exact functionBound
  | cons first rest inductionHypothesis =>
      rw [List.forall_mem_cons] at argumentsBound
      exact inductionHypothesis ⟨functionBound, argumentsBound.1⟩
        argumentsBound.2

/-- A function in front of its arguments, behind a left parenthesis. -/
theorem AreArgumentsIn.isTermIn
    {left : Token}
    (isLeft : left.kind = .leftParenthesis)
    (function : IsTermIn scope functionTokens)
    (arguments : AreArgumentsIn scope argumentTokens) :
    IsTermIn scope (left :: (functionTokens ++ argumentTokens)) := by
  obtain ⟨named, isFunction, functionBound⟩ := function
  obtain ⟨consumed, operands, right, rfl, isRight, areTerms, nonempty,
    operandsBound⟩ := arguments
  exact ⟨_, .app isLeft isFunction areTerms nonempty isRight,
    boundIn_foldl functionBound operandsBound⟩

theorem AreArgumentsIn.cons
    (first : IsTermIn scope firstTokens)
    (others : AreArgumentsIn scope otherTokens) :
    AreArgumentsIn scope (firstTokens ++ otherTokens) := by
  obtain ⟨named, isFirst, firstBound⟩ := first
  obtain ⟨consumed, operands, right, rfl, isRight, areTerms, _,
    operandsBound⟩ := others
  exact ⟨firstTokens ++ consumed, named :: operands, right,
    (List.append_assoc _ _ _).symm, isRight, .cons isFirst areTerms,
    List.cons_ne_nil _ _, List.forall_mem_cons.mpr ⟨firstBound, operandsBound⟩⟩

/-- The last argument, in front of the right parenthesis. -/
theorem AreArgumentsIn.single
    {right : Token}
    (first : IsTermIn scope firstTokens)
    (isRight : right.kind = .rightParenthesis) :
    AreArgumentsIn scope (firstTokens ++ [right]) := by
  obtain ⟨named, isFirst, firstBound⟩ := first
  refine ⟨firstTokens, [named], right, rfl, isRight, ?_,
    List.cons_ne_nil _ _, List.forall_mem_cons.mpr ⟨firstBound, List.forall_mem_nil _⟩⟩
  simpa using AreTerms.cons isFirst .nil

theorem areArgumentsIn_identityTokens
    (scope : Scope) :
    AreArgumentsIn scope (identityTokens ++ [.ofKind .rightParenthesis]) :=
  .single (isTermIn_identityTokens scope) rfl

theorem isTermIn_of_resolve
    (isTerm : IsTerm tokens named)
    (resolved : named.resolve scope types = some result) :
    IsTermIn scope tokens :=
  ⟨named, isTerm, (named.exists_resolve_iff scope types).mp ⟨result, resolved⟩⟩

end Grammar

namespace Parser

open Grammar

/-! ## Stops -/

/-- What a stop promises: it is not for lack of fuel, and where the input ends
too early, further tokens make it a whole. -/
inductive Completable
    (Whole : List Token -> Prop)
    (tokens : List Token) : Stop -> Prop
  | lexical : Completable Whole tokens .lexical
  | fault
      (elsewhere : error.code ≠ .unexpectedEnd) :
      Completable Whole tokens (.fault error)
  | unexpectedEnd
      (more : List Token)
      (whole : Whole (tokens ++ more)) :
      Completable Whole tokens (.fault (.unexpectedEnd span expected))

/-- What completes a part completes the whole. -/
theorem Completable.map
    {Part Whole : List Token -> Prop}
    (completable : Completable Part part reason)
    (completed : ∀ more, Part (part ++ more) ->
      ∃ further, Whole (tokens ++ further)) :
    Completable Whole tokens reason := by
  cases completable with
  | lexical => exact lexical
  | fault elsewhere => exact fault elsewhere
  | unexpectedEnd more part =>
      obtain ⟨further, whole⟩ := completed more part
      exact unexpectedEnd further whole

/-- A sequence of parsers stops where the first one does, or where the second
one does on the tokens that the first one leaves. -/
theorem of_bind_stopped
    {first : Parser Value}
    {next : Value -> Parser Other}
    (stopped : (first >>= next) tokens types = .stopped reason later) :
    first tokens types = .stopped reason later ∨
      ∃ value middle between, first tokens types = .done value middle between ∧
        next value middle between = .stopped reason later := by
  rw [bind_apply] at stopped
  split at stopped
  next value middle between firstRead =>
      exact Or.inr ⟨value, middle, between, firstRead, stopped⟩
  next firstStopped =>
      cases stopped
      exact Or.inl firstStopped

/-- A parser that waits for a token stops at the end of the tokens, where they
can be completed, or at another token. -/
theorem of_refuse_stopped
    {Whole : List Token -> Prop}
    (stopped : (refuse finish expected error : Parser Value) rest types =
      .stopped reason later)
    (named : ∀ found, (error found).found? = some found)
    (completion : rest = [] -> ∃ more, Whole (tokens ++ more)) :
    Completable Whole tokens reason := by
  cases rest with
  | nil =>
      cases stopped
      obtain ⟨more, whole⟩ := completion rfl
      exact .unexpectedEnd more whole
  | cons token rest =>
      simp only [refuse] at stopped
      split at stopped
      next =>
          cases stopped
          exact .lexical
      next =>
          cases stopped
          exact .fault (ParseError.of_found? (named token)).1

theorem of_token_stopped
    {Whole : List Token -> Prop}
    (stopped : token finish kind expected error rest types =
      .stopped reason later)
    (named : ∀ found, (error found).found? = some found)
    (completion : rest = [] -> ∃ more, Whole (tokens ++ more)) :
    Completable Whole tokens reason := by
  unfold token at stopped
  split at stopped
  next =>
      split at stopped
      next => cases stopped
      next => exact of_refuse_stopped stopped named completion
  next => exact of_refuse_stopped stopped named completion

theorem of_expect_stopped
    {Whole : List Token -> Prop}
    (stopped : expect finish kind expected rest types =
      .stopped reason later)
    (completion : rest = [] -> ∃ more, Whole (tokens ++ more)) :
    Completable Whole tokens reason :=
  of_token_stopped stopped (fun _ => rfl) completion

theorem of_accept_stopped
    (stopped : accept kind tokens types = .stopped reason later) :
    False := by
  unfold accept at stopped
  split at stopped
  next => split at stopped <;> cases stopped
  next => cases stopped

/-! ## Types -/

/-- With so much fuel, an unfinished type can be completed. -/
def CompletesTypes
    (finish : Span)
    (fuel : Nat) : Prop :=
  ∀ (tokens : List Token) (types later : TypePool) (reason : Stop),
    2 * tokens.length + 2 ≤ fuel ->
    typeWith finish fuel tokens types = .stopped reason later ->
    Completable (fun tokens => ∃ tree, IsType tokens tree) tokens reason

/-- With so much fuel, an unfinished atom can be completed. -/
def CompletesAtoms
    (finish : Span)
    (fuel : Nat) : Prop :=
  ∀ (tokens : List Token) (types later : TypePool) (reason : Stop),
    2 * tokens.length + 1 ≤ fuel ->
    atomWith finish fuel tokens types = .stopped reason later ->
    Completable (fun tokens => ∃ tree, IsAtom tokens tree) tokens reason

theorem CompletesTypes.succ
    (typesCompleted : CompletesTypes finish fuel)
    (atomsCompleted : CompletesAtoms finish fuel) :
    CompletesTypes finish (fuel + 1) := by
  intro tokens types later reason enough stopped
  rw [typeWith] at stopped
  rcases of_bind_stopped stopped with
    atomStopped | ⟨parameter, _, _, atomRead, afterAtom⟩
  · apply (atomsCompleted _ _ _ _ (by omega) atomStopped).map
    rintro more ⟨tree, isAtom⟩
    exact ⟨more, tree, .atom isAtom⟩
  obtain ⟨parameterTokens, parameterTree, rfl, isParameter, _⟩ :=
    (derives_types_and_atoms finish fuel).2 _ _ _ _ _ atomRead
  rcases of_bind_stopped afterAtom with
    arrowStopped | ⟨accepted, _, _, arrowRead, afterArrow⟩
  · exact (of_accept_stopped arrowStopped).elim
  obtain ⟨rfl, ⟨rfl, arrow, rfl, isArrow⟩ | ⟨rfl, rfl⟩⟩ :=
    of_accept_done arrowRead
  · rcases of_bind_stopped afterArrow with
      resultStopped | ⟨_, _, _, _, afterResult⟩
    · simp only [List.length_append, List.length_cons] at enough
      apply (typesCompleted _ _ _ _ (by omega) resultStopped).map
      rintro more ⟨tree, isResult⟩
      refine ⟨more, .arrow parameterTree tree, ?_⟩
      simpa using IsType.arrow isParameter isArrow isResult
    · cases afterResult
  · cases afterArrow

theorem CompletesAtoms.succ
    (typesCompleted : CompletesTypes finish fuel) :
    CompletesAtoms finish (fuel + 1) := by
  intro tokens types later reason enough stopped
  rw [atomWith] at stopped
  rcases of_bind_stopped stopped with
    kindStopped | ⟨kind, _, _, kindRead, afterKind⟩
  · cases kindStopped
  obtain ⟨isKind, rfl, rfl⟩ := of_nextKind_done kindRead
  split at afterKind
  next =>
      obtain ⟨left, behindLeft, rfl, isLeft⟩ := of_head?_kind isKind
      rcases of_bind_stopped afterKind with
        leftStopped | ⟨_, _, _, leftRead, afterLeft⟩
      · exact (of_accept_stopped leftStopped).elim
      rw [accept_of_kind _ _ isLeft] at leftRead
      cases leftRead
      rw [List.length_cons] at enough
      rcases of_bind_stopped afterLeft with
        innerStopped | ⟨inner, _, _, innerRead, afterInner⟩
      · apply (typesCompleted _ _ _ _ (by omega) innerStopped).map
        rintro more ⟨tree, isInner⟩
        refine ⟨more ++ [.ofKind .rightParenthesis], tree, ?_⟩
        simpa using IsAtom.group isLeft isInner rfl
      obtain ⟨innerTokens, tree, rfl, isInner, _⟩ :=
        (derives_types_and_atoms finish fuel).1 _ _ _ _ _ innerRead
      rcases of_bind_stopped afterInner with
        rightStopped | ⟨_, _, _, _, afterRight⟩
      · apply of_expect_stopped rightStopped
        rintro rfl
        refine ⟨[.ofKind .rightParenthesis], tree, ?_⟩
        simpa using IsAtom.group isLeft isInner rfl
      · cases afterRight
  next =>
      rcases of_bind_stopped afterKind with
        nameStopped | ⟨_, _, _, _, afterName⟩
      · apply of_token_stopped nameStopped (fun _ => rfl)
        rintro rfl
        exact ⟨[.ofKind .identifier], _, .name rfl⟩
      · cases afterName

theorem completes_types_and_atoms
    (finish : Span)
    (fuel : Nat) :
    CompletesTypes finish fuel ∧ CompletesAtoms finish fuel := by
  induction fuel with
  | zero =>
      constructor
      · intro tokens types later reason enough
        omega
      · intro tokens types later reason enough
        omega
  | succ fuel inductionHypothesis =>
      obtain ⟨typesCompleted, atomsCompleted⟩ := inductionHypothesis
      exact ⟨typesCompleted.succ atomsCompleted,
        CompletesAtoms.succ typesCompleted⟩

/-- An unfinished declaration can be completed. -/
theorem declaration_completable
    (stopped : declaration finish tokens types = .stopped reason later) :
    Completable (fun tokens => ∃ declared, IsDeclaration tokens declared)
      tokens reason := by
  unfold declaration at stopped
  rcases of_bind_stopped stopped with
    colonStopped | ⟨accepted, _, _, colonRead, afterColon⟩
  · exact (of_accept_stopped colonStopped).elim
  obtain ⟨rfl, ⟨rfl, colon, rfl, isColon⟩ | ⟨rfl, rfl⟩⟩ :=
    of_accept_done colonRead
  · rcases of_bind_stopped afterColon with
      typeStopped | ⟨_, _, _, typeRead, afterType⟩
    · apply ((completes_types_and_atoms finish _).1 _ _ _ _ (Nat.le_refl _)
        typeStopped).map
      rintro more ⟨tree, isType⟩
      refine ⟨more ++ [.ofKind .dot], some tree, ?_⟩
      simpa using IsDeclaration.declared isColon isType rfl
    obtain ⟨typeTokens, tree, rfl, isType, _⟩ :=
      (derives_types_and_atoms finish _).1 _ _ _ _ _ typeRead
    rcases of_bind_stopped afterType with
      dotStopped | ⟨_, _, _, _, afterDot⟩
    · apply of_expect_stopped dotStopped
      rintro rfl
      refine ⟨[.ofKind .dot], some tree, ?_⟩
      simpa using IsDeclaration.declared isColon isType rfl
    · cases afterDot
  · rcases of_bind_stopped afterColon with
      dotStopped | ⟨_, _, _, _, afterDot⟩
    · exact (of_accept_stopped dotStopped).elim
    · cases afterDot

/-! ## Terms -/

/-- With so much fuel, an unfinished term can be completed. -/
def CompletesTerms
    (stream : TokenStream)
    (fuel : Nat) : Prop :=
  ∀ (tokens : List Token) (scope : Scope) (types later : TypePool)
      (reason : Stop),
    2 * tokens.length + 1 ≤ fuel ->
    termWith stream fuel scope tokens types = .stopped reason later ->
    Completable (IsTermIn scope) tokens reason

/-- With so much fuel, unfinished arguments can be completed. -/
def CompletesArguments
    (stream : TokenStream)
    (fuel : Nat) : Prop :=
  ∀ (tokens : List Token) (scope : Scope) (types later : TypePool)
      (left : Token) (function : Term) (reason : Stop),
    2 * tokens.length + 2 ≤ fuel ->
    argumentsWith stream fuel scope left function tokens types =
      .stopped reason later ->
    Completable (AreArgumentsIn scope) tokens reason

/-- What may stand between the binder and the right parenthesis of an
abstraction. -/
theorem isTermIn_abs
    {left lambda binder right : Token}
    {declarationTokens bodyTokens : List Token}
    (isLeft : left.kind = .leftParenthesis)
    (isLambda : lambda.kind = .lambda)
    (isBinder : binder.kind = .identifier)
    (isDeclaration : IsDeclaration declarationTokens declared)
    (isBody : IsTermIn (scope.extend binder.lexeme) bodyTokens)
    (isRight : right.kind = .rightParenthesis) :
    IsTermIn scope (left :: lambda :: binder ::
      (declarationTokens ++ (bodyTokens ++ [right]))) := by
  obtain ⟨named, isBody, bound⟩ := isBody
  exact ⟨_, .abs isLeft isLambda isBinder isDeclaration isBody isRight, bound⟩

/-- The variable of the innermost binder. -/
theorem isTermIn_binder
    (binder : Token)
    (isBinder : binder.kind = .identifier)
    (scope : Scope) :
    IsTermIn (scope.extend binder.lexeme) [binder] :=
  ⟨_, .name isBinder, List.mem_cons_self⟩

/-- An abstraction that has been begun can be completed. -/
theorem abstraction_completable
    {left lambda : Token}
    (isLeft : left.kind = .leftParenthesis)
    (isLambda : lambda.kind = .lambda)
    (terms : CompletesTerms stream fuel)
    (enough : 2 * tokens.length + 1 ≤ fuel)
    (stopped : (do
      let name ← token stream.finish .identifier "a binder name"
        .binderNameExpected
      let declared ← declaration stream.finish
      let body ← termWith stream fuel (scope.extend name.lexeme)
      let right ← expect stream.finish .rightParenthesis "')'"
      pure (.abs (left.span.join right.span) declared body) : Parser Term)
        tokens types = .stopped reason later) :
    Completable (IsTermIn scope) (left :: lambda :: tokens) reason := by
  rcases of_bind_stopped stopped with
    binderStopped | ⟨binder, _, _, binderRead, afterBinder⟩
  · apply of_token_stopped binderStopped (fun _ => rfl)
    rintro rfl
    exact ⟨[.ofKind .identifier, .ofKind .identifier,
      .ofKind .rightParenthesis], isTermIn_abs isLeft isLambda rfl .empty
        (isTermIn_binder (.ofKind .identifier) rfl scope) rfl⟩
  obtain ⟨rfl, isBinder, rfl⟩ := of_token_done binderRead
  rw [List.length_cons] at enough
  rcases of_bind_stopped afterBinder with
    declarationStopped | ⟨_, _, _, declarationRead, afterDeclaration⟩
  · apply (declaration_completable declarationStopped).map
    rintro more ⟨declared, isDeclaration⟩
    refine ⟨more ++ [binder, .ofKind .rightParenthesis], ?_⟩
    simpa using isTermIn_abs isLeft isLambda isBinder isDeclaration
      (isTermIn_binder binder isBinder scope) rfl
  obtain ⟨declarationTokens, declared, rfl, isDeclaration, _⟩ :=
    declaration_sound declarationRead
  rw [List.length_append] at enough
  rcases of_bind_stopped afterDeclaration with
    bodyStopped | ⟨body, _, _, bodyRead, afterBody⟩
  · apply (terms _ _ _ _ _ (by omega) bodyStopped).map
    intro more isBody
    refine ⟨more ++ [.ofKind .rightParenthesis], ?_⟩
    simpa using isTermIn_abs isLeft isLambda isBinder isDeclaration isBody rfl
  obtain ⟨bodyTokens, named, rfl, isBody, resolved⟩ :=
    termWith_sound bodyRead
  rcases of_bind_stopped afterBody with
    rightStopped | ⟨_, _, _, _, afterRight⟩
  · apply of_expect_stopped rightStopped
    rintro rfl
    refine ⟨[.ofKind .rightParenthesis], ?_⟩
    simpa using isTermIn_abs isLeft isLambda isBinder isDeclaration
      (isTermIn_of_resolve isBody resolved) rfl
  · cases afterRight

theorem of_requireArgument_stopped
    {Whole : List Token -> Prop}
    (stopped : requireArgument source left function rest types =
      .stopped reason later) :
    Completable Whole tokens reason := by
  unfold requireArgument at stopped
  split at stopped
  next =>
      split at stopped
      next =>
          cases stopped
          exact .fault (by simp [ParseError.code])
      next => cases stopped
  next => cases stopped

/-- An application that has been begun can be completed. -/
theorem application_completable
    {left : Token}
    (isLeft : left.kind = .leftParenthesis)
    (terms : CompletesTerms stream fuel)
    (arguments : CompletesArguments stream fuel)
    (enough : 2 * tokens.length + 2 ≤ fuel + 1)
    (stopped : (do
      let function ← termWith stream fuel scope
      requireArgument stream.source left function
      argumentsWith stream fuel scope left function : Parser Term)
        tokens types = .stopped reason later) :
    Completable (IsTermIn scope) (left :: tokens) reason := by
  rcases of_bind_stopped stopped with
    functionStopped | ⟨function, _, _, functionRead, afterFunction⟩
  · apply (terms _ _ _ _ _ (by omega) functionStopped).map
    intro more isFunction
    refine ⟨more ++ (identityTokens ++ [.ofKind .rightParenthesis]), ?_⟩
    have completed :=
      (areArgumentsIn_identityTokens scope).isTermIn isLeft isFunction
    rwa [List.append_assoc] at completed
  obtain ⟨functionTokens, named, rfl, isFunction, resolved⟩ :=
    termWith_sound functionRead
  have positive := isFunction.length_pos
  rw [List.length_append] at enough
  rcases of_bind_stopped afterFunction with
    requireStopped | ⟨_, _, _, required, argumentsStopped⟩
  · exact of_requireArgument_stopped requireStopped
  obtain ⟨rfl, rfl, _⟩ := of_requireArgument_done required
  apply (arguments _ _ _ _ _ _ _ (by omega) argumentsStopped).map
  intro more areArguments
  refine ⟨more, ?_⟩
  have completed := areArguments.isTermIn isLeft
    (isTermIn_of_resolve isFunction resolved)
  rwa [← List.append_assoc, ← List.cons_append] at completed

theorem CompletesTerms.succ
    (terms : CompletesTerms stream fuel)
    (arguments : CompletesArguments stream fuel) :
    CompletesTerms stream (fuel + 1) := by
  intro tokens scope types later reason enough stopped
  rw [termWith] at stopped
  rcases of_bind_stopped stopped with
    kindStopped | ⟨kind, _, _, kindRead, afterKind⟩
  · cases kindStopped
  obtain ⟨isKind, rfl, rfl⟩ := of_nextKind_done kindRead
  split at afterKind
  next =>
      obtain ⟨name, rest, rfl, isName⟩ := of_head?_kind isKind
      rcases of_bind_stopped afterKind with
        nameStopped | ⟨_, _, _, nameRead, afterName⟩
      · exact of_expect_stopped nameStopped fun isNil =>
          absurd isNil (List.cons_ne_nil _ _)
      · obtain ⟨same, _, rfl⟩ := of_token_done nameRead
        cases same
        cases found : scope.index? name.lexeme with
        | some index =>
            rw [variableOf, found] at afterName
            cases afterName
        | none =>
            rw [variableOf, found] at afterName
            cases afterName
            exact .fault (ParseError.of_found? rfl).1
  next =>
      rcases of_bind_stopped afterKind with
        leftStopped | ⟨left, _, _, leftRead, afterLeft⟩
      · apply of_token_stopped leftStopped (fun _ => rfl)
        rintro rfl
        exact ⟨identityTokens, isTermIn_identityTokens scope⟩
      obtain ⟨rfl, isLeft, rfl⟩ := of_token_done leftRead
      rw [List.length_cons] at enough
      rcases of_bind_stopped afterLeft with
        lambdaStopped | ⟨accepted, _, _, lambdaRead, afterLambda⟩
      · exact (of_accept_stopped lambdaStopped).elim
      obtain ⟨rfl, ⟨rfl, lambda, rfl, isLambda⟩ | ⟨rfl, rfl⟩⟩ :=
        of_accept_done lambdaRead
      · rw [List.length_cons] at enough
        exact abstraction_completable isLeft isLambda terms (by omega)
          afterLambda
      · exact application_completable isLeft terms arguments (by omega)
          afterLambda

theorem CompletesArguments.succ
    (terms : CompletesTerms stream fuel)
    (arguments : CompletesArguments stream fuel) :
    CompletesArguments stream (fuel + 1) := by
  intro tokens scope types later left function reason enough stopped
  rw [argumentsWith] at stopped
  rcases of_bind_stopped stopped with
    kindStopped | ⟨kind, _, _, kindRead, afterKind⟩
  · cases kindStopped
  obtain ⟨isKind, rfl, rfl⟩ := of_nextKind_done kindRead
  split at afterKind
  next =>
      apply of_refuse_stopped afterKind (fun _ => rfl)
      rintro rfl
      exact ⟨_, areArgumentsIn_identityTokens scope⟩
  next =>
      obtain ⟨right, rest, rfl, isRight⟩ := of_head?_kind isKind
      rcases of_bind_stopped afterKind with
        rightStopped | ⟨_, _, _, _, afterRight⟩
      · exact of_expect_stopped rightStopped fun isNil =>
          absurd isNil (List.cons_ne_nil _ _)
      · cases afterRight
  next =>
      rcases of_bind_stopped afterKind with
        argumentStopped | ⟨argument, _, _, argumentRead, othersStopped⟩
      · apply (terms _ _ _ _ _ (by omega) argumentStopped).map
        intro more isFirst
        refine ⟨more ++ [.ofKind .rightParenthesis], ?_⟩
        rw [← List.append_assoc]
        exact .single isFirst rfl
      · obtain ⟨firstTokens, named, rfl, isFirst, resolved⟩ :=
          termWith_sound argumentRead
        have positive := isFirst.length_pos
        rw [List.length_append] at enough
        apply (arguments _ _ _ _ _ _ _ (by omega) othersStopped).map
        intro more areOthers
        refine ⟨more, ?_⟩
        rw [List.append_assoc]
        exact .cons (isTermIn_of_resolve isFirst resolved) areOthers

theorem completes_terms_and_arguments
    (stream : TokenStream)
    (fuel : Nat) :
    CompletesTerms stream fuel ∧ CompletesArguments stream fuel := by
  induction fuel with
  | zero =>
      constructor
      · intro tokens scope types later reason enough
        omega
      · intro tokens scope types later left function reason enough
        omega
  | succ fuel inductionHypothesis =>
      obtain ⟨terms, arguments⟩ := inductionHypothesis
      exact ⟨terms.succ arguments, CompletesArguments.succ terms arguments⟩

/-- An unfinished program can be completed. -/
theorem program_completable
    (stopped : program stream tokens types = .stopped reason later) :
    Completable (IsTermIn []) tokens reason := by
  unfold program at stopped
  rcases of_bind_stopped stopped with
    termStopped | ⟨_, rest, _, _, afterTerm⟩
  · refine (completes_terms_and_arguments stream _).1 _ _ _ _ _ ?_ termStopped
    rw [enoughFuel]
    omega
  · rcases of_bind_stopped afterTerm with
      endStopped | ⟨_, _, _, _, afterEnd⟩
    · cases rest with
      | nil => cases endStopped
      | cons token rest =>
          simp only [endOfInput] at endStopped
          split at endStopped
          next =>
              cases endStopped
              exact .lexical
          next =>
              cases endStopped
              exact .fault (ParseError.of_found? rfl).1
    · cases afterEnd

end Parser
end LambdaCalculus
