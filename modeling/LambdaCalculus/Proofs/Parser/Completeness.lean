import LambdaCalculus.Proofs.Parser.Grammar
import LambdaCalculus.Proofs.Term.Alike

/-!
# The parser reads what the grammar derives

Tokens that the grammar derives are read to their end, whatever stands behind
them, and with the fuel that the parser takes for them.  The proofs follow the
fuel, which falls at every level of the recursion.
-/

namespace LambdaCalculus
namespace Parser

/-! ## Primitive parsers -/

@[simp] theorem bind_apply
    (first : Parser Value)
    (next : Value -> Parser Other)
    (tokens : List Token)
    (types : TypePool) :
    (first >>= next) tokens types =
      match first tokens types with
      | .done value rest types => next value rest types
      | .stopped reason types => .stopped reason types :=
  rfl

@[simp] theorem pure_apply
    (value : Value)
    (tokens : List Token)
    (types : TypePool) :
    (pure value : Parser Value) tokens types = .done value tokens types :=
  rfl

@[simp] theorem nextKind_apply
    (tokens : List Token)
    (types : TypePool) :
    nextKind tokens types =
      .done (tokens.head?.map Token.kind) tokens types :=
  rfl

@[simp] theorem intern_apply
    (former : TypeFormer)
    (tokens : List Token)
    (types : TypePool) :
    intern former tokens types =
      .done (types.intern former).1 tokens (types.intern former).2 :=
  rfl

theorem token_of_kind
    {found : Token}
    (finish : Span)
    (expected : Text)
    (error : Token -> ParseError)
    (rest : List Token)
    (types : TypePool)
    (isKind : found.kind = kind) :
    token finish kind expected error (found :: rest) types =
      .done found rest types := by
  simp [token, isKind]

theorem expect_of_kind
    {found : Token}
    (finish : Span)
    (expected : Text)
    (rest : List Token)
    (types : TypePool)
    (isKind : found.kind = kind) :
    expect finish kind expected (found :: rest) types =
      .done found rest types :=
  token_of_kind finish expected (.expectedToken expected) rest types isKind

theorem accept_of_kind
    {found : Token}
    (rest : List Token)
    (types : TypePool)
    (isKind : found.kind = kind) :
    accept kind (found :: rest) types = .done true rest types := by
  simp [accept, isKind]

theorem accept_of_other
    (types : TypePool)
    (other : tokens.head?.map Token.kind ≠ some kind) :
    accept kind tokens types = .done false tokens types := by
  cases tokens with
  | nil => rfl
  | cons found rest =>
      have different : found.kind ≠ kind := by simpa using other
      simp [accept, different]

/-! ## Types -/

/-- With enough fuel, a type is read up to its end unless an arrow follows,
and an atom is read up to its end in any case. -/
theorem typeWith_complete
    (finish : Span)
    (fuel : Nat) :
    (∀ tokens tree rest types, Grammar.IsType tokens tree ->
      2 * tokens.length ≤ fuel ->
      rest.head?.map Token.kind ≠ some .arrow ->
      typeWith finish fuel (tokens ++ rest) types =
        .done (tree.number types).1 rest (tree.number types).2) ∧
    (∀ tokens tree rest types, Grammar.IsAtom tokens tree ->
      2 * tokens.length ≤ fuel + 1 ->
      atomWith finish fuel (tokens ++ rest) types =
        .done (tree.number types).1 rest (tree.number types).2) := by
  induction fuel with
  | zero =>
      constructor
      · intro tokens tree rest types isType enough
        have positive := isType.length_pos
        omega
      · intro tokens tree rest types isAtom enough
        have positive := isAtom.length_pos
        omega
  | succ fuel inductionHypothesis =>
      obtain ⟨typeHypothesis, atomHypothesis⟩ := inductionHypothesis
      constructor
      · intro tokens tree rest types isType enough noArrow
        cases isType with
        | atom isAtom =>
            have atomRead := atomHypothesis tokens tree rest types isAtom
              (by omega)
            simp [typeWith, atomRead, accept_of_other _ noArrow]
        | @arrow parameter result parameterTokens resultTokens arrow
            isParameter isArrow isResult =>
            simp only [List.length_append, List.length_cons] at enough
            have parameterRead := atomHypothesis parameterTokens parameter
              (arrow :: resultTokens ++ rest) types isParameter (by omega)
            have resultRead := typeHypothesis resultTokens result rest
              (parameter.number types).2 isResult (by omega) noArrow
            rw [List.cons_append] at parameterRead
            simp [typeWith, parameterRead, accept_of_kind _ _ isArrow,
              resultRead, TypeTree.number, TypePool.function]
      · intro tokens tree rest types isAtom enough
        cases isAtom with
        | name isName =>
            simp [atomWith, isName, token_of_kind _ _ _ _ _ isName,
              TypeTree.number, TypePool.base]
        | @group _ left right innerTokens isLeft inner isRight =>
            simp only [List.length_cons, List.length_append,
              List.length_nil] at enough
            have innerRead := typeHypothesis innerTokens tree
              (right :: rest) types inner (by omega) (by simp [isRight])
            simp [atomWith, isLeft, accept_of_kind _ _ isLeft, innerRead,
              expect_of_kind _ _ _ _ isRight]

/-- A type is read up to its end unless an arrow follows. -/
theorem type_complete
    (finish : Span)
    (types : TypePool)
    (rest : List Token)
    (isType : Grammar.IsType tokens tree)
    (noArrow : rest.head?.map Token.kind ≠ some .arrow) :
    type finish (tokens ++ rest) types =
      .done (tree.number types).1 rest (tree.number types).2 := by
  apply (typeWith_complete finish _).1 tokens tree rest types isType _ noArrow
  simp only [enoughFuel, List.length_append]
  omega

/-- A declaration is read up to its end in front of a body. -/
theorem declaration_complete
    {first : Token}
    (finish : Span)
    (types : TypePool)
    (rest : List Token)
    (isDeclaration : Grammar.IsDeclaration tokens declared)
    (startsTerm : first.kind = .identifier ∨ first.kind = .leftParenthesis) :
    declaration finish (tokens ++ first :: rest) types =
      .done (NamedTerm.numberDeclared declared types).1 (first :: rest)
        (NamedTerm.numberDeclared declared types).2 := by
  have noColon : first.kind ≠ .colon :=
    Grammar.kind_ne_of_startsTerm startsTerm (by decide)
  have noDot : first.kind ≠ .dot :=
    Grammar.kind_ne_of_startsTerm startsTerm (by decide)
  cases isDeclaration with
  | empty =>
      simp [declaration, accept, noColon, noDot, NamedTerm.numberDeclared]
  | dot isDot =>
      simp [declaration, accept, isDot, NamedTerm.numberDeclared]
  | @declared tree colon dot typeTokens isColon isType isDot =>
      have typeRead := type_complete finish types (dot :: first :: rest)
        isType (by simp [isDot])
      simp [declaration, accept_of_kind _ _ isColon, typeRead,
        expect_of_kind _ _ _ _ isDot, NamedTerm.numberDeclared]

/-! ## Terms -/

/-- With so much fuel, every term that is no longer than the fuel and whose
names are in scope is read up to its end. -/
def ReadsTerms
    (stream : TokenStream)
    (fuel : Nat) : Prop :=
  ∀ (tokens : List Token) (named : NamedTerm) (rest : List Token)
      (scope : Scope) (types : TypePool) (term : Term) (later : TypePool),
    Grammar.IsTerm tokens named ->
    named.resolve scope types = some (term, later) ->
    tokens.length ≤ fuel ->
    ∃ read,
      termWith stream fuel scope (tokens ++ rest) types =
        .done read rest later ∧
      read.withoutSpans = term

/-- With so much fuel, further arguments of a function that has been read are
read up to the right parenthesis behind them. -/
def ReadsArguments
    (stream : TokenStream)
    (fuel : Nat) : Prop :=
  ∀ (tokens : List Token) (arguments : List NamedTerm) (right : Token)
      (rest : List Token) (scope : Scope) (start types : TypePool)
      (left : Token) (function : Term) (named : NamedTerm) (term : Term)
      (later : TypePool),
    Grammar.AreTerms tokens arguments ->
    right.kind = .rightParenthesis ->
    named.resolve scope start = some (function.withoutSpans, types) ->
    (arguments.foldl .app named).resolve scope start = some (term, later) ->
    tokens.length + 1 ≤ fuel ->
    ∃ read,
      argumentsWith stream fuel scope left function
          (tokens ++ right :: rest) types =
        .done read rest later ∧
      read.withoutSpans = term

/-- A function is not missing its argument in front of one. -/
theorem requireArgument_of_terms
    (source : Text)
    (left : Token)
    (function : Term)
    (rest : List Token)
    (types : TypePool)
    (areTerms : Grammar.AreTerms tokens terms)
    (nonempty : terms ≠ []) :
    requireArgument source left function (tokens ++ rest) types =
      .done () (tokens ++ rest) types := by
  cases areTerms with
  | nil => exact absurd rfl nonempty
  | cons isTerm areTerms =>
      obtain ⟨token, others, rfl, startsTerm⟩ := isTerm.first
      have notRight : token.kind ≠ .rightParenthesis :=
        Grammar.kind_ne_of_startsTerm startsTerm (by decide)
      simp [requireArgument, notRight]

theorem ReadsTerms.succ
    (terms : ReadsTerms stream fuel)
    (arguments : ReadsArguments stream fuel) :
    ReadsTerms stream (fuel + 1) := by
  intro tokens named rest scope types term later isTerm resolved enough
  cases isTerm with
  | @name token isName =>
      simp only [NamedTerm.resolve, Option.map_eq_some_iff,
        Prod.mk.injEq] at resolved
      obtain ⟨index, found, rfl, rfl⟩ := resolved
      refine ⟨.var token.span index, ?_, rfl⟩
      simp [termWith, isName, expect_of_kind _ _ _ _ isName,
        variableOf, found]
  | @abs declared body left lambda binder right declarationTokens
      bodyTokens isLeft isLambda isBinder isDeclaration isBody isRight =>
      simp only [NamedTerm.resolve, Option.map_eq_some_iff,
        Prod.mk.injEq] at resolved
      obtain ⟨⟨bodyTerm, _⟩, bodyResolved, rfl, rfl⟩ := resolved
      simp only [List.length_append, List.length_cons,
        List.length_nil] at enough
      obtain ⟨readBody, bodyRead, sameBody⟩ := terms bodyTokens body
        (right :: rest) (scope.extend binder.lexeme) _ bodyTerm _ isBody
        bodyResolved (by omega)
      obtain ⟨first, others, rfl, startsTerm⟩ := isBody.first
      have declarationRead := declaration_complete stream.finish types
        (others ++ right :: rest) isDeclaration startsTerm
      rw [List.cons_append] at bodyRead
      refine ⟨.abs (left.span.join right.span)
        (NamedTerm.numberDeclared declared types).1 readBody, ?_, ?_⟩
      · simp [termWith, isLeft, token_of_kind _ _ _ _ _ isLeft,
          accept_of_kind _ _ isLambda, token_of_kind _ _ _ _ _ isBinder,
          declarationRead, bodyRead, expect_of_kind _ _ _ _ isRight]
      · simp [sameBody]
  | @app function operands left right functionTokens argumentTokens
      isLeft isFunction areArguments nonempty isRight =>
      obtain ⟨⟨functionTerm, middle⟩, functionResolved⟩ :=
        NamedTerm.exists_resolve_of_foldl operands function resolved
      simp only [List.length_append, List.length_cons,
        List.length_nil] at enough
      obtain ⟨readFunction, functionRead, rfl⟩ := terms functionTokens
        function (argumentTokens ++ right :: rest) scope types functionTerm
        middle isFunction functionResolved (by omega)
      obtain ⟨read, argumentsRead, same⟩ := arguments argumentTokens operands
        right rest scope types middle left readFunction function term later
        areArguments isRight functionResolved resolved
        (by have positive := isFunction.length_pos; omega)
      have argumentFollows := requireArgument_of_terms stream.source left
        readFunction (right :: rest) middle areArguments nonempty
      have noLambda := isFunction.head?_ne_lambda
        (argumentTokens ++ right :: rest)
      refine ⟨read, ?_, same⟩
      simp [termWith, isLeft, token_of_kind _ _ _ _ _ isLeft,
        accept_of_other _ noLambda, functionRead, argumentFollows,
        argumentsRead]

theorem ReadsArguments.succ
    (terms : ReadsTerms stream fuel)
    (arguments : ReadsArguments stream fuel) :
    ReadsArguments stream (fuel + 1) := by
  intro tokens operands right rest scope start types left function
    named term later areTerms isRight functionResolved resolved enough
  cases areTerms with
  | nil =>
      rw [List.foldl_nil, functionResolved, Option.some.injEq,
        Prod.mk.injEq] at resolved
      obtain ⟨rfl, rfl⟩ := resolved
      refine ⟨function.withSpan (left.span.join right.span), ?_,
        Term.withoutSpans_withSpan _ function⟩
      simp [argumentsWith, isRight, expect_of_kind _ _ _ _ isRight]
  | @cons first others firstTokens otherTokens isTerm areTerms =>
      obtain ⟨⟨applied, middle⟩, appliedResolved⟩ :=
        NamedTerm.exists_resolve_of_foldl others (.app named first) resolved
      have operandResolved := appliedResolved
      simp only [NamedTerm.resolve, functionResolved, Option.bind_some,
        Option.map_eq_some_iff, Prod.mk.injEq] at operandResolved
      obtain ⟨⟨operand, _⟩, firstResolved, rfl, rfl⟩ := operandResolved
      simp only [List.length_append] at enough
      have positive := isTerm.length_pos
      obtain ⟨readFirst, firstRead, rfl⟩ := terms firstTokens first
        (otherTokens ++ right :: rest) scope types operand _ isTerm
        firstResolved (by omega)
      obtain ⟨read, othersRead, same⟩ := arguments otherTokens others right
        rest scope start _ left
        (.app (left.span.join readFirst.span) function readFirst)
        (.app named first) term later areTerms isRight appliedResolved
        resolved (by omega)
      obtain ⟨token, further, rfl, startsTerm⟩ := isTerm.first
      have notRight : token.kind ≠ .rightParenthesis :=
        Grammar.kind_ne_of_startsTerm startsTerm (by decide)
      refine ⟨read, ?_, same⟩
      simp only [List.cons_append, List.append_assoc] at firstRead ⊢
      simp [argumentsWith, firstRead, othersRead]

theorem reads_terms_and_arguments
    (stream : TokenStream)
    (fuel : Nat) :
    ReadsTerms stream fuel ∧ ReadsArguments stream fuel := by
  induction fuel with
  | zero =>
      constructor
      · intro tokens named rest scope types term later isTerm _ enough
        have positive := isTerm.length_pos
        omega
      · intro tokens arguments right rest scope start types left function
          named term later _ _ _ _ enough
        omega
  | succ fuel inductionHypothesis =>
      obtain ⟨terms, arguments⟩ := inductionHypothesis
      exact ⟨terms.succ arguments, ReadsArguments.succ terms arguments⟩

/-- A program that the grammar derives and whose names are all bound is read
as the term that it stands for. -/
theorem program_complete
    (stream : TokenStream)
    (isTerm : Grammar.IsTerm tokens named)
    (resolved : named.resolve [] types = some (term, later)) :
    ∃ read,
      program stream tokens types = .done read [] later ∧
      read.withoutSpans = term := by
  obtain ⟨read, termRead, same⟩ :=
    (reads_terms_and_arguments stream (enoughFuel tokens)).1 tokens named []
      [] types term later isTerm resolved (by simp only [enoughFuel]; omega)
  rw [List.append_nil] at termRead
  refine ⟨read, ?_, same⟩
  unfold program
  change andThen (fun tokens types =>
    termWith stream (enoughFuel tokens) [] tokens types) _ tokens types = _
  simp only [andThen]
  rw [termRead]
  simp [endOfInput]

end Parser

/-- A valid text whose tokens the grammar derives is parsed without any
diagnostic. -/
theorem parse_complete
    (file : Nat)
    (known : Diagnostics)
    (valid : Text.firstInvalid? source = none)
    (isTerm : Grammar.IsTerm (Token.scan file 0 source) named)
    (resolved : named.resolve [] types = some (term, later))
    (trusted : Diagnostics.hasCode known .invalidUtf8 = false) :
    ∃ read,
      parse file source types known = ⟨some read, later, []⟩ ∧
      read.withoutSpans = term := by
  obtain ⟨read, programRead, same⟩ := Parser.program_complete
    ⟨source, Token.scan file 0 source, ⟨file, source.length, source.length⟩⟩
    isTerm resolved
  have noErrors : (Token.scan file 0 source).filter
      (fun token => token.kind == .error) = [] := by
    rw [List.filter_eq_nil_iff]
    intro token member
    simpa using isTerm.noErrors token member
  refine ⟨read, ?_, same⟩
  simp [parse, lex, valid, noErrors, Lexed.parse, trusted, programRead]

end LambdaCalculus
