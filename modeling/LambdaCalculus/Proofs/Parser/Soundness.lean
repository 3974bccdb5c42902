import LambdaCalculus.Proofs.Parser.Completeness
import LambdaCalculus.Proofs.Parser.Reading

/-!
# The grammar derives what the parser reads

When a parser gives a value, the tokens that it took from the front of its
input are derived by the grammar, and the value is the one that they stand for,
with the spans that its nodes are given on the way.
The proofs follow the fuel, and within one level they take a parser apart into
the parsers that it runs one after another.
-/

namespace LambdaCalculus
namespace Parser

/-! ## Primitive parsers -/

/-- A sequence of parsers gives a value if the first one does and then the
second one, on the tokens that the first one leaves. -/
theorem of_bind_done
    {first : Parser Value}
    {next : Value -> Parser Other}
    {outcome : Other}
    (read : (first >>= next) tokens types = .done outcome rest later) :
    ∃ value middle between, first tokens types = .done value middle between ∧
      next value middle between = .done outcome rest later := by
  rw [bind_apply] at read
  split at read
  next value middle between firstRead =>
      exact ⟨value, middle, between, firstRead, read⟩
  next => cases read

theorem of_nextKind_done
    (read : nextKind tokens types = .done kind rest later) :
    tokens.head?.map Token.kind = kind ∧ rest = tokens ∧ later = types := by
  rw [nextKind_apply] at read
  cases read
  exact ⟨rfl, rfl, rfl⟩

theorem of_refuse_done
    {value : Value}
    (read : refuse finish expected error tokens types =
      .done value rest later) :
    False := by
  unfold refuse at read
  split at read
  · cases read
  · split at read <;> cases read

theorem of_token_done
    (read : token finish kind expected error tokens types =
      .done found rest later) :
    tokens = found :: rest ∧ found.kind = kind ∧ later = types := by
  unfold token at read
  split at read
  · split at read
    next isKind =>
        cases read
        exact ⟨rfl, isKind, rfl⟩
    next => exact (of_refuse_done read).elim
  · exact (of_refuse_done read).elim

theorem of_accept_done
    (read : accept kind tokens types = .done accepted rest later) :
    later = types ∧
      (accepted = true ∧ (∃ found, tokens = found :: rest ∧ found.kind = kind) ∨
        accepted = false ∧ tokens = rest) := by
  unfold accept at read
  split at read
  · split at read
    next isKind =>
        cases read
        exact ⟨rfl, Or.inl ⟨rfl, _, rfl, isKind⟩⟩
    next =>
        cases read
        exact ⟨rfl, Or.inr ⟨rfl, rfl⟩⟩
  · cases read
    exact ⟨rfl, Or.inr ⟨rfl, rfl⟩⟩

theorem of_head?_kind
    {tokens : List Token}
    (isKind : tokens.head?.map Token.kind = some kind) :
    ∃ found rest, tokens = found :: rest ∧ found.kind = kind := by
  cases tokens with
  | nil => cases isKind
  | cons found rest => exact ⟨found, rest, rfl, Option.some.inj isKind⟩

/-! ## Types -/

/-- With so much fuel, what is read as a type is one, and it is numbered. -/
def DerivesTypes
    (finish : Span)
    (fuel : Nat) : Prop :=
  ∀ (tokens rest : List Token) (types later : TypePool) (number : TypeId),
    typeWith finish fuel tokens types = .done number rest later ->
    ∃ consumed tree, tokens = consumed ++ rest ∧
      Grammar.IsType consumed tree ∧ tree.number types = (number, later)

/-- With so much fuel, what is read as an atom is one, and it is numbered. -/
def DerivesAtoms
    (finish : Span)
    (fuel : Nat) : Prop :=
  ∀ (tokens rest : List Token) (types later : TypePool) (number : TypeId),
    atomWith finish fuel tokens types = .done number rest later ->
    ∃ consumed tree, tokens = consumed ++ rest ∧
      Grammar.IsAtom consumed tree ∧ tree.number types = (number, later)

theorem DerivesTypes.succ
    (typesDerived : DerivesTypes finish fuel)
    (atomsDerived : DerivesAtoms finish fuel) :
    DerivesTypes finish (fuel + 1) := by
  intro tokens rest types later number read
  rw [typeWith] at read
  obtain ⟨parameter, _, _, atomRead, afterAtom⟩ := of_bind_done read
  obtain ⟨parameterTokens, parameterTree, rfl, isParameter, numbered⟩ :=
    atomsDerived _ _ _ _ _ atomRead
  obtain ⟨accepted, _, _, arrowRead, afterArrow⟩ := of_bind_done afterAtom
  obtain ⟨rfl, ⟨rfl, arrow, rfl, isArrow⟩ | ⟨rfl, rfl⟩⟩ :=
    of_accept_done arrowRead
  · obtain ⟨result, _, _, resultRead, afterResult⟩ := of_bind_done afterArrow
    obtain ⟨resultTokens, resultTree, rfl, isResult, resultNumbered⟩ :=
      typesDerived _ _ _ _ _ resultRead
    cases afterResult
    refine ⟨parameterTokens ++ arrow :: resultTokens,
      .arrow parameterTree resultTree, ?_,
      .arrow isParameter isArrow isResult, ?_⟩
    · rw [List.append_assoc, List.cons_append]
    · simp only [TypeTree.number, numbered, resultNumbered]
      rfl
  · cases afterArrow
    exact ⟨parameterTokens, parameterTree, rfl, .atom isParameter, numbered⟩

theorem DerivesAtoms.succ
    (typesDerived : DerivesTypes finish fuel) :
    DerivesAtoms finish (fuel + 1) := by
  intro tokens rest types later number read
  rw [atomWith] at read
  obtain ⟨kind, _, _, kindRead, afterKind⟩ := of_bind_done read
  obtain ⟨isKind, rfl, rfl⟩ := of_nextKind_done kindRead
  split at afterKind
  next =>
      obtain ⟨left, behindLeft, rfl, isLeft⟩ := of_head?_kind isKind
      obtain ⟨_, _, _, leftRead, afterLeft⟩ := of_bind_done afterKind
      rw [accept_of_kind _ _ isLeft] at leftRead
      cases leftRead
      obtain ⟨inner, _, _, innerRead, afterInner⟩ := of_bind_done afterLeft
      obtain ⟨innerTokens, tree, rfl, isInner, numbered⟩ :=
        typesDerived _ _ _ _ _ innerRead
      obtain ⟨right, _, _, rightRead, afterRight⟩ := of_bind_done afterInner
      obtain ⟨rfl, isRight, rfl⟩ := of_token_done rightRead
      cases afterRight
      refine ⟨left :: (innerTokens ++ [right]), tree, ?_,
        .group isLeft isInner isRight, numbered⟩
      simp
  next =>
      obtain ⟨name, _, _, nameRead, afterName⟩ := of_bind_done afterKind
      obtain ⟨rfl, isName, rfl⟩ := of_token_done nameRead
      cases afterName
      exact ⟨[name], .base name.lexeme, rfl, .name isName, rfl⟩

theorem derives_types_and_atoms
    (finish : Span)
    (fuel : Nat) :
    DerivesTypes finish fuel ∧ DerivesAtoms finish fuel := by
  induction fuel with
  | zero =>
      constructor
      · intro tokens rest types later number read
        cases read
      · intro tokens rest types later number read
        cases read
  | succ fuel inductionHypothesis =>
      obtain ⟨typesDerived, atomsDerived⟩ := inductionHypothesis
      exact ⟨typesDerived.succ atomsDerived, DerivesAtoms.succ typesDerived⟩

/-- What is read as a declaration is one, and its type is numbered. -/
theorem declaration_sound
    (read : declaration finish tokens types = .done number rest later) :
    ∃ consumed declared, tokens = consumed ++ rest ∧
      Grammar.IsDeclaration consumed declared ∧
      NamedTerm.numberDeclared declared types = (number, later) := by
  unfold declaration at read
  obtain ⟨accepted, _, _, colonRead, afterColon⟩ := of_bind_done read
  obtain ⟨rfl, ⟨rfl, colon, rfl, isColon⟩ | ⟨rfl, rfl⟩⟩ :=
    of_accept_done colonRead
  · obtain ⟨declared, _, _, typeRead, afterType⟩ := of_bind_done afterColon
    obtain ⟨typeTokens, tree, rfl, isType, numbered⟩ :=
      (derives_types_and_atoms finish _).1 _ _ _ _ _ typeRead
    obtain ⟨dot, _, _, dotRead, afterDot⟩ := of_bind_done afterType
    obtain ⟨rfl, isDot, rfl⟩ := of_token_done dotRead
    cases afterDot
    refine ⟨colon :: (typeTokens ++ [dot]), some tree, ?_,
      .declared isColon isType isDot, ?_⟩
    · simp
    · rw [NamedTerm.numberDeclared, numbered]
  · obtain ⟨accepted, _, _, dotRead, afterDot⟩ := of_bind_done afterColon
    cases afterDot
    obtain ⟨rfl, ⟨rfl, dot, rfl, isDot⟩ | ⟨rfl, rfl⟩⟩ := of_accept_done dotRead
    · exact ⟨[dot], none, rfl, .dot isDot, rfl⟩
    · exact ⟨[], none, rfl, .empty, rfl⟩

/-! ## Terms -/

/-- With so much fuel, what is read as a term is one, and it stands for the
term that is given. -/
def DerivesTerms
    (stream : TokenStream)
    (fuel : Nat) : Prop :=
  ∀ (tokens rest : List Token) (scope : Scope) (types later : TypePool)
      (read : Term),
    termWith stream fuel scope tokens types = .done read rest later ->
    ∃ consumed named, tokens = consumed ++ rest ∧
      Grammar.Reads true consumed named read ∧
      named.resolve scope types = some (read.withoutSpans, later)

/-- The function is unclosed, or the next token does not close it. -/
def ReadyForArguments
    (left : Token)
    (front : List Token)
    (named : NamedTerm)
    (function : Term)
    (tokens : List Token) : Prop :=
  Grammar.Reads false (left :: front) named function ∨
    Grammar.ReadsFunction left front named function ∧
      tokens.head?.map Token.kind ≠ some .rightParenthesis

/-- With so much fuel, what is read as further arguments of a function is, with
the function in front of it, an application that stands for the term that is
given. -/
def DerivesArguments
    (stream : TokenStream)
    (fuel : Nat) : Prop :=
  ∀ (front tokens rest : List Token) (scope : Scope)
      (start types later : TypePool) (left : Token) (function read : Term)
      (named : NamedTerm),
    ReadyForArguments left front named function tokens ->
    named.resolve scope start = some (function.withoutSpans, types) ->
    argumentsWith stream fuel scope left function tokens types =
      .done read rest later ->
    ∃ consumed whole, tokens = consumed ++ rest ∧
      Grammar.Reads true (left :: (front ++ consumed)) whole read ∧
      whole.resolve scope start = some (read.withoutSpans, later)

theorem of_requireArgument_done
    (read : requireArgument source left function tokens types =
      .done value rest later) :
    tokens = rest ∧ later = types ∧
      tokens.head?.map Token.kind ≠ some .rightParenthesis := by
  unfold requireArgument at read
  split at read
  · split at read
    next => cases read
    next isOther =>
        cases read
        refine ⟨rfl, rfl, ?_⟩
        simpa using isOther
  · cases read
    exact ⟨rfl, rfl, nofun⟩

theorem DerivesTerms.succ
    (terms : DerivesTerms stream fuel)
    (arguments : DerivesArguments stream fuel) :
    DerivesTerms stream (fuel + 1) := by
  intro tokens rest scope types later read termRead
  rw [termWith] at termRead
  obtain ⟨kind, _, _, kindRead, afterKind⟩ := of_bind_done termRead
  obtain ⟨_, rfl, rfl⟩ := of_nextKind_done kindRead
  split at afterKind
  next =>
      obtain ⟨name, _, _, nameRead, afterName⟩ := of_bind_done afterKind
      obtain ⟨rfl, isName, rfl⟩ := of_token_done nameRead
      cases found : scope.index? name.lexeme with
      | none =>
          rw [variableOf, found] at afterName
          cases afterName
      | some index =>
          rw [variableOf, found] at afterName
          cases afterName
          refine ⟨[name], .var name.lexeme, rfl, .name isName index, ?_⟩
          rw [NamedTerm.resolve, found]
          rfl
  next =>
      obtain ⟨left, _, _, leftRead, afterLeft⟩ := of_bind_done afterKind
      obtain ⟨rfl, isLeft, rfl⟩ := of_token_done leftRead
      obtain ⟨accepted, _, _, lambdaRead, afterLambda⟩ :=
        of_bind_done afterLeft
      obtain ⟨rfl, ⟨rfl, lambda, rfl, isLambda⟩ | ⟨rfl, rfl⟩⟩ :=
        of_accept_done lambdaRead
      · obtain ⟨binder, _, _, binderRead, afterBinder⟩ :=
          of_bind_done afterLambda
        obtain ⟨rfl, isBinder, rfl⟩ := of_token_done binderRead
        obtain ⟨number, _, _, declarationRead, afterDeclaration⟩ :=
          of_bind_done afterBinder
        obtain ⟨declarationTokens, declared, rfl, isDeclaration, numbered⟩ :=
          declaration_sound declarationRead
        obtain ⟨body, _, _, bodyRead, afterBody⟩ :=
          of_bind_done afterDeclaration
        obtain ⟨bodyTokens, namedBody, rfl, readsBody, bodyResolved⟩ :=
          terms _ _ _ _ _ _ bodyRead
        obtain ⟨right, _, _, rightRead, afterRight⟩ := of_bind_done afterBody
        obtain ⟨rfl, isRight, rfl⟩ := of_token_done rightRead
        cases afterRight
        refine ⟨_, _, ?_, .abs isLeft isLambda isBinder isDeclaration number
          readsBody isRight, ?_⟩
        · simp
        · rw [NamedTerm.resolve, numbered, bodyResolved]
          rfl
      · obtain ⟨function, _, _, functionRead, afterFunction⟩ :=
          of_bind_done afterLambda
        obtain ⟨functionTokens, namedFunction, rfl, readsFunction, resolved⟩ :=
          terms _ _ _ _ _ _ functionRead
        obtain ⟨_, _, _, required, argumentsRead⟩ := of_bind_done afterFunction
        obtain ⟨rfl, rfl, notRight⟩ := of_requireArgument_done required
        obtain ⟨consumed, whole, rfl, reads, wholeResolved⟩ :=
          arguments _ _ _ _ _ _ _ _ _ _ _
            (Or.inr ⟨Or.inl ⟨isLeft, readsFunction⟩, notRight⟩) resolved
            argumentsRead
        exact ⟨left :: (functionTokens ++ consumed), whole, by simp, reads,
          wholeResolved⟩

/-- One more level of fuel for arguments.  A parenthesis is closed behind the
function only if it has been given an argument. -/
theorem DerivesArguments.succ
    (terms : DerivesTerms stream fuel)
    (arguments : DerivesArguments stream fuel) :
    DerivesArguments stream (fuel + 1) := by
  intro front tokens rest scope start types later left function read named
    ready resolved argumentsRead
  rw [argumentsWith] at argumentsRead
  obtain ⟨kind, _, _, kindRead, afterKind⟩ := of_bind_done argumentsRead
  obtain ⟨_, rfl, rfl⟩ := of_nextKind_done kindRead
  split at afterKind
  next => exact (of_refuse_done afterKind).elim
  next =>
      obtain ⟨right, _, _, rightRead, afterRight⟩ := of_bind_done afterKind
      obtain ⟨rfl, isRight, rfl⟩ := of_token_done rightRead
      cases afterRight
      rcases ready with unclosed | ⟨_, notRight⟩
      · refine ⟨[right], named, rfl, .close unclosed isRight, ?_⟩
        rw [resolved, Term.withoutSpans_withSpan]
      · exact (notRight (congrArg some isRight)).elim
  next =>
      obtain ⟨argument, _, between, argumentRead, othersRead⟩ :=
        of_bind_done afterKind
      obtain ⟨firstTokens, first, rfl, readsFirst, firstResolved⟩ :=
        terms _ _ _ _ _ _ argumentRead
      have readsFunction : Grammar.ReadsFunction left front named function :=
        ready.elim Or.inr And.left
      have appliedResolved : (NamedTerm.app named first).resolve scope start =
          some ((Term.app (left.span.join argument.span) function
            argument).withoutSpans, between) := by
        simp only [NamedTerm.resolve, resolved, Option.bind_some,
          firstResolved, Option.map_some, Term.withoutSpans_app]
      obtain ⟨otherTokens, whole, rfl, reads, wholeResolved⟩ :=
        arguments _ _ _ _ _ _ _ _ _ _ _
          (Or.inl (readsFunction.apply readsFirst)) appliedResolved othersRead
      refine ⟨firstTokens ++ otherTokens, whole, ?_, ?_, wholeResolved⟩
      · rw [List.append_assoc]
      · rwa [← List.append_assoc]

theorem derives_terms_and_arguments
    (stream : TokenStream)
    (fuel : Nat) :
    DerivesTerms stream fuel ∧ DerivesArguments stream fuel := by
  induction fuel with
  | zero =>
      constructor
      · intro tokens rest scope types later read termRead
        cases termRead
      · intro front tokens rest scope start types later left function read
          named ready resolved argumentsRead
        cases argumentsRead
  | succ fuel inductionHypothesis =>
      obtain ⟨terms, arguments⟩ := inductionHypothesis
      exact ⟨terms.succ arguments, DerivesArguments.succ terms arguments⟩

/-- What is read as a term is one, and it stands for the term that is given. -/
theorem termWith_sound
    (read : termWith stream fuel scope tokens types = .done term rest later) :
    ∃ consumed named, tokens = consumed ++ rest ∧
      Grammar.IsTerm consumed named ∧
      named.resolve scope types = some (term.withoutSpans, later) := by
  obtain ⟨consumed, named, split, reads, resolved⟩ :=
    (derives_terms_and_arguments stream fuel).1 _ _ _ _ _ _ read
  exact ⟨consumed, named, split, reads.isTerm, resolved⟩

/-- What is read as a program is read as a whole, and its names are bound. -/
theorem program_reads
    (read : program stream tokens types = .done term rest later) :
    ∃ named, Grammar.Reads true tokens named term ∧
      named.resolve [] types = some (term.withoutSpans, later) := by
  unfold program at read
  obtain ⟨whole, _, _, wholeRead, afterTerm⟩ := of_bind_done read
  obtain ⟨consumed, named, rfl, reads, resolved⟩ :=
    (derives_terms_and_arguments stream _).1 _ _ _ _ _ _ wholeRead
  obtain ⟨_, _, _, ended, afterEnd⟩ := of_bind_done afterTerm
  cases afterEnd
  unfold endOfInput at ended
  split at ended
  · cases ended
    rw [List.append_nil]
    exact ⟨named, reads, resolved⟩
  · split at ended <;> cases ended

/-- What is read as a program is derived by the grammar as a whole, and its
names are bound. -/
theorem program_sound
    (read : program stream tokens types = .done term rest later) :
    ∃ named, Grammar.IsTerm tokens named ∧
      named.resolve [] types = some (term.withoutSpans, later) := by
  obtain ⟨named, reads, resolved⟩ := program_reads read
  exact ⟨named, reads.isTerm, resolved⟩

end Parser
end LambdaCalculus
