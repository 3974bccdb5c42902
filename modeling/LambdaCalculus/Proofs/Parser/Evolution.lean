import LambdaCalculus.Proofs.Parser.Completeness
import LambdaCalculus.Proofs.Types.Evolution

/-!
# Parsing evolves the pool

Whatever a parser reads and however it ends, it numbers types one after another,
and both parts of a function type before it.  This is shown once for a sequence
of parsers; each parser is then taken apart into the parsers that it runs.
-/

namespace LambdaCalculus

/-- However the parser has ended, the pool has evolved; a value that was read
fits the pool reached. -/
inductive Parsed.EvolvedFrom
    (types : TypePool)
    (fits : Value -> TypePool -> Prop) : Parsed Value -> Prop
  | done
      {value : Value}
      {later : TypePool}
      (rest : List Token)
      (evolves : types.EvolvesTo later)
      (fit : fits value later) :
      EvolvedFrom types fits (.done value rest later)
  | stopped
      {later : TypePool}
      (reason : Stop)
      (evolves : types.EvolvesTo later) :
      EvolvedFrom types fits (.stopped reason later)

namespace Parser

/-- From this pool on the parser numbers types one after another, and the value
that it reads fits the pool that it reaches. -/
def Evolves
    (types : TypePool)
    (fits : Value -> TypePool -> Prop)
    (parser : Parser Value) : Prop :=
  ∀ tokens, (parser tokens types).EvolvedFrom types fits

/-- The number has been given out. -/
def FitsNumber
    (number : TypeId)
    (types : TypePool) : Prop :=
  types.isValid number = true

/-- Nothing is asked of the value. -/
def FitsAny
    (_ : Value)
    (_ : TypePool) : Prop :=
  True

namespace Evolves

theorem bind
    {first : Parser Value}
    {next : Value -> Parser Other}
    {fits : Value -> TypePool -> Prop}
    {nextFits : Other -> TypePool -> Prop}
    (evolves : Evolves types fits first)
    (nextEvolves : ∀ value between, types.EvolvesTo between ->
      fits value between -> Evolves between nextFits (next value)) :
    Evolves types nextFits (first >>= next) := by
  intro tokens
  rw [bind_apply]
  have ended := evolves tokens
  cases read : first tokens types with
  | stopped reason between =>
      rw [read] at ended
      cases ended with
      | stopped _ evolved => exact .stopped reason evolved
  | done value rest between =>
      rw [read] at ended
      cases ended with
      | done _ evolved fit =>
          have nextEnded := nextEvolves value between evolved fit rest
          revert nextEnded
          simp only
          cases next value rest between with
          | stopped reason later =>
              rintro (_ | ⟨_, evolvedMore⟩)
              exact .stopped reason (evolved.trans evolvedMore)
          | done other more later =>
              rintro (⟨_, evolvedMore, otherFit⟩ | _)
              exact .done more (evolved.trans evolvedMore) otherFit

theorem pure
    {value : Value}
    {fits : Value -> TypePool -> Prop}
    (fit : fits value types) :
    Evolves types fits (Pure.pure value) :=
  fun tokens => .done tokens (TypePool.EvolvesTo.refl types) fit

theorem stop
    {fits : Value -> TypePool -> Prop}
    (reason : Stop) :
    Evolves types fits (Parser.stop reason) :=
  fun _ => .stopped reason (TypePool.EvolvesTo.refl types)

/-! ## Parsers that number no type -/

variable {types : TypePool}

theorem nextKind : Evolves types FitsAny nextKind :=
  fun tokens => .done tokens (TypePool.EvolvesTo.refl types) trivial

theorem refuse
    {fits : Value -> TypePool -> Prop} :
    Evolves types fits (refuse finish expected error) := by
  intro tokens
  unfold Parser.refuse
  split
  next => exact .stopped _ (TypePool.EvolvesTo.refl types)
  next => split <;> exact .stopped _ (TypePool.EvolvesTo.refl types)

theorem token : Evolves types FitsAny (token finish kind expected error) := by
  intro tokens
  unfold Parser.token
  split
  next =>
      split
      next => exact .done _ (TypePool.EvolvesTo.refl types) trivial
      next => exact refuse _
  next => exact refuse _

theorem expect : Evolves types FitsAny (expect finish kind expected) :=
  token

theorem accept : Evolves types FitsAny (accept kind) := by
  intro tokens
  unfold Parser.accept
  split
  next => split <;> exact .done _ (TypePool.EvolvesTo.refl types) trivial
  next => exact .done _ (TypePool.EvolvesTo.refl types) trivial

theorem requireArgument :
    Evolves types FitsAny (requireArgument source left function) := by
  intro tokens
  unfold Parser.requireArgument
  split
  next =>
      split
      next => exact .stopped _ (TypePool.EvolvesTo.refl types)
      next => exact .done _ (TypePool.EvolvesTo.refl types) trivial
  next => exact .done _ (TypePool.EvolvesTo.refl types) trivial

theorem variableOf : Evolves types FitsAny (variableOf scope name) := by
  unfold Parser.variableOf
  split
  next => exact pure trivial
  next => exact stop _

theorem endOfInput : Evolves types FitsAny endOfInput := by
  intro tokens
  unfold Parser.endOfInput
  split
  next => exact .done _ (TypePool.EvolvesTo.refl types) trivial
  next => split <;> exact .stopped _ (TypePool.EvolvesTo.refl types)

/-! ## Numbering -/

theorem internBase
    (name : Text) :
    Evolves types FitsNumber (intern (.base name)) :=
  fun tokens => .done tokens (TypePool.EvolvesTo.base types name)
    (types.isValid_intern (.base name))

theorem internFunction
    {parameter result : TypeId}
    (parameterValid : types.isValid parameter = true)
    (resultValid : types.isValid result = true) :
    Evolves types FitsNumber (intern (.function parameter result)) :=
  fun tokens => .done tokens
    (TypePool.EvolvesTo.function parameterValid resultValid)
    (types.isValid_intern (.function parameter result))

end Evolves

/-! ## Types -/

theorem evolves_types_and_atoms
    (finish : Span)
    (fuel : Nat) :
    (∀ types, Evolves types FitsNumber (typeWith finish fuel)) ∧
      ∀ types, Evolves types FitsNumber (atomWith finish fuel) := by
  induction fuel with
  | zero => exact ⟨fun _ => .stop _, fun _ => .stop _⟩
  | succ fuel inductionHypothesis =>
      obtain ⟨typeEvolves, atomEvolves⟩ := inductionHypothesis
      constructor
      · intro types
        rw [typeWith]
        refine (atomEvolves types).bind fun parameter between _ valid => ?_
        refine Evolves.accept.bind fun arrow still evolved _ => ?_
        have stillValid := TypePool.isValid_grow valid evolved.grows
        split
        next =>
            refine (typeEvolves still).bind
              fun result later evolvedMore resultValid => ?_
            exact .internFunction
              (TypePool.isValid_grow stillValid evolvedMore.grows) resultValid
        next => exact .pure stillValid
      · intro types
        rw [atomWith]
        refine Evolves.nextKind.bind fun kind before _ _ => ?_
        split
        next =>
            refine Evolves.accept.bind fun _ inside _ _ => ?_
            refine (typeEvolves inside).bind fun inner later _ valid => ?_
            refine Evolves.expect.bind fun _ _ evolved _ => ?_
            exact .pure (TypePool.isValid_grow valid evolved.grows)
        next => exact Evolves.token.bind fun name _ _ _ => .internBase name.lexeme

theorem evolves_declaration
    (finish : Span)
    (types : TypePool) :
    Evolves types FitsAny (declaration finish) := by
  unfold declaration
  refine Evolves.accept.bind fun colon between _ _ => ?_
  split
  next =>
      have typeEvolves : Evolves between FitsNumber (type finish) :=
        fun tokens => (evolves_types_and_atoms finish _).1 between tokens
      refine typeEvolves.bind fun declared _ _ _ => ?_
      exact Evolves.expect.bind fun _ _ _ _ => .pure trivial
  next => exact Evolves.accept.bind fun _ _ _ _ => .pure trivial

/-! ## Terms -/

theorem evolves_terms_and_arguments
    (stream : TokenStream)
    (fuel : Nat) :
    (∀ types scope, Evolves types FitsAny (termWith stream fuel scope)) ∧
      ∀ types scope left function,
        Evolves types FitsAny
          (argumentsWith stream fuel scope left function) := by
  induction fuel with
  | zero => exact ⟨fun _ _ => .stop _, fun _ _ _ _ => .stop _⟩
  | succ fuel inductionHypothesis =>
      obtain ⟨termEvolves, argumentsEvolve⟩ := inductionHypothesis
      constructor
      · intro types scope
        rw [termWith]
        refine Evolves.nextKind.bind fun kind _ _ _ => ?_
        split
        next => exact Evolves.expect.bind fun _ _ _ _ => .variableOf
        next =>
            refine Evolves.token.bind fun left _ _ _ => ?_
            refine Evolves.accept.bind fun lambda _ _ _ => ?_
            split
            next =>
                refine Evolves.token.bind fun name between _ _ => ?_
                refine (evolves_declaration _ between).bind
                  fun declared before _ _ => ?_
                refine (termEvolves before _).bind fun body _ _ _ => ?_
                exact Evolves.expect.bind fun _ _ _ _ => .pure trivial
            next =>
                refine (termEvolves _ scope).bind fun function _ _ _ => ?_
                refine Evolves.requireArgument.bind fun _ _ _ _ => ?_
                exact argumentsEvolve _ scope left function
      · intro types scope left function
        rw [argumentsWith]
        refine Evolves.nextKind.bind fun kind _ _ _ => ?_
        split
        next => exact .refuse
        next => exact Evolves.expect.bind fun _ _ _ _ => .pure trivial
        next =>
            refine (termEvolves _ scope).bind fun argument _ _ _ => ?_
            exact argumentsEvolve _ scope left _

theorem evolves_program
    (stream : TokenStream)
    (types : TypePool) :
    Evolves types FitsAny (program stream) := by
  unfold program
  have termEvolves : Evolves types FitsAny fun tokens types =>
      termWith stream (enoughFuel tokens) [] tokens types :=
    fun tokens => (evolves_terms_and_arguments stream _).1 types [] tokens
  refine termEvolves.bind fun term _ _ _ => ?_
  exact Evolves.endOfInput.bind fun _ _ _ _ => .pure trivial

end Parser

/-! ## Sources -/

/-- Parsing a source numbers types one after another, whether the source is a
program or not. -/
theorem parse_evolvesTo
    (file : Nat)
    (source : Text)
    (types : TypePool)
    (known : Diagnostics) :
    types.EvolvesTo (parse file source types known).types := by
  unfold parse Lexed.parse
  split
  next => exact TypePool.EvolvesTo.refl types
  next =>
      have ended := Parser.evolves_program (lex file source).stream types
        (lex file source).stream.tokens
      revert ended
      cases Parser.program (lex file source).stream
          (lex file source).stream.tokens types with
      | done term rest later =>
          rintro (⟨_, evolved, _⟩ | _)
          exact evolved
      | stopped reason later =>
          rintro (_ | ⟨_, evolved⟩)
          exact evolved

end LambdaCalculus
