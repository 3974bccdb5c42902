import LambdaCalculus.Proofs.Parser.Soundness
import LambdaCalculus.Proofs.Parser.Unambiguous
import LambdaCalculus.Proofs.Text.Encoding
import LambdaCalculus.Proofs.Token.Alphabet
import LambdaCalculus.Proofs.Types.Denotation

/-!
# What a source stands for

A named term is translated by replacing each name by the number of binders
between it and the innermost binder of that name, and each declared type by a
number that denotes it.  Resolving a named term translates it, and there is no
other translation.  The main statement is that exactly the sources with a
derivation whose names are all bound are parsed, and that the term given is the
translation.
-/

namespace LambdaCalculus

/-- The binder at the index is the innermost one of the name. -/
def Scope.InnermostAt
    (scope : Scope)
    (name : Text)
    (index : Nat) : Prop :=
  scope[index]? = some name ∧ ∀ nearer < index, scope[nearer]? ≠ some name

theorem Scope.index?_eq_some_iff
    (scope : Scope)
    (name : Text)
    (index : Nat) :
    scope.index? name = some index ↔ scope.InnermostAt name index := by
  rw [Scope.index?, List.idxOf?_eq_some_iff]
  constructor
  · rintro ⟨bound, here, before⟩
    refine ⟨List.getElem?_eq_some_iff.mpr ⟨bound, here⟩, ?_⟩
    intro nearer closer same
    obtain ⟨_, nearerSame⟩ := List.getElem?_eq_some_iff.mp same
    exact before nearer closer nearerSame
  · rintro ⟨here, before⟩
    obtain ⟨bound, here⟩ := List.getElem?_eq_some_iff.mp here
    refine ⟨bound, here, ?_⟩
    intro nearer closer same
    exact before nearer closer
      (List.getElem?_eq_some_iff.mpr ⟨closer.trans bound, same⟩)

theorem Scope.exists_index?_iff
    (scope : Scope)
    (name : Text) :
    (∃ index, scope.index? name = some index) ↔ name ∈ scope := by
  rw [← Option.isSome_iff_exists, ← Option.ne_none_iff_isSome, ne_eq,
    Scope.index?, List.idxOf?_eq_none_iff, not_not]

namespace NamedTerm

/-- Every variable of the term has a binder of its name around it. -/
def BoundIn : NamedTerm -> Scope -> Prop
  | .var name, scope => name ∈ scope
  | .abs binder _ body, scope => body.BoundIn (scope.extend binder)
  | .app function argument, scope =>
      function.BoundIn scope ∧ argument.BoundIn scope

/-- A term is resolved exactly when its variables are bound. -/
theorem exists_resolve_iff
    (named : NamedTerm)
    (scope : Scope)
    (types : TypePool) :
    (∃ resolved, named.resolve scope types = some resolved) ↔
      named.BoundIn scope := by
  induction named generalizing scope types with
  | var name =>
      rw [BoundIn, ← Scope.exists_index?_iff]
      simp [resolve]
  | abs binder declared body bodyHypothesis =>
      rw [BoundIn, ← bodyHypothesis _ (numberDeclared declared types).2]
      constructor
      · rintro ⟨_, resolved⟩
        obtain ⟨bodyPart, bodyResolved, _⟩ := Option.map_eq_some_iff.mp resolved
        exact ⟨bodyPart, bodyResolved⟩
      · rintro ⟨bodyPart, bodyResolved⟩
        exact ⟨_, Option.map_eq_some_iff.mpr ⟨bodyPart, bodyResolved, rfl⟩⟩
  | app function argument functionHypothesis argumentHypothesis =>
      rw [BoundIn]
      constructor
      · rintro ⟨_, resolved⟩
        simp only [resolve, Option.bind_eq_some_iff,
          Option.map_eq_some_iff] at resolved
        obtain ⟨functionPart, functionResolved, argumentPart, argumentResolved,
          _⟩ := resolved
        exact ⟨(functionHypothesis scope types).mp ⟨_, functionResolved⟩,
          (argumentHypothesis scope _).mp ⟨_, argumentResolved⟩⟩
      · rintro ⟨functionBound, argumentBound⟩
        obtain ⟨⟨functionTerm, middle⟩, functionResolved⟩ :=
          (functionHypothesis scope types).mpr functionBound
        obtain ⟨⟨argumentTerm, later⟩, argumentResolved⟩ :=
          (argumentHypothesis scope middle).mpr argumentBound
        refine ⟨(.app .nowhere functionTerm argumentTerm, later), ?_⟩
        simp only [resolve, functionResolved, Option.bind_some,
          argumentResolved, Option.map_some]

/-- Neither the error type nor a missing type is part of a declared type. -/
def declaresProper : NamedTerm -> Bool
  | .var _ => true
  | .abs _ declared body =>
      declared.all TypeTree.isProper && body.declaresProper
  | .app function argument =>
      function.declaresProper && argument.declaresProper

theorem declaresProper_foldl
    {arguments : List NamedTerm}
    {function : NamedTerm}
    (functionProper : function.declaresProper = true)
    (argumentsProper : ∀ argument ∈ arguments,
      argument.declaresProper = true) :
    (arguments.foldl .app function).declaresProper = true := by
  induction arguments generalizing function with
  | nil => exact functionProper
  | cons first rest inductionHypothesis =>
      rw [List.forall_mem_cons] at argumentsProper
      apply inductionHypothesis _ argumentsProper.2
      rw [declaresProper, functionProper, argumentsProper.1]
      rfl

end NamedTerm

/-! ## Types that a source can name -/

namespace Grammar

mutual

theorem IsAtom.isProper : IsAtom tokens tree -> tree.isProper = true
  | .name _ => rfl
  | .group _ inner _ => inner.isProper

theorem IsType.isProper : IsType tokens tree -> tree.isProper = true
  | .atom isAtom => isAtom.isProper
  | .arrow isParameter _ isResult => by
      rw [TypeTree.isProper, isParameter.isProper, isResult.isProper]
      rfl

end

theorem IsDeclaration.isProper
    (isDeclaration : IsDeclaration tokens annotation) :
    annotation.all TypeTree.isProper = true := by
  cases isDeclaration with
  | empty => rfl
  | dot _ => rfl
  | declared _ isType _ => exact isType.isProper

mutual

theorem IsTerm.declaresProper :
    IsTerm tokens named -> named.declaresProper = true
  | .name _ => rfl
  | .abs _ _ _ isDeclaration isBody _ => by
      rw [NamedTerm.declaresProper, isDeclaration.isProper,
        isBody.declaresProper]
      rfl
  | .app _ isFunction areArguments _ _ =>
      NamedTerm.declaresProper_foldl isFunction.declaresProper
        areArguments.declaresProper

theorem AreTerms.declaresProper :
    AreTerms tokens terms -> ∀ named ∈ terms, named.declaresProper = true
  | .nil => nofun
  | .cons isTerm areTerms =>
      List.forall_mem_cons.mpr
        ⟨isTerm.declaresProper, areTerms.declaresProper⟩

end

end Grammar

/-! ## Translations -/

/-- A declared type keeps its number while the pool grows. -/
theorem denotes_declared_grow
    {types later : TypePool}
    {number : Option TypeId}
    {declared : Option TypeTree}
    (denotes : Option.Rel types.Denotes number declared)
    (grows : types.GrowsTo later) :
    Option.Rel later.Denotes number declared := by
  cases denotes with
  | none => exact .none
  | some denotes => exact .some (denotes.grow grows)

/-- The term is the named term with an index for each name and a number for
each declared type, wherever its nodes are said to stand. -/
inductive Translates (types : TypePool) : Scope -> NamedTerm -> Term -> Prop
  | var
      {scope : Scope}
      (span : Span)
      (innermost : scope.InnermostAt name index) :
      Translates types scope (.var name) (.var span index)
  | abs
      {scope : Scope}
      (span : Span)
      (declares : Option.Rel types.Denotes number declared)
      (translated : Translates types (scope.extend binder) namedBody body) :
      Translates types scope (.abs binder declared namedBody)
        (.abs span number body)
  | app
      {scope : Scope}
      (span : Span)
      (functionTranslated : Translates types scope namedFunction function)
      (argumentTranslated : Translates types scope namedArgument argument) :
      Translates types scope (.app namedFunction namedArgument)
        (.app span function argument)

namespace Translates

theorem grow
    (translated : Translates types scope named term)
    (grows : types.GrowsTo later) :
    Translates later scope named term := by
  induction translated with
  | var span innermost => exact var span innermost
  | abs span declares translated inductionHypothesis =>
      exact abs span (denotes_declared_grow declares grows) inductionHypothesis
  | app span functionTranslated argumentTranslated functionHypothesis
      argumentHypothesis =>
      exact app span functionHypothesis argumentHypothesis

/-- Where the nodes stand does not matter. -/
theorem of_withoutSpans
    (translated : Translates types scope named term.withoutSpans) :
    Translates types scope named term := by
  induction term generalizing scope named with
  | var span index =>
      cases translated with
      | var _ innermost => exact var span innermost
  | abs span number body bodyHypothesis =>
      cases translated with
      | abs _ declares translated =>
          exact abs span declares (bodyHypothesis translated)
  | app span function argument functionHypothesis argumentHypothesis =>
      cases translated with
      | app _ functionTranslated argumentTranslated =>
          exact app span (functionHypothesis functionTranslated)
            (argumentHypothesis argumentTranslated)

/-- A named term has one translation, up to spans, in a pool that numbers no
former twice. -/
theorem unique
    (nodup : types.formers.Nodup)
    (left : Translates types scope named leftTerm)
    (right : Translates types scope named rightTerm) :
    leftTerm.withoutSpans = rightTerm.withoutSpans := by
  induction left generalizing rightTerm with
  | @var name index scope span innermost =>
      cases right with
      | var _ otherInnermost =>
          rw [← Scope.index?_eq_some_iff] at innermost otherInnermost
          rw [innermost] at otherInnermost
          cases otherInnermost
          rfl
  | abs span declares translated inductionHypothesis =>
      cases right with
      | abs _ otherDeclares otherTranslated =>
          rw [Term.withoutSpans_abs, Term.withoutSpans_abs,
            inductionHypothesis otherTranslated]
          cases declares with
          | none =>
              cases otherDeclares
              rfl
          | some denotes =>
              cases otherDeclares with
              | some otherDenotes =>
                  rw [denotes.injective nodup otherDenotes]
  | app span functionTranslated argumentTranslated functionHypothesis
      argumentHypothesis =>
      cases right with
      | app _ otherFunction otherArgument =>
          rw [Term.withoutSpans_app, Term.withoutSpans_app,
            functionHypothesis otherFunction,
            argumentHypothesis otherArgument]

end Translates

namespace NamedTerm

theorem grows_numberDeclared
    (declared : Option TypeTree)
    (types : TypePool) :
    types.GrowsTo (numberDeclared declared types).2 := by
  cases declared with
  | none => exact TypePool.GrowsTo.refl types
  | some tree => exact tree.grows_number types

theorem denotes_numberDeclared
    (declared : Option TypeTree)
    (types : TypePool)
    (proper : declared.all TypeTree.isProper = true) :
    Option.Rel (numberDeclared declared types).2.Denotes
      (numberDeclared declared types).1 declared := by
  cases declared with
  | none => exact .none
  | some tree => exact .some (tree.denotes_number types proper)

/-- Resolving numbers types and forgets none. -/
theorem grows_resolve
    {named : NamedTerm}
    (resolved : named.resolve scope types = some (term, later)) :
    types.GrowsTo later := by
  induction named generalizing scope types term later with
  | var name =>
      simp only [resolve, Option.map_eq_some_iff, Prod.mk.injEq] at resolved
      obtain ⟨_, _, _, rfl⟩ := resolved
      exact TypePool.GrowsTo.refl types
  | abs binder declared body bodyHypothesis =>
      simp only [resolve, Option.map_eq_some_iff, Prod.mk.injEq] at resolved
      obtain ⟨⟨_, _⟩, bodyResolved, _, rfl⟩ := resolved
      exact (grows_numberDeclared declared types).trans
        (bodyHypothesis bodyResolved)
  | app function argument functionHypothesis argumentHypothesis =>
      simp only [resolve, Option.bind_eq_some_iff, Option.map_eq_some_iff,
        Prod.mk.injEq] at resolved
      obtain ⟨⟨_, _⟩, functionResolved, ⟨_, _⟩, argumentResolved, _, rfl⟩ :=
        resolved
      exact (functionHypothesis functionResolved).trans
        (argumentHypothesis argumentResolved)

/-- Resolving a named term translates it. -/
theorem translates_of_resolve
    {named : NamedTerm}
    (proper : named.declaresProper = true)
    (resolved : named.resolve scope types = some (term, later)) :
    types.GrowsTo later ∧ Translates later scope named term := by
  refine ⟨grows_resolve resolved, ?_⟩
  induction named generalizing scope types term later with
  | var name =>
      simp only [resolve, Option.map_eq_some_iff, Prod.mk.injEq] at resolved
      obtain ⟨index, found, rfl, rfl⟩ := resolved
      exact .var .nowhere ((Scope.index?_eq_some_iff scope name index).mp found)
  | abs binder declared body bodyHypothesis =>
      simp only [declaresProper, Bool.and_eq_true] at proper
      simp only [resolve, Option.map_eq_some_iff, Prod.mk.injEq] at resolved
      obtain ⟨⟨bodyTerm, _⟩, bodyResolved, rfl, rfl⟩ := resolved
      have declares := denotes_numberDeclared declared types proper.1
      exact .abs .nowhere
        (denotes_declared_grow declares (grows_resolve bodyResolved))
        (bodyHypothesis proper.2 bodyResolved)
  | app function argument functionHypothesis argumentHypothesis =>
      simp only [declaresProper, Bool.and_eq_true] at proper
      simp only [resolve, Option.bind_eq_some_iff, Option.map_eq_some_iff,
        Prod.mk.injEq] at resolved
      obtain ⟨⟨functionTerm, middle⟩, functionResolved,
        ⟨argumentTerm, _⟩, argumentResolved, rfl, rfl⟩ := resolved
      have functionTranslated := functionHypothesis proper.1 functionResolved
      exact .app .nowhere
        (functionTranslated.grow (grows_resolve argumentResolved))
        (argumentHypothesis proper.2 argumentResolved)

theorem reached_resolve
    {named : NamedTerm}
    (reached : types.Reached)
    (resolved : named.resolve scope types = some (term, later)) :
    later.Reached := by
  induction named generalizing scope types term later with
  | var name =>
      simp only [resolve, Option.map_eq_some_iff, Prod.mk.injEq] at resolved
      obtain ⟨_, _, _, rfl⟩ := resolved
      exact reached
  | abs binder declared body bodyHypothesis =>
      simp only [resolve, Option.map_eq_some_iff, Prod.mk.injEq] at resolved
      obtain ⟨⟨_, _⟩, bodyResolved, _, rfl⟩ := resolved
      refine bodyHypothesis ?_ bodyResolved
      cases declared with
      | none => exact reached
      | some tree => exact tree.reached_number reached
  | app function argument functionHypothesis argumentHypothesis =>
      simp only [resolve, Option.bind_eq_some_iff, Option.map_eq_some_iff,
        Prod.mk.injEq] at resolved
      obtain ⟨⟨_, middle⟩, functionResolved, ⟨_, _⟩, argumentResolved, _,
        rfl⟩ := resolved
      exact argumentHypothesis (functionHypothesis reached functionResolved)
        argumentResolved

end NamedTerm

/-! ## Parsing -/

/-- A source that is parsed is valid, and its tokens are read as the term. -/
theorem parse_reads
    (parsed : (parse file source types known).term = some term) :
    Text.firstInvalid? source = none ∧
      ∃ named, Grammar.Reads true (Token.scan file 0 source) named term ∧
        named.resolve [] types =
          some (term.withoutSpans, (parse file source types known).types) := by
  unfold parse Lexed.parse at parsed ⊢
  split at parsed
  next => cases parsed
  next trusted =>
      rw [if_neg trusted]
      cases invalid : Text.firstInvalid? source with
      | some offset =>
          simp [lex, invalid, invalidUtf8, Diagnostics.hasCode,
            Diagnostics.firstWith?] at trusted
      | none =>
          refine ⟨rfl, ?_⟩
          have tokens : (lex file source).stream.tokens =
              Token.scan file 0 source := by
            simp [lex, invalid]
          split at parsed
          next value rest later read =>
              cases parsed
              rw [tokens] at read
              simpa only [tokens, read] using Parser.program_reads read
          next => cases parsed

/-- A source that is parsed is valid, and the grammar derives its tokens. -/
theorem parse_sound
    (parsed : (parse file source types known).term = some term) :
    Text.firstInvalid? source = none ∧
      ∃ named, Grammar.IsTerm (Token.scan file 0 source) named ∧
        named.resolve [] types =
          some (term.withoutSpans, (parse file source types known).types) := by
  obtain ⟨valid, named, reads, resolved⟩ := parse_reads parsed
  exact ⟨valid, named, reads.isTerm, resolved⟩

/-- What a source is parsed as translates the named term that its tokens stand
for. -/
theorem parse_translates
    (parsed : (parse file source types known).term = some term) :
    ∃ named, Grammar.IsTerm (Token.scan file 0 source) named ∧
      types.GrowsTo (parse file source types known).types ∧
      Translates (parse file source types known).types [] named term := by
  obtain ⟨_, named, isTerm, resolved⟩ := parse_sound parsed
  obtain ⟨grows, translated⟩ :=
    NamedTerm.translates_of_resolve isTerm.declaresProper resolved
  exact ⟨named, isTerm, grows, translated.of_withoutSpans⟩

theorem parse_reached
    (reached : types.Reached)
    (parsed : (parse file source types known).term = some term) :
    (parse file source types known).types.Reached := by
  obtain ⟨_, named, _, resolved⟩ := parse_sound parsed
  exact NamedTerm.reached_resolve reached resolved

/-- A source is parsed exactly if it is valid, has no character outside the
alphabet, and the grammar derives its tokens as a term with all names bound.
The tokens stand for one named term, of which the term given is the only
translation up to spans.  Tokens that the grammar derives have no error among
them, so no character of their source is outside the alphabet. -/
theorem parse_iff_grammar
    (file : Nat)
    (source : Text)
    (types : TypePool)
    (reached : types.Reached)
    (known : Diagnostics)
    (trusted : Diagnostics.hasCode known .invalidUtf8 = false) :
    ((parse file source types known).term.isSome = true ↔
      source.IsUtf8 ∧ source.OverAlphabet ∧
        ∃ named, Grammar.IsTerm (Token.scan file 0 source) named ∧
          named.BoundIn []) ∧
    ∀ term, (parse file source types known).term = some term ->
      ∃ named, Grammar.IsTerm (Token.scan file 0 source) named ∧
        (∀ other, Grammar.IsTerm (Token.scan file 0 source) other ->
          other = named) ∧
        Translates (parse file source types known).types [] named term ∧
        ∀ other,
          Translates (parse file source types known).types [] named other ->
            other.alike term = true := by
  refine ⟨⟨?sound, ?complete⟩, ?translation⟩
  case sound =>
    intro parsed
    obtain ⟨term, parsed⟩ := Option.isSome_iff_exists.mp parsed
    obtain ⟨valid, named, isTerm, resolved⟩ := parse_sound parsed
    exact ⟨(Text.firstInvalid?_eq_none_iff source).mp valid,
      Token.overAlphabet_of_noErrors isTerm.noErrors, named, isTerm,
      (named.exists_resolve_iff [] types).mp ⟨_, resolved⟩⟩
  case complete =>
    rintro ⟨isUtf8, _, named, isTerm, bound⟩
    have valid := (Text.firstInvalid?_eq_none_iff source).mpr isUtf8
    obtain ⟨⟨_, _⟩, resolved⟩ := (named.exists_resolve_iff [] types).mpr bound
    obtain ⟨read, parsed, _⟩ :=
      parse_complete file known valid isTerm resolved trusted
    rw [parsed]
    rfl
  case translation =>
    intro term parsed
    obtain ⟨_, named, isTerm, resolved⟩ := parse_sound parsed
    obtain ⟨_, translated⟩ :=
      NamedTerm.translates_of_resolve isTerm.declaresProper resolved
    have nodup := (NamedTerm.reached_resolve reached resolved).nodup
    refine ⟨named, isTerm, fun other otherTerm => otherTerm.eq isTerm,
      translated.of_withoutSpans, ?_⟩
    intro other otherTranslated
    rw [Term.alike_iff]
    exact otherTranslated.unique nodup translated.of_withoutSpans

/-- The source `(λx:A→A. (\y (x x y)))` is parsed; its tokens stand for a term
with all names bound, and the term given is a translation of it. -/
theorem parse_iff_grammar_nested :
    let source : Text := "(λx:A→A. (\\y (x x y)))"
    let parsed := parse 0 source .empty []
    TypePool.empty.Reached ∧
      source.OverAlphabet ∧
      ∃ term named, parsed.term = some term ∧
        Grammar.IsTerm (Token.scan 0 0 source) named ∧
        Translates parsed.types [] named term := by
  have isSome : (parse 0 "(λx:A→A. (\\y (x x y)))" .empty []).term.isSome =
      true := by
    decide +kernel
  intro source parsed
  obtain ⟨accepted, translation⟩ :=
    parse_iff_grammar 0 source .empty .empty [] rfl
  obtain ⟨_, overAlphabet, _⟩ := accepted.mp isSome
  obtain ⟨term, isTerm⟩ := Option.isSome_iff_exists.mp isSome
  obtain ⟨named, derived, _, translated, _⟩ := translation term isTerm
  exact ⟨.empty, overAlphabet, term, named, isTerm, derived, translated⟩

end LambdaCalculus
