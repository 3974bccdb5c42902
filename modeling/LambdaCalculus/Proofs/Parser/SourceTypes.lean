import LambdaCalculus.Proofs.Parser.Translation
import LambdaCalculus.Proofs.Text.Numeral
import LambdaCalculus.Proofs.Token.Pieces
import LambdaCalculus.Proofs.Types.Names

/-!
# The types that a source declares

The name of a declared base type is the lexeme of an identifier.  So a pool that
is built from identifiers stays so when a source is parsed, and the types that
the term declares are proper types of that pool.
-/

namespace LambdaCalculus

/-! ## Names in derivations -/

/-- The declared types have permitted names. -/
def NamedTerm.DeclaresNamedBy
    (permitted : Text -> Prop) : NamedTerm -> Prop
  | .var _ => True
  | .abs _ declared body =>
      (∀ tree ∈ declared, tree.NamedBy permitted) ∧
        body.DeclaresNamedBy permitted
  | .app function argument =>
      function.DeclaresNamedBy permitted ∧ argument.DeclaresNamedBy permitted

theorem NamedTerm.declaresNamedBy_foldl
    {arguments : List NamedTerm}
    {function : NamedTerm}
    (functionNamed : function.DeclaresNamedBy permitted)
    (argumentsNamed : ∀ argument ∈ arguments,
      argument.DeclaresNamedBy permitted) :
    (arguments.foldl .app function).DeclaresNamedBy permitted := by
  induction arguments generalizing function with
  | nil => exact functionNamed
  | cons first rest inductionHypothesis =>
      rw [List.forall_mem_cons] at argumentsNamed
      exact inductionHypothesis ⟨functionNamed, argumentsNamed.1⟩
        argumentsNamed.2

namespace Grammar

/-- The lexemes of the identifiers among the tokens are permitted. -/
def Identifiers
    (permitted : Text -> Prop)
    (tokens : List Token) : Prop :=
  ∀ token ∈ tokens, token.kind = .identifier -> permitted token.lexeme

@[simp] theorem identifiers_cons
    (permitted : Text -> Prop)
    (token : Token)
    (tokens : List Token) :
    Identifiers permitted (token :: tokens) ↔
      (token.kind = .identifier -> permitted token.lexeme) ∧
        Identifiers permitted tokens :=
  List.forall_mem_cons

@[simp] theorem identifiers_append
    (permitted : Text -> Prop)
    (left right : List Token) :
    Identifiers permitted (left ++ right) ↔
      Identifiers permitted left ∧ Identifiers permitted right :=
  List.forall_mem_append

mutual

theorem IsAtom.namedBy :
    IsAtom tokens tree -> Identifiers permitted tokens ->
      tree.NamedBy permitted
  | .name isName, identifiers => identifiers _ List.mem_cons_self isName
  | .group _ inner _, identifiers => by
      simp only [identifiers_cons, identifiers_append] at identifiers
      exact inner.namedBy identifiers.2.1

theorem IsType.namedBy :
    IsType tokens tree -> Identifiers permitted tokens ->
      tree.NamedBy permitted
  | .atom isAtom, identifiers => isAtom.namedBy identifiers
  | .arrow isParameter _ isResult, identifiers => by
      simp only [identifiers_cons, identifiers_append] at identifiers
      exact ⟨isParameter.namedBy identifiers.1,
        isResult.namedBy identifiers.2.2⟩

end

theorem IsDeclaration.namedBy
    (isDeclaration : IsDeclaration tokens annotation)
    (identifiers : Identifiers permitted tokens) :
    ∀ tree ∈ annotation, tree.NamedBy permitted := by
  cases isDeclaration with
  | empty => nofun
  | dot _ => nofun
  | declared _ isType _ =>
      simp only [identifiers_cons, identifiers_append] at identifiers
      rintro _ ⟨⟩
      exact isType.namedBy identifiers.2.1

mutual

/-- The names of declared types are identifiers of the source. -/
theorem IsTerm.declaresNamedBy :
    IsTerm tokens named -> Identifiers permitted tokens ->
      named.DeclaresNamedBy permitted
  | .name _, _ => trivial
  | .abs _ _ _ isDeclaration isBody _, identifiers => by
      simp only [identifiers_cons, identifiers_append] at identifiers
      obtain ⟨_, _, _, declaration, body, _⟩ := identifiers
      exact ⟨isDeclaration.namedBy declaration, isBody.declaresNamedBy body⟩
  | .app _ isFunction areArguments _ _, identifiers => by
      simp only [identifiers_cons, identifiers_append] at identifiers
      obtain ⟨_, function, arguments, _⟩ := identifiers
      exact NamedTerm.declaresNamedBy_foldl
        (isFunction.declaresNamedBy function)
        (areArguments.declaresNamedBy arguments)

theorem AreTerms.declaresNamedBy :
    AreTerms tokens terms -> Identifiers permitted tokens ->
      ∀ named ∈ terms, named.DeclaresNamedBy permitted
  | .nil, _ => nofun
  | .cons isTerm areTerms, identifiers => by
      rw [identifiers_append] at identifiers
      exact List.forall_mem_cons.mpr
        ⟨isTerm.declaresNamedBy identifiers.1,
          areTerms.declaresNamedBy identifiers.2⟩

end

end Grammar

/-- Identifiers are scanned as runs of letters. -/
theorem Token.identifiers_scan
    (file offset : Nat)
    (isUtf8 : Text.IsUtf8 text) :
    Grammar.Identifiers (fun name => Text.isIdentifier name = true)
      (scan file offset text) := by
  intro token member isName
  cases (scans_scan file offset isUtf8).stands member with
  | between _ _ _ _ isLexeme _ _ =>
      have nonempty := isLexeme.ne_nil
      rw [isName] at isLexeme
      exact (Text.isIdentifier_iff _).mpr ⟨nonempty, isLexeme.letters.1⟩

/-! ## The pool after parsing -/

/-- Resolving a named term numbers the types that it declares and no others. -/
theorem NamedTerm.built_resolve
    {named : NamedTerm}
    (names : named.DeclaresNamedBy permitted)
    (built : types.Built permitted)
    (resolved : named.resolve scope types = some (term, later)) :
    later.Built permitted := by
  induction named generalizing scope types term later with
  | var name =>
      simp only [resolve, Option.map_eq_some_iff, Prod.mk.injEq] at resolved
      obtain ⟨_, _, _, rfl⟩ := resolved
      exact built
  | abs binder declared body bodyHypothesis =>
      simp only [resolve, Option.map_eq_some_iff, Prod.mk.injEq] at resolved
      obtain ⟨⟨_, _⟩, bodyResolved, _, rfl⟩ := resolved
      refine bodyHypothesis names.2 ?_ bodyResolved
      cases declared with
      | none => exact built
      | some tree => exact (tree.built_number (names.1 tree rfl) built).1
  | app function argument functionHypothesis argumentHypothesis =>
      simp only [resolve, Option.bind_eq_some_iff, Option.map_eq_some_iff,
        Prod.mk.injEq] at resolved
      obtain ⟨⟨_, middle⟩, functionResolved, ⟨_, _⟩, argumentResolved, _,
        rfl⟩ := resolved
      exact argumentHypothesis names.2
        (functionHypothesis names.1 built functionResolved) argumentResolved

/-- The declared types of a translation are proper. -/
theorem Translates.declaresOnly
    {types : TypePool}
    (translated : Translates types scope named term)
    (proper : named.declaresProper = true) :
    term.declaresOnly (fun type => (types.tree type).isProper) = true := by
  induction translated with
  | var span innermost => rfl
  | abs span declares translated inductionHypothesis =>
      rw [NamedTerm.declaresProper, Bool.and_eq_true] at proper
      rw [Term.declaresOnly, Bool.and_eq_true]
      refine ⟨?_, inductionHypothesis proper.2⟩
      cases declares with
      | none => rfl
      | some denotes =>
          rw [Option.all_some, denotes.tree_eq]
          exact proper.1
  | app span functionTranslated argumentTranslated functionHypothesis
      argumentHypothesis =>
      rw [NamedTerm.declaresProper, Bool.and_eq_true] at proper
      rw [Term.declaresOnly, functionHypothesis proper.1,
        argumentHypothesis proper.2]
      rfl

/-- A parsed term declares proper types of a pool that is still built from
identifiers. -/
theorem parse_built
    (built : types.Built fun name => Text.isIdentifier name = true)
    (parsed : (parse file source types known).term = some term) :
    (parse file source types known).types.Built
        (fun name => Text.isIdentifier name = true) ∧
      term.declaresOnly (fun type =>
        ((parse file source types known).types.tree type).isProper) = true := by
  obtain ⟨valid, named, isTerm, resolved⟩ := parse_sound parsed
  have isUtf8 := (Text.firstInvalid?_eq_none_iff source).mp valid
  obtain ⟨_, translated⟩ :=
    NamedTerm.translates_of_resolve isTerm.declaresProper resolved
  constructor
  · exact NamedTerm.built_resolve
      (isTerm.declaresNamedBy (Token.identifiers_scan file 0 isUtf8)) built
      resolved
  · exact translated.of_withoutSpans.declaresOnly isTerm.declaresProper

end LambdaCalculus
