import LambdaCalculus.Proofs.Parser.Translation
import LambdaCalculus.Proofs.Reduction.Steps
import LambdaCalculus.Proofs.Term.RoundTrip
import LambdaCalculus.Source.Lines

/-!
# Printed terms in another pool

A line with a printed term can be read with any pool of types.  The types may
get other numbers there, but they are the same types.  So the term that is read
is printed as the same text, and it has its redexes in the same places.
-/

namespace LambdaCalculus
namespace Term

/-! ## Terms with the same types in two pools -/

/-- The terms differ at most in their spans and in the numbers of the types that
they declare, which are the same types in two pools. -/
inductive Corresponds (types later : TypePool) : Term -> Term -> Prop
  | var
      (span otherSpan : Span)
      (index : Nat) :
      Corresponds types later (.var span index) (.var otherSpan index)
  | abs
      (span otherSpan : Span)
      (sameType : declared.map types.tree = otherDeclared.map later.tree)
      (bodies : Corresponds types later body otherBody) :
      Corresponds types later (.abs span declared body)
        (.abs otherSpan otherDeclared otherBody)
  | app
      (span otherSpan : Span)
      (functions : Corresponds types later function otherFunction)
      (arguments : Corresponds types later argument otherArgument) :
      Corresponds types later (.app span function argument)
        (.app otherSpan otherFunction otherArgument)

namespace Corresponds

variable {types later : TypePool}

theorem declarationText_eq
    {declared otherDeclared : Option TypeId}
    (sameType : declared.map types.tree = otherDeclared.map later.tree) :
    declarationText later otherDeclared = declarationText types declared := by
  cases declared with
  | none =>
      rw [Option.map_none, eq_comm, Option.map_eq_none_iff] at sameType
      rw [sameType]
      rfl
  | some type =>
      rw [Option.map_some, eq_comm, Option.map_eq_some_iff] at sameType
      obtain ⟨otherType, rfl, sameTree⟩ := sameType
      rw [declarationText_some, declarationText_some, TypePool.text,
        TypePool.text, sameTree]

/-- Both terms have the same named form. -/
theorem named_eq
    (corresponds : Corresponds types later term other)
    (asFunction : Bool)
    (level : Nat) :
    other.named later asFunction level =
      term.named types asFunction level := by
  induction corresponds generalizing asFunction level with
  | var span otherSpan index => rfl
  | abs span otherSpan sameType bodies bodyHypothesis =>
      rw [named, named, declarationText_eq sameType, bodyHypothesis]
  | app span otherSpan functions arguments functionHypothesis
      argumentHypothesis =>
      rw [named, named, functionHypothesis, argumentHypothesis]

theorem annotated_eq
    (corresponds : Corresponds types later term other) :
    other.annotated = term.annotated := by
  induction corresponds with
  | var span otherSpan index => rfl
  | abs span otherSpan sameType bodies bodyHypothesis =>
      have sameSome := congrArg Option.isSome sameType
      rw [Option.isSome_map, Option.isSome_map] at sameSome
      rw [annotated, annotated, bodyHypothesis, sameSome]
  | app span otherSpan functions arguments functionHypothesis
      argumentHypothesis =>
      rw [annotated, annotated, functionHypothesis, argumentHypothesis]

theorem isAbstraction_eq
    (corresponds : Corresponds types later term other) :
    other.isAbstraction = term.isAbstraction := by
  cases corresponds <;> rfl

/-- Both terms have their redexes in the same places. -/
theorem hasRedex_eq
    (corresponds : Corresponds types later term other) :
    other.hasRedex = term.hasRedex := by
  induction corresponds with
  | var span otherSpan index => rfl
  | abs span otherSpan sameType bodies bodyHypothesis => exact bodyHypothesis
  | app span otherSpan functions arguments functionHypothesis
      argumentHypothesis =>
      rw [hasRedex_app, hasRedex_app, functions.isAbstraction_eq,
        functionHypothesis, argumentHypothesis]

end Corresponds

/-! ## Reading a printed line -/

/-- A translation of the printed names in another pool is the same term. -/
theorem corresponds_of_translates
    {types later : TypePool}
    (level : Nat)
    (term : Term)
    (closed : term.closedUnder level = true)
    (translated : Translates later (binderScope level)
      (term.toNamed types level) other) :
    Corresponds types later term other := by
  induction term generalizing level other with
  | var span index =>
      have bound : index < level := by simpa using closed
      rw [toNamed, variableName, if_pos bound] at translated
      cases translated with
      | var otherSpan innermost =>
          rw [← Scope.index?_eq_some_iff,
            index?_binderScope index level bound] at innermost
          cases innermost
          exact .var span otherSpan index
  | abs span declared body bodyHypothesis =>
      cases translated with
      | abs otherSpan declares translated =>
          refine .abs span otherSpan ?_
            (bodyHypothesis (level + 1) closed translated)
          generalize declared.map types.tree = tree at declares ⊢
          cases declares with
          | none => rfl
          | some denotes => rw [Option.map_some, denotes.tree_eq]
  | app span function argument functionHypothesis argumentHypothesis =>
      simp only [closedUnder_app, Bool.and_eq_true] at closed
      cases translated with
      | app otherSpan functionTranslated argumentTranslated =>
          exact .app span otherSpan
            (functionHypothesis level closed.1 functionTranslated)
            (argumentHypothesis level closed.2 argumentTranslated)

/-- Every binder is printed. -/
theorem binderDepth_le_length_named
    (types : TypePool)
    (asFunction : Bool)
    (level : Nat)
    (term : Term) :
    term.binderDepth ≤ (term.named types asFunction level).length := by
  induction term generalizing asFunction level with
  | var span index => exact Nat.zero_le _
  | abs span declared body bodyHypothesis =>
      have inner := bodyHypothesis false (Word.next level)
      have closing : (Text.ofString ")").length = 1 := by decide
      simp only [binderDepth, named, List.length_append, closing]
      omega
  | app span function argument functionHypothesis argumentHypothesis =>
      have functionInner := functionHypothesis true level
      have argumentInner := argumentHypothesis false level
      have enclosed : ∀ inner : Text,
          inner.length ≤ (enclose asFunction inner).length := by
        intro inner
        cases asFunction with
        | true => exact Nat.le_refl _
        | false =>
            rw [enclose, if_neg Bool.false_ne_true, List.length_append,
              List.length_append]
            omega
      refine Nat.le_trans ?_ (enclosed _)
      simp only [binderDepth, List.length_append]
      omega

/-- The line with a printed closed term is read as the same term, whatever the
pool of types is. -/
theorem exists_parse_line
    (file : Nat)
    {types : TypePool}
    (wellFormed : types.WellFormed fun name => Text.isIdentifier name = true)
    (closed : term.closed = true)
    (declares : term.declaresOnly
      (fun type => (types.tree type).isProper) = true)
    (fits : (term.named types false 0).length < Word.modulus)
    (before : TypePool) :
    ∃ read later,
      parse file (term.named types false 0 ++ [lineFeed]) before [] =
        ⟨some read, later, []⟩ ∧
      Corresponds types later term read := by
  have shallow := binderDepth_le_length_named types false 0 term
  obtain ⟨⟨tokens, spells, isTerm⟩, _⟩ := spells_named file 0 wellFormed 0
    term closed (by omega) declares
  have endSpells : Token.Spells file
      (0 + (term.named types false 0).length) [lineFeed] [] :=
    (Token.spells_nil file _).blank_append rfl
  have lineSpells := spells.append endSpells rfl
  rw [List.append_nil] at lineSpells
  rw [← lineSpells.scan_eq] at isTerm
  have bound := (NamedTerm.exists_resolve_iff _ [] types).mp
    ⟨_, resolve_toNamed wellFormed 0 term closed declares⟩
  obtain ⟨⟨resolvedTerm, later⟩, resolved⟩ :=
    (NamedTerm.exists_resolve_iff _ [] before).mpr bound
  obtain ⟨read, parsed, same⟩ := parse_complete file [] lineSpells.valid
    isTerm resolved rfl
  obtain ⟨_, translated⟩ :=
    NamedTerm.translates_of_resolve isTerm.declaresProper resolved
  rw [← same] at translated
  exact ⟨read, later, parsed,
    corresponds_of_translates 0 term closed translated.of_withoutSpans⟩

end Term
end LambdaCalculus
