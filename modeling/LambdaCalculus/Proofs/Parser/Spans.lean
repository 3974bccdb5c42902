import LambdaCalculus.Proofs.Parser.Enclosure
import LambdaCalculus.Proofs.Parser.SourceTypes
import LambdaCalculus.Proofs.Term.Nodes
import LambdaCalculus.Proofs.Token.Excerpt

/-!
# Spans denote source text

Every node of a parsed term is found by a path from the root.  Its span reaches
over the tokens that it was read from: it is not empty, it lies within the span
of the node above, and a function ends before its argument starts.  The bytes at
the span, with binders of the names in scope around them, are parsed as the
node.  Only an application that is the function of another one in the same
parentheses has no right parenthesis of its own, and it is parsed when one is
put behind it.
-/

namespace LambdaCalculus

/-! ## Nodes -/

namespace Term

/-- As the function of an application with the given span, the term is an
application in the same parentheses. -/
def sharesParentheses
    (whole : Span) : Term -> Bool
  | .app span _ _ => span.lo == whole.lo
  | _ => false

/-- The node at the end of a path is not the function of an application in the
same parentheses; for the empty path this has to be said. -/
def closedAt
    (closed : Bool) : Term -> List Branch -> Bool
  | _, [] => closed
  | .abs _ _ body, .body :: path => body.closedAt true path
  | .app span function _, .function :: path =>
      function.closedAt (!function.sharesParentheses span) path
  | .app _ _ argument, .argument :: path => argument.closedAt true path
  | _, _ => true

/-- Where a node and those right below it stand. -/
structure WellPlaced
    (file : Nat)
    (source : Text)
    (node : Term) : Prop where
  /-- The node stands in the source. -/
  inside : node.span.file = file ∧ node.span.hi ≤ source.length
  /-- Its span is not empty. -/
  nonempty : node.span.lo < node.span.hi
  /-- Its span covers those of the nodes below it. -/
  covers : ∀ branch child, node.child? branch = some child ->
    node.span.lo ≤ child.span.lo ∧ child.span.hi ≤ node.span.hi
  /-- A function ends where its argument starts, or before. -/
  apart : ∀ function argument, node.child? .function = some function ->
    node.child? .argument = some argument ->
    function.span.hi ≤ argument.span.lo

@[simp] theorem span_withSpan
    (span : Span)
    (term : Term) :
    (term.withSpan span).span = span := by
  cases term <;> rfl

end Term

/-- The names of the binders that a path goes through, outermost first. -/
def NamedTerm.bindersAt? : NamedTerm -> List Branch -> Option (List Text)
  | _, [] => some []
  | .abs binder _ body, .body :: path =>
      (body.bindersAt? path).map (binder :: ·)
  | .app function _, .function :: path => function.bindersAt? path
  | .app _ argument, .argument :: path => argument.bindersAt? path
  | _, _ => none

namespace Grammar

/-! ## Spans -/

/-- A left parenthesis joined with the last argument reaches over all tokens
from the one to the other. -/
theorem join_argument
    {left : Token}
    (inOrder : Token.InOrder (left :: (front ++ argumentTokens)))
    (nonempty : argumentTokens ≠ [])
    (argumentSpan : Token.InOrder argumentTokens ->
      span = Token.extent argumentTokens) :
    left.span.join span = Token.extent (left :: (front ++ argumentTokens)) := by
  have inside : argumentTokens <:+: left :: (front ++ argumentTokens) :=
    ⟨left :: front, [], by simp⟩
  rw [argumentSpan (inOrder.part inside)]
  exact inOrder.join_extent nonempty

/-- A term reaches over the tokens that it is read from. -/
theorem Reads.span_eq
    (reads : Reads closed tokens named term)
    (inOrder : Token.InOrder tokens) :
    term.span = Token.extent tokens := by
  induction reads with
  | name _ _ => rfl
  | @abs _ _ _ left lambda binder right declarationTokens bodyTokens =>
      have regrouped : left :: lambda :: binder ::
          (declarationTokens ++ (bodyTokens ++ [right])) =
          left :: ((lambda :: binder :: (declarationTokens ++ bodyTokens)) ++
            [right]) := by
        simp
      rw [regrouped] at inOrder ⊢
      exact inOrder.join_extent (List.cons_ne_nil right [])
  | first _ _ readsArgument _ argumentHypothesis =>
      exact join_argument inOrder readsArgument.ne_nil argumentHypothesis
  | further _ readsArgument _ argumentHypothesis =>
      exact join_argument inOrder readsArgument.ne_nil argumentHypothesis
  | @close _ _ _ right _ _ _ _ =>
      rw [Term.span_withSpan]
      exact inOrder.join_extent (List.cons_ne_nil right [])

/-- A function that is read by itself does not share the parentheses of its
application, and an unclosed one does. -/
theorem ReadsFunction.reads
    {left : Token}
    (readsFunction : ReadsFunction left front named function)
    (inOrder : Token.InOrder (left :: front))
    (starts : whole.lo = left.span.lo) :
    ∃ part, part <:+ left :: front ∧
      Reads (!function.sharesParentheses whole) part named function := by
  rcases readsFunction with ⟨_, alone⟩ | unclosed
  · have inside : front <:+ left :: front := List.suffix_cons left front
    have behind : left.span.lo < function.span.lo := by
      have apart := inOrder.extent_apart (List.cons_ne_nil left [])
        alone.ne_nil
      have positive := inOrder.nonempty left List.mem_cons_self
      rw [← alone.span_eq (inOrder.part inside.isInfix)] at apart
      exact Nat.lt_of_lt_of_le positive apart
    have closed : function.sharesParentheses whole = false := by
      cases function with
      | var _ _ => rfl
      | abs _ _ _ => rfl
      | app span _ _ =>
          change left.span.lo < span.lo at behind
          simp only [Term.sharesParentheses, starts, beq_eq_false_iff_ne]
          omega
    rw [closed]
    exact ⟨front, inside, alone⟩
  · have sameStart := congrArg Span.lo (unclosed.span_eq inOrder)
    have shares : function.sharesParentheses whole = true := by
      obtain ⟨_, _, _, _, _, _, _, _, _, rfl, _⟩ := unclosed.of_unclosed
      rw [Term.sharesParentheses, starts, beq_iff_eq]
      exact sameStart
    rw [shares]
    exact ⟨left :: front, List.suffix_refl _, unclosed⟩

/-- An application is read from the tokens of its function and, behind them,
those of its argument. -/
theorem Reads.parts
    (reads : Reads closed tokens named (.app span function argument))
    (inOrder : Token.InOrder tokens) :
    ∃ namedFunction namedArgument functionTokens argumentTokens,
      named = .app namedFunction namedArgument ∧
      functionTokens ++ argumentTokens <:+: tokens ∧
      Reads (!function.sharesParentheses span) functionTokens namedFunction
        function ∧
      Reads true argumentTokens namedArgument argument := by
  have starts := congrArg Span.lo (reads.span_eq inOrder)
  obtain ⟨left, front, argumentTokens, behind, namedFunction, namedArgument,
    rfl, isNamed, readsFunction, readsArgument⟩ := reads.of_app
  have frontInside : left :: front <:+:
      left :: (front ++ (argumentTokens ++ behind)) :=
    ⟨[], argumentTokens ++ behind, by simp⟩
  obtain ⟨functionTokens, ⟨before, split⟩, readsShared⟩ :=
    readsFunction.reads (inOrder.part frontInside) starts
  refine ⟨namedFunction, namedArgument, functionTokens, argumentTokens, isNamed,
    ⟨before, behind, ?_⟩, readsShared, readsArgument⟩
  rw [← List.append_assoc, split]
  simp

/-! ## Occurrences -/

/-- Some of the tokens are read as the term, and its names are bound in the
scope, which consists of identifiers. -/
structure Occurs
    (tokens : List Token)
    (types : TypePool)
    (scope : Scope)
    (closed : Bool)
    (named : NamedTerm)
    (term : Term) : Prop where
  /-- The tokens that the term is read from. -/
  reads : ∃ part, part <:+: tokens ∧ Reads closed part named term
  /-- The names are bound, and the declared types are numbered. -/
  resolves : ∃ start finish,
    named.resolve scope start = some (term.withoutSpans, finish) ∧
    finish.GrowsTo types
  /-- Binders have the names of identifiers. -/
  identifiers : ∀ name ∈ scope, name.isIdentifier = true

namespace Occurs

variable {tokens : List Token} {types : TypePool} {scope : Scope}

theorem body
    {inner : Term}
    (occurs : Occurs tokens types scope closed named (.abs span number inner))
    (identifiers : Identifiers (fun name => Text.isIdentifier name = true)
      tokens) :
    ∃ binder declared namedBody, named = .abs binder declared namedBody ∧
      Occurs tokens types (scope.extend binder) true namedBody inner := by
  obtain ⟨⟨part, inside, reads⟩, ⟨start, finish, resolved, grows⟩, areNames⟩ :=
    occurs
  obtain ⟨binder, declared, namedBody, bodyTokens, rfl, isBinder, member,
    bodyInside, readsBody⟩ := reads.of_abs
  refine ⟨binder.lexeme, declared, namedBody, rfl,
    ⟨bodyTokens, bodyInside.trans inside, readsBody⟩, ?_, ?_⟩
  · simp only [NamedTerm.resolve, Option.map_eq_some_iff, Prod.mk.injEq,
      Term.withoutSpans_abs, Term.abs.injEq] at resolved
    obtain ⟨⟨_, _⟩, bodyResolved, ⟨_, _, rfl⟩, rfl⟩ := resolved
    exact ⟨_, _, bodyResolved, grows⟩
  · exact List.forall_mem_cons.mpr
      ⟨identifiers binder (inside.mem member) isBinder, areNames⟩

theorem application
    (occurs : Occurs tokens types scope closed named
      (.app span function argument))
    (inOrder : Token.InOrder tokens) :
    ∃ namedFunction namedArgument, named = .app namedFunction namedArgument ∧
      Occurs tokens types scope (!function.sharesParentheses span)
        namedFunction function ∧
      Occurs tokens types scope true namedArgument argument := by
  obtain ⟨⟨part, inside, reads⟩, ⟨start, finish, resolved, grows⟩, areNames⟩ :=
    occurs
  obtain ⟨namedFunction, namedArgument, functionTokens, argumentTokens, rfl,
    partsInside, readsFunction, readsArgument⟩ :=
    reads.parts (inOrder.part inside)
  have bothInside := partsInside.trans inside
  simp only [NamedTerm.resolve, Option.bind_eq_some_iff,
    Option.map_eq_some_iff, Prod.mk.injEq, Term.withoutSpans_app,
    Term.app.injEq] at resolved
  obtain ⟨⟨_, _⟩, functionResolved, ⟨_, _⟩, argumentResolved, ⟨_, rfl, rfl⟩,
    rfl⟩ := resolved
  have functionGrows := (NamedTerm.grows_resolve argumentResolved).trans grows
  exact ⟨namedFunction, namedArgument, rfl,
    ⟨⟨functionTokens, (List.prefix_append _ _).isInfix.trans bothInside,
      readsFunction⟩, ⟨_, _, functionResolved, functionGrows⟩, areNames⟩,
    ⟨⟨argumentTokens, (List.suffix_append _ _).isInfix.trans bothInside,
      readsArgument⟩, ⟨_, _, argumentResolved, grows⟩, areNames⟩⟩

/-- Every node below one that occurs does so, too, in the scope of the binders on
its path. -/
theorem nodeAt
    (path : List Branch)
    (inOrder : Token.InOrder tokens)
    (identifiers : Identifiers (fun name => Text.isIdentifier name = true)
      tokens)
    (occurs : Occurs tokens types scope closed named term)
    (found : term.nodeAt? path = some node) :
    ∃ names namedNode, named.bindersAt? path = some names ∧
      Occurs tokens types (names.reverse ++ scope)
        (term.closedAt closed path) namedNode node := by
  induction path generalizing scope closed named term with
  | nil =>
      cases found
      refine ⟨[], named, ?_, ?_⟩
      · rw [NamedTerm.bindersAt?]
      · rw [Term.closedAt]
        exact occurs
  | cons branch path inductionHypothesis =>
      cases term with
      | var span index => cases branch <;> cases found
      | abs span number inner =>
          cases branch with
          | body =>
              obtain ⟨binder, declared, namedBody, rfl, bodyOccurs⟩ :=
                occurs.body identifiers
              obtain ⟨names, namedNode, binders, nodeOccurs⟩ :=
                inductionHypothesis bodyOccurs found
              refine ⟨binder :: names, namedNode, ?_, ?_⟩
              · rw [NamedTerm.bindersAt?, binders]
                rfl
              · rw [List.reverse_cons, List.append_assoc]
                exact nodeOccurs
          | function => cases found
          | argument => cases found
      | app span function argument =>
          obtain ⟨namedFunction, namedArgument, rfl, functionOccurs,
            argumentOccurs⟩ := occurs.application inOrder
          cases branch with
          | body => cases found
          | function => exact inductionHypothesis functionOccurs found
          | argument => exact inductionHypothesis argumentOccurs found

/-- What occurs is well placed.  A child is read from some of the tokens of its
node, so the span of the node covers it. -/
theorem wellPlaced
    (occurs : Occurs tokens types scope closed named node)
    (scans : Token.Scans file 0 source tokens) :
    node.WellPlaced file source := by
  obtain ⟨⟨part, inside, reads⟩, _, _⟩ := occurs
  have inOrder := scans.inOrder.part inside
  have isExtent := reads.span_eq inOrder
  constructor
  case inside =>
    obtain ⟨first, firstMember, last, lastMember, same⟩ :=
      Token.exists_mem_extent reads.ne_nil
    have sameFile := (scans.stands (inside.mem firstMember)).slice_eq.1
    have ends := (scans.stands (inside.mem lastMember)).bounds.2
    rw [Nat.zero_add] at ends
    rw [isExtent, same]
    exact ⟨sameFile, ends⟩
  case nonempty =>
    rw [isExtent]
    exact inOrder.extent_lt reads.ne_nil
  case covers =>
    have covered : ∀ {childClosed childTokens namedChild child},
        Reads childClosed childTokens namedChild child ->
        childTokens <:+: part ->
        node.span.lo ≤ child.span.lo ∧ child.span.hi ≤ node.span.hi := by
      intro _ childTokens _ child readsChild childInside
      rw [isExtent, readsChild.span_eq (inOrder.part childInside)]
      exact inOrder.extent_part childInside readsChild.ne_nil
    intro branch child found
    cases node with
    | var span index => cases found
    | abs span number body =>
        obtain ⟨_, _, _, _, _, _, _, bodyInside, readsBody⟩ := reads.of_abs
        cases branch with
        | body =>
            cases found
            exact covered readsBody bodyInside
        | function => cases found
        | argument => cases found
    | app span function argument =>
        obtain ⟨_, _, _, _, _, bothInside, readsFunction, readsArgument⟩ :=
          reads.parts inOrder
        cases branch with
        | body => cases found
        | function =>
            cases found
            exact covered readsFunction
              ((List.prefix_append _ _).isInfix.trans bothInside)
        | argument =>
            cases found
            exact covered readsArgument
              ((List.suffix_append _ _).isInfix.trans bothInside)
  case apart =>
    intro function argument isFunction isArgument
    cases node with
    | var span index => cases isFunction
    | abs span number body => cases isFunction
    | app span function argument =>
        cases isFunction
        cases isArgument
        obtain ⟨_, _, functionTokens, argumentTokens, _, bothInside,
          readsFunction, readsArgument⟩ := reads.parts inOrder
        have bothInOrder := inOrder.part bothInside
        have apart := bothInOrder.extent_apart readsFunction.ne_nil
          readsArgument.ne_nil
        rwa [← readsFunction.span_eq
            (bothInOrder.part (List.prefix_append _ _).isInfix),
          ← readsArgument.span_eq
            (bothInOrder.part (List.suffix_append _ _).isInfix)] at apart

/-- The bytes at the span of what occurs spell it, once it is closed. -/
theorem spellsTerm
    (occurs : Occurs tokens types scope closed named node)
    (scans : Token.Scans file 0 source tokens) :
    SpellsTerm
      (source.slice node.span.lo node.span.hi ++ if closed then [] else ")")
      named := by
  obtain ⟨⟨part, inside, reads⟩, _, _⟩ := occurs
  have isExtent := reads.span_eq (scans.inOrder.part inside)
  have spells := (scans.slice inside reads.ne_nil reads.noErrors).spells
    reads.noErrors
  rw [← isExtent] at spells
  cases closed with
  | true =>
      rw [if_pos rfl, List.append_nil]
      exact spells.spellsTerm reads.isTerm
  | false =>
      have isUnclosed : IsUnclosed part named := reads.derives
      have closing : Text.ofString ")" = [0x29] := by decide
      have closeSpells := Token.spells_spelling file
        (node.span.lo + (source.slice node.span.lo node.span.hi).length)
        Token.rightParenthesis_listed
      rw [if_neg Bool.false_ne_true, closing]
      exact (spells.append closeSpells rfl).spellsTerm (isUnclosed.close rfl)

end Occurs
end Grammar

/-! ## Parsed terms -/

/-- The bytes at the span of the node at the end of a path, with a right
parenthesis behind them if the node has none. -/
def Term.excerptAt
    (term : Term)
    (source : Text)
    (path : List Branch)
    (node : Term) : Text :=
  source.slice node.span.lo node.span.hi ++
    if term.closedAt true path then [] else ")"

/-- The spans of a parsed term denote its source text.  Every node is well
placed.  The bytes at its span, closed if need be, are parsed under the binders
around the node as the node under as many abstractions, without any diagnostic:
as any source, in any pool that goes on from the one that the term was parsed
in. -/
theorem parse_spans
    (file : Nat)
    (source : Text)
    (types : TypePool)
    (known : Diagnostics)
    (term : Term)
    (parsed : (parse file source types known).term = some term) :
    ∃ named, Grammar.IsTerm (Token.scan file 0 source) named ∧
      Translates (parse file source types known).types [] named term ∧
      ∀ path node, term.nodeAt? path = some node ->
        node.WellPlaced file source ∧
        ∃ names, named.bindersAt? path = some names ∧
          ∀ newFile later other,
            (parse file source types known).types.GrowsTo later ->
            Diagnostics.hasCode other .invalidUtf8 = false ->
            ∃ whole,
              parse newFile
                  ((term.excerptAt source path node).underBinders names) later
                  other =
                ⟨some whole, later, []⟩ ∧
              whole.alike (node.underBinders names.length) = true := by
  obtain ⟨valid, named, reads, resolved⟩ := parse_reads parsed
  have isUtf8 := (Text.firstInvalid?_eq_none_iff source).mp valid
  have scans := Token.scans_scan file 0 isUtf8
  have isTerm := reads.isTerm
  obtain ⟨_, translated⟩ :=
    NamedTerm.translates_of_resolve isTerm.declaresProper resolved
  refine ⟨named, isTerm, translated.of_withoutSpans, ?_⟩
  intro path node found
  have root : Grammar.Occurs (Token.scan file 0 source)
      (parse file source types known).types [] true named term :=
    ⟨⟨_, List.infix_refl _, reads⟩,
      ⟨_, _, resolved, TypePool.GrowsTo.refl _⟩, nofun⟩
  obtain ⟨names, namedNode, binders, occurs⟩ := root.nodeAt path scans.inOrder
    (Token.identifiers_scan file 0 isUtf8) found
  refine ⟨occurs.wellPlaced scans, names, binders, ?_⟩
  intro newFile later other grows trusted
  rw [List.append_nil] at occurs
  have areNames : ∀ name ∈ names, name.isIdentifier = true := by
    intro name member
    exact occurs.identifiers name (List.mem_reverse.mpr member)
  obtain ⟨start, finish, nodeResolved, nodeGrows⟩ := occurs.resolves
  obtain ⟨whole, wholeParsed, same⟩ :=
    (occurs.spellsTerm scans).parse_underBinders areNames nodeResolved
      (nodeGrows.trans grows) newFile other trusted
  refine ⟨whole, wholeParsed, ?_⟩
  rw [Term.alike_iff, same, Term.withoutSpans_underBinders]

/-- In `(λf:A→A. (f f f))` the inner application has the bytes `(f f`; closed and
under its one binder, it is parsed as it was. -/
theorem parse_spans_inner :
    let source : Text := "(λf:A→A. (f f f))"
    let inner := Term.app ⟨0, 12, 16⟩ (.var ⟨0, 13, 14⟩ 0) (.var ⟨0, 15, 16⟩ 0)
    let term := Term.abs ⟨0, 0, 20⟩ (some 2)
      (.app ⟨0, 12, 19⟩ inner (.var ⟨0, 17, 18⟩ 0))
    let first := parse 0 source .empty []
    first.term = some term ∧
      term.nodeAt? [.body, .function] = some inner ∧
      term.excerptAt source [.body, .function] inner = Text.ofString "(f f)" ∧
      inner.WellPlaced 0 source ∧
      ∃ binder whole,
        parse 1 (Text.underBinders [binder] "(f f)") first.types [] =
          ⟨some whole, first.types, []⟩ ∧
        whole.alike (inner.underBinders 1) = true := by
  intro source inner term first
  have parsed : first.term = some term := by decide +kernel
  have found : term.nodeAt? [.body, .function] = some inner := rfl
  have excerpt : term.excerptAt source [.body, .function] inner =
      Text.ofString "(f f)" := by
    decide +kernel
  obtain ⟨named, _, translated, nodes⟩ :=
    parse_spans 0 source .empty [] term parsed
  obtain ⟨wellPlaced, names, binders, reparsed⟩ := nodes _ _ found
  obtain ⟨whole, wholeParsed, same⟩ :=
    reparsed 1 first.types [] (TypePool.GrowsTo.refl _) rfl
  rw [excerpt] at wholeParsed
  simp only [term] at translated
  cases translated with
  | abs _ _ bodyTranslated =>
      cases bodyTranslated with
      | app _ _ _ =>
          simp only [NamedTerm.bindersAt?, Option.map_some,
            Option.some.injEq] at binders
          subst binders
          exact ⟨parsed, found, excerpt, wellPlaced, _, whole, wholeParsed, same⟩

end LambdaCalculus
