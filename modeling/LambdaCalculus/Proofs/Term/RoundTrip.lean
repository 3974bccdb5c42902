import LambdaCalculus.Proofs.Parser.Completeness
import LambdaCalculus.Proofs.Token.Scan
import LambdaCalculus.Proofs.Types.Names

/-!
# Printed terms are read back

A closed term in the named style is a program that stands for the same term.
The printed text spells tokens that the grammar derives, the names of the
binders around a place are all different, so each name resolves to the index
that it was printed for, and the printed types have their numbers already.
-/

namespace LambdaCalculus

/-! ## Printed types -/

namespace TypeTree

theorem text_arrow
    (parameter result : TypeTree) :
    (arrow parameter result).text =
      0x28 :: (parameter.text ++ 0x29 :: 0xE2 :: 0x86 :: 0x92 :: result.text) := by
  have left : Text.ofString "(" = [0x28] := by decide
  have arrow : Text.ofString ")→" = [0x29, 0xE2, 0x86, 0x92] := by decide
  simp [text, left, arrow]

/-- A printed type spells tokens that are this type. -/
theorem spells_text
    (file offset : Nat)
    (tree : TypeTree)
    (proper : tree.isProper = true)
    (named : tree.NamedBy fun name => Text.isIdentifier name = true) :
    ∃ tokens,
      Token.Spells file offset tree.text tokens ∧
      Grammar.IsType tokens tree := by
  induction tree generalizing offset with
  | invalid => simp [isProper] at proper
  | error => simp [isProper] at proper
  | base name =>
      exact ⟨_, Token.spells_identifier file offset name named,
        .atom (.name rfl)⟩
  | arrow parameter result parameterHypothesis resultHypothesis =>
      simp only [isProper, Bool.and_eq_true] at proper
      obtain ⟨parameterTokens, parameterSpells, isParameter⟩ :=
        parameterHypothesis (offset + 1) proper.1 named.1
      obtain ⟨resultTokens, resultSpells, isResult⟩ :=
        resultHypothesis (offset + 1 + parameter.text.length + 1 + 3)
          proper.2 named.2
      have arrowSpells := resultSpells.spelling_append Token.arrow_listed
      have closeSpells :=
        arrowSpells.spelling_append Token.rightParenthesis_listed
      have wholeSpells := (parameterSpells.append closeSpells
        rfl).spelling_append Token.leftParenthesis_listed
      rw [text_arrow]
      exact ⟨_, wholeSpells,
        .arrow_of_group rfl isParameter rfl rfl isResult⟩

end TypeTree

/-! ## Names of binders -/

/-- The names of so many binders, innermost first. -/
def binderScope : Nat -> Scope
  | 0 => []
  | level + 1 => (binderScope level).extend (binderName level)

/-- Each binder is found under its own name. -/
theorem index?_binderScope
    (index level : Nat)
    (bound : index < level) :
    (binderScope level).index? (binderName (level - 1 - index)) =
      some index := by
  induction level generalizing index with
  | zero => omega
  | succ level inductionHypothesis =>
      simp only [binderScope, Scope.extend, Scope.index?, List.idxOf?_cons]
      cases index with
      | zero => simp
      | succ index =>
          have different :
              binderName level ≠ binderName (level + 1 - 1 - (index + 1)) := by
            intro equal
            have sameLevel := binderName_injective equal
            omega
          have inner := inductionHypothesis index (by omega)
          rw [show level + 1 - 1 - (index + 1) = level - 1 - index by omega]
            at different ⊢
          simp only [Scope.index?] at inner
          simp [different, inner]

namespace Term

/-- The term with the names that it is printed with under `level` binders. -/
def toNamed
    (types : TypePool)
    (level : Nat) : Term -> NamedTerm
  | .var _ index => .var (variableName level index)
  | .abs _ declared body =>
      .abs (binderName level) (declared.map types.tree)
        (body.toNamed types (level + 1))
  | .app _ function argument =>
      .app (function.toNamed types level) (argument.toNamed types level)

/-- The printed names resolve to the term itself, and its types are numbered
already. -/
theorem resolve_toNamed
    {types : TypePool}
    (wellFormed : types.WellFormed permitted)
    (level : Nat)
    (term : Term)
    (closed : term.closedUnder level = true)
    (declares : term.declaresOnly
      (fun type => (types.tree type).isProper) = true) :
    (term.toNamed types level).resolve (binderScope level) types =
      some (term.withoutSpans, types) := by
  induction term generalizing level with
  | var span index =>
      have bound : index < level := by simpa using closed
      simp [toNamed, NamedTerm.resolve, variableName, bound,
        index?_binderScope index level bound]
  | abs span declared body bodyHypothesis =>
      simp only [declaresOnly, Bool.and_eq_true] at declares
      have bodyResolved := bodyHypothesis (level + 1) closed declares.2
      have numbered : NamedTerm.numberDeclared (declared.map types.tree)
          types = (declared, types) := by
        cases declared with
        | none => rfl
        | some type =>
            have proper : (types.tree type).isProper = true := by
              simpa using declares.1
            simp [NamedTerm.numberDeclared, wellFormed.number_tree proper]
      simp only [toNamed, NamedTerm.resolve, numbered]
      rw [show (binderScope level).extend (binderName level) =
        binderScope (level + 1) from rfl, bodyResolved]
      rfl
  | app span function argument functionHypothesis argumentHypothesis =>
      simp only [closedUnder_app, Bool.and_eq_true] at closed
      simp only [declaresOnly, Bool.and_eq_true] at declares
      simp [toNamed, NamedTerm.resolve,
        functionHypothesis level closed.1 declares.1,
        argumentHypothesis level closed.2 declares.2]

/-! ## Printed terms -/

theorem declarationText_some
    (types : TypePool)
    (type : TypeId) :
    declarationText types (some type) = 0x3A :: types.text type := by
  have colon : Text.ofString ":" = [0x3A] := by decide
  simp [declarationText, colon]

/-- What is printed behind the name of a binder ends the name. -/
theorem endsWord_declaration
    (types : TypePool)
    (declared : Option TypeId)
    (rest : Text) :
    Text.endsWord (declarationText types declared ++ 0x2E :: rest) = true := by
  cases declared with
  | none => rfl
  | some type =>
      rw [declarationText_some]
      rfl

/-- What is printed between the name and the body of an abstraction spells a
declaration of the same type. -/
theorem spells_declaration
    {types : TypePool}
    (file offset : Nat)
    (declared : Option TypeId)
    (wellFormed : types.WellFormed fun name => Text.isIdentifier name = true)
    (proper : declared.all (fun type => (types.tree type).isProper) = true)
    (restSpells : Token.Spells file
      (offset + (declarationText types declared).length + 1) rest restTokens) :
    ∃ tokens,
      Token.Spells file offset
        (declarationText types declared ++ 0x2E :: rest)
        (tokens ++ restTokens) ∧
      Grammar.IsDeclaration tokens (declared.map types.tree) := by
  have dotSpells := restSpells.spelling_append Token.dot_listed
  cases declared with
  | none =>
      let dot := Token.placed .dot file offset [0x2E]
      exact ⟨[dot], dotSpells, .dot rfl⟩
  | some type =>
      obtain ⟨typeTokens, typeSpells, isType⟩ := (types.tree type).spells_text
        file (offset + 1) (by simpa using proper) (wellFormed.namedBy.tree type)
      rw [declarationText_some, List.length_cons, Nat.add_comm _ 1,
        ← Nat.add_assoc] at dotSpells
      have wholeSpells := (typeSpells.append dotSpells rfl).spelling_append
        Token.colon_listed
      rw [declarationText_some]
      let colon := Token.placed .colon file offset [0x3A]
      let dot := Token.placed .dot file
        (offset + 1 + (types.text type).length) [0x2E]
      refine ⟨colon :: (typeTokens ++ [dot]), ?_, .declared rfl isType rfl⟩
      simpa [colon, dot, TypePool.text] using wholeSpells

/-- The text spells a function and arguments one behind the other. -/
def SpellsSpine
    (file offset : Nat)
    (text : Text)
    (function : NamedTerm)
    (arguments : List NamedTerm) : Prop :=
  ∃ functionTokens argumentTokens,
    Token.Spells file offset text (functionTokens ++ argumentTokens) ∧
    Grammar.IsTerm functionTokens function ∧
    Grammar.AreTerms argumentTokens arguments

/-- A term is a function without arguments. -/
theorem spellsSpine_of_term
    (spells : ∃ tokens,
      Token.Spells file offset text tokens ∧ Grammar.IsTerm tokens tree) :
    (∃ tokens,
      Token.Spells file offset text tokens ∧ Grammar.IsTerm tokens tree) ∧
    (∃ function arguments,
      SpellsSpine file offset text function arguments ∧
      arguments.foldl .app function = tree) := by
  refine ⟨spells, ?_⟩
  obtain ⟨tokens, tokensSpelled, isTerm⟩ := spells
  refine ⟨tree, [], ⟨tokens, [], ?_, isTerm, .nil⟩, rfl⟩
  rwa [List.append_nil]

/-- One more argument behind a blank. -/
theorem SpellsSpine.apply
    {arguments : List NamedTerm}
    (spine : SpellsSpine file offset text function arguments)
    (spells : Token.Spells file (offset + text.length + 1) argumentText tokens)
    (isArgument : Grammar.IsTerm tokens argument) :
    SpellsSpine file offset (text ++ 0x20 :: argumentText) function
      (arguments ++ [argument]) := by
  obtain ⟨functionTokens, argumentTokens, spineSpells, isFunction,
    areArguments⟩ := spine
  refine ⟨functionTokens, argumentTokens ++ tokens, ?_, isFunction,
    areArguments.append (.single isArgument)⟩
  have blankSpells : Token.Spells file (offset + text.length)
      (0x20 :: argumentText) tokens := spells.blank_append rfl
  have wholeSpells := spineSpells.append blankSpells rfl
  rwa [List.append_assoc] at wholeSpells

/-- A function with arguments is a term when it stands in parentheses. -/
theorem SpellsSpine.enclose
    {arguments : List NamedTerm}
    (spine : SpellsSpine file (offset + 1) text function arguments)
    (nonempty : arguments ≠ []) :
    ∃ tokens,
      Token.Spells file offset (0x28 :: (text ++ [0x29])) tokens ∧
      Grammar.IsTerm tokens (arguments.foldl .app function) := by
  obtain ⟨functionTokens, argumentTokens, spineSpells, isFunction,
    areArguments⟩ := spine
  have closeSpells := Token.spells_spelling file (offset + 1 + text.length)
    Token.rightParenthesis_listed
  have wholeSpells := (spineSpells.append closeSpells rfl).spelling_append
    Token.leftParenthesis_listed
  rw [List.append_assoc] at wholeSpells
  exact ⟨_, wholeSpells, .app rfl isFunction areArguments nonempty rfl⟩

theorem named_abs
    (types : TypePool)
    (asFunction : Bool)
    (level : Nat)
    (span : Span)
    (declared : Option TypeId)
    (body : Term)
    (small : level + 1 < Word.modulus) :
    (abs span declared body).named types asFunction level =
      0x28 :: 0xCE :: 0xBB :: (binderName level ++
        (declarationText types declared ++
          0x2E :: (body.named types false (level + 1) ++ [0x29]))) := by
  have opening : Text.ofString "(λ" = [0x28, 0xCE, 0xBB] := by decide
  have dot : Text.ofString "." = [0x2E] := by decide
  have closing : Text.ofString ")" = [0x29] := by decide
  simp [named, Word.next_of_lt small, opening, dot, closing]

theorem named_app_asFunction
    (types : TypePool)
    (level : Nat)
    (span : Span)
    (function argument : Term) :
    (app span function argument).named types true level =
      function.named types true level ++
        0x20 :: argument.named types false level := by
  have blank : Text.ofString " " = [0x20] := by decide
  simp [named, enclose, blank]

theorem named_app
    (types : TypePool)
    (level : Nat)
    (span : Span)
    (function argument : Term) :
    (app span function argument).named types false level =
      0x28 :: ((app span function argument).named types true level ++
        [0x29]) := by
  have opening : Text.ofString "(" = [0x28] := by decide
  have closing : Text.ofString ")" = [0x29] := by decide
  simp [named, enclose, opening, closing]

/-- An abstraction spells a term if its body does. -/
theorem spells_abs
    {types : TypePool}
    (file offset : Nat)
    (wellFormed : types.WellFormed fun name => Text.isIdentifier name = true)
    (isName : binder.isIdentifier = true)
    (declared : Option TypeId)
    (proper : declared.all (fun type => (types.tree type).isProper) = true)
    (bodySpells : ∀ place, ∃ tokens,
      Token.Spells file place bodyText tokens ∧
      Grammar.IsTerm tokens bodyNamed) :
    ∃ tokens,
      Token.Spells file offset
        (0x28 :: 0xCE :: 0xBB :: (binder ++
          (declarationText types declared ++ 0x2E :: (bodyText ++ [0x29]))))
        tokens ∧
      Grammar.IsTerm tokens
        (.abs binder (declared.map types.tree) bodyNamed) := by
  let binderPlace := offset + 1 + 2
  let declarationPlace := binderPlace + binder.length
  let bodyPlace :=
    declarationPlace + (declarationText types declared).length + 1
  obtain ⟨bodyTokens, bodySpelled, isBody⟩ := bodySpells bodyPlace
  have closeSpells := Token.spells_spelling file
    (bodyPlace + bodyText.length) Token.rightParenthesis_listed
  obtain ⟨declarationTokens, declarationSpells, isDeclaration⟩ :=
    spells_declaration file declarationPlace declared wellFormed proper
      (bodySpelled.append closeSpells rfl)
  have binderSpells := Token.spells_identifier file binderPlace binder isName
  have headSpells := binderSpells.append declarationSpells
    (endsWord_declaration types declared _)
  have wholeSpells := (headSpells.spelling_append
    Token.lambda_listed).spelling_append Token.leftParenthesis_listed
  exact ⟨_, wholeSpells, .abs rfl rfl rfl isDeclaration isBody rfl⟩

/-- A printed term spells tokens that are the term with its printed names;
without the parentheses around it, a printed application still spells a
function with its arguments. -/
theorem spells_named
    {types : TypePool}
    (file offset : Nat)
    (wellFormed : types.WellFormed fun name => Text.isIdentifier name = true)
    (level : Nat)
    (term : Term)
    (closed : term.closedUnder level = true)
    (shallow : level + term.binderDepth < Word.modulus)
    (declares : term.declaresOnly
      (fun type => (types.tree type).isProper) = true) :
    (∃ tokens,
      Token.Spells file offset (term.named types false level) tokens ∧
      Grammar.IsTerm tokens (term.toNamed types level)) ∧
    (∃ function arguments,
      SpellsSpine file offset (term.named types true level) function
        arguments ∧
      arguments.foldl .app function = term.toNamed types level) := by
  induction term generalizing offset level with
  | var span index =>
      have bound : index < level := by simpa using closed
      have isName : (variableName level index).isIdentifier = true := by
        rw [variableName, if_pos bound]
        exact isIdentifier_binderName _
      exact spellsSpine_of_term ⟨_,
        Token.spells_identifier file offset _ isName, .name rfl⟩
  | abs span declared body bodyHypothesis =>
      simp only [binderDepth] at shallow
      simp only [declaresOnly, Bool.and_eq_true] at declares
      have bodySpells := fun place => (bodyHypothesis place (level + 1)
        closed (by omega) declares.2).1
      have wholeSpells := spells_abs file offset wellFormed
        (isIdentifier_binderName level) declared declares.1 bodySpells
      have printed := fun asFunction =>
        named_abs types asFunction level span declared body (by omega)
      rw [printed false, printed true]
      exact spellsSpine_of_term wholeSpells
  | app span function argument functionHypothesis argumentHypothesis =>
      simp only [closedUnder_app, Bool.and_eq_true] at closed
      simp only [binderDepth] at shallow
      simp only [declaresOnly, Bool.and_eq_true] at declares
      have spine : ∀ place, ∃ head arguments,
          SpellsSpine file place
            ((app span function argument).named types true level) head
            arguments ∧
          arguments ≠ [] ∧
          arguments.foldl .app head =
            (app span function argument).toNamed types level := by
        intro place
        obtain ⟨_, head, arguments, functionSpells, folded⟩ :=
          functionHypothesis place level closed.1 (by omega) declares.1
        obtain ⟨⟨tokens, argumentSpells, isArgument⟩, _⟩ :=
          argumentHypothesis
            (place + (function.named types true level).length + 1) level
            closed.2 (by omega) declares.2
        rw [named_app_asFunction]
        refine ⟨head, _, functionSpells.apply argumentSpells isArgument,
          by simp, ?_⟩
        rw [List.foldl_append, folded]
        rfl
      constructor
      · obtain ⟨head, arguments, spells, nonempty, folded⟩ :=
          spine (offset + 1)
        rw [named_app, ← folded]
        exact spells.enclose nonempty
      · obtain ⟨head, arguments, spells, _, folded⟩ := spine offset
        exact ⟨head, arguments, spells, folded⟩

/-! ## The round trip -/

/-- A closed term whose declared types are proper is read back from its named
form: with the same structure, indices and declared types, without any
diagnostic, and without a change to the pool. -/
theorem parse_render_named
    (file : Nat)
    (types : TypePool)
    (term : Term)
    (built : types.Built fun name => Text.isIdentifier name = true)
    (closed : term.closed = true)
    (shallow : term.binderDepth < Word.modulus)
    (declares : term.declaresOnly
      (fun type => (types.tree type).isProper) = true) :
    ∃ read,
      parse file (term.render types .named 0) types [] =
        ⟨some read, types, []⟩ ∧
      term.alike read = true := by
  have wellFormed := built.wellFormed
  obtain ⟨⟨tokens, spells, isTerm⟩, _⟩ := spells_named file 0 wellFormed 0
    term closed (by omega) declares
  have resolved := resolve_toNamed wellFormed 0 term closed declares
  rw [← spells.scan_eq] at isTerm
  obtain ⟨read, parsed, same⟩ := parse_complete file [] spells.valid
    isTerm resolved rfl
  exact ⟨read, parsed, (alike_iff term read).mpr same.symm⟩

/-- The round trip of `(λa:(A)→A.(λb:A.(a (a b))))`. -/
theorem parse_render_named_twice :
    let types := ((TypePool.empty.base "A").2.function 1 1).2
    let term := abs .nowhere (some 2) (.abs .nowhere (some 1)
      (.app .nowhere (.var .nowhere 1)
        (.app .nowhere (.var .nowhere 1) (.var .nowhere 0))))
    ∃ read,
      parse 0 (term.render types .named 0) types [] =
        ⟨some read, types, []⟩ ∧
      term.alike read = true := by
  intro types term
  have built : types.Built fun name => Text.isIdentifier name = true := by
    apply TypePool.Built.function
    · exact .base .empty (by decide)
    · decide
    · decide
  exact parse_render_named 0 types term built (by decide) (by decide)
    (by decide)

end Term
end LambdaCalculus
