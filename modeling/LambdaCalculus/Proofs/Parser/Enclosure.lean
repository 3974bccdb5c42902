import LambdaCalculus.Proofs.Parser.Juxtaposition

/-!
# Texts under binders

A text that stands for a term with free names becomes a program when binders of
these names are put around it.  If the types that the term declares have been
numbered before, the program is parsed without numbering any, and it is the term
under as many abstractions.
-/

namespace LambdaCalculus

/-! ## Numbering again -/

/-- A type that has been numbered keeps its number. -/
theorem TypeTree.number_again
    {types later : TypePool}
    (tree : TypeTree)
    (grows : (tree.number types).2.GrowsTo later) :
    tree.number later = ((tree.number types).1, later) := by
  induction tree generalizing types with
  | invalid => rfl
  | error => rfl
  | base name =>
      exact (TypePool.interned_intern types (.base name)).grow grows
  | arrow parameter result parameterHypothesis resultHypothesis =>
      have formed := TypePool.interned_intern
        (result.number (parameter.number types).2).2
        (.function (parameter.number types).1
          (result.number (parameter.number types).2).1)
      have resultGrows := (TypePool.grows_intern _ _).trans grows
      have parameterGrows := (result.grows_number _).trans resultGrows
      rw [number, parameterHypothesis parameterGrows]
      simp only [resultHypothesis resultGrows]
      exact formed.grow grows

namespace NamedTerm

theorem numberDeclared_again
    {types later : TypePool}
    (declared : Option TypeTree)
    (grows : (numberDeclared declared types).2.GrowsTo later) :
    numberDeclared declared later =
      ((numberDeclared declared types).1, later) := by
  cases declared with
  | none => rfl
  | some tree =>
      rw [numberDeclared, tree.number_again grows]
      rfl

/-- A term whose types have been numbered is resolved as before, and nothing is
numbered any more. -/
theorem resolve_again
    {named : NamedTerm}
    (resolved : named.resolve scope types = some (term, later))
    (grows : later.GrowsTo much) :
    named.resolve scope much = some (term, much) := by
  induction named generalizing scope types term later with
  | var name =>
      simp only [resolve, Option.map_eq_some_iff, Prod.mk.injEq] at resolved
      obtain ⟨index, found, rfl, rfl⟩ := resolved
      rw [resolve, found]
      rfl
  | abs binder declared body bodyHypothesis =>
      simp only [resolve, Option.map_eq_some_iff, Prod.mk.injEq] at resolved
      obtain ⟨⟨bodyTerm, _⟩, bodyResolved, rfl, rfl⟩ := resolved
      have declaredAgain := numberDeclared_again declared
        ((grows_resolve bodyResolved).trans grows)
      rw [resolve, declaredAgain, bodyHypothesis bodyResolved grows]
      rfl
  | app function argument functionHypothesis argumentHypothesis =>
      simp only [resolve, Option.bind_eq_some_iff, Option.map_eq_some_iff,
        Prod.mk.injEq] at resolved
      obtain ⟨⟨functionTerm, _⟩, functionResolved, ⟨argumentTerm, _⟩,
        argumentResolved, rfl, rfl⟩ := resolved
      have functionAgain := functionHypothesis functionResolved
        ((grows_resolve argumentResolved).trans grows)
      have argumentAgain := argumentHypothesis argumentResolved grows
      simp only [resolve, functionAgain, Option.bind_some, argumentAgain,
        Option.map_some]

end NamedTerm

/-! ## Binders -/

/-- The text under binders of the names, outermost first. -/
def Text.underBinders
    (names : List Text)
    (text : Text) : Text :=
  names.foldr (fun name inner => "(λ" ++ name ++ "." ++ inner ++ ")") text

/-- The named term under binders of the names, outermost first. -/
def NamedTerm.underBinders
    (names : List Text)
    (named : NamedTerm) : NamedTerm :=
  names.foldr (fun name inner => .abs name none inner) named

/-- So many abstractions around a term. -/
def Term.underBinders : Nat -> Term -> Term
  | 0, term => term
  | count + 1, term => .abs .nowhere none (term.underBinders count)

theorem Term.withoutSpans_underBinders
    (count : Nat)
    (term : Term) :
    (term.underBinders count).withoutSpans =
      term.withoutSpans.underBinders count := by
  induction count with
  | zero => rfl
  | succ count inductionHypothesis =>
      rw [underBinders, withoutSpans_abs, inductionHypothesis]
      rfl

/-- The names of binders come into scope, the innermost one first. -/
theorem NamedTerm.resolve_underBinders
    {named : NamedTerm}
    {names : List Text}
    {term : Term}
    (resolved : named.resolve (names.reverse ++ scope) types =
      some (term, later)) :
    (named.underBinders names).resolve scope types =
      some (term.underBinders names.length, later) := by
  induction names generalizing scope with
  | nil => exact resolved
  | cons name names inductionHypothesis =>
      rw [List.reverse_cons, List.append_assoc] at resolved
      have inner : (named.underBinders names).resolve (scope.extend name)
          types = _ :=
        inductionHypothesis resolved
      change (NamedTerm.abs name none (named.underBinders names)).resolve scope
        types = _
      rw [resolve, numberDeclared, inner]
      rfl

/-- Wherever the text stands, it spells the term. -/
def SpellsTerm
    (text : Text)
    (named : NamedTerm) : Prop :=
  ∀ file offset, ∃ tokens, Token.Spells file offset text tokens ∧
    Grammar.IsTerm tokens named

/-- A text that spells a term at one place spells it everywhere. -/
theorem Token.Spells.spellsTerm
    (spells : Spells file start text tokens)
    (isTerm : Grammar.IsTerm tokens named) :
    SpellsTerm text named := by
  intro newFile offset
  rw [← spells.scan_eq] at isTerm
  have moved := isTerm.moved newFile offset
  have isUtf8 := (Text.firstInvalid?_eq_none_iff text).mp spells.valid
  exact ⟨_, (scans_scan newFile offset isUtf8).spells moved.noErrors, moved⟩

theorem SpellsTerm.underBinder
    {text : Text}
    (spells : SpellsTerm text named)
    (isName : name.isIdentifier = true) :
    SpellsTerm ("(λ" ++ name ++ "." ++ text ++ ")") (.abs name none named) := by
  intro file offset
  have opening : Text.ofString "(λ" = [0x28, 0xCE, 0xBB] := by decide
  have dot : Text.ofString "." = [0x2E] := by decide
  have closing : Text.ofString ")" = [0x29] := by decide
  have whole := Term.spells_abs file offset TypePool.Built.empty.wellFormed
    isName none rfl (spells file)
  simpa [opening, dot, closing, Term.declarationText] using whole

theorem SpellsTerm.underBinders
    {names : List Text}
    {text : Text}
    (spells : SpellsTerm text named)
    (areNames : ∀ name ∈ names, name.isIdentifier = true) :
    SpellsTerm (text.underBinders names) (named.underBinders names) := by
  induction names with
  | nil => exact spells
  | cons name names inductionHypothesis =>
      obtain ⟨isName, others⟩ := List.forall_mem_cons.mp areNames
      exact (inductionHypothesis others).underBinder isName

/-- Under binders of the names in scope a text is parsed as the term that it
stands for under as many abstractions, and the pool stays as it is. -/
theorem SpellsTerm.parse_underBinders
    {names : List Text}
    {text : Text}
    (spells : SpellsTerm text named)
    (areNames : ∀ name ∈ names, name.isIdentifier = true)
    (resolved : named.resolve names.reverse start = some (term, finish))
    (grows : finish.GrowsTo types)
    (file : Nat)
    (known : Diagnostics)
    (trusted : Diagnostics.hasCode known .invalidUtf8 = false) :
    ∃ whole,
      parse file (text.underBinders names) types known =
        ⟨some whole, types, []⟩ ∧
      whole.withoutSpans = term.underBinders names.length := by
  obtain ⟨tokens, wholeSpells, isWhole⟩ := spells.underBinders areNames file 0
  have again := NamedTerm.resolve_again resolved grows
  rw [← List.append_nil names.reverse] at again
  rw [← wholeSpells.scan_eq] at isWhole
  exact parse_complete file known wholeSpells.valid isWhole
    (NamedTerm.resolve_underBinders again) trusted

end LambdaCalculus
