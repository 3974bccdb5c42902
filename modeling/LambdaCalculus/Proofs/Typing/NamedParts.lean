import LambdaCalculus.Proofs.Reduction.Steps
import LambdaCalculus.Proofs.Typing.FirstFault

/-!
# Named parts of a term

With names, a part of a term is written the same whether it is written in its
place or by itself, as long as the same number of binders is counted around it.
A term with a hole says what the place is: the text before the hole and the text
behind it do not depend on what fills the hole.  Only an application that stands
as a function leaves its parentheses to the application around it.  So an error
about an application shows its parts as the whole term does.
-/

namespace LambdaCalculus

/-! ## Terms with a hole -/

/-- A term with a hole in the place of one part. -/
inductive HoledTerm
  | hole
  /-- The hole is in the body of an abstraction. -/
  | inBody
      (span : Span)
      (declared : Option TypeId)
      (inside : HoledTerm)
  /-- The hole is in the function of an application. -/
  | inFunction
      (span : Span)
      (inside : HoledTerm)
      (argument : Term)
  /-- The hole is in the argument of an application. -/
  | inArgument
      (span : Span)
      (function : Term)
      (inside : HoledTerm)

namespace HoledTerm

/-- The term with the part in the place of the hole. -/
def fill
    (part : Term) : HoledTerm -> Term
  | .hole => part
  | .inBody span declared inside => .abs span declared (inside.fill part)
  | .inFunction span inside argument => .app span (inside.fill part) argument
  | .inArgument span function inside => .app span function (inside.fill part)

/-- The number of binders around the hole. -/
def binders : HoledTerm -> Nat
  | .hole => 0
  | .inBody _ _ inside => inside.binders + 1
  | .inFunction _ inside _ => inside.binders
  | .inArgument _ _ inside => inside.binders

/-- The hole is the function of an application, where `asFunction` says this of
the whole term. -/
def fillsFunction
    (asFunction : Bool) : HoledTerm -> Bool
  | .hole => asFunction
  | .inBody _ _ inside => inside.fillsFunction false
  | .inFunction _ inside _ => inside.fillsFunction true
  | .inArgument _ _ inside => inside.fillsFunction false

end HoledTerm

/-- A node stands in a term with a hole in its place, under the binders that the
context has gained. -/
theorem Term.Reaches.exists_fill
    (reaches : Reaches context term path enclosing node) :
    ∃ holed : HoledTerm,
      holed.fill node = term ∧
      enclosing.length = context.length + holed.binders := by
  induction reaches with
  | here => exact ⟨.hole, rfl, rfl⟩
  | @body declared context _ _ _ _ span reaches inductionHypothesis =>
      obtain ⟨inside, rfl, length⟩ := inductionHypothesis
      refine ⟨.inBody span (some declared) inside, rfl, ?_⟩
      rw [length, List.length_cons, HoledTerm.binders]
      omega
  | function span argument reaches inductionHypothesis =>
      obtain ⟨inside, rfl, length⟩ := inductionHypothesis
      exact ⟨.inFunction span inside argument, rfl, length⟩
  | argument span function reaches inductionHypothesis =>
      obtain ⟨inside, rfl, length⟩ := inductionHypothesis
      exact ⟨.inArgument span function inside, rfl, length⟩

/-! ## The text around a hole -/

namespace Term

theorem exists_enclose_eq
    (asFunction : Bool) :
    ∃ opening closing : Text, ∀ inner : Text,
      enclose asFunction inner = opening ++ inner ++ closing := by
  cases asFunction with
  | true => exact ⟨[], [], fun inner => (List.append_nil inner).symm⟩
  | false => exact ⟨"(", ")", fun inner => rfl⟩

/-- Only an application shows in its text that it is applied. -/
theorem named_asFunction_eq
    {term : Term}
    (types : TypePool)
    (level : Nat)
    (whole : asFunction = true -> term.isApplication = false) :
    term.named types asFunction level = term.named types false level := by
  cases term with
  | var => rfl
  | abs => rfl
  | app =>
      cases asFunction with
      | true => cases whole rfl
      | false => rfl

theorem named_of_isApplication
    {term : Term}
    (types : TypePool)
    (level : Nat)
    (application : term.isApplication = true) :
    term.named types false level =
      "(" ++ term.named types true level ++ ")" := by
  cases term with
  | var => cases application
  | abs => cases application
  | app => rfl

end Term

/-- What fills a hole is written between two texts that do not depend on it, with
the names that it has under the binders around the hole.  The two texts grow from
the hole to the root, where an application adds parentheses only if it is not
applied itself. -/
theorem HoledTerm.exists_named_fill_eq
    (types : TypePool)
    (holed : HoledTerm)
    (asFunction : Bool)
    (level : Nat)
    (small : level + holed.binders < Word.modulus) :
    ∃ before behind : Text, ∀ part : Term,
      (holed.fill part).named types asFunction level =
        before ++ part.named types (holed.fillsFunction asFunction)
          (level + holed.binders) ++ behind := by
  induction holed generalizing asFunction level with
  | hole =>
      refine ⟨[], [], fun part => ?_⟩
      rw [List.append_nil]
      rfl
  | inBody span declared inside inductionHypothesis =>
      rw [binders] at small
      have level_eq :
          level + (inside.binders + 1) = level + 1 + inside.binders := by omega
      rw [level_eq] at small
      obtain ⟨before, behind, written⟩ :=
        inductionHypothesis false (level + 1) small
      have next : Word.next level = level + 1 := Word.next_of_lt (by omega)
      refine ⟨"(λ" ++ binderName level ++ Term.declarationText types declared ++
        "." ++ before, behind ++ ")", fun part => ?_⟩
      rw [fill, Term.named, next, written, binders, level_eq, fillsFunction]
      simp only [List.append_assoc]
  | inFunction span inside argument inductionHypothesis =>
      obtain ⟨before, behind, written⟩ := inductionHypothesis true level small
      obtain ⟨opening, closing, enclosed⟩ := Term.exists_enclose_eq asFunction
      refine ⟨opening ++ before,
        behind ++ " " ++ argument.named types false level ++ closing,
        fun part => ?_⟩
      rw [fill, Term.named, enclosed, written, binders, fillsFunction]
      simp only [List.append_assoc]
  | inArgument span function inside inductionHypothesis =>
      obtain ⟨before, behind, written⟩ := inductionHypothesis false level small
      obtain ⟨opening, closing, enclosed⟩ := Term.exists_enclose_eq asFunction
      refine ⟨opening ++ function.named types true level ++ " " ++ before,
        behind ++ closing, fun part => ?_⟩
      rw [fill, Term.named, enclosed, written, binders, fillsFunction]
      simp only [List.append_assoc]

/-- The parts of an application are written one after the other, wherever the
application stands. -/
theorem HoledTerm.exists_named_fill_app_eq
    (types : TypePool)
    (holed : HoledTerm)
    (level : Nat)
    (small : level + holed.binders < Word.modulus)
    (span : Span)
    (function argument : Term) :
    ∃ before behind : Text,
      (holed.fill (.app span function argument)).named types false level =
        before ++ function.named types true (level + holed.binders) ++ " " ++
          argument.named types false (level + holed.binders) ++ behind := by
  obtain ⟨before, behind, written⟩ :=
    holed.exists_named_fill_eq types false level small
  obtain ⟨opening, closing, enclosed⟩ :=
    Term.exists_enclose_eq (holed.fillsFunction false)
  refine ⟨before ++ opening, closing ++ behind, ?_⟩
  rw [written, Term.named, enclosed]
  simp only [List.append_assoc]

/-! ## Parts in errors -/

/-- The application that an error is about stands in the term, under as many
binders as the error says. -/
theorem TypeError.exists_fill_of_check
    {error : TypeError}
    (failed : term.check types = ⟨.error error, later⟩)
    (isFault : error.fault =
      .invalidApplication function functionType argument argumentType) :
    ∃ holed : HoledTerm,
      holed.fill (.app error.span function argument) = term ∧
      holed.binders = error.binders := by
  obtain ⟨_, path, context, node, first, span, binders⟩ :=
    exists_firstFault_of_checkIn failed
  obtain ⟨holed, filled, length⟩ := first.reaches.exists_fill
  have faulty := first.faulty
  rw [isFault] at faulty
  cases faulty with
  | invalidApplication _ _ _ _ =>
      refine ⟨holed, span ▸ filled, ?_⟩
      rw [binders, length]
      exact (Nat.zero_add _).symm

/-- Named rendering is compositional: around a hole under `k` binders there are two
texts such that whatever fills the hole is written between them as it is by itself
under `k` more binders, except that an application that is applied leaves out its
parentheses.  So the function and the argument that an error about an application
shows stand side by side in the text of the whole term, the function without its
parentheses if it is an application.  The whole term stands under no binders, so
those around the error are all that count for the names. -/
theorem HoledTerm.render_named_compositional :
    (∀ (types : TypePool) (holed : HoledTerm) (outer : Nat),
      outer + holed.binders < Word.modulus ->
      ∃ before behind : Text,
        (∀ part : Term,
          (holed.fillsFunction false = true -> part.isApplication = false) ->
          (holed.fill part).render types .named outer =
            before ++ part.render types .named (outer + holed.binders) ++
              behind) ∧
        (∀ part : Term,
          holed.fillsFunction false = true -> part.isApplication = true ->
          ∃ inner : Text,
            part.render types .named (outer + holed.binders) =
              "(" ++ inner ++ ")" ∧
            (holed.fill part).render types .named outer =
              before ++ inner ++ behind)) ∧
    (∀ (types later : TypePool) (term : Term) (error : TypeError)
      (function : Term) (functionType : TypeId)
      (argument : Term) (argumentType : TypeId),
      term.check types = ⟨.error error, later⟩ ->
      error.fault =
        .invalidApplication function functionType argument argumentType ->
      error.binders < Word.modulus ->
      (∃ diagnostic, (term.check types).diagnostics = [diagnostic] ∧
        diagnostic.message = error.message later ∧
        diagnostic.arguments =
          [function.render later .named error.binders,
            later.text functionType,
            argument.render later .named error.binders,
            later.text argumentType]) ∧
      (∃ (holed : HoledTerm) (before written behind : Text),
        holed.fill (.app error.span function argument) = term ∧
        holed.binders = error.binders ∧
        term.render later .named 0 =
          before ++ written ++ " " ++
            argument.render later .named error.binders ++ behind ∧
        (function.isApplication = false ->
          function.render later .named error.binders = written) ∧
        (function.isApplication = true ->
          function.render later .named error.binders =
            "(" ++ written ++ ")"))) := by
  constructor
  · intro types holed outer small
    obtain ⟨before, behind, written⟩ :=
      holed.exists_named_fill_eq types false outer small
    refine ⟨before, behind, ?_, ?_⟩
    · intro part whole
      rw [Term.render, Term.render, written, Term.named_asFunction_eq types _ whole]
    · intro part place application
      refine ⟨part.named types true (outer + holed.binders),
        Term.named_of_isApplication types _ application, ?_⟩
      rw [← place]
      exact written part
  · intro types later term error function functionType argument argumentType
      failed isFault small
    refine ⟨⟨error.diagnostic later, ?added, ?message, ?arguments⟩, ?place⟩
    case added =>
      rw [failed]
      rfl
    case message =>
      exact error.message_diagnostic later (by rw [isFault]; nofun)
    case arguments =>
      rw [TypeError.diagnostic, TypeError.arguments, isFault]
    case place =>
      obtain ⟨holed, rfl, binders⟩ := TypeError.exists_fill_of_check failed isFault
      rw [← binders, ← Nat.zero_add holed.binders] at small ⊢
      obtain ⟨before, behind, written⟩ :=
        holed.exists_named_fill_app_eq later 0 small error.span function argument
      refine ⟨holed, before, function.named later true (0 + holed.binders), behind,
        rfl, (Nat.zero_add _).symm, written, ?_, ?_⟩
      · intro whole
        exact (Term.named_asFunction_eq later _ fun _ => whole).symm
      · intro application
        exact Term.named_of_isApplication later _ application

/-- In `λf:A→A. λx:A. f x x` the type of `f x` is no function type.  The error shows
the function as `(a b)`, and the whole term shows it as `a b`. -/
theorem HoledTerm.render_named_compositional_flattened :
    let types := ((TypePool.empty.base "A").2.function 1 1).2
    let last := Term.var ⟨0, 22, 23⟩ 0
    let applied := Term.app ⟨0, 18, 21⟩ (.var ⟨0, 18, 19⟩ 1) (.var ⟨0, 20, 21⟩ 0)
    let holed := HoledTerm.inBody ⟨0, 0, 23⟩ (some 2)
      (.inBody ⟨0, 11, 23⟩ (some 1) (.inFunction ⟨0, 18, 23⟩ .hole last))
    let error : TypeError :=
      ⟨⟨0, 18, 23⟩, 2, .invalidApplication applied 1 last 1⟩
    (∃ before behind : Text,
      (holed.fill last).render types .named 0 = before ++ "b" ++ behind ∧
      ∃ inner : Text,
        Text.ofString "(a b)" = "(" ++ inner ++ ")" ∧
        (holed.fill applied).render types .named 0 = before ++ inner ++ behind) ∧
    (holed.fill applied).check types = ⟨.error error, types⟩ ∧
    ∃ before written behind : Text,
      Text.ofString "(λa:(A)→A.(λb:A.(a b b)))" =
        before ++ written ++ " " ++ "b" ++ behind ∧
      Text.ofString "(a b)" = "(" ++ written ++ ")" := by
  intro types last applied holed error
  have lastText : last.render types .named 2 = "b" := by decide +kernel
  have appliedText : applied.render types .named 2 = "(a b)" := by decide +kernel
  have wholeText : (holed.fill applied).render types .named 0 =
      "(λa:(A)→A.(λb:A.(a b b)))" := by
    decide +kernel
  have failed : (holed.fill applied).check types = ⟨.error error, types⟩ := rfl
  obtain ⟨compositional, inErrors⟩ := HoledTerm.render_named_compositional
  rw [← lastText, ← appliedText, ← wholeText]
  obtain ⟨before, behind, alone, flattened⟩ :=
    compositional types holed 0 (by decide)
  refine ⟨⟨before, behind, alone last (fun _ => rfl),
    flattened applied rfl rfl⟩, failed, ?_⟩
  obtain ⟨_, _, before, written, behind, _, _, whole, _, parenthesized⟩ :=
    inErrors types types _ error applied 1 last 1 failed rfl (by decide)
  exact ⟨before, written, behind, whole, parenthesized rfl⟩

end LambdaCalculus
