import LambdaCalculus.Proofs.Parser.Completion

/-!
# The fuel of the parser does not matter

With more fuel a parser does the same, except that it may go on where it had
stopped for lack of fuel.  The fuel computed from the tokens is enough, so every
fuel with which the parser does not run out gives the result that this one
gives.
-/

namespace LambdaCalculus
namespace Parser

/-- The second parser gives what the first one gives, unless that has run out
of fuel. -/
def ExtendedBy (poorer richer : Parser Value) : Prop :=
  ∀ tokens types,
    (∃ later, poorer tokens types = .stopped .outOfFuel later) ∨
      richer tokens types = poorer tokens types

namespace ExtendedBy

theorem refl
    (parser : Parser Value) :
    ExtendedBy parser parser :=
  fun _ _ => Or.inr rfl

theorem outOfFuel
    (richer : Parser Value) :
    ExtendedBy (stop .outOfFuel) richer :=
  fun _ types => Or.inl ⟨types, rfl⟩

theorem bind
    {poorer richer : Parser Value}
    {next richerNext : Value -> Parser Other}
    (extended : ExtendedBy poorer richer)
    (nextExtended : ∀ value, ExtendedBy (next value) (richerNext value)) :
    ExtendedBy (poorer >>= next) (richer >>= richerNext) := by
  intro tokens types
  simp only [bind_apply]
  rcases extended tokens types with ⟨later, exhausted⟩ | same
  · exact Or.inl ⟨later, by rw [exhausted]⟩
  · rw [same]
    cases poorer tokens types with
    | done value rest between => exact nextExtended value rest between
    | stopped reason between => exact Or.inr rfl

end ExtendedBy

/-! ## More fuel -/

theorem types_and_atoms_extendedBy
    (finish : Span)
    (atMost : fuel ≤ more) :
    ExtendedBy (typeWith finish fuel) (typeWith finish more) ∧
      ExtendedBy (atomWith finish fuel) (atomWith finish more) := by
  induction fuel generalizing more with
  | zero => exact ⟨.outOfFuel _, .outOfFuel _⟩
  | succ fuel inductionHypothesis =>
      obtain ⟨more, rfl⟩ := Nat.exists_eq_add_of_le' atMost
      obtain ⟨typeExtended, atomExtended⟩ :=
        inductionHypothesis (Nat.le_add_left fuel more)
      rw [← Nat.add_assoc]
      constructor
      · rw [typeWith, typeWith]
        refine atomExtended.bind fun parameter => ?_
        refine (ExtendedBy.refl _).bind fun accepted => ?_
        split
        next => exact typeExtended.bind fun _ => .refl _
        next => exact .refl _
      · rw [atomWith, atomWith]
        refine (ExtendedBy.refl _).bind fun kind => ?_
        split
        next =>
            refine (ExtendedBy.refl _).bind fun _ => ?_
            exact typeExtended.bind fun _ => .refl _
        next => exact .refl _

theorem terms_and_arguments_extendedBy
    (stream : TokenStream)
    (atMost : fuel ≤ more) :
    (∀ scope, ExtendedBy (termWith stream fuel scope)
      (termWith stream more scope)) ∧
    ∀ scope left function,
      ExtendedBy (argumentsWith stream fuel scope left function)
        (argumentsWith stream more scope left function) := by
  induction fuel generalizing more with
  | zero => exact ⟨fun _ => .outOfFuel _, fun _ _ _ => .outOfFuel _⟩
  | succ fuel inductionHypothesis =>
      obtain ⟨more, rfl⟩ := Nat.exists_eq_add_of_le' atMost
      obtain ⟨termExtended, argumentsExtended⟩ :=
        inductionHypothesis (Nat.le_add_left fuel more)
      rw [← Nat.add_assoc]
      constructor
      · intro scope
        rw [termWith, termWith]
        refine (ExtendedBy.refl _).bind fun kind => ?_
        split
        next => exact .refl _
        next =>
            refine (ExtendedBy.refl _).bind fun left => ?_
            refine (ExtendedBy.refl _).bind fun accepted => ?_
            split
            next =>
                refine (ExtendedBy.refl _).bind fun name => ?_
                refine (ExtendedBy.refl _).bind fun declared => ?_
                exact (termExtended _).bind fun _ => .refl _
            next =>
                refine (termExtended scope).bind fun function => ?_
                refine (ExtendedBy.refl _).bind fun _ => ?_
                exact argumentsExtended scope left function
      · intro scope left function
        rw [argumentsWith, argumentsWith]
        refine (ExtendedBy.refl _).bind fun kind => ?_
        split
        next => exact .refl _
        next => exact .refl _
        next =>
            refine (termExtended scope).bind fun argument => ?_
            exact argumentsExtended scope left _

/-! ## Enough fuel -/

/-- A parser for every fuel, of which the fuel computed from the tokens is
enough. -/
structure Fuelled (parser : Nat -> Parser Value) : Prop where
  /-- More fuel changes nothing but a stop for lack of it. -/
  extended : fuel ≤ more -> ExtendedBy (parser fuel) (parser more)
  /-- The computed fuel does not run out. -/
  lasts : ∀ tokens types later,
    parser (enoughFuel tokens) tokens types ≠ .stopped .outOfFuel later

theorem fuelled_typeWith
    (finish : Span) :
    Fuelled (typeWith finish) where
  extended := fun atMost => (types_and_atoms_extendedBy finish atMost).1
  lasts := by
    intro tokens types later exhausted
    cases (completes_types_and_atoms finish _).1 _ _ _ _ (Nat.le_refl _)
      exhausted

theorem fuelled_termWith
    (stream : TokenStream)
    (scope : Scope) :
    Fuelled fun fuel => termWith stream fuel scope where
  extended := fun atMost =>
    (terms_and_arguments_extendedBy stream atMost).1 scope
  lasts := by
    intro tokens types later exhausted
    cases (completes_terms_and_arguments stream _).1 _ _ _ _ _
      (Nat.le_succ _) exhausted

namespace Fuelled

/-- With at least the computed fuel, the result is that of the computed one. -/
theorem eq_of_enough
    {parser : Nat -> Parser Value}
    (fuelled : Fuelled parser)
    (types : TypePool)
    (enough : enoughFuel tokens ≤ fuel) :
    parser fuel tokens types = parser (enoughFuel tokens) tokens types := by
  rcases fuelled.extended enough tokens types with ⟨later, exhausted⟩ | same
  · exact (fuelled.lasts tokens types later exhausted).elim
  · exact same

/-- With a fuel that does not run out, the result is that of the computed
one. -/
theorem eq_of_remains
    {parser : Nat -> Parser Value}
    (fuelled : Fuelled parser)
    (remains : ∀ later, parser fuel tokens types ≠ .stopped .outOfFuel later) :
    parser (enoughFuel tokens) tokens types = parser fuel tokens types := by
  rcases Nat.le_total fuel (enoughFuel tokens) with less | more
  · rcases fuelled.extended less tokens types with ⟨later, exhausted⟩ | same
    · exact (remains later exhausted).elim
    · exact same
  · exact (fuelled.eq_of_enough types more).symm

end Fuelled
end Parser
end LambdaCalculus
