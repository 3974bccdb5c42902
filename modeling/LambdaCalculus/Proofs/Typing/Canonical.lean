import LambdaCalculus.Proofs.Parser.Evolution
import LambdaCalculus.Typing.Check

/-!
# One number for each type

Parsing and checking number types only as a pool evolves, whether they succeed
or stop at a fault.  So in every pool that comes about in a session two numbers
are the same exactly if they stand for the same type, and this is all that the
checker and the comparison of terms look at.
-/

namespace LambdaCalculus

/-! ## Checking -/

/-- The types numbered by a check that started with this pool evolve from it, and
the type that it gives has been numbered. -/
structure Checked.EvolvedFrom
    (types : TypePool)
    (checked : Checked) : Prop where
  /-- The pool has evolved. -/
  evolves : types.EvolvesTo checked.types
  /-- The type has been numbered. -/
  valid : ∀ type, checked.result = .ok type ->
    checked.types.isValid type = true

namespace Checked.EvolvedFrom

variable {types later : TypePool}

theorem error
    (error : TypeError)
    (evolves : types.EvolvesTo later) :
    EvolvedFrom types ⟨.error error, later⟩ :=
  ⟨evolves, nofun⟩

theorem ok
    {number : TypeId}
    (evolves : types.EvolvesTo later)
    (valid : later.isValid number = true) :
    EvolvedFrom types ⟨.ok number, later⟩ :=
  ⟨evolves, by rintro _ ⟨⟩; exact valid⟩

end Checked.EvolvedFrom

/-- The result of a function type that has been numbered has been numbered. -/
theorem TypePool.WellFormed.isValid_result
    {types : TypePool}
    {parameter result : TypeId}
    (wellFormed : types.WellFormed permitted)
    (valid : types.isValid type = true)
    (isFunction : types.function? type = some (parameter, result)) :
    types.isValid result = true := by
  have older := wellFormed.parts_lt (former?_of_function? isFunction)
  exact decide_eq_true (older.2.trans (of_decide_eq_true valid))

/-- Checking a term whose declared types have been numbered numbers types one
after another, whether the term has a type or not. -/
theorem Term.checkIn_evolvedFrom
    {types : TypePool}
    {context : List TypeId}
    (term : Term)
    (built : types.Built fun _ => True)
    (contextValid : ∀ type ∈ context, types.isValid type = true)
    (declares : term.declaresOnly types.isValid = true) :
    (term.checkIn context types).EvolvedFrom types := by
  induction term generalizing context types with
  | var span index =>
      rw [checkIn]
      split
      next type found =>
          exact .ok (TypePool.EvolvesTo.refl types)
            (contextValid type (List.mem_of_getElem? found))
      next => exact .error _ (TypePool.EvolvesTo.refl types)
  | abs span declared body bodyHypothesis =>
      rw [declaresOnly, Bool.and_eq_true] at declares
      cases declared with
      | none => exact .error _ (TypePool.EvolvesTo.refl types)
      | some declared =>
          have checked := bodyHypothesis built
            (List.forall_mem_cons.mpr ⟨declares.1, contextValid⟩) declares.2
          rw [checkIn]
          revert checked
          cases body.checkIn (declared :: context) types with
          | mk result between =>
          intro checked
          cases result with
          | error error => exact .error error checked.evolves
          | ok bodyType =>
              have declaredValid :=
                TypePool.isValid_grow declares.1 checked.evolves.grows
              have bodyValid := checked.valid bodyType rfl
              exact .ok
                (checked.evolves.trans (.function declaredValid bodyValid))
                (between.isValid_intern (.function declared bodyType))
  | app span function argument functionHypothesis argumentHypothesis =>
      rw [declaresOnly, Bool.and_eq_true] at declares
      have functionChecked := functionHypothesis built contextValid declares.1
      rw [checkIn]
      revert functionChecked
      cases function.checkIn context types with
      | mk functionResult between =>
      intro functionChecked
      have grows := functionChecked.evolves.grows
      cases functionResult with
      | error error => exact .error error functionChecked.evolves
      | ok functionType =>
          have contextStaysValid : ∀ type ∈ context,
              between.isValid type = true := fun type member =>
            TypePool.isValid_grow (contextValid type member) grows
          have argumentChecked := argumentHypothesis
            (functionChecked.evolves.built built) contextStaysValid
            (declaresOnly_mono
              (fun _ valid => TypePool.isValid_grow valid grows) declares.2)
          simp only
          revert argumentChecked
          cases argument.checkIn context between with
          | mk argumentResult later =>
          intro argumentChecked
          have evolves :=
            functionChecked.evolves.trans argumentChecked.evolves
          cases argumentResult with
          | error error => exact .error error evolves
          | ok argumentType =>
              simp only
              split
              next parameter result isFunction =>
                  have functionValid := TypePool.isValid_grow
                    (functionChecked.valid functionType rfl)
                    argumentChecked.evolves.grows
                  split
                  next =>
                      exact .ok evolves ((evolves.built
                        built).wellFormed.isValid_result functionValid
                          isFunction)
                  next => exact .error _ evolves
              next => exact .error _ evolves

/-! ## All pools of a session -/

/-- Every pool that comes from the empty one by numbering types one after
another is canonical, and numbering further types leaves all that was known of
earlier numbers.  Parsing any source numbers types in this way, and so does
checking any term whose declared types have been numbered, even if they fail. -/
theorem TypePool.canonical_throughout :
    (∀ types : TypePool, TypePool.empty.EvolvesTo types ->
      types.Canonical ∧
      ∀ later, types.EvolvesTo later ->
        types.GrowsTo later ∧ later.Canonical ∧
        ∀ type, types.isValid type = true -> types.Keeps later type) ∧
    (∀ file source (types : TypePool) known,
      types.EvolvesTo (parse file source types known).types) ∧
    (∀ (term : Term) (types : TypePool), TypePool.empty.EvolvesTo types ->
      term.declaresOnly types.isValid = true ->
        types.EvolvesTo (term.check types).types) := by
  refine ⟨?pools, parse_evolvesTo, ?checks⟩
  case pools =>
    intro types evolved
    refine ⟨evolved.canonical, ?_⟩
    intro later evolves
    refine ⟨evolves.grows, (evolved.trans evolves).canonical, ?_⟩
    intro type valid
    exact evolves.grows.keeps evolved.canonical valid
  case checks =>
    intro term types evolved declares
    exact (term.checkIn_evolvedFrom (evolved.built .empty)
      (List.forall_mem_nil _) declares).evolves

/-- The source `(λx:A→B.(λy:(A→B)→A. q` fails behind its second type; checking
`λ. λ. 0 1` then fails too.  The numbers of `A`, `B`, `A→B` and `(A→B)→A` are
those of different types and stay what they were. -/
theorem TypePool.canonical_throughout_failing :
    let parsed := parse 0 "(λx:A→B.(λy:(A→B)→A. q" .empty []
    let term := Term.abs .nowhere (some 4) (.abs .nowhere (some 4)
      (.app .nowhere (.var .nowhere 0) (.var .nowhere 1)))
    let checked := term.check parsed.types
    parsed.term = none ∧ checked.errors.length = 1 ∧
      TypePool.empty.EvolvesTo parsed.types ∧
      term.declaresOnly parsed.types.isValid = true ∧
      checked.types.Canonical ∧
      parsed.types.texts = ["<error>", "A", "B", "(A)→B", "((A)→B)→A"] ∧
      ∀ type, parsed.types.isValid type = true ->
        parsed.types.Keeps checked.types type := by
  intro parsed term checked
  obtain ⟨pools, parses, checks⟩ := TypePool.canonical_throughout
  have evolved := parses 0 "(λx:A→B.(λy:(A→B)→A. q" .empty []
  have declares : term.declaresOnly parsed.types.isValid = true := by
    decide +kernel
  obtain ⟨_, canonical, keeps⟩ :=
    (pools _ evolved).2 _ (checks term _ evolved declares)
  exact ⟨by decide +kernel, by decide +kernel, evolved, declares, canonical,
    by decide +kernel, keeps⟩

end LambdaCalculus
