import LambdaCalculus.Proofs.Reduction.WordContraction
import LambdaCalculus.Proofs.Term.Alike
import LambdaCalculus.Proofs.Term.Nodes

/-!
# Laws of contraction in words

Two laws about contractions whose indices stay below the sign bit.  Putting a
closed argument in place of index zero, as it is, is the contraction exactly if
the body has no other free index: the contraction lowers the others, and verbatim
substitution leaves them alone.  And two contractions commute, once the argument
of the outer one has been put into the body and into the argument of the inner
one.
-/

namespace LambdaCalculus
namespace Term

/-! ## Small indices -/

theorem indicesBelow_mono
    {term : Term}
    (wider : limit ≤ bound)
    (below : term.indicesBelow limit = true) :
    term.indicesBelow bound = true := by
  induction term with
  | var span index =>
      rw [indicesBelow, decide_eq_true_eq] at below ⊢
      omega
  | abs span declared body bodyHypothesis => exact bodyHypothesis below
  | app span function argument functionHypothesis argumentHypothesis =>
      rw [indicesBelow, Bool.and_eq_true] at below ⊢
      exact ⟨functionHypothesis below.1, argumentHypothesis below.2⟩

/-- Bound indices are smaller than the number of binders. -/
theorem indicesBelow_of_closedUnder
    {term : Term}
    (closed : term.closedUnder binders = true)
    (deep : binders + term.binderDepth ≤ limit) :
    term.indicesBelow limit = true := by
  induction term generalizing binders with
  | var span index =>
      rw [closedUnder_var, decide_eq_true_eq] at closed
      rw [binderDepth] at deep
      rw [indicesBelow, decide_eq_true_eq]
      omega
  | abs span declared body bodyHypothesis =>
      rw [binderDepth] at deep
      exact bodyHypothesis closed (by omega)
  | app span function argument functionHypothesis argumentHypothesis =>
      rw [closedUnder_app, Bool.and_eq_true] at closed
      rw [binderDepth] at deep
      rw [indicesBelow, functionHypothesis closed.1 (by omega),
        argumentHypothesis closed.2 (by omega)]
      rfl

/-- Instantiating lowers the indices of the body and raises those of the argument
over the binders of the body. -/
theorem indicesBelow_instantiateAt
    {body argument : Term}
    {place : Nat}
    (bodyBelow : body.indicesBelow limit = true)
    (argumentBelow : argument.indicesBelow argumentLimit = true)
    (deep : argumentLimit + (place + body.binderDepth) ≤ limit) :
    (body.instantiateAt place argument).indicesBelow limit = true := by
  induction body generalizing place with
  | var span index =>
      rw [binderDepth] at deep
      have indexBelow : index < limit := of_decide_eq_true bodyBelow
      rcases Nat.lt_trichotomy index place with bound | here | free
      · rw [instantiateAt_var_of_lt span argument bound]
        exact bodyBelow
      · rw [instantiateAt_var_of_eq span argument here]
        exact indicesBelow_mono deep (indicesBelow_raise place 0 argumentBelow)
      · rw [instantiateAt_var_of_gt span argument free, indicesBelow,
          decide_eq_true_eq]
        omega
  | abs span declared inner innerHypothesis =>
      rw [binderDepth] at deep
      exact innerHypothesis bodyBelow (by omega)
  | app span function operand functionHypothesis operandHypothesis =>
      rw [indicesBelow, Bool.and_eq_true] at bodyBelow
      rw [binderDepth] at deep
      rw [instantiateAt_app, indicesBelow,
        functionHypothesis bodyBelow.1 (by omega),
        operandHypothesis bodyBelow.2 (by omega)]
      rfl

theorem binderDepth_instantiateAt_le
    (body argument : Term)
    (place : Nat) :
    (body.instantiateAt place argument).binderDepth ≤
      body.binderDepth + argument.binderDepth := by
  induction body generalizing place with
  | var span index =>
      rw [instantiateAt_var]
      split
      next => exact Nat.zero_le _
      next =>
          split
          next =>
              rw [binderDepth_raise]
              exact Nat.le_add_left _ _
          next => exact Nat.zero_le _
  | abs span declared inner innerHypothesis =>
      have deep := innerHypothesis (place + 1)
      rw [instantiateAt_abs, binderDepth, binderDepth]
      omega
  | app span function operand functionHypothesis operandHypothesis =>
      have functionDeep := functionHypothesis place
      have operandDeep := operandHypothesis place
      rw [instantiateAt_app, binderDepth, binderDepth]
      omega

/-! ## Verbatim substitution -/

/-- The indices of a term that needs some binders around it are smaller than the
number of binders around them. -/
theorem closedUnder_iff_index_lt
    (term : Term)
    (binders : Nat) :
    term.closedUnder binders = true ↔
      ∀ path span index, term.rootAt? path = some (.var span index) ->
        index < binders + Branch.binders path := by
  induction term generalizing binders with
  | var span index =>
      rw [closedUnder_var, decide_eq_true_eq]
      constructor
      · intro bound path varSpan other found
        cases path with
        | nil =>
            cases found
            exact bound
        | cons branch path => cases found
      · intro small
        exact small [] span index rfl
  | abs span declared body bodyHypothesis =>
      have one : Branch.binders [.body] = 1 := rfl
      rw [closedUnder_abs, bodyHypothesis]
      constructor
      · intro small path varSpan index found
        cases path with
        | nil => cases found
        | cons branch path =>
            cases branch with
            | body =>
                have below := small path varSpan index found
                rw [Branch.binders_cons]
                omega
            | function => cases found
            | argument => cases found
      · intro small path varSpan index found
        have below := small (.body :: path) varSpan index found
        rw [Branch.binders_cons] at below
        omega
  | app span function argument functionHypothesis argumentHypothesis =>
      rw [closedUnder_app, Bool.and_eq_true, functionHypothesis,
        argumentHypothesis]
      constructor
      · rintro ⟨functionSmall, argumentSmall⟩ path varSpan index found
        cases path with
        | nil => cases found
        | cons branch path =>
            cases branch with
            | body => cases found
            | function => exact functionSmall path varSpan index found
            | argument => exact argumentSmall path varSpan index found
      · intro small
        exact ⟨fun path => small (.function :: path),
          fun path => small (.argument :: path)⟩

/-- Verbatim substitution differs from instantiating where an index has to be
lowered. -/
theorem closedUnder_of_substitute_alike
    {body : Term}
    (argument : Term)
    {place : Nat}
    (same : (body.substitute place argument).alike
      (body.instantiateAt place argument) = true) :
    body.closedUnder (place + 1) = true := by
  induction body generalizing place with
  | var span index =>
      rw [closedUnder_var, decide_eq_true_eq]
      rcases Nat.lt_or_ge index (place + 1) with bound | free
      · exact bound
      · rw [substitute_var, if_neg (by omega),
          instantiateAt_var_of_gt span argument free, alike, beq_iff_eq] at same
        omega
  | abs span declared inner innerHypothesis =>
      rw [substitute_abs, instantiateAt_abs, alike, Bool.and_eq_true] at same
      exact innerHypothesis same.2
  | app span function operand functionHypothesis operandHypothesis =>
      rw [substitute_app, instantiateAt_app, alike, Bool.and_eq_true] at same
      rw [closedUnder_app, functionHypothesis same.1, operandHypothesis same.2]
      rfl

/-- A closed argument can be put in place of index zero as it is exactly if the
body has no other free index, that is, if no index is greater than the number of
binders around it.  The contraction is defined in any case.  Indices and counts of
binders are below `2 ^ 62`, half of the sign bit. -/
theorem substitute_alike_contract_iff
    (body argument : Term)
    (bodyBelow : body.indicesBelow (Word.signBit / 2) = true)
    (bodyDepth : body.binderDepth < Word.signBit / 2)
    (argumentDepth : argument.binderDepth < Word.signBit / 2)
    (argumentClosed : argument.closed = true) :
    ∃ contracted, body.contract argument = some contracted ∧
      ((body.substituteWrapping 0 argument).alike contracted = true ↔
        ∀ path span index, body.rootAt? path = some (.var span index) ->
          index ≤ Branch.binders path) := by
  have fits : ContractionFits body argument := by
    refine ⟨indicesBelow_mono (by omega) bodyBelow, ?_, by omega⟩
    exact indicesBelow_of_closedUnder argumentClosed (by omega)
  have agree : (body.substitute 0 argument).alike (body.instantiate argument) =
      true ↔ body.closedUnder 1 = true := by
    constructor
    · exact closedUnder_of_substitute_alike argument
    · intro bodyClosed
      rw [alike_iff, instantiate,
        substitute_eq_instantiateAt bodyClosed argumentClosed]
  have sameBound : ∀ index binders, index < 1 + binders ↔ index ≤ binders := by
    omega
  refine ⟨_, fits.contract_eq, ?_⟩
  rw [substituteWrapping_eq 0 argument (by omega), agree,
    closedUnder_iff_index_lt]
  simp only [sameBound]

/-- In `λ. (1 2)` the index `2` points past the contracted binder, so the
contraction with `λ. 0` is not the verbatim substitution; without it, it is. -/
theorem substitute_alike_contract_iff_free :
    let identity := Term.abs .nowhere none (.var .nowhere 0)
    let body (index : Nat) := Term.abs .nowhere none
      (.app .nowhere (.var .nowhere 1) (.var .nowhere index))
    (∃ contracted, (body 2).contract identity = some contracted ∧
      ((body 2).substituteWrapping 0 identity).alike contracted = false) ∧
    ∃ contracted, (body 0).contract identity = some contracted ∧
      ((body 0).substituteWrapping 0 identity).alike contracted = true := by
  intro identity body
  obtain ⟨lowered, isLowered, lowers⟩ := substitute_alike_contract_iff (body 2)
    identity (by decide) (by decide) (by decide) (by decide)
  obtain ⟨copied, isCopied, copies⟩ := substitute_alike_contract_iff (body 0)
    identity (by decide) (by decide) (by decide) (by decide)
  refine ⟨⟨lowered, isLowered, ?_⟩, copied, isCopied, ?_⟩
  · rw [Bool.eq_false_iff, Ne, lowers]
    intro small
    exact absurd (small [.body, .argument] .nowhere 2 rfl) (by decide)
  · rw [copies]
    have closed : (body 0).closedUnder 1 = true := by decide
    intro path span index found
    have below := (closedUnder_iff_index_lt _ _).mp closed path span index found
    omega

/-! ## Two contractions -/

/-- No index and no count of binders reaches the sign bit while a body takes an
argument and both take the argument of a binder further out. -/
structure ContractionsFit
    (body argument outer : Term) : Prop where
  /-- The indices of the body are positive as signed words. -/
  bodyBelow : body.indicesBelow Word.signBit = true
  /-- So are those of the inner argument after it is raised by one and over the
  binders of the body. -/
  argumentBelow :
    argument.indicesBelow (Word.signBit - 1 - body.binderDepth) = true
  /-- So are those of the outer argument, which is carried into the abstraction
  with the body, and with the inner argument into the body. -/
  outerBelow : outer.indicesBelow
    (Word.signBit - 1 - (body.binderDepth + max 1 argument.binderDepth)) = true
  /-- The binders of all three and of the abstraction can be counted. -/
  depthBelow : body.binderDepth + argument.binderDepth + outer.binderDepth + 1 <
    Word.signBit

/-- A variable does not occur in a term that was raised over its binder. -/
theorem occursWithin_raise
    (term : Term)
    (limit : Nat)
    {amount cutoff place : Nat}
    (behind : cutoff ≤ place)
    (within : place < cutoff + amount) :
    (term.raise amount cutoff).occursWithin limit place = true := by
  induction term generalizing cutoff place with
  | var span index =>
      have absent :
          (if index < cutoff then index else index + amount) ≠ place := by
        split <;> omega
      simp [occursWithin, absent]
  | abs span declared body bodyHypothesis =>
      exact bodyHypothesis (by omega) (by omega)
  | app span function argument functionHypothesis argumentHypothesis =>
      rw [raise_app, occursWithin, functionHypothesis behind within,
        argumentHypothesis behind within]
      rfl

/-- Instantiating the next variable further out brings no occurrence of a
variable. -/
theorem occursWithin_instantiateAt
    {body : Term}
    (argument : Term)
    {place : Nat}
    (within : body.occursWithin limit place = true) :
    (body.instantiateAt (place + 1) argument).occursWithin limit place = true := by
  induction body generalizing place with
  | var span index =>
      rcases Nat.lt_trichotomy index (place + 1) with bound | here | free
      · rw [instantiateAt_var_of_lt span argument bound]
        exact within
      · rw [instantiateAt_var_of_eq span argument here]
        exact occursWithin_raise argument limit (Nat.zero_le place) (by omega)
      · have absent : index - 1 ≠ place := by omega
        rw [instantiateAt_var_of_gt span argument free]
        simp [occursWithin, absent]
  | abs span declared inner innerHypothesis =>
      exact innerHypothesis within
  | app span function operand functionHypothesis operandHypothesis =>
      rw [occursWithin, Bool.and_eq_true] at within
      rw [instantiateAt_app, occursWithin, functionHypothesis within.1,
        operandHypothesis within.2]
      rfl

namespace ContractionsFit

variable {body argument outer : Term}

theorem inner
    (fits : ContractionsFit body argument outer) :
    ContractionFits body argument := by
  have depthBelow := fits.depthBelow
  exact ⟨fits.bodyBelow, fits.argumentBelow, by omega⟩

/-- The abstraction takes the outer argument. -/
theorem abstraction
    (fits : ContractionsFit body argument outer)
    (span : Span)
    (declared : Option TypeId) :
    ContractionFits (.abs span declared body) outer := by
  have depthBelow := fits.depthBelow
  refine ⟨fits.bodyBelow, indicesBelow_mono ?_ fits.outerBelow, ?_⟩
  · rw [binderDepth]
    omega
  · rw [binderDepth]
    omega

/-- The inner argument takes the outer one. -/
theorem carried
    (fits : ContractionsFit body argument outer) :
    ContractionFits argument outer := by
  have depthBelow := fits.depthBelow
  exact ⟨indicesBelow_mono (by omega) fits.argumentBelow,
    indicesBelow_mono (by omega) fits.outerBelow, by omega⟩

/-- The contraction of the body takes the outer argument. -/
theorem contracted
    (fits : ContractionsFit body argument outer) :
    ContractionFits (body.instantiate argument) outer := by
  have depthBelow := fits.depthBelow
  have deep := binderDepth_instantiateAt_le body argument 0
  rw [instantiate]
  refine ⟨?_, indicesBelow_mono (by omega) fits.outerBelow, by omega⟩
  exact indicesBelow_instantiateAt fits.bodyBelow fits.argumentBelow (by omega)

/-- The body that has taken the outer argument takes the inner argument that has,
too.  The outer argument makes the body deeper, but the inner one is not carried
into it. -/
theorem contract_eq
    (fits : ContractionsFit body argument outer) :
    (body.instantiateAt 1 outer).contract (argument.instantiate outer) =
      some ((body.instantiateAt 1 outer).instantiate
        (argument.instantiate outer)) := by
  have depthBelow := fits.depthBelow
  have bodyDeep := binderDepth_instantiateAt_le body outer 1
  have argumentDeep : (argument.instantiate outer).binderDepth ≤
      argument.binderDepth + outer.binderDepth :=
    binderDepth_instantiateAt_le argument outer 0
  apply contract_eq_of_occursWithin (Word.signBit - 1 - body.binderDepth)
    body.binderDepth
  case bodyBelow =>
    exact indicesBelow_instantiateAt fits.bodyBelow fits.outerBelow (by omega)
  case within =>
    apply occursWithin_instantiateAt
    exact occursWithin_of_binderDepth (by omega)
  case argumentBelow =>
    exact indicesBelow_instantiateAt fits.argumentBelow fits.outerBelow (by omega)
  case small => omega
  case bodyDepth => omega
  case argumentDepth => omega

end ContractionsFit

/-- Contractions commute.  The abstraction with the body takes the outer argument
and stays an abstraction; its body and the inner argument, after both have taken
the outer one, contract to what the outer argument makes of the contraction of the
body and the inner argument. -/
theorem contract_contract
    (body argument outer : Term)
    (span : Span)
    (declared : Option TypeId)
    (fits : ContractionsFit body argument outer) :
    ∃ outerBody,
      (Term.abs span declared body).contract outer =
        some (.abs span declared outerBody) ∧
      ∃ contracted carried result,
        body.contract argument = some contracted ∧
        argument.contract outer = some carried ∧
        contracted.contract outer = some result ∧
        outerBody.contract carried = some result := by
  have commute : (body.instantiate argument).instantiate outer =
      (body.instantiateAt 1 outer).instantiate (argument.instantiate outer) :=
    instantiateAt_instantiateAt body argument outer 0 0
  refine ⟨body.instantiateAt 1 outer, (fits.abstraction span declared).contract_eq,
    _, _, _, fits.inner.contract_eq, fits.carried.contract_eq,
    fits.contracted.contract_eq, ?_⟩
  rw [commute]
  exact fits.contract_eq

/-- The body `1 (λ. 1 2)` takes the argument `λ. 1 2` and becomes
`0 (λ. (λ. 2 3) 1)`; with the outer argument `0 3` that becomes
`(0 3) (λ. (λ. (2 5) 2) (1 4))`.  The outer argument makes the body
`(1 4) (λ. 1 (2 5))` and the argument `λ. (1 4) 1`, and these contract to the same
term. -/
theorem contract_contract_open :
    let index := Term.var .nowhere
    let apply := Term.app .nowhere
    let bind := Term.abs .nowhere (some 4)
    let body := apply (index 1) (bind (apply (index 1) (index 2)))
    let argument := bind (apply (index 1) (index 2))
    let outer := apply (index 0) (index 3)
    let outerBody := apply (apply (index 1) (index 4))
      (bind (apply (index 1) (apply (index 2) (index 5))))
    let contracted := apply (index 0)
      (bind (apply (bind (apply (index 2) (index 3))) (index 1)))
    let carried := bind (apply (apply (index 1) (index 4)) (index 1))
    let result := apply outer (bind (apply
      (bind (apply (apply (index 2) (index 5)) (index 2)))
      (apply (index 1) (index 4))))
    ContractionsFit body argument outer ∧
      (Term.abs .nowhere (some 2) body).contract outer =
        some (.abs .nowhere (some 2) outerBody) ∧
      body.contract argument = some contracted ∧
      argument.contract outer = some carried ∧
      contracted.contract outer = some result ∧
      outerBody.contract carried = some result := by
  intro index apply bind body argument outer outerBody contracted carried
    result
  have fits : ContractionsFit body argument outer :=
    ⟨by decide, by decide, by decide, by decide⟩
  have outside : (Term.abs .nowhere (some 2) body).contract outer =
      some (.abs .nowhere (some 2) outerBody) := by decide
  have inner : body.contract argument = some contracted := by decide
  have raised : argument.contract outer = some carried := by decide
  have finished : contracted.contract outer = some result := by decide
  obtain ⟨_, byOuter, _, _, _, byArgument, byCarrying, byBoth, commutes⟩ :=
    contract_contract body argument outer .nowhere (some 2) fits
  rw [outside] at byOuter
  cases byOuter
  rw [inner] at byArgument
  cases byArgument
  rw [raised] at byCarrying
  cases byCarrying
  rw [finished] at byBoth
  cases byBoth
  exact ⟨fits, outside, inner, raised, finished, commutes⟩

end Term
end LambdaCalculus
