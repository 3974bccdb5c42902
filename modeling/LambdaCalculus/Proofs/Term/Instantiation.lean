import LambdaCalculus.Term.Substitution

/-!
# Laws of instantiation

How raising and instantiating pass each other.  The laws are stated for a
cutoff or depth that is some binders away from the root, because that is where
an induction on the term arrives; contractions use them at the root.  On closed
terms raising does nothing, and there verbatim substitution is instantiation.
-/

namespace LambdaCalculus
namespace Term

/-! ## Variables -/

theorem raise_var_of_lt
    (span : Span)
    (amount : Nat)
    (bound : index < cutoff) :
    (var span index).raise amount cutoff = var span index := by
  rw [raise_var, if_pos bound]

theorem raise_var_of_le
    (span : Span)
    (amount : Nat)
    (free : cutoff ≤ index) :
    (var span index).raise amount cutoff = var span (index + amount) := by
  rw [raise_var, if_neg (Nat.not_lt.mpr free)]

theorem instantiateAt_var_of_lt
    {place : Nat}
    (span : Span)
    (argument : Term)
    (bound : index < place) :
    (var span index).instantiateAt place argument = var span index := by
  rw [instantiateAt_var, if_pos bound]

theorem instantiateAt_var_of_eq
    {place : Nat}
    (span : Span)
    (argument : Term)
    (here : index = place) :
    (var span index).instantiateAt place argument =
      argument.raise place 0 := by
  rw [instantiateAt_var, if_neg (by omega), if_pos here]

theorem instantiateAt_var_of_gt
    {place : Nat}
    (span : Span)
    (argument : Term)
    (free : place < index) :
    (var span index).instantiateAt place argument =
      var span (index - 1) := by
  rw [instantiateAt_var, if_neg (by omega), if_neg (by omega)]

/-! ## Raising -/

theorem raise_zero
    (term : Term)
    (cutoff : Nat) :
    term.raise 0 cutoff = term := by
  induction term generalizing cutoff with
  | var span index =>
      rw [raise_var]
      split <;> rfl
  | abs span declared body bodyHypothesis =>
      rw [raise_abs, bodyHypothesis]
  | app span function argument functionHypothesis argumentHypothesis =>
      rw [raise_app, functionHypothesis, argumentHypothesis]

/-- Raising twice at places that are not further apart than the first raise. -/
theorem raise_raise_of_le
    (term : Term)
    {first second cutoff later : Nat}
    (behind : cutoff ≤ later)
    (within : later ≤ cutoff + first) :
    (term.raise first cutoff).raise second later =
      term.raise (first + second) cutoff := by
  induction term generalizing cutoff later with
  | var span index =>
      rcases Nat.lt_or_ge index cutoff with bound | free
      · simp (disch := omega) only [raise_var_of_lt]
      · simp (disch := omega) only [raise_var_of_le, Nat.add_assoc]
  | abs span declared body bodyHypothesis =>
      rw [raise_abs, raise_abs, raise_abs,
        bodyHypothesis (by omega) (by omega)]
  | app span function argument functionHypothesis argumentHypothesis =>
      rw [raise_app, raise_app, raise_app, functionHypothesis behind within,
        argumentHypothesis behind within]

/-- Raising at an outer place and raising at an inner one commute. -/
theorem raise_raise_comm
    (term : Term)
    {inner outer : Nat}
    (first second : Nat)
    (behind : inner ≤ outer) :
    (term.raise first inner).raise second (first + outer) =
      (term.raise second outer).raise first inner := by
  induction term generalizing inner outer with
  | var span index =>
      rcases Nat.lt_or_ge index inner with bound | free
      · simp (disch := omega) only [raise_var_of_lt]
      · rcases Nat.lt_or_ge index outer with near | far
        · simp (disch := omega) only [raise_var_of_lt, raise_var_of_le]
        · simp (disch := omega) only [raise_var_of_le, Nat.add_right_comm]
  | abs span declared body bodyHypothesis =>
      simp only [raise_abs, Nat.add_assoc]
      rw [bodyHypothesis (Nat.add_le_add_right behind 1)]
  | app span function argument functionHypothesis argumentHypothesis =>
      simp only [raise_app]
      rw [functionHypothesis behind, argumentHypothesis behind]

/-! ## Raising and instantiating -/

/-- Instantiating one of the binders that a term was raised over takes that
binder away again. -/
theorem instantiateAt_raise_cancel
    (term argument : Term)
    {amount cutoff place : Nat}
    (behind : cutoff ≤ place)
    (within : place ≤ cutoff + amount) :
    (term.raise (amount + 1) cutoff).instantiateAt place argument =
      term.raise amount cutoff := by
  induction term generalizing cutoff place with
  | var span index =>
      rcases Nat.lt_or_ge index cutoff with bound | free
      · simp (disch := omega) only [raise_var_of_lt, instantiateAt_var_of_lt]
      · simp (disch := omega) only [raise_var_of_le, instantiateAt_var_of_gt]
        rfl
  | abs span declared body bodyHypothesis =>
      rw [raise_abs, instantiateAt_abs, raise_abs,
        bodyHypothesis (by omega) (by omega)]
  | app span function operand functionHypothesis operandHypothesis =>
      rw [raise_app, instantiateAt_app, raise_app,
        functionHypothesis behind within, operandHypothesis behind within]

/-- A term is raised at an inner place before or after a variable further out
is instantiated. -/
theorem instantiateAt_raise
    (term argument : Term)
    (amount : Nat)
    {cutoff place : Nat}
    (behind : cutoff ≤ place) :
    (term.raise amount cutoff).instantiateAt (amount + place) argument =
      (term.instantiateAt place argument).raise amount cutoff := by
  induction term generalizing cutoff place with
  | var span index =>
      rcases Nat.lt_or_ge index cutoff with bound | free
      · simp (disch := omega) only [raise_var_of_lt, instantiateAt_var_of_lt]
      · rcases Nat.lt_trichotomy index place with near | here | far
        · simp (disch := omega) only [raise_var_of_le,
            instantiateAt_var_of_lt]
        · simp (disch := omega) only [raise_var_of_le,
            instantiateAt_var_of_eq, raise_raise_of_le]
          rw [Nat.add_comm]
        · simp (disch := omega) only [raise_var_of_le,
            instantiateAt_var_of_gt]
          rw [Nat.sub_add_comm (by omega)]
  | abs span declared body bodyHypothesis =>
      simp only [raise_abs, instantiateAt_abs, Nat.add_assoc]
      rw [bodyHypothesis (Nat.add_le_add_right behind 1)]
  | app span function operand functionHypothesis operandHypothesis =>
      simp only [raise_app, instantiateAt_app]
      rw [functionHypothesis behind, operandHypothesis behind]

/-- Raising further out than the instantiated variable raises the body and the
argument. -/
theorem raise_instantiateAt
    (body argument : Term)
    (amount cutoff place : Nat) :
    (body.instantiateAt place argument).raise amount (place + cutoff) =
      (body.raise amount (place + cutoff + 1)).instantiateAt place
        (argument.raise amount cutoff) := by
  induction body generalizing place with
  | var span index =>
      rcases Nat.lt_trichotomy index place with bound | here | free
      · simp (disch := omega) only [raise_var_of_lt, instantiateAt_var_of_lt]
      · simp (disch := omega) only [raise_var_of_lt, instantiateAt_var_of_eq,
          raise_raise_comm]
      · rcases Nat.lt_or_ge index (place + cutoff + 1) with near | far
        · simp (disch := omega) only [raise_var_of_lt,
            instantiateAt_var_of_gt]
        · simp (disch := omega) only [raise_var_of_le,
            instantiateAt_var_of_gt]
          rw [Nat.sub_add_comm (by omega)]
  | abs span declared inner innerHypothesis =>
      simp only [raise_abs, instantiateAt_abs]
      rw [Nat.add_right_comm place cutoff 1, innerHypothesis]
  | app span function operand functionHypothesis operandHypothesis =>
      simp only [raise_app, instantiateAt_app]
      rw [functionHypothesis, operandHypothesis]

/-- Two instantiations, the first at an inner place, commute once the second
one reaches the first argument too. -/
theorem instantiateAt_instantiateAt
    (body argument outerArgument : Term)
    (inner outer : Nat) :
    (body.instantiateAt inner argument).instantiateAt (inner + outer)
        outerArgument =
      (body.instantiateAt (inner + outer + 1) outerArgument).instantiateAt
        inner (argument.instantiateAt outer outerArgument) := by
  induction body generalizing inner with
  | var span index =>
      rcases Nat.lt_trichotomy index inner with bound | here | free
      · simp (disch := omega) only [instantiateAt_var_of_lt]
      · simp (disch := omega) only [instantiateAt_var_of_lt,
          instantiateAt_var_of_eq, instantiateAt_raise]
      · rcases Nat.lt_trichotomy index (inner + outer + 1) with
          near | there | far
        · simp (disch := omega) only [instantiateAt_var_of_lt,
            instantiateAt_var_of_gt]
        · simp (disch := omega) only [instantiateAt_var_of_gt,
            instantiateAt_var_of_eq, instantiateAt_raise_cancel]
        · simp (disch := omega) only [instantiateAt_var_of_gt]
  | abs span declared body bodyHypothesis =>
      simp only [instantiateAt_abs]
      rw [Nat.add_right_comm inner outer 1, bodyHypothesis]
  | app span function operand functionHypothesis operandHypothesis =>
      simp only [instantiateAt_app]
      rw [functionHypothesis, operandHypothesis]

/-! ## Closed terms -/

/-- Raising a term does nothing where the term has no free index. -/
theorem raise_of_closedUnder
    {term : Term}
    (amount : Nat)
    (closed : term.closedUnder cutoff = true) :
    term.raise amount cutoff = term := by
  induction term generalizing cutoff with
  | var span index =>
      rw [closedUnder_var, decide_eq_true_eq] at closed
      rw [raise_var, if_pos closed]
  | abs span declared body bodyHypothesis =>
      rw [raise_abs, bodyHypothesis closed]
  | app span function argument functionHypothesis argumentHypothesis =>
      rw [closedUnder_app, Bool.and_eq_true] at closed
      rw [raise_app, functionHypothesis closed.1,
        argumentHypothesis closed.2]

/-- A term that needs some binders around it may have more. -/
theorem closedUnder_mono
    {term : Term}
    (fewer : binders ≤ more)
    (closed : term.closedUnder binders = true) :
    term.closedUnder more = true := by
  induction term generalizing binders more with
  | var span index =>
      rw [closedUnder_var, decide_eq_true_eq] at closed ⊢
      omega
  | abs span declared body bodyHypothesis =>
      exact bodyHypothesis (Nat.add_le_add_right fewer 1) closed
  | app span function argument functionHypothesis argumentHypothesis =>
      rw [closedUnder_app, Bool.and_eq_true] at closed ⊢
      exact ⟨functionHypothesis fewer closed.1,
        argumentHypothesis fewer closed.2⟩

/-- Putting a closed argument in place of the outermost variable leaves one
free variable less. -/
theorem closedUnder_substitute
    {body argument : Term}
    {place : Nat}
    (bodyClosed : body.closedUnder (place + 1) = true)
    (argumentClosed : argument.closed = true) :
    (body.substitute place argument).closedUnder place = true := by
  induction body generalizing place with
  | var span index =>
      rw [closedUnder_var, decide_eq_true_eq] at bodyClosed
      rw [substitute_var]
      split
      next => exact closedUnder_mono (Nat.zero_le place) argumentClosed
      next different =>
          rw [closedUnder_var, decide_eq_true_eq]
          omega
  | abs span declared inner innerHypothesis =>
      exact innerHypothesis bodyClosed
  | app span function operand functionHypothesis operandHypothesis =>
      rw [closedUnder_app, Bool.and_eq_true] at bodyClosed
      rw [substitute_app, closedUnder_app, functionHypothesis bodyClosed.1,
        operandHypothesis bodyClosed.2]
      rfl

/-- Verbatim substitution is instantiation for a closed argument in a body
that has no other free index. -/
theorem substitute_eq_instantiateAt
    {body argument : Term}
    {place : Nat}
    (bodyClosed : body.closedUnder (place + 1) = true)
    (argumentClosed : argument.closed = true) :
    body.substitute place argument = body.instantiateAt place argument := by
  induction body generalizing place with
  | var span index =>
      rw [closedUnder_var, decide_eq_true_eq] at bodyClosed
      rw [substitute_var]
      split
      next here =>
          have unmoved : argument.raise place 0 = argument :=
            raise_of_closedUnder place argumentClosed
          rw [instantiateAt_var_of_eq span argument here, unmoved]
      next different =>
          rw [instantiateAt_var_of_lt span argument (by omega)]
  | abs span declared inner innerHypothesis =>
      rw [substitute_abs, instantiateAt_abs, innerHypothesis bodyClosed]
  | app span function operand functionHypothesis operandHypothesis =>
      rw [closedUnder_app, Bool.and_eq_true] at bodyClosed
      rw [substitute_app, instantiateAt_app, functionHypothesis bodyClosed.1,
        operandHypothesis bodyClosed.2]

end Term
end LambdaCalculus
