import LambdaCalculus.Proofs.Text.Numeral
import LambdaCalculus.Proofs.Token.Scan
import LambdaCalculus.Proofs.Types.Names

/-!
# Printed terms are one line

What is printed of a term or a type has no control byte in any style, as long as
the names of the base types have none.  So it has neither a line feed nor a
carriage return.
-/

namespace LambdaCalculus

namespace Text

/-- No byte of the text is a control byte. -/
def Printable (text : Text) : Prop :=
  ∀ byte ∈ text, 32 ≤ byte

instance : DecidablePred Printable := fun text =>
  decidable_of_iff (text.all (fun byte => decide (32 ≤ byte)) = true)
    (by simp [Printable])

@[simp] theorem printable_nil : Printable [] :=
  List.forall_mem_nil _

@[simp] theorem printable_append
    (left right : Text) :
    Printable (left ++ right) ↔ left.Printable ∧ right.Printable :=
  List.forall_mem_append

theorem Printable.not_mem
    {text : Text}
    (printable : text.Printable)
    (control : byte < 32) :
    byte ∉ text :=
  fun member => UInt8.not_le.mpr control (printable byte member)

theorem printable_of_isIdentifier
    {name : Text}
    (isName : name.isIdentifier = true) :
    name.Printable := by
  obtain ⟨_, letters⟩ := (isIdentifier_iff name).mp isName
  intro byte member
  have letter := letters byte member
  simp only [isLetter, Bool.or_eq_true, Bool.and_eq_true, decide_eq_true_eq,
    UInt8.le_iff_toNat_le] at letter
  simp only [UInt8.le_iff_toNat_le]
  simp at letter ⊢
  omega

@[simp] theorem printable_decimal
    (number : Nat) :
    (decimal number).Printable := by
  have digits : ∀ digit, digit < 10 -> 32 ≤ decimalDigit digit := by decide
  exact forall_mem_numeral (by omega) digits number

end Text

open Text

@[simp] theorem printable_binderName
    (level : Nat) :
    (binderName level).Printable :=
  printable_of_isIdentifier (isIdentifier_binderName level)

/-! ## Types -/

theorem TypeTree.printable_text
    {tree : TypeTree}
    (named : tree.NamedBy Printable) :
    tree.text.Printable := by
  induction tree with
  | invalid => decide
  | error => decide
  | base name => exact named
  | arrow parameter result parameterHypothesis resultHypothesis =>
      simp only [TypeTree.text, printable_append]
      exact ⟨⟨⟨by decide, parameterHypothesis named.1⟩, by decide⟩,
        resultHypothesis named.2⟩

theorem TypeTree.printable_debug
    {tree : TypeTree}
    (named : tree.NamedBy Printable) :
    tree.debug.Printable := by
  induction tree with
  | invalid => decide
  | error => decide
  | base name =>
      simp only [TypeTree.debug, printable_append]
      exact ⟨⟨by decide, named⟩, by decide⟩
  | arrow parameter result parameterHypothesis resultHypothesis =>
      simp only [TypeTree.debug, printable_append]
      exact ⟨⟨⟨⟨by decide, parameterHypothesis named.1⟩, by decide⟩,
        resultHypothesis named.2⟩, by decide⟩

theorem TypePool.NamedBy.printable_render
    {types : TypePool}
    (named : types.NamedBy Printable)
    (style : Style)
    (type : TypeId) :
    (types.render style type).Printable := by
  cases style with
  | named => exact TypeTree.printable_text (named.tree type)
  | indexed => exact TypeTree.printable_text (named.tree type)
  | debug => exact TypeTree.printable_debug (named.tree type)

/-! ## Terms -/

namespace Term

variable {types : TypePool}

theorem printable_declarationText
    (names : types.NamedBy Printable)
    (declared : Option TypeId) :
    (declarationText types declared).Printable := by
  cases declared with
  | none => exact printable_nil
  | some type =>
      rw [declarationText, printable_append]
      exact ⟨by decide, TypeTree.printable_text (names.tree type)⟩

theorem printable_declarationDebug
    (names : types.NamedBy Printable)
    (declared : Option TypeId) :
    (declarationDebug types declared).Printable := by
  cases declared with
  | none => exact printable_nil
  | some type =>
      simp only [declarationDebug, printable_append]
      exact ⟨⟨by decide, TypeTree.printable_debug (names.tree type)⟩, by decide⟩

theorem printable_enclose
    {inner : Text}
    (printable : inner.Printable)
    (asFunction : Bool) :
    (enclose asFunction inner).Printable := by
  cases asFunction with
  | true => exact printable
  | false =>
      change Printable ("(" ++ inner ++ ")")
      simp only [printable_append]
      exact ⟨⟨by decide, printable⟩, by decide⟩

theorem printable_variableName
    (level index : Nat) :
    (variableName level index).Printable := by
  unfold variableName
  split
  next => exact printable_binderName _
  next => exact printable_decimal _

theorem printable_named
    (names : types.NamedBy Printable)
    (term : Term)
    (asFunction : Bool)
    (level : Nat) :
    (term.named types asFunction level).Printable := by
  induction term generalizing asFunction level with
  | var span index => exact printable_variableName level index
  | abs span declared body bodyHypothesis =>
      simp only [named, printable_append]
      exact ⟨⟨⟨⟨⟨by decide, printable_binderName level⟩,
        printable_declarationText names declared⟩, by decide⟩,
        bodyHypothesis false (Word.next level)⟩, by decide⟩
  | app span function argument functionHypothesis argumentHypothesis =>
      apply printable_enclose
      simp only [printable_append]
      exact ⟨⟨functionHypothesis true level, by decide⟩,
        argumentHypothesis false level⟩

theorem printable_indexed
    (names : types.NamedBy Printable)
    (term : Term)
    (asFunction : Bool) :
    (term.indexed types asFunction).Printable := by
  induction term generalizing asFunction with
  | var span index => exact printable_decimal index
  | abs span declared body bodyHypothesis =>
      simp only [indexed, printable_append]
      exact ⟨⟨⟨⟨by decide, printable_declarationText names declared⟩, by decide⟩,
        bodyHypothesis false⟩, by decide⟩
  | app span function argument functionHypothesis argumentHypothesis =>
      apply printable_enclose
      simp only [printable_append]
      exact ⟨⟨functionHypothesis true, by decide⟩, argumentHypothesis false⟩

theorem printable_debug
    (names : types.NamedBy Printable)
    (term : Term) :
    (term.debug types).Printable := by
  induction term with
  | var span index =>
      simp only [debug, printable_append]
      exact ⟨⟨by decide, printable_decimal index⟩, by decide⟩
  | abs span declared body bodyHypothesis =>
      simp only [debug, printable_append]
      exact ⟨⟨⟨⟨by decide, printable_declarationDebug names declared⟩, by decide⟩,
        bodyHypothesis⟩, by decide⟩
  | app span function argument functionHypothesis argumentHypothesis =>
      simp only [debug, printable_append]
      exact ⟨⟨⟨⟨by decide, functionHypothesis⟩, by decide⟩, argumentHypothesis⟩,
        by decide⟩

/-- A term is printed on one line in every style. -/
theorem printable_render
    (names : types.NamedBy Printable)
    (term : Term)
    (style : Style)
    (outerBinders : Nat) :
    (term.render types style outerBinders).Printable := by
  cases style with
  | named => exact printable_named names term false outerBinders
  | indexed => exact printable_indexed names term false
  | debug => exact printable_debug names term

end Term
end LambdaCalculus
