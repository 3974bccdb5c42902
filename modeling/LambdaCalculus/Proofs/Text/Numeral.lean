import LambdaCalculus.Term.Printer
import Mathlib.Data.List.TakeWhile

/-!
# Numerals and binder names

A numeral can be read back digit by digit, so distinct numbers have distinct
numerals.  A text of digits is taken for a number if the number fits in a word.
The names of binders are numerals in base twenty-six: they are
identifiers, and binders at different depths have different names.
-/

namespace LambdaCalculus
namespace Text

/-- The number that a string of digits stands for, where every digit has a
value. -/
def numeralValue
    (base : Nat)
    (value : UInt8 -> Nat)
    (digits : Text) : Nat :=
  digits.foldl (fun total digit => base * total + value digit) 0

/-- Reading a numeral gives back the number that it was written for. -/
theorem numeralValue_numeral
    (twoLeBase : 2 ≤ base)
    (inverse : ∀ number, number < base -> value (digit number) = number)
    (number : Nat) :
    numeralValue base value (numeral base digit number) = number := by
  induction number using Nat.strongRecOn with
  | ind number inductionHypothesis =>
      by_cases small : number < base
      · rw [numeral_of_lt digit small]
        simp [numeralValue, inverse number small]
      · have large : base ≤ number := by omega
        have smaller : number / base < number :=
          Nat.div_lt_self (by omega) (by omega)
        have lastDigit := inverse (number % base)
          (Nat.mod_lt number (by omega))
        have quotient := inductionHypothesis (number / base) smaller
        unfold numeralValue at quotient
        rw [numeral_of_le digit twoLeBase large, numeralValue,
          List.foldl_append, quotient]
        simp only [List.foldl_cons, List.foldl_nil, lastDigit]
        exact Nat.div_add_mod number base

/-- Every byte of a numeral is the digit of a number below the base. -/
theorem forall_mem_numeral
    {property : UInt8 -> Prop}
    (twoLeBase : 2 ≤ base)
    (holds : ∀ number, number < base -> property (digit number))
    (number : Nat) :
    ∀ byte ∈ numeral base digit number, property byte := by
  induction number using Nat.strongRecOn with
  | ind number inductionHypothesis =>
      intro byte member
      by_cases small : number < base
      · rw [numeral_of_lt digit small, List.mem_singleton] at member
        rw [member]
        exact holds number small
      · have smaller : number / base < number :=
          Nat.div_lt_self (by omega) (by omega)
        rw [numeral_of_le digit twoLeBase (by omega), List.mem_append,
          List.mem_singleton] at member
        rcases member with earlier | last
        · exact inductionHypothesis (number / base) smaller byte earlier
        · rw [last]
          exact holds (number % base) (Nat.mod_lt number (by omega))

theorem numeral_ne_nil
    (base : Nat)
    (digit : Nat -> UInt8)
    (number : Nat) :
    numeral base digit number ≠ [] := by
  rw [numeral]
  split <;> simp

/-- A greater number has no shorter numeral. -/
theorem length_numeral_mono
    (twoLeBase : 2 ≤ base)
    (digit : Nat -> UInt8)
    (atMost : small ≤ large) :
    (numeral base digit small).length ≤ (numeral base digit large).length := by
  induction large using Nat.strongRecOn generalizing small with
  | ind large inductionHypothesis =>
      by_cases oneDigit : small < base
      · rw [numeral_of_lt digit oneDigit]
        exact List.length_pos_iff.mpr (numeral_ne_nil base digit large)
      · have smaller : large / base < large :=
          Nat.div_lt_self (by omega) (by omega)
        have shorter := inductionHypothesis (large / base) smaller
          (Nat.div_le_div_right atMost)
        have smallDigits := numeral_of_le digit twoLeBase (Nat.not_lt.mp oneDigit)
        have largeDigits := numeral_of_le digit twoLeBase
          (Nat.le_trans (Nat.not_lt.mp oneDigit) atMost)
        rw [smallDigits, largeDigits, List.length_append, List.length_append]
        exact Nat.add_le_add_right shorter 1

/-! ## Decimal numbers -/

/-- The digit of a number below ten is a digit and stands for that number. -/
theorem decimalDigit_spec :
    ∀ digit, digit < 10 ->
      isDigit (decimalDigit digit) = true ∧
        (decimalDigit digit).toNat - 48 = digit := by
  decide

theorem isDigit_of_mem_decimal
    (number : Nat) :
    ∀ byte ∈ decimal number, isDigit byte = true :=
  forall_mem_numeral (by omega)
    (fun digit small => (decimalDigit_spec digit small).1) number

/-- A number is read back from its decimal notation. -/
theorem decimalValue_decimal
    (number : Nat) :
    decimalValue (decimal number) = number :=
  numeralValue_numeral (by omega)
    (fun digit small => (decimalDigit_spec digit small).2) number

/-- Different numbers have different decimal notations. -/
theorem decimal_injective
    (same : decimal left = decimal right) :
    left = right := by
  rw [← decimalValue_decimal left, same, decimalValue_decimal right]

/-- A number is read from a text of digits if it fits in a word. -/
theorem leadingNumber?_of_digits
    {value : Text}
    (digits : ∀ byte ∈ value, isDigit byte = true) :
    leadingNumber? value =
      if value = [] ∨ Word.modulus ≤ decimalValue value then none
      else some (decimalValue value) := by
  have whole : value.takeWhile isDigit = value :=
    List.takeWhile_eq_self_iff.mpr digits
  simp only [leadingNumber?, whole, Bool.or_eq_true, List.isEmpty_iff,
    decide_eq_true_eq]

theorem isNumber_iff
    (value : Text) :
    isNumber value = true ↔
      value ≠ [] ∧ (∀ byte ∈ value, isDigit byte = true) ∧
        decimalValue value < Word.modulus := by
  rw [isNumber, Bool.and_eq_true, List.all_eq_true]
  constructor
  · rintro ⟨isRead, digits⟩
    rw [leadingNumber?_of_digits digits] at isRead
    split at isRead
    next => cases isRead
    next fits =>
        obtain ⟨nonempty, small⟩ := not_or.mp fits
        exact ⟨nonempty, digits, Nat.lt_of_not_le small⟩
  · rintro ⟨nonempty, digits, small⟩
    rw [leadingNumber?_of_digits digits,
      if_neg (not_or.mpr ⟨nonempty, Nat.not_le_of_lt small⟩)]
    exact ⟨rfl, digits⟩

theorem leadingNumber?_of_isNumber
    {value : Text}
    (isNumber : value.isNumber = true) :
    leadingNumber? value = some (decimalValue value) := by
  obtain ⟨nonempty, digits, small⟩ := (isNumber_iff value).mp isNumber
  rw [leadingNumber?_of_digits digits,
    if_neg (not_or.mpr ⟨nonempty, Nat.not_le_of_lt small⟩)]

theorem isNumber_decimal
    (small : number < Word.modulus) :
    isNumber (decimal number) = true := by
  rw [isNumber_iff, decimalValue_decimal]
  exact ⟨numeral_ne_nil 10 _ number, isDigit_of_mem_decimal number, small⟩

/-! ## Identifiers -/

/-- A text that is one identifier: a run of letters that is not empty. -/
def isIdentifier (text : Text) : Bool :=
  !text.isEmpty && text.all isLetter

theorem isIdentifier_iff
    (text : Text) :
    text.isIdentifier = true ↔
      text ≠ [] ∧ ∀ byte ∈ text, isLetter byte = true := by
  simp [isIdentifier]

end Text

/-- The letter of a number below twenty-six is a letter and stands for that
number. -/
theorem binderLetter_spec :
    ∀ digit, digit < 26 ->
      Text.isLetter (97 + digit).toUInt8 = true ∧
        (97 + digit).toUInt8.toNat - 97 = digit := by
  decide

/-- The name of a binder is an identifier. -/
theorem isIdentifier_binderName
    (level : Nat) :
    (binderName level).isIdentifier = true := by
  rw [Text.isIdentifier_iff]
  refine ⟨Text.numeral_ne_nil 26 _ level, ?_⟩
  exact Text.forall_mem_numeral (by omega)
    (fun digit small => (binderLetter_spec digit small).1) level

/-- The number of binders around the one with a given name. -/
def binderLevel (name : Text) : Nat :=
  Text.numeralValue 26 (fun byte => byte.toNat - 97) name

theorem binderLevel_binderName
    (level : Nat) :
    binderLevel (binderName level) = level := by
  apply Text.numeralValue_numeral (by omega)
  intro digit small
  exact (binderLetter_spec digit small).2

/-- Binders at different depths have different names. -/
theorem binderName_injective
    (equal : binderName left = binderName right) :
    left = right := by
  rw [← binderLevel_binderName left, ← binderLevel_binderName right, equal]

end LambdaCalculus
