import LambdaCalculus.Text.Basic
import LambdaCalculus.Word

/-!
# Positional numerals

A natural number is written most significant digit first, with no leading
zero digit except for zero itself.  Decimal numbers and the letters that name
binders are two instances.
-/

namespace LambdaCalculus
namespace Text

/-- The digits of `number` in the given base, most significant first.  A base
below two has no positional notation and gives the single digit of the whole
number. -/
def numeral
    (base : Nat)
    (digit : Nat -> UInt8)
    (number : Nat) : Text :=
  if number < base ∨ base < 2 then
    [digit number]
  else
    numeral base digit (number / base) ++ [digit (number % base)]
termination_by number
decreasing_by
  exact Nat.div_lt_self (by omega) (by omega)

theorem numeral_of_lt
    (digit : Nat -> UInt8)
    (small : number < base) :
    numeral base digit number = [digit number] := by
  rw [numeral, if_pos (Or.inl small)]

theorem numeral_of_le
    (digit : Nat -> UInt8)
    (twoLeBase : 2 ≤ base)
    (large : base ≤ number) :
    numeral base digit number =
      numeral base digit (number / base) ++ [digit (number % base)] := by
  rw [numeral, if_neg (by omega)]

/-- The decimal digit of a number below ten. -/
def decimalDigit (value : Nat) : UInt8 :=
  (48 + value).toUInt8

/-- A number in decimal notation. -/
def decimal (number : Nat) : Text :=
  numeral 10 decimalDigit number

/-- The upper-case hexadecimal digit of a number below sixteen. -/
def hexDigit (value : Nat) : UInt8 :=
  if value < 10 then decimalDigit value else (55 + value).toUInt8

/-- A byte as two upper-case hexadecimal digits. -/
def hexByte (byte : UInt8) : Text :=
  [hexDigit (byte.toNat / 16), hexDigit (byte.toNat % 16)]

/-- The value of a string of decimal digits. -/
def decimalValue (digits : Text) : Nat :=
  digits.foldl (fun value digit => 10 * value + (digit.toNat - 48)) 0

/-- The number that a text starts with: none without a leading digit or when
it needs more than 64 bits. -/
def leadingNumber? (value : Text) : Option Nat :=
  let digits := value.takeWhile isDigit
  let number := decimalValue digits
  if digits.isEmpty || number >= Word.modulus then none else some number

/-- The text is a number from its first to its last byte. -/
def isNumber (value : Text) : Bool :=
  (leadingNumber? value).isSome && value.all isDigit

end Text
end LambdaCalculus
