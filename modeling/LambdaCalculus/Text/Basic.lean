/-!
# Byte text

Sources, identifiers, paths and rendered output are sequences of bytes.  A
text need not be valid UTF-8: a file is read before anyone knows whether it
is.  String literals stand for their UTF-8 bytes.
-/

namespace LambdaCalculus

/-- A sequence of bytes, in any or no encoding. -/
abbrev Text := List UInt8

namespace Text

/-- The UTF-8 bytes of a string. -/
def ofString (string : String) : Text :=
  string.toList.flatMap String.utf8EncodeChar

instance : Coe String Text := ⟨ofString⟩

/-- The bytes of the half-open range from `lo` to `hi`. -/
def slice
    (text : Text)
    (lo hi : Nat) : Text :=
  (text.drop lo).take (hi - lo)

/-- The part before the first NUL byte, which is all that an argument vector
or a system call sees of a text. -/
def beforeNul (text : Text) : Text :=
  text.takeWhile (· != 0)

/-- A text of equal bytes. -/
def fill
    (count : Nat)
    (byte : UInt8) : Text :=
  List.replicate count byte

@[simp] theorem length_fill
    (count : Nat)
    (byte : UInt8) :
    (fill count byte).length = count :=
  List.length_replicate

/-- A letter between `A` and `Z` or between `a` and `z`. -/
def isLetter (byte : UInt8) : Bool :=
  (65 <= byte && byte <= 90) || (97 <= byte && byte <= 122)

/-- One of the six blank bytes: tab, line feed, vertical tab, form feed,
carriage return and space. -/
def isBlank (byte : UInt8) : Bool :=
  (9 <= byte && byte <= 13) || byte == 32

/-- A decimal digit. -/
def isDigit (byte : UInt8) : Bool :=
  48 <= byte && byte <= 57

end Text
end LambdaCalculus
