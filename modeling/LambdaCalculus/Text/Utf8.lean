import LambdaCalculus.Text.Basic

/-!
# Strict UTF-8

A text is valid when it is a concatenation of encoded scalar values: no
overlong form, no surrogate, nothing above `U+10FFFF` and no sequence cut
short.  The first byte of a sequence fixes its length and the range of its
second byte; the remaining bytes are arbitrary continuation bytes.
-/

namespace LambdaCalculus
namespace Text

/-- A byte of the form `10xxxxxx`. -/
def isContinuation (byte : UInt8) : Bool :=
  0x80 <= byte && byte <= 0xBF

/-- What the first byte of a sequence promises about the rest of it. -/
structure Lead where
  /-- The number of bytes that follow the first one. -/
  trailing : Nat
  /-- The least second byte. -/
  low : UInt8
  /-- The greatest second byte. -/
  high : UInt8
deriving DecidableEq

/-- The promise of a first byte, if the byte can start a sequence. -/
def lead? (byte : UInt8) : Option Lead :=
  if byte < 0x80 then some ⟨0, 0x80, 0xBF⟩
  else if byte < 0xC2 then none
  else if byte <= 0xDF then some ⟨1, 0x80, 0xBF⟩
  else if byte == 0xE0 then some ⟨2, 0xA0, 0xBF⟩
  else if byte == 0xED then some ⟨2, 0x80, 0x9F⟩
  else if byte <= 0xEF then some ⟨2, 0x80, 0xBF⟩
  else if byte == 0xF0 then some ⟨3, 0x90, 0xBF⟩
  else if byte <= 0xF3 then some ⟨3, 0x80, 0xBF⟩
  else if byte == 0xF4 then some ⟨3, 0x80, 0x8F⟩
  else none

/-- A text starts with so many continuation bytes. -/
def startsWithContinuations : Nat -> Text -> Bool
  | 0, _ => true
  | _ + 1, [] => false
  | more + 1, byte :: rest =>
      isContinuation byte && startsWithContinuations more rest

/-- The bytes that follow complete the sequence: the second one is in range
and the others are continuation bytes. -/
def Lead.acceptedBy
    (lead : Lead)
    (following : Text) : Bool :=
  match lead.trailing, following with
  | 0, _ => true
  | _ + 1, [] => false
  | more + 1, second :: others =>
      lead.low <= second && second <= lead.high &&
        startsWithContinuations more others

/-- The number of bytes after `first` that belong to its sequence, or `none`
when no complete sequence starts here. -/
def trailing?
    (first : UInt8)
    (following : Text) : Option Nat :=
  match lead? first with
  | none => none
  | some lead =>
      if lead.acceptedBy following then some lead.trailing else none

/-- The offset, counted from `offset`, at which the first sequence that is
not valid starts. -/
def firstInvalidFrom? (offset : Nat) (text : Text) : Option Nat :=
  match text with
  | [] => none
  | first :: following =>
      match trailing? first following with
      | none => some offset
      | some trailing =>
          firstInvalidFrom? (offset + trailing + 1) (following.drop trailing)
termination_by text.length
decreasing_by
  simp only [List.length_drop, List.length_cons]
  omega

/-- The offset of the first byte at which no valid sequence starts; `none`
for valid UTF-8. -/
def firstInvalid? (text : Text) : Option Nat :=
  firstInvalidFrom? 0 text

end Text
end LambdaCalculus
