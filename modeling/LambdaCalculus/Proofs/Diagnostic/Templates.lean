import LambdaCalculus.Diagnostic.Message
import LambdaCalculus.Proofs.Text.Numeral
import Mathlib.Data.List.Basic

/-!
# Templates are filled piece by piece

A template is taken apart into words and numbered slots.  Filling it keeps the
words and puts the argument with its number in the place of every slot, whatever
bytes the argument has.  The templates of all codes have braces around the
numbers of their slots only, and number their slots one after another.
-/

namespace LambdaCalculus
namespace Template

/-- A part of a template. -/
inductive Piece
  /-- Fixed words. -/
  | words (text : Text)
  /-- The place of the argument with this number. -/
  | slot (number : Nat)
deriving DecidableEq

namespace Piece

/-- How a piece is written in a template. -/
def spelled : Piece -> Text
  | words text => text
  | slot number => openingBrace :: (Text.decimal number ++ [closingBrace])

/-- What becomes of a piece when the template is filled. -/
def filled (arguments : List Text) : Piece -> Text
  | words text => text
  | slot number => (arguments[number]?).getD (slot number).spelled

/-- A piece with its argument in the place of the slot. -/
def replaced (arguments : List Text) : Piece -> Text
  | words text => text
  | slot number => arguments.getD number []

/-- The number of a slot. -/
def number? : Piece -> Option Nat
  | words _ => none
  | slot number => some number

/-- There are no braces among words, and the number of a slot can be read. -/
def plain : Piece -> Bool
  | words text => !text.contains openingBrace && !text.contains closingBrace
  | slot number => number < Word.modulus

end Piece

/-! ## Filling -/

theorem openingBrace_notMem_decimal
    (number : Nat) :
    openingBrace ∉ Text.decimal number := by
  intro member
  cases Text.isDigit_of_mem_decimal number _ member

theorem closingBrace_notMem_decimal
    (number : Nat) :
    closingBrace ∉ Text.decimal number := by
  intro member
  cases Text.isDigit_of_mem_decimal number _ member

theorem label_append
    (noBrace : closingBrace ∉ text)
    (rest : Text) :
    label (text ++ closingBrace :: rest) = text := by
  rw [label, List.takeWhile_append_of_pos]
  · simp
  · intro byte member
    rw [bne_iff_ne]
    rintro rfl
    exact noBrace member

/-- Words are passed over. -/
theorem fill_words
    (arguments : List Text)
    (noBrace : openingBrace ∉ text)
    (rest : Text) :
    fill arguments (text ++ rest) = text ++ fill arguments rest := by
  induction text with
  | nil => rfl
  | cons byte text inductionHypothesis =>
      rw [List.mem_cons, not_or] at noBrace
      obtain ⟨other, noMore⟩ := noBrace
      have noPlaceholder : placeholder? byte (text ++ rest) = none := by
        simp [placeholder?, Ne.symm other]
      rw [List.cons_append, fill, noPlaceholder]
      simp only [Option.bind_none]
      rw [inductionHypothesis noMore, List.cons_append]

theorem placeholder?_slot
    (small : number < Word.modulus)
    (rest : Text) :
    placeholder? openingBrace (Text.decimal number ++ closingBrace :: rest) =
      some number := by
  have isLabel := label_append (closingBrace_notMem_decimal number) rest
  rw [placeholder?, isLabel, Text.isNumber_decimal small,
    Text.decimalValue_decimal]
  simp

/-- A slot gives way to its argument, and filling goes on behind the slot.  If there
is no such argument, the number and the closing brace are passed over like words. -/
theorem fill_slot
    (arguments : List Text)
    (small : number < Word.modulus)
    (rest : Text) :
    fill arguments ((Piece.slot number).spelled ++ rest) =
      (Piece.slot number).filled arguments ++ fill arguments rest := by
  have spelled : (Piece.slot number).spelled ++ rest =
      openingBrace :: (Text.decimal number ++ closingBrace :: rest) := by
    simp [Piece.spelled]
  have isLabel := label_append (closingBrace_notMem_decimal number) rest
  rw [spelled, fill, placeholder?_slot small, Option.bind_some, isLabel,
    Piece.filled]
  cases arguments[number]? with
  | some argument =>
      have behind : (Text.decimal number ++ closingBrace :: rest).drop
          ((Text.decimal number).length + 1) = rest := by
        rw [List.append_cons]
        exact List.drop_left' (by simp)
      simp only [behind, Option.getD_some]
  | none =>
      have noBrace : openingBrace ∉ Text.decimal number ++ [closingBrace] := by
        rw [List.mem_append, not_or]
        exact ⟨openingBrace_notMem_decimal number, by decide⟩
      have passed := fill_words arguments noBrace rest
      rw [List.append_assoc, List.singleton_append] at passed
      simp only [passed, Option.getD_none, Piece.spelled, List.cons_append]

/-- Filling a template fills its pieces one by one. -/
theorem fill_pieces
    (arguments : List Text)
    {pieces : List Piece}
    (plain : ∀ piece ∈ pieces, piece.plain = true) :
    fill arguments (pieces.flatMap Piece.spelled) =
      pieces.flatMap (Piece.filled arguments) := by
  induction pieces with
  | nil => rw [List.flatMap_nil, List.flatMap_nil, fill]
  | cons piece pieces inductionHypothesis =>
      obtain ⟨firstPlain, othersPlain⟩ := List.forall_mem_cons.mp plain
      rw [List.flatMap_cons, List.flatMap_cons,
        ← inductionHypothesis othersPlain]
      cases piece with
      | words text =>
          have noBrace : openingBrace ∉ text := by
            simp only [Piece.plain, Bool.and_eq_true, Bool.not_eq_true',
              List.contains_eq_mem, decide_eq_false_iff_not] at firstPlain
            exact firstPlain.1
          exact fill_words arguments noBrace _
      | slot number =>
          exact fill_slot arguments (of_decide_eq_true firstPlain) _

/-! ## Taking a template apart -/

/-- The pieces of a template: what stands in front of the first opening brace,
and then at each opening brace a number and what stands behind it. -/
def pieces (template : Text) : List Piece :=
  match template.splitOn openingBrace with
  | [] => []
  | first :: others =>
      .words first :: others.flatMap fun part =>
        [.slot (Text.decimalValue (label part)),
          .words (part.drop ((label part).length + 1))]

/-- The numbers of the slots of a template. -/
def slots (template : Text) : List Nat :=
  (pieces template).filterMap Piece.number?

end Template

namespace Diagnostic

/-- The number of arguments in the message of a code. -/
def Code.arity : Code -> Nat
  | .typeInvalidApplication => 4
  | .invalidUtf8 | .expectedToken | .typeUnboundIndex => 2
  | .typeAnnotationRequired | .unlisted _ => 0
  | _ => 1

/-- Every template consists of its pieces, has no braces but those of its slots,
and numbers its slots from zero on. -/
theorem Code.template_pieces
    (code : Code) :
    code.template = (Template.pieces code.template).flatMap
        Template.Piece.spelled ∧
      (∀ piece ∈ Template.pieces code.template, piece.plain = true) ∧
      Template.slots code.template = List.range code.arity := by
  cases code <;> (dsimp only [Code.template, Code.arity]; decide +kernel)

/-- A message is the template of its code with the arguments in their places. -/
theorem message_eq_pieces
    (diagnostic : Diagnostic) :
    diagnostic.message =
      (Template.pieces diagnostic.code.template).flatMap
        (Template.Piece.filled diagnostic.arguments) := by
  obtain ⟨consists, plain, _⟩ := diagnostic.code.template_pieces
  have isTemplate := congrArg (Template.fill diagnostic.arguments) consists
  exact isTemplate.trans (Template.fill_pieces diagnostic.arguments plain)

/-- A diagnostic has one argument for each place in the template of its code, and
its message is the template with the arguments, as they are, in these places. -/
structure FillsTemplate (diagnostic : Diagnostic) : Prop where
  /-- The template consists of words and slots. -/
  consists : diagnostic.code.template =
    (Template.pieces diagnostic.code.template).flatMap Template.Piece.spelled
  /-- There are no other braces in it. -/
  plain : ∀ piece ∈ Template.pieces diagnostic.code.template,
    piece.plain = true
  /-- There is one slot for each argument, in the order of the arguments. -/
  numbered : Template.slots diagnostic.code.template =
    List.range diagnostic.arguments.length
  /-- The message has the words of the template and the arguments, and nothing
  else. -/
  message : diagnostic.message =
    (Template.pieces diagnostic.code.template).flatMap
      (Template.Piece.replaced diagnostic.arguments)

/-- With as many arguments as its code has places for, a diagnostic fills its
template: each slot is one of those numbered, so there is an argument for it. -/
theorem FillsTemplate.of_length
    {diagnostic : Diagnostic}
    (enough : diagnostic.arguments.length = diagnostic.code.arity) :
    diagnostic.FillsTemplate := by
  obtain ⟨consists, plain, numbered⟩ := diagnostic.code.template_pieces
  rw [← enough] at numbered
  refine ⟨consists, plain, numbered, ?_⟩
  rw [message_eq_pieces]
  apply List.flatMap_congr
  intro piece member
  cases piece with
  | words text => rfl
  | slot number =>
      have inSlots : number ∈ Template.slots diagnostic.code.template :=
        List.mem_filterMap.mpr ⟨_, member, rfl⟩
      rw [numbered, List.mem_range] at inSlots
      simp [Template.Piece.filled, Template.Piece.replaced, inSlots]

end Diagnostic
end LambdaCalculus
