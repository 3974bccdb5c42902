import LambdaCalculus.Proofs.Parser.Grammar
import Mathlib.Data.List.TakeWhile

/-!
# The alphabet

A source may consist of blanks, letters and eight fixed symbols.  Where a text
is scanned without error tokens, it has nothing else in it.
-/

namespace LambdaCalculus
namespace Text

/-- The fixed symbols of a source; lambda and arrow have two spellings. -/
def symbols : List Text :=
  ["(", ")", "λ", "\\", ".", ":", "→", "->"]

/-- The text is made of blanks, letters and fixed symbols. -/
inductive OverAlphabet : Text -> Prop
  | nil : OverAlphabet []
  | blank
      (blank : isBlank byte = true)
      (rest : OverAlphabet text) :
      OverAlphabet (byte :: text)
  | letter
      (letter : isLetter byte = true)
      (rest : OverAlphabet text) :
      OverAlphabet (byte :: text)
  | symbol
      (listed : symbol ∈ symbols)
      (rest : OverAlphabet text) :
      OverAlphabet (symbol ++ text)

theorem OverAlphabet.letters_append
    {letters : Text}
    (areLetters : ∀ byte ∈ letters, isLetter byte = true)
    (rest : OverAlphabet text) :
    OverAlphabet (letters ++ text) := by
  induction letters with
  | nil => exact rest
  | cons byte letters inductionHypothesis =>
      exact letter (areLetters byte List.mem_cons_self)
        (inductionHypothesis fun other member =>
          areLetters other (List.mem_cons_of_mem byte member))

end Text

namespace Token

/-- The lexer knows no other symbols. -/
theorem mem_symbols_of_mem_spellings
    {kind : Kind}
    (listed : (kind, first, others) ∈ spellings) :
    first :: others ∈ Text.symbols := by
  have all : ∀ entry ∈ spellings,
      entry.2.1 :: entry.2.2 ∈ Text.symbols := by
    decide
  exact all _ listed

/-- What the scanner finds is a listed symbol in front of the text. -/
theorem of_spelling?
    {kind : Kind}
    (found : spelling? first rest = some (kind, lead, others)) :
    (kind, lead, others) ∈ spellings ∧ lead = first ∧ others <+: rest := by
  have fits := List.find?_some found
  simp only [Bool.and_eq_true, beq_iff_eq] at fits
  exact ⟨List.mem_of_find?_eq_some found, fits.1,
    List.isPrefixOf_iff_prefix.mp fits.2⟩

/-- A token that is no error consists of letters or is a fixed symbol. -/
theorem front_cases
    (noError : (front first rest).1 ≠ .error) :
    ∃ others, others <+: rest ∧ (front first rest).2 = others.length ∧
      ((∀ byte ∈ first :: others, Text.isLetter byte = true) ∨
        first :: others ∈ Text.symbols) := by
  unfold front at noError ⊢
  split
  next isLetter =>
      refine ⟨rest.takeWhile Text.isLetter, List.takeWhile_prefix _, rfl,
        Or.inl (List.forall_mem_cons.mpr ⟨isLetter, ?_⟩)⟩
      exact fun byte member => List.mem_takeWhile_imp member
  next notLetter =>
      rw [if_neg notLetter] at noError
      split
      next kind lead others found =>
          obtain ⟨listed, rfl, startsWith⟩ := of_spelling? found
          exact ⟨others, startsWith, rfl,
            Or.inr (mem_symbols_of_mem_spellings listed)⟩
      next absent =>
          rw [absent] at noError
          exact absurd rfl noError

/-- A text without error tokens is a text over the alphabet. -/
theorem overAlphabet_of_noErrors
    (noErrors : Grammar.NoErrors (scan file offset text)) :
    Text.OverAlphabet text := by
  fun_induction scan file offset text with
  | case1 => exact .nil
  | case2 offset first rest blank inductionHypothesis =>
      exact .blank blank (inductionHypothesis noErrors)
  | case3 offset first rest notBlank further lexeme inductionHypothesis =>
      rw [Grammar.noErrors_cons] at noErrors
      have behind := inductionHypothesis noErrors.2
      obtain ⟨others, ⟨more, rfl⟩, length, areLetters | listed⟩ :=
        front_cases noErrors.1
      all_goals rw [show further = others.length from length,
        List.drop_left] at behind
      · exact .letters_append areLetters behind
      · exact .symbol listed behind

end Token
end LambdaCalculus
