import LambdaCalculus.Proofs.Token.Pieces

/-!
# A text is taken apart in one way

No byte of a token is blank.  So the tokens and the blanks between them can be
found again in the text: whenever a text falls into blanks and lexemes without
blanks, these are the lexemes that are scanned.
-/

namespace LambdaCalculus
namespace Token

/-- No byte of a token is blank. -/
def Solid (tokens : List Token) : Prop :=
  ∀ token ∈ tokens, ∀ byte ∈ token.lexeme, Text.isBlank byte = false

theorem isBlank_of_isContinuation
    (continuation : Text.isContinuation byte = true) :
    Text.isBlank byte = false := by
  cases blank : Text.isBlank byte with
  | false => rfl
  | true =>
      have low := isBlank_lt blank
      have high := (Text.isContinuation_iff byte).mp continuation
      rw [UInt8.lt_iff_toNat_lt] at low
      exact absurd high.1 (Nat.not_le_of_lt low)

namespace IsLexeme

variable {kind : Kind} {others back : Text}

/-- A lexeme that does not start with a blank has no blank. -/
theorem noBlanks
    (isLexeme : IsLexeme kind (first :: others) back)
    (notBlank : Text.isBlank first = false) :
    ∀ byte ∈ first :: others, Text.isBlank byte = false := by
  generalize same : first :: others = lexeme at isLexeme
  cases isLexeme with
  | identifier _ letters _ =>
      exact fun byte member => (isLetter_spec byte (letters byte member)).2
  | symbol listed _ =>
      have all : ∀ entry ∈ spellings, ∀ byte ∈ entry.2.1 :: entry.2.2,
          Text.isBlank byte = false := by
        decide +kernel
      exact all _ listed
  | error character _ =>
      rw [← same]
      refine List.forall_mem_cons.mpr ⟨notBlank, fun byte member => ?_⟩
      exact isBlank_of_isContinuation
        (Text.isContinuation_of_encoded same.symm member)

/-- The scanner finds every lexeme in front of what follows it. -/
theorem front_eq
    (isLexeme : IsLexeme kind (first :: others) back) :
    front first (others ++ back) = (kind, others.length) := by
  generalize same : first :: others = lexeme at isLexeme
  cases isLexeme with
  | identifier _ letters ends =>
      rw [← same, List.forall_mem_cons] at letters
      rw [front, if_pos letters.1, takeWhile_isLetter_append letters.2 ends]
  | symbol listed _ =>
      obtain ⟨rfl, rfl⟩ := List.cons.inj same
      exact (front_spelling listed back).2
  | error character unknown =>
      obtain ⟨_, _, encoded, complete⟩ :=
        Text.trailing?_utf8EncodeChar character []
      obtain ⟨rfl, rfl⟩ := List.cons.inj (same.trans encoded)
      rw [encoded, List.cons_append] at unknown
      have notLetter : Text.isLetter first = false := by
        simpa [Text.endsWord] using unknown.noLetter
      have absent : spelling? first (others ++ back) = none := by
        rw [Option.eq_none_iff_forall_ne_some]
        rintro ⟨found, lead, more⟩ isFound
        obtain ⟨listed, rfl, startsWith⟩ := of_spelling? isFound
        exact unknown.noSymbol _ (mem_symbols_of_mem_spellings listed)
          (List.cons_prefix_cons.mpr ⟨rfl, startsWith⟩)
      unfold Text.trailing? at complete
      split at complete
      next => cases complete
      next lead starts =>
          obtain ⟨_, trailing⟩ := Option.ite_none_right_eq_some.mp complete
          rw [front, notLetter, absent, starts, ← Option.some.inj trailing]
          rfl

end IsLexeme

/-- Scanning a valid text gives solid tokens. -/
theorem solid_scan
    (file offset : Nat)
    (isUtf8 : Text.IsUtf8 text) :
    Solid (scan file offset text) := by
  fun_induction scan file offset text with
  | case1 =>
      intro token member
      cases member
  | case2 offset first rest blank inductionHypothesis =>
      exact inductionHypothesis ((isUtf8_blank blank).of_append isUtf8)
  | case3 offset first rest notBlank further lexeme inductionHypothesis =>
      have isLexeme := isLexeme_front isUtf8
      have split : first :: rest = lexeme ++ rest.drop further := by
        rw [List.cons_append, List.take_append_drop]
      rw [split] at isUtf8
      have behind := inductionHypothesis (isLexeme.isUtf8.of_append isUtf8)
      exact List.forall_mem_cons.mpr
        ⟨isLexeme.noBlanks (Bool.not_eq_true _ ▸ notBlank), behind⟩

/-- A text that falls into blanks and solid tokens is scanned as these tokens. -/
theorem Scans.scan_eq
    (scans : Scans file offset text tokens)
    (solid : Solid tokens) :
    scan file offset text = tokens := by
  induction scans with
  | nil => rw [scan]
  | blank blank _ inductionHypothesis =>
      rw [scan, if_pos blank]
      exact inductionHypothesis solid
  | @lexeme offset tokens kind lexeme text isLexeme _ inductionHypothesis =>
      obtain ⟨first, others, rfl⟩ :=
        List.exists_cons_of_ne_nil isLexeme.ne_nil
      obtain ⟨lexemeSolid, behindSolid⟩ := List.forall_mem_cons.mp solid
      have notBlank : Text.isBlank first = false :=
        lexemeSolid first List.mem_cons_self
      rw [List.cons_append, scan, if_neg (by simp [notBlank])]
      simp only [isLexeme.front_eq, List.take_left, List.drop_left]
      exact congrArg _ (inductionHypothesis behindSolid)

end Token
end LambdaCalculus
