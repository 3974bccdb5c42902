import LambdaCalculus.Proofs.Text.Numeral
import LambdaCalculus.Proofs.Text.Utf8
import LambdaCalculus.Token.Lexer
import Mathlib.Data.List.TakeWhile

/-!
# Scanning pieces

A text that is put together from pieces is scanned piece by piece.  A fixed
symbol ends by itself; an identifier ends where no letter follows, so the next
piece has to start with another byte.
-/

namespace LambdaCalculus

/-- The text does not go on with an identifier that ends in front of it. -/
def Text.endsWord : Text -> Bool
  | [] => true
  | byte :: _ => !isLetter byte

theorem Text.endsWord_append
    (leftEnds : left.endsWord = true)
    (rightEnds : endsWord right = true) :
    (left ++ right).endsWord = true := by
  cases left with
  | nil => exact rightEnds
  | cons byte rest => exact leftEnds

namespace Token

/-- The token with a given lexeme at a given place. -/
def placed
    (kind : Kind)
    (file offset : Nat)
    (lexeme : Text) : Token where
  kind := kind
  span := ⟨file, offset, offset + lexeme.length⟩
  lexeme := lexeme

/-- The text is valid, and in front of every text that ends its last
identifier it is scanned as the given tokens. -/
structure Spells
    (file offset : Nat)
    (text : Text)
    (tokens : List Token) : Prop where
  /-- The text is valid. -/
  valid : Text.firstInvalid? text = none
  /-- The tokens come first, and scanning goes on behind the text. -/
  scan_append : ∀ rest, Text.endsWord rest = true ->
    scan file offset (text ++ rest) =
      tokens ++ scan file (offset + text.length) rest

/-- The tokens of a text with nothing behind it. -/
theorem Spells.scan_eq
    (spells : Spells file offset text tokens) :
    scan file offset text = tokens := by
  have whole := spells.scan_append [] rfl
  simpa [scan] using whole

theorem spells_nil
    (file offset : Nat) :
    Spells file offset [] [] where
  valid := Text.firstInvalid?_of_ascii (by simp)
  scan_append := by simp

theorem Spells.append
    (left : Spells file offset leftText leftTokens)
    (right : Spells file (offset + leftText.length) rightText rightTokens)
    (apart : rightText.endsWord = true) :
    Spells file offset (leftText ++ rightText)
      (leftTokens ++ rightTokens) where
  valid := Text.firstInvalid?_append left.valid right.valid
  scan_append := by
    intro rest ends
    rw [List.append_assoc,
      left.scan_append _ (Text.endsWord_append apart ends),
      right.scan_append rest ends, List.length_append, List.append_assoc,
      Nat.add_assoc]

/-- A blank is a character of its own. -/
theorem isBlank_lt
    (blank : Text.isBlank byte = true) :
    byte < 0x80 := by
  simp only [Text.isBlank, Bool.or_eq_true, Bool.and_eq_true,
    decide_eq_true_eq, beq_iff_eq, UInt8.le_iff_toNat_le,
    ← UInt8.toNat_inj] at blank
  simp only [UInt8.lt_iff_toNat_lt]
  simp at blank ⊢
  omega

/-- A blank gives no token. -/
theorem Spells.blank_append
    {blank : UInt8}
    (isBlank : Text.isBlank blank = true)
    (spells : Spells file (offset + 1) text tokens) :
    Spells file offset (blank :: text) tokens where
  valid := by
    have blankValid : Text.firstInvalid? [blank] = none :=
      Text.firstInvalid?_of_ascii (by simpa using isBlank_lt isBlank)
    exact Text.firstInvalid?_append blankValid spells.valid
  scan_append := by
    intro rest ends
    rw [List.cons_append, scan, if_pos isBlank,
      spells.scan_append rest ends, List.length_cons, Nat.add_assoc,
      Nat.add_comm 1]

/-! ## Fixed symbols -/

theorem leftParenthesis_listed :
    (Kind.leftParenthesis, 0x28, []) ∈ spellings := by
  decide

theorem rightParenthesis_listed :
    (Kind.rightParenthesis, 0x29, []) ∈ spellings := by
  decide

theorem dot_listed : (Kind.dot, 0x2E, []) ∈ spellings := by
  decide

theorem colon_listed : (Kind.colon, 0x3A, []) ∈ spellings := by
  decide

theorem lambda_listed : (Kind.lambda, 0xCE, [0xBB]) ∈ spellings := by
  decide

theorem arrow_listed : (Kind.arrow, 0xE2, [0x86, 0x92]) ∈ spellings := by
  decide

/-- The first bytes of fixed symbols start neither a blank nor a name, and no
two symbols have the same first byte. -/
theorem front_spelling
    {kind : Kind}
    (listed : (kind, first, others) ∈ spellings)
    (rest : Text) :
    Text.isBlank first = false ∧
      front first (others ++ rest) = (kind, others.length) := by
  simp only [spellings, List.mem_cons, List.not_mem_nil, or_false,
    Prod.mk.injEq] at listed
  rcases listed with ⟨rfl, rfl, rfl⟩ | ⟨rfl, rfl, rfl⟩ | ⟨rfl, rfl, rfl⟩ |
    ⟨rfl, rfl, rfl⟩ | ⟨rfl, rfl, rfl⟩ | ⟨rfl, rfl, rfl⟩ | ⟨rfl, rfl, rfl⟩ |
    ⟨rfl, rfl, rfl⟩ <;>
  simp [Text.isBlank, front, Text.isLetter, spelling?, spellings,
    List.isPrefixOf]

/-- Fixed symbols are valid texts. -/
theorem firstInvalid?_spelling
    {kind : Kind}
    (listed : (kind, first, others) ∈ spellings) :
    Text.firstInvalid? (first :: others) = none := by
  simp only [spellings, List.mem_cons, List.not_mem_nil, or_false,
    Prod.mk.injEq] at listed
  rcases listed with ⟨rfl, rfl, rfl⟩ | ⟨rfl, rfl, rfl⟩ | ⟨rfl, rfl, rfl⟩ |
    ⟨rfl, rfl, rfl⟩ | ⟨rfl, rfl, rfl⟩ | ⟨rfl, rfl, rfl⟩ | ⟨rfl, rfl, rfl⟩ |
    ⟨rfl, rfl, rfl⟩ <;>
  simp [Text.firstInvalid?, Text.firstInvalidFrom?, Text.trailing?,
    Text.lead?, Text.Lead.acceptedBy, Text.startsWithContinuations,
    Text.isContinuation]

/-- A fixed symbol is scanned whatever stands behind it. -/
theorem Spells.spelling_append
    {kind : Kind}
    (listed : (kind, first, others) ∈ spellings)
    (spells : Spells file (offset + (others.length + 1)) text tokens) :
    Spells file offset (first :: others ++ text)
      (placed kind file offset (first :: others) :: tokens) where
  valid := Text.firstInvalid?_append (firstInvalid?_spelling listed)
    spells.valid
  scan_append := by
    intro rest ends
    obtain ⟨notBlank, isFront⟩ := front_spelling listed (text ++ rest)
    have further := spells.scan_append rest ends
    have sameEnd : offset + (others.length + 1) + text.length =
        offset + (first :: others ++ text).length := by
      simp only [List.cons_append, List.length_cons, List.length_append]
      omega
    rw [sameEnd] at further
    simp only [List.cons_append, List.append_assoc] at further ⊢
    rw [scan, if_neg (by simp [notBlank])]
    simp only [isFront, List.take_left, List.drop_left, List.length_cons]
    rw [further]
    rfl

/-- A fixed symbol by itself. -/
theorem spells_spelling
    {kind : Kind}
    (file offset : Nat)
    (listed : (kind, first, others) ∈ spellings) :
    Spells file offset (first :: others)
      [placed kind file offset (first :: others)] := by
  have empty := spells_nil file (offset + (others.length + 1))
  simpa using empty.spelling_append listed

/-! ## Identifiers -/

/-- A letter is a character of its own and no blank. -/
theorem isLetter_spec
    (byte : UInt8)
    (letter : Text.isLetter byte = true) :
    byte < 0x80 ∧ Text.isBlank byte = false := by
  simp only [Text.isLetter, Bool.or_eq_true, Bool.and_eq_true,
    decide_eq_true_eq, UInt8.le_iff_toNat_le] at letter
  simp only [Text.isBlank, Bool.or_eq_false_iff, Bool.and_eq_false_iff,
    decide_eq_false_iff_not, beq_eq_false_iff_ne, ne_eq,
    UInt8.le_iff_toNat_le, UInt8.lt_iff_toNat_lt, ← UInt8.toNat_inj]
  simp at letter ⊢
  omega

theorem takeWhile_isLetter_append
    (letters : ∀ byte ∈ text, Text.isLetter byte = true)
    (ends : Text.endsWord rest = true) :
    (text ++ rest).takeWhile Text.isLetter = text := by
  rw [List.takeWhile_append_of_pos letters]
  cases rest with
  | nil => simp
  | cons byte others =>
      simp only [Text.endsWord, Bool.not_eq_true'] at ends
      simp [ends]

/-- An identifier is scanned as one token. -/
theorem spells_identifier
    (file offset : Nat)
    (name : Text)
    (isName : name.isIdentifier = true) :
    Spells file offset name [placed .identifier file offset name] := by
  obtain ⟨nonempty, letters⟩ := (Text.isIdentifier_iff name).mp isName
  obtain ⟨first, others, rfl⟩ := List.exists_cons_of_ne_nil nonempty
  have firstLetter := letters first List.mem_cons_self
  have notBlank := (isLetter_spec first firstLetter).2
  constructor
  · exact Text.firstInvalid?_of_ascii
      (fun byte member => (isLetter_spec byte (letters byte member)).1)
  · intro rest ends
    have run : (others ++ rest).takeWhile Text.isLetter = others :=
      takeWhile_isLetter_append
        (fun byte member => letters byte (List.mem_cons_of_mem first member))
        ends
    have isFront : front first (others ++ rest) =
        (.identifier, others.length) := by
      simp [front, firstLetter, run]
    rw [List.cons_append, scan, if_neg (by simp [notBlank])]
    simp [isFront, placed]

end Token
end LambdaCalculus
