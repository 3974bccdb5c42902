import LambdaCalculus.Proofs.Text.Utf8

/-!
# Valid texts are encoded characters

Validity is decided from the first byte of a sequence and the range of the
second.  These ranges are the ones that the encodings of characters fill: a
text is valid exactly if it is the encoding of a list of characters.
-/

namespace LambdaCalculus
namespace Text

/-- The text encodes a list of characters. -/
def IsUtf8 (text : Text) : Prop :=
  ∃ characters : List Char, text = characters.flatMap String.utf8EncodeChar

/-- What a first byte promises, by the range of the byte. -/
theorem lead?_eq
    (byte : UInt8) :
    lead? byte =
      if byte.toNat < 128 then some ⟨0, 0x80, 0xBF⟩
      else if byte.toNat < 194 then none
      else if byte.toNat < 224 then some ⟨1, 0x80, 0xBF⟩
      else if byte.toNat < 240 then
        some ⟨2, if byte.toNat = 224 then 0xA0 else 0x80,
          if byte.toNat = 237 then 0x9F else 0xBF⟩
      else if byte.toNat < 245 then
        some ⟨3, if byte.toNat = 240 then 0x90 else 0x80,
          if byte.toNat = 244 then 0x8F else 0xBF⟩
      else none := by
  simp only [lead?, UInt8.lt_iff_toNat_lt, UInt8.le_iff_toNat_le, beq_iff_eq,
    ← UInt8.toNat_inj, UInt8.reduceToNat]
  grind

theorem isContinuation_iff
    (byte : UInt8) :
    isContinuation byte = true ↔ 128 ≤ byte.toNat ∧ byte.toNat ≤ 191 := by
  simp [isContinuation, UInt8.le_iff_toNat_le]

/-- The encoding of the character with a given number. -/
theorem utf8EncodeChar_ofNat
    {value : Nat}
    (scalar : value.isValidChar) :
    String.utf8EncodeChar (Char.ofNat value) =
      if value ≤ 127 then [UInt8.ofNat value]
      else if value ≤ 2047 then
        [UInt8.ofNat (value / 64 % 32 + 192), UInt8.ofNat (value % 64 + 128)]
      else if value ≤ 65535 then
        [UInt8.ofNat (value / 4096 % 16 + 224),
          UInt8.ofNat (value / 64 % 64 + 128), UInt8.ofNat (value % 64 + 128)]
      else
        [UInt8.ofNat (value / 262144 % 8 + 240),
          UInt8.ofNat (value / 4096 % 64 + 128),
          UInt8.ofNat (value / 64 % 64 + 128),
          UInt8.ofNat (value % 64 + 128)] := by
  have sameValue : (Char.ofNat value).val.toNat = value := by
    rw [Char.ofNat, dif_pos scalar]
    rfl
  rw [String.utf8EncodeChar, sameValue]

theorem ofNat_eq_of_toNat_eq
    (byte : UInt8)
    (same : value = byte.toNat) :
    UInt8.ofNat value = byte := by
  rw [same, UInt8.ofNat_toNat]

/-! ## Sequences are encoded characters -/

theorem exists_character_of_one
    {first : UInt8}
    (high : first.toNat < 128) :
    ∃ character, String.utf8EncodeChar character = [first] := by
  refine ⟨Char.ofNat first.toNat, ?_⟩
  rw [utf8EncodeChar_ofNat (Or.inl (by omega)), if_pos (by omega),
    ofNat_eq_of_toNat_eq first rfl]

theorem exists_character_of_two
    {first second : UInt8}
    (low : 194 ≤ first.toNat)
    (high : first.toNat < 224)
    (secondLow : 128 ≤ second.toNat)
    (secondHigh : second.toNat ≤ 191) :
    ∃ character, String.utf8EncodeChar character = [first, second] := by
  refine ⟨Char.ofNat ((first.toNat - 192) * 64 + (second.toNat - 128)), ?_⟩
  rw [utf8EncodeChar_ofNat (Or.inl (by omega)), if_neg (by omega),
    if_pos (by omega), ofNat_eq_of_toNat_eq first (by omega),
    ofNat_eq_of_toNat_eq second (by omega)]

/-- The second byte keeps out the values that two bytes can encode and the
surrogates. -/
theorem exists_character_of_three
    {first second third : UInt8}
    (low : 224 ≤ first.toNat)
    (high : first.toNat < 240)
    (secondLow : (if first.toNat = 224 then 160 else 128) ≤ second.toNat)
    (secondHigh : second.toNat ≤ if first.toNat = 237 then 159 else 191)
    (thirdLow : 128 ≤ third.toNat)
    (thirdHigh : third.toNat ≤ 191) :
    ∃ character, String.utf8EncodeChar character = [first, second, third] := by
  have tooLow : 128 ≤ second.toNat := by grind
  have tooHigh : second.toNat ≤ 191 := by grind
  have long : 2047 < (first.toNat - 224) * 4096 + (second.toNat - 128) * 64 := by
    grind
  have noSurrogate : Nat.isValidChar ((first.toNat - 224) * 4096 +
      (second.toNat - 128) * 64 + (third.toNat - 128)) := by
    unfold Nat.isValidChar
    grind
  refine ⟨Char.ofNat ((first.toNat - 224) * 4096 +
    (second.toNat - 128) * 64 + (third.toNat - 128)), ?_⟩
  rw [utf8EncodeChar_ofNat noSurrogate, if_neg (by omega), if_neg (by omega),
    if_pos (by omega), ofNat_eq_of_toNat_eq first (by omega),
    ofNat_eq_of_toNat_eq second (by omega),
    ofNat_eq_of_toNat_eq third (by omega)]

/-- The second byte keeps out the values that three bytes can encode and those
above the greatest character. -/
theorem exists_character_of_four
    {first second third fourth : UInt8}
    (low : 240 ≤ first.toNat)
    (high : first.toNat < 245)
    (secondLow : (if first.toNat = 240 then 144 else 128) ≤ second.toNat)
    (secondHigh : second.toNat ≤ if first.toNat = 244 then 143 else 191)
    (thirdLow : 128 ≤ third.toNat)
    (thirdHigh : third.toNat ≤ 191)
    (fourthLow : 128 ≤ fourth.toNat)
    (fourthHigh : fourth.toNat ≤ 191) :
    ∃ character,
      String.utf8EncodeChar character = [first, second, third, fourth] := by
  have tooLow : 128 ≤ second.toNat := by grind
  have tooHigh : second.toNat ≤ 191 := by grind
  have long : 65535 <
      (first.toNat - 240) * 262144 + (second.toNat - 128) * 4096 := by
    grind
  have bounded : Nat.isValidChar ((first.toNat - 240) * 262144 +
      (second.toNat - 128) * 4096 + (third.toNat - 128) * 64 +
      (fourth.toNat - 128)) := by
    unfold Nat.isValidChar
    grind
  refine ⟨Char.ofNat ((first.toNat - 240) * 262144 +
    (second.toNat - 128) * 4096 + (third.toNat - 128) * 64 +
    (fourth.toNat - 128)), ?_⟩
  rw [utf8EncodeChar_ofNat bounded, if_neg (by omega), if_neg (by omega),
    if_neg (by omega), ofNat_eq_of_toNat_eq first (by omega),
    ofNat_eq_of_toNat_eq second (by omega),
    ofNat_eq_of_toNat_eq third (by omega),
    ofNat_eq_of_toNat_eq fourth (by omega)]

theorem startsWithContinuations_succ
    (starts : startsWithContinuations (more + 1) text = true) :
    ∃ byte rest, text = byte :: rest ∧ 128 ≤ byte.toNat ∧ byte.toNat ≤ 191 ∧
      startsWithContinuations more rest = true := by
  cases text with
  | nil => cases starts
  | cons byte rest =>
      rw [startsWithContinuations, Bool.and_eq_true,
        isContinuation_iff] at starts
      exact ⟨byte, rest, rfl, starts.1.1, starts.1.2, starts.2⟩

theorem Lead.acceptedBy_succ
    {low high : UInt8}
    (accepted : (Lead.mk (more + 1) low high).acceptedBy following = true) :
    ∃ second others, following = second :: others ∧
      low.toNat ≤ second.toNat ∧ second.toNat ≤ high.toNat ∧
      startsWithContinuations more others = true := by
  cases following with
  | nil => cases accepted
  | cons second others =>
      simp only [acceptedBy, Bool.and_eq_true, decide_eq_true_eq,
        UInt8.le_iff_toNat_le] at accepted
      exact ⟨second, others, rfl, accepted.1.1, accepted.1.2, accepted.2⟩

/-- A complete sequence is the encoding of a character. -/
theorem exists_utf8EncodeChar_eq
    (complete : trailing? first following = some trailing) :
    ∃ character : Char,
      String.utf8EncodeChar character = first :: following.take trailing := by
  unfold trailing? at complete
  split at complete
  next => cases complete
  next lead starts =>
      obtain ⟨accepted, same⟩ := Option.ite_none_right_eq_some.mp complete
      cases same
      rw [lead?_eq] at starts
      split at starts
      next one =>
          cases starts
          exact exists_character_of_one one
      next =>
      split at starts
      next => cases starts
      next =>
      split at starts
      next two =>
          cases starts
          obtain ⟨second, others, rfl, secondLow, secondHigh, _⟩ :=
            Lead.acceptedBy_succ accepted
          exact exists_character_of_two (by omega) two secondLow secondHigh
      next =>
      split at starts
      next three =>
          cases starts
          obtain ⟨second, others, rfl, secondLow, secondHigh, continues⟩ :=
            Lead.acceptedBy_succ accepted
          obtain ⟨third, rest, rfl, thirdLow, thirdHigh, _⟩ :=
            startsWithContinuations_succ continues
          rw [apply_ite UInt8.toNat] at secondLow secondHigh
          exact exists_character_of_three (by omega) three secondLow secondHigh
            thirdLow thirdHigh
      next =>
      split at starts
      next four =>
          cases starts
          obtain ⟨second, others, rfl, secondLow, secondHigh, continues⟩ :=
            Lead.acceptedBy_succ accepted
          obtain ⟨third, more, rfl, thirdLow, thirdHigh, continuesMore⟩ :=
            startsWithContinuations_succ continues
          obtain ⟨fourth, rest, rfl, fourthLow, fourthHigh, _⟩ :=
            startsWithContinuations_succ continuesMore
          rw [apply_ite UInt8.toNat] at secondLow secondHigh
          exact exists_character_of_four (by omega) four secondLow secondHigh
            thirdLow thirdHigh fourthLow fourthHigh
      next => cases starts

/-! ## Encoded characters are sequences -/

theorem toNat_ofNat_of_lt
    (small : value < 256) :
    (UInt8.ofNat value).toNat = value :=
  UInt8.toNat_ofNat_of_lt' small

theorem isContinuation_ofNat
    (value : Nat) :
    isContinuation (UInt8.ofNat (value % 64 + 128)) = true := by
  rw [isContinuation_iff, toNat_ofNat_of_lt (by omega)]
  omega

theorem startsWithContinuations_cons
    (continuation : isContinuation byte = true)
    (continues : startsWithContinuations more rest = true) :
    startsWithContinuations (more + 1) (byte :: rest) = true := by
  rw [startsWithContinuations, continuation, continues]
  rfl

theorem Lead.acceptedBy_cons
    {low high : UInt8}
    {value : Nat}
    (small : value < 256)
    (secondLow : low.toNat ≤ value)
    (secondHigh : value ≤ high.toNat)
    (continues : startsWithContinuations more others = true) :
    (Lead.mk (more + 1) low high).acceptedBy
      (UInt8.ofNat value :: others) = true := by
  simp only [acceptedBy, Bool.and_eq_true, decide_eq_true_eq,
    UInt8.le_iff_toNat_le, toNat_ofNat_of_lt small]
  exact ⟨⟨secondLow, secondHigh⟩, continues⟩

/-- A character is encoded as a complete sequence. -/
theorem trailing?_utf8EncodeChar
    (character : Char)
    (rest : Text) :
    ∃ first others, String.utf8EncodeChar character = first :: others ∧
      trailing? first (others ++ rest) = some others.length := by
  have scalar : character.val.toNat.isValidChar := character.valid
  unfold String.utf8EncodeChar
  generalize character.val.toNat = value at scalar
  unfold Nat.isValidChar at scalar
  simp only
  split
  next one =>
      refine ⟨_, _, rfl, ?_⟩
      rw [trailing?, lead?_eq, toNat_ofNat_of_lt (by omega), if_pos (by omega)]
      rfl
  next =>
  split
  next two =>
      refine ⟨_, _, rfl, ?_⟩
      rw [trailing?, lead?_eq, toNat_ofNat_of_lt (by omega), if_neg (by omega),
        if_neg (by omega), if_pos (by omega)]
      apply if_pos
      apply Lead.acceptedBy_cons (by omega)
      · exact Nat.le_add_left 128 _
      · change value % 64 + 128 ≤ 191
        omega
      · rfl
  next =>
  split
  next three =>
      refine ⟨_, _, rfl, ?_⟩
      rw [trailing?, lead?_eq, toNat_ofNat_of_lt (by omega), if_neg (by omega),
        if_neg (by omega), if_neg (by omega), if_pos (by omega)]
      apply if_pos
      apply Lead.acceptedBy_cons (by omega)
      · simp only [apply_ite UInt8.toNat, UInt8.reduceToNat]
        split <;> omega
      · simp only [apply_ite UInt8.toNat, UInt8.reduceToNat]
        split <;> omega
      · exact startsWithContinuations_cons (isContinuation_ofNat value) rfl
  next =>
      refine ⟨_, _, rfl, ?_⟩
      rw [trailing?, lead?_eq, toNat_ofNat_of_lt (by omega), if_neg (by omega),
        if_neg (by omega), if_neg (by omega), if_neg (by omega),
        if_pos (by omega)]
      apply if_pos
      apply Lead.acceptedBy_cons (by omega)
      · simp only [apply_ite UInt8.toNat, UInt8.reduceToNat]
        split <;> omega
      · simp only [apply_ite UInt8.toNat, UInt8.reduceToNat]
        split <;> omega
      · exact startsWithContinuations_cons (isContinuation_ofNat _)
          (startsWithContinuations_cons (isContinuation_ofNat value) rfl)

/-! ## Whole texts -/

theorem isUtf8_of_firstInvalidFrom?
    (valid : firstInvalidFrom? offset text = none) :
    IsUtf8 text := by
  fun_induction firstInvalidFrom? offset text with
  | case1 => exact ⟨[], rfl⟩
  | case2 => cases valid
  | case3 offset first following trailing complete inductionHypothesis =>
      obtain ⟨character, encoded⟩ := exists_utf8EncodeChar_eq complete
      obtain ⟨characters, decoded⟩ := inductionHypothesis valid
      refine ⟨character :: characters, ?_⟩
      rw [List.flatMap_cons, encoded, ← decoded, List.cons_append,
        List.take_append_drop]

theorem firstInvalidFrom?_flatMap
    (offset : Nat)
    (characters : List Char) :
    firstInvalidFrom? offset
      (characters.flatMap String.utf8EncodeChar) = none := by
  induction characters generalizing offset with
  | nil => rw [List.flatMap_nil, firstInvalidFrom?]
  | cons character characters inductionHypothesis =>
      obtain ⟨first, others, encoded, complete⟩ := trailing?_utf8EncodeChar
        character (characters.flatMap String.utf8EncodeChar)
      rw [List.flatMap_cons, encoded, List.cons_append, firstInvalidFrom?,
        complete]
      simp only [List.drop_left]
      exact inductionHypothesis _

/-- A text is valid exactly if it encodes a list of characters. -/
theorem firstInvalid?_eq_none_iff
    (text : Text) :
    firstInvalid? text = none ↔ IsUtf8 text := by
  constructor
  · exact isUtf8_of_firstInvalidFrom?
  · rintro ⟨characters, rfl⟩
    exact firstInvalidFrom?_flatMap 0 characters

/-! ## Parts of texts -/

theorem isUtf8_nil : IsUtf8 [] :=
  ⟨[], rfl⟩

theorem isUtf8_utf8EncodeChar
    (character : Char) :
    IsUtf8 (String.utf8EncodeChar character) :=
  ⟨[character], (List.flatMap_singleton _ _).symm⟩

theorem isUtf8_of_ascii
    (ascii : ∀ byte ∈ text, byte < 0x80) :
    IsUtf8 text :=
  (firstInvalid?_eq_none_iff text).mp (firstInvalid?_of_ascii ascii)

theorem IsUtf8.append
    (left : IsUtf8 leftText)
    (right : IsUtf8 rightText) :
    IsUtf8 (leftText ++ rightText) := by
  obtain ⟨leftCharacters, rfl⟩ := left
  obtain ⟨rightCharacters, rfl⟩ := right
  exact ⟨leftCharacters ++ rightCharacters, List.flatMap_append.symm⟩

/-- What is left behind a valid part of a valid text is valid. -/
theorem IsUtf8.of_append
    (left : IsUtf8 leftText)
    (whole : IsUtf8 (leftText ++ rightText)) :
    IsUtf8 rightText := by
  rw [← firstInvalid?_eq_none_iff, firstInvalid?] at left whole
  rw [firstInvalidFrom?_append rightText left] at whole
  exact isUtf8_of_firstInvalidFrom? whole

/-- Only the first byte of an encoded character is not a continuation byte. -/
theorem isContinuation_of_encoded
    {character : Char}
    (encoded : String.utf8EncodeChar character = first :: others)
    (member : byte ∈ others) :
    isContinuation byte = true := by
  unfold String.utf8EncodeChar at encoded
  generalize character.val.toNat = value at encoded
  simp only at encoded
  split at encoded
  next =>
      cases encoded
      cases member
  next =>
  split at encoded
  next =>
      cases encoded
      rw [List.mem_singleton.mp member]
      exact isContinuation_ofNat value
  next =>
  split at encoded
  next =>
      cases encoded
      simp only [List.mem_cons, List.not_mem_nil, or_false] at member
      rcases member with rfl | rfl <;> exact isContinuation_ofNat _
  next =>
      cases encoded
      simp only [List.mem_cons, List.not_mem_nil, or_false] at member
      rcases member with rfl | rfl | rfl <;> exact isContinuation_ofNat _

end Text
end LambdaCalculus
