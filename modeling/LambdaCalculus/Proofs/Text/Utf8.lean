import LambdaCalculus.Text.Utf8

/-!
# Valid texts

Validity is decided sequence by sequence, so a valid text followed by another
text is valid exactly as far as the other text is.
-/

namespace LambdaCalculus
namespace Text

theorem startsWithContinuations_append
    (more : Text)
    (starts : startsWithContinuations count text = true) :
    count ≤ text.length ∧
      startsWithContinuations count (text ++ more) = true := by
  induction count generalizing text with
  | zero => simp [startsWithContinuations]
  | succ count inductionHypothesis =>
      cases text with
      | nil => simp [startsWithContinuations] at starts
      | cons byte rest =>
          simp only [startsWithContinuations, Bool.and_eq_true] at starts
          obtain ⟨bound, continues⟩ := inductionHypothesis starts.2
          constructor
          · simp only [List.length_cons]
            omega
          · simp [startsWithContinuations, starts.1, continues]

theorem Lead.acceptedBy_append
    (lead : Lead)
    (more : Text)
    (accepted : lead.acceptedBy following = true) :
    lead.trailing ≤ following.length ∧
      lead.acceptedBy (following ++ more) = true := by
  unfold acceptedBy at accepted ⊢
  split at accepted
  next none => simp [none]
  next => simp at accepted
  next remaining second others some =>
      rw [some]
      simp only [Bool.and_eq_true] at accepted
      obtain ⟨bound, continues⟩ :=
        startsWithContinuations_append more accepted.2
      constructor
      · simp only [List.length_cons]
        omega
      · simp [accepted.1, continues]

/-- What follows a complete sequence does not matter to it. -/
theorem trailing?_append
    (first : UInt8)
    (more : Text)
    (complete : trailing? first following = some trailing) :
    trailing ≤ following.length ∧
      trailing? first (following ++ more) = some trailing := by
  unfold trailing? at complete ⊢
  split at complete
  next => simp at complete
  next lead starts =>
      split at complete
      next accepted =>
          obtain ⟨bound, stillAccepted⟩ := lead.acceptedBy_append more accepted
          cases complete
          exact ⟨bound, by simp [stillAccepted]⟩
      next => simp at complete

/-- The place of the first fault is counted from the offset. -/
theorem firstInvalidFrom?_eq_map
    (offset : Nat)
    (text : Text) :
    firstInvalidFrom? offset text =
      (firstInvalid? text).map (offset + ·) := by
  have shifted : ∀ start, firstInvalidFrom? (offset + start) text =
      (firstInvalidFrom? start text).map (offset + ·) := by
    intro start
    fun_induction firstInvalidFrom? start text with
    | case1 => simp [firstInvalidFrom?]
    | case2 start first following incomplete =>
        simp [firstInvalidFrom?, incomplete]
    | case3 start first following trailing complete inductionHypothesis =>
        rw [← inductionHypothesis]
        simp [firstInvalidFrom?, complete, Nat.add_assoc]
  exact shifted 0

theorem firstInvalidFrom?_append
    (more : Text)
    (valid : firstInvalidFrom? offset text = none) :
    firstInvalidFrom? offset (text ++ more) =
      firstInvalidFrom? (offset + text.length) more := by
  fun_induction firstInvalidFrom? offset text with
  | case1 => simp
  | case2 => simp at valid
  | case3 offset first following trailing complete inductionHypothesis =>
      obtain ⟨bound, stillComplete⟩ := trailing?_append first more complete
      rw [List.cons_append, firstInvalidFrom?, stillComplete]
      simp only
      rw [List.drop_append_of_le_length bound, inductionHypothesis valid]
      simp only [List.length_drop, List.length_cons]
      congr 1
      omega

/-- Valid texts one behind the other are a valid text. -/
theorem firstInvalid?_append
    (leftValid : firstInvalid? left = none)
    (rightValid : firstInvalid? right = none) :
    firstInvalid? (left ++ right) = none := by
  unfold firstInvalid? at leftValid ⊢
  rw [firstInvalidFrom?_append right leftValid, firstInvalidFrom?_eq_map,
    rightValid]
  rfl

/-- A text of bytes that are characters of their own is valid. -/
theorem firstInvalid?_of_ascii
    (ascii : ∀ byte ∈ text, byte < 0x80) :
    firstInvalid? text = none := by
  induction text with
  | nil => simp [firstInvalid?, firstInvalidFrom?]
  | cons byte rest inductionHypothesis =>
      have single : firstInvalid? [byte] = none := by
        have small : byte < 0x80 := ascii byte List.mem_cons_self
        simp [firstInvalid?, firstInvalidFrom?, trailing?, lead?, small,
          Lead.acceptedBy]
      have restValid := inductionHypothesis
        (fun other member => ascii other (List.mem_cons_of_mem byte member))
      exact firstInvalid?_append single restValid

end Text
end LambdaCalculus
