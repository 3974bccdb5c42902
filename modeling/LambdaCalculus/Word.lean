/-!
# 64-bit words

Indices and positions that are handed in from outside are 64-bit words, and
arithmetic on them wraps around.  A word is kept as the natural number that it
stands for.
-/

namespace LambdaCalculus
namespace Word

/-- The number of 64-bit words. -/
def modulus : Nat := 0x10000000000000000

/-- The least word that stands for a negative number. -/
def signBit : Nat := 0x8000000000000000

/-- The word that a natural number leaves after wrapping around. -/
def ofNat (value : Nat) : Nat :=
  value % modulus

/-- The word after a given one; the word after the last is zero. -/
def next (word : Nat) : Nat :=
  ofNat (word + 1)

/-- The word read as a two's complement number. -/
def signed (word : Nat) : Int :=
  if word < signBit then (word : Int) else (word : Int) - modulus

/-- The word with a given two's complement reading. -/
def ofSigned (value : Int) : Nat :=
  (value % modulus).toNat

theorem ofNat_of_lt
    (small : value < modulus) :
    ofNat value = value :=
  Nat.mod_eq_of_lt small

theorem next_of_lt
    (small : word + 1 < modulus) :
    next word = word + 1 :=
  ofNat_of_lt small

theorem signed_of_lt
    (small : word < signBit) :
    signed word = word := by
  rw [signed, if_pos small]

theorem ofSigned_of_nonneg
    {value : Int}
    (nonnegative : 0 ≤ value)
    (small : value < modulus) :
    ofSigned value = value.toNat := by
  rw [ofSigned, Int.emod_eq_of_lt nonnegative small]

end Word
end LambdaCalculus
