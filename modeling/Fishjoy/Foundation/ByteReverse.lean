import Mathlib.Data.UInt

-- The bytes of a 32-bit word in the reverse order, as a map that respects the
-- bitwise operations.
namespace ByteReverse

def reverse (x : BitVec 32) : BitVec 32 :=
  x.extractLsb' 0 8 ++ x.extractLsb' 8 8 ++ x.extractLsb' 16 8 ++ x.extractLsb' 24 8

variable {x y : BitVec 32}

-- The bit keeps its place within its byte.
theorem reverse_bit (i : Nat) (bound : i < 32) : (reverse x).getLsbD i = x.getLsbD (24+i % 8-8*(i/8)) := by
  have byte : i/8 = 0 ∨ i/8 = 1 ∨ i/8 = 2 ∨ i/8 = 3 := by omega
  simp only [reverse,BitVec.getLsbD_append,BitVec.getLsbD_extractLsb']
  rcases byte with at0 | at1 | at2 | at3
  · simp (disch := omega) only [if_pos,decide_eq_true,Bool.true_and]
    congr 1
    omega
  · simp (disch := omega) only [if_pos,if_neg,decide_eq_true,Bool.true_and]
    congr 1
    omega
  · simp (disch := omega) only [if_pos,if_neg,decide_eq_true,Bool.true_and]
    congr 1
    omega
  · simp (disch := omega) only [if_neg,decide_eq_true,Bool.true_and]
    congr 1
    omega

theorem reverse_and : reverse (x &&& y) = reverse x &&& reverse y := by
  apply BitVec.eq_of_getLsbD_eq
  intro i bound
  simp only [BitVec.getLsbD_and,reverse_bit i bound]

theorem reverse_or : reverse (x ||| y) = reverse x ||| reverse y := by
  apply BitVec.eq_of_getLsbD_eq
  intro i bound
  simp only [BitVec.getLsbD_or,reverse_bit i bound]

theorem reverse_not : reverse (~~~x) = ~~~reverse x := by
  apply BitVec.eq_of_getLsbD_eq
  intro i bound
  have inside : 24+i % 8-8*(i/8) < 32 := by omega
  simp only [BitVec.getLsbD_not,reverse_bit i bound,decide_eq_true bound,decide_eq_true inside]

theorem reverse_reverse : reverse (reverse x) = x := by
  apply BitVec.eq_of_getLsbD_eq
  intro i bound
  rw [reverse_bit i bound,reverse_bit _ (by omega)]
  congr 1
  omega

end ByteReverse
