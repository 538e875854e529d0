import Mathlib.Data.List.Basic

/-!
# Cyclic redundancy checks, bit by bit and by table

The reference form of a most-significant-bit-first CRC moves the remainder one
bit at a time.  The usual implementation moves it a whole octet at a time with
a table of 256 remainders.  Both are defined here for every width of at least
eight bits and every polynomial, and shown equal: one bit step is linear in
exclusive or, and eight of them only shift a remainder whose top octet is
clear.
-/

namespace MCRedis.Checksum.Crc

variable {w : Nat} {poly : BitVec w}

/-- Move the remainder by one bit. -/
def bitStep (poly remainder : BitVec w) : BitVec w :=
  if remainder.msb then remainder <<< 1 ^^^ poly else remainder <<< 1

/-- Move the remainder by `n` bits. -/
def bitSteps (poly : BitVec w) : Nat → BitVec w → BitVec w
  | 0, remainder => remainder
  | n + 1, remainder => bitSteps poly n (bitStep poly remainder)

/-- An octet at the top of a remainder. -/
def atTop (w : Nat) (octet : BitVec 8) : BitVec w :=
  octet.setWidth w <<< (w - 8)

/-- Feed one octet: it is added at the top and moved through bit by bit. -/
def octetStep (poly remainder : BitVec w) (octet : BitVec 8) : BitVec w :=
  bitSteps poly 8 (remainder ^^^ atTop w octet)

/-- The bitwise CRC of a message, without reflection or final exclusive or. -/
def bitwise (poly start : BitVec w) (message : List (BitVec 8)) : BitVec w :=
  message.foldl (octetStep poly) start

/-- The table word of an octet. -/
def tableWord (poly : BitVec w) (octet : BitVec 8) : BitVec w :=
  bitSteps poly 8 (atTop w octet)

/-- The top octet of a remainder. -/
def topOctet (remainder : BitVec w) : BitVec 8 :=
  (remainder >>> (w - 8)).setWidth 8

/-! ## Linearity -/

theorem bitStep_xor (first second : BitVec w) :
    bitStep poly (first ^^^ second) = bitStep poly first ^^^ bitStep poly second := by
  simp only [bitStep, BitVec.msb_xor, BitVec.shiftLeft_xor_distrib]
  cases first.msb <;> cases second.msb
  · simp
  · simp [BitVec.xor_assoc]
  · simp only [Bool.xor_false, if_true, Bool.false_eq_true, if_false]
    rw [BitVec.xor_assoc, BitVec.xor_comm (second <<< 1), ← BitVec.xor_assoc]
  · simp only [Bool.xor_true, Bool.not_true, Bool.false_eq_true, if_false, if_true]
    rw [BitVec.xor_assoc (first <<< 1), ← BitVec.xor_assoc poly, BitVec.xor_comm poly,
      BitVec.xor_assoc (second <<< 1), BitVec.xor_self, BitVec.xor_zero]

theorem bitSteps_xor (n : Nat) (first second : BitVec w) :
    bitSteps poly n (first ^^^ second) = bitSteps poly n first ^^^ bitSteps poly n second := by
  induction n generalizing first second with
  | zero => rfl
  | succ n ih => rw [bitSteps, bitStep_xor, ih]; rfl

/-- While the bits that leave at the top are clear, bit steps are shifts. -/
theorem bitSteps_of_clear (n : Nat) (remainder : BitVec w)
    (clear : ∀ i, w - n ≤ i → remainder.getLsbD i = false) :
    bitSteps poly n remainder = remainder <<< n := by
  induction n generalizing remainder with
  | zero => simp [bitSteps]
  | succ n ih =>
      have msbClear : remainder.msb = false := by
        rw [BitVec.msb_eq_getLsbD_last]
        exact clear (w - 1) (by omega)
      have shifted : ∀ i, w - n ≤ i → (remainder <<< 1).getLsbD i = false := by
        intro i bound
        rw [BitVec.getLsbD_shiftLeft]
        by_cases inside : i < w
        · rw [clear (i - 1) (by omega), Bool.and_false]
        · simp [inside]
      have stepEq : bitStep poly remainder = remainder <<< 1 := by
        simp [bitStep, msbClear]
      rw [bitSteps, stepEq, ih _ shifted, ← BitVec.shiftLeft_add, Nat.add_comm 1 n]

/-! ## The table form -/

theorem getLsbD_atTop (octet : BitVec 8) (i : Nat) :
    (atTop w octet).getLsbD i =
      (decide (i < w) && (decide (w - 8 ≤ i) && octet.getLsbD (i - (w - 8)))) := by
  simp only [atTop, BitVec.getLsbD_shiftLeft, BitVec.getLsbD_setWidth]
  by_cases inside : i < w
  · by_cases low : i < w - 8
    · simp [inside, low, show ¬ w - 8 ≤ i by omega]
    · simp [inside, low, show w - 8 ≤ i by omega, show i - (w - 8) < w by omega]
  · simp [inside]

/-- Without its top octet a remainder is only shifted by eight bit steps. -/
theorem bitSteps_low (remainder : BitVec w) (wide : 8 ≤ w) :
    bitSteps poly 8 (remainder ^^^ atTop w (topOctet remainder)) = remainder <<< 8 := by
  have low : ∀ i, w - 8 ≤ i →
      (remainder ^^^ atTop w (topOctet remainder)).getLsbD i = false := by
    intro i bound
    rw [BitVec.getLsbD_xor, getLsbD_atTop]
    by_cases inside : i < w
    · have inOctet : i - (w - 8) < 8 := by omega
      have back : w - 8 + (i - (w - 8)) = i := by omega
      simp [topOctet, inside, bound, inOctet, back]
    · simp [inside, BitVec.getLsbD_of_ge remainder i (by omega)]
  rw [bitSteps_of_clear 8 _ low]
  apply BitVec.eq_of_getLsbD_eq
  intro i inside
  rw [BitVec.getLsbD_shiftLeft, BitVec.getLsbD_shiftLeft, BitVec.getLsbD_xor, getLsbD_atTop]
  by_cases shifted : i < 8
  · simp [shifted]
  · simp [shifted, inside, show ¬ w - 8 ≤ i - 8 by omega]

/-- An octet at a time: the table word of the top octet added to the incoming
one, and the rest of the remainder shifted by eight. -/
theorem octetStep_eq_tableWord (remainder : BitVec w) (octet : BitVec 8) (wide : 8 ≤ w) :
    octetStep poly remainder octet =
      remainder <<< 8 ^^^ tableWord poly (topOctet remainder ^^^ octet) := by
  have split : remainder ^^^ atTop w octet =
      (remainder ^^^ atTop w (topOctet remainder)) ^^^
        atTop w (topOctet remainder ^^^ octet) := by
    have additive : atTop w (topOctet remainder ^^^ octet) =
        atTop w (topOctet remainder) ^^^ atTop w octet := by
      simp only [atTop, BitVec.setWidth_xor, BitVec.shiftLeft_xor_distrib]
    rw [additive, BitVec.xor_assoc, ← BitVec.xor_assoc (atTop w (topOctet remainder)),
      BitVec.xor_self, BitVec.zero_xor]
  rw [octetStep, split, bitSteps_xor, bitSteps_low remainder wide, tableWord]

end MCRedis.Checksum.Crc
