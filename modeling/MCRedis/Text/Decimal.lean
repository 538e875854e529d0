import Mathlib.Data.Nat.Digits.Lemmas

/-!
# Decimal text

The decimal text of an integer, most significant digit first, and the value that
such a text denotes.  Reading the text of an integer gives the integer back.
-/

namespace MCRedis.Text

/-- The character of a digit. -/
def digitChar (digit : Nat) : UInt8 :=
  UInt8.ofNat (0x30 + digit)

/-- The digit of a character. -/
def charDigit (c : UInt8) : Option Nat :=
  if 0x30 ≤ c ∧ c ≤ 0x39 then some (c.toNat - 0x30) else none

theorem charDigit_digitChar {digit : Nat} (small : digit < 10) :
    charDigit (digitChar digit) = some digit := by
  have all : ∀ d : Fin 10, charDigit (digitChar d) = some d.val := by decide
  exact all ⟨digit, small⟩

/-- The decimal text of a natural number; zero has one digit. -/
def decimalNat (n : Nat) : List UInt8 :=
  if n = 0 then [0x30] else ((Nat.digits 10 n).reverse).map digitChar

/-- The decimal text of an integer. -/
def decimal : Int → List UInt8
  | .ofNat n => decimalNat n
  | .negSucc n => 0x2d :: decimalNat (n + 1)

/-- The number that `value`, followed by the digits of the text, denotes. -/
def readDigits (value : Nat) : List UInt8 → Option Nat
  | [] => some value
  | c :: text => do
      let digit ← charDigit c
      readDigits (value * 10 + digit) text

/-- The number that a text of one or more digits denotes. -/
def natValue (text : List UInt8) : Option Nat :=
  if text = [] then none else readDigits 0 text

/-- The integer that a decimal text denotes. -/
def intValue : List UInt8 → Option Int
  | [] => none
  | c :: text =>
      if c = 0x2d then (natValue text).map fun value => -(value : Int)
      else (natValue (c :: text)).map Int.ofNat

theorem readDigits_map_digitChar {digits : List Nat} (small : ∀ digit ∈ digits, digit < 10)
    (value : Nat) :
    readDigits value (digits.map digitChar) =
      some (digits.foldl (fun value digit => value * 10 + digit) value) := by
  induction digits generalizing value with
  | nil => rfl
  | cons digit digits ih =>
      obtain ⟨first, others⟩ := List.forall_mem_cons.mp small
      rw [List.map_cons, readDigits, charDigit_digitChar first]
      exact ih others _

theorem foldl_reverse_eq_ofDigits (digits : List Nat) :
    digits.reverse.foldl (fun value digit => value * 10 + digit) 0 = Nat.ofDigits 10 digits := by
  rw [List.foldl_reverse, Nat.ofDigits_eq_foldr]
  congr 1
  funext digit value
  rw [Nat.mul_comm, Nat.add_comm]
  rfl

theorem natValue_decimalNat (n : Nat) : natValue (decimalNat n) = some n := by
  by_cases zero : n = 0
  · subst zero
    rfl
  · have nonempty : ((Nat.digits 10 n).reverse).map digitChar ≠ [] := by
      simpa using Nat.digits_ne_nil_iff_ne_zero.mpr zero
    have small : ∀ digit ∈ (Nat.digits 10 n).reverse, digit < 10 := fun digit mem =>
      Nat.digits_lt_base (by decide) (List.mem_reverse.mp mem)
    rw [decimalNat, if_neg zero, natValue, if_neg nonempty, readDigits_map_digitChar small,
      foldl_reverse_eq_ofDigits, Nat.ofDigits_digits]

/-- The text of a natural number has no sign. -/
theorem decimalNat_ne_minus (n : Nat) (text : List UInt8) : decimalNat n ≠ 0x2d :: text := by
  intro equal
  have value := natValue_decimalNat n
  have minus : charDigit 0x2d = none := by decide
  rw [equal, natValue, if_neg (List.cons_ne_nil _ _), readDigits, minus] at value
  contradiction

/-- The text of an integer denotes it. -/
theorem intValue_decimal (value : Int) : intValue (decimal value) = some value := by
  cases value with
  | ofNat n =>
      cases textEq : decimalNat n with
      | nil =>
          have value := natValue_decimalNat n
          rw [textEq] at value
          contradiction
      | cons c text =>
          have notMinus : c ≠ 0x2d := by
            rintro rfl
            exact decimalNat_ne_minus n text textEq
          rw [decimal, textEq, intValue, if_neg notMinus, ← textEq, natValue_decimalNat]
          rfl
  | negSucc n =>
      rw [decimal, intValue, if_pos rfl, natValue_decimalNat]
      rfl

end MCRedis.Text
