import MCRedis.Client.Basic
import MCRedis.Text.Decimal

/-!
# Numbers in the protocol

The conversions between integers and their decimal texts that hiredis makes:
`sdsull2str` and `sdsll2str` write them, `countDigits` predicts how long they
get, and `string2ll` reads them.  The writers give the decimal text, and the
reader accepts exactly the decimal texts of the values of a `long long`: no
leading zero, no plus sign, nothing before or after the digits.
-/

namespace MCRedis.Hiredis

open MCRedis.Client
open MCRedis.Text

/-- `LLONG_MAX`. -/
def llongMax : Nat := 9223372036854775807

/-- `ULLONG_MAX`. -/
def ullongMax : Nat := 18446744073709551615

/-- The conversion of a wider integer to `int`. -/
def toInt (value : Int) : Int :=
  value.bmod 4294967296

/-- A difference of two values of `size_t`. -/
def sizeSub (left right : Nat) : Nat :=
  (left + uint64Size - right) % uint64Size

theorem toInt_eq {size : Nat} (small : size ≤ intMax) : toInt size = size := by
  have half : (size : Int) < 2147483648 := by
    rw [intMax] at small
    omega
  exact Int.bmod_eq_of_le (by omega) half

theorem sizeSub_eq {left right : Nat} (ordered : right ≤ left) (small : left < uint64Size) :
    sizeSub left right = left - right := by
  rw [uint64Size] at small
  rw [sizeSub, uint64Size]
  omega

/-! ## Writing -/

/-- The loop of `sdsull2str`: the digits of `v`, the last one first. -/
def sdsull2strLoop (v : Nat) : Bytes :=
  if v / 10 = 0 then [digitChar (v % 10)] else digitChar (v % 10) :: sdsull2strLoop (v / 10)
termination_by v
decreasing_by omega

/-- `sdsull2str`. -/
def sdsull2str (v : Nat) : Bytes :=
  (sdsull2strLoop v).reverse

/-- `sdsll2str`; the sign is appended before the text is reversed.  The negation of
the least `long long` overflows; it is taken to wrap, which gives the magnitude. -/
def sdsll2str (value : Int) : Bytes :=
  let v := if value < 0 then (-value).toNat else value.toNat
  (sdsull2strLoop v ++ if value < 0 then [0x2d] else []).reverse

/-- `countDigits`, with the `result` so far. -/
def countDigitsFrom (v result : Nat) : Nat :=
  if v < 10 then result
  else if v < 100 then result + 1
  else if v < 1000 then result + 2
  else if v < 10000 then result + 3
  else countDigitsFrom (v / 10000) (result + 4)
termination_by v
decreasing_by omega

def countDigits (v : Nat) : Nat :=
  countDigitsFrom v 1

/-- A further digit. -/
theorem decimalNat_mul_add {v digit : Nat} (positive : 0 < v) (small : digit < 10) :
    decimalNat (v * 10 + digit) = decimalNat v ++ [digitChar digit] := by
  rw [decimalNat, decimalNat, if_neg (by omega), if_neg (by omega), Nat.mul_comm, Nat.add_comm,
    Nat.digits_add 10 (by decide) digit v small (.inr (by omega)), List.reverse_cons,
    List.map_append]
  rfl

theorem decimalNat_of_lt {digit : Nat} (small : digit < 10) :
    decimalNat digit = [digitChar digit] := by
  rw [decimalNat]
  by_cases zero : digit = 0
  · rw [if_pos zero, zero]
    rfl
  · rw [if_neg zero, Nat.digits_of_lt 10 digit zero small]
    rfl

/-- The text of a number of two or more digits. -/
theorem decimalNat_of_le {v : Nat} (large : 10 ≤ v) :
    decimalNat v = decimalNat (v / 10) ++ [digitChar (v % 10)] := by
  rw [← decimalNat_mul_add (by omega) (by omega), Nat.div_add_mod']

theorem sdsull2str_eq (v : Nat) : sdsull2str v = decimalNat v := by
  induction v using Nat.strongRecOn with
  | ind v ih =>
      rw [sdsull2str, sdsull2strLoop]
      by_cases small : v / 10 = 0
      · have below : v < 10 := by omega
        rw [if_pos small, decimalNat_of_lt below, Nat.mod_eq_of_lt below]
        rfl
      · have := ih (v / 10) (by omega)
        rw [sdsull2str] at this
        rw [if_neg small, List.reverse_cons, this, ← decimalNat_of_le (by omega)]

theorem sdsll2str_eq (value : Int) : sdsll2str value = decimal value := by
  cases value with
  | ofNat n =>
      have notNegative : ¬ Int.ofNat n < 0 := Int.not_lt.mpr (Int.natCast_nonneg n)
      rw [sdsll2str]
      simp only [notNegative, if_false, List.append_nil]
      exact sdsull2str_eq n
  | negSucc n =>
      have negative : Int.negSucc n < 0 := Int.negSucc_lt_zero n
      have magnitude : (-Int.negSucc n).toNat = n + 1 := rfl
      rw [sdsll2str]
      simp only [negative, if_true, magnitude, List.reverse_append]
      rw [decimal, ← sdsull2str_eq]
      rfl

/-- Four digits are dropped by a division by ten thousand. -/
theorem length_decimalNat_div {v : Nat} (large : 10000 ≤ v) :
    (decimalNat v).length = (decimalNat (v / 10000)).length + 4 := by
  have dropOne : ∀ w, 10 ≤ w → (decimalNat w).length = (decimalNat (w / 10)).length + 1 := by
    intro w two
    rw [decimalNat_of_le two, List.length_append]
    rfl
  rw [dropOne v (by omega), dropOne (v / 10) (by omega), dropOne (v / 10 / 10) (by omega),
    dropOne (v / 10 / 10 / 10) (by omega)]
  simp only [Nat.div_div_eq_div_mul, Nat.reduceMul]

theorem countDigitsFrom_eq (v result : Nat) :
    countDigitsFrom v result + 1 = result + (decimalNat v).length := by
  have oneDigit : ∀ w, w < 10 → (decimalNat w).length = 1 := by
    intro w below
    rw [decimalNat_of_lt below]
    rfl
  have further : ∀ w, 10 ≤ w → (decimalNat w).length = (decimalNat (w / 10)).length + 1 := by
    intro w two
    rw [decimalNat_of_le two, List.length_append]
    rfl
  induction v using Nat.strongRecOn generalizing result with
  | ind v ih =>
      rw [countDigitsFrom]
      split
      · rw [oneDigit v (by omega)]
      split
      · rw [further v (by omega), oneDigit (v / 10) (by omega)]
      split
      · rw [further v (by omega), further (v / 10) (by omega), oneDigit (v / 10 / 10) (by omega)]
      split
      · rw [further v (by omega), further (v / 10) (by omega), further (v / 10 / 10) (by omega),
          oneDigit (v / 10 / 10 / 10) (by omega)]
      next large =>
        have smaller : v / 10000 < v := Nat.div_lt_self (by omega) (by decide)
        have rest := ih (v / 10000) smaller (result + 4)
        have dropped := length_decimalNat_div (v := v) (by omega)
        omega

/-- `countDigits` counts the characters of the decimal text. -/
theorem countDigits_eq (v : Nat) : countDigits v = (decimalNat v).length := by
  have := countDigitsFrom_eq v 1
  rw [countDigits]
  omega

/-! ## Reading -/

/-- The loop of `string2ll`: the digits at the front are added to `v`, with the
text that is left. -/
def string2llLoop (v : Nat) : Bytes → Option (Nat × Bytes)
  | [] => some (v, [])
  | c :: p =>
      if 0x30 ≤ c ∧ c ≤ 0x39 then
        if v > ullongMax / 10 then none
        else if v * 10 > ullongMax - (c.toNat - 0x30) then none
        else string2llLoop (v * 10 + (c.toNat - 0x30)) p
      else some (v, c :: p)

/-- `string2ll`. -/
def string2ll (s : Bytes) : Option Int :=
  match s with
  | [] => none
  | c :: rest =>
      if s.length = 1 ∧ c = 0x30 then some 0
      else
        let negative := decide (c = 0x2d)
        match if negative then rest else s with
        | [] => none
        | first :: p =>
            if 0x31 ≤ first ∧ first ≤ 0x39 then
              match string2llLoop (first.toNat - 0x30) p with
              | none => none
              | some (v, left) =>
                  if left ≠ [] then none
                  else if negative then
                    if v > llongMax + 1 then none else some (-v)
                  else if v > llongMax then none else some v
            else if first = 0x30 ∧ s.length = 1 then some 0
            else none

/-- The values of a `long long`. -/
def IsLongLong (value : Int) : Prop :=
  -(llongMax : Int) - 1 ≤ value ∧ value ≤ llongMax

instance (value : Int) : Decidable (IsLongLong value) :=
  inferInstanceAs (Decidable (_ ∧ _))

theorem digitChar_of_digit {c : UInt8} (digit : 0x30 ≤ c ∧ c ≤ 0x39) :
    c.toNat - 0x30 < 10 ∧ digitChar (c.toNat - 0x30) = c := by
  obtain ⟨low, high⟩ := digit
  rw [UInt8.le_iff_toNat_le] at low high
  have lowNat : 48 ≤ c.toNat := low
  have highNat : c.toNat ≤ 57 := high
  refine ⟨by omega, ?_⟩
  rw [digitChar, Nat.add_sub_cancel' lowNat, UInt8.ofNat_toNat]

theorem digit_of_digitChar {digit : Nat} (small : digit < 10) :
    (0x30 ≤ digitChar digit ∧ digitChar digit ≤ 0x39) ∧ (digitChar digit).toNat - 0x30 = digit := by
  have all : ∀ d : Fin 10, (0x30 ≤ digitChar d ∧ digitChar d ≤ 0x39) ∧
      (digitChar d).toNat - 0x30 = d.val := by decide
  exact all ⟨digit, small⟩

theorem firstDigit_of_digitChar {digit : Nat} (small : digit < 10) (positive : 0 < digit) :
    0x31 ≤ digitChar digit ∧ digitChar digit ≤ 0x39 := by
  have all : ∀ d : Fin 10, 0 < d.val → 0x31 ≤ digitChar d ∧ digitChar d ≤ 0x39 := by decide
  exact all ⟨digit, small⟩ positive

/-- A text that the loop reads to its end consists of further digits. -/
theorem decimalNat_of_string2llLoop {v w : Nat} {p : Bytes} (positive : 0 < v)
    (read : string2llLoop v p = some (w, [])) : 0 < w ∧ decimalNat w = decimalNat v ++ p := by
  induction p generalizing v with
  | nil =>
      cases read
      exact ⟨positive, (List.append_nil _).symm⟩
  | cons c p ih =>
      rw [string2llLoop] at read
      split at read
      case isTrue digit =>
        obtain ⟨small, same⟩ := digitChar_of_digit digit
        split at read
        · contradiction
        split at read
        · contradiction
        obtain ⟨after, text⟩ := ih (by omega) read
        refine ⟨after, ?_⟩
        rw [text, decimalNat_mul_add positive small, same, List.append_assoc]
        rfl
      case isFalse => cases read

theorem string2llLoop_append {v w : Nat} {p q : Bytes} (read : string2llLoop v p = some (w, [])) :
    string2llLoop v (p ++ q) = string2llLoop w q := by
  induction p generalizing v with
  | nil =>
      cases read
      rfl
  | cons c p ih =>
      rw [string2llLoop] at read
      rw [List.cons_append, string2llLoop]
      split at read
      case isTrue digit =>
        rw [if_pos digit]
        split at read
        · contradiction
        next first =>
          rw [if_neg first]
          split at read
          · contradiction
          next second =>
            rw [if_neg second]
            exact ih read
      case isFalse => cases read

/-- The loop reads the decimal text of a positive number. -/
theorem string2llLoop_decimalNat {n : Nat} (positive : 0 < n) (small : n ≤ ullongMax) :
    ∃ first p, decimalNat n = first :: p ∧ (0x31 ≤ first ∧ first ≤ 0x39) ∧
      string2llLoop (first.toNat - 0x30) p = some (n, []) := by
  induction n using Nat.strongRecOn with
  | ind n ih =>
      by_cases below : n < 10
      · refine ⟨digitChar n, [], decimalNat_of_lt below, firstDigit_of_digitChar below positive, ?_⟩
        rw [(digit_of_digitChar below).2]
        rfl
      · obtain ⟨first, p, text, leading, read⟩ := ih (n / 10) (by omega) (by omega) (by omega)
        have last : n % 10 < 10 := Nat.mod_lt n (by decide)
        obtain ⟨digit, value⟩ := digit_of_digitChar last
        refine ⟨first, p ++ [digitChar (n % 10)], ?_, leading, ?_⟩
        · rw [decimalNat_of_le (by omega), text, List.cons_append]
        · rw [string2llLoop_append read, string2llLoop, if_pos digit, value, if_neg, if_neg,
            Nat.div_add_mod']
          · rfl
          · rw [ullongMax] at small ⊢
            omega
          · rw [ullongMax] at small ⊢
            omega

/-- What `string2ll` accepts is the decimal text of the value it gives. -/
theorem eq_decimal_of_string2ll {s : Bytes} {value : Int} (read : string2ll s = some value) :
    s = decimal value ∧ IsLongLong value := by
  cases s with
  | nil => contradiction
  | cons c rest =>
      rw [string2ll] at read
      split at read
      case isTrue zero =>
        cases read
        have rest : rest = [] := List.length_eq_zero_iff.mp (Nat.succ.inj zero.1)
        rw [zero.2, rest]
        exact ⟨rfl, by decide⟩
      case isFalse =>
        by_cases negative : c = 0x2d
        · simp only [negative, decide_true, if_true] at read
          cases rest with
          | nil => contradiction
          | cons first p =>
              simp only at read
              split at read
              case isTrue leading =>
                obtain ⟨small, same⟩ := digitChar_of_digit
                  ⟨Nat.le_trans (by decide) leading.1, leading.2⟩
                have positive : 0 < first.toNat - 0x30 := by
                  have : 49 ≤ first.toNat := UInt8.le_iff_toNat_le.mp leading.1
                  omega
                split at read
                · contradiction
                next v left loop =>
                  split at read
                  · contradiction
                  next complete =>
                    obtain rfl := not_not.mp complete
                    split at read
                    · contradiction
                    next fits =>
                      cases read
                      obtain ⟨after, text⟩ := decimalNat_of_string2llLoop positive loop
                      rw [decimalNat_of_lt small, same] at text
                      obtain ⟨m, rfl⟩ := Nat.exists_eq_succ_of_ne_zero (by omega : v ≠ 0)
                      refine ⟨?_, ?_⟩
                      · rw [negative]
                        exact congrArg (0x2d :: ·) text.symm
                      · rw [IsLongLong]
                        omega
              case isFalse =>
                split at read
                case isTrue zero =>
                  have := zero.2
                  simp at this
                case isFalse => contradiction
        · simp only [negative, decide_false, Bool.false_eq_true, if_false] at read
          split at read
          case isTrue leading =>
            obtain ⟨small, same⟩ := digitChar_of_digit
              ⟨Nat.le_trans (by decide) leading.1, leading.2⟩
            have positive : 0 < c.toNat - 0x30 := by
              have : 49 ≤ c.toNat := UInt8.le_iff_toNat_le.mp leading.1
              omega
            split at read
            · contradiction
            next v left loop =>
              split at read
              · contradiction
              next complete =>
                obtain rfl := not_not.mp complete
                split at read
                · contradiction
                next fits =>
                  cases read
                  obtain ⟨after, text⟩ := decimalNat_of_string2llLoop positive loop
                  rw [decimalNat_of_lt small, same] at text
                  exact ⟨text.symm, by rw [IsLongLong]; omega⟩
          case isFalse =>
            split at read
            case isTrue zero =>
              rename_i notZero _
              exact absurd ⟨zero.2, zero.1⟩ notZero
            case isFalse => contradiction

/-- `string2ll` reads the decimal text of every `long long`. -/
theorem string2ll_decimal {value : Int} (fits : IsLongLong value) :
    string2ll (decimal value) = some value := by
  rw [IsLongLong, llongMax] at fits
  cases value with
  | ofNat n =>
      rw [Int.ofNat_eq_natCast] at fits
      by_cases zero : n = 0
      · subst zero
        rfl
      · obtain ⟨first, p, text, leading, read⟩ :=
          string2llLoop_decimalNat (n := n) (by omega) (by
            rw [ullongMax]
            omega)
        have notZero : first ≠ 0x30 := by
          rintro rfl
          exact absurd leading.1 (by decide)
        have notMinus : first ≠ 0x2d := by
          rintro rfl
          exact absurd leading.1 (by decide)
        rw [decimal, text, string2ll, if_neg fun holds => notZero holds.2]
        simp only [notMinus, decide_false, Bool.false_eq_true, if_false]
        rw [if_pos leading, read]
        simp only [ne_eq, not_true_eq_false, if_false]
        rw [if_neg]
        · rfl
        · rw [llongMax]
          omega
  | negSucc n =>
      obtain ⟨first, p, text, leading, read⟩ :=
        string2llLoop_decimalNat (n := n + 1) (by omega) (by
          rw [ullongMax]
          omega)
      have notZero : (0x2d : UInt8) ≠ 0x30 := by decide
      rw [decimal, text, string2ll, if_neg fun holds => notZero holds.2]
      simp only [decide_true, if_true]
      rw [if_pos leading, read]
      simp only [ne_eq, not_true_eq_false, if_false]
      rw [if_neg]
      · rfl
      · rw [llongMax]
        omega

/-- `string2ll` accepts exactly what `sdsll2str` writes of the values of a
`long long`, and reads back the value. -/
theorem string2ll_eq_some_iff {s : Bytes} {value : Int} :
    string2ll s = some value ↔ s = sdsll2str value ∧ IsLongLong value := by
  rw [sdsll2str_eq]
  constructor
  · exact eq_decimal_of_string2ll
  · rintro ⟨rfl, fits⟩
    exact string2ll_decimal fits

end MCRedis.Hiredis
