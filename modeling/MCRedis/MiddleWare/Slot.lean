import MCRedis.Checksum.Crc
import MCRedis.Client.Basic
import Mathlib.Algebra.Group.Nat.Defs
import Mathlib.Data.List.TakeWhile

/-!
# The key slot of a cluster

`CClusterSupport::getSlot` hashes a key, or the hash tag inside it, with a
table-driven CRC16 and keeps the low fourteen bits.  `keySlot` is the slot the
cluster itself assigns to the key: the bitwise CRC16 of the hashed part, modulo
the number of slots.
-/

namespace MCRedis.MiddleWare

open MCRedis.Checksum
open MCRedis.Client

/-! ## The source -/

namespace CClusterSupport

/-- The table of `fnCRC16`. -/
def crctable : List (BitVec 16) :=
  [ 0x0000,0x1021,0x2042,0x3063,0x4084,0x50a5,0x60c6,0x70e7,
    0x8108,0x9129,0xa14a,0xb16b,0xc18c,0xd1ad,0xe1ce,0xf1ef,
    0x1231,0x0210,0x3273,0x2252,0x52b5,0x4294,0x72f7,0x62d6,
    0x9339,0x8318,0xb37b,0xa35a,0xd3bd,0xc39c,0xf3ff,0xe3de,
    0x2462,0x3443,0x0420,0x1401,0x64e6,0x74c7,0x44a4,0x5485,
    0xa56a,0xb54b,0x8528,0x9509,0xe5ee,0xf5cf,0xc5ac,0xd58d,
    0x3653,0x2672,0x1611,0x0630,0x76d7,0x66f6,0x5695,0x46b4,
    0xb75b,0xa77a,0x9719,0x8738,0xf7df,0xe7fe,0xd79d,0xc7bc,
    0x48c4,0x58e5,0x6886,0x78a7,0x0840,0x1861,0x2802,0x3823,
    0xc9cc,0xd9ed,0xe98e,0xf9af,0x8948,0x9969,0xa90a,0xb92b,
    0x5af5,0x4ad4,0x7ab7,0x6a96,0x1a71,0x0a50,0x3a33,0x2a12,
    0xdbfd,0xcbdc,0xfbbf,0xeb9e,0x9b79,0x8b58,0xbb3b,0xab1a,
    0x6ca6,0x7c87,0x4ce4,0x5cc5,0x2c22,0x3c03,0x0c60,0x1c41,
    0xedae,0xfd8f,0xcdec,0xddcd,0xad2a,0xbd0b,0x8d68,0x9d49,
    0x7e97,0x6eb6,0x5ed5,0x4ef4,0x3e13,0x2e32,0x1e51,0x0e70,
    0xff9f,0xefbe,0xdfdd,0xcffc,0xbf1b,0xaf3a,0x9f59,0x8f78,
    0x9188,0x81a9,0xb1ca,0xa1eb,0xd10c,0xc12d,0xf14e,0xe16f,
    0x1080,0x00a1,0x30c2,0x20e3,0x5004,0x4025,0x7046,0x6067,
    0x83b9,0x9398,0xa3fb,0xb3da,0xc33d,0xd31c,0xe37f,0xf35e,
    0x02b1,0x1290,0x22f3,0x32d2,0x4235,0x5214,0x6277,0x7256,
    0xb5ea,0xa5cb,0x95a8,0x8589,0xf56e,0xe54f,0xd52c,0xc50d,
    0x34e2,0x24c3,0x14a0,0x0481,0x7466,0x6447,0x5424,0x4405,
    0xa7db,0xb7fa,0x8799,0x97b8,0xe75f,0xf77e,0xc71d,0xd73c,
    0x26d3,0x36f2,0x0691,0x16b0,0x6657,0x7676,0x4615,0x5634,
    0xd94c,0xc96d,0xf90e,0xe92f,0x99c8,0x89e9,0xb98a,0xa9ab,
    0x5844,0x4865,0x7806,0x6827,0x18c0,0x08e1,0x3882,0x28a3,
    0xcb7d,0xdb5c,0xeb3f,0xfb1e,0x8bf9,0x9bd8,0xabbb,0xbb9a,
    0x4a75,0x5a54,0x6a37,0x7a16,0x0af1,0x1ad0,0x2ab3,0x3a92,
    0xfd2e,0xed0f,0xdd6c,0xcd4d,0xbdaa,0xad8b,0x9de8,0x8dc9,
    0x7c26,0x6c07,0x5c64,0x4c45,0x3ca2,0x2c83,0x1ce0,0x0cc1,
    0xef1f,0xff3e,0xcf5d,0xdf7c,0xaf9b,0xbfba,0x8fd9,0x9ff8,
    0x6e17,0x7e36,0x4e55,0x5e74,0x2e93,0x3eb2,0x0ed1,0x1ef0 ]

/-- A `char` promoted to `int`: plain `char` may be signed or unsigned. -/
def charToInt (charSigned : Bool) (c : UInt8) : BitVec 32 :=
  if charSigned then c.toBitVec.signExtend 32 else c.toBitVec.setWidth 32

/-- The index expression of the loop of `fnCRC16`, in `int` arithmetic. -/
def crcIndex (charSigned : Bool) (crc : BitVec 16) (c : UInt8) : BitVec 32 :=
  ((crc.setWidth 32 >>> 8) ^^^ charToInt charSigned c) &&& 0x00FF

/-- One iteration of `fnCRC16`: the assignment truncates the `int` to sixteen
bits. -/
def crcStep (charSigned : Bool) (crc : BitVec 16) (c : UInt8) : BitVec 16 :=
  ((crc.setWidth 32 <<< 8) ^^^
    (crctable.getD (crcIndex charSigned crc c).toNat 0).setWidth 32).setWidth 16

def fnCRC16 (charSigned : Bool) (str : Bytes) : BitVec 16 :=
  str.foldl (crcStep charSigned) 0

/-- The loop that searches `mark` from index `s` on, with `remaining`
iterations until the counter reaches the length. -/
def scan (key : Bytes) (mark : UInt8) : Nat → Nat → Except Fault Nat
  | 0, s => .ok s
  | remaining + 1, s =>
      match key[s]? with
      | none => .error (.undefined .outOfBounds)
      | some c =>
          if c = mark then .ok s
          else if s = intMax then .error (.undefined .signedOverflow)
          else scan key mark remaining (s + 1)

def fnHashSlot (charSigned : Bool) (key : Bytes) : Except Fault Nat := do
  let s ← scan key 0x7b key.length 0
  if s = key.length then
    .ok ((fnCRC16 charSigned key).toNat &&& 16383)
  else if s = intMax then
    .error (.undefined .signedOverflow)
  else
    let e ← scan key 0x7d (key.length - (s + 1)) (s + 1)
    if e = key.length ∨ e = s + 1 then
      .ok ((fnCRC16 charSigned key).toNat &&& 16383)
    else
      .ok ((fnCRC16 charSigned ((key.drop (s + 1)).take (e - s - 1))).toNat &&& 16383)

def getSlot (charSigned : Bool) : Option Bytes → Except Fault Nat
  | none => .ok uint32Max
  | some key => fnHashSlot charSigned key

end CClusterSupport

/-! ## The slot the cluster assigns -/

/-- The text after the first `\x7b` of a key. -/
def afterOpen (key : Bytes) : Bytes :=
  (key.dropWhile (· ≠ 0x7b)).tail

/-- The part of a key that is hashed: the text between the first `\x7b` and the
first `\x7d` after it when both exist and the text is not empty, and the whole
key otherwise. -/
def hashedPart (key : Bytes) : Bytes :=
  let tag := (afterOpen key).takeWhile (· ≠ 0x7d)
  if 0x7b ∈ key ∧ 0x7d ∈ afterOpen key ∧ tag ≠ [] then tag else key

/-- The key slot: CRC16/XMODEM of the hashed part, modulo the 16384 slots. -/
def keySlot (key : Bytes) : Nat :=
  (Crc.bitwise 0x1021#16 0 ((hashedPart key).map UInt8.toBitVec)).toNat % 16384

namespace CClusterSupport

/-! ## The checksum -/

/-- Every word of the table is eight bit steps of its index. -/
theorem crctable_eq :
    crctable = (List.range 256).map fun i => Crc.tableWord 0x1021#16 (BitVec.ofNat 8 i) := by
  decide +kernel

theorem crctable_getD (octet : BitVec 8) :
    crctable.getD octet.toNat 0 = Crc.tableWord 0x1021#16 octet := by
  rw [crctable_eq, List.getD_eq_getElem?_getD, List.getElem?_map,
    List.getElem?_range octet.isLt]
  simp

theorem getLsbD_charToInt (charSigned : Bool) (c : UInt8) {i : Nat} (low : i < 8) :
    (charToInt charSigned c).getLsbD i = c.toBitVec.getLsbD i := by
  have inside : i < 32 := by omega
  cases charSigned
  · simp [charToInt, inside]
  · rw [charToInt, if_pos rfl, BitVec.getLsbD_signExtend]
    simp only [inside, low, decide_true, Bool.true_and, if_true]

theorem getLsbD_mask {i : Nat} (inside : i < 32) :
    (0x00FF : BitVec 32).getLsbD i = decide (i < 8) := by
  have all : ∀ j : Fin 32, (0x00FF : BitVec 32).getLsbD j = decide (j.val < 8) := by decide
  exact all ⟨i, inside⟩

/-- The mask discards the sign extension, so the index is an octet whatever the
signedness of `char`. -/
theorem crcIndex_eq (charSigned : Bool) (crc : BitVec 16) (c : UInt8) :
    crcIndex charSigned crc c = (Crc.topOctet crc ^^^ c.toBitVec).setWidth 32 := by
  apply BitVec.eq_of_getLsbD_eq
  intro i inside
  rw [crcIndex, BitVec.getLsbD_and, getLsbD_mask inside, BitVec.getLsbD_xor,
    BitVec.getLsbD_setWidth, BitVec.getLsbD_xor, BitVec.getLsbD_ushiftRight,
    BitVec.getLsbD_setWidth]
  by_cases low : i < 8
  · have wide : 8 + i < 32 := by omega
    simp only [getLsbD_charToInt charSigned c low, Crc.topOctet, BitVec.getLsbD_setWidth,
      BitVec.getLsbD_ushiftRight, low, wide, inside, decide_true, Bool.true_and, Bool.and_true]
  · have outside : ∀ octet : BitVec 8, octet.getLsbD i = false :=
      fun octet => BitVec.getLsbD_of_ge octet i (by omega)
    simp only [low, outside, decide_false, Bool.and_false, Bool.xor_false]

theorem crcStep_eq (charSigned : Bool) (crc : BitVec 16) (c : UInt8) :
    crcStep charSigned crc c = Crc.octetStep 0x1021#16 crc c.toBitVec := by
  have index : (crcIndex charSigned crc c).toNat = (Crc.topOctet crc ^^^ c.toBitVec).toNat := by
    rw [crcIndex_eq]
    exact BitVec.toNat_setWidth_of_le (by decide)
  rw [Crc.octetStep_eq_tableWord _ _ (by decide), crcStep, index, crctable_getD]
  apply BitVec.eq_of_getLsbD_eq
  intro i inside
  by_cases low : i < 8
  · simp [inside, low]
  · simp [inside, low]

theorem fnCRC16_eq (charSigned : Bool) (str : Bytes) :
    fnCRC16 charSigned str = Crc.bitwise 0x1021#16 0 (str.map UInt8.toBitVec) := by
  rw [fnCRC16, Crc.bitwise, List.foldl_map]
  congr 1
  funext crc c
  exact crcStep_eq charSigned crc c

/-- Masking with 16383 is the remainder modulo the number of slots. -/
theorem fnCRC16_and_eq (charSigned : Bool) (str : Bytes) :
    (fnCRC16 charSigned str).toNat &&& 16383 =
      (Crc.bitwise 0x1021#16 0 (str.map UInt8.toBitVec)).toNat % 16384 := by
  rw [fnCRC16_eq]
  exact Nat.and_two_pow_sub_one_eq_mod _ 14

/-! ## The search for the hash tag -/

/-- From index `s` on, a counter of type `int` reaches the length of the key, or the
mark before that. -/
def CounterFits (key : Bytes) (mark : UInt8) (s : Nat) : Prop :=
  key.length ≤ intMax ∨ mark ∈ (key.drop s).take (intMax + 1 - s)

instance (key : Bytes) (mark : UInt8) (s : Nat) : Decidable (CounterFits key mark s) :=
  inferInstanceAs (Decidable (_ ∨ _))

/-- The counter stands on the mark, or has to get past a character. -/
theorem counterFits_iff {key : Bytes} (mark : UInt8) {s : Nat} (inside : s < key.length)
    (start : s ≤ intMax) :
    CounterFits key mark s ↔
      key.length ≤ intMax ∨ mark = key[s] ∨ mark ∈ (key.drop (s + 1)).take (intMax - s) := by
  have window : intMax + 1 - s = intMax - s + 1 := by omega
  rw [CounterFits, List.drop_eq_getElem_cons inside, window, List.take_succ_cons, List.mem_cons]

/-- The loop stops at the first occurrence of the mark, or at the length, unless
its counter overflows before. -/
theorem scan_cases (key : Bytes) (mark : UInt8) (remaining s : Nat)
    (reaches : remaining + s = key.length) (start : s ≤ intMax) :
    scan key mark remaining s =
      if CounterFits key mark s then .ok (s + ((key.drop s).takeWhile (· ≠ mark)).length)
      else .error (.undefined .signedOverflow) := by
  induction remaining generalizing s with
  | zero =>
      have ended : key.drop s = [] := List.drop_eq_nil_of_le (by omega)
      have fits : CounterFits key mark s := .inl (by omega)
      simp [scan, ended, fits]
  | succ remaining ih =>
      have inside : s < key.length := by omega
      have fits_iff := counterFits_iff mark inside start
      rw [List.drop_eq_getElem_cons inside, scan, List.getElem?_eq_getElem inside]
      by_cases hit : key[s] = mark
      · have fits := fits_iff.mpr (.inr (.inl hit.symm))
        simp [hit, fits]
      rw [or_iff_right (Ne.symm hit)] at fits_iff
      by_cases last : s = intMax
      · have beyond : ¬ CounterFits key mark s := by
          rw [fits_iff, last, Nat.sub_self, List.take_zero]
          rintro (short | mem)
          · omega
          · contradiction
        dsimp only
        rw [if_neg hit, if_pos last, if_neg beyond]
      · have next_iff : CounterFits key mark (s + 1) ↔ CounterFits key mark s := by
          rw [fits_iff, CounterFits, Nat.add_sub_add_right]
        have below : s + 1 ≤ intMax := by omega
        dsimp only
        rw [if_neg hit, if_neg last, ih (s + 1) (by omega) below]
        simp only [next_iff, ne_eq, hit, not_false_eq_true, decide_true,
          List.takeWhile_cons_of_pos, List.length_cons]
        congr 2
        omega

/-- While the length fits an `int`, the loop stops at the first occurrence of
the mark, or at the length. -/
theorem scan_eq (key : Bytes) (mark : UInt8) (short : key.length ≤ intMax) (remaining s : Nat)
    (reaches : remaining + s = key.length) :
    scan key mark remaining s = .ok (s + ((key.drop s).takeWhile (· ≠ mark)).length) := by
  rw [scan_cases key mark remaining s reaches (by omega), if_pos (.inl short)]

theorem length_takeWhile_eq_iff (text : Bytes) (mark : UInt8) :
    (text.takeWhile (· ≠ mark)).length = text.length ↔ mark ∉ text := by
  constructor
  · intro lengthEq mem
    have whole : text.takeWhile (· ≠ mark) = text :=
      (List.takeWhile_prefix _).eq_of_length lengthEq
    have kept := List.mem_takeWhile_imp (whole.symm ▸ mem)
    simp at kept
  · intro absent
    rw [List.takeWhile_eq_self_iff.mpr]
    intro c mem
    simpa using fun equal : c = mark => absent (equal ▸ mem)

theorem dropWhile_eq_drop (text : Bytes) (p : UInt8 → Bool) :
    text.dropWhile p = text.drop (text.takeWhile p).length := by
  calc
    text.dropWhile p = (text.takeWhile p ++ text.dropWhile p).drop (text.takeWhile p).length :=
      List.drop_left.symm
    _ = text.drop (text.takeWhile p).length := by rw [List.takeWhile_append_dropWhile]

theorem afterOpen_eq_drop (key : Bytes) :
    afterOpen key = key.drop ((key.takeWhile (· ≠ 0x7b)).length + 1) := by
  rw [afterOpen, dropWhile_eq_drop, List.tail_drop]

/-- For every key below the range of `int`, and for either signedness of
`char`, `getSlot` returns the slot the cluster assigns to the key. -/
theorem getSlot_eq_keySlot (charSigned : Bool) (key : Bytes) (short : key.length < 2 ^ 31) :
    getSlot charSigned (some key) = .ok (keySlot key) := by
  have fits : key.length ≤ intMax := by
    rw [intMax]
    omega
  have opened := scan_eq key 0x7b fits key.length 0 (by omega)
  rw [List.drop_zero, Nat.zero_add] at opened
  have openLe : (key.takeWhile (· ≠ 0x7b)).length ≤ key.length :=
    (List.takeWhile_prefix _).length_le
  have openMem := length_takeWhile_eq_iff key 0x7b
  have after := afterOpen_eq_drop key
  generalize (key.takeWhile (· ≠ 0x7b)).length = s at opened openLe openMem after
  simp only [getSlot, fnHashSlot, opened, bind, Except.bind, fnCRC16_and_eq]
  by_cases absent : s = key.length
  · -- no opening brace: the base case
    have whole : hashedPart key = key := by
      simp [hashedPart, openMem.mp absent]
    rw [if_pos absent, keySlot, whole]
  have present : 0x7b ∈ key := by
    by_contra notMem
    exact absent (openMem.mpr notMem)
  have inRange : s ≠ intMax := by omega
  have closed := scan_eq key 0x7d fits (key.length - (s + 1)) (s + 1) (by omega)
  have lengthEq : (afterOpen key).length = key.length - (s + 1) := by
    rw [after, List.length_drop]
  have closeMem := length_takeWhile_eq_iff (afterOpen key) 0x7d
  have tagTake := List.prefix_iff_eq_take.mp
    (List.takeWhile_prefix (l := afterOpen key) (· ≠ (0x7d : UInt8)))
  rw [← after] at closed ⊢
  rw [if_neg absent, if_neg inRange, closed, keySlot, hashedPart]
  generalize (afterOpen key).takeWhile (· ≠ 0x7d) = tag at closed closeMem tagTake ⊢
  dsimp only
  by_cases usable : 0x7d ∈ afterOpen key ∧ tag ≠ []
  · have nonempty : tag.length ≠ 0 := fun zero => usable.2 (List.length_eq_zero_iff.mp zero)
    have unmatched : tag.length ≠ (afterOpen key).length := fun equal => closeMem.mp equal usable.1
    have tagLength : s + 1 + tag.length - s - 1 = tag.length := by omega
    rw [if_neg (by omega), tagLength, if_pos ⟨present, usable⟩, ← tagTake]
  · have degenerate : s + 1 + tag.length = key.length ∨ s + 1 + tag.length = s + 1 := by
      by_cases closes : 0x7d ∈ afterOpen key
      · have empty : tag = [] := by
          by_contra nonempty
          exact usable ⟨closes, nonempty⟩
        exact .inr (by simp [empty])
      · have equal := closeMem.mpr closes
        exact .inl (by omega)
    rw [if_pos degenerate, if_neg fun holds => usable holds.2]

/-- Only the text between the braces of `{1}2` is hashed. -/
theorem getSlot_hashTag : getSlot true (some [0x7b, 0x31, 0x7d, 0x32]) = .ok 9842 :=
  (getSlot_eq_keySlot true [0x7b, 0x31, 0x7d, 0x32] (by decide)).trans (by decide)

end CClusterSupport

end MCRedis.MiddleWare
