import MCRedis.MiddleWare.Slot

/-!
# The counters of the brace scan

The search for the hash tag counts in `int` while the length of the key is a
`size_t`.  A key within the range of `int` is always scanned to its end.  In a
longer key the counters stay in range only when the tag closes within the
characters that an `int` can index.
-/

namespace MCRedis.MiddleWare

open MCRedis.Client

namespace CClusterSupport

theorem takeWhile_take {key : Bytes} {mark : UInt8} {n : Nat} (mem : mark ∈ key.take n) :
    (key.take n).takeWhile (· ≠ mark) = key.takeWhile (· ≠ mark) := by
  have differ : ((key.take n).takeWhile (· ≠ mark)).length ≠ (key.take n).length := fun equal =>
    (length_takeWhile_eq_iff _ _).mp equal mem
  calc
    (key.take n).takeWhile (· ≠ mark) = (key.take n ++ key.drop n).takeWhile (· ≠ mark) := by
      rw [List.takeWhile_append, if_neg differ]
    _ = key.takeWhile (· ≠ mark) := by rw [List.take_append_drop]

/-- The mark stands before the end of the text that has it. -/
theorem length_takeWhile_lt {text : Bytes} {mark : UInt8} (mem : mark ∈ text) :
    (text.takeWhile (· ≠ mark)).length < text.length := by
  apply Nat.lt_of_le_of_ne (List.takeWhile_prefix _).length_le
  exact fun equal => (length_takeWhile_eq_iff text mark).mp equal mem

theorem afterOpen_of_not_mem {text : Bytes} (absent : 0x7b ∉ text) : afterOpen text = [] := by
  rw [afterOpen_eq_drop, (length_takeWhile_eq_iff text 0x7b).mpr absent]
  exact List.drop_eq_nil_of_le (Nat.le_succ _)

theorem afterOpen_take {key : Bytes} {n : Nat} (mem : 0x7b ∈ key.take n) :
    afterOpen (key.take n) =
      (key.drop ((key.takeWhile (· ≠ 0x7b)).length + 1)).take
        (n - ((key.takeWhile (· ≠ 0x7b)).length + 1)) := by
  rw [afterOpen_eq_drop, takeWhile_take mem, List.drop_take]

/-- The tag opens and closes within the characters that an `int` can index. -/
def TagInRange (key : Bytes) : Prop :=
  0x7d ∈ afterOpen (key.take (intMax + 1))

/-- A tag in range opens at an index whose successor is an `int`. -/
theorem TagInRange.open_lt {key : Bytes} (inRange : TagInRange key) :
    0x7b ∈ key.take (intMax + 1) ∧ (key.takeWhile (· ≠ 0x7b)).length < intMax := by
  have opens : 0x7b ∈ key.take (intMax + 1) := by
    by_contra absent
    rw [TagInRange, afterOpen_of_not_mem absent] at inRange
    contradiction
  refine ⟨opens, ?_⟩
  by_contra beyond
  rw [TagInRange, afterOpen_take opens, Nat.sub_eq_zero_of_le (by omega), List.take_zero] at inRange
  contradiction

/-- The scan for the closing brace ends for the same reason as the whole
search. -/
theorem counterFits_close_iff {key : Bytes} (fits : CounterFits key 0x7b 0) :
    CounterFits key 0x7d ((key.takeWhile (· ≠ 0x7b)).length + 1) ↔
      key.length ≤ intMax ∨ TagInRange key := by
  by_cases short : key.length ≤ intMax
  · exact iff_of_true (.inl short) (.inl short)
  · have opens : 0x7b ∈ key.take (intMax + 1) := fits.resolve_left short
    rw [CounterFits, TagInRange, afterOpen_take opens]

theorem length_takeWhile_le_of_fits {key : Bytes} {mark : UInt8} (fits : CounterFits key mark 0) :
    key.length ≤ intMax ∨ (key.takeWhile (· ≠ mark)).length ≤ intMax := by
  apply fits.imp_right
  intro (opens : mark ∈ key.take (intMax + 1))
  have before := length_takeWhile_lt opens
  rw [takeWhile_take opens, List.length_take] at before
  omega

theorem ok_defined (slot : Nat) (kind : Undefined) :
    (.ok slot : Except Fault Nat) ≠ .error (.undefined kind) := by
  rintro ⟨⟩

/-- What follows a scan and fails nowhere is defined when the scan ends. -/
theorem scan_bind_defined_iff {key : Bytes} {mark : UInt8} {i : Nat}
    {next : Nat → Except Fault Nat} (inKey : i ≤ key.length) (inRange : i ≤ intMax)
    (succeeds : ∀ e, ∃ slot, next e = .ok slot) :
    (∀ kind, (scan key mark (key.length - i) i).bind next ≠ .error (.undefined kind)) ↔
      CounterFits key mark i := by
  rw [scan_cases key mark (key.length - i) i (by omega) inRange]
  by_cases fits : CounterFits key mark i
  · rw [if_pos fits]
    refine iff_of_true (fun kind => ?_) fits
    obtain ⟨slot, slotEq⟩ := succeeds (i + ((key.drop i).takeWhile (· ≠ mark)).length)
    rw [Except.bind, slotEq]
    exact ok_defined slot kind
  · rw [if_neg fits]
    exact iff_of_false (fun defined => defined _ rfl) fits

/-- `getSlot` of a key is defined, without an overflow or an access outside the
key, exactly when the key fits an `int` or its tag does. -/
theorem getSlot_defined_iff (charSigned : Bool) (key : Bytes) :
    (∀ kind, getSlot charSigned (some key) ≠ .error (.undefined kind)) ↔
      key.length ≤ intMax ∨ TagInRange key := by
  have opened := scan_cases key 0x7b key.length 0 rfl (Nat.zero_le _)
  rw [List.drop_zero, Nat.zero_add] at opened
  rw [getSlot, fnHashSlot, opened]
  by_cases fits : CounterFits key 0x7b 0
  · have bounded := length_takeWhile_le_of_fits fits
    have lengthLe : (key.takeWhile (· ≠ 0x7b)).length ≤ key.length :=
      (List.takeWhile_prefix _).length_le
    have openMem := length_takeWhile_eq_iff key 0x7b
    have closes_iff := counterFits_close_iff fits
    have open_lt := @TagInRange.open_lt key
    generalize (key.takeWhile (· ≠ 0x7b)).length = s at *
    rw [if_pos fits]
    change (∀ kind, (if s = key.length then _ else if s = intMax then _ else _) ≠ _) ↔ _
    by_cases absent : s = key.length
    · -- no opening brace
      rw [if_pos absent]
      refine iff_of_true (ok_defined _) (.inl (fits.resolve_right ?_))
      exact fun mem => openMem.mp absent (List.mem_of_mem_take mem)
    rw [if_neg absent]
    by_cases last : s = intMax
    · rw [if_pos last]
      refine iff_of_false (fun defined => defined _ rfl) ?_
      rintro (short | inRange)
      · omega
      · exact absurd (open_lt inRange).2 (by omega)
    · rw [if_neg last, ← closes_iff]
      apply scan_bind_defined_iff (by omega) (by omega)
      intro e
      split
      · exact ⟨_, rfl⟩
      · exact ⟨_, rfl⟩
  · rw [if_neg fits]
    refine iff_of_false (fun defined => defined _ rfl) ?_
    rintro (short | inRange)
    · exact fits (.inl short)
    · exact fits (.inr inRange.open_lt.1)

/-- A key of 2^31 characters without a brace. -/
theorem getSlot_overflows :
    getSlot true (some (List.replicate 2147483648 0x61)) = .error (.undefined .signedOverflow) := by
  generalize lengthEq : 2147483648 = length
  have opened := scan_cases (List.replicate length 0x61) 0x7b length 0 (by simp) (Nat.zero_le _)
  have beyond : ¬ CounterFits (List.replicate length 0x61) 0x7b 0 := by
    rintro (short | mem)
    · rw [List.length_replicate, ← lengthEq] at short
      exact absurd short (by decide)
    · exact absurd (List.eq_of_mem_replicate (List.mem_of_mem_take mem)) (by decide)
  rw [if_neg beyond] at opened
  rw [getSlot, fnHashSlot, List.length_replicate, opened]
  rfl

end CClusterSupport

end MCRedis.MiddleWare
