import MCRedis.Hiredis.Format
import MCRedis.Hiredis.Levels

/-!
# The reader as a parser that was interrupted

The state of the reader between two items is the state of the recursive parser
in the middle of a reply: an item of a type that may already be known, inside
arrays that wait for elements.  `resume` is what is left to parse from there.
Every step of the reader keeps it: whatever bytes arrive later, what is left to
parse before the step from the unread bytes is what is left after it.
-/

namespace MCRedis.Hiredis

open MCRedis.Client
open MCRedis.Parsing
open MCRedis.Text

theorem ok_bind {α β : Type} (value : α) (next : α → Except Fault β) :
    (Except.ok value >>= next) = next value :=
  rfl

/-! ## What is left to parse -/

/-- After an item: the other elements of its array, and then that array. -/
def finish : List Level → RedisReply → WireParser RedisReply
  | [], found => pure found
  | level :: levels, found => do
      let others ← (anyReply (levelsMax - (levels.length + 1))).times
        (level.total - (level.done.length + 1))
      finish levels (.array (level.done ++ found :: others))

/-- From an item inside some levels of arrays. -/
def resume (pending : Option ReplyType) (levels : List Level) : WireParser RedisReply := do
  let type ←
    match pending with
    | some type => pure type
    | none => typeByte
  let found ← item (levelsMax - levels.length) type
  finish levels found

theorem resume_none (levels : List Level) :
    resume none levels = anyReply (levelsMax - levels.length) >>= finish levels := by
  rw [anyReply, Parser.bind_bind]
  rfl

theorem resume_some (type : ReplyType) (levels : List Level) :
    resume (some type) levels = item (levelsMax - levels.length) type >>= finish levels :=
  rfl

/-- What is left after an item is what is left where it leads to. -/
theorem finish_eq_settle {levels : List Level} (waiting : Waiting levels) (found : RedisReply) :
    finish levels found =
      match settle levels found with
      | .inl root => pure root
      | .inr rest => resume none rest := by
  induction levels generalizing found with
  | nil => rfl
  | cons level levels ih =>
      obtain ⟨⟨room, -⟩, others⟩ := List.forall_mem_cons.mp waiting
      rw [finish, settle]
      by_cases full : level.done.length + 1 = level.total
      · rw [if_pos full, full, Nat.sub_self, ← ih others]
        rfl
      · obtain ⟨left, counted⟩ : ∃ left, level.total - (level.done.length + 1) = left + 1 :=
          ⟨level.total - (level.done.length + 1) - 1, by omega⟩
        rw [if_neg full, counted]
        change _ = resume none ({ level with done := level.done ++ [found] } :: levels)
        rw [resume_none, Parser.times, Parser.bind_bind]
        congr 1
        funext value
        rw [finish, List.length_append, Parser.bind_bind]
        have same : level.total - (level.done.length + [found].length + 1) = left := by
          rw [List.length_singleton]
          omega
        simp only [same, Parser.pure_bind_eq, List.append_assoc, List.cons_append,
          List.nil_append]

/-- An array that was announced is a further level. -/
theorem times_bind_finish {levels : List Level} (total : Nat) (positive : 0 < total) :
    ((anyReply (levelsMax - (levels.length + 1))).times total >>= fun found =>
        (pure (.array found) : WireParser RedisReply)) >>= finish levels =
      resume none (⟨total, []⟩ :: levels) := by
  obtain ⟨left, rfl⟩ := Nat.exists_eq_succ_of_ne_zero (Nat.ne_of_gt positive)
  rw [resume_none, Parser.bind_bind, Parser.times, Parser.bind_bind]
  congr 1
  funext value
  rw [finish, Parser.bind_bind]
  rfl

/-! ## The buffer -/

/-- The bytes of the buffer that are not consumed yet. -/
def unread (r : RedisReader) : Bytes :=
  r.buf.drop r.pos

/-- The cursor is inside the buffer, whose length fits in an `int`. -/
structure Buffered (r : RedisReader) : Prop where
  len : r.len = r.buf.length
  pos : r.pos ≤ r.buf.length
  small : r.buf.length ≤ intMax

/-- The reader with its cursor moved on. -/
def advanced (r : RedisReader) (count : Nat) : RedisReader :=
  { r with pos := r.pos + count }

theorem unread_advanced (r : RedisReader) (count : Nat) :
    unread (advanced r count) = (unread r).drop count := by
  rw [unread, unread, List.drop_drop]
  rfl

namespace Buffered

variable {r : RedisReader}

theorem length_unread (buffered : Buffered r) : (unread r).length + r.pos = r.buf.length := by
  have := buffered.pos
  rw [unread, List.length_drop]
  omega

theorem remaining (buffered : Buffered r) : sizeSub r.len r.pos = (unread r).length := by
  have small := buffered.small
  have pos := buffered.pos
  rw [intMax] at small
  rw [sizeSub_eq (by rw [buffered.len]; exact pos) (by rw [buffered.len, uint64Size]; omega),
    buffered.len, unread, List.length_drop]

theorem slice_unread (buffered : Buffered r) :
    slice r.buf r.pos (sizeSub r.len r.pos) = .ok (unread r) := by
  rw [buffered.remaining, slice, if_pos]
  · rw [← unread, List.take_length]
  · have := buffered.length_unread
    omega

theorem advanced (buffered : Buffered r) {count : Nat} (inside : count ≤ (unread r).length) :
    Buffered (advanced r count) where
  len := buffered.len
  pos := by
    have := buffered.length_unread
    change r.pos + count ≤ r.buf.length
    omega
  small := buffered.small

end Buffered

/-- `seekNewline` finds the end of the first line. -/
theorem seekNewline_eq {s : Bytes} (small : s.length ≤ intMax) :
    seekNewline s = (cutLine s).map fun cut => cut.1.length := by
  have loop : ∀ (s : Bytes) (pos : Nat), seekNewlineFrom (pos + s.length - 1 : Int) pos s =
      (cutLine s).map fun cut => pos + cut.1.length := by
    intro s
    induction s with
    | nil => exact fun _ => rfl
    | cons first s ih =>
        intro pos
        cases s with
        | nil =>
            rw [seekNewlineFrom, if_neg (by simp)]
            rfl
        | cons second s =>
            have shifted : ((pos : Int) + (first :: second :: s).length - 1) =
                ((pos + 1 : Nat) : Int) + (second :: s).length - 1 := by
              simp only [List.length_cons]
              omega
            have within : (pos : Int) < (pos : Int) + (first :: second :: s).length - 1 := by
              simp only [List.length_cons]
              omega
            have next := ih (pos + 1)
            rw [← shifted] at next
            have onwards : ((cutLine (second :: s)).map fun cut => pos + 1 + cut.1.length) =
                ((cutLine (second :: s)).map fun cut => (first :: cut.1, cut.2)).map
                  fun cut => pos + cut.1.length := by
              rw [Option.map_map]
              congr 1
              funext cut
              simp only [Function.comp, List.length_cons]
              omega
            rw [seekNewlineFrom, if_pos within, cutLine]
            by_cases ended : first = 0x0d ∧ second = 0x0a
            · rw [if_pos ended, if_pos ⟨ended.1, congrArg some ended.2⟩]
              rfl
            · rw [if_neg ended, if_neg fun both => ended ⟨both.1, Option.some.inj both.2⟩,
                ← onwards, next]
  by_cases empty : s = []
  · subst empty
    rfl
  · have positive : 1 ≤ s.length := List.length_pos_iff.mpr empty
    have last : toInt (sizeSub s.length 1) = (s.length : Int) - 1 := by
      rw [intMax] at small
      rw [sizeSub_eq positive (by rw [uint64Size]; omega), toInt_eq (by rw [intMax]; omega)]
      omega
    have found := loop s 0
    simp only [Nat.cast_zero, Int.zero_add, Nat.zero_add] at found
    rw [seekNewline, last, found]

/-- The parts of a line that was cut off. -/
theorem cutLine_parts {input text rest : Bytes} (cut : cutLine input = some (text, rest)) :
    input.take text.length = text ∧ input.drop (text.length + 2) = rest ∧
      input.length = text.length + 2 + rest.length := by
  obtain ⟨-, rfl⟩ := cutLine_eq_some_iff.mp cut
  refine ⟨?_, ?_, ?_⟩
  · rw [List.append_assoc, List.take_left]
  · rw [show text.length + 2 = (text ++ crlf).length by rw [List.length_append]; rfl,
      List.drop_left]
  · rw [List.length_append, List.length_append]
    rfl

/-- `readLine` takes the first line of the unread bytes, if it is complete. -/
theorem readLine_eq {r : RedisReader} (buffered : Buffered r) :
    readLine r = .ok (match cutLine (unread r) with
      | some (text, _) => (some text, advanced r (text.length + 2))
      | none => (none, r)) := by
  have small : (unread r).length ≤ intMax := by
    have := buffered.length_unread
    have := buffered.small
    omega
  rw [readLine, buffered.slice_unread, ok_bind, seekNewline_eq small]
  cases cut : cutLine (unread r) with
  | none => rfl
  | some found =>
      obtain ⟨text, rest⟩ := found
      simp only [Option.map_some, (cutLine_parts cut).1]
      rfl

end MCRedis.Hiredis
