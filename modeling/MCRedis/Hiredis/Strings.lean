import MCRedis.Hiredis.Sds
import MCRedis.Transition.Run

/-!
# Operations on strings

The functions that hiredis calls on its buffers, on the memory and on the bytes:
the memory always holds what the function on the bytes gives, in a block that is
large enough.  So the buffers of the reader and of the context may be taken for the
bytes that they hold.
-/

namespace MCRedis.Hiredis

open MCRedis.Client
open MCRedis.Transition

namespace Sds

variable {s : Sds} {content text : Bytes}

/-! ## Ranges and copies -/

/-- A string that is made shorter, in a block of the same size. -/
theorem Holds.shorten (holds : s.Holds content) {buf : Memory} {result : Bytes}
    (block : buf.length = s.buf.length) (short : result.length ≤ content.length)
    (textEq : buf.take result.length = result.map some) :
    ∃ after, store buf result.length [some 0] = .ok after ∧
      Represents (sdssetlen { s with buf := after } result.length) result := by
  have inside := holds.inside
  have whole : result.length % s.type.fieldSize = result.length :=
    Nat.mod_eq_of_lt ((short.trans inside).trans_lt holds.field)
  have allocEq : result.length ≤ sdsalloc { s with buf := buf, lenField := result.length } ∧
      sdsalloc { s with buf := buf, lenField := result.length } ≤ s.sdsalloc := by
    have len := holds.len
    rcases s with ⟨type, _, allocField, _⟩
    cases type <;> simp only [sdsalloc] at * <;> omega
  have shorter : Holds { s with buf := buf, lenField := result.length } result := by
    refine ⟨rfl, allocEq.1, ?_, allocEq.2.trans_lt holds.field, textEq⟩
    exact (Nat.succ_le_succ allocEq.2).trans (holds.block.trans block.ge)
  obtain ⟨after, stored, represents⟩ := shorter.terminate
  refine ⟨after, stored, ?_⟩
  rw [sdssetlen, whole]
  exact represents

/-- A part of a string is moved to its start. -/
theorem Holds.slice (holds : s.Holds content) {start count : Nat}
    (inside : count = 0 ∨ start + count ≤ content.length) :
    ∃ buf, moveFront s.buf start count = .ok buf ∧ buf.length = s.buf.length ∧
      buf.take count = ((content.drop start).take count).map some := by
  rw [moveFront]
  rcases inside with rfl | inside
  · rw [if_pos (.inr rfl)]
    exact ⟨s.buf, rfl, rfl, by simp⟩
  have inBlock := holds.inside
  have block := holds.block
  have read : (s.buf.drop start).take count = ((content.drop start).take count).map some := by
    rw [List.map_take, List.map_drop, ← holds.text, List.drop_take, List.take_take,
      Nat.min_eq_left (by omega)]
  split
  · rename_i unmoved
    refine ⟨s.buf, rfl, rfl, ?_⟩
    rw [← read]
    rcases unmoved with zero | zero
    · rw [zero, List.drop_zero]
    · rw [zero, List.take_zero, List.take_zero]
  · have moved : ((s.buf.drop start).take count).length = count := by
      rw [List.length_take, List.length_drop]
      omega
    rw [load_ok (by omega), ok_bind, store_ok (by omega)]
    refine ⟨_, rfl, ?_, ?_⟩
    · simp only [List.length_append, moved, List.length_drop, List.length_take]
      omega
    · rw [List.take_zero, List.nil_append, List.take_left' moved, read]

theorem clippedLen_ok (first : Nat) {last : Int} (bound : last < intMax)
    (small : content.length ≤ intMax) :
    ∃ count, clippedLen content.length first last = .ok count ∧
      (count = 0 ∨ first + count ≤ content.length) ∧
      (if (first : Int) > last then []
        else if (first : Int) ≥ content.length then []
        else
          let finish := if last ≥ content.length then toInt (content.length - 1) else last
          if (first : Int) > finish then []
          else (content.drop (first : Int).toNat).take (finish - first + 1).toNat) =
        (content.drop first).take count := by
  have lenEq : toInt content.length = content.length := toInt_eq small
  rw [clippedLen, rangeLen, lenEq]
  by_cases nothing : (first : Int) > last
  · refine ⟨0, by rw [if_pos nothing]; rfl, .inl rfl, ?_⟩
    rw [if_pos nothing, List.take_zero]
  · have some : (last - first + 1).toNat ≠ 0 := by omega
    rw [if_neg nothing, if_neg (by omega), ok_bind, if_neg some, if_neg nothing]
    by_cases beyond : (first : Int) ≥ content.length
    · refine ⟨0, if_pos beyond, .inl rfl, ?_⟩
      rw [if_pos beyond, List.take_zero]
    · have lastEq : toInt (content.length - 1) = content.length - 1 := by
        have cast := @toInt_eq (content.length - 1) (by omega)
        rwa [Nat.cast_sub (by omega), Nat.cast_one] at cast
      rw [if_neg beyond, if_neg beyond, lastEq, Int.toNat_natCast]
      by_cases clipped : last ≥ content.length
      · rw [if_pos clipped, if_pos clipped, rangeLen, if_neg (by omega), if_neg (by omega)]
        exact ⟨_, rfl, .inr (by omega), if_neg (by omega)⟩
      · rw [if_neg clipped, if_neg clipped]
        exact ⟨_, rfl, .inr (by omega), if_neg nothing⟩

/-- `sdsrange` as the bytes see it, up to the last byte that an `int` counts. -/
theorem Represents.range (represents : s.Represents content) (small : content.length ≤ intMax)
    {start finish : Int} (low : -2147483648 ≤ finish) (bound : finish < intMax) :
    ∃ after, s.sdsrange start finish = .ok after ∧
      after.Represents (Hiredis.sdsrange content start finish) := by
  have len : s.sdslen = content.length := represents.len
  rw [sdsrange, Hiredis.sdsrange, len]
  dsimp only
  split
  · exact ⟨s, rfl, represents⟩
  · rename_i nonempty
    have startFrom : 0 ≤ if start < 0 then max (toInt (content.length + start)) 0 else start := by
      split
      · exact le_max_right _ _
      · omega
    have finishTo : (if finish < 0 then max (toInt (content.length + finish)) 0 else finish) <
        intMax := by
      split
      · have fromEnd : toInt (content.length + finish) = content.length + finish := by
          rw [intMax] at small
          exact Int.bmod_eq_of_le (by omega) (by omega)
        rw [fromEnd]
        omega
      · exact bound
    rw [toInt_eq small]
    generalize (if start < 0 then max (toInt (content.length + start)) 0 else start) = first at *
    generalize (if finish < 0 then max (toInt (content.length + finish)) 0 else finish) = last at *
    obtain ⟨first, rfl⟩ := Int.eq_ofNat_of_zero_le startFrom
    obtain ⟨count, countOk, inside, resultEq⟩ := clippedLen_ok first finishTo small
    obtain ⟨buf, moved, block, textEq⟩ := represents.slice inside
    have counted : ((content.drop first).take count).length = count := by
      rw [List.length_take, List.length_drop]
      omega
    rw [resultEq, countOk, ok_bind, Int.toNat_natCast, moved, ok_bind]
    obtain ⟨after, stored, shorter⟩ := represents.shorten block
      (by rw [counted]; omega) (by rw [counted]; exact textEq)
    rw [counted] at stored shorter
    rw [stored, ok_bind]
    exact ⟨_, rfl, shorter⟩

/-- Bytes of an object in memory are appended. -/
theorem Holds.cat (holds : s.Holds content) {memory result : Bytes} {len : Nat}
    (appended : Hiredis.sdscatlen content memory len = .ok result)
    (growable : Growable (content.length + len)) :
    ∃ after, s.sdscatlen memory len = .ok after ∧ after.Represents result := by
  rw [Hiredis.sdscatlen] at appended
  split at appended
  · rename_i inside
    cases appended
    obtain ⟨grown, grownOk, grownHolds, room, _⟩ := holds.makeRoom growable
    have read : load (memory.map some) 0 len = .ok ((memory.take len).map some) := by
      rw [load_ok (by simpa using inside), List.drop_zero, List.map_take]
    have textLen : (memory.take len).length = len := List.length_take_of_le inside
    obtain ⟨buf, stored, longer⟩ := grownHolds.append (textLen.le.trans room)
    obtain ⟨after, terminated, represents⟩ := longer.terminate
    rw [textLen] at represents
    rw [List.length_append, textLen] at terminated
    refine ⟨_, ?_, represents⟩
    rw [sdscatlen, sdslen, holds.len, grownOk, ok_bind, read, ok_bind, stored, ok_bind]
    exact congrArg (· >>= _) terminated
  · contradiction

theorem Holds.roomFor (holds : s.Holds content) {len : Nat}
    (growable : Growable (content.length + len)) :
    ∃ grown, s.roomFor len = .ok grown ∧ grown.Holds content ∧ len ≤ grown.sdsavail := by
  rw [Sds.roomFor]
  split
  · obtain ⟨grown, grownOk, grownHolds, room, _⟩ := holds.makeRoom growable
    exact ⟨grown, grownOk, grownHolds, room⟩
  · rename_i room
    exact ⟨s, rfl, holds, Nat.le_of_not_lt room⟩

/-- A text is appended at the end of the string. -/
theorem Holds.catText (holds : s.Holds content)
    (growable : Growable (content.length + text.length)) :
    ∃ after, catText content.length s text = .ok after ∧ after.Holds (content ++ text) := by
  obtain ⟨grown, grownOk, grownHolds, room⟩ := holds.roomFor growable
  obtain ⟨buf, stored, longer⟩ := grownHolds.append room
  rw [Sds.catText, grownOk, ok_bind, if_neg (by omega), Int.toNat_natCast, stored, ok_bind]
  refine ⟨_, rfl, ?_⟩
  rw [sdsinclen, grownHolds.len]
  exact longer

theorem Holds.terminateAt (holds : s.Holds content) :
    ∃ after, terminateAt content.length s = .ok after ∧ after.Represents content := by
  obtain ⟨buf, stored, represents⟩ := holds.terminate
  rw [Sds.terminateAt, if_neg (by omega), Int.toNat_natCast, stored, ok_bind]
  exact ⟨_, rfl, represents⟩

theorem Holds.catChar (holds : s.Holds content) {c : UInt8} (small : content.length + 1 ≤ intMax) :
    ∃ after, catChar content.length s c = .ok after ∧ after.Holds (content ++ [c]) := by
  obtain ⟨after, written, longer⟩ := @Holds.catText s content [c] holds
    (growable_of_intMax (Nat.le_succ_of_le small))
  rw [Sds.catChar, written, ok_bind, if_neg (by omega)]
  exact ⟨after, rfl, longer⟩

end Sds

/-! ## Formats -/

theorem writeAt_ok {i : Int} {s text result : Bytes} (written : writeAt i s text = .ok result) :
    i = s.length ∧ result = s ++ text := by
  rw [writeAt] at written
  split_ifs at written with atEnd
  cases written
  exact ⟨atEnd, rfl⟩

theorem writeChar_ok {i : Int} {s result : Bytes} {c : UInt8}
    (written : writeChar i s c = .ok result) : i = s.length ∧ result = s ++ [c] := by
  obtain ⟨longer, writtenAt, checked⟩ := except_bind_ok written
  split_ifs at checked
  cases checked
  exact writeAt_ok writtenAt

/-- Formatting only appends. -/
theorem length_le_of_sdscatfmtFrom {i : Int} {s fmt result : Bytes} {args : List VaArg}
    (formatted : sdscatfmtFrom i s fmt args = .ok result) : s.length ≤ result.length := by
  induction i, s, fmt, args using sdscatfmtFrom.induct with
  | case1 i s args =>
      cases formatted
      exact le_rfl
  | case2 i s args => contradiction
  | case3 i s c args plain =>
      rw [sdscatfmtFrom, if_neg plain] at formatted
      rw [(writeChar_ok formatted).2, List.length_append]
      exact Nat.le_add_right _ _
  | case4 i s next f args ih =>
      rw [sdscatfmtFrom, if_pos rfl] at formatted
      obtain ⟨⟨text, others⟩, _, formatted⟩ := except_bind_ok formatted
      obtain ⟨longer, written, formatted⟩ := except_bind_ok formatted
      have grown := ih text others longer formatted
      rw [(writeAt_ok written).2, List.length_append] at grown
      omega
  | case5 i s c next f args plain ih =>
      rw [sdscatfmtFrom, if_neg plain] at formatted
      obtain ⟨longer, written, formatted⟩ := except_bind_ok formatted
      have grown := ih longer formatted
      rw [(writeChar_ok written).2, List.length_append] at grown
      omega

namespace Sds

/-- Where the bytes can be formatted, the string in memory is. -/
theorem Holds.catfmtFrom {i : Int} {content fmt result : Bytes} {args : List VaArg} {s : Sds}
    (holds : s.Holds content) (formatted : Hiredis.sdscatfmtFrom i content fmt args = .ok result)
    (position : i = content.length) (small : result.length ≤ intMax) :
    ∃ after, sdscatfmtFrom i s fmt args = .ok after ∧ after.Represents result := by
  have head : ∀ {content : Bytes} {s : Sds}, s.Holds content → content.length ≤ intMax →
      ∃ ready, s.roomFor 1 = .ok ready ∧ ready.Holds content := by
    intro content s holds bound
    obtain ⟨ready, readyOk, readyHolds, _⟩ :=
      holds.roomFor (growable_of_intMax (Nat.add_le_add_right bound 1))
    exact ⟨ready, readyOk, readyHolds⟩
  induction i, content, fmt, args using Hiredis.sdscatfmtFrom.induct generalizing s with
  | case1 i content args =>
      cases formatted
      subst position
      exact holds.terminateAt
  | case2 i content args => contradiction
  | case3 i content c args plain =>
      rw [Hiredis.sdscatfmtFrom, if_neg plain] at formatted
      have longerEq := (writeChar_ok formatted).2
      subst position longerEq
      have moved : (content.length : Int) + 1 = (content ++ [c]).length :=
        length_add_length content [c]
      rw [List.length_append, List.length_singleton] at small
      obtain ⟨ready, readyOk, readyHolds⟩ := head holds (by omega)
      obtain ⟨longer, written, longerHolds⟩ := @Holds.catChar ready content readyHolds c small
      rw [sdscatfmtFrom, readyOk, ok_bind, if_neg plain, written, ok_bind, moved]
      exact longerHolds.terminateAt
  | case4 i content next f args ih =>
      rw [Hiredis.sdscatfmtFrom, if_pos rfl] at formatted
      obtain ⟨⟨text, others⟩, converted, formatted⟩ := except_bind_ok formatted
      obtain ⟨longer, written, formatted⟩ := except_bind_ok formatted
      have longerEq := (writeAt_ok written).2
      have grown := length_le_of_sdscatfmtFrom formatted
      subst position longerEq
      rw [List.length_append] at grown
      have moved : toInt (content.length + text.length) = (content ++ text).length := by
        rw [length_add_length]
        apply toInt_eq
        rw [List.length_append]
        omega
      obtain ⟨ready, readyOk, readyHolds⟩ := head holds (by omega)
      obtain ⟨after, textOk, afterHolds⟩ :=
        @Holds.catText ready content text readyHolds (growable_of_intMax (by omega))
      rw [sdscatfmtFrom, readyOk, ok_bind, if_pos rfl, converted, ok_bind]
      change ∃ last, Sds.catText content.length ready text >>= _ = .ok last ∧ _
      rw [textOk, ok_bind]
      exact ih text others (content ++ text) afterHolds formatted moved
  | case5 i content c next f args plain ih =>
      rw [Hiredis.sdscatfmtFrom, if_neg plain] at formatted
      obtain ⟨longer, written, formatted⟩ := except_bind_ok formatted
      have longerEq := (writeChar_ok written).2
      have grown := length_le_of_sdscatfmtFrom formatted
      subst position longerEq
      rw [List.length_append, List.length_singleton] at grown
      have moved : (content.length : Int) + 1 = (content ++ [c]).length :=
        length_add_length content [c]
      obtain ⟨ready, readyOk, readyHolds⟩ := head holds (by omega)
      obtain ⟨after, charOk, afterHolds⟩ :=
        @Holds.catChar ready content readyHolds c (by omega)
      rw [sdscatfmtFrom, readyOk, ok_bind, if_neg plain, charOk, ok_bind]
      exact ih (content ++ [c]) afterHolds formatted moved

/-- A new string. -/
theorem represents_sdsnewlen {init : Bytes} {initlen : Nat} (inside : initlen ≤ init.length)
    (small : initlen + 18 < uint64Size) :
    ∃ s, sdsnewlen init initlen = .ok s ∧ s.Represents (init.take initlen) := by
  have textLen : (init.take initlen).length = initlen := List.length_take_of_le inside
  have header : ∀ (type : SdsType) (buf : Memory), initlen < type.fieldSize →
      sdsalloc (sdssetalloc (sdssetlen ⟨type, 0, 0, buf⟩ initlen) initlen) = initlen ∧
        (sdssetalloc (sdssetlen ⟨type, 0, 0, buf⟩ initlen) initlen).lenField = initlen ∧
        (sdssetalloc (sdssetlen ⟨type, 0, 0, buf⟩ initlen) initlen).type = type := by
    intro type buf fits
    have whole : initlen % type.fieldSize = initlen := Nat.mod_eq_of_lt fits
    cases type <;> exact ⟨whole, whole, rfl⟩
  have fits : initlen < (if initlen = 0 then SdsType.type8 else sdsReqType initlen).fieldSize := by
    split
    · rename_i zero
      rw [zero]
      decide
    · exact lt_fieldSize_sdsReqType (by omega)
  rw [sdsnewlen]
  generalize (if initlen = 0 then SdsType.type8 else sdsReqType initlen) = type at fits ⊢
  have read : load (init.map some) 0 initlen = .ok ((init.take initlen).map some) := by
    rw [load_ok (by simpa using inside), List.drop_zero, List.map_take]
  have room : 0 + ((init.take initlen).map some).length ≤
      (List.replicate (initlen + 1) (none : Option UInt8)).length := by
    simp only [List.length_map, textLen, List.length_replicate]
    omega
  rw [newBlock_ok small, ok_bind, read, ok_bind, store_ok room, ok_bind]
  generalize bufEq : (List.replicate (initlen + 1) (none : Option UInt8)).take 0 ++ _ = buf
  obtain ⟨allocEq, lenEq, typeEq⟩ := header type buf fits
  have block : buf.length = initlen + 1 := by
    rw [← bufEq]
    simp only [List.length_append, List.length_take, List.length_drop, List.length_map, textLen,
      List.length_replicate]
    omega
  have holds : Holds (sdssetalloc (sdssetlen ⟨type, 0, 0, buf⟩ initlen) initlen)
      (init.take initlen) := by
    refine ⟨lenEq.trans textLen.symm, ?_, ?_, ?_, ?_⟩
    · rw [textLen, allocEq]
    · rw [allocEq, buf_sdssetalloc]
      exact block.ge
    · rw [allocEq, typeEq]
      exact fits
    · rw [buf_sdssetalloc, ← bufEq]
      exact List.take_left' (List.length_map _)
  obtain ⟨after, stored, represents⟩ := holds.terminate
  rw [buf_sdssetalloc, textLen] at stored
  refine ⟨_, congrArg (· >>= _) stored, ?_⟩
  cases type <;> exact represents

end Sds

/-! ## Runs -/

/-- What hiredis does to a string: `redisFormatSdsCommandArgv` makes room, `feed` is the
part of `redisReaderFeed` that first gives up an idle buffer with too much free space,
and `renew` frees the string for an empty one. -/
inductive SdsOp
  | makeRoom (addlen : Nat)
  | cat (memory : Bytes) (len : Nat)
  | format (fmt : Bytes) (args : List VaArg)
  | feed (maxbuf : Nat) (memory : Bytes) (len : Nat)
  | range (start finish : Int)
  | renew

namespace SdsOp

/-- The operation on the bytes. -/
def onBytes (content : Bytes) : SdsOp → Except Fault Bytes
  | makeRoom _ => .ok content
  | cat memory len => sdscatlen content memory len
  | format fmt args => sdscatfmt content fmt args
  | feed _ memory len => sdscatlen content memory len
  | range start finish => .ok (sdsrange content start finish)
  | renew => .ok []

/-- A buffer that is idle and has too much free space is replaced. -/
def giveUp (s : Sds) (maxbuf : Nat) : Except Fault Sds :=
  if s.sdslen = 0 ∧ maxbuf ≠ 0 ∧ s.sdsavail > maxbuf then Sds.sdsempty else .ok s

/-- The operation on the memory. -/
def onSds (s : Sds) : SdsOp → Except Fault Sds
  | makeRoom addlen => s.sdsMakeRoomFor addlen
  | cat memory len => s.sdscatlen memory len
  | format fmt args => s.sdscatfmt fmt args
  | feed maxbuf memory len => do
      let s ← giveUp s maxbuf
      s.sdscatlen memory len
  | range start finish => s.sdsrange start finish
  | renew => Sds.sdsempty

/-- The arguments are values of their types that an `int` counts. -/
def Countable : SdsOp → Prop
  | makeRoom addlen => addlen ≤ intMax
  | range _ finish => -2147483648 ≤ finish ∧ finish < intMax
  | _ => True

end SdsOp

/-- A step of the bytes, which an `int` counts. -/
def BytesStep (content : Bytes) (op : SdsOp) (after : Bytes) : Prop :=
  op.Countable ∧ op.onBytes content = .ok after ∧ after.length ≤ intMax

def SdsStep (s : Sds) (op : SdsOp) (after : Sds) : Prop :=
  op.onSds s = .ok after

theorem represents_sdsempty : ∃ s, Sds.sdsempty = .ok s ∧ s.Represents [] :=
  Sds.represents_sdsnewlen le_rfl (by decide)

/-- The step lemma. -/
theorem represents_step {s : Sds} {content after : Bytes} {op : SdsOp}
    (represents : s.Represents content) (small : content.length ≤ intMax)
    (step : BytesStep content op after) : ∃ t, SdsStep s op t ∧ t.Represents after := by
  obtain ⟨countable, stepped, bound⟩ := step
  have growable : ∀ {len : Nat} {memory : Bytes}, sdscatlen content memory len = .ok after →
      Growable (content.length + len) := by
    intro len memory appended
    rw [sdscatlen] at appended
    split at appended
    · rename_i inside
      cases appended
      rw [List.length_append, List.length_take_of_le inside] at bound
      exact growable_of_intMax (Nat.le_succ_of_le bound)
    · contradiction
  cases op with
  | makeRoom addlen =>
      cases stepped
      have roomy : Growable (content.length + addlen) := by
        change addlen ≤ intMax at countable
        rw [intMax] at small countable
        rw [Growable, sdsMaxPrealloc, uint64Size]
        omega
      obtain ⟨grown, grownOk, holds, _, terminator⟩ := represents.makeRoom roomy
      exact ⟨grown, grownOk, holds, terminator.trans represents.terminated⟩
  | cat memory len => exact represents.cat stepped (growable stepped)
  | format fmt args =>
      have position : toInt s.sdslen = content.length := by
        rw [Sds.sdslen, represents.len]
        exact toInt_eq small
      have formatted : sdscatfmtFrom content.length content fmt args = .ok after := by
        rw [← toInt_eq small]
        exact stepped
      obtain ⟨t, done, result⟩ := represents.catfmtFrom formatted rfl bound
      refine ⟨t, ?_, result⟩
      change Sds.sdscatfmtFrom (toInt s.sdslen) s fmt args = .ok t
      rw [position]
      exact done
  | feed maxbuf memory len =>
      have kept : ∃ idle, SdsOp.giveUp s maxbuf = .ok idle ∧ idle.Represents content := by
        rw [SdsOp.giveUp]
        split
        · rename_i idle
          have empty : content = [] := List.eq_nil_of_length_eq_zero (represents.len ▸ idle.1)
          exact empty ▸ represents_sdsempty
        · exact ⟨s, rfl, represents⟩
      obtain ⟨idle, idleOk, idleRepresents⟩ := kept
      obtain ⟨t, done, result⟩ := idleRepresents.cat stepped (growable stepped)
      refine ⟨t, ?_, result⟩
      change SdsOp.giveUp s maxbuf >>= _ = .ok t
      rw [idleOk, ok_bind]
      exact done
  | range start finish =>
      cases stepped
      exact represents.range small countable.1 countable.2
  | renew =>
      cases stepped
      exact represents_sdsempty

/-- Along every run of operations on the bytes of a string, as long as an `int` counts
them, the string in memory goes through the same operations: no access leaves the
block, no field of the header is cut off, and the block holds the bytes and their
terminator. -/
theorem sds_simulates {s : Sds} {content last : Bytes} {visits : List (Visit Bytes SdsOp)}
    (represents : s.Represents content) (small : content.length ≤ intMax)
    (run : Run BytesStep content visits last) :
    ∃ others final, Run SdsStep s others final ∧
      others.map Visit.label = visits.map Visit.label ∧ final.Represents last := by
  have simulated := run.simulate (fun content (s : Sds) => s.Represents content ∧
    content.length ≤ intMax) ⟨represents, small⟩ fun visit _ before related step => by
      obtain ⟨after, stepped, result⟩ := represents_step related.1 related.2 step
      exact ⟨after, stepped, result, step.2.2⟩
  obtain ⟨others, final, otherRun, labels, result, _⟩ := simulated
  exact ⟨others, final, otherRun, labels, result⟩

/-- Three bytes are appended to an empty string, and the first one is cut off. -/
theorem sds_simulates_range : ∃ s others final, Sds.sdsempty = .ok s ∧
    Run SdsStep s others final ∧ final.Represents [0x62, 0x63] := by
  obtain ⟨s, created, represents⟩ := represents_sdsempty
  have appended : BytesStep [] (.cat [0x61, 0x62, 0x63] 3) [0x61, 0x62, 0x63] :=
    ⟨trivial, rfl, by decide⟩
  have cut : BytesStep [0x61, 0x62, 0x63] (.range 1 (-1)) [0x62, 0x63] :=
    ⟨⟨by decide, by decide⟩, rfl, by decide⟩
  obtain ⟨others, final, otherRun, _, result⟩ :=
    sds_simulates represents (Nat.zero_le _) (.cons appended (.single cut))
  exact ⟨s, others, final, created, otherRun, result⟩

end MCRedis.Hiredis
