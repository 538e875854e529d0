import MCRedis.Hiredis.Steps

/-!
# Calls of the reader

What `redisReaderFeed` and `redisReaderGetReply` do to a reader that stands
somewhere in a stream.  Feeding appends to the unread bytes.  A call for a reply
goes on with the parser where the reader stands: it hands out the reply that the
parser gives, asks for more bytes exactly when the parser does, and fails with
the message of the parser.
-/

namespace MCRedis.Hiredis

open MCRedis.Client
open MCRedis.Parsing

/-! ## Where a reader stands -/

theorem stable_finish (levels : List Level) (found : RedisReply) :
    Parser.Stable (finish levels found) := by
  induction levels generalizing found with
  | nil => exact .pure found
  | cons level levels ih => exact ((stable_reply _).times _).bind fun others => ih _

theorem stable_resume (pending : Option ReplyType) (levels : List Level) :
    Parser.Stable (resume pending levels) := by
  cases pending with
  | none =>
      rw [resume_none]
      exact (stable_reply _).bind (stable_finish levels)
  | some type => exact (stable_item _ type).bind (stable_finish levels)

/-- A reader between two calls, at an item inside some levels of arrays; without
any byte of the item it waits. -/
structure Ready (r : RedisReader) (old : Heap) (levels : List Level)
    (pending : Option ReplyType) : Prop where
  holds : Holds (startRoot r) old levels pending
  waits : resume pending levels [] = .more

theorem startRoot_of_ne {r : RedisReader} (nonempty : r.rstack ≠ []) : startRoot r = r :=
  if_neg nonempty

/-- What holds of a reader with a task holds of it when the task is to be started. -/
theorem unread_startRoot (r : RedisReader) : unread (startRoot r) = unread r := by
  rw [startRoot]
  split <;> rfl

theorem Ready.buffered {r : RedisReader} {old : Heap} {levels : List Level}
    {pending : Option ReplyType} (ready : Ready r old levels pending) : Buffered r := by
  have buffered := ready.holds.buffered
  rw [startRoot] at buffered
  split at buffered
  · exact ⟨buffered.len, buffered.pos, buffered.small⟩
  · exact buffered

theorem Ready.err {r : RedisReader} {old : Heap} {levels : List Level}
    {pending : Option ReplyType} (ready : Ready r old levels pending) : r.err = 0 := by
  have err := ready.holds.err
  rw [startRoot] at err
  split at err <;> exact err

/-- A new reader stands before a reply. -/
theorem ready_redisReaderCreate (objects : Heap) :
    Ready (redisReaderCreate objects) objects [] none where
  holds := {
    buffered := ⟨rfl, Nat.le_refl _, Nat.zero_le _⟩
    err := rfl
    objects := (List.append_nil _).symm
    rstack := ⟨_, rfl, rfl, rfl⟩
    reply := rfl
    depth := Nat.zero_le _
    waiting := List.forall_mem_nil _ }
  waits := rfl

/-! ## Feeding -/

/-- Bytes that are fed are unread; the buffer must stay countable. -/
theorem Ready.feed {r : RedisReader} {old : Heap} {levels : List Level}
    {pending : Option ReplyType} (ready : Ready r old levels pending) {chunk : Bytes}
    (fits : r.buf.length + chunk.length ≤ intMax) :
    (redisReaderFeed r chunk).1 = .ok ∧ Ready (redisReaderFeed r chunk).2 old levels pending ∧
      unread (redisReaderFeed r chunk).2 = unread r ++ chunk := by
  have buffered := ready.buffered
  have position := buffered.pos
  rw [redisReaderFeed, if_neg (not_not.mpr ready.err)]
  split
  case isTrue some_ =>
    have inside : Buffered { r with buf := r.buf ++ chunk, len := (r.buf ++ chunk).length } := by
      refine ⟨rfl, ?_, ?_⟩
      · change r.pos ≤ (r.buf ++ chunk).length
        rw [List.length_append]
        omega
      · change (r.buf ++ chunk).length ≤ intMax
        rw [List.length_append]
        exact fits
    refine ⟨rfl, ⟨?_, ready.waits⟩, ?_⟩
    · have holds := ready.holds
      rw [startRoot] at holds ⊢
      split at holds
      case isTrue empty =>
        rw [if_pos empty]
        exact { holds with buffered := ⟨inside.len, inside.pos, inside.small⟩ }
      case isFalse nonempty =>
        rw [if_neg nonempty]
        exact { holds with buffered := inside }
    · exact List.drop_append_of_le_length position
  case isFalse none_ =>
    have empty : chunk = [] := List.length_eq_zero_iff.mp (by omega)
    subst empty
    exact ⟨rfl, ready, (List.append_nil _).symm⟩

/-! ## Asking for a reply -/

/-- The answers to a call for a reply, beside the parser that stands where the
reader stood. -/
inductive Delivered (r : RedisReader) (old : Heap) (parser : WireParser RedisReply) :
    Except Fault (Status × Option Nat × RedisReader) → Prop
  | reply {after : RedisReader} {root : RedisReply} :
      after.objects = old ++ (layout old.length root).map some →
      Ready after after.objects [] none →
      (∀ later, parser (unread r ++ later) = .done root (unread after ++ later)) →
      Delivered r old parser (.ok (.ok, some old.length, after))
  | nothing {after : RedisReader} {levels : List Level} {pending : Option ReplyType} :
      Ready after old levels pending →
      (∀ later, parser (unread r ++ later) = resume pending levels (unread after ++ later)) →
      parser (unread r) = .more → Delivered r old parser (.ok (.ok, none, after))
  | rejected {after : RedisReader} {message : Bytes} : Failed after old message →
      (∀ later, parser (unread r ++ later) = .bad (.protocol message)) →
      Delivered r old parser (.ok (.err, none, after))
  | faulted {fault : Fault} :
      (∀ later, parser (unread r ++ later) = .bad (.fault fault)) →
      Delivered r old parser (.error fault)

theorem sdsrange_eq_drop {s : Bytes} {pos : Nat} (inside : pos ≤ s.length)
    (small : s.length ≤ intMax) : sdsrange s (toInt pos) (-1) = s.drop pos := by
  have start : toInt pos = pos := toInt_eq (Nat.le_trans inside small)
  have len : toInt s.length = s.length := toInt_eq small
  rw [sdsrange, start, len]
  by_cases empty : s.length = 0
  · rw [if_pos empty, List.length_eq_zero_iff.mp empty, List.drop_nil]
  have cast : (s.length : Int) + -1 = ((s.length - 1 : Nat) : Int) := by omega
  have last : toInt (s.length + -1) = ((s.length - 1 : Nat) : Int) := by
    rw [cast, toInt_eq (Nat.le_trans (Nat.sub_le _ 1) small)]
  rw [if_neg empty]
  simp only [last]
  rw [if_neg (by omega : ¬ (pos : Int) < 0), if_pos (by decide : (-1 : Int) < 0),
    max_eq_left (by omega)]
  by_cases all : pos = s.length
  · rw [if_pos (by omega), all, List.drop_length]
  · rw [if_neg (by omega), if_neg (by omega), if_neg (by omega : ¬ _ ≥ (s.length : Int)),
      if_neg (by omega), Int.toNat_natCast]
    apply List.take_of_length_le
    rw [List.length_drop]
    omega

/-- Discarding what has been consumed changes neither the unread bytes nor where
the reader stands. -/
theorem discardConsumed_eq {r : RedisReader} (buffered : Buffered r) :
    Buffered (discardConsumed r) ∧ unread (discardConsumed r) = unread r ∧
      (discardConsumed r).err = r.err ∧ (discardConsumed r).rstack = r.rstack ∧
        (discardConsumed r).reply = r.reply ∧ (discardConsumed r).objects = r.objects := by
  rw [discardConsumed]
  split
  case isTrue large =>
    refine ⟨⟨rfl, Nat.zero_le _, ?_⟩, ?_, rfl, rfl, rfl, rfl⟩
    · change (sdsrange r.buf (toInt r.pos) (-1)).length ≤ intMax
      rw [sdsrange_eq_drop buffered.pos buffered.small, List.length_drop]
      exact Nat.le_trans (Nat.sub_le _ _) buffered.small
    · exact sdsrange_eq_drop buffered.pos buffered.small
  case isFalse => exact ⟨buffered, rfl, rfl, rfl, rfl, rfl⟩

/-- What the loop over the items comes to. -/
inductive Processed (r : RedisReader) (old : Heap) (parser : WireParser RedisReply) :
    Except Fault RedisReader → Prop
  | complete {after : RedisReader} {root : RedisReply} : Completed after old root →
      (∀ later, parser (unread r ++ later) = .done root (unread after ++ later)) →
      Processed r old parser (.ok after)
  | starved {after : RedisReader} {levels : List Level} {pending : Option ReplyType} :
      Holds after old levels pending →
      (∀ later, parser (unread r ++ later) = resume pending levels (unread after ++ later)) →
      resume pending levels (unread after) = .more → Processed r old parser (.ok after)
  | rejected {after : RedisReader} {message : Bytes} : Failed after old message →
      (∀ later, parser (unread r ++ later) = .bad (.protocol message)) →
      Processed r old parser (.ok after)
  | faulted {fault : Fault} :
      (∀ later, parser (unread r ++ later) = .bad (.fault fault)) →
      Processed r old parser (.error fault)

/-- The loop goes through the items until the parser is through or stuck. -/
theorem processed_processItems {r : RedisReader} {old : Heap} {levels : List Level}
    {pending : Option ReplyType} (holds : Holds r old levels pending) {fuel : Nat}
    (enough : (unread r).length < fuel) :
    Processed r old (resume pending levels) (processItems fuel r) := by
  induction fuel generalizing r levels pending with
  | zero => contradiction
  | succ fuel ih =>
      have nonempty : r.rstack ≠ [] := by
        obtain ⟨top, rstack, -⟩ := holds.rstack
        rw [rstack]
        exact List.cons_ne_nil _ _
      have stepped := stepped_processItem holds
      rw [processItems, if_neg nonempty]
      generalize processItem r = result at stepped
      cases stepped with
      | @next after rest after_holds parsed shorter =>
          have rest := ih after_holds (by omega)
          rw [ok_bind]
          simp only []
          generalize processItems fuel after = final at rest
          cases rest with
          | complete completed later =>
              exact .complete completed fun _ => (parsed _).trans (later _)
          | starved holds later starved =>
              exact .starved holds (fun _ => (parsed _).trans (later _)) starved
          | rejected failed later => exact .rejected failed fun _ => (parsed _).trans (later _)
          | faulted later => exact .faulted fun _ => (parsed _).trans (later _)
      | @complete after root completed parsed shorter =>
          have ended : processItems fuel after = .ok after := by
            cases fuel with
            | zero => rfl
            | succ fuel => rw [processItems, if_pos completed.rstack]; rfl
          rw [ok_bind]
          simp only [ended]
          exact .complete completed parsed
      | starved after_holds parsed starved => exact .starved after_holds parsed starved
      | rejected failed parsed => exact .rejected failed parsed
      | faulted parsed => exact .faulted parsed

/-- A call for a reply gives what the parser gives. -/
theorem delivered_redisReaderGetReply {r : RedisReader} {old : Heap} {levels : List Level}
    {pending : Option ReplyType} (ready : Ready r old levels pending) :
    Delivered r old (resume pending levels) (redisReaderGetReply r) := by
  have buffered := ready.buffered
  rw [redisReaderGetReply, if_neg (not_not.mpr ready.err)]
  by_cases none_ : r.len = 0
  · have empty : unread r = [] := by
      apply List.eq_nil_of_length_eq_zero
      have := buffered.length_unread
      have := buffered.len
      omega
    rw [if_pos none_]
    refine .nothing ready (fun _ => rfl) ?_
    rw [empty]
    exact ready.waits
  · have enough : (unread (startRoot r)).length < r.buf.length + 1 := by
      have := buffered.length_unread
      rw [unread_startRoot]
      omega
    have processed := processed_processItems ready.holds enough
    rw [if_neg none_]
    generalize processItems (r.buf.length + 1) (startRoot r) = result at processed
    cases processed with
    | @complete after root completed parsed =>
        obtain ⟨kept, rest, err, rstack, reply, objects⟩ := discardConsumed_eq completed.buffered
        rw [ok_bind, if_neg (not_not.mpr completed.err)]
        simp only [rstack, completed.rstack, if_true, reply, completed.reply]
        refine .reply (objects.trans completed.objects) ⟨?_, rfl⟩ fun later => ?_
        · exact {
            buffered := ⟨kept.len, kept.pos, kept.small⟩
            err := err.trans completed.err
            objects := (List.append_nil _).symm
            rstack := ⟨_, rfl, rfl, rfl⟩
            reply := rfl
            depth := Nat.zero_le _
            waiting := List.forall_mem_nil _ }
        · rw [unread_startRoot] at parsed
          rw [parsed later, ← rest]
          rfl
    | @starved after rest pending' holds parsed starved =>
        obtain ⟨kept, same, err, rstack, reply, objects⟩ := discardConsumed_eq holds.buffered
        obtain ⟨top, tasks, type, idx⟩ := holds.rstack
        have nonempty : (discardConsumed after).rstack ≠ [] := by
          rw [rstack, tasks]
          exact List.cons_ne_nil _ _
        rw [unread_startRoot] at parsed
        rw [ok_bind, if_neg (not_not.mpr holds.err)]
        simp only [if_neg nonempty]
        have waits : resume pending' rest [] = .more := by
          cases alone : resume pending' rest [] with
          | more => rfl
          | done found left =>
              have := (stable_resume pending' rest).done alone (unread after)
              rw [List.nil_append, starved] at this
              contradiction
          | bad error =>
              have := (stable_resume pending' rest).bad alone (unread after)
              rw [List.nil_append, starved] at this
              contradiction
        have standing : Holds (startRoot (discardConsumed after)) old rest pending' := by
          rw [startRoot_of_ne nonempty]
          exact {
            buffered := kept
            err := err.trans holds.err
            objects := objects.trans holds.objects
            rstack := ⟨top, rstack.trans tasks, type, idx⟩
            reply := reply.trans holds.reply
            depth := holds.depth
            waiting := holds.waiting }
        refine .nothing ⟨standing, waits⟩ (fun later => ?_) ?_
        · rw [same]
          exact parsed later
        · have now := parsed []
          rw [List.append_nil, List.append_nil] at now
          exact now.trans starved
    | @rejected after message failed parsed =>
        rw [unread_startRoot] at parsed
        rw [ok_bind, if_pos (by rw [failed.err]; decide)]
        exact .rejected failed parsed
    | faulted parsed =>
        rw [unread_startRoot] at parsed
        exact .faulted parsed

end MCRedis.Hiredis
