import MCRedis.Hiredis.Pipelining

/-!
# Failed calls

A connection whose other end need not be a server: it takes bytes and writes
bytes as it likes, so that a call may also come upon a protocol error.  A blocking
call that fails sets an error in the context, except when a signal interrupts its
last call of `send`.
-/

namespace MCRedis.Hiredis

open MCRedis.Client
open MCRedis.Transition

/-- A step of the client, or anything that the other end does with the bytes on the
way. -/
inductive PeerStep : Wire → Option WireLabel → Wire → Prop
  | step {w after : Wire} {label : WireLabel} : WireStep w label after →
      PeerStep w (some label) after
  | peer {w : Wire} (upstream downstream : Bytes) :
      PeerStep w none { w with upstream := upstream, downstream := downstream }

/-- A call of `send` that a signal interrupts. -/
def Interrupted (c : RedisContext) : SendAnswer → Prop
  | .sent _ => False
  | .failed error => c.err = 0 ∧ c.obuf ≠ [] ∧ error.errno = .eintr

/-- A part of a call that a signal interrupts while it writes. -/
def InterruptedCall (c : RedisContext) : WireLabel → Prop
  | .write answer => Interrupted c answer
  | _ => False

/-! ## Parts of a call -/

/-- What the parts of a call keep of the context. -/
structure Keeps (c after : RedisContext) : Prop where
  block : after.block = c.block
  obuf : after.obuf.length ≤ c.obuf.length

theorem Keeps.refl (c : RedisContext) : Keeps c c :=
  ⟨rfl, Nat.le_refl _⟩

/-- What a part of a call comes to in any context. -/
inductive Part (c : RedisContext) (interrupted : Prop) : GetReply × RedisContext → Prop
  | writing {after : RedisContext} : Keeps c after → Part c interrupted (.writing, after)
  | reading {after : RedisContext} : Keeps c after → Part c interrupted (.reading, after)
  | replied {after : RedisContext} {rawReply : Nat} : Keeps c after →
      Part c interrupted (.returned .ok (some rawReply), after)
  | failed {after : RedisContext} : Keeps c after → (after.err = 0 ↔ interrupted) →
      Part c interrupted (.returned .err none, after)

/-- A reader that fails has an error. -/
theorem err_of_redisReaderGetReply {r after : RedisReader} {reply : Option Nat}
    (called : redisReaderGetReply r = .ok (.err, reply, after)) : after.err ≠ 0 := by
  rw [redisReaderGetReply] at called
  split at called
  case isTrue failed =>
    cases called
    exact failed
  case isFalse =>
    split at called
    case isTrue => cases called
    case isFalse =>
      obtain ⟨r, -, called⟩ := except_bind_ok called
      dsimp only at called
      split at called
      case isTrue failed =>
        cases called
        exact failed
      case isFalse => split at called <;> cases called

/-- A reader that takes no bytes has an error. -/
theorem err_of_redisReaderFeed (r : RedisReader) (buf : Bytes)
    (refused : (redisReaderFeed r buf).1 = .err) : (redisReaderFeed r buf).2.err ≠ 0 := by
  rw [redisReaderFeed] at refused ⊢
  by_cases failed : r.err ≠ 0
  · rw [if_pos failed]
    exact failed
  · rw [if_neg failed] at refused
    split at refused <;> contradiction

theorem keeps_redisGetReplyFromReader {c after : RedisContext} {status : Status}
    {reply : Option Nat} (called : redisGetReplyFromReader c = .ok (status, reply, after)) :
    Keeps c after ∧ (status = .err → after.err ≠ 0) := by
  obtain ⟨⟨read, aux, reader⟩, readerCalled, called⟩ := except_bind_ok called
  cases read with
  | err =>
      cases called
      exact ⟨⟨rfl, Nat.le_refl _⟩, fun _ => err_of_redisReaderGetReply readerCalled⟩
  | ok =>
      cases called
      exact ⟨⟨rfl, Nat.le_refl _⟩, fun failed => Status.noConfusion failed⟩

theorem part_redisGetReply {c : RedisContext} (block : c.block = true)
    {result : GetReply × RedisContext} (called : redisGetReply c = .ok result) :
    Part c False result := by
  obtain ⟨⟨status, aux, after⟩, fromReader, called⟩ := except_bind_ok called
  obtain ⟨keeps, failed⟩ := keeps_redisGetReplyFromReader fromReader
  cases status with
  | err =>
      cases called
      exact .failed keeps (iff_of_false (failed rfl) id)
  | ok =>
      cases aux with
      | none =>
          have waits : (Except.ok (GetReply.writing, after) : Except Fault _) = .ok result := by
            rw [← called]
            exact (if_pos ⟨rfl, keeps.block.trans block⟩).symm
          cases waits
          exact .writing keeps
      | some rawReply =>
          have given : (Except.ok (GetReply.returned .ok (some rawReply), after) :
              Except Fault _) = .ok result := by
            rw [← called]
            exact (if_neg fun both => by cases both.1).symm
          cases given
          exact .replied keeps

/-- A round of writing fails without an error only when a signal interrupts it. -/
theorem part_writeRound {c : RedisContext} (block : c.block = true)
    (small : c.obuf.length ≤ intMax) {answer : SendAnswer} (sendable : Sendable c answer) :
    Part c (Interrupted c answer) (writeRound c answer) := by
  by_cases err : c.err = 0
  case neg =>
    have stopped : writeRound c answer = (.returned .err none, c) := by
      rw [writeRound, redisBufferWrite, if_pos err]
    rw [stopped]
    refine .failed (.refl c) (iff_of_false err ?_)
    cases answer with
    | sent count => exact id
    | failed error => exact fun interrupted => err interrupted.1
  by_cases empty : c.obuf = []
  case pos =>
    have done : writeRound c answer = (.reading, c) := by
      rw [writeRound, redisBufferWrite, if_neg (not_not.mpr err), empty]
      rfl
    rw [done]
    exact .reading (.refl c)
  case neg =>
    cases answer with
    | sent count =>
        have keeps : Keeps c { c with obuf := c.obuf.drop count } :=
          ⟨rfl, List.length_drop.trans_le (Nat.sub_le _ _)⟩
        rw [writeRound, redisBufferWrite_sent err empty sendable small]
        dsimp only
        split
        · exact .reading keeps
        · exact .writing keeps
    | failed error =>
        rw [writeRound, redisBufferWrite_failed err empty error]
        dsimp only
        by_cases again : c.retries error
        case pos =>
          rw [if_pos again]
          refine .failed (.refl c) (iff_of_true err ⟨err, empty, ?_⟩)
          rw [RedisContext.retries, block] at again
          simpa using again
        case neg =>
          rw [if_neg again]
          refine .failed ⟨rfl, Nat.le_refl _⟩ (iff_of_false (by decide : redisErrIO ≠ 0) ?_)
          rintro ⟨-, -, eintr⟩
          exact again (decide_eq_true (.inr eintr))

theorem part_readRest {c : RedisContext} {result : GetReply × RedisContext}
    (called : readRest c = .ok result) : Part c False result := by
  obtain ⟨⟨status, aux, after⟩, fromReader, called⟩ := except_bind_ok called
  obtain ⟨keeps, failed⟩ := keeps_redisGetReplyFromReader fromReader
  cases status with
  | err =>
      cases called
      exact .failed keeps (iff_of_false (failed rfl) id)
  | ok =>
      cases aux with
      | none =>
          cases called
          exact .reading keeps
      | some rawReply =>
          cases called
          exact .replied keeps

/-- A read that fails leaves an error. -/
theorem keeps_redisBufferRead (c : RedisContext) (answer : RecvAnswer) :
    Keeps c (redisBufferRead c answer).2 ∧
      ((redisBufferRead c answer).1 = .err → (redisBufferRead c answer).2.err ≠ 0) := by
  by_cases err : c.err = 0
  case neg =>
    rw [redisBufferRead, if_pos err]
    exact ⟨.refl c, fun _ => err⟩
  cases answer with
  | failed error =>
      rw [redisBufferRead_failed err]
      split
      · exact ⟨.refl c, fun failed => Status.noConfusion failed⟩
      · exact ⟨⟨rfl, Nat.le_refl _⟩, fun _ => (by decide : redisErrIO ≠ 0)⟩
  | received chunk =>
      cases chunk with
      | nil =>
          rw [redisBufferRead_closed err]
          exact ⟨⟨rfl, Nat.le_refl _⟩, fun _ => (by decide : redisErrEof ≠ 0)⟩
      | cons byte chunk =>
          have positive : ((byte :: chunk).length : Int) > 0 := Int.natCast_pos.mpr (Nat.succ_pos _)
          have refused := err_of_redisReaderFeed c.reader (byte :: chunk)
          rw [redisBufferRead, if_neg (not_not.mpr err), redisNetRead]
          dsimp only
          rw [if_pos positive]
          generalize redisReaderFeed c.reader (byte :: chunk) = fed at refused ⊢
          obtain ⟨status, reader⟩ := fed
          cases status with
          | err => exact ⟨⟨rfl, Nat.le_refl _⟩, fun _ => refused rfl⟩
          | ok => exact ⟨⟨rfl, Nat.le_refl _⟩, fun failed => Status.noConfusion failed⟩

theorem part_readRound {c : RedisContext} {answer : RecvAnswer} {result : GetReply × RedisContext}
    (called : readRound c answer = .ok result) : Part c False result := by
  obtain ⟨keeps, failed⟩ := keeps_redisBufferRead c answer
  rw [readRound] at called
  generalize redisBufferRead c answer = read at keeps failed called
  obtain ⟨status, middle⟩ := read
  cases status with
  | err =>
      cases called
      exact .failed keeps (iff_of_false (failed rfl) id)
  | ok =>
      have between (after : RedisContext) (rest : Keeps middle after) : Keeps c after :=
        ⟨rest.block.trans keeps.block, Nat.le_trans rest.obuf keeps.obuf⟩
      cases part_readRest called with
      | writing rest => exact .writing (between _ rest)
      | reading rest => exact .reading (between _ rest)
      | replied rest => exact .replied (between _ rest)
      | failed rest set => exact .failed (between _ rest) set

/-! ## Runs -/

/-- What holds of a client whatever the other end does. -/
structure Blocking (w : Wire) : Prop where
  block : w.client.block = true
  small : w.client.obuf.length ≤ intMax

theorem blocking_opened : Blocking .opened :=
  ⟨rfl, Nat.zero_le _⟩

/-- What the end of a part of a call makes of the connection. -/
theorem Part.proceed {w before after : Wire} {interrupted : Prop}
    {result : GetReply × RedisContext} (part : Part w.client interrupted result)
    (blocking : Blocking w) (run : before.proceed result = .ok after)
    (received : before.received = w.received) :
    Blocking after ∧ (after.phase = .idle → after.received = w.received →
      (after.client.err = 0 ↔ interrupted)) := by
  have keeps {c : RedisContext} (kept : Keeps w.client c) :
      c.block = true ∧ c.obuf.length ≤ intMax :=
    ⟨kept.block.trans blocking.block, Nat.le_trans kept.obuf blocking.small⟩
  cases part with
  | writing kept =>
      cases run
      exact ⟨⟨(keeps kept).1, (keeps kept).2⟩, fun idle => by cases idle⟩
  | reading kept =>
      cases run
      exact ⟨⟨(keeps kept).1, (keeps kept).2⟩, fun idle => by cases idle⟩
  | replied kept =>
      obtain ⟨taken, -, run⟩ := except_bind_ok run
      cases run
      refine ⟨⟨(keeps kept).1, (keeps kept).2⟩, fun _ same => ?_⟩
      rw [← received] at same
      exact absurd same (by simp)
  | failed kept set =>
      cases run
      exact ⟨⟨(keeps kept).1, (keeps kept).2⟩, fun _ _ => set⟩

/-- The parts of a call in a connection. -/
theorem Blocking.part {w after : Wire} {label : WireLabel} (blocking : Blocking w)
    (step : WireStep w label after) (call : PartOfCall label) :
    Blocking after ∧ (after.phase = .idle → after.received = w.received →
      (after.client.err = 0 ↔ InterruptedCall w.client label)) := by
  cases step with
  | append => exact absurd call id
  | getReply idle run =>
      obtain ⟨result, called, run⟩ := except_bind_ok run
      exact (part_redisGetReply blocking.block called).proceed blocking run rfl
  | write writing sendable run =>
      have part := part_writeRound blocking.block blocking.small sendable
      exact part.proceed blocking run rfl
  | read reading arrives fits run =>
      obtain ⟨result, called, run⟩ := except_bind_ok run
      exact (part_readRound called).proceed blocking run rfl
  | serve => exact absurd call id

theorem Blocking.step {w after : Wire} {label : Option WireLabel} (blocking : Blocking w)
    (step : PeerStep w label after) : Blocking after := by
  cases step with
  | peer => exact ⟨blocking.block, blocking.small⟩
  | step step =>
      cases step with
      | append idle fits appended =>
          rw [redisAppendCommandArgv_encode _ (arguments_lengths _) (by omega), Except.ok.injEq,
            Prod.mk.injEq] at appended
          obtain ⟨-, rfl⟩ := appended
          exact ⟨blocking.block, List.length_append.trans_le fits⟩
      | getReply idle run => exact (blocking.part (.getReply idle run) trivial).1
      | write writing sendable run =>
          exact (blocking.part (.write writing sendable run) trivial).1
      | read reading arrives fits run =>
          exact (blocking.part (.read reading arrives fits run) trivial).1
      | serve => exact ⟨blocking.block, blocking.small⟩

/-- A call that ends without a reply has set an error in the context, except when its
last call of `send` was interrupted by a signal: then there is none. -/
theorem failed_call_err_iff {visits : List (Visit Wire (Option WireLabel))} {w after : Wire}
    {label : WireLabel} (run : Run PeerStep .opened visits w) (step : WireStep w label after)
    (call : PartOfCall label) (ended : after.phase = .idle)
    (nothing : after.received = w.received) :
    after.client.err = 0 ↔ InterruptedCall w.client label := by
  have blocking := (run.invariant Blocking blocking_opened fun _ _ step holds =>
    holds.step step).1
  exact (blocking.part step call).2 ended nothing

/-- A `send` that a signal interrupts ends the call and sets no error. -/
theorem failed_call_err_interrupted :
    { asking with phase := .idle }.client.err = 0 ↔
      InterruptedCall asking.client (.write (.failed ⟨.eintr, []⟩)) := by
  obtain ⟨visits, run⟩ := run_asking
  obtain ⟨visits, peerRun⟩ := run.map some fun _ _ _ => PeerStep.step
  have step : WireStep asking (.write (.failed ⟨.eintr, []⟩)) { asking with phase := .idle } :=
    .write rfl trivial rfl
  exact @failed_call_err_iff _ _ { asking with phase := .idle } _ peerRun step trivial rfl rfl

end MCRedis.Hiredis
