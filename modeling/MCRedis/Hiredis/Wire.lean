import MCRedis.Hiredis.Context
import MCRedis.Transition.Run

/-!
# A connection in use

A client, a server and the bytes between them.  The client appends commands and
asks for replies; every socket call moves some bytes or fails, in any order with
what the server does.  The server takes the commands off its stream one by one
and writes a reply to each; nothing else is asked of it.

The buffers of the client stay countable for an `int`, and allocations succeed, so
that every command is appended.
-/

namespace MCRedis.Hiredis

open MCRedis.Client
open MCRedis.Parsing
open MCRedis.Transition

/-- Where the client is: between two calls, or in a loop of `redisGetReply`. -/
inductive Phase
  | idle
  | writing
  | reading
  deriving DecidableEq, Repr

/-- A connection: the client, the commands appended to it and the replies it handed
out; the bytes on the way to the server, the commands that the server answered
with their replies, and the bytes on the way back. -/
structure Wire where
  client : RedisContext
  phase : Phase
  sent : List (List Bytes)
  received : List CReply
  upstream : Bytes
  served : List (List Bytes × RedisReply)
  downstream : Bytes

namespace Wire

/-- A connection that has just been established. -/
def opened : Wire where
  client := redisContextInit true
  phase := .idle
  sent := []
  received := []
  upstream := []
  served := []
  downstream := []

/-- The client after a part of a call; a reply that is returned is copied and
freed. -/
def proceed (w : Wire) : GetReply × RedisContext → Except Fault Wire
  | (.writing, c) => .ok { w with client := c, phase := .writing }
  | (.reading, c) => .ok { w with client := c, phase := .reading }
  | (.returned .ok (some rawReply), c) => do
      let (rpy, reader) ← takeReply c.reader rawReply
      pure { w with
        client := { c with reader := reader }, phase := .idle, received := w.received ++ [rpy] }
  | (.returned _ _, c) => .ok { w with client := c, phase := .idle }

end Wire

/-- `send` takes no more bytes than it is given. -/
def Sendable (c : RedisContext) : SendAnswer → Prop
  | .sent count => count ≤ c.obuf.length
  | .failed _ => True

/-- The bytes that `send` puts on the way; it is not called after an error. -/
def sentBytes (c : RedisContext) : SendAnswer → Bytes
  | .sent count => if c.err = 0 then c.obuf.take count else []
  | .failed _ => []

/-- What `recv` can answer with some bytes on the way, and the bytes that it leaves:
the next ones arrive, or the stream is closed, or the call fails. -/
inductive Arrives : Bytes → RecvAnswer → Bytes → Prop
  | bytes {chunk rest : Bytes} : chunk ≠ [] → chunk.length ≤ recvSize →
      Arrives (chunk ++ rest) (.received chunk) rest
  | closed {downstream : Bytes} : Arrives downstream (.received []) downstream
  | failed {downstream : Bytes} {error : SocketError} :
      Arrives downstream (.failed error) downstream

/-- The bytes that `recv` answers. -/
def receivedBytes : RecvAnswer → Bytes
  | .received chunk => chunk
  | .failed _ => []

inductive WireLabel
  | append (args : List Bytes)
  | getReply
  | write (answer : SendAnswer)
  | read (answer : RecvAnswer)
  | serve (args : List Bytes) (reply : RedisReply)

inductive WireStep : Wire → WireLabel → Wire → Prop
  | append {w : Wire} {args : List Bytes} {c : RedisContext} : w.phase = .idle →
      w.client.obuf.length + (encodeCommand args).length ≤ intMax →
      redisAppendCommandArgv w.client args.length args (some (args.map List.length)) =
        .ok (.ok, c) →
      WireStep w (.append args) { w with client := c, sent := w.sent ++ [args] }
  | getReply {w after : Wire} : w.phase = .idle →
      redisGetReply w.client >>= w.proceed = .ok after → WireStep w .getReply after
  | write {w after : Wire} {answer : SendAnswer} : w.phase = .writing →
      Sendable w.client answer →
      { w with upstream := w.upstream ++ sentBytes w.client answer }.proceed
        (writeRound w.client answer) = .ok after →
      WireStep w (.write answer) after
  | read {w after : Wire} {answer : RecvAnswer} {rest : Bytes} : w.phase = .reading →
      Arrives w.downstream answer rest →
      w.client.reader.buf.length + (receivedBytes answer).length ≤ intMax →
      readRound w.client answer >>= { w with downstream := rest }.proceed = .ok after →
      WireStep w (.read answer) after
  | serve {w : Wire} {args : List Bytes} {reply : RedisReply} {used rest : Bytes} :
      w.upstream = encodeCommand args ++ rest → Encodes levelsMax reply used →
      WireStep w (.serve args reply) { w with
        upstream := rest, served := w.served ++ [(args, reply)],
        downstream := w.downstream ++ used }

/-! ## The invariant -/

/-- What holds of a connection: the bytes that were fed to the reader, the replies
that it gave, the encodings of the replies of the server, and the commands that wait
for an answer. -/
structure Sound (w : Wire) (fed : Bytes) (got : List RedisReply) (parts : List Bytes)
    (pending : List (List Bytes)) : Prop where
  block : w.client.block = true
  reader : Reading fed got w.client.reader
  received : w.received = got.map CReply.ofRaw
  encoded : List.Forall₂ (Encodes levelsMax) (w.served.map Prod.snd) parts
  downstream : parts.flatten = fed ++ w.downstream
  order : w.sent = w.served.map Prod.fst ++ pending
  upstream : w.upstream ++ w.client.obuf = (pending.map encodeCommand).flatten
  small : w.client.obuf.length ≤ intMax
  waiting : w.phase ≠ .idle → replyStream fed = (got, .starved)
  flushed : w.phase = .reading → w.client.obuf = [] ∧ w.client.err = 0

theorem sound_opened : Sound .opened [] [] [] [] where
  block := rfl
  reader := reading_redisReaderCreate
  received := rfl
  encoded := .nil
  downstream := rfl
  order := rfl
  upstream := rfl
  small := Nat.zero_le _
  waiting := fun busy => absurd rfl busy
  flushed := fun busy => Phase.noConfusion busy

/-- The bytes that a server writes are no cause for an error. -/
theorem accepted {replies : List RedisReply} {parts : List Bytes}
    (encoded : List.Forall₂ (Encodes levelsMax) replies parts) {fed later : Bytes}
    (written : parts.flatten = fed ++ later) :
    (replyStream fed).1 <+: replies ∧ (replyStream fed).2 = .starved := by
  have whole := (exact_reply levelsMax).stream_flatten (progress_reply levelsMax) encoded []
  have stream : replyStream (fed ++ later) = (replies, .starved) := by
    rw [replyStream, ← written, ← List.append_nil (List.flatten _), whole]
    exact congrArg (·, _) (List.append_nil _)
  obtain ⟨front, same⟩ := (stable_reply levelsMax).stream_append (progress_reply levelsMax)
    fed later
  rw [← replyStream, ← replyStream, stream] at front
  refine ⟨front, ?_⟩
  cases ended : (replyStream fed).2 with
  | starved => rfl
  | rejected error =>
      have rejected := same error ended
      rw [← replyStream, ← replyStream, stream] at rejected
      rw [← rejected] at ended
      contradiction

/-! ## Handing out a reply -/

/-- What a reader that has been fed the bytes of a server gives. -/
inductive Handed (fed : Bytes) (got : List RedisReply) (c : RedisContext) :
    Except Fault (Status × Option Nat × RedisContext) → Prop
  | reply {root : RedisReply} {rawReply : Nat} {reader taken : RedisReader} :
      takeReply reader rawReply = .ok (CReply.ofRaw root, taken) →
      Reading fed (got ++ [root]) taken →
      Handed fed got c (.ok (.ok, some rawReply, { c with reader := reader }))
  | nothing {reader : RedisReader} : Reading fed got reader →
      replyStream fed = (got, .starved) →
      Handed fed got c (.ok (.ok, none, { c with reader := reader }))

/-- A reader that has not come to a rejection does not fault. -/
theorem Answered.not_faulted {fed : Bytes} {got : List RedisReply} {call : ReaderCall}
    {fault : Fault} (answered : Answered fed got call (.error fault)) :
    (replyStream fed).2 ≠ .starved := by
  cases answered with
  | faulted rejected =>
      have now := rejected []
      rw [List.append_nil] at now
      rw [now]
      exact fun equal => by contradiction

theorem handed {fed : Bytes} {got : List RedisReply} {c : RedisContext}
    (reading : Reading fed got c.reader) (accepted : (replyStream fed).2 = .starved) :
    Handed fed got c (redisGetReplyFromReader c) := by
  have answered := reading.getReply
  rw [readerCall] at answered
  rw [redisGetReplyFromReader]
  cases result : redisReaderGetReply c.reader with
  | error fault =>
      rw [result] at answered
      exact absurd accepted (Answered.not_faulted answered)
  | ok triple =>
      obtain ⟨status, reply, reader⟩ := triple
      rw [result, ok_bind] at answered
      rw [ok_bind]
      cases status with
      | err =>
          have failed : Answered fed got .getReply (.ok (.failed, reader)) := answered
          cases failed with
          | failed kept rejected =>
              rw [rejected] at accepted
              contradiction
      | ok =>
          cases reply with
          | none =>
              have nothing : Answered fed got .getReply (.ok (.nothing, reader)) := answered
              cases nothing with
              | nothing kept starved => exact .nothing kept starved
          | some rawReply =>
              have given : Answered fed got .getReply
                  (takeReply reader rawReply >>= fun taken => .ok (.reply taken.1, taken.2)) :=
                answered
              cases copied : takeReply reader rawReply with
              | error fault =>
                  rw [copied] at given
                  exact absurd accepted (Answered.not_faulted given)
              | ok pair =>
                  rw [copied, ok_bind] at given
                  obtain ⟨rpy, taken⟩ := pair
                  cases given with
                  | reply kept => exact .reply copied kept

/-- A reader that has not come to a rejection takes more bytes. -/
theorem Reading.takes {fed : Bytes} {got : List RedisReply} {r : RedisReader}
    (reading : Reading fed got r) (accepted : (replyStream fed).2 = .starved) {chunk : Bytes}
    (fits : r.buf.length + chunk.length ≤ intMax) :
    (redisReaderFeed r chunk).1 = .ok ∧ Reading (fed ++ chunk) got (redisReaderFeed r chunk).2 := by
  have answered := reading.feed fits
  rw [readerCall] at answered
  cases reading with
  | inside ready ahead =>
      obtain ⟨status, -⟩ := ready.feed fits
      generalize redisReaderFeed r chunk = result at status answered
      cases answered with
      | fed kept => exact ⟨status, kept⟩
  | failed failed ahead =>
      have now := ahead []
      rw [List.append_nil] at now
      rw [now] at accepted
      contradiction

/-! ## Steps of the client -/

/-- What a part of a call comes to: a reply is handed out, or the call goes on, or it
fails, and then no error but one of the socket is set. -/
inductive Outcome (w : Wire) : Wire → Prop
  | replied {c : RedisContext} {rpy : CReply} {upstream downstream : Bytes} :
      c.err = w.client.err → c.errstr = w.client.errstr →
      Outcome w { w with
        client := c, phase := .idle, received := w.received ++ [rpy],
        upstream := upstream, downstream := downstream }
  | waits {c : RedisContext} {phase : Phase} {upstream downstream : Bytes} : phase ≠ .idle →
      c.err = w.client.err → c.errstr = w.client.errstr →
      Outcome w { w with
        client := c, phase := phase, upstream := upstream, downstream := downstream }
  | failed {c : RedisContext} {upstream downstream : Bytes} :
      c.err = w.client.err ∨ c.err = redisErrIO ∨ c.err = redisErrEof →
      Outcome w { w with
        client := c, phase := .idle, upstream := upstream, downstream := downstream }

section

variable {w : Wire} {fed : Bytes} {got : List RedisReply} {parts : List Bytes}
  {pending : List (List Bytes)}

theorem Sound.accepted (sound : Sound w fed got parts pending) : (replyStream fed).2 = .starved :=
  (MCRedis.Hiredis.accepted sound.encoded sound.downstream).2

theorem proceed_returned {c : RedisContext} {reader taken : RedisReader} {rawReply : Nat}
    {rpy : CReply} (copied : takeReply reader rawReply = .ok (rpy, taken)) :
    w.proceed (.returned .ok (some rawReply), { c with reader := reader }) =
      .ok { w with
        client := { c with reader := taken }, phase := .idle,
        received := w.received ++ [rpy] } := by
  simp only [Wire.proceed, copied, ok_bind]
  rfl

/-- The connection after a reply was handed out. -/
theorem Sound.replied (sound : Sound w fed got parts pending) {c : RedisContext} {root : RedisReply}
    {taken : RedisReader} (block : c.block = true) (obuf : c.obuf = w.client.obuf)
    (kept : Reading fed (got ++ [root]) taken) :
    Sound { w with
      client := { c with reader := taken }, phase := .idle,
      received := w.received ++ [CReply.ofRaw root] } fed (got ++ [root]) parts pending where
  block := block
  reader := kept
  received := by rw [sound.received, List.map_append]; rfl
  encoded := sound.encoded
  downstream := sound.downstream
  order := sound.order
  upstream := obuf ▸ sound.upstream
  small := obuf ▸ sound.small
  waiting := fun busy => absurd rfl busy
  flushed := fun busy => Phase.noConfusion busy

/-- The connection after an error on the socket. -/
theorem Sound.stopped (sound : Sound w fed got parts pending) (type : Int) (text : Bytes) :
    Sound { w with client := redisSetError w.client type text, phase := .idle }
      fed got parts pending :=
  { sound with
    waiting := fun busy => absurd rfl busy
    flushed := fun busy => Phase.noConfusion busy }

/-- A call for a reply hands one out, or begins to write. -/
theorem Sound.getReply (sound : Sound w fed got parts pending) :
    ∃ after new, redisGetReply w.client >>= w.proceed = .ok after ∧
      Sound after fed new parts pending ∧ Outcome w after := by
  have result := handed sound.reader sound.accepted
  rw [redisGetReply]
  generalize redisGetReplyFromReader w.client = outcome at result
  cases result with
  | reply copied kept =>
      refine ⟨_, _, ?_, sound.replied sound.block rfl kept, .replied rfl rfl⟩
      rw [ok_bind]
      exact proceed_returned copied
  | @nothing reader kept starved =>
      refine ⟨{ w with client := { w.client with reader := reader }, phase := .writing }, got,
        ?_, ?_, .waits (by decide) rfl rfl⟩
      · rw [ok_bind]
        simp only [sound.block, and_self, if_true]
        rfl
      · exact { sound with
          reader := kept
          waiting := fun _ => starved
          flushed := fun busy => Phase.noConfusion busy }

/-- A round of writing moves what `send` takes from the buffer to the wire. -/
theorem Sound.write (sound : Sound w fed got parts pending) (writing : w.phase = .writing)
    {answer : SendAnswer} (sendable : Sendable w.client answer) :
    ∃ after, { w with upstream := w.upstream ++ sentBytes w.client answer }.proceed
        (writeRound w.client answer) = .ok after ∧ Sound after fed got parts pending ∧
          Outcome w after := by
  have starved := sound.waiting (by rw [writing]; decide)
  by_cases err : w.client.err = 0
  case neg =>
    have none_ : sentBytes w.client answer = [] := by
      cases answer with
      | sent count => exact if_neg err
      | failed error => rfl
    have stopped : writeRound w.client answer = (.returned .err none, w.client) := by
      rw [writeRound, redisBufferWrite, if_pos err]
    rw [stopped, none_, List.append_nil]
    exact ⟨_, rfl, { sound with
      waiting := fun _ => starved
      flushed := fun busy => Phase.noConfusion busy },
      .failed (.inl rfl)⟩
  by_cases empty : w.client.obuf = []
  case pos =>
    have none_ : sentBytes w.client answer = [] := by
      cases answer with
      | sent count => rw [sentBytes, if_pos err, empty, List.take_nil]
      | failed error => rfl
    have done : writeRound w.client answer = (.reading, w.client) := by
      rw [writeRound, redisBufferWrite, if_neg (not_not.mpr err), empty]
      rfl
    rw [done, none_, List.append_nil]
    exact ⟨_, rfl, { sound with
      waiting := fun _ => starved
      flushed := fun _ => ⟨empty, err⟩ }, .waits (by decide) rfl rfl⟩
  case neg =>
    cases answer with
    | sent count =>
        have moved : w.upstream ++ w.client.obuf.take count ++ w.client.obuf.drop count =
            w.upstream ++ w.client.obuf := by
          rw [List.append_assoc, List.take_append_drop]
        have shorter : (w.client.obuf.drop count).length ≤ intMax := by
          rw [List.length_drop]
          exact Nat.le_trans (Nat.sub_le _ _) sound.small
        rw [writeRound, redisBufferWrite_sent err empty sendable sound.small, sentBytes, if_pos err]
        by_cases done : w.client.obuf.drop count = []
        case pos =>
          rw [done]
          refine ⟨_, rfl, { sound with
            upstream := ?_
            small := Nat.zero_le _
            waiting := fun _ => starved
            flushed := fun _ => ⟨rfl, err⟩ }, .waits (by decide) rfl rfl⟩
          rw [← sound.upstream, ← moved, done]
        case neg =>
          rw [List.isEmpty_eq_false_iff.mpr done]
          exact ⟨_, rfl, { sound with
            upstream := moved.trans sound.upstream
            small := shorter
            waiting := fun _ => starved
            flushed := fun busy => Phase.noConfusion busy }, .waits (by decide) rfl rfl⟩
    | failed error =>
        rw [writeRound, redisBufferWrite_failed err empty error, sentBytes, List.append_nil]
        by_cases again : w.client.retries error
        case pos =>
          rw [if_pos again]
          exact ⟨_, rfl, { sound with
            waiting := fun _ => starved
            flushed := fun busy => Phase.noConfusion busy }, .failed (.inl rfl)⟩
        case neg =>
          rw [if_neg again]
          exact ⟨_, rfl, sound.stopped _ _, .failed (.inr (.inl rfl))⟩

/-- What the reader holds is handed out, or the call reads on. -/
theorem Sound.collect (sound : Sound w fed got parts pending) (obuf : w.client.obuf = [])
    (err : w.client.err = 0) :
    ∃ after new, readRest w.client >>= w.proceed = .ok after ∧
      Sound after fed new parts pending ∧ Outcome w after := by
  have result := handed sound.reader sound.accepted
  rw [readRest]
  generalize redisGetReplyFromReader w.client = outcome at result
  cases result with
  | reply copied kept =>
      refine ⟨_, _, ?_, sound.replied sound.block rfl kept, .replied rfl rfl⟩
      rw [ok_bind]
      exact proceed_returned copied
  | @nothing reader kept starved =>
      exact ⟨{ w with client := { w.client with reader := reader }, phase := .reading }, got, rfl,
        { sound with
          reader := kept
          waiting := fun _ => starved
          flushed := fun _ => ⟨obuf, err⟩ }, .waits (by decide) rfl rfl⟩

/-- A part of a call leaves nothing of the client before it. -/
theorem proceed_client (c : RedisContext) (phase : Phase) (result : GetReply × RedisContext) :
    { w with client := c, phase := phase }.proceed result = w.proceed result := by
  match result with
  | (.writing, c) => rfl
  | (.reading, c) => rfl
  | (.returned .ok (some rawReply), c) => rfl
  | (.returned .ok none, c) => rfl
  | (.returned .err reply, c) => rfl

/-- What a part of a call comes to does not depend on the buffers before it. -/
theorem Outcome.of_client {c : RedisContext} {phase : Phase} {downstream : Bytes}
    {after : Wire} (err : c.err = w.client.err) (errstr : c.errstr = w.client.errstr)
    (outcome : Outcome { w with client := c, phase := phase, downstream := downstream } after) :
    Outcome w after := by
  cases outcome with
  | replied same text => exact .replied (same.trans err) (text.trans errstr)
  | waits busy same text => exact .waits busy (same.trans err) (text.trans errstr)
  | failed set => exact .failed (set.imp_left fun same => same.trans err)

/-- A round of reading feeds the bytes that arrive to the reader. -/
theorem Sound.read (sound : Sound w fed got parts pending) (reading : w.phase = .reading)
    {answer : RecvAnswer} {rest : Bytes} (arrives : Arrives w.downstream answer rest)
    (fits : w.client.reader.buf.length + (receivedBytes answer).length ≤ intMax) :
    ∃ after all new, readRound w.client answer >>= { w with downstream := rest }.proceed =
      .ok after ∧ Sound after all new parts pending ∧ Outcome w after := by
  obtain ⟨obuf, err⟩ := sound.flushed reading
  generalize before : w.downstream = downstream at arrives
  cases arrives with
  | @bytes chunk _ some_ short =>
      obtain ⟨status, kept⟩ := sound.reader.takes sound.accepted fits
      have fed_ : redisReaderFeed w.client.reader chunk =
          (.ok, (redisReaderFeed w.client.reader chunk).2) := Prod.ext status rfl
      have idle : Sound { w with
          client := { w.client with reader := (redisReaderFeed w.client.reader chunk).2 },
          phase := .idle, downstream := rest } (fed ++ chunk) got parts pending :=
        { sound with
          reader := kept
          downstream := by rw [sound.downstream, before, List.append_assoc]
          waiting := fun busy => absurd rfl busy
          flushed := fun busy => Phase.noConfusion busy }
      obtain ⟨after, new, run, sound, outcome⟩ := idle.collect obuf err
      refine ⟨after, fed ++ chunk, new, ?_, sound, .of_client (by rfl) (by rfl) outcome⟩
      rw [readRound, redisBufferRead_received err some_ fed_, ← run]
      exact congrArg (readRest _ >>= ·) (funext fun result => (proceed_client _ _ result).symm)
  | closed =>
      rw [readRound, redisBufferRead_closed err, ← before]
      exact ⟨_, fed, got, rfl, sound.stopped _ _, .failed (.inr (.inr rfl))⟩
  | @failed _ error =>
      rw [readRound, redisBufferRead_failed err error]
      by_cases again : w.client.retries error
      case pos =>
        have idle : Sound { w with client := w.client, phase := .idle } fed got parts pending :=
          { sound with
            waiting := fun busy => absurd rfl busy
            flushed := fun busy => Phase.noConfusion busy }
        obtain ⟨after, new, run, sound, outcome⟩ := idle.collect obuf err
        refine ⟨after, fed, new, ?_, sound, .of_client (by rfl) (by rfl) outcome⟩
        rw [if_pos again, ← before, ← run]
        exact congrArg (readRest _ >>= ·) (funext fun result => (proceed_client _ _ result).symm)
      case neg =>
        rw [if_neg again, ← before]
        exact ⟨_, fed, got, rfl, sound.stopped _ _, .failed (.inr (.inl rfl))⟩

end

end MCRedis.Hiredis
