import MCRedis.Hiredis.Delivery

/-!
# A reader in use

Bytes are fed to a reader in pieces, and replies are asked for in between.  A
reply that is handed out is copied into a `CReply` and freed, as the client does.

However the bytes are cut into pieces and whenever replies are asked for, the
replies handed out are those that the parser finds in all the bytes: a call that
hands out nothing has found the bytes to end inside a reply, and a call that
fails has come to the bytes that the parser rejects.
-/

namespace MCRedis.Hiredis

open MCRedis.Client
open MCRedis.Parsing

inductive ReaderCall
  | feed (chunk : Bytes)
  | getReply
  deriving DecidableEq, Repr

inductive ReaderAnswer
  | fed (status : Status)
  | reply (rpy : CReply)
  | nothing
  | failed

/-- A reply that was handed out is copied and freed. -/
def takeReply (r : RedisReader) (rawReply : Nat) : Except Fault (CReply × RedisReader) := do
  let rpy ← copyReply r.objects (some rawReply)
  let objects ← freeReplyObject r.objects (some rawReply)
  pure (rpy, { r with objects := objects })

def readerCall (r : RedisReader) : ReaderCall → Except Fault (ReaderAnswer × RedisReader)
  | .feed chunk =>
      let (status, r) := redisReaderFeed r chunk
      pure (.fed status, r)
  | .getReply => do
      let (status, reply, r) ← redisReaderGetReply r
      match status, reply with
      | .err, _ => pure (.failed, r)
      | .ok, none => pure (.nothing, r)
      | .ok, some rawReply => do
          let (rpy, r) ← takeReply r rawReply
          pure (.reply rpy, r)

/-- The answers to a sequence of calls, and the reader in the end. -/
def readerSession (r : RedisReader) : List ReaderCall → List ReaderAnswer × Except Fault RedisReader
  | [] => ([], .ok r)
  | call :: calls =>
      match readerCall r call with
      | .error fault => ([], .error fault)
      | .ok (answer, r) =>
          let (answers, last) := readerSession r calls
          (answer :: answers, last)

/-- All bytes that are fed. -/
def fedBytes : List ReaderCall → Bytes
  | [] => []
  | .feed chunk :: calls => chunk ++ fedBytes calls
  | .getReply :: calls => fedBytes calls

/-- The replies among the answers. -/
def repliesOf : List ReaderAnswer → List CReply
  | [] => []
  | .reply rpy :: answers => rpy :: repliesOf answers
  | _ :: answers => repliesOf answers

/-- The buffer never holds more bytes than an `int` counts: positions in it are kept
in variables of that type. -/
def Countable (r : RedisReader) : List ReaderCall → Prop
  | [] => True
  | call :: calls =>
      (∀ chunk, call = .feed chunk → r.buf.length + chunk.length ≤ intMax) ∧
        ∀ answer after, readerCall r call = .ok (answer, after) → Countable after calls

/-- What the parser makes of a stream of replies. -/
def replyStream (input : Bytes) : List RedisReply × Parser.Ending Rejection :=
  (anyReply levelsMax).stream input

/-! ## The invariant -/

/-- A reader that has been fed some bytes and has handed out some replies.  No
object of an earlier reply is left. -/
inductive Reading (fed : Bytes) (got : List RedisReply) (r : RedisReader) : Prop
  | inside {freed : Nat} {levels : List Level} {pending : Option ReplyType} :
      Ready r (List.replicate freed none) levels pending →
      (∀ later, replyStream (fed ++ later) =
        ((got ++ ((anyReply levelsMax).continued
          (resume pending levels (unread r ++ later))).1),
          ((anyReply levelsMax).continued (resume pending levels (unread r ++ later))).2)) →
      Reading fed got r
  | failed {freed : Nat} {message : Bytes} : Failed r (List.replicate freed none) message →
      (∀ later, replyStream (fed ++ later) = (got, .rejected (.protocol message))) →
      Reading fed got r

theorem resume_root : resume none [] = anyReply levelsMax := by
  rw [resume_none]
  exact Parser.bind_pure_right _

/-- The stream ahead of a reader that stands before a reply. -/
theorem replyStream_eq (input : Bytes) :
    replyStream input = (anyReply levelsMax).continued (anyReply levelsMax input) :=
  Parser.stream_eq (progress_reply levelsMax) input

/-- A reply that is handed out is copied as its tree, and all its objects are freed. -/
theorem takeReply_eq {r : RedisReader} {old : Heap} {root : RedisReply}
    (objects : r.objects = old ++ (layout old.length root).map some) :
    takeReply r old.length =
      .ok (CReply.ofRaw root,
        { r with objects := old ++ List.replicate (size root) none }) := by
  have enough : size root ≤ r.objects.length := by
    rw [objects, List.length_append, List.length_map, length_layout]
    exact Nat.le_add_left _ _
  have copied := copyReplyFor_layout r.objects.length old [] root enough
  have freed := freeReplyObjectFor_layout r.objects.length old [] root enough
  rw [List.append_nil, ← objects] at copied freed
  rw [List.append_nil] at freed
  rw [takeReply, copyReply, copied, ok_bind, freeReplyObject, freed]
  rfl

theorem Ready.withObjects {r : RedisReader} (ready : Ready r r.objects [] none) (objects : Heap) :
    Ready { r with objects := objects } objects [] none := by
  have holds := ready.holds
  refine ⟨?_, rfl⟩
  rw [startRoot] at holds ⊢
  split at holds
  case isTrue empty =>
    rw [if_pos empty]
    exact { holds with
      buffered := ⟨holds.buffered.len, holds.buffered.pos, holds.buffered.small⟩
      objects := (List.append_nil _).symm
      rstack := ⟨_, rfl, rfl, rfl⟩ }
  case isFalse nonempty =>
    rw [if_neg nonempty]
    exact { holds with
      buffered := ⟨holds.buffered.len, holds.buffered.pos, holds.buffered.small⟩
      objects := (List.append_nil _).symm }

/-- A new reader has been fed nothing. -/
theorem reading_redisReaderCreate : Reading [] [] (redisReaderCreate []) := by
  have ready : Ready (redisReaderCreate []) (List.replicate 0 none) [] none :=
    ready_redisReaderCreate []
  refine .inside ready fun later => ?_
  rw [List.nil_append, replyStream_eq, resume_root]
  rfl

/-! ## Calls -/

/-- What a call does to a reader that has been fed some bytes and has handed out
some replies. -/
inductive Answered (fed : Bytes) (got : List RedisReply) :
    ReaderCall → Except Fault (ReaderAnswer × RedisReader) → Prop
  | fed {chunk : Bytes} {status : Status} {after : RedisReader} :
      Reading (fed ++ chunk) got after → Answered fed got (.feed chunk) (.ok (.fed status, after))
  | reply {root : RedisReply} {after : RedisReader} : Reading fed (got ++ [root]) after →
      Answered fed got .getReply (.ok (.reply (CReply.ofRaw root), after))
  | nothing {after : RedisReader} : Reading fed got after →
      replyStream fed = (got, .starved) → Answered fed got .getReply (.ok (.nothing, after))
  | failed {after : RedisReader} {message : Bytes} : Reading fed got after →
      replyStream fed = (got, .rejected (.protocol message)) →
      after.err = redisErrProtocol → after.errstr = message.take 127 →
      Answered fed got .getReply (.ok (.failed, after))
  | faulted {fault : Fault} :
      (∀ later, replyStream (fed ++ later) = (got, .rejected (.fault fault))) →
      Answered fed got .getReply (.error fault)

theorem Reading.feed {fed : Bytes} {got : List RedisReply} {r : RedisReader}
    (reading : Reading fed got r) {chunk : Bytes}
    (fits : r.buf.length + chunk.length ≤ intMax) :
    Answered fed got (.feed chunk) (readerCall r (.feed chunk)) := by
  cases reading with
  | inside ready ahead =>
      obtain ⟨-, kept, rest⟩ := ready.feed fits
      rw [readerCall]
      generalize redisReaderFeed r chunk = result at kept rest
      refine .fed (.inside kept fun later => ?_)
      rw [List.append_assoc, ahead, rest, List.append_assoc]
  | failed failed ahead =>
      have ignored : redisReaderFeed r chunk = (.err, r) := by
        rw [redisReaderFeed, if_pos (by rw [failed.err]; decide)]
      rw [readerCall, ignored]
      refine .fed (.failed failed fun later => ?_)
      rw [List.append_assoc]
      exact ahead _

theorem Reading.getReply {fed : Bytes} {got : List RedisReply} {r : RedisReader}
    (reading : Reading fed got r) :
    Answered fed got .getReply (readerCall r .getReply) := by
  cases reading with
  | @inside freed levels pending ready ahead =>
      have delivered := delivered_redisReaderGetReply ready
      have now := ahead []
      rw [List.append_nil, List.append_nil] at now
      rw [readerCall]
      generalize redisReaderGetReply r = result at delivered
      cases delivered with
      | @reply after root objects kept parsed =>
          rw [ok_bind]
          simp only [takeReply_eq objects, ok_bind]
          rw [List.replicate_append_replicate]
          refine .reply (.inside (kept.withObjects _) fun later => ?_)
          rw [ahead, parsed, resume_root]
          simp only [Parser.continued, List.append_assoc, List.cons_append, List.nil_append]
          rw [Parser.stream_eq (progress_reply levelsMax)]
          rfl
      | nothing kept parsed starved =>
          rw [starved] at now
          refine .nothing (.inside kept fun later => ?_) (by rw [now]; simp [Parser.continued])
          rw [ahead, parsed]
      | @rejected after message failed parsed =>
          have ended : ∀ later, replyStream (fed ++ later) =
              (got, .rejected (.protocol message)) := by
            intro later
            rw [ahead, parsed]
            simp only [Parser.continued, List.append_nil]
          have whole := ended []
          rw [List.append_nil] at whole
          exact .failed (.failed failed ended) whole failed.err failed.errstr
      | faulted parsed =>
          refine .faulted fun later => ?_
          rw [ahead, parsed]
          simp [Parser.continued]
  | failed failed ahead =>
      have refused : redisReaderGetReply r = .ok (.err, none, r) := by
        rw [redisReaderGetReply, if_pos (by rw [failed.err]; decide)]
      have whole := ahead []
      rw [List.append_nil] at whole
      rw [readerCall, refused]
      exact .failed (.failed failed ahead) whole failed.err failed.errstr

theorem Reading.answered {fed : Bytes} {got : List RedisReply} {r : RedisReader}
    (reading : Reading fed got r) {call : ReaderCall}
    (fits : ∀ chunk, call = .feed chunk → r.buf.length + chunk.length ≤ intMax) :
    Answered fed got call (readerCall r call) := by
  cases call with
  | feed chunk => exact reading.feed (fits chunk rfl)
  | getReply => exact reading.getReply

/-! ## Sessions -/

/-- What a session comes to. -/
def Ended (fed : Bytes) (got : List RedisReply) : Except Fault RedisReader → Prop
  | .ok r => Reading fed got r
  | .error fault => ∀ later, replyStream (fed ++ later) = (got, .rejected (.fault fault))

theorem Reading.session {fed : Bytes} {got : List RedisReply} {r : RedisReader}
    (reading : Reading fed got r) {calls : List ReaderCall} (countable : Countable r calls) :
    ∃ new, repliesOf (readerSession r calls).1 = new.map CReply.ofRaw ∧
      Ended (fed ++ fedBytes calls) (got ++ new) (readerSession r calls).2 := by
  induction calls generalizing fed got r with
  | nil =>
      refine ⟨[], rfl, ?_⟩
      rw [fedBytes, List.append_nil, List.append_nil]
      exact reading
  | cons call calls ih =>
      obtain ⟨fits, rest⟩ := countable
      have answered := reading.answered fits
      rw [readerSession]
      generalize readerCall r call = result at answered rest
      cases answered with
      | @fed chunk status after kept =>
          obtain ⟨new, replies, ended⟩ := ih kept (rest _ _ rfl)
          refine ⟨new, replies, ?_⟩
          rw [fedBytes, ← List.append_assoc]
          exact ended
      | @reply root after kept =>
          obtain ⟨new, replies, ended⟩ := ih kept (rest _ _ rfl)
          refine ⟨root :: new, congrArg (CReply.ofRaw root :: ·) replies, ?_⟩
          rw [fedBytes, ← List.singleton_append, ← List.append_assoc]
          exact ended
      | nothing kept => exact ih kept (rest _ _ rfl)
      | failed kept => exact ih kept (rest _ _ rfl)
      | faulted ahead =>
          refine ⟨[], rfl, fun later => ?_⟩
          rw [List.append_nil, List.append_assoc]
          exact ahead _

theorem readerSession_append (r : RedisReader) (calls more : List ReaderCall) :
    readerSession r (calls ++ more) =
      match (readerSession r calls).2 with
      | .ok after => ((readerSession r calls).1 ++ (readerSession after more).1,
          (readerSession after more).2)
      | .error fault => ((readerSession r calls).1, .error fault) := by
  induction calls generalizing r with
  | nil => rfl
  | cons call calls ih =>
      rw [List.cons_append, readerSession, readerSession]
      cases readerCall r call with
      | error fault => rfl
      | ok result =>
          simp only [ih]
          cases (readerSession result.2 calls).2 <;> rfl

theorem Countable.append {r : RedisReader} {calls more : List ReaderCall}
    (countable : Countable r (calls ++ more)) :
    Countable r calls ∧ ∀ after, (readerSession r calls).2 = .ok after → Countable after more := by
  induction calls generalizing r with
  | nil =>
      refine ⟨trivial, ?_⟩
      rintro after ⟨⟩
      exact countable
  | cons call calls ih =>
      obtain ⟨fits, rest⟩ := countable
      refine ⟨⟨fits, fun answer after called => (ih (rest answer after called)).1⟩, ?_⟩
      intro after ended
      rw [readerSession] at ended
      cases called : readerCall r call with
      | error fault =>
          rw [called] at ended
          contradiction
      | ok result =>
          rw [called] at ended
          exact (ih (rest result.1 result.2 called)).2 after ended

end MCRedis.Hiredis
