import MCRedis.Hiredis.Command

/-!
# Contexts

`redisContext` of `hiredis.c` over a socket: the output buffer and the reader, and
the functions that write the one and feed the other.  What `send` and `recv`
answer is the environment's; a call of `redisGetReply` is cut at its socket calls.

A context without TLS is modelled.  Allocations succeed: what happens when the
output buffer cannot be extended is left out.
-/

namespace MCRedis.Hiredis

open MCRedis.Client
open MCRedis.Parsing
open MCRedis.Text

/-- `REDIS_ERR_IO`. -/
def redisErrIO : Int := 1

/-- `REDIS_ERR_EOF`. -/
def redisErrEof : Int := 3

/-- `REDIS_ERR_OOM`. -/
def redisErrOom : Int := 5

/-- `redisContext`; `block` is the flag `REDIS_BLOCK`. -/
structure RedisContext where
  err : Int
  errstr : Bytes
  block : Bool
  obuf : Bytes
  reader : RedisReader
  deriving DecidableEq, Repr

/-- `redisContextInit`, for a connection that has been established. -/
def redisContextInit (block : Bool) : RedisContext where
  err := 0
  errstr := []
  block := block
  obuf := []
  reader := redisReaderCreate []

/-- `__redisSetError` with a text. -/
def redisSetError (c : RedisContext) (type : Int) (str : Bytes) : RedisContext :=
  { c with err := type, errstr := (cString str).take 127 }

/-- The values of `errno` that are told apart. -/
inductive Errno
  | ewouldblock
  | eintr
  | other
  deriving DecidableEq, Repr

/-- A failed socket call, with the text that `strerror_r` gives for its `errno`. -/
structure SocketError where
  errno : Errno
  text : Bytes
  deriving DecidableEq, Repr

/-- What `send` answers: how many bytes it took. -/
inductive SendAnswer
  | sent (count : Nat)
  | failed (error : SocketError)
  deriving DecidableEq, Repr

/-- What `recv` answers; no byte is the end of the stream. -/
inductive RecvAnswer
  | received (chunk : Bytes)
  | failed (error : SocketError)
  deriving DecidableEq, Repr

/-- The errors after which a socket call is to be tried again. -/
def RedisContext.retries (c : RedisContext) (error : SocketError) : Bool :=
  decide (error.errno = .ewouldblock ∧ ¬ c.block ∨ error.errno = .eintr)

/-- The size of the buffer of `redisBufferRead`. -/
def recvSize : Nat := 1024 * 16

/-- `redisNetRead`. -/
def redisNetRead (c : RedisContext) (answer : RecvAnswer) : Int × Bytes × RedisContext :=
  match answer with
  | .failed error =>
      if c.retries error then (0, [], c) else (-1, [], redisSetError c redisErrIO error.text)
  | .received [] =>
      (-1, [], redisSetError c redisErrEof (literal "Server closed the connection"))
  | .received (byte :: chunk) => ((byte :: chunk).length, byte :: chunk, c)

/-- `redisNetWrite`; a call that is to be tried again is `-1` and no error. -/
def redisNetWrite (c : RedisContext) (answer : SendAnswer) : Int × RedisContext :=
  match answer with
  | .failed error =>
      if c.retries error then (-1, c) else (-1, redisSetError c redisErrIO error.text)
  | .sent count => (toInt count, c)

/-- `redisBufferRead`. -/
def redisBufferRead (c : RedisContext) (answer : RecvAnswer) : Status × RedisContext :=
  if c.err ≠ 0 then (.err, c)
  else
    let (nread, buf, c) := redisNetRead c answer
    if nread > 0 then
      let (status, reader) := redisReaderFeed c.reader buf
      let c := { c with reader := reader }
      if status ≠ .ok then (.err, redisSetError c reader.err reader.errstr) else (.ok, c)
    else if nread < 0 then (.err, c)
    else (.ok, c)

/-- `redisBufferWrite`: the status, whether the buffer is empty, and the context. -/
def redisBufferWrite (c : RedisContext) (answer : SendAnswer) : Status × Bool × RedisContext :=
  if c.err ≠ 0 then (.err, false, c)
  else if c.obuf.length > 0 then
    let (nwritten, c) := redisNetWrite c answer
    if nwritten < 0 then (.err, false, c)
    else
      let obuf :=
        if nwritten > 0 then
          if nwritten = toInt c.obuf.length then [] else sdsrange c.obuf nwritten (-1)
        else c.obuf
      (.ok, obuf.isEmpty, { c with obuf := obuf })
  else (.ok, true, c)

/-! ## Replies -/

/-- `redisGetReplyFromReader`. -/
def redisGetReplyFromReader (c : RedisContext) :
    Except Fault (Status × Option Nat × RedisContext) := do
  let (status, reply, reader) ← redisReaderGetReply c.reader
  let c := { c with reader := reader }
  match status with
  | .err => pure (.err, reply, redisSetError c reader.err reader.errstr)
  | .ok => pure (.ok, reply, c)

/-- Where a call of `redisGetReply` stands: in its first loop, in its second one, or
at its end. -/
inductive GetReply
  | writing
  | reading
  | returned (status : Status) (reply : Option Nat)
  deriving DecidableEq, Repr

/-- `redisGetReply` up to its loops. -/
def redisGetReply (c : RedisContext) : Except Fault (GetReply × RedisContext) := do
  let (status, aux, c) ← redisGetReplyFromReader c
  match status with
  | .err => pure (.returned .err none, c)
  | .ok => if aux = none ∧ c.block then pure (.writing, c) else pure (.returned .ok aux, c)

/-- A round of the loop that writes. -/
def writeRound (c : RedisContext) (answer : SendAnswer) : GetReply × RedisContext :=
  match redisBufferWrite c answer with
  | (.err, _, c) => (.returned .err none, c)
  | (.ok, wdone, c) => (if wdone then .reading else .writing, c)

/-- A round of the loop that reads, after the read. -/
def readRest (c : RedisContext) : Except Fault (GetReply × RedisContext) := do
  let (status, aux, c) ← redisGetReplyFromReader c
  match status with
  | .err => pure (.returned .err none, c)
  | .ok => pure (if aux = none then .reading else .returned .ok aux, c)

/-- A round of the loop that reads. -/
def readRound (c : RedisContext) (answer : RecvAnswer) :
    Except Fault (GetReply × RedisContext) :=
  match redisBufferRead c answer with
  | (.err, c) => pure (.returned .err none, c)
  | (.ok, c) => readRest c

/-! ## Commands -/

/-- A value of `int` as a `size_t`. -/
def toSize (value : Int) : Nat :=
  (value % uint64Size).toNat

/-- `__redisAppendCommand`, when there is memory for the command. -/
def redisAppendCommand (c : RedisContext) (cmd : Bytes) (len : Nat) :
    Except Fault (Status × RedisContext) := do
  let newbuf ← sdscatlen c.obuf cmd len
  pure (.ok, { c with obuf := newbuf })

/-- `redisAppendCommandArgv`. -/
def redisAppendCommandArgv (c : RedisContext) (argc : Int) (argv : List Bytes)
    (argvlen : Option (List Nat)) : Except Fault (Status × RedisContext) := do
  let (len, cmd) ← redisFormatSdsCommandArgv argc argv argvlen
  if len = -1 then pure (.err, redisSetError c redisErrOom (literal "Out of memory"))
  else redisAppendCommand c cmd (toSize len)

theorem toInt_range (value : Int) : -2147483648 ≤ toInt value ∧ toInt value ≤ intMax := by
  have low := @Int.le_bmod value 4294967296 (by decide)
  have high := @Int.bmod_lt value 4294967296 (by decide)
  rw [toInt, intMax]
  omega

theorem eq_of_guarded {α : Type} {condition : Prop} [Decidable condition] {value result : α}
    {fault : Fault}
    (returned : (if condition then Except.ok value else Except.error fault) = .ok result) :
    value = result := by
  split at returned
  · exact Except.ok.inj returned
  · contradiction

/-- The length that is returned is an `int`. -/
theorem range_of_redisFormatSdsCommandArgv {argc len : Int} {argv : List Bytes}
    {argvlen : Option (List Nat)} {cmd : Bytes}
    (formatted : redisFormatSdsCommandArgv argc argv argvlen = .ok (len, cmd)) :
    -2147483648 ≤ len ∧ len ≤ intMax := by
  obtain ⟨args, -, formatted⟩ := Transition.except_bind_ok formatted
  obtain ⟨header, -, formatted⟩ := Transition.except_bind_ok formatted
  obtain ⟨text, -, formatted⟩ := Transition.except_bind_ok formatted
  have equal := eq_of_guarded formatted
  rw [Prod.mk.injEq] at equal
  rw [← equal.1]
  exact toInt_range _

/-- A command whose encoding an `int` counts is appended as its encoding. -/
theorem redisAppendCommandArgv_encode (c : RedisContext) {argv args : List Bytes}
    {argvlen : Option (List Nat)} (given : arguments args.length argv argvlen = .ok args)
    (small : (encodeCommand args).length ≤ intMax) :
    redisAppendCommandArgv c args.length argv argvlen =
      .ok (.ok, { c with obuf := c.obuf ++ encodeCommand args }) := by
  have size : toSize ((encodeCommand args).length : Nat) = (encodeCommand args).length := by
    rw [intMax] at small
    rw [toSize, uint64Size]
    omega
  rw [redisAppendCommandArgv, redisFormatSdsCommandArgv_eq given small, ok_bind]
  simp only
  rw [if_neg (by omega), redisAppendCommand, size, sdscatlen, if_pos (Nat.le_refl _),
    List.take_length]
  rfl

/-- A command is appended to the output buffer as its encoding exactly when an
`int` counts the encoding. -/
theorem redisAppendCommandArgv_eq_iff (c : RedisContext) {argv args : List Bytes}
    {argvlen : Option (List Nat)} (given : arguments args.length argv argvlen = .ok args)
    (addressable : (encodeCommand args).length < 2 ^ 63) :
    redisAppendCommandArgv c args.length argv argvlen =
        .ok (.ok, { c with obuf := c.obuf ++ encodeCommand args }) ↔
      (encodeCommand args).length ≤ intMax := by
  constructor
  · intro appended
    obtain ⟨⟨len, cmd⟩, formatted, appended⟩ := Transition.except_bind_ok appended
    have range := range_of_redisFormatSdsCommandArgv formatted
    simp only at appended
    split at appended
    · cases appended
    obtain ⟨newbuf, copied, appended⟩ := Transition.except_bind_ok appended
    have obuf : newbuf = c.obuf ++ encodeCommand args :=
      congrArg (fun result => result.2.obuf) (Except.ok.inj appended)
    rw [sdscatlen] at copied
    by_cases inside : toSize len ≤ cmd.length
    case neg =>
      rw [if_neg inside] at copied
      contradiction
    case pos =>
      rw [obuf, if_pos inside, Except.ok.injEq] at copied
      have taken := congrArg List.length (List.append_cancel_left copied)
      rw [List.length_take_of_le inside, toSize, uint64Size] at taken
      omega
  · exact redisAppendCommandArgv_encode c given

theorem redisAppendCommandArgv_ping :
    redisAppendCommandArgv (redisContextInit true) [literal "PING"].length [literal "PING"]
        (some ([literal "PING"].map List.length)) =
        .ok (.ok, { redisContextInit true with
          obuf := (redisContextInit true).obuf ++ encodeCommand [literal "PING"] }) ↔
      (encodeCommand [literal "PING"]).length ≤ intMax :=
  redisAppendCommandArgv_eq_iff _ (arguments_lengths _) (by decide)

/-! ## Calls of the socket -/

/-- What is left of the output buffer when some of it has been sent. -/
theorem redisBufferWrite_sent {c : RedisContext} {count : Nat} (err : c.err = 0)
    (some_ : c.obuf ≠ []) (inside : count ≤ c.obuf.length) (small : c.obuf.length ≤ intMax) :
    redisBufferWrite c (.sent count) =
      (.ok, (c.obuf.drop count).isEmpty, { c with obuf := c.obuf.drop count }) := by
  have taken : toInt count = count := toInt_eq (Nat.le_trans inside small)
  have length : toInt c.obuf.length = c.obuf.length := toInt_eq small
  have obuf : (if (count : Int) > 0 then
      if (count : Int) = c.obuf.length then [] else sdsrange c.obuf count (-1)
      else c.obuf) = c.obuf.drop count := by
    split
    case isTrue positive =>
      split
      case isTrue whole => rw [List.drop_of_length_le (by omega)]
      case isFalse part => rw [← taken, sdsrange_eq_drop inside small]
    case isFalse none_ =>
      have zero : count = 0 := by omega
      rw [zero]
      rfl
  have positive : c.obuf.length > 0 := List.length_pos_of_ne_nil some_
  have written : redisNetWrite c (.sent count) = ((count : Int), c) := by
    rw [redisNetWrite, taken]
  rw [redisBufferWrite, if_neg (not_not.mpr err), if_pos positive, written]
  simp only [length]
  rw [if_neg (by omega), obuf]

/-- A failed `send` leaves the buffers, and an interrupted one no error either. -/
theorem redisBufferWrite_failed {c : RedisContext} (err : c.err = 0) (some_ : c.obuf ≠ [])
    (error : SocketError) :
    redisBufferWrite c (.failed error) =
      (.err, false, if c.retries error then c else redisSetError c redisErrIO error.text) := by
  have positive : c.obuf.length > 0 := List.length_pos_of_ne_nil some_
  rw [redisBufferWrite, if_neg (not_not.mpr err), if_pos positive, redisNetWrite]
  cases c.retries error <;> rfl

/-- Bytes that arrive are fed to the reader. -/
theorem redisBufferRead_received {c : RedisContext} {chunk : Bytes} {reader : RedisReader}
    (err : c.err = 0) (some_ : chunk ≠ [])
    (fed : redisReaderFeed c.reader chunk = (.ok, reader)) :
    redisBufferRead c (.received chunk) = (.ok, { c with reader := reader }) := by
  cases chunk with
  | nil => exact absurd rfl some_
  | cons byte chunk =>
      rw [redisBufferRead, if_neg (not_not.mpr err), redisNetRead]
      simp only [fed]
      rw [if_pos (Int.natCast_pos.mpr (List.length_pos_of_ne_nil some_)), if_neg (not_not.mpr rfl)]

/-- The end of the stream is an error. -/
theorem redisBufferRead_closed {c : RedisContext} (err : c.err = 0) :
    redisBufferRead c (.received []) =
      (.err, redisSetError c redisErrEof (literal "Server closed the connection")) := by
  rw [redisBufferRead, if_neg (not_not.mpr err)]
  rfl

/-- A failed `recv` is an error, or it is to be tried again. -/
theorem redisBufferRead_failed {c : RedisContext} (err : c.err = 0) (error : SocketError) :
    redisBufferRead c (.failed error) =
      if c.retries error then (.ok, c) else (.err, redisSetError c redisErrIO error.text) := by
  rw [redisBufferRead, if_neg (not_not.mpr err), redisNetRead]
  cases c.retries error <;> rfl

end MCRedis.Hiredis
