import MCRedis.Client.Command
import MCRedis.Client.Reply
import MCRedis.Transition.Program

/-!
# Connections

`CConnection` over hiredis.  The hiredis calls are operations of an interface
whose answers are the environment's; the connection is passed by value, since a
`unique_ptr` is the only owner of it at any time.

A context records every command appended to it and every reply read from it
since it was opened.  The server answers in order, so the next reply read from
a context answers the command at the position given by the replies read so far.
-/

namespace MCRedis.Client

open MCRedis.Transition

/-- The fields `err` and `errstr` of a context. -/
structure RedisError where
  err : Int
  errstr : Bytes
  deriving DecidableEq, Repr

/-- `redisContext`, with the commands appended to it and the replies read from
it since it was opened. -/
structure RedisContext where
  err : Int
  errstr : Bytes
  sent : List (List Bytes)
  received : List RedisReply

namespace RedisContext

/-- A context whose connection has just been established. -/
def opened : RedisContext where
  err := 0
  errstr := []
  sent := []
  received := []

/-- `__redisSetError`. -/
def setError (c : RedisContext) (error : RedisError) : RedisContext :=
  { c with err := error.err, errstr := error.errstr }

def appended (c : RedisContext) (argv : List Bytes) : RedisContext :=
  { c with sent := c.sent ++ [argv] }

def replied (c : RedisContext) (reply : RedisReply) : RedisContext :=
  { c with received := c.received ++ [reply] }

/-- The number of commands appended equals the number of replies read. -/
def InSync (c : RedisContext) : Prop :=
  c.sent.length = c.received.length

instance (c : RedisContext) : Decidable c.InSync :=
  inferInstanceAs (Decidable (_ = _))

/-- The command that the next reply answers. -/
def nextAnswered (c : RedisContext) : Option (List Bytes) :=
  c.sent[c.received.length]?

end RedisContext

/-- What `redisConnectWithTimeout` returns: no context, one with an error, or
an established one. -/
inductive ConnectAnswer
  | noContext
  | refused
  | connected
  deriving DecidableEq, Repr

/-- What `redisCommandArgv` does: the append fails, the append succeeds and the
read fails, or the reply is returned. -/
inductive CommandAnswer
  | appendFailed (error : RedisError)
  | replyFailed (error : RedisError)
  | reply (reply : RedisReply)

/-- The hiredis calls. -/
inductive RedisOp
  | connectWithTimeout (host : Bytes) (port timeoutSec : Nat)
  | setTimeout (c : RedisContext) (timeoutSec : Nat)
  | commandArgv (c : RedisContext) (argv : List Bytes)
  | appendCommandArgv (c : RedisContext) (argv : List Bytes)
  | getReply (c : RedisContext)

/-- What each hiredis call answers; an error is what it leaves in the context. -/
abbrev RedisAns : RedisOp → Type
  | .connectWithTimeout _ _ _ => ConnectAnswer
  | .setTimeout _ _ => Option RedisError
  | .commandArgv _ _ => CommandAnswer
  | .appendCommandArgv _ _ => Option RedisError
  | .getReply _ => Except RedisError RedisReply

abbrev RedisProgram := Program RedisOp RedisAns Fault

abbrev redisConnectWithTimeout (host : Bytes) (port timeoutSec : Nat) :
    RedisProgram ConnectAnswer :=
  .perform (RedisOp.connectWithTimeout host port timeoutSec)

abbrev redisSetTimeout (c : RedisContext) (timeoutSec : Nat) : RedisProgram (Option RedisError) :=
  .perform (RedisOp.setTimeout c timeoutSec)

abbrev redisCommandArgv (c : RedisContext) (argv : List Bytes) : RedisProgram CommandAnswer :=
  .perform (RedisOp.commandArgv c argv)

abbrev redisAppendCommandArgv (c : RedisContext) (argv : List Bytes) :
    RedisProgram (Option RedisError) :=
  .perform (RedisOp.appendCommandArgv c argv)

abbrev redisGetReply (c : RedisContext) : RedisProgram (Except RedisError RedisReply) :=
  .perform (RedisOp.getReply c)

/-- `CConnection` with its `CImpl`; `id` names the object. -/
structure CConnection where
  id : Nat
  slotRange : Nat × Nat
  contextPtr : Option RedisContext
  host : Bytes
  port : Nat
  timeoutSec : Nat

/-- The characters of a C string: those before its terminator. -/
def cString (str : Bytes) : Bytes :=
  str.takeWhile (· ≠ 0)

namespace CConnection

/-- `new CConnection`. -/
def create (id : Nat) : CConnection where
  id := id
  slotRange := (0, uint32Max)
  contextPtr := none
  host := []
  port := 0
  timeoutSec := 0

def setSlotRange (conn : CConnection) (rBegin rEnd : Nat) : CConnection :=
  { conn with slotRange := (rBegin, rEnd) }

def setContext (conn : CConnection) (c : RedisContext) : CConnection :=
  { conn with contextPtr := some c }

def isValid (conn : CConnection) : Bool :=
  conn.contextPtr.isSome

/-- The context of a call that dereferences `contextPtr_`. -/
def context (conn : CConnection) : Except Fault RedisContext :=
  match conn.contextPtr with
  | some c => .ok c
  | none => .error (.undefined .nullDereference)

def errorNo (conn : CConnection) : Except Fault Int :=
  conn.context.map RedisContext.err

/-- `reconnect`: the new context replaces the old one, and is dropped again
when it carries an error. -/
def reconnect (conn : CConnection) : RedisProgram (Bool × CConnection) := do
  let answer ← redisConnectWithTimeout (cString conn.host) conn.port conn.timeoutSec
  match answer with
  | .noContext => .fail (.undefined .nullDereference)
  | .refused => pure (false, { conn with contextPtr := none })
  | .connected =>
      if conn.timeoutSec ≠ 0 then do
        let error ← redisSetTimeout .opened conn.timeoutSec
        match error with
        | some error => pure (true, conn.setContext (RedisContext.opened.setError error))
        | none => pure (true, conn.setContext .opened)
      else
        pure (true, conn.setContext .opened)

/-- `connect(host, port, timeoutSec)`; the host arrives as a C string. -/
def connect (conn : CConnection) (host : Bytes) (port timeoutSec : Nat) :
    RedisProgram (Bool × CConnection) :=
  reconnect { conn with host := cString host, port := port, timeoutSec := timeoutSec }

/-- `setTimeout(timeoutSec)`: the timeout that is set is the one of the last
connect; the parameter is not used. -/
def setTimeout (conn : CConnection) (_timeoutSec : Nat) : RedisProgram (Bool × CConnection) := do
  let c ← Program.ofExcept conn.context
  let error ← redisSetTimeout c conn.timeoutSec
  match error with
  | some error => pure (false, conn.setContext (c.setError error))
  | none => pure (true, conn)

def sendCommand (conn : CConnection) (command : CCommand) :
    RedisProgram (CReply × CConnection) := do
  let c ← Program.ofExcept conn.context
  let argv ← Program.ofExcept command.argv
  let answer ← redisCommandArgv c argv
  match answer with
  | .appendFailed error =>
      pure (.ofError error.err error.errstr, conn.setContext (c.setError error))
  | .replyFailed error =>
      pure (.ofError error.err error.errstr, conn.setContext ((c.appended argv).setError error))
  | .reply reply =>
      pure (.ofRaw reply, conn.setContext ((c.appended argv).replied reply))

def appendCommand (conn : CConnection) (command : CCommand) :
    RedisProgram (Bool × CConnection) := do
  let c ← Program.ofExcept conn.context
  let argv ← Program.ofExcept command.argv
  let error ← redisAppendCommandArgv c argv
  match error with
  | some error => pure (false, conn.setContext (c.setError error))
  | none => pure (true, conn.setContext (c.appended argv))

def getReply (conn : CConnection) : RedisProgram (CReply × CConnection) := do
  let c ← Program.ofExcept conn.context
  let answer ← redisGetReply c
  match answer with
  | .error error => pure (.ofError error.err error.errstr, conn.setContext (c.setError error))
  | .ok reply => pure (.ofRaw reply, conn.setContext (c.replied reply))

/-- The in-sync condition of a connection; one without a context has nothing
outstanding. -/
def InSync (conn : CConnection) : Prop :=
  ∀ c, conn.contextPtr = some c → c.InSync

end CConnection

end MCRedis.Client
