import MCRedis.Pool.Core

/-!
# Runners

The synchronous and the asynchronous runner, over an arbitrary pool.  A runner
is a program that gets handles from the pool, makes hiredis calls on the
connections it holds, invokes the user's callback, and destroys its handles;
every destruction that the language inserts at the end of a scope is written
out where it happens.
-/

namespace MCRedis.Runner

open MCRedis.Client
open MCRedis.Pool
open MCRedis.Transition

/-- How a callback leaves: it returns, with the reply it was passed by
reference, or it throws. -/
inductive CallbackAnswer
  | returned (rpy : CReply)
  | threw

/-- The operations of a runner.  A callback is invoked while the calling frame
holds a handle, which is recorded with the operation. -/
inductive RunnerOp
  | get (key : Option Bytes)
  | release (handle : CConnectionRAII)
  | callback (rpy : CReply) (held : CConnectionRAII)
  | redis (op : RedisOp)

abbrev RunnerAns : RunnerOp → Type
  | .get _ => CConnectionRAII
  | .release _ => Unit
  | .callback _ _ => CallbackAnswer
  | .redis op => RedisAns op

abbrev RunnerProgram := Program RunnerOp RunnerAns Fault

abbrev RunnerEvent := Event RunnerOp RunnerAns

/-- The hiredis calls of a connection, made by a runner. -/
def RunnerProgram.redis {α : Type} (program : RedisProgram α) : RunnerProgram α :=
  program.translate RunnerOp.redis fun _ answer => answer

/-- `pool.get(key, keyLen)`. -/
def poolGet (key : Option Bytes) : RunnerProgram CConnectionRAII :=
  Program.perform (RunnerOp.get key)

/-- The destructor of a handle; one that fails ends the program. -/
def release (handle : CConnectionRAII) : RunnerProgram Unit := do
  Program.perform (RunnerOp.release handle)
  Program.ofExcept handle.destructor

/-- The destructors of several handles, in order. -/
def releaseAll : List ConnPtr → RunnerProgram Unit
  | [] => pure ()
  | ptr :: rest => do
      release ⟨some ptr⟩
      releaseAll rest

/-- `if (callback != nullptr) callback(rpy)`. -/
def invoke (hasCallback : Bool) (rpy : CReply) (held : CConnectionRAII) :
    RunnerProgram CallbackAnswer :=
  if hasCallback then Program.perform (RunnerOp.callback rpy held) else pure (.returned rpy)

/-- The pointer of a handle that is neither null nor invalid. -/
def usable (handle : CConnectionRAII) : Option ConnPtr :=
  handle.connPtr.filter fun ptr => ptr.conn.isValid

/-! ## Single commands -/

/-- The loop of `runSingleCommand`, with `tryCount` iterations left. -/
def singleAttempts (cmdKey : Option Bytes) (cmd : CCommand) : Nat → CReply → RunnerProgram CReply
  | 0, rpy => pure rpy
  | tryCount + 1, rpy => do
      let conn ← poolGet cmdKey
      match usable conn with
      | none => do
          release conn
          singleAttempts cmdKey cmd tryCount rpy
      | some ptr => do
          let (rpy, sent) ← RunnerProgram.redis (ptr.conn.sendCommand cmd)
          release ⟨some { ptr with conn := sent }⟩
          singleAttempts cmdKey cmd tryCount rpy

def runSingleCommand (TRetryCount : Nat) (cmd : CCommand) : RunnerProgram CReply := do
  let cmdKey ← Program.ofExcept cmd.getKey
  singleAttempts cmdKey cmd TRetryCount .empty

/-! ## Mapping commands to nodes -/

/-- How the retry loop of one command ends: with a connection, with the early
`return{}`, or without any iteration. -/
inductive MapAttempt
  | mapped (ptr : ConnPtr)
  | gaveUp
  | skipped

/-- The retry loop of one command, with `tryCount` iterations left. -/
def mapAttempts (cmdKey : Option Bytes) : Nat → RunnerProgram MapAttempt
  | 0 => pure .skipped
  | tryCount + 1 => do
      let conn ← poolGet cmdKey
      match usable conn with
      | none => do
          release conn
          if tryCount = 0 then pure .gaveUp else mapAttempts cmdKey tryCount
      | some ptr => pure (.mapped ptr)

/-- One element of `lstNodeCommand`. -/
structure NodeCommand where
  conn : ConnPtr
  lstCommand : List CCommand

/-- `lstNodeCommand.rbegin()->second.push_back(std::move(cmd))`. -/
def appendToLast (lstNodeCommand : List NodeCommand) (cmd : CCommand) :
    Except Fault (List NodeCommand) :=
  match lstNodeCommand.getLast? with
  | none => .error (.undefined .emptyContainer)
  | some last =>
      .ok (lstNodeCommand.dropLast ++ [{ last with lstCommand := last.lstCommand ++ [cmd] }])

/-- The loop of `mapCommandPerNode` over the commands: the groups, and the
queue with the commands it was left with. -/
def mapCommands (TRetryCount : Nat) :
    List CCommand → Nat × Nat → List NodeCommand → List CCommand →
      RunnerProgram (List NodeCommand × List CCommand)
  | [], _, lstNodeCommand, visited => pure (lstNodeCommand, visited)
  | cmd :: lstCommand, prevSlotRange, lstNodeCommand, visited => do
      let cmdKey ← Program.ofExcept cmd.getKey
      let attempt ← mapAttempts cmdKey TRetryCount
      match attempt with
      | .gaveUp => do
          releaseAll (lstNodeCommand.map NodeCommand.conn)
          pure ([], visited ++ cmd :: lstCommand)
      | .skipped =>
          mapCommands TRetryCount lstCommand prevSlotRange lstNodeCommand (visited ++ [cmd])
      | .mapped ptr =>
          if ptr.conn.slotRange ≠ prevSlotRange then
            mapCommands TRetryCount lstCommand ptr.conn.slotRange
              (lstNodeCommand ++ [⟨ptr, [cmd.moved]⟩]) (visited ++ [cmd.movedFrom])
          else do
            let lstNodeCommand ← Program.ofExcept (appendToLast lstNodeCommand cmd.moved)
            release ⟨some ptr⟩
            mapCommands TRetryCount lstCommand prevSlotRange lstNodeCommand
              (visited ++ [cmd.movedFrom])

def mapCommandPerNode (TRetryCount : Nat) (lstCommand : List CCommand) :
    RunnerProgram (List NodeCommand × List CCommand) :=
  mapCommands TRetryCount lstCommand (0, 0) [] []

/-- The loop that appends the commands of one group; it ends at the first
append that fails. -/
def appendAll (ptr : ConnPtr) : List CCommand → RunnerProgram (Bool × ConnPtr)
  | [] => pure (true, ptr)
  | cmd :: lstCmd => do
      let (appended, conn) ← RunnerProgram.redis (ptr.conn.appendCommand cmd)
      if appended then appendAll { ptr with conn := conn } lstCmd
      else pure (false, { ptr with conn := conn })

/-! ## The synchronous runner -/

/-- `std::vector::resize`. -/
def resize (lstRpy : List CReply) (size : Nat) : List CReply :=
  lstRpy.take size ++ List.replicate (size - lstRpy.length) CReply.empty

structure CRunner where
  lstCommand : List CCommand

namespace CRunner

/-- The runner that `CRunner(CRunner&& rhs)` constructs: it takes the pool of
`rhs`, and its queue is default-constructed. -/
def moved (_rhs : CRunner) : CRunner :=
  ⟨[]⟩

/-- The callback inside `_run`, which is `noexcept`. -/
def callback (hasCallback : Bool) (rpy : CReply) (held : CConnectionRAII) :
    RunnerProgram CReply := do
  let answer ← invoke hasCallback rpy held
  match answer with
  | .returned rpy => pure rpy
  | .threw => .fail .terminate

/-- The loop that reads the replies of one group. -/
def readAll (hasCallback : Bool) :
    Nat → ConnPtr → List CReply → RunnerProgram (ConnPtr × List CReply)
  | 0, ptr, lstRpy => pure (ptr, lstRpy)
  | remaining + 1, ptr, lstRpy => do
      let (rpy, conn) ← RunnerProgram.redis ptr.conn.getReply
      let rpy ← callback hasCallback rpy ⟨some { ptr with conn := conn }⟩
      readAll hasCallback remaining { ptr with conn := conn } (lstRpy ++ [rpy])

/-- The loop over the groups: whether it reached its end, and the replies. -/
def runGroups (hasCallback : Bool) (size : Nat) :
    List NodeCommand → List CReply → RunnerProgram (Bool × List CReply)
  | [], lstRpy => pure (true, lstRpy)
  | elem :: lstNodeCommand, lstRpy => do
      let (appended, conn) ← appendAll elem.conn elem.lstCommand
      if appended then do
        let (conn, lstRpy) ← readAll hasCallback elem.lstCommand.length conn lstRpy
        release ⟨some conn⟩
        runGroups hasCallback size lstNodeCommand lstRpy
      else do
        release ⟨some conn⟩
        releaseAll (lstNodeCommand.map NodeCommand.conn)
        pure (false, resize lstRpy size)

def _run (TRetryCount : Nat) (hasCallback : Bool) (runner : CRunner) :
    RunnerProgram (List CReply × CRunner) :=
  match runner.lstCommand with
  | [cmd] => do
      let rpy ← runSingleCommand TRetryCount cmd
      let rpy ← callback hasCallback rpy ⟨none⟩
      pure ([rpy], runner)
  | lstCommand => do
      let (lstNodeCommand, lstCommand) ← mapCommandPerNode TRetryCount lstCommand
      if lstNodeCommand.isEmpty then
        pure (resize [] lstCommand.length, ⟨lstCommand⟩)
      else do
        let (finished, lstRpy) ← runGroups hasCallback lstCommand.length lstNodeCommand []
        pure (lstRpy, if finished then ⟨[]⟩ else ⟨lstCommand⟩)

def append (cmd : CCommand) (runner : CRunner) : CRunner :=
  ⟨runner.lstCommand ++ [cmd.moved]⟩

def runCommands (TRetryCount : Nat) (hasCallback : Bool) (runner : CRunner) :
    RunnerProgram (List CReply × CRunner) :=
  _run TRetryCount hasCallback runner

def run (TRetryCount : Nat) (hasCallback : Bool) (cmd : CCommand) (runner : CRunner) :
    RunnerProgram (CReply × CRunner) := do
  let (rpy, runner) ← _run TRetryCount hasCallback (runner.append cmd)
  match rpy with
  | [] => pure (.empty, runner)
  | rpy :: _ => pure (rpy, runner)

end CRunner

/-! ## The asynchronous runner -/

/-- What the future of a task holds. -/
inductive TaskResult
  | returned (rpy : CReply)
  | threw

namespace CAsyncRunner

/-- The loop that reads the replies of one group into the running reply;
`none` when the callback throws. -/
def readAll (hasCallback : Bool) :
    Nat → ConnPtr → CReply → RunnerProgram (ConnPtr × Option CReply)
  | 0, ptr, rpy => pure (ptr, some rpy)
  | remaining + 1, ptr, _ => do
      let (rpy, conn) ← RunnerProgram.redis ptr.conn.getReply
      let answer ← invoke hasCallback rpy ⟨some { ptr with conn := conn }⟩
      match answer with
      | .returned rpy => readAll hasCallback remaining { ptr with conn := conn } rpy
      | .threw => pure ({ ptr with conn := conn }, none)

/-- The loop over the groups; an exception unwinds the frame, which destroys
the handle of the group and those of the groups after it. -/
def runGroups (hasCallback : Bool) : List NodeCommand → CReply → RunnerProgram TaskResult
  | [], rpy => pure (.returned rpy)
  | elem :: lstNodeCommand, rpy => do
      let (appended, conn) ← appendAll elem.conn elem.lstCommand
      if appended then do
        let (conn, rpy) ← readAll hasCallback elem.lstCommand.length conn rpy
        release ⟨some conn⟩
        match rpy with
        | some rpy => runGroups hasCallback lstNodeCommand rpy
        | none => do
            releaseAll (lstNodeCommand.map NodeCommand.conn)
            pure .threw
      else do
        release ⟨some conn⟩
        releaseAll (lstNodeCommand.map NodeCommand.conn)
        pure (.returned rpy)

/-- The function that `_run` hands to `std::async`, on the commands it takes
along. -/
def task (TRetryCount : Nat) (hasCallback : Bool) : List CCommand → RunnerProgram TaskResult
  | [cmd] => do
      let rpy ← runSingleCommand TRetryCount cmd
      let answer ← invoke hasCallback rpy ⟨none⟩
      match answer with
      | .returned rpy => pure (.returned rpy)
      | .threw => pure .threw
  | lstCommand => do
      let (lstNodeCommand, _) ← mapCommandPerNode TRetryCount lstCommand
      if lstNodeCommand.isEmpty then
        pure (.returned .empty)
      else
        runGroups hasCallback lstNodeCommand .empty

end CAsyncRunner

end MCRedis.Runner
