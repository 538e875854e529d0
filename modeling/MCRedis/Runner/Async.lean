import MCRedis.Runner.Core
import MCRedis.Task.Holder

/-!
# The asynchronous runner in sequence

The operations of one `CAsyncRunner` on the task holder, for a thread that waits
for the task it launched before it goes on.  A task then runs from its launch to
its end, and its future holds what it ended with.
-/

namespace MCRedis.Runner

open MCRedis.Client
open MCRedis.Task
open MCRedis.Transition

structure CAsyncRunner where
  lstCommand : List CCommand
  resultId : Nat

namespace CAsyncRunner

def create : CAsyncRunner where
  lstCommand := []
  resultId := 0

/-- The runner that `CAsyncRunner(CAsyncRunner&& rhs)` constructs: it takes the
pool of `rhs`; its queue is default-constructed and its id is the initial one. -/
def moved (_rhs : CAsyncRunner) : CAsyncRunner where
  lstCommand := []
  resultId := 0

def append (cmd : CCommand) (runner : CAsyncRunner) : CAsyncRunner :=
  { runner with lstCommand := runner.lstCommand ++ [cmd.moved] }

/-- `_run`: the id of the last task is returned, the commands move to the new
task, and its future goes to the task holder. -/
def _run (TRetryCount : Nat) (hasCallback : Bool) (runner : CAsyncRunner)
    (taskHolder : CTaskHolder TaskResult) :
    RunnerProgram (CAsyncRunner × CTaskHolder TaskResult) := do
  let taskHolder :=
    if runner.resultId ≠ 0 then taskHolder.returnId runner.resultId else taskHolder
  let result ← task TRetryCount hasCallback runner.lstCommand
  let (resultId, taskHolder) := taskHolder.addTask result
  pure (⟨[], resultId⟩, taskHolder)

def runCommands (TRetryCount : Nat) (hasCallback : Bool) (runner : CAsyncRunner)
    (taskHolder : CTaskHolder TaskResult) :
    RunnerProgram (CAsyncRunner × CTaskHolder TaskResult) :=
  runner._run TRetryCount hasCallback taskHolder

def run (TRetryCount : Nat) (hasCallback : Bool) (cmd : CCommand) (runner : CAsyncRunner)
    (taskHolder : CTaskHolder TaskResult) :
    RunnerProgram (CAsyncRunner × CTaskHolder TaskResult) :=
  (runner.append cmd)._run TRetryCount hasCallback taskHolder

/-- `getResult`, which is `noexcept`: an exception that the future holds ends
the program. -/
def getResult (runner : CAsyncRunner) (taskHolder : CTaskHolder TaskResult) :
    Except Fault (CReply × CAsyncRunner × CTaskHolder TaskResult) :=
  if runner.resultId = 0 then
    .ok (.empty, runner, taskHolder)
  else
    let (result, taskHolder) := taskHolder.getResult runner.resultId
    let runner := { runner with resultId := 0 }
    match result with
    | none => .ok (.empty, runner, taskHolder)
    | some (.returned rpy) => .ok (rpy, runner, taskHolder)
    | some .threw => .error .terminate

/-- The result of a run is the one that its task ended with. -/
theorem getResult_addTask {taskHolder : CTaskHolder TaskResult} (ready : taskHolder.Ready)
    (rpy : CReply) :
    (getResult ⟨[], (taskHolder.addTask (.returned rpy)).1⟩
      (taskHolder.addTask (.returned rpy)).2).map Prod.fst = .ok rpy := by
  rw [CTaskHolder.addTask_of_ready ready, getResult, if_neg ready.notZero]
  simp only [CTaskHolder.getResult, Container.OrderedMap.find?_insert_self]
  rfl

end CAsyncRunner

end MCRedis.Runner
