import MCRedis.Runner.Async
import MCRedis.Transition.Run

/-!
# The asynchronous runners as a state machine

Any number of `CAsyncRunner` objects share one task holder with the handler that
reclaims returned ids and with callers of `join`.  A runner is in at most one
operation at a time; an operation is performed by a thread of the user or by a
task, inside its callback.

The sections that `addTask`, `getResult` and `returnId` execute under the mutex
are single steps, which wait while somebody else holds it.  The handler and
`stop` hold it over several steps, since erasing or waiting on the future of a
task lasts until the task has ended; so does `addTask` when the map has the id
already, since it destroys the future that it was given.
-/

namespace MCRedis.Task

open MCRedis.Client
open MCRedis.Container
open MCRedis.Runner
open MCRedis.Transition

/-- A task that was launched: what it executes, and what it ended with. -/
structure TaskRecord where
  hasCallback : Bool
  lstCommand : List CCommand
  result : Option TaskResult

/-- How far a runner is in its operation: in `_run` before the last id is
returned, before the task is launched, before the task is added, before the
future of a task that was not added is destroyed and before the new id is stored;
in `getResult` before the future is taken, before the id is
reset and before the future is read; in the destructor before the id is
returned. -/
inductive RunnerPc
  | idle
  | runEntered (hasCallback : Bool)
  | runReturned (hasCallback : Bool)
  | runLaunched (task : Nat)
  | runDropping
  | runAdded (id : Nat)
  | getEntered
  | getTaken (result : Option Nat)
  | getReset (result : Option Nat)
  | destroyEntered
  deriving DecidableEq

/-- A live runner; `agent` is the task that performs the operation, if it is not
a thread of the user. -/
structure RunnerState where
  runner : CAsyncRunner
  pc : RunnerPc
  agent : Option Nat

/-- How far the handler is in its loop: before it reads `terminate_`, before it
reads whether ids were returned, before it locks the mutex, and with the ids it
has still to erase. -/
inductive HandlerPc
  | looping
  | testing
  | locking
  | erasing (rest : List Nat)
  | ended
  deriving DecidableEq

/-- How far a call of `stop` is: before it sets `terminate_`, before the handler
has ended, before it locks the mutex, and with the futures it has still to wait
for. -/
inductive StopPc
  | called
  | waiting
  | locking
  | joining (rest : List Nat)
  deriving DecidableEq

/-- Who holds the mutex over several steps; a runner does so in `addTask`, until
the task that was not added has ended. -/
inductive Owner
  | handler
  | stop (caller : Nat)
  | runner (name task : Nat)
  deriving DecidableEq

/-- The task holder keeps tasks by their position in `tasks`; `issued` records
what `addTask` has returned. -/
structure TaskState where
  holder : CTaskHolder Nat
  runners : OrderedMap Nat RunnerState
  tasks : List TaskRecord
  handler : HandlerPc
  stops : OrderedMap Nat StopPc
  mutex : Option Owner
  issued : List Nat

/-- The steps, by the runner, the task or the caller of `join` that takes
them. -/
inductive TaskAction
  | construct (name : Nat)
  | append (name : Nat) (cmd : CCommand)
  | run (name : Nat) (agent : Option Nat) (cmd : Option CCommand) (hasCallback : Bool)
  | getResult (name : Nat) (agent : Option Nat)
  | destroy (name : Nat) (agent : Option Nat)
  | returnId (name : Nat)
  | launch (name : Nat)
  | addTask (name : Nat)
  | dropTask (name : Nat)
  | assign (name : Nat)
  | take (name : Nat)
  | reset (name : Nat)
  | returned (name : Nat) (rpy : CReply)
  | finish (task : Nat) (result : TaskResult)
  | handler
  | stop (caller : Nat)

namespace TaskState

/-- The holder has just been constructed, which starts the handler. -/
def init : TaskState where
  holder := .create
  runners := .empty
  tasks := []
  handler := .looping
  stops := .empty
  mutex := none
  issued := []

def setRunner (s : TaskState) (name : Nat) (rs : RunnerState) : TaskState :=
  { s with runners := s.runners.insert name rs }

def removeRunner (s : TaskState) (name : Nat) : TaskState :=
  { s with runners := s.runners.erase name }

/-- The task was launched and has not ended. -/
def Running (s : TaskState) (task : Nat) : Prop :=
  ∃ record, s.tasks[task]? = some record ∧ record.result = none

def Finished (s : TaskState) (task : Nat) : Prop :=
  ∃ record result, s.tasks[task]? = some record ∧ record.result = some result

/-- The task performs an operation of some runner. -/
def Engaged (s : TaskState) (task : Nat) : Prop :=
  ∃ name rs, s.runners.find? name = some rs ∧ rs.agent = some task

theorem not_engaged_of_entries {s : TaskState} {task : Nat}
    (others : ∀ entry ∈ s.runners.entries, entry.2.agent ≠ some task) : ¬ s.Engaged task := by
  rintro ⟨name, rs, found, agentEq⟩
  exact others _ (OrderedMap.find?_eq_some_iff.mp found) agentEq

/-- The agent can begin an operation: it is a thread of the user, or a task that
runs and performs no other one. -/
def Free (s : TaskState) (agent : Option Nat) : Prop :=
  ∀ task, agent = some task → s.Running task ∧ ¬ s.Engaged task

end TaskState

/-- The runner at the entry of `_run`: `run` appends its command first. -/
def enterRun (runner : CAsyncRunner) : Option CCommand → CAsyncRunner
  | none => runner
  | some cmd => runner.append cmd

/-- Only a runner with an id has one to return. -/
def runEntry (runner : CAsyncRunner) (hasCallback : Bool) : RunnerPc :=
  if runner.resultId ≠ 0 then .runEntered hasCallback else .runReturned hasCallback

/-- The steps of the runners. -/
inductive RunnerStep : TaskState → TaskAction → TaskState → Prop
  | construct {s : TaskState} {name : Nat} :
      s.runners.find? name = none →
      RunnerStep s (.construct name) (s.setRunner name ⟨.create, .idle, none⟩)
  | append {s : TaskState} {name : Nat} {cmd : CCommand} {runner : CAsyncRunner} :
      s.runners.find? name = some ⟨runner, .idle, none⟩ →
      RunnerStep s (.append name cmd) (s.setRunner name ⟨runner.append cmd, .idle, none⟩)
  | run {s : TaskState} {name : Nat} {agent : Option Nat} {cmd : Option CCommand}
      {hasCallback : Bool} {runner : CAsyncRunner} :
      s.runners.find? name = some ⟨runner, .idle, none⟩ →
      s.Free agent →
      RunnerStep s (.run name agent cmd hasCallback)
        (s.setRunner name ⟨enterRun runner cmd, runEntry runner hasCallback, agent⟩)
  | returnId {s : TaskState} {name : Nat} {agent : Option Nat} {hasCallback : Bool}
      {runner : CAsyncRunner} :
      s.runners.find? name = some ⟨runner, .runEntered hasCallback, agent⟩ →
      s.mutex = none →
      RunnerStep s (.returnId name)
        ({ s with holder := s.holder.returnId runner.resultId }.setRunner name
          ⟨runner, .runReturned hasCallback, agent⟩)
  | launch {s : TaskState} {name : Nat} {agent : Option Nat} {hasCallback : Bool}
      {runner : CAsyncRunner} :
      s.runners.find? name = some ⟨runner, .runReturned hasCallback, agent⟩ →
      RunnerStep s (.launch name)
        ({ s with
            tasks := s.tasks ++ [TaskRecord.mk hasCallback runner.lstCommand none] }.setRunner name
          ⟨{ runner with lstCommand := [] }, .runLaunched s.tasks.length, agent⟩)
  | addTask {s : TaskState} {name task : Nat} {agent : Option Nat} {runner : CAsyncRunner} :
      s.runners.find? name = some ⟨runner, .runLaunched task, agent⟩ →
      s.mutex = none →
      s.holder.mapTask.find? ((s.holder.lastId + 1) % uint64Size) = none →
      RunnerStep s (.addTask name)
        ({ s with
            holder := (s.holder.addTask task).2
            issued := (s.holder.addTask task).1 :: s.issued }.setRunner name
          ⟨runner, .runAdded (s.holder.addTask task).1, agent⟩)
  | addTaskInUse {s : TaskState} {name task other : Nat} {agent : Option Nat}
      {runner : CAsyncRunner} :
      s.runners.find? name = some ⟨runner, .runLaunched task, agent⟩ →
      s.mutex = none →
      s.holder.mapTask.find? ((s.holder.lastId + 1) % uint64Size) = some other →
      RunnerStep s (.addTask name)
        ({ s with
            holder := (s.holder.addTask task).2
            mutex := some (.runner name task) }.setRunner name ⟨runner, .runDropping, agent⟩)
  | dropTask {s : TaskState} {name task : Nat} {agent : Option Nat} {runner : CAsyncRunner} :
      s.runners.find? name = some ⟨runner, .runDropping, agent⟩ →
      s.mutex = some (.runner name task) →
      s.Finished task →
      RunnerStep s (.dropTask name)
        ({ s with
            mutex := none
            issued := 0 :: s.issued }.setRunner name ⟨runner, .runAdded 0, agent⟩)
  | assign {s : TaskState} {name id : Nat} {agent : Option Nat} {runner : CAsyncRunner} :
      s.runners.find? name = some ⟨runner, .runAdded id, agent⟩ →
      RunnerStep s (.assign name) (s.setRunner name ⟨{ runner with resultId := id }, .idle, none⟩)
  | getNothing {s : TaskState} {name : Nat} {runner : CAsyncRunner} :
      s.runners.find? name = some ⟨runner, .idle, none⟩ →
      runner.resultId = 0 →
      RunnerStep s (.returned name .empty) s
  | getResult {s : TaskState} {name : Nat} {agent : Option Nat} {runner : CAsyncRunner} :
      s.runners.find? name = some ⟨runner, .idle, none⟩ →
      runner.resultId ≠ 0 →
      s.Free agent →
      RunnerStep s (.getResult name agent) (s.setRunner name ⟨runner, .getEntered, agent⟩)
  | take {s : TaskState} {name : Nat} {agent : Option Nat} {runner : CAsyncRunner} :
      s.runners.find? name = some ⟨runner, .getEntered, agent⟩ →
      s.mutex = none →
      RunnerStep s (.take name)
        ({ s with holder := (s.holder.getResult runner.resultId).2 }.setRunner name
          ⟨runner, .getTaken (s.holder.getResult runner.resultId).1, agent⟩)
  | reset {s : TaskState} {name : Nat} {agent : Option Nat} {runner : CAsyncRunner}
      {result : Option Nat} :
      s.runners.find? name = some ⟨runner, .getTaken result, agent⟩ →
      RunnerStep s (.reset name)
        (s.setRunner name ⟨{ runner with resultId := 0 }, .getReset result, agent⟩)
  | getInvalid {s : TaskState} {name : Nat} {agent : Option Nat} {runner : CAsyncRunner} :
      s.runners.find? name = some ⟨runner, .getReset none, agent⟩ →
      RunnerStep s (.returned name .empty) (s.setRunner name ⟨runner, .idle, none⟩)
  | getReply {s : TaskState} {name task : Nat} {agent : Option Nat} {runner : CAsyncRunner}
      {record : TaskRecord} {rpy : CReply} :
      s.runners.find? name = some ⟨runner, .getReset (some task), agent⟩ →
      s.tasks[task]? = some record →
      record.result = some (.returned rpy) →
      RunnerStep s (.returned name rpy) (s.setRunner name ⟨runner, .idle, none⟩)
  | destroyNothing {s : TaskState} {name : Nat} {agent : Option Nat} {runner : CAsyncRunner} :
      s.runners.find? name = some ⟨runner, .idle, none⟩ →
      runner.resultId = 0 →
      RunnerStep s (.destroy name agent) (s.removeRunner name)
  | destroy {s : TaskState} {name : Nat} {agent : Option Nat} {runner : CAsyncRunner} :
      s.runners.find? name = some ⟨runner, .idle, none⟩ →
      runner.resultId ≠ 0 →
      s.Free agent →
      RunnerStep s (.destroy name agent) (s.setRunner name ⟨runner, .destroyEntered, agent⟩)
  | destroyReturnId {s : TaskState} {name : Nat} {agent : Option Nat} {runner : CAsyncRunner} :
      s.runners.find? name = some ⟨runner, .destroyEntered, agent⟩ →
      s.mutex = none →
      RunnerStep s (.returnId name)
        ({ s with holder := s.holder.returnId runner.resultId }.removeRunner name)

/-- The steps of the handler.  Erasing the entry of a task that has not ended
blocks. -/
inductive HandlerStep : TaskState → TaskState → Prop
  | loop {s : TaskState} :
      s.handler = .looping →
      HandlerStep s { s with handler := if s.holder.terminate then .ended else .testing }
  | test {s : TaskState} :
      s.handler = .testing →
      HandlerStep s { s with handler := if s.holder.lstReturnedId = [] then .looping else .locking }
  | lock {s : TaskState} :
      s.handler = .locking →
      s.mutex = none →
      HandlerStep s
        { s with handler := .erasing s.holder.lstReturnedId, mutex := some .handler }
  | erase {s : TaskState} {id : Nat} {rest : List Nat} :
      s.handler = .erasing (id :: rest) →
      (∀ task, s.holder.mapTask.find? id = some task → s.Finished task) →
      HandlerStep s { s with handler := .erasing rest, holder := s.holder.remove id }
  | clear {s : TaskState} :
      s.handler = .erasing [] →
      HandlerStep s
        { s with
          handler := .looping
          holder := { s.holder with lstReturnedId := [] }
          mutex := none }

/-- The steps of a call of `stop`. -/
inductive StopStep (caller : Nat) : TaskState → TaskState → Prop
  | call {s : TaskState} :
      s.stops.find? caller = none →
      StopStep caller s { s with stops := s.stops.insert caller .called }
  | terminate {s : TaskState} :
      s.stops.find? caller = some .called →
      StopStep caller s
        { s with
          stops := s.stops.insert caller .waiting
          holder := { s.holder with terminate := true } }
  | wait {s : TaskState} :
      s.stops.find? caller = some .waiting →
      s.handler = .ended →
      StopStep caller s { s with stops := s.stops.insert caller .locking }
  | lock {s : TaskState} :
      s.stops.find? caller = some .locking →
      s.mutex = none →
      StopStep caller s
        { s with
          stops := s.stops.insert caller (.joining (s.holder.mapTask.entries.map Prod.snd))
          mutex := some (.stop caller) }
  | join {s : TaskState} {task : Nat} {rest : List Nat} :
      s.stops.find? caller = some (.joining (task :: rest)) →
      s.Finished task →
      StopStep caller s { s with stops := s.stops.insert caller (.joining rest) }
  | clear {s : TaskState} :
      s.stops.find? caller = some (.joining []) →
      StopStep caller s
        { s with
          stops := s.stops.erase caller
          holder := { s.holder with mapTask := .empty }
          mutex := none }

/-- One step of anybody.  A task ends with what some execution of its body ends
with. -/
inductive TaskStep (TRetryCount : Nat) : TaskState → TaskAction → TaskState → Prop
  | runner {s t : TaskState} {action : TaskAction} :
      RunnerStep s action t → TaskStep TRetryCount s action t
  | handler {s t : TaskState} :
      HandlerStep s t → TaskStep TRetryCount s .handler t
  | stop {s t : TaskState} {caller : Nat} :
      StopStep caller s t → TaskStep TRetryCount s (.stop caller) t
  | finish {s : TaskState} {task : Nat} {record : TaskRecord} {result : TaskResult}
      {trace : List RunnerEvent} :
      s.tasks[task]? = some record →
      record.result = none →
      ¬ s.Engaged task →
      Exec (CAsyncRunner.task TRetryCount record.hasCallback record.lstCommand) trace
        (.ok result) →
      TaskStep TRetryCount s (.finish task result)
        { s with tasks := s.tasks.set task { record with result := some result } }

abbrev TaskVisit := Visit TaskState TaskAction

end MCRedis.Task
