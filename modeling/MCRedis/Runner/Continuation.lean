import MCRedis.Runner.Agreement
import MCRedis.Runner.History
import MCRedis.Transition.Session

/-!
# Continuing on a moved runner

A runner that is constructed by moving another one takes its pool.  It continues
as the other one would have when no session on the two tells them apart: the
same commands are sent, the same callbacks are invoked and the same is returned
by every later sequence of calls.

The move constructors leave the queue and the id of the result behind, so this
holds of a runner with nothing queued and no result pending, and of no other.

A session runs every task where it is launched.  What a task does depends on the
answers it gets and on nothing else, so tasks that overlap in time do the same
one after the other, in the environment that gives each of them its answers.
-/

namespace MCRedis.Runner

open MCRedis.Client
open MCRedis.Container
open MCRedis.Pool
open MCRedis.Task
open MCRedis.Transition

/-! ## Sessions with a runner -/

/-- What a user sees of a session: the commands that are sent, and the callbacks
with the replies they are invoked on. -/
inductive Visible
  | sent (argv : List Bytes)
  | called (rpy : CReply)

def visible : RunnerEvent → Option Visible
  | ⟨.redis (.commandArgv _ argv), _⟩ => some (.sent argv)
  | ⟨.redis (.appendCommandArgv _ argv), _⟩ => some (.sent argv)
  | ⟨.callback rpy _, _⟩ => some (.called rpy)
  | _ => none

/-- One call on a `CRunner`, with the replies it returns. -/
def CRunner.call (TRetryCount : Nat) : Call → CRunner → RunnerProgram (List CReply × CRunner)
  | .append text, runner => pure ([], runner.append (.ofTexts text))
  | .run text hasCallback, runner => do
      let (rpy, runner) ← runner.run TRetryCount hasCallback (.ofTexts text)
      pure ([rpy], runner)
  | .runCommands hasCallback, runner => runner.runCommands TRetryCount hasCallback

/-- One call on a `CAsyncRunner`. -/
inductive AsyncCall
  | append (text : List Bytes)
  | run (text : List Bytes) (hasCallback : Bool)
  | runCommands (hasCallback : Bool)
  | getResult

/-- A `CAsyncRunner` and the task holder that keeps its result. -/
abbrev AsyncState := CAsyncRunner × CTaskHolder TaskResult

/-- One call on a `CAsyncRunner`, with the replies it returns. -/
def CAsyncRunner.call (TRetryCount : Nat) :
    AsyncCall → AsyncState → RunnerProgram (List CReply × AsyncState)
  | .append text, (runner, taskHolder) => pure ([], (runner.append (.ofTexts text), taskHolder))
  | .run text hasCallback, (runner, taskHolder) => do
      let after ← runner.run TRetryCount hasCallback (.ofTexts text) taskHolder
      pure ([], after)
  | .runCommands hasCallback, (runner, taskHolder) => do
      let after ← runner.runCommands TRetryCount hasCallback taskHolder
      pure ([], after)
  | .getResult, (runner, taskHolder) => do
      let (rpy, after) ← Program.ofExcept (runner.getResult taskHolder)
      pure ([rpy], after)

/-- The runner that is move-constructed continues as the original would have. -/
def CRunner.Continues (TRetryCount : Nat) (runner : CRunner) : Prop :=
  Alike visible (CRunner.call TRetryCount) runner.moved runner

@[inherit_doc CRunner.Continues]
def CAsyncRunner.Continues (TRetryCount : Nat) (runner : CAsyncRunner)
    (taskHolder : CTaskHolder TaskResult) : Prop :=
  Alike visible (CAsyncRunner.call TRetryCount) (runner.moved, taskHolder) (runner, taskHolder)

/-- The future under the id of the runner, which `getResult` would take. -/
def CAsyncRunner.pending (runner : CAsyncRunner) (taskHolder : CTaskHolder TaskResult) :
    Option TaskResult :=
  if runner.resultId = 0 then none else taskHolder.mapTask.find? runner.resultId

/-! ## Nothing is left behind -/

/-- Holders with the same futures under the same ids.  Neither `addTask` nor
`getResult` looks at the ids that were returned. -/
structure SameTasks (first second : CTaskHolder TaskResult) : Prop where
  mapTask : first.mapTask = second.mapTask
  lastId : first.lastId = second.lastId

namespace SameTasks

variable {first second : CTaskHolder TaskResult}

theorem addTask (same : SameTasks first second) (result : TaskResult) :
    (first.addTask result).1 = (second.addTask result).1 ∧
      SameTasks (first.addTask result).2 (second.addTask result).2 := by
  simp only [CTaskHolder.addTask, same.mapTask, same.lastId]
  split
  · exact ⟨rfl, rfl, rfl⟩
  · exact ⟨rfl, rfl, rfl⟩

theorem returnId (same : SameTasks first second) (id other : Nat) :
    SameTasks (if id ≠ 0 then first.returnId id else first)
      (if other ≠ 0 then second.returnId other else second) := by
  split <;> split <;> exact ⟨same.mapTask, same.lastId⟩

end SameTasks

/-- Runners with the same queue that get the same results: they have the same
id, or neither has a future. -/
structure SameRunner (first second : AsyncState) : Prop where
  queue : first.1.lstCommand = second.1.lstCommand
  tasks : SameTasks first.2 second.2
  result : first.1.resultId = second.1.resultId ∨
    first.1.pending first.2 = none ∧ second.1.pending second.2 = none

namespace CAsyncRunner

/-- What `_run` leaves behind once its task has ended with `result`. -/
def launched (runner : CAsyncRunner) (taskHolder : CTaskHolder TaskResult) (result : TaskResult) :
    AsyncState :=
  let taskHolder :=
    if runner.resultId ≠ 0 then taskHolder.returnId runner.resultId else taskHolder
  (⟨[], (taskHolder.addTask result).1⟩, (taskHolder.addTask result).2)

theorem call_run (TRetryCount : Nat) (text : List Bytes) (hasCallback : Bool)
    (runner : CAsyncRunner) (taskHolder : CTaskHolder TaskResult) :
    CAsyncRunner.call TRetryCount (.run text hasCallback) (runner, taskHolder) =
      (task TRetryCount hasCallback (runner.lstCommand ++ [.ofTexts text])).bind fun result =>
        .pure ([], runner.launched taskHolder result) :=
  Program.bind_bind _ _ _

theorem call_runCommands (TRetryCount : Nat) (hasCallback : Bool) (runner : CAsyncRunner)
    (taskHolder : CTaskHolder TaskResult) :
    CAsyncRunner.call TRetryCount (.runCommands hasCallback) (runner, taskHolder) =
      (task TRetryCount hasCallback runner.lstCommand).bind fun result =>
        .pure ([], runner.launched taskHolder result) :=
  Program.bind_bind _ _ _

/-- `getResult` returns the future that is pending, and leaves no id behind. -/
theorem getResult_eq (runner : CAsyncRunner) (taskHolder : CTaskHolder TaskResult) :
    runner.getResult taskHolder =
      match runner.pending taskHolder with
      | none => .ok (.empty, { runner with resultId := 0 }, taskHolder)
      | some (.returned rpy) =>
          .ok (rpy, { runner with resultId := 0 },
            { taskHolder with mapTask := taskHolder.mapTask.erase runner.resultId })
      | some .threw => .error .terminate := by
  rcases runner with ⟨lstCommand, resultId⟩
  by_cases noId : resultId = 0
  · subst noId
    rfl
  · simp only [getResult, pending, if_neg noId, CTaskHolder.getResult]
    cases taskHolder.mapTask.find? resultId with
    | none => rfl
    | some result => cases result <;> rfl

end CAsyncRunner

namespace SameRunner

variable {first second : AsyncState}

/-- The runners have the same future. -/
theorem pending_eq (same : SameRunner first second) :
    first.1.pending first.2 = second.1.pending second.2 := by
  rcases same.result with sameId | ⟨firstNone, secondNone⟩
  · rw [CAsyncRunner.pending, CAsyncRunner.pending, sameId, same.tasks.mapTask]
  · rw [firstNone, secondNone]

theorem launched (same : SameRunner first second) (result : TaskResult) :
    SameRunner (first.1.launched first.2 result) (second.1.launched second.2 result) := by
  obtain ⟨sameId, tasks⟩ := (same.tasks.returnId first.1.resultId second.1.resultId).addTask result
  exact ⟨rfl, tasks, .inl sameId⟩

theorem getResult (TRetryCount : Nat) (same : SameRunner first second) :
    InStep Eq (fun performed other => performed.1 = other.1 ∧ SameRunner performed.2 other.2)
      (CAsyncRunner.call TRetryCount .getResult first)
      (CAsyncRunner.call TRetryCount .getResult second) := by
  rcases first with ⟨runner, taskHolder⟩
  rcases second with ⟨other, otherHolder⟩
  have queue : runner.lstCommand = other.lstCommand := same.queue
  have pendingEq : runner.pending taskHolder = other.pending otherHolder := same.pending_eq
  rw [CAsyncRunner.call, CAsyncRunner.call, CAsyncRunner.getResult_eq, CAsyncRunner.getResult_eq,
    ← pendingEq]
  cases found : runner.pending taskHolder with
  | none => exact ⟨rfl, queue, same.tasks, .inl rfl⟩
  | some result =>
      cases result with
      | threw => rfl
      | returned rpy =>
          have sameId : runner.resultId = other.resultId :=
            same.result.resolve_right fun none => Option.some_ne_none _ (found.symm.trans none.1)
          refine ⟨rfl, queue, ⟨?_, same.tasks.lastId⟩, .inl rfl⟩
          dsimp only
          rw [sameId]
          exact congrArg (OrderedMap.erase · _) same.tasks.mapTask

/-- Every call on the two runners runs in step and keeps them the same. -/
theorem call (TRetryCount : Nat) (asyncCall : AsyncCall) (same : SameRunner first second) :
    InStep Eq (fun performed other => performed.1 = other.1 ∧ SameRunner performed.2 other.2)
      (CAsyncRunner.call TRetryCount asyncCall first)
      (CAsyncRunner.call TRetryCount asyncCall second) := by
  cases asyncCall with
  | append text => exact ⟨rfl, congrArg (· ++ _) same.queue, same.tasks, same.result⟩
  | run text hasCallback =>
      rw [CAsyncRunner.call_run, CAsyncRunner.call_run, same.queue]
      apply (InStep.refl _).bind
      rintro result _ rfl
      exact ⟨rfl, same.launched result⟩
  | runCommands hasCallback =>
      rw [CAsyncRunner.call_runCommands, CAsyncRunner.call_runCommands, same.queue]
      apply (InStep.refl _).bind
      rintro result _ rfl
      exact ⟨rfl, same.launched result⟩
  | getResult => exact same.getResult TRetryCount

end SameRunner

/-! ## A pool without connections -/

/-- A pool that has no connection for any key, and callbacks that put `rpy` in
the place of what they are given. -/
def noConnection (rpy : CReply) : Environment RunnerOp RunnerAns Unit
  | .get _, _ => (⟨none⟩, ())
  | .release _, _ => ((), ())
  | .callback _ _, _ => (.returned rpy, ())
  | .redis op, _ => ((freshEnvironment (fun _ => (0, 0)) (fun _ => true) (.redis op) 0).1, ())

/-- The pool gives no usable connection. -/
def givesNothing : RunnerEvent → Prop
  | ⟨.get _, handle⟩ => usable handle = none
  | _ => True

theorem givesNothing_noConnection (rpy : CReply) (op : RunnerOp) (state : Unit) :
    givesNothing ⟨op, (noConnection rpy op state).1⟩ := by
  cases op with
  | get key => rfl
  | release | callback | redis => trivial

/-- A run against that pool is an execution without connections. -/
theorem exec_noConnection {α : Type} (rpy : CReply) (program : RunnerProgram α) :
    Exec program (program.run (noConnection rpy) ()).trace
        (program.run (noConnection rpy) ()).result ∧
      ∀ event ∈ (program.run (noConnection rpy) ()).trace, givesNothing event :=
  ⟨Program.exec_run (noConnection rpy) program (),
    Program.run_trace_forall (givesNothing_noConnection rpy) program ()⟩

/-- No command is mapped without a connection. -/
theorem MappingResult.groups_eq_nil {TRetryCount : Nat} {queue left : List CCommand}
    {groups : List NodeCommand} {trace : List RunnerEvent}
    (result : MappingResult TRetryCount queue [] [] trace groups left)
    (nothing : ∀ event ∈ trace, givesNothing event) : groups = [] := by
  cases groups with
  | nil => rfl
  | cons elem groups =>
      rcases result.connections elem.conn List.mem_cons_self with mem | ⟨key, handle, mem, found⟩
      · contradiction
      · have missed : usable handle = none := nothing _ mem
        exact absurd (missed.symm.trans found) (Option.some_ne_none _).symm

/-- Without connections, `runCommands` still returns a reply for every command of
the queue. -/
theorem length_runCommands {TRetryCount : Nat} {hasCallback : Bool} {runner after : CRunner}
    {trace : List RunnerEvent} {lstRpy : List CReply}
    (exec : Exec (CRunner.runCommands TRetryCount hasCallback runner) trace (.ok (lstRpy, after)))
    (nothing : ∀ event ∈ trace, givesNothing event) : lstRpy.length = runner.lstCommand.length := by
  rcases runner with ⟨queue⟩
  by_cases single : queue.length = 1
  · obtain ⟨cmd, rfl⟩ := List.length_eq_one_iff.mp single
    rcases Exec.bind_iff.mp exec with ⟨fault, _, _⟩ | ⟨rpy, _, _, _, _, continued⟩
    · contradiction
    · obtain ⟨fault | called, _, resultEq⟩ := Exec.bind_pure_iff.mp continued
      · contradiction
      · cases resultEq
        rfl
  · rw [runCommands_eq TRetryCount hasCallback single] at exec
    rcases Exec.bind_iff.mp exec with
      ⟨fault, _, _⟩ | ⟨⟨groups, left⟩, first, second, rfl, mapping, batch⟩
    · contradiction
    · have mappingResult := exec_mapCommandPerNode mapping
      cases mappingResult.groups_eq_nil (List.forall_mem_append.mp nothing).1
      obtain ⟨_, resultEq⟩ := Exec.pure_iff.mp batch
      cases resultEq
      simpa [resize] using mappingResult.length

theorem visible_of_isPoolEvent {event : RunnerEvent} (pool : isPoolEvent event) :
    visible event = none := by
  rcases event with ⟨_ | _ | _ | _, answer⟩ <;> first | rfl | contradiction

/-- Without connections, something is seen of a task with a callback when it is
for a single command, and only then. -/
theorem visible_iff_single {TRetryCount : Nat} {queue : List CCommand} {trace : List RunnerEvent}
    {result : TaskResult}
    (exec : Exec (CAsyncRunner.task TRetryCount true queue) trace (.ok result))
    (nothing : ∀ event ∈ trace, givesNothing event) :
    trace.filterMap visible ≠ [] ↔ queue.length = 1 := by
  by_cases single : queue.length = 1
  · obtain ⟨cmd, rfl⟩ := List.length_eq_one_iff.mp single
    refine iff_of_true ?_ single
    rcases Exec.bind_iff.mp exec with ⟨fault, _, _⟩ | ⟨rpy, first, _, rfl, _, continued⟩
    · contradiction
    · obtain ⟨answer, rest, rfl, _⟩ := Exec.request_iff.mp continued
      rw [List.filterMap_append]
      exact List.append_ne_nil_of_right_ne_nil _ (List.cons_ne_nil _ _)
  · refine iff_of_false (not_not.mpr ?_) single
    rw [task_eq TRetryCount true single] at exec
    rcases Exec.bind_iff.mp exec with
      ⟨fault, _, _⟩ | ⟨⟨groups, left⟩, first, second, rfl, mapping, tasking⟩
    · contradiction
    · have mappingResult := exec_mapCommandPerNode mapping
      cases mappingResult.groups_eq_nil (List.forall_mem_append.mp nothing).1
      obtain ⟨rfl, _⟩ := Exec.pure_iff.mp tasking
      rw [List.append_nil, List.filterMap_eq_nil_iff]
      exact fun event mem => visible_of_isPoolEvent (mappingResult.poolOnly event mem)

/-- `PING`. -/
def ping : List Bytes :=
  [[0x50, 0x49, 0x4e, 0x47]]

theorem run_singleAttempts (rpy : CReply) (cmdKey : Option Bytes) (cmd : CCommand) (tryCount : Nat)
    (last : CReply) :
    ∃ trace, (singleAttempts cmdKey cmd tryCount last).run (noConnection rpy) () =
      ⟨trace, .ok last, ()⟩ := by
  induction tryCount with
  | zero => exact ⟨[], rfl⟩
  | succ tryCount ih =>
      obtain ⟨trace, ran⟩ := ih
      have missed : (singleAttempts cmdKey cmd (tryCount + 1) last).run (noConnection rpy) () =
          let rest := (singleAttempts cmdKey cmd tryCount last).run (noConnection rpy) ()
          ⟨⟨.get cmdKey, ⟨none⟩⟩ :: ⟨.release ⟨none⟩, ()⟩ :: rest.trace, rest.result, rest.state⟩ :=
        rfl
      exact ⟨_, by rw [missed, ran]⟩

/-- Without connections, the reply of a task for one command is what its callback
puts there. -/
theorem run_task_ping (TRetryCount : Nat) (rpy : CReply) :
    ∃ trace, (CAsyncRunner.task TRetryCount true [.ofTexts ping]).run (noConnection rpy) () =
      ⟨trace, .ok (.returned rpy), ()⟩ := by
  obtain ⟨trace, ran⟩ := run_singleAttempts rpy none (.ofTexts ping) TRetryCount .empty
  refine ⟨trace ++ [⟨.callback .empty ⟨none⟩, .returned rpy⟩], ?_⟩
  have returned : ((runSingleCommand TRetryCount (.ofTexts ping)).run (noConnection rpy) ()) =
      ⟨trace, .ok .empty, ()⟩ := ran
  change ((runSingleCommand TRetryCount (.ofTexts ping)).bind _).run _ _ = _
  rw [Program.run_bind_ok _ (congrArg Outcome.result returned), returned]
  rfl

/-! ## What was queued -/

/-- The replies that `runCommands` returns tell how many commands were queued. -/
theorem CRunner.lstCommand_eq_nil {TRetryCount : Nat} {rpy : CReply} {runner : CRunner}
    (alike : AlikeIn visible (CRunner.call TRetryCount) (noConnection rpy) () runner.moved runner) :
    runner.lstCommand = [] := by
  obtain ⟨_, returned⟩ := alike.first_call (.runCommands false)
  obtain ⟨exec, nothing⟩ :=
    exec_noConnection rpy (CRunner.call TRetryCount (.runCommands false) runner)
  generalize Program.run _ (CRunner.call _ _ runner) _ = outcome at exec nothing returned
  rcases outcome with ⟨trace, fault | ⟨lstRpy, after⟩, state⟩
  · contradiction
  · cases returned
    exact List.length_eq_zero_iff.mp (length_runCommands exec nothing).symm

/-- A callback of `run` is invoked when nothing was queued before, and only
then. -/
theorem CAsyncRunner.lstCommand_eq_nil {TRetryCount : Nat} {rpy : CReply} {runner : CAsyncRunner}
    {taskHolder : CTaskHolder TaskResult}
    (alike : AlikeIn visible (CAsyncRunner.call TRetryCount) (noConnection rpy) ()
      (runner.moved, taskHolder) (runner, taskHolder)) : runner.lstCommand = [] := by
  obtain ⟨sameVisible, returned⟩ := alike.first_call (.run ping true)
  rw [call_run, call_run, Program.run_bind_pure, Program.run_bind_pure] at sameVisible returned
  obtain ⟨trace, ran⟩ := run_task_ping TRetryCount rpy
  have movedQueue : runner.moved.lstCommand ++ [.ofTexts ping] = [.ofTexts ping] := rfl
  obtain ⟨pingExec, pingNothing⟩ := exec_noConnection rpy (task TRetryCount true [.ofTexts ping])
  rw [movedQueue, ran] at sameVisible returned
  rw [ran] at pingExec pingNothing
  obtain ⟨exec, nothing⟩ :=
    exec_noConnection rpy (task TRetryCount true (runner.lstCommand ++ [.ofTexts ping]))
  generalize Program.run _ (task TRetryCount true (runner.lstCommand ++ _)) _ = outcome
    at exec nothing sameVisible returned
  rcases outcome with ⟨others, fault | result, state⟩
  · contradiction
  · have single : (runner.lstCommand ++ [CCommand.ofTexts ping]).length = 1 := by
      apply (visible_iff_single exec nothing).mp
      rw [← sameVisible]
      exact (visible_iff_single pingExec pingNothing).mpr rfl
    rw [List.length_append] at single
    exact List.length_eq_zero_iff.mp (Nat.succ_injective single)

/-! ## What was pending -/

namespace CAsyncRunner

theorem run_getResult {TRetryCount : Nat} {runner : CAsyncRunner}
    {taskHolder : CTaskHolder TaskResult} {rpy : CReply} {after : AsyncState}
    (returned : runner.getResult taskHolder = .ok (rpy, after))
    (environment : Environment RunnerOp RunnerAns Unit) :
    (CAsyncRunner.call TRetryCount .getResult (runner, taskHolder)).run environment () =
      ⟨[], .ok ([rpy], after), ()⟩ := by
  rw [call, returned]
  rfl

/-- A task for `PING` is launched, and its future goes to the holder. -/
theorem run_ping (TRetryCount : Nat) (rpy : CReply) (taskHolder : CTaskHolder TaskResult) :
    ∃ trace, (CAsyncRunner.call TRetryCount (.run ping true) (.create, taskHolder)).run
        (noConnection rpy) () =
      ⟨trace, .ok ([], ⟨[], (taskHolder.addTask (.returned rpy)).1⟩,
        (taskHolder.addTask (.returned rpy)).2), ()⟩ := by
  obtain ⟨trace, ran⟩ := run_task_ping TRetryCount rpy
  refine ⟨trace, ?_⟩
  have queue : create.lstCommand ++ [.ofTexts ping] = [.ofTexts ping] := rfl
  rw [call_run, Program.run_bind_pure, queue, ran]
  rfl

/-- The future of a task is pending for the runner that added it, unless the next
id is zero or in use. -/
theorem pending_addTask (taskHolder : CTaskHolder TaskResult) (result : TaskResult) :
    pending ⟨[], (taskHolder.addTask result).1⟩ (taskHolder.addTask result).2 =
      if (taskHolder.lastId + 1) % uint64Size = 0 ∨
        taskHolder.mapTask.find? ((taskHolder.lastId + 1) % uint64Size) ≠ none then none
      else some result := by
  cases found : taskHolder.mapTask.find? ((taskHolder.lastId + 1) % uint64Size) with
  | some old =>
      simp only [CTaskHolder.addTask, found, pending]
      rw [if_true, if_pos (.inr (Option.some_ne_none old))]
  | none =>
      simp only [CTaskHolder.addTask, found, pending, OrderedMap.find?_insert_self, ne_eq,
        not_true_eq_false, or_false]

/-- `getResult` after a task leaves the holder as it was before, but for the id
that the task was given. -/
theorem getResult_added (taskHolder : CTaskHolder TaskResult) (rpy : CReply) :
    ∃ got after,
      getResult ⟨[], (taskHolder.addTask (.returned rpy)).1⟩
          (taskHolder.addTask (.returned rpy)).2 = .ok (got, .create, after) ∧
      after.lastId = (taskHolder.lastId + 1) % uint64Size ∧
      ∀ other, other ≠ (taskHolder.lastId + 1) % uint64Size →
        after.mapTask.find? other = taskHolder.mapTask.find? other := by
  have lastId : (taskHolder.addTask (.returned rpy)).2.lastId =
      (taskHolder.lastId + 1) % uint64Size := by
    rw [CTaskHolder.addTask]
    split <;> rfl
  have others : ∀ other, other ≠ (taskHolder.lastId + 1) % uint64Size →
      (taskHolder.addTask (.returned rpy)).2.mapTask.find? other =
        taskHolder.mapTask.find? other := fun other differs =>
    (CTaskHolder.find?_addTask _ _ _).resolve_right fun added => differs added.1
  rw [getResult_eq, pending_addTask]
  split_ifs with none
  · exact ⟨_, _, rfl, lastId, others⟩
  · refine ⟨_, _, rfl, lastId, fun other differs => ?_⟩
    obtain ⟨_, unused⟩ := not_or.mp none
    have idEq : (taskHolder.addTask (.returned rpy)).1 = (taskHolder.lastId + 1) % uint64Size := by
      simp only [CTaskHolder.addTask, not_not.mp unused]
    dsimp only
    rw [idEq, OrderedMap.find?_erase, if_neg differs, others other differs]

/-- The next task is given the id of a future that one of the runners has left in
the holder; the other one gets its result. -/
theorem not_alike_of_taken {TRetryCount : Nat} {rpy : CReply}
    {first second : CTaskHolder TaskResult} {id : Nat} (notEmpty : rpy ≠ .empty) (hasId : id ≠ 0)
    (taken : first.mapTask.find? id ≠ none) (free : second.mapTask.find? id = none)
    (firstNext : (first.lastId + 1) % uint64Size = id)
    (secondNext : (second.lastId + 1) % uint64Size = id) :
    ¬ AlikeIn visible (CAsyncRunner.call TRetryCount) (noConnection rpy) ()
      (.create, first) (.create, second) := by
  intro alike
  obtain ⟨_, firstRan⟩ := run_ping TRetryCount rpy first
  obtain ⟨_, secondRan⟩ := run_ping TRetryCount rpy second
  have returned := ((alike.next_calls firstRan secondRan).first_call .getResult).2
  have firstResult : getResult ⟨[], (first.addTask (.returned rpy)).1⟩
      (first.addTask (.returned rpy)).2 =
        .ok (.empty, .create, (first.addTask (.returned rpy)).2) := by
    rw [getResult_eq, pending_addTask, firstNext, if_pos (.inr taken)]
    rfl
  have secondResult : ∃ after, getResult ⟨[], (second.addTask (.returned rpy)).1⟩
      (second.addTask (.returned rpy)).2 = .ok (rpy, after) := by
    rw [getResult_eq, pending_addTask, secondNext, if_neg (not_or.mpr ⟨hasId, not_not.mpr free⟩)]
    exact ⟨_, rfl⟩
  obtain ⟨after, secondResult⟩ := secondResult
  rw [run_getResult firstResult, run_getResult secondResult] at returned
  cases returned
  contradiction

/-- Ids are issued in a circle, so the id of a future that only one of the holders
has is reached after `count` further tasks. -/
theorem not_alike_of_kept {TRetryCount : Nat} {rpy : CReply}
    {first second : CTaskHolder TaskResult} {id : Nat} (notEmpty : rpy ≠ .empty) (hasId : id ≠ 0)
    (kept : first.mapTask.find? id ≠ none) (free : second.mapTask.find? id = none)
    (sameLast : first.lastId = second.lastId) (count : Nat)
    (reaches : (first.lastId + 1 + count) % uint64Size = id) :
    ¬ AlikeIn visible (CAsyncRunner.call TRetryCount) (noConnection rpy) ()
      (.create, first) (.create, second) := by
  induction count generalizing first second with
  | zero => exact not_alike_of_taken notEmpty hasId kept free reaches (sameLast ▸ reaches)
  | succ count ih =>
      by_cases next : (first.lastId + 1) % uint64Size = id
      · exact not_alike_of_taken notEmpty hasId kept free next (sameLast ▸ next)
      · intro alike
        obtain ⟨_, firstRan⟩ := run_ping TRetryCount rpy first
        obtain ⟨_, secondRan⟩ := run_ping TRetryCount rpy second
        obtain ⟨_, firstAfter, firstResult, firstLast, firstSame⟩ := getResult_added first rpy
        obtain ⟨_, secondAfter, secondResult, secondLast, secondSame⟩ := getResult_added second rpy
        have launched := alike.next_calls firstRan secondRan
        have later := launched.next_calls (run_getResult firstResult _)
          (run_getResult secondResult _)
        refine ih ?_ ?_ ?_ ?_ later
        · rwa [firstSame id (Ne.symm next)]
        · rwa [secondSame id (Ne.symm (sameLast ▸ next))]
        · rw [firstLast, secondLast, sameLast]
        · rw [firstLast, Nat.add_assoc, Nat.mod_add_mod, ← Nat.add_assoc, ← reaches]
          congr 1
          omega

/-- A future that only one of the holders has is missed, since its id comes round
again. -/
theorem not_alike_of_erased {TRetryCount : Nat} {rpy : CReply} {id : Nat}
    {taskHolder : CTaskHolder TaskResult} {result : TaskResult} (notEmpty : rpy ≠ .empty)
    (hasId : id ≠ 0) (inRange : id < uint64Size)
    (stored : taskHolder.mapTask.find? id = some result) :
    ¬ AlikeIn visible (CAsyncRunner.call TRetryCount) (noConnection rpy) () (.create, taskHolder)
      (.create, { taskHolder with mapTask := taskHolder.mapTask.erase id }) := by
  have free : (taskHolder.mapTask.erase id).find? id = none := by
    rw [OrderedMap.find?_erase, if_pos rfl]
  have reaches : (taskHolder.lastId + 1 +
      (id + uint64Size - (taskHolder.lastId + 1) % uint64Size)) % uint64Size = id := by
    rw [uint64Size] at inRange ⊢
    omega
  exact not_alike_of_kept notEmpty hasId (stored ▸ Option.some_ne_none result) free rfl _ reaches

/-- A future under the id of a runner makes a difference to `getResult`, or to a
later one. -/
theorem pending_eq_none {TRetryCount : Nat} {rpy : CReply} {runner : CAsyncRunner}
    {taskHolder : CTaskHolder TaskResult} (notEmpty : rpy ≠ .empty)
    (inRange : runner.resultId < uint64Size) (noCommand : runner.lstCommand = [])
    (alike : AlikeIn visible (CAsyncRunner.call TRetryCount) (noConnection rpy) ()
      (runner.moved, taskHolder) (runner, taskHolder)) : runner.pending taskHolder = none := by
  have movedResult : runner.moved.getResult taskHolder = .ok (.empty, .create, taskHolder) := rfl
  have returned := (alike.first_call .getResult).2
  have taken := runner.getResult_eq taskHolder
  cases found : runner.pending taskHolder with
  | none => rfl
  | some result =>
      exfalso
      rw [found] at taken
      obtain ⟨hasId, stored⟩ := Option.ite_none_left_eq_some.mp found
      cases result with
      | threw =>
          rw [run_getResult movedResult, call, taken] at returned
          cases returned
      | returned last =>
          rw [run_getResult movedResult, run_getResult taken] at returned
          cases returned
          -- the reply was default-constructed, so the runners still differ in the holder
          have later := alike.next_calls (run_getResult movedResult _) (run_getResult taken _)
          rw [noCommand] at later
          exact not_alike_of_erased notEmpty hasId inRange stored later

end CAsyncRunner

/-! ## When a moved runner continues -/

/-- A runner that is constructed by a move continues as the original would have
exactly when the original had no command in its queue and, if it is
asynchronous, no result pending. -/
theorem continues_iff (TRetryCount : Nat) (runner : CRunner) (asyncRunner : CAsyncRunner)
    (taskHolder : CTaskHolder TaskResult) (inRange : asyncRunner.resultId < uint64Size) :
    (runner.Continues TRetryCount ↔ runner.lstCommand = []) ∧
      (asyncRunner.Continues TRetryCount taskHolder ↔
        asyncRunner.lstCommand = [] ∧ asyncRunner.pending taskHolder = none) := by
  have notEmpty : CReply.ofRaw .nil ≠ .empty := by
    rintro ⟨⟩
  constructor
  · constructor
    · exact fun alike => CRunner.lstCommand_eq_nil (alike Unit (noConnection .empty) ())
    · intro noCommand
      rcases runner with ⟨lstCommand⟩
      cases noCommand
      exact .refl _
  · constructor
    · intro alike
      have inPool := alike Unit (noConnection (.ofRaw .nil)) ()
      have noCommand := CAsyncRunner.lstCommand_eq_nil inPool
      exact ⟨noCommand, CAsyncRunner.pending_eq_none notEmpty inRange noCommand inPool⟩
    · rintro ⟨noCommand, noResult⟩
      have same : SameRunner (asyncRunner.moved, taskHolder) (asyncRunner, taskHolder) :=
        ⟨noCommand.symm, ⟨rfl, rfl⟩, .inr ⟨rfl, noResult⟩⟩
      exact alike_of_inStep (fun call _ _ same => same.call TRetryCount call) same

/-- A runner whose result `join` has removed still has its id, and nothing to
lose. -/
theorem continues_after_join :
    CRunner.Continues 5 ⟨[]⟩ ∧
      CAsyncRunner.Continues 5 ⟨[], 1⟩ { CTaskHolder.create with lastId := 1, terminate := true } :=
  have continues := continues_iff 5 ⟨[]⟩ ⟨[], 1⟩
    { CTaskHolder.create with lastId := 1, terminate := true } (by decide)
  ⟨continues.1.mpr rfl, continues.2.mpr ⟨rfl, rfl⟩⟩

/-- `GET a`. -/
def getText : List Bytes :=
  [[0x47, 0x45, 0x54], [0x61]]

/-- A `CRunner` with a queued command, and a `CAsyncRunner` that has run one. -/
theorem moved_runner_loses :
    ((CRunner.call 5 (.append getText) ⟨[]⟩).run oneNode 0).result =
        .ok ([], ⟨[.ofTexts getText]⟩) ∧
      ¬ CRunner.Continues 5 ⟨[.ofTexts getText]⟩ ∧
      ∃ runner taskHolder,
        ((CAsyncRunner.call 5 (.run getText false) (.create, .create)).run oneNode 0).result =
          .ok ([], runner, taskHolder) ∧
        ¬ runner.Continues 5 taskHolder := by
  refine ⟨rfl, ?_, _, _, rfl, ?_⟩
  · intro alike
    have returned := congrArg Prod.snd (alike Nat oneNode 0 [.runCommands false])
    cases returned
  · intro alike
    have returned := congrArg Prod.snd (alike Nat oneNode 0 [.getResult])
    cases returned

end MCRedis.Runner
