import MCRedis.Runner.Batch
import MCRedis.Transition.Run
import Mathlib.Data.List.Dedup

/-!
# The queue over a history of calls

The queue of a `CRunner` lives from call to call.  `_run` empties it on the
normal exit of the path over the groups, but not on the path of a single
command, so a command executed alone is executed again by the next call.
-/

namespace MCRedis.Runner

open MCRedis.Client
open MCRedis.Pool
open MCRedis.Transition

/-! ## Histories -/

/-- One call on a runner, with the argument texts of the command it is given and
whether it is given a callback. -/
inductive Call
  | append (text : List Bytes)
  | run (text : List Bytes) (hasCallback : Bool)
  | runCommands (hasCallback : Bool)

namespace Call

/-- The runner that the call leaves behind. -/
def perform (TRetryCount : Nat) (runner : CRunner) : Call → RunnerProgram CRunner
  | append text => pure (runner.append (.ofTexts text))
  | run text hasCallback => do
      let (_, runner) ← runner.run TRetryCount hasCallback (.ofTexts text)
      pure runner
  | runCommands hasCallback => do
      let (_, runner) ← runner.runCommands TRetryCount hasCallback
      pure runner

/-- The queue that the call executes, if it executes one. -/
def executes (runner : CRunner) : Call → List CCommand
  | append _ => []
  | run text _ => (runner.append (.ofTexts text)).lstCommand
  | runCommands _ => runner.lstCommand

end Call

/-- One call of a history, labelled with its events. -/
def CallStep (TRetryCount : Nat) (runner : CRunner) (label : Call × List RunnerEvent)
    (after : CRunner) : Prop :=
  Exec (label.1.perform TRetryCount runner) label.2 (.ok after)

/-- The event is no failure of an operation on a connection. -/
def succeeds : RunnerEvent → Bool
  | ⟨.redis (.commandArgv _ _), .reply _⟩ => true
  | ⟨.redis (.commandArgv _ _), _⟩ => false
  | ⟨.redis (.appendCommandArgv _ _), error⟩ => error.isNone
  | ⟨.redis (.getReply _), .ok _⟩ => true
  | ⟨.redis (.getReply _), .error _⟩ => false
  | _ => true

/-- All commands of the queue are mapped, and all operations on connections
succeed. -/
structure AllSucceed (TRetryCount : Nat) (queue : List CCommand) (trace : List RunnerEvent) :
    Prop where
  mapped : ∀ mapped, ¬ GivesUpAfter TRetryCount mapped queue (answersOf trace)
  operations : ∀ event ∈ trace, succeeds event

/-- When every get gives a usable connection, all commands are mapped. -/
theorem AllSucceed.of_usable {TRetryCount : Nat} {trace : List RunnerEvent}
    (positive : 0 < TRetryCount) (usable : ∀ answer ∈ answersOf trace, answer.2.isSome)
    (successful : ∀ event ∈ trace, succeeds event) (queue : List CCommand) :
    AllSucceed TRetryCount queue trace := by
  refine ⟨?_, successful⟩
  rintro mapped ⟨_, _, key, answered, _, _, _, _, isPrefix⟩
  have failed : (key, none) ∈ misses key TRetryCount :=
    List.mem_replicate.mpr ⟨positive.ne', rfl⟩
  have given := usable _ (isPrefix.subset (List.mem_append_right answered failed))
  contradiction

/-- The command of a transmission that waits for its reply. -/
def sentAlone : RunnerEvent → Option (List Bytes)
  | ⟨.redis (.commandArgv _ argv), _⟩ => some argv
  | _ => none

/-- The command of a transmission within a group. -/
def sentInGroup : RunnerEvent → Option (List Bytes)
  | ⟨.redis (.appendCommandArgv _ argv), _⟩ => some argv
  | _ => none

/-- The batch that a call executes: the commands it transmits, where the
repetitions of the retry loop count once. -/
def batchOf (trace : List RunnerEvent) : List (List Bytes) :=
  (trace.filterMap sentAlone).dedup ++ trace.filterMap sentInGroup

/-- The batches of a history, one for each call that executes one. -/
def batches : List (Visit CRunner (Call × List RunnerEvent)) → List (List (List Bytes))
  | [] => []
  | ⟨_, (.append _, _), _⟩ :: history => batches history
  | ⟨_, (.run _ _, trace), _⟩ :: history => batchOf trace :: batches history
  | ⟨_, (.runCommands _, trace), _⟩ :: history => batchOf trace :: batches history

/-- The commands that each executing call was given since the one before it. -/
def given : List (List Bytes) → List Call → List (List (List Bytes))
  | _, [] => []
  | pending, .append text :: calls => given (pending ++ [text]) calls
  | pending, .run text _ :: calls => (pending ++ [text]) :: given [] calls
  | pending, .runCommands _ :: calls => pending :: given [] calls

/-! ## The commands that are executed -/

/-- What the queue keeps after it was executed. -/
def kept (queue : List (List Bytes)) : List (List Bytes) :=
  if queue.length = 1 then queue else []

/-- The queues that the executing calls of a history find. -/
def executed : List (List Bytes) → List Call → List (List (List Bytes))
  | _, [] => []
  | queue, .append text :: calls => executed (queue ++ [text]) calls
  | queue, .run text _ :: calls =>
      (queue ++ [text]) :: executed (kept (queue ++ [text])) calls
  | queue, .runCommands _ :: calls => queue :: executed (kept queue) calls

/-- A leftover makes the next batch differ from what was given. -/
theorem executed_leftover_eq_iff {leftover : List (List Bytes)} (nonempty : leftover ≠ [])
    (pending : List (List Bytes)) (calls : List Call) :
    executed (leftover ++ pending) calls = given pending calls ↔ given pending calls = [] := by
  induction calls generalizing pending with
  | nil => exact iff_of_true rfl rfl
  | cons call calls ih =>
      have differs : ∀ batch rest others,
          (leftover ++ batch) :: rest = (batch :: others : List (List (List Bytes))) ↔ False := by
        intro batch rest others
        simpa using fun equal => absurd equal nonempty
      cases call with
      | append text =>
          rw [executed, given, List.append_assoc]
          exact ih _
      | run text hasCallback =>
          rw [executed, given, List.append_assoc, differs]
          simp
      | runCommands hasCallback =>
          rw [executed, given, differs]
          simp

theorem cons_executed_eq_iff {batch : List (List Bytes)} {calls : List Call}
    (ih : executed [] calls = given [] calls ↔
      ∀ other ∈ (given [] calls).dropLast, other.length ≠ 1) :
    batch :: executed (kept batch) calls = batch :: given [] calls ↔
      ∀ other ∈ (batch :: given [] calls).dropLast, other.length ≠ 1 := by
  rw [List.cons_inj_right]
  by_cases alone : batch.length = 1
  · have nonempty : batch ≠ [] := fun empty => by simp [empty] at alone
    have leftover := executed_leftover_eq_iff nonempty [] calls
    rw [List.append_nil] at leftover
    rw [kept, if_pos alone, leftover]
    cases given [] calls with
    | nil => simp
    | cons next rest => simp [alone]
  · rw [kept, if_neg alone, ih]
    cases given [] calls with
    | nil => simp
    | cons next rest => simp [alone]

/-- The batches executed are the ones given exactly when only the last of them
may be a single command. -/
theorem executed_eq_given_iff (pending : List (List Bytes)) (calls : List Call) :
    executed pending calls = given pending calls ↔
      ∀ batch ∈ (given pending calls).dropLast, batch.length ≠ 1 := by
  induction calls generalizing pending with
  | nil => simp [executed, given]
  | cons call calls ih =>
      cases call with
      | append text => exact ih _
      | run text hasCallback => exact cons_executed_eq_iff (ih [])
      | runCommands hasCallback => exact cons_executed_eq_iff (ih [])

/-! ## What the loops transmit -/

theorem sent_of_silent {event : RunnerEvent} (silent : event.op.transmits = false) :
    sentAlone event = none ∧ sentInGroup event = none := by
  rcases event with ⟨_ | _ | _ | _ | _ | _ | _ | _, answer⟩ <;>
    first
    | exact ⟨rfl, rfl⟩
    | contradiction

/-- The commands that a trace transmits alone and within groups. -/
structure Sends (trace : List RunnerEvent) (alone inGroup : List (List Bytes)) : Prop where
  alone : trace.filterMap sentAlone = alone
  inGroup : trace.filterMap sentInGroup = inGroup

namespace Sends

variable {trace rest : List RunnerEvent} {alone inGroup aloneRest inGroupRest : List (List Bytes)}

theorem batchOf_eq (sends : Sends trace alone inGroup) :
    batchOf trace = alone.dedup ++ inGroup := by
  rw [batchOf, sends.alone, sends.inGroup]

theorem append (first : Sends trace alone inGroup) (second : Sends rest aloneRest inGroupRest) :
    Sends (trace ++ rest) (alone ++ aloneRest) (inGroup ++ inGroupRest) := by
  constructor
  · rw [List.filterMap_append, first.alone, second.alone]
  · rw [List.filterMap_append, first.inGroup, second.inGroup]

theorem silent (silent : ∀ event ∈ trace, event.op.transmits = false) : Sends trace [] [] := by
  constructor
  · exact List.filterMap_eq_nil_iff.mpr fun event mem => (sent_of_silent (silent event mem)).1
  · exact List.filterMap_eq_nil_iff.mpr fun event mem => (sent_of_silent (silent event mem)).2

end Sends

theorem Silent.sends {α : Type} {program : RunnerProgram α} {trace : List RunnerEvent}
    {result : Except Fault α} (silent : Silent program) (exec : Exec program trace result) :
    Sends trace [] [] :=
  .silent (silent.exec exec fun _ _ => trivial).1

/-- Every iteration of the retry loop with a usable connection transmits the command
once. -/
theorem exec_singleAttempts_sends {cmdKey : Option Bytes} {cmd : CCommand} {tryCount : Nat}
    {rpy last : CReply} {trace : List RunnerEvent}
    (exec : Exec (singleAttempts cmdKey cmd tryCount rpy) trace (.ok last))
    (wellFormed : cmd.WellFormed) :
    ∃ count, Sends trace (List.replicate count cmd.lstCommandBuffer) [] ∧
      (count = 0 → answersOf trace = misses cmdKey tryCount) := by
  induction tryCount generalizing rpy trace with
  | zero =>
      obtain ⟨rfl, _⟩ := Exec.pure_iff.mp exec
      exact ⟨0, ⟨rfl, rfl⟩, fun _ => rfl⟩
  | succ tryCount ih =>
      cases exec_singleAttempts_succ exec wellFormed with
      | missed absent again =>
          obtain ⟨count, sends, missed⟩ := ih again
          refine ⟨count, ⟨sends.alone, sends.inGroup⟩, ?_⟩
          intro zero
          rw [answersOf_get, answersOf_release, absent, missed zero]
          rfl
      | sent _ again =>
          obtain ⟨count, sends, _⟩ := ih again
          exact ⟨count + 1, ⟨congrArg (List.cons _) sends.alone, sends.inGroup⟩,
            fun zero => absurd zero (Nat.succ_ne_zero count)⟩

/-- The append loop transmits the commands of the group. -/
theorem exec_appendAll_sends {cmds : List CCommand} {ptr : ConnPtr} {c : RedisContext}
    {trace : List RunnerEvent} {result : Except Fault (Bool × ConnPtr)}
    (exec : Exec (appendAll ptr cmds) trace result)
    (successful : ∀ event ∈ trace, succeeds event) (valid : ptr.conn.contextPtr = some c)
    (wellFormed : ∀ cmd ∈ cmds, cmd.WellFormed) :
    Sends trace [] (cmds.map CCommand.lstCommandBuffer) ∧
      ∃ after c', result = .ok (true, after) ∧ after.conn.contextPtr = some c' := by
  induction cmds generalizing ptr c trace with
  | nil =>
      obtain ⟨rfl, rfl⟩ := Exec.pure_iff.mp exec
      exact ⟨⟨rfl, rfl⟩, ptr, c, rfl, valid⟩
  | cons cmd cmds ih =>
      obtain ⟨cmdWellFormed, restWellFormed⟩ := List.forall_mem_cons.mp wellFormed
      rcases exec_appendAll_cons exec valid cmdWellFormed with
        ⟨error, after, rfl, _⟩ | ⟨rest, rfl, continued⟩
      · have accepted := successful _ List.mem_cons_self
        contradiction
      · obtain ⟨_, restSuccessful⟩ := List.forall_mem_cons.mp successful
        obtain ⟨more, returned⟩ := ih continued restSuccessful rfl restWellFormed
        exact ⟨⟨more.alone, congrArg (List.cons _) more.inGroup⟩, returned⟩

/-- The loop over the groups transmits all commands and reaches its end. -/
theorem exec_runGroups_sends {hasCallback : Bool} {size : Nat} {groups : List NodeCommand}
    {lstRpy : List CReply} {trace : List RunnerEvent} {ended : Bool × List CReply}
    (exec : Exec (CRunner.runGroups hasCallback size groups lstRpy) trace (.ok ended))
    (successful : ∀ event ∈ trace, succeeds event)
    (wellFormed : ∀ cmd ∈ grouped groups, cmd.WellFormed)
    (valid : ∀ ptr ∈ groups.map NodeCommand.conn, ∃ c, ptr.conn.contextPtr = some c) :
    Sends trace [] ((grouped groups).map CCommand.lstCommandBuffer) ∧ ended.1 = true := by
  induction groups generalizing lstRpy trace with
  | nil =>
      obtain ⟨rfl, resultEq⟩ := Exec.pure_iff.mp exec
      cases resultEq
      exact ⟨⟨rfl, rfl⟩, rfl⟩
  | cons elem groups ih =>
      obtain ⟨elemWellFormed, restWellFormed⟩ := List.forall_mem_append.mp wellFormed
      obtain ⟨⟨c, elemValid⟩, restValid⟩ := List.forall_mem_cons.mp valid
      cases exec_runGroups_cons exec with
      | refused appending =>
          obtain ⟨firstSuccessful, _⟩ := List.forall_mem_append.mp successful
          obtain ⟨_, _, _, appendedEq, _⟩ :=
            exec_appendAll_sends appending firstSuccessful elemValid elemWellFormed
          cases appendedEq
      | @goesOn first second rest conn last replies _ appending reading looping =>
          obtain ⟨firstSuccessful, tailSuccessful⟩ := List.forall_mem_append.mp successful
          obtain ⟨_, restSuccessful⟩ := List.forall_mem_append.mp tailSuccessful
          obtain ⟨_, loopSuccessful⟩ := List.forall_mem_cons.mp restSuccessful
          obtain ⟨firstSends, _⟩ :=
            exec_appendAll_sends appending firstSuccessful elemValid elemWellFormed
          have secondSends := (silent_readAll hasCallback _ _ _).sends reading
          have released : Sends [(⟨.release ⟨some last⟩, ()⟩ : RunnerEvent)] [] [] := ⟨rfl, rfl⟩
          obtain ⟨loopSends, finished⟩ := ih looping loopSuccessful restWellFormed restValid
          refine ⟨?_, finished⟩
          have all := firstSends.append (secondSends.append (released.append loopSends))
          simpa [grouped] using all

/-- A call on a single command executes it and keeps it. -/
theorem exec_run_batch_single {TRetryCount : Nat} {hasCallback : Bool} {text : List Bytes}
    {trace : List RunnerEvent} {lstRpy : List CReply} {after : CRunner}
    (exec : Exec (CRunner.runCommands TRetryCount hasCallback ⟨[.ofTexts text]⟩) trace
      (.ok (lstRpy, after)))
    (succeed : AllSucceed TRetryCount [.ofTexts text] trace) :
    batchOf trace = [text] ∧ after = ⟨[.ofTexts text]⟩ := by
  have wellFormed := CCommand.wellFormed_ofTexts text
  obtain ⟨rpy, returned, sending, invocation, rfl, attempts, invoked, _, rfl⟩ :=
    exec_runCommands_one exec wellFormed
  obtain ⟨count, sent, missed⟩ := exec_singleAttempts_sends attempts wellFormed
  have sends := sent.append ((silent_callback _ _ _).sends invoked)
  have notZero : count ≠ 0 := by
    intro zero
    have isPrefix : misses text[1]? TRetryCount <+: answersOf (sending ++ invocation) := by
      rw [answersOf_append, missed zero]
      exact List.prefix_append _ _
    exact succeed.mapped [] ⟨_, [], _, [], [], rfl, .nil, wellFormed.getKey_eq, isPrefix⟩
  refine ⟨?_, rfl⟩
  rw [sends.batchOf_eq, List.append_nil, List.append_nil, List.replicate_dedup notZero]
  rfl

/-- When all commands are mapped, there are no groups only for an empty queue. -/
theorem MappingResult.queue_eq_nil {TRetryCount : Nat} {queue left : List CCommand}
    {trace : List RunnerEvent} (mappingResult : MappingResult TRetryCount queue [] [] trace [] left)
    (positive : 0 < TRetryCount)
    (mapped : ∀ mapped, ¬ GivesUpAfter TRetryCount mapped queue (answersOf trace)) :
    queue = [] := by
  rcases mappingResult.commands positive.ne' with ⟨_, given, givesUp⟩ | groupedEq
  · exact absurd givesUp (mapped given)
  · simpa [grouped] using groupedEq

/-- A call on any other queue executes it and empties it. -/
theorem exec_run_batch_groups {TRetryCount : Nat} {hasCallback : Bool} {queue : List (List Bytes)}
    {trace : List RunnerEvent} {lstRpy : List CReply} {after : CRunner} (positive : 0 < TRetryCount)
    (notSingle : queue.length ≠ 1)
    (exec : Exec (CRunner.runCommands TRetryCount hasCallback ⟨queue.map .ofTexts⟩) trace
      (.ok (lstRpy, after)))
    (succeed : AllSucceed TRetryCount (queue.map .ofTexts) trace) :
    batchOf trace = queue ∧ after = ⟨[]⟩ := by
  have wellFormed : ∀ cmd ∈ queue.map CCommand.ofTexts, cmd.WellFormed :=
    List.forall_mem_map.mpr fun text _ => CCommand.wellFormed_ofTexts text
  rw [← List.length_map CCommand.ofTexts] at notSingle
  rw [runCommands_eq TRetryCount hasCallback notSingle] at exec
  rcases Exec.bind_iff.mp exec with
    ⟨fault, _, resultEq⟩ | ⟨⟨groups, left⟩, first, rest, rfl, mapping, batch⟩
  · contradiction
  have mappingResult := exec_mapCommandPerNode mapping
  obtain ⟨_, restSuccessful⟩ := List.forall_mem_append.mp succeed.operations
  have firstSends : Sends first [] [] := .silent fun event mem =>
    not_isTransmission_of_isPoolEvent (mappingResult.poolOnly event mem)
  cases groups with
  | nil =>
      obtain ⟨rfl, resultEq⟩ := Exec.pure_iff.mp batch
      cases resultEq
      have mapped := succeed.mapped
      rw [List.append_nil] at mapped
      have empty : queue = [] :=
        List.map_eq_nil_iff.mp (mappingResult.queue_eq_nil positive mapped)
      have leftEmpty : left = [] := by
        apply List.eq_nil_of_length_eq_zero
        rw [mappingResult.length, empty]
        rfl
      rw [List.append_nil, firstSends.batchOf_eq, empty, leftEmpty]
      exact ⟨rfl, rfl⟩
  | cons elem groups =>
      have groupedEq := mappingResult.grouped_eq wellFormed
      have groupedWellFormed := mappingResult.wellFormed_grouped wellFormed
      obtain ⟨fault | ended, looping, resultEq⟩ := exec_runMapped_cons batch
      · contradiction
      cases resultEq
      obtain ⟨sends, finished⟩ :=
        exec_runGroups_sends looping restSuccessful groupedWellFormed mappingResult.valid
      rw [finished]
      refine ⟨?_, rfl⟩
      rw [(firstSends.append sends).batchOf_eq, groupedEq, List.map_map]
      exact List.map_id _

/-- A call on a queue executes exactly the queue, and keeps it when it is a
single command. -/
theorem exec_run_batch {TRetryCount : Nat} {hasCallback : Bool} {queue : List (List Bytes)}
    {trace : List RunnerEvent} {lstRpy : List CReply} {after : CRunner}
    (positive : 0 < TRetryCount)
    (exec : Exec (CRunner.runCommands TRetryCount hasCallback ⟨queue.map .ofTexts⟩) trace
      (.ok (lstRpy, after)))
    (succeed : AllSucceed TRetryCount (queue.map .ofTexts) trace) :
    batchOf trace = queue ∧ after = ⟨(kept queue).map .ofTexts⟩ := by
  by_cases alone : queue.length = 1
  · obtain ⟨text, rfl⟩ := List.length_eq_one_iff.mp alone
    exact exec_run_batch_single exec succeed
  · rw [kept, if_neg alone]
    exact exec_run_batch_groups positive alone exec succeed

/-! ## The batches of a history -/

theorem append_ofTexts (queue : List (List Bytes)) (text : List Bytes) :
    CRunner.append (.ofTexts text) ⟨queue.map .ofTexts⟩ = ⟨(queue ++ [text]).map .ofTexts⟩ := by
  rw [CRunner.append, (CCommand.wellFormed_ofTexts text).moved_eq, List.map_append]
  rfl

/-- `run` executes the queue with its command at the end, and returns the first
of the replies. -/
theorem run_eq (TRetryCount : Nat) (hasCallback : Bool) (queue : List (List Bytes))
    (text : List Bytes) :
    CRunner.run TRetryCount hasCallback (.ofTexts text) ⟨queue.map .ofTexts⟩ =
      (CRunner.runCommands TRetryCount hasCallback ⟨(queue ++ [text]).map .ofTexts⟩).bind
        fun returned => .pure (returned.1.headD .empty, returned.2) := by
  rw [CRunner.run, append_ofTexts, Program.bind_eq_bind, CRunner.runCommands]
  congr 1
  funext returned
  rcases returned with ⟨_ | _, runner⟩ <;> rfl

/-- One call on a queue: the batch it executes, if it executes one, and the
queue it leaves. -/
theorem exec_run {TRetryCount : Nat} {hasCallback : Bool} {text : List Bytes}
    {queue : List (List Bytes)} {trace : List RunnerEvent} {after : CRunner}
    (exec : Exec ((Call.run text hasCallback).perform TRetryCount ⟨queue.map .ofTexts⟩) trace
      (.ok after)) :
    ∃ lstRpy, Exec (CRunner.runCommands TRetryCount hasCallback
      ⟨(queue ++ [text]).map .ofTexts⟩) trace (.ok (lstRpy, after)) := by
  obtain ⟨first, running, resultEq⟩ := Exec.bind_pure_iff.mp exec
  rw [run_eq] at running
  obtain ⟨fault | ⟨lstRpy, runner⟩, batch, rfl⟩ := Exec.bind_pure_iff.mp running
  · contradiction
  cases resultEq
  exact ⟨lstRpy, batch⟩

theorem batches_eq_executed {TRetryCount : Nat} {start last : CRunner}
    {queue : List (List Bytes)} {history : List (Visit CRunner (Call × List RunnerEvent))}
    (run : Run (CallStep TRetryCount) start history last)
    (startEq : start = ⟨queue.map .ofTexts⟩) (positive : 0 < TRetryCount)
    (successful : ∀ visit ∈ history,
      AllSucceed TRetryCount (visit.label.1.executes visit.before) visit.label.2) :
    batches history = executed queue (history.map fun visit => visit.label.1) := by
  induction run generalizing queue with
  | nil runner => rfl
  | @cons before after last label history step rest ih =>
      obtain ⟨stepSuccessful, restSuccessful⟩ := List.forall_mem_cons.mp successful
      obtain ⟨call, trace⟩ := label
      subst startEq
      cases call with
      | append text =>
          obtain ⟨rfl, afterEq⟩ := Exec.pure_iff.mp step
          cases afterEq
          exact ih (append_ofTexts queue text) restSuccessful
      | run text hasCallback =>
          obtain ⟨lstRpy, running⟩ := exec_run step
          rw [Call.executes, append_ofTexts] at stepSuccessful
          obtain ⟨batchEq, afterEq⟩ := exec_run_batch positive running stepSuccessful
          rw [batches, batchEq, ih afterEq restSuccessful]
          rfl
      | runCommands hasCallback =>
          obtain ⟨fault | ended, running, resultEq⟩ := Exec.bind_pure_iff.mp step
          · contradiction
          cases resultEq
          obtain ⟨batchEq, afterEq⟩ := exec_run_batch positive running stepSuccessful
          rw [batches, batchEq, ih afterEq restSuccessful]
          rfl

/-- With all commands mapped and all operations successful, every command belongs
to exactly the batch of the next executing call exactly when no executing call
before the last one was given a single command. -/
theorem batches_eq_given_iff {TRetryCount : Nat} {last : CRunner}
    {history : List (Visit CRunner (Call × List RunnerEvent))}
    (run : Run (CallStep TRetryCount) ⟨[]⟩ history last) (positive : 0 < TRetryCount)
    (successful : ∀ visit ∈ history,
      AllSucceed TRetryCount (visit.label.1.executes visit.before) visit.label.2) :
    batches history = given [] (history.map fun visit => visit.label.1) ↔
      ∀ batch ∈ (given [] (history.map fun visit => visit.label.1)).dropLast,
        batch.length ≠ 1 := by
  have none : (⟨[]⟩ : CRunner) = ⟨([] : List (List Bytes)).map .ofTexts⟩ := rfl
  rw [batches_eq_executed run none positive successful]
  exact executed_eq_given_iff [] _

/-- A run of a call in an environment is a step of a history. -/
theorem callStep_of_run {σ : Type} (environment : Environment RunnerOp RunnerAns σ) (state : σ)
    {TRetryCount : Nat} {runner after : CRunner} {call : Call}
    (returned : ((call.perform TRetryCount runner).run environment state).result = .ok after) :
    CallStep TRetryCount runner
      (call, ((call.perform TRetryCount runner).run environment state).trace) after := by
  have exec := Program.exec_run environment (call.perform TRetryCount runner) state
  rwa [returned] at exec

/-- When every get of a history gives a usable connection, all commands are mapped. -/
theorem allSucceed_of_usable {TRetryCount : Nat} (positive : 0 < TRetryCount)
    {history : List (Visit CRunner (Call × List RunnerEvent))}
    (usable : ∀ visit ∈ history, (∀ answer ∈ answersOf visit.label.2, answer.2.isSome) ∧
      ∀ event ∈ visit.label.2, succeeds event) :
    ∀ visit ∈ history,
      AllSucceed TRetryCount (visit.label.1.executes visit.before) visit.label.2 :=
  fun visit mem => .of_usable positive (usable visit mem).1 (usable visit mem).2 _

/-- One node that accepts every command. -/
abbrev oneNode : Environment RunnerOp RunnerAns Nat :=
  freshEnvironment (fun _ => (0, 16383)) fun _ => false

/-- `GET a` and `GET b` in one batch, then `GET a` alone. -/
theorem batches_eq_given_pair_then_single :
    ∃ history last, Run (CallStep 5) ⟨[]⟩ history last ∧
      batches history = given [] (history.map fun visit => visit.label.1) := by
  have queued : CallStep 5 ⟨[]⟩ (.append [[0x47, 0x45, 0x54], [0x61]], _)
      ⟨[.ofTexts [[0x47, 0x45, 0x54], [0x61]]]⟩ :=
    callStep_of_run oneNode 0 rfl
  have queuedBoth : CallStep 5 ⟨[.ofTexts [[0x47, 0x45, 0x54], [0x61]]]⟩
      (.append [[0x47, 0x45, 0x54], [0x62]], _) ⟨getBoth.map .ofTexts⟩ :=
    callStep_of_run oneNode 0 rfl
  have executedBoth : CallStep 5 ⟨getBoth.map .ofTexts⟩ (.runCommands false, _) ⟨[]⟩ :=
    callStep_of_run oneNode 0 rfl
  have executedOne : CallStep 5 ⟨[]⟩ (.run [[0x47, 0x45, 0x54], [0x61]] false, _)
      ⟨[.ofTexts [[0x47, 0x45, 0x54], [0x61]]]⟩ :=
    callStep_of_run oneNode 0 rfl
  have run := Run.cons queued (.cons queuedBoth (.cons executedBoth (.single executedOne)))
  refine ⟨_, _, run, (batches_eq_given_iff run (by decide) ?_).mpr (by decide)⟩
  exact allSucceed_of_usable (by decide) (by decide)

/-- Two runs of one command each: the second one executes both commands. -/
theorem run_executes_first_command_again :
    ∃ history last, Run (CallStep 5) ⟨[]⟩ history last ∧
      (∀ visit ∈ history,
        AllSucceed 5 (visit.label.1.executes visit.before) visit.label.2) ∧
      history.map (fun visit => visit.label.1) =
        [.run [[0x47, 0x45, 0x54], [0x61]] false, .run [[0x47, 0x45, 0x54], [0x62]] false] ∧
      batches history ≠ given [] (history.map fun visit => visit.label.1) := by
  have first : CallStep 5 ⟨[]⟩ (.run [[0x47, 0x45, 0x54], [0x61]] false, _)
      ⟨[.ofTexts [[0x47, 0x45, 0x54], [0x61]]]⟩ :=
    callStep_of_run oneNode 0 rfl
  have second : CallStep 5 ⟨[.ofTexts [[0x47, 0x45, 0x54], [0x61]]]⟩
      (.run [[0x47, 0x45, 0x54], [0x62]] false, _) ⟨[]⟩ :=
    callStep_of_run oneNode 0 rfl
  refine ⟨_, _, .cons first (.single second), ?_, rfl, by decide⟩
  exact allSucceed_of_usable (by decide) (by decide)

end MCRedis.Runner
