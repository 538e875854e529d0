import MCRedis.Runner.Calls

/-!
# Connections in sync

A connection without an error owes as many replies as it has unanswered
commands.  Whatever handles the pool gives, and whatever the connections answer,
a runner destroys a handle only when its connection owes nothing or has an
error; an asynchronous task does so as long as no callback throws while replies
are owed.
-/

namespace MCRedis.Runner

open MCRedis.Client
open MCRedis.Pool
open MCRedis.Transition

/-- Unless the connection has an error, the given number of replies is still to
be read. -/
def Owes (conn : CConnection) (count : Nat) : Prop :=
  ∀ c, conn.contextPtr = some c → c.err = 0 → c.sent.length = c.received.length + count

/-- A connection that owes nothing and has no error is in sync. -/
theorem Owes.inSync {conn : CConnection} (owes : Owes conn 0) (healthy : conn.errorNo = .ok 0) :
    conn.InSync := by
  intro c valid
  rw [CConnection.errorNo, CConnection.context, valid] at healthy
  exact owes c valid (Except.ok.inj healthy)

/-- The connection of the handle, if there is one, owes nothing. -/
def Settled (handle : CConnectionRAII) : Prop :=
  ∀ ptr, handle.connPtr = some ptr → Owes ptr.conn 0

theorem settled_some {ptr : ConnPtr} : Settled ⟨some ptr⟩ ↔ Owes ptr.conn 0 := by
  constructor
  · exact fun settled => settled ptr rfl
  · rintro owes _ ⟨⟩
    exact owes

/-- What is assumed of hiredis: a call that fails leaves an error in the
context. -/
def RedisLaw : (op : RedisOp) → RedisAns op → Prop
  | .commandArgv _ _, .appendFailed error => error.err ≠ 0
  | .commandArgv _ _, .replyFailed error => error.err ≠ 0
  | .appendCommandArgv _ _, some error => error.err ≠ 0
  | .getReply _, .error error => error.err ≠ 0
  | _, _ => True

/-- The two kinds of frames that execute a runner's program: a call of `CRunner`
and the task of a `CAsyncRunner`. -/
inductive Frame
  | call
  | task
  deriving DecidableEq

/-- What a runner relies on.  A callback that throws out of a task is assumed to
do so only when the handle that the task holds owes nothing. -/
def RunnerRely (frame : Frame) : (op : RunnerOp) → RunnerAns op → Prop
  | .get _, raii => Settled raii
  | .release _, _ => True
  | .callback _ held, .threw => frame = .task → Settled held
  | .callback _ _, .returned _ => True
  | .redis op, answer => RedisLaw op answer

/-- What it guarantees: the handles it destroys owe nothing. -/
def RunnerGuarantee : RunnerOp → Prop
  | .release handle => Settled handle
  | _ => True

/-- The contract of a runner's program. -/
abbrev Keeps {α : Type} (frame : Frame) (post : α → Prop) (program : RunnerProgram α) : Prop :=
  Guarantees (RunnerRely frame) RunnerGuarantee post program

/-! ## The calls -/

section Calls

variable {frame : Frame} {conn : CConnection} {cmd : CCommand}

theorem owes_setError {error : RedisError} (failed : error.err ≠ 0) (c : RedisContext)
    (count : Nat) : Owes (conn.setContext (c.setError error)) count := by
  rintro _ ⟨⟩ healthy
  exact absurd healthy failed

theorem keeps_sendCommand (owes : Owes conn 0) :
    Keeps frame (fun result => Owes result.2 0)
      (RunnerProgram.redis (conn.sendCommand cmd)) := by
  cases valid : conn.contextPtr with
  | none =>
      rw [CConnection.sendCommand, CConnection.context, valid]
      trivial
  | some c =>
      cases argvEq : cmd.argv with
      | error fault =>
          rw [CConnection.sendCommand, CConnection.context, valid, argvEq]
          trivial
      | ok argv =>
          rw [redis_sendCommand valid argvEq]
          refine ⟨trivial, fun answer lawful => ?_⟩
          cases answer with
          | appendFailed error => exact owes_setError lawful c 0
          | replyFailed error => exact owes_setError lawful (c.appended argv) 0
          | reply reply =>
              rintro _ ⟨⟩ healthy
              have owed := owes c valid healthy
              simp [contextAfter, RedisContext.appended, RedisContext.replied, owed]

theorem keeps_appendCommand {count : Nat} (owes : Owes conn count) :
    Keeps frame (fun result => Owes result.2 (if result.1 then count + 1 else 0))
      (RunnerProgram.redis (conn.appendCommand cmd)) := by
  cases valid : conn.contextPtr with
  | none =>
      rw [CConnection.appendCommand, CConnection.context, valid]
      trivial
  | some c =>
      cases argvEq : cmd.argv with
      | error fault =>
          rw [CConnection.appendCommand, CConnection.context, valid, argvEq]
          trivial
      | ok argv =>
          rw [redis_appendCommand valid argvEq]
          refine ⟨trivial, fun answer lawful => ?_⟩
          cases answer with
          | some error => exact owes_setError lawful c 0
          | none =>
              rintro _ ⟨⟩ healthy
              have owed := owes c valid healthy
              simp [contextAppended, RedisContext.appended, owed, Nat.add_assoc]

theorem keeps_getReply {count : Nat} (owes : Owes conn (count + 1)) :
    Keeps frame (fun result => Owes result.2 count) (RunnerProgram.redis conn.getReply) := by
  cases valid : conn.contextPtr with
  | none =>
      rw [CConnection.getReply, CConnection.context, valid]
      trivial
  | some c =>
      rw [redis_getReply valid]
      refine ⟨trivial, fun answer lawful => ?_⟩
      cases answer with
      | error error => exact owes_setError lawful c count
      | ok reply =>
          rintro _ ⟨⟩ healthy
          have owed := owes c valid healthy
          simp only [contextRead, RedisContext.replied, List.length_append, List.length_singleton]
          omega

end Calls

/-! ## The loops -/

section Loops

variable {frame : Frame}

theorem keeps_release {handle : CConnectionRAII} (settled : Settled handle) :
    Keeps frame (fun _ => True) (release handle) :=
  guarantees_release settled

theorem keeps_releaseAll {ptrs : List ConnPtr} (owes : ∀ ptr ∈ ptrs, Owes ptr.conn 0) :
    Keeps frame (fun _ => True) (releaseAll ptrs) := by
  induction ptrs with
  | nil => trivial
  | cons ptr rest ih =>
      obtain ⟨first, others⟩ := List.forall_mem_cons.mp owes
      exact Guarantees.bind (keeps_release (settled_some.mpr first)) fun _ _ => ih others

/-- The handles that are left are destroyed before the frame is left. -/
theorem keeps_unwind {α : Type} {post : α → Prop} {value : α} {ptrs : List ConnPtr}
    (owes : ∀ ptr ∈ ptrs, Owes ptr.conn 0) (holds : post value) :
    Keeps frame post ((releaseAll ptrs).bind fun _ => .pure value) :=
  Guarantees.bind (keeps_releaseAll owes) fun _ _ => holds

/-- A handle that is usable keeps what the handle was settled with. -/
theorem owes_of_usable {handle : CConnectionRAII} {ptr : ConnPtr} (settled : Settled handle)
    (found : usable handle = some ptr) : Owes ptr.conn 0 :=
  settled ptr (usable_eq_some_iff.mp found).1

theorem keeps_singleAttempts (cmdKey : Option Bytes) (cmd : CCommand) (tryCount : Nat)
    (rpy : CReply) : Keeps frame (fun _ => True) (singleAttempts cmdKey cmd tryCount rpy) := by
  induction tryCount generalizing rpy with
  | zero => trivial
  | succ tryCount ih =>
      refine ⟨trivial, fun handle settled => ?_⟩
      cases found : usable handle with
      | none =>
          simp only [Program.bind_pure_left, found]
          exact Guarantees.bind (keeps_release settled) fun _ _ => ih rpy
      | some ptr =>
          simp only [Program.bind_pure_left, found]
          apply Guarantees.bind (keeps_sendCommand (owes_of_usable settled found))
          rintro ⟨rpy, sent⟩ owes
          exact Guarantees.bind (keeps_release (settled_some.mpr owes)) fun _ _ => ih rpy

theorem keeps_runSingleCommand (TRetryCount : Nat) (cmd : CCommand) :
    Keeps frame (fun _ => True) (runSingleCommand TRetryCount cmd) := by
  rw [runSingleCommand]
  cases cmd.getKey with
  | error fault => trivial
  | ok cmdKey => exact keeps_singleAttempts cmdKey cmd TRetryCount .empty

theorem keeps_mapAttempts (cmdKey : Option Bytes) (tryCount : Nat) :
    Keeps frame (fun attempt => ∀ ptr, attempt = .mapped ptr → Owes ptr.conn 0)
      (mapAttempts cmdKey tryCount) := by
  induction tryCount with
  | zero => exact nofun
  | succ tryCount ih =>
      refine ⟨trivial, fun handle settled => ?_⟩
      cases found : usable handle with
      | none =>
          simp only [Program.bind_pure_left, found]
          apply Guarantees.bind (keeps_release settled)
          intro _ _
          by_cases final : tryCount = 0
          · simp only [if_pos final]
            exact nofun
          · simp only [if_neg final]
            exact ih
      | some ptr =>
          simp only [Program.bind_pure_left, found]
          rintro _ ⟨⟩
          exact owes_of_usable settled found

/-- No connection of the groups owes anything. -/
def Untouched (lstNodeCommand : List NodeCommand) : Prop :=
  ∀ ptr ∈ lstNodeCommand.map NodeCommand.conn, Owes ptr.conn 0

theorem untouched_nil : Untouched [] :=
  fun _ mem => absurd mem List.not_mem_nil

theorem Untouched.append {lstNodeCommand : List NodeCommand} (untouched : Untouched lstNodeCommand)
    {elem : NodeCommand} (owes : Owes elem.conn.conn 0) : Untouched (lstNodeCommand ++ [elem]) := by
  intro ptr mem
  rw [List.map_append] at mem
  rcases List.mem_append.mp mem with old | new
  · exact untouched ptr old
  · rw [List.mem_singleton.mp new]
    exact owes

theorem Untouched.appendToLast {lstNodeCommand result : List NodeCommand} {cmd : CCommand}
    (untouched : Untouched lstNodeCommand) (added : appendToLast lstNodeCommand cmd = .ok result) :
    Untouched result := by
  rw [Untouched, connections_of_appendToLast added]
  exact untouched

theorem keeps_mapCommands (TRetryCount : Nat) (lstCommand : List CCommand)
    (prevSlotRange : Nat × Nat) {lstNodeCommand : List NodeCommand}
    (untouched : Untouched lstNodeCommand) (visited : List CCommand) :
    Keeps frame (fun result => Untouched result.1)
      (mapCommands TRetryCount lstCommand prevSlotRange lstNodeCommand visited) := by
  induction lstCommand generalizing prevSlotRange lstNodeCommand visited with
  | nil => exact untouched
  | cons cmd lstCommand ih =>
      rw [mapCommands]
      cases cmd.getKey with
      | error fault => trivial
      | ok cmdKey =>
          apply Guarantees.bind (keeps_mapAttempts cmdKey TRetryCount)
          intro attempt owes
          cases attempt with
          | gaveUp => exact keeps_unwind untouched untouched_nil
          | skipped => exact ih prevSlotRange untouched _
          | mapped ptr =>
              by_cases other : ptr.conn.slotRange ≠ prevSlotRange
              · simp only [if_pos other]
                exact ih _ (untouched.append (owes ptr rfl)) _
              · simp only [if_neg other]
                cases added : appendToLast lstNodeCommand cmd.moved with
                | error fault => trivial
                | ok result =>
                    apply (keeps_release (settled_some.mpr (owes ptr rfl))).bind
                    intro _ _
                    exact ih prevSlotRange (untouched.appendToLast added) _

/-- After the appends of a group, the connection owes one reply for each
command; after one that failed it has an error. -/
theorem keeps_appendAll {ptr : ConnPtr} {count : Nat} (owes : Owes ptr.conn count)
    (lstCmd : List CCommand) :
    Keeps frame (fun result => Owes result.2.conn (if result.1 then count + lstCmd.length else 0))
      (appendAll ptr lstCmd) := by
  induction lstCmd generalizing ptr count with
  | nil => exact owes
  | cons cmd lstCmd ih =>
      apply Guarantees.bind (keeps_appendCommand owes)
      rintro ⟨appended, conn⟩ owes
      cases appended with
      | false => exact owes
      | true =>
          rw [List.length_cons, Nat.add_comm lstCmd.length 1, ← Nat.add_assoc]
          exact ih owes

end Loops

/-! ## The synchronous runner -/

namespace CRunner

theorem keeps_readAll (hasCallback : Bool) {remaining : Nat} {ptr : ConnPtr}
    (owes : Owes ptr.conn remaining) (lstRpy : List CReply) :
    Keeps .call (fun result => Owes result.1.conn 0)
      (readAll hasCallback remaining ptr lstRpy) := by
  induction remaining generalizing ptr lstRpy with
  | zero => exact owes
  | succ remaining ih =>
      apply Guarantees.bind (keeps_getReply owes)
      rintro ⟨rpy, conn⟩ owes
      cases hasCallback with
      | false => exact ih owes _
      | true =>
          refine ⟨trivial, fun answer _ => ?_⟩
          cases answer with
          | returned rpy => exact ih owes _
          | threw => trivial

theorem keeps_runGroups (hasCallback : Bool) (size : Nat) {lstNodeCommand : List NodeCommand}
    (untouched : Untouched lstNodeCommand) (lstRpy : List CReply) :
    Keeps .call (fun _ => True) (runGroups hasCallback size lstNodeCommand lstRpy) := by
  induction lstNodeCommand generalizing lstRpy with
  | nil => trivial
  | cons elem lstNodeCommand ih =>
      obtain ⟨first, others⟩ := List.forall_mem_cons.mp untouched
      apply Guarantees.bind (keeps_appendAll first elem.lstCommand)
      rintro ⟨appended, conn⟩ owes
      cases appended with
      | false =>
          exact Guarantees.bind (keeps_release (settled_some.mpr owes)) fun _ _ =>
            keeps_unwind others trivial
      | true =>
          rw [if_pos rfl, Nat.zero_add] at owes
          apply Guarantees.bind (keeps_readAll hasCallback owes lstRpy)
          rintro ⟨conn, lstRpy⟩ owes
          exact Guarantees.bind (keeps_release (settled_some.mpr owes)) fun _ _ => ih others lstRpy

theorem keeps_runBatch (TRetryCount : Nat) (hasCallback : Bool) (runner : CRunner) :
    Keeps .call (fun _ => True) (_run TRetryCount hasCallback runner) := by
  unfold _run
  split
  · apply Guarantees.bind (keeps_runSingleCommand TRetryCount _)
    intro rpy _
    cases hasCallback with
    | false => trivial
    | true =>
        refine ⟨trivial, fun answer _ => ?_⟩
        cases answer <;> trivial
  · apply Guarantees.bind (keeps_mapCommands TRetryCount _ (0, 0) untouched_nil [])
    rintro ⟨lstNodeCommand, lstCommand⟩ untouched
    dsimp only
    split
    · trivial
    · exact Guarantees.bind (keeps_runGroups hasCallback _ untouched []) fun _ _ => trivial

theorem keeps_run (TRetryCount : Nat) (hasCallback : Bool) (cmd : CCommand) (runner : CRunner) :
    Keeps .call (fun _ => True) (runner.run TRetryCount hasCallback cmd) := by
  apply Guarantees.bind (keeps_runBatch TRetryCount hasCallback (runner.append cmd))
  rintro ⟨lstRpy, runner⟩ _
  cases lstRpy <;> trivial

end CRunner

/-! ## The asynchronous runner -/

namespace CAsyncRunner

/-- A callback that throws leaves the loop early; what the connection owes then
is what the task relies on. -/
theorem keeps_readAll (hasCallback : Bool) {remaining : Nat} {ptr : ConnPtr}
    (owes : Owes ptr.conn remaining) (rpy : CReply) :
    Keeps .task (fun result => Owes result.1.conn 0)
      (readAll hasCallback remaining ptr rpy) := by
  induction remaining generalizing ptr rpy with
  | zero => exact owes
  | succ remaining ih =>
      apply Guarantees.bind (keeps_getReply owes)
      rintro ⟨rpy, conn⟩ owes
      cases hasCallback with
      | false => exact ih owes _
      | true =>
          refine ⟨trivial, fun answer relied => ?_⟩
          cases answer with
          | returned rpy => exact ih owes _
          | threw => exact settled_some.mp (relied rfl)

theorem keeps_runGroups (hasCallback : Bool) {lstNodeCommand : List NodeCommand}
    (untouched : Untouched lstNodeCommand) (rpy : CReply) :
    Keeps .task (fun _ => True) (runGroups hasCallback lstNodeCommand rpy) := by
  induction lstNodeCommand generalizing rpy with
  | nil => trivial
  | cons elem lstNodeCommand ih =>
      obtain ⟨first, others⟩ := List.forall_mem_cons.mp untouched
      apply Guarantees.bind (keeps_appendAll first elem.lstCommand)
      rintro ⟨appended, conn⟩ owes
      cases appended with
      | false =>
          exact Guarantees.bind (keeps_release (settled_some.mpr owes)) fun _ _ =>
            keeps_unwind others trivial
      | true =>
          rw [if_pos rfl, Nat.zero_add] at owes
          apply Guarantees.bind (keeps_readAll hasCallback owes rpy)
          rintro ⟨conn, rpy⟩ owes
          apply Guarantees.bind (keeps_release (settled_some.mpr owes))
          intro _ _
          cases rpy with
          | some rpy => exact ih others rpy
          | none => exact keeps_unwind others trivial

theorem keeps_task (TRetryCount : Nat) (hasCallback : Bool) (lstCommand : List CCommand) :
    Keeps .task (fun _ => True) (task TRetryCount hasCallback lstCommand) := by
  unfold task
  split
  · apply Guarantees.bind (keeps_runSingleCommand TRetryCount _)
    intro rpy _
    cases hasCallback with
    | false => trivial
    | true =>
        refine ⟨trivial, fun answer _ => ?_⟩
        cases answer <;> trivial
  · apply Guarantees.bind (keeps_mapCommands TRetryCount _ (0, 0) untouched_nil [])
    rintro ⟨lstNodeCommand, lstCommand⟩ untouched
    dsimp only
    split
    · trivial
    · exact keeps_runGroups hasCallback untouched .empty

end CAsyncRunner

end MCRedis.Runner
