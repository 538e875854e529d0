import MCRedis.Pool.Destructor
import MCRedis.Runner.Core
import MCRedis.Transition.Traces

/-!
# The calls of a valid connection

On a connection with a context and a command with an argument vector, each call
is one hiredis operation followed by the update of the context.  The later
modules rewrite with these equations and never unfold the calls.
-/

namespace MCRedis.Runner

open MCRedis.Client
open MCRedis.Pool
open MCRedis.Transition

theorem usable_eq_some_iff {handle : CConnectionRAII} {ptr : ConnPtr} :
    usable handle = some ptr ↔
      handle.connPtr = some ptr ∧ ∃ c, ptr.conn.contextPtr = some c := by
  rw [usable, Option.filter_eq_some_iff, CConnection.isValid, Option.isSome_iff_exists]

/-- The reply that `sendCommand` makes of an answer. -/
def replyOf : CommandAnswer → CReply
  | .appendFailed error => .ofError error.err error.errstr
  | .replyFailed error => .ofError error.err error.errstr
  | .reply reply => .ofRaw reply

/-- The context after `sendCommand`. -/
def contextAfter (c : RedisContext) (argv : List Bytes) : CommandAnswer → RedisContext
  | .appendFailed error => c.setError error
  | .replyFailed error => (c.appended argv).setError error
  | .reply reply => (c.appended argv).replied reply

/-- The reply that `getReply` makes of an answer. -/
def replyRead : Except RedisError RedisReply → CReply
  | .error error => .ofError error.err error.errstr
  | .ok reply => .ofRaw reply

/-- The context after `getReply`. -/
def contextRead (c : RedisContext) : Except RedisError RedisReply → RedisContext
  | .error error => c.setError error
  | .ok reply => c.replied reply

/-- The context after `appendCommand`. -/
def contextAppended (c : RedisContext) (argv : List Bytes) : Option RedisError → RedisContext
  | some error => c.setError error
  | none => c.appended argv

section Calls

variable {conn : CConnection} {c : RedisContext} {cmd : CCommand} {argv : List Bytes}

theorem redis_sendCommand (valid : conn.contextPtr = some c) (argvEq : cmd.argv = .ok argv) :
    RunnerProgram.redis (conn.sendCommand cmd) =
      .request (.redis (.commandArgv c argv)) fun answer =>
        .pure (replyOf answer, conn.setContext (contextAfter c argv answer)) := by
  simp only [RunnerProgram.redis, CConnection.sendCommand, CConnection.context, valid, argvEq,
    Program.perform, Program.ofExcept_ok, Program.bind_eq_bind, Program.bind_pure_left,
    Program.request_bind, Program.translate_request]
  congr 1
  funext answer
  cases answer <;> rfl

theorem redis_appendCommand (valid : conn.contextPtr = some c) (argvEq : cmd.argv = .ok argv) :
    RunnerProgram.redis (conn.appendCommand cmd) =
      .request (.redis (.appendCommandArgv c argv)) fun error =>
        .pure (error.isNone, conn.setContext (contextAppended c argv error)) := by
  simp only [RunnerProgram.redis, CConnection.appendCommand, CConnection.context, valid, argvEq,
    Program.perform, Program.ofExcept_ok, Program.bind_eq_bind, Program.bind_pure_left,
    Program.request_bind, Program.translate_request]
  congr 1
  funext error
  cases error <;> rfl

theorem redis_getReply (valid : conn.contextPtr = some c) :
    RunnerProgram.redis conn.getReply =
      .request (.redis (.getReply c)) fun answer =>
        .pure (replyRead answer, conn.setContext (contextRead c answer)) := by
  simp only [RunnerProgram.redis, CConnection.getReply, CConnection.context, valid,
    Program.perform, Program.ofExcept_ok, Program.bind_eq_bind, Program.bind_pure_left,
    Program.request_bind, Program.translate_request]
  congr 1
  funext answer
  cases answer <;> rfl

end Calls

/-! ## The groups -/

@[simp]
theorem appendToLast_append (groups : List NodeCommand) (last : NodeCommand) (cmd : CCommand) :
    appendToLast (groups ++ [last]) cmd =
      .ok (groups ++ [{ last with lstCommand := last.lstCommand ++ [cmd] }]) := by
  simp [appendToLast]

/-- A command that is added to the last group changes no connection. -/
theorem connections_of_appendToLast {groups extended : List NodeCommand} {cmd : CCommand}
    (appended : appendToLast groups cmd = .ok extended) :
    extended.map NodeCommand.conn = groups.map NodeCommand.conn := by
  rcases List.eq_nil_or_concat groups with rfl | ⟨init, last, rfl⟩
  · contradiction
  · rw [List.concat_eq_append, appendToLast_append] at appended
    cases appended
    rw [List.concat_eq_append, List.map_append, List.map_append]
    rfl

/-! ## The destruction of a handle -/

theorem exec_release_iff {handle : CConnectionRAII} {trace : List RunnerEvent}
    {result : Except Fault Unit} :
    Exec (release handle) trace result ↔
      trace = [⟨.release handle, ()⟩] ∧ result = handle.destructor := by
  rw [release, Program.perform, Program.bind_eq_bind, Program.request_bind]
  cases handle.destructor with
  | ok value =>
      constructor
      · intro exec
        obtain ⟨_, rest, rfl, returned⟩ := Exec.request_iff.mp exec
        obtain ⟨rfl, rfl⟩ := Exec.pure_iff.mp returned
        exact ⟨rfl, rfl⟩
      · rintro ⟨rfl, rfl⟩
        exact .request _ _ (.pure _)
  | error fault =>
      constructor
      · intro exec
        obtain ⟨_, rest, rfl, failed⟩ := Exec.request_iff.mp exec
        obtain ⟨rfl, rfl⟩ := Exec.fail_iff.mp failed
        exact ⟨rfl, rfl⟩
      · rintro ⟨rfl, rfl⟩
        exact .request _ _ (.fail _)

/-- A program that goes on behind a handle has destroyed it. -/
theorem exec_release_bind_ok {α : Type} {handle : CConnectionRAII}
    {next : Unit → RunnerProgram α} {trace : List RunnerEvent} {value : α}
    (exec : Exec ((release handle).bind next) trace (.ok value)) :
    ∃ rest, trace = ⟨.release handle, ()⟩ :: rest ∧ handle.disposable ∧
      Exec (next ()) rest (.ok value) := by
  rcases Exec.bind_iff.mp exec with ⟨fault, _, resultEq⟩ | ⟨_, _, rest, rfl, releasing, continued⟩
  · contradiction
  · obtain ⟨rfl, returned⟩ := exec_release_iff.mp releasing
    exact ⟨rest, rfl, CConnectionRAII.destructor_eq_ok_iff.mp returned.symm, continued⟩

/-- The destruction of a handle, and what follows. -/
theorem exec_release_bind {α : Type} {handle : CConnectionRAII}
    {next : Unit → RunnerProgram α} {trace : List RunnerEvent} {result : Except Fault α}
    (exec : Exec ((release handle).bind next) trace result) :
    (∃ fault, handle.destructor = .error fault ∧ trace = [⟨.release handle, ()⟩] ∧
        result = .error fault) ∨
      ∃ rest, trace = ⟨.release handle, ()⟩ :: rest ∧ Exec (next ()) rest result := by
  rcases Exec.bind_iff.mp exec with
    ⟨fault, releasing, rfl⟩ | ⟨_, _, rest, rfl, releasing, continued⟩
  · obtain ⟨rfl, failed⟩ := exec_release_iff.mp releasing
    exact .inl ⟨fault, failed.symm, rfl, rfl⟩
  · obtain ⟨rfl, _⟩ := exec_release_iff.mp releasing
    exact .inr ⟨rest, rfl, continued⟩

/-- Destroying a handle keeps every guarantee that allows it. -/
theorem guarantees_release {rely : (op : RunnerOp) → RunnerAns op → Prop}
    {guarantee : RunnerOp → Prop} {handle : CConnectionRAII}
    (allowed : guarantee (.release handle)) :
    Guarantees rely guarantee (fun _ => True) (release handle) := by
  refine ⟨allowed, fun _ _ => ?_⟩
  cases returned : handle.destructor with
  | ok value => simp
  | error fault => simp

/-- The event destroys no handle, or one whose destructor returns. -/
def disposes : RunnerEvent → Bool
  | ⟨.release handle, _⟩ => handle.disposable
  | _ => true

/-- A program that returns has destroyed disposable handles only. -/
abbrev Disposing {α : Type} (program : RunnerProgram α) : Prop :=
  Leaves (fun trace _ => ∀ event ∈ trace, disposes event) program

theorem Disposing.request {α : Type} {op : RunnerOp} {next : RunnerAns op → RunnerProgram α}
    (harmless : ∀ answer, disposes ⟨op, answer⟩) (rest : ∀ answer, Disposing (next answer)) :
    Disposing (.request op next) := by
  apply Leaves.request
  intro answer
  apply (rest answer).mono
  exact fun trace _ clean => List.forall_mem_cons.mpr ⟨harmless answer, clean⟩

theorem Disposing.then {α β : Type} {program : RunnerProgram α} {next : α → RunnerProgram β}
    (first : Disposing program) (rest : ∀ value, Disposing (next value)) :
    Disposing (program.bind next) := by
  apply Leaves.bind first
  intro trace value clean
  apply (rest value).mono
  exact fun trace _ others => List.forall_mem_append.mpr ⟨clean, others⟩

theorem disposing_release (handle : CConnectionRAII) : Disposing (release handle) := by
  constructor
  intro trace value exec
  obtain ⟨rfl, returned⟩ := exec_release_iff.mp exec
  exact List.forall_mem_singleton.mpr (CConnectionRAII.destructor_eq_ok_iff.mp returned.symm)

/-! ## One step of the loops -/

/-- One iteration of the retry loop of a single command that returns: the pool gives
no usable connection, or the command is sent. -/
inductive AttemptStep (cmdKey : Option Bytes) (cmd : CCommand) (tryCount : Nat) (rpy : CReply) :
    List RunnerEvent → CReply → Prop
  | missed {handle : CConnectionRAII} {rest : List RunnerEvent} {last : CReply} :
      usable handle = none → Exec (singleAttempts cmdKey cmd tryCount rpy) rest (.ok last) →
      AttemptStep cmdKey cmd tryCount rpy (⟨.get cmdKey, handle⟩ :: ⟨.release handle, ()⟩ :: rest)
        last
  | sent {handle : CConnectionRAII} {ptr : ConnPtr} {c : RedisContext} {answer : CommandAnswer}
      {rest : List RunnerEvent} {last : CReply} :
      usable handle = some ptr →
      Exec (singleAttempts cmdKey cmd tryCount (replyOf answer)) rest (.ok last) →
      AttemptStep cmdKey cmd tryCount rpy
        (⟨.get cmdKey, handle⟩ :: ⟨.redis (.commandArgv c cmd.lstCommandBuffer), answer⟩ ::
          ⟨.release ⟨some { ptr with
            conn := ptr.conn.setContext (contextAfter c cmd.lstCommandBuffer answer) }⟩, ()⟩ ::
          rest)
        last

theorem exec_singleAttempts_succ {cmdKey : Option Bytes} {cmd : CCommand} {tryCount : Nat}
    {rpy last : CReply} {trace : List RunnerEvent}
    (exec : Exec (singleAttempts cmdKey cmd (tryCount + 1) rpy) trace (.ok last))
    (wellFormed : cmd.WellFormed) : AttemptStep cmdKey cmd tryCount rpy trace last := by
  simp only [singleAttempts, poolGet, Program.perform, Program.bind_eq_bind,
    Program.request_bind, Program.bind_pure_left] at exec
  obtain ⟨handle, tail, rfl, attempt⟩ := Exec.request_iff.mp exec
  cases found : usable handle with
  | none =>
      rw [found] at attempt
      obtain ⟨rest, rfl, _, again⟩ := exec_release_bind_ok attempt
      exact .missed found again
  | some ptr =>
      obtain ⟨_, c, valid⟩ := usable_eq_some_iff.mp found
      rw [found] at attempt
      dsimp only at attempt
      rw [redis_sendCommand valid wellFormed.argv_eq] at attempt
      obtain ⟨answer, rest, rfl, sent⟩ := Exec.request_iff.mp attempt
      obtain ⟨last, rfl, _, again⟩ := exec_release_bind_ok sent
      exact .sent found again

/-- One iteration of the append loop: the connection refuses the command, or
takes it. -/
theorem exec_appendAll_cons {cmd : CCommand} {cmds : List CCommand} {ptr : ConnPtr}
    {c : RedisContext} {trace : List RunnerEvent} {result : Except Fault (Bool × ConnPtr)}
    (exec : Exec (appendAll ptr (cmd :: cmds)) trace result)
    (valid : ptr.conn.contextPtr = some c) (wellFormed : cmd.WellFormed) :
    (∃ error after, trace = [⟨.redis (.appendCommandArgv c cmd.lstCommandBuffer), some error⟩] ∧
        result = .ok (false, after)) ∨
      ∃ rest, trace = ⟨.redis (.appendCommandArgv c cmd.lstCommandBuffer), none⟩ :: rest ∧
        Exec (appendAll { ptr with conn := ptr.conn.setContext (c.appended cmd.lstCommandBuffer) }
          cmds) rest result := by
  rw [appendAll, redis_appendCommand valid wellFormed.argv_eq] at exec
  simp only [Program.bind_eq_bind, Program.request_bind, Program.bind_pure_left] at exec
  obtain ⟨error, tail, rfl, continued⟩ := Exec.request_iff.mp exec
  cases error with
  | some error =>
      obtain ⟨rfl, rfl⟩ := Exec.pure_iff.mp continued
      exact .inl ⟨error, _, rfl, rfl⟩
  | none => exact .inr ⟨tail, rfl, continued⟩

end MCRedis.Runner
