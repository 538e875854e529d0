import MCRedis.Pool.Machine
import MCRedis.Runner.Returning

/-!
# The replies of a batch

Every reply that the synchronous runner collects is tied to the command it
answers.  A connection answers in the order of the commands appended to it, so
the reply read from a context answers the command at the position given by the
replies read before; on a connection that was in sync when it was obtained, this
is the command of the group whose turn it is.
-/

namespace MCRedis.Runner

open MCRedis.Client
open MCRedis.Pool
open MCRedis.Transition

/-! ## What the events of a batch show -/

/-- What is assumed of the pool, of hiredis and of the callback: a handle that
is obtained holds a connection in sync, a failed call leaves an error, a context
with an error gives no reply any more, and the callback leaves its argument
unchanged. -/
def BatchLaw : RunnerEvent → Prop
  | ⟨.get _, handle⟩ => ∀ ptr, handle.connPtr = some ptr → ptr.conn.InSync
  | ⟨.release _, _⟩ => True
  | ⟨.callback rpy _, answer⟩ => answer = .returned rpy
  | ⟨.redis (.appendCommandArgv _ _), error⟩ => ∀ e, error = some e → e.err ≠ 0
  | ⟨.redis (.getReply c), .ok _⟩ => c.err = 0
  | ⟨.redis (.getReply _), .error e⟩ => e.err ≠ 0
  | ⟨.redis _, _⟩ => True

/-- A callback leaves its argument unchanged. -/
def CallbackLaw : RunnerEvent → Prop
  | ⟨.callback rpy _, answer⟩ => answer = .returned rpy
  | _ => True

theorem BatchLaw.callbackLaw {event : RunnerEvent} (lawful : BatchLaw event) :
    CallbackLaw event := by
  rcases event with ⟨_ | _ | _ | _, answer⟩ <;> trivial

theorem CallbackLaw.completes_iff {event : RunnerEvent} (lawful : CallbackLaw event) :
    Completes event ↔ DeletesBroken event := by
  refine and_iff_left ?_
  rintro rpy held rfl
  exact absurd lawful CallbackAnswer.noConfusion

/-- The event reads a reply. -/
def isRead : RunnerEvent → Bool
  | ⟨.redis (.getReply _), _⟩ => true
  | _ => false

/-- The operation hands a command to hiredis. -/
def RunnerOp.transmits : RunnerOp → Bool
  | .redis (.commandArgv _ _) => true
  | .redis (.appendCommandArgv _ _) => true
  | _ => false

def isTransmission (event : RunnerEvent) : Bool :=
  event.op.transmits

/-- The reply that `getReply` makes of the event. -/
def readReply : RunnerEvent → Option CReply
  | ⟨.redis (.getReply _), .ok reply⟩ => some (.ofRaw reply)
  | ⟨.redis (.getReply _), .error e⟩ => some (.ofError e.err e.errstr)
  | _ => none

/-- The reply that the callback is invoked on. -/
def invokedOn : RunnerEvent → Option CReply
  | ⟨.callback rpy _, _⟩ => some rpy
  | _ => none

/-- What the event read belongs to the command: it is the server's answer to
it, or the client's report of a failed connection. -/
def Answers (cmd : CCommand) : RunnerEvent → Prop
  | ⟨.redis (.getReply c), .ok _⟩ => c.nextAnswered = some cmd.lstCommandBuffer
  | ⟨.redis (.getReply _), .error _⟩ => True
  | _ => False

/-- The trace answers exactly the commands, in order, and invokes the callback,
if there is one, on each reply. -/
structure Answered (hasCallback : Bool) (cmds : List CCommand) (trace : List RunnerEvent) :
    Prop where
  answers : List.Forall₂ Answers cmds (trace.filter isRead)
  callbacks : trace.filterMap invokedOn =
    if hasCallback then trace.filterMap readReply else []

/-- Neither a read nor an invocation of the callback. -/
def isQuiet : RunnerEvent → Bool
  | ⟨.callback _ _, _⟩ => false
  | ⟨.redis (.getReply _), _⟩ => false
  | _ => true

theorem isQuiet_of_isPoolEvent {event : RunnerEvent} (pool : isPoolEvent event) :
    isQuiet event := by
  rcases event with ⟨_ | _ | _ | _, answer⟩ <;> trivial

theorem isQuiet_of_mem_releases {ptrs : List ConnPtr} {event : RunnerEvent}
    (mem : event ∈ releases ptrs) : isQuiet event :=
  isQuiet_of_isPoolEvent (isPoolEvent_of_mem_releases mem)

theorem not_isTransmission_of_isPoolEvent {event : RunnerEvent} (pool : isPoolEvent event) :
    isTransmission event = false := by
  rcases event with ⟨_ | _ | _ | _, answer⟩ <;> first | rfl | contradiction

theorem quiet_parts {event : RunnerEvent} (quiet : isQuiet event) :
    isRead event = false ∧ readReply event = none ∧ invokedOn event = none := by
  rcases event with ⟨_ | _ | _ | _ | _ | _ | _ | _, answer⟩ <;>
    first
    | contradiction
    | exact ⟨rfl, rfl, rfl⟩

theorem filterMap_readReply_of_quiet {trace : List RunnerEvent}
    (quiet : ∀ event ∈ trace, isQuiet event) : trace.filterMap readReply = [] :=
  List.filterMap_eq_nil_iff.mpr fun event mem => (quiet_parts (quiet event mem)).2.1

/-- The replies read in a group and after it. -/
theorem filterMap_readReply_group {first : List RunnerEvent}
    (quiet : ∀ event ∈ first, isQuiet event) (second rest : List RunnerEvent)
    (held : CConnectionRAII) :
    (first ++ (second ++ ⟨.release held, ()⟩ :: rest)).filterMap readReply =
      second.filterMap readReply ++ rest.filterMap readReply := by
  rw [List.filterMap_append, filterMap_readReply_of_quiet quiet, List.filterMap_append]
  rfl

theorem isSome_readReply (event : RunnerEvent) : (readReply event).isSome = isRead event := by
  rcases event with ⟨_ | _ | _ | _ | _ | _ | _ | _, answer⟩ <;> try rfl
  cases answer <;> rfl

/-- The replies read are as many as the reads. -/
theorem length_readReply (trace : List RunnerEvent) :
    (trace.filterMap readReply).length = (trace.filter isRead).length := by
  rw [List.length_filterMap_eq_countP, ← List.countP_eq_length_filter]
  simp only [isSome_readReply]

/-- The invocation of a callback that leaves its argument unchanged. -/
def callbackTrace (hasCallback : Bool) (rpy : CReply) (held : CConnectionRAII) :
    List RunnerEvent :=
  if hasCallback then [⟨.callback rpy held, .returned rpy⟩] else []

theorem filterMap_callbackTrace (hasCallback : Bool) (rpy : CReply) (held : CConnectionRAII) :
    (callbackTrace hasCallback rpy held).filterMap readReply = [] := by
  cases hasCallback <;> rfl

namespace Answered

variable {hasCallback : Bool} {cmds more : List CCommand} {trace rest : List RunnerEvent}

theorem of_quiet (quiet : ∀ event ∈ trace, isQuiet event) : Answered hasCallback [] trace := by
  have noReads : trace.filter isRead = [] := by
    rw [List.filter_eq_nil_iff]
    intro event mem
    simp [(quiet_parts (quiet event mem)).1]
  have noCallbacks : trace.filterMap invokedOn = [] := by
    rw [List.filterMap_eq_nil_iff]
    exact fun event mem => (quiet_parts (quiet event mem)).2.2
  constructor
  · rw [noReads]
    exact .nil
  · rw [noCallbacks, filterMap_readReply_of_quiet quiet, ite_self]

theorem append (first : Answered hasCallback cmds trace)
    (second : Answered hasCallback more rest) :
    Answered hasCallback (cmds ++ more) (trace ++ rest) := by
  constructor
  · rw [List.filter_append]
    exact List.rel_append first.answers second.answers
  · rw [List.filterMap_append, List.filterMap_append, first.callbacks, second.callbacks]
    cases hasCallback <;> rfl

/-- One read that belongs to the command, and the callback on its reply. -/
theorem single {cmd : CCommand} {event : RunnerEvent} {rpy : CReply} {held : CConnectionRAII}
    (answers : Answers cmd event) (reply : readReply event = some rpy) :
    Answered hasCallback [cmd] (event :: callbackTrace hasCallback rpy held) := by
  have read : isRead event = true := by
    rw [← isSome_readReply, reply]
    rfl
  have notInvoked : invokedOn event = none := by
    rcases event with ⟨_ | _ | _ | _, answer⟩ <;> first | contradiction | rfl
  cases hasCallback with
  | false =>
      constructor
      · rw [callbackTrace, if_neg Bool.false_ne_true, List.filter_cons_of_pos read]
        exact .cons answers .nil
      · simp [callbackTrace, notInvoked]
  | true =>
      constructor
      · rw [callbackTrace, if_pos rfl, List.filter_cons_of_pos read]
        exact .cons answers .nil
      · rw [callbackTrace, if_pos rfl, if_pos rfl, List.filterMap_cons_none notInvoked,
          List.filterMap_cons_some reply]
        rfl

theorem length_replies (answered : Answered hasCallback cmds trace) :
    (trace.filterMap readReply).length = cmds.length := by
  rw [length_readReply, answered.answers.length_eq]

end Answered

/-! ## One group -/

/-- The next reply of a context belongs to the first command still pending. -/
def Pending (c : RedisContext) (cmds : List CCommand) : Prop :=
  c.err ≠ 0 ∨ c.sent.drop c.received.length = cmds.map CCommand.lstCommandBuffer

/-- What is read next belongs to the first command pending. -/
theorem Pending.answers {c : RedisContext} {cmd : CCommand} {cmds : List CCommand}
    {answer : Except RedisError RedisReply} (pending : Pending c (cmd :: cmds))
    (lawful : BatchLaw ⟨.redis (.getReply c), answer⟩) :
    Answers cmd ⟨.redis (.getReply c), answer⟩ := by
  cases answer with
  | error error => trivial
  | ok reply =>
      rcases pending with failed | order
      · exact absurd lawful failed
      · change c.nextAnswered = some cmd.lstCommandBuffer
        rw [RedisContext.nextAnswered, ← List.head?_drop, order]
        rfl

theorem Pending.read {c : RedisContext} {cmd : CCommand} {cmds : List CCommand}
    {answer : Except RedisError RedisReply} (pending : Pending c (cmd :: cmds))
    (lawful : BatchLaw ⟨.redis (.getReply c), answer⟩) :
    Pending (contextRead c answer) cmds := by
  cases answer with
  | error error => exact .inl lawful
  | ok reply =>
      rcases pending with failed | order
      · exact .inl failed
      · right
        rw [contextRead, RedisContext.replied, List.length_append, List.length_singleton,
          ← List.drop_drop, order]
        rfl

theorem exec_callback {hasCallback : Bool} {rpy : CReply} {held : CConnectionRAII}
    {trace : List RunnerEvent} {result : Except Fault CReply}
    (exec : Exec (CRunner.callback hasCallback rpy held) trace result)
    (lawful : ∀ event ∈ trace, CallbackLaw event) :
    trace = callbackTrace hasCallback rpy held ∧ result = .ok rpy := by
  cases hasCallback with
  | false => exact Exec.pure_iff.mp exec
  | true =>
      obtain ⟨answer, rest, rfl, returned⟩ := Exec.request_iff.mp exec
      have unchanged : answer = .returned rpy := lawful _ List.mem_cons_self
      rw [unchanged] at returned ⊢
      obtain ⟨rfl, rfl⟩ := Exec.pure_iff.mp returned
      exact ⟨rfl, rfl⟩

/-- Reading the replies of a group reads one of them, invokes the callback on it
and goes on. -/
theorem exec_readAll_succ {hasCallback : Bool} {remaining : Nat} {ptr : ConnPtr}
    {c : RedisContext} {lstRpy : List CReply} {trace : List RunnerEvent}
    {result : Except Fault (ConnPtr × List CReply)}
    (exec : Exec (CRunner.readAll hasCallback (remaining + 1) ptr lstRpy) trace result)
    (lawful : ∀ event ∈ trace, CallbackLaw event) (valid : ptr.conn.contextPtr = some c) :
    ∃ answer rest,
      let read := { ptr with conn := ptr.conn.setContext (contextRead c answer) }
      trace = ⟨.redis (.getReply c), answer⟩ ::
          (callbackTrace hasCallback (replyRead answer) ⟨some read⟩ ++ rest) ∧
        Exec (CRunner.readAll hasCallback remaining read (lstRpy ++ [replyRead answer])) rest
          result ∧
        ∀ event ∈ rest, CallbackLaw event := by
  rw [CRunner.readAll, redis_getReply valid] at exec
  simp only [Program.bind_eq_bind, Program.request_bind, Program.bind_pure_left] at exec
  obtain ⟨answer, tail, rfl, continued⟩ := Exec.request_iff.mp exec
  obtain ⟨_, tailLawful⟩ := List.forall_mem_cons.mp lawful
  rcases Exec.bind_iff.mp continued with
    ⟨fault, invoked, _⟩ | ⟨rpy, before, rest, rfl, invoked, reading⟩
  · obtain ⟨_, resultEq⟩ := exec_callback invoked tailLawful
    contradiction
  · obtain ⟨beforeLawful, restLawful⟩ := List.forall_mem_append.mp tailLawful
    obtain ⟨rfl, rpyEq⟩ := exec_callback invoked beforeLawful
    cases rpyEq
    exact ⟨answer, rest, rfl, reading, restLawful⟩

theorem readReply_getReply (c : RedisContext) (answer : Except RedisError RedisReply) :
    readReply ⟨.redis (.getReply c), answer⟩ = some (replyRead answer) := by
  cases answer <;> rfl

theorem filterMap_readReply_read (hasCallback : Bool) (c : RedisContext)
    (answer : Except RedisError RedisReply) (rpy : CReply) (held : CConnectionRAII)
    (rest : List RunnerEvent) :
    (⟨.redis (.getReply c), answer⟩ :: (callbackTrace hasCallback rpy held ++ rest)).filterMap
        readReply =
      replyRead answer :: rest.filterMap readReply := by
  rw [List.filterMap_cons_some (readReply_getReply c answer), List.filterMap_append,
    filterMap_callbackTrace, List.nil_append]

/-- The replies of a group are collected as they are read. -/
theorem exec_readAll_replies {hasCallback : Bool} {remaining : Nat} {ptr : ConnPtr}
    {c : RedisContext} {lstRpy : List CReply} {trace : List RunnerEvent}
    {result : Except Fault (ConnPtr × List CReply)}
    (exec : Exec (CRunner.readAll hasCallback remaining ptr lstRpy) trace result)
    (lawful : ∀ event ∈ trace, CallbackLaw event) (valid : ptr.conn.contextPtr = some c) :
    ∃ after, result = .ok (after, lstRpy ++ trace.filterMap readReply) := by
  induction remaining generalizing ptr c lstRpy trace with
  | zero =>
      obtain ⟨rfl, rfl⟩ := Exec.pure_iff.mp exec
      exact ⟨ptr, by simp⟩
  | succ remaining ih =>
      obtain ⟨answer, rest, rfl, reading, restLawful⟩ := exec_readAll_succ exec lawful valid
      obtain ⟨after, resultEq⟩ := ih reading restLawful rfl
      refine ⟨after, ?_⟩
      rw [resultEq, filterMap_readReply_read, List.append_assoc]
      rfl

/-- Reading the replies of a group answers its commands in order. -/
theorem exec_readAll {hasCallback : Bool} {cmds : List CCommand} {ptr : ConnPtr}
    {c : RedisContext} {lstRpy : List CReply} {trace : List RunnerEvent}
    {result : Except Fault (ConnPtr × List CReply)}
    (exec : Exec (CRunner.readAll hasCallback cmds.length ptr lstRpy) trace result)
    (lawful : ∀ event ∈ trace, BatchLaw event) (valid : ptr.conn.contextPtr = some c)
    (pending : Pending c cmds) : Answered hasCallback cmds trace := by
  induction cmds generalizing ptr c lstRpy trace with
  | nil =>
      obtain ⟨rfl, _⟩ := Exec.pure_iff.mp exec
      exact .of_quiet (by simp)
  | cons cmd cmds ih =>
      obtain ⟨answer, rest, rfl, reading, _⟩ :=
        exec_readAll_succ exec (fun event mem => (lawful event mem).callbackLaw) valid
      obtain ⟨readLawful, tailLawful⟩ := List.forall_mem_cons.mp lawful
      obtain ⟨_, restLawful⟩ := List.forall_mem_append.mp tailLawful
      have answered := ih reading restLawful rfl (pending.read readLawful)
      exact (Answered.single (pending.answers readLawful) (readReply_getReply c answer)).append
        answered

/-- The program hands no command to hiredis. -/
abbrev Silent {α : Type} (program : RunnerProgram α) : Prop :=
  Guarantees (fun _ _ => True) (fun op => op.transmits = false) (fun _ => True) program

theorem silent_callback (hasCallback : Bool) (rpy : CReply) (held : CConnectionRAII) :
    Silent (CRunner.callback hasCallback rpy held) := by
  cases hasCallback with
  | false => trivial
  | true =>
      refine ⟨rfl, ?_⟩
      intro answer _
      cases answer <;> trivial

theorem silent_getReply (conn : CConnection) : Silent (RunnerProgram.redis conn.getReply) := by
  cases valid : conn.contextPtr with
  | none =>
      rw [RunnerProgram.redis, CConnection.getReply, CConnection.context, valid]
      trivial
  | some c =>
      rw [redis_getReply valid]
      exact ⟨rfl, fun _ _ => trivial⟩

theorem silent_readAll (hasCallback : Bool) (remaining : Nat) (ptr : ConnPtr)
    (lstRpy : List CReply) : Silent (CRunner.readAll hasCallback remaining ptr lstRpy) := by
  induction remaining generalizing ptr lstRpy with
  | zero => trivial
  | succ remaining ih =>
      apply (silent_getReply ptr.conn).bind
      intro read _
      apply (silent_callback hasCallback _ _).bind
      intro rpy _
      exact ih _ _

/-! ## Appending and the loop over the groups -/

/-- The context after all commands of a group are appended. -/
def pipelined (c : RedisContext) (cmds : List CCommand) : RedisContext :=
  { c with sent := c.sent ++ cmds.map CCommand.lstCommandBuffer }

/-- Appending commands to a context reads nothing; when all appends succeed,
the commands follow those sent before. -/
theorem exec_appendAll {cmds : List CCommand} {ptr : ConnPtr} {c : RedisContext}
    {trace : List RunnerEvent} {result : Except Fault (Bool × ConnPtr)}
    (exec : Exec (appendAll ptr cmds) trace result) (valid : ptr.conn.contextPtr = some c)
    (wellFormed : ∀ cmd ∈ cmds, cmd.WellFormed) :
    (∀ event ∈ trace, isQuiet event) ∧
      ((∃ after, result = .ok (false, after)) ∨
        result = .ok (true, { ptr with conn := ptr.conn.setContext (pipelined c cmds) })) := by
  induction cmds generalizing ptr c trace with
  | nil =>
      obtain ⟨rfl, rfl⟩ := Exec.pure_iff.mp exec
      refine ⟨by simp, .inr ?_⟩
      rcases ptr with ⟨⟨id, slotRange, contextPtr, host, port, timeoutSec⟩, deleter⟩
      cases valid
      simp [CConnection.setContext, pipelined]
  | cons cmd cmds ih =>
      obtain ⟨cmdWellFormed, restWellFormed⟩ := List.forall_mem_cons.mp wellFormed
      rcases exec_appendAll_cons exec valid cmdWellFormed with
        ⟨error, after, rfl, rfl⟩ | ⟨rest, rfl, continued⟩
      · exact ⟨by simp [isQuiet], .inl ⟨after, rfl⟩⟩
      · obtain ⟨quiet, ended⟩ := ih continued rfl restWellFormed
        constructor
        · exact List.forall_mem_cons.mpr ⟨rfl, quiet⟩
        · rcases ended with failed | appended
          · exact .inl failed
          · right
            rw [appended]
            simp [CConnection.setContext, RedisContext.appended, pipelined]

section Appended

variable {cmds : List CCommand} {ptr : ConnPtr} {c : RedisContext} {trace : List RunnerEvent}

/-- The connection after all commands are appended. -/
theorem eq_pipelined_of_exec {after : ConnPtr}
    (exec : Exec (appendAll ptr cmds) trace (.ok (true, after)))
    (valid : ptr.conn.contextPtr = some c) (wellFormed : ∀ cmd ∈ cmds, cmd.WellFormed) :
    after = { ptr with conn := ptr.conn.setContext (pipelined c cmds) } := by
  obtain ⟨_, ⟨_, resultEq⟩ | resultEq⟩ := exec_appendAll exec valid wellFormed <;> cases resultEq
  rfl

end Appended

/-- A connection in sync that took the commands of a group has exactly them
pending. -/
theorem pending_of_inSync {c : RedisContext} (inSync : c.InSync) (cmds : List CCommand) :
    Pending (pipelined c cmds) cmds := by
  right
  rw [pipelined, ← inSync, List.drop_left]

/-- What a loop over the groups that returns has done with one of them. -/
inductive GroupStep (hasCallback : Bool) (size : Nat) (elem : NodeCommand)
    (groups : List NodeCommand) (lstRpy : List CReply) :
    List RunnerEvent → Bool × List CReply → Prop
  | refused {first : List RunnerEvent} {after : ConnPtr} :
      Exec (appendAll elem.conn elem.lstCommand) first (.ok (false, after)) →
      GroupStep hasCallback size elem groups lstRpy
        (first ++ releases (after :: groups.map NodeCommand.conn)) (false, resize lstRpy size)
  | goesOn {first second rest : List RunnerEvent} {conn last : ConnPtr} {replies : List CReply}
      {ended : Bool × List CReply} :
      Exec (appendAll elem.conn elem.lstCommand) first (.ok (true, conn)) →
      Exec (CRunner.readAll hasCallback elem.lstCommand.length conn lstRpy) second
        (.ok (last, replies)) →
      Exec (CRunner.runGroups hasCallback size groups replies) rest (.ok ended) →
      GroupStep hasCallback size elem groups lstRpy
        (first ++ (second ++ ⟨.release ⟨some last⟩, ()⟩ :: rest)) ended

theorem exec_runGroups_cons {hasCallback : Bool} {size : Nat} {elem : NodeCommand}
    {groups : List NodeCommand} {lstRpy : List CReply} {trace : List RunnerEvent}
    {ended : Bool × List CReply}
    (exec : Exec (CRunner.runGroups hasCallback size (elem :: groups) lstRpy) trace (.ok ended)) :
    GroupStep hasCallback size elem groups lstRpy trace ended := by
  rcases Exec.bind_iff.mp exec with
    ⟨fault, _, resultEq⟩ | ⟨⟨appended, conn⟩, first, rest, rfl, appending, continued⟩
  · contradiction
  cases appended with
  | false =>
      obtain ⟨rfl, rfl⟩ := exec_unwind continued
      exact .refused appending
  | true =>
      rcases Exec.bind_iff.mp continued with
        ⟨fault, _, resultEq⟩ | ⟨⟨last, replies⟩, second, rest, rfl, reading, looping⟩
      · contradiction
      obtain ⟨tail, rfl, _, loop⟩ := exec_release_bind_ok looping
      exact .goesOn appending reading loop

/-- What the loop does with a group of well-formed commands on a valid
connection while the callbacks keep their law. -/
inductive LawfulGroupStep (hasCallback : Bool) (size : Nat) (elem : NodeCommand)
    (groups : List NodeCommand) (lstRpy : List CReply) (c : RedisContext) :
    List RunnerEvent → Bool × List CReply → Prop
  | refused {first : List RunnerEvent} {after : ConnPtr} :
      Exec (appendAll elem.conn elem.lstCommand) first (.ok (false, after)) →
      (∀ event ∈ first ++ releases (after :: groups.map NodeCommand.conn), isQuiet event) →
      LawfulGroupStep hasCallback size elem groups lstRpy c
        (first ++ releases (after :: groups.map NodeCommand.conn)) (false, resize lstRpy size)
  | goesOn {first second rest : List RunnerEvent} {conn last : ConnPtr}
      {ended : Bool × List CReply} :
      conn = { elem.conn with conn := elem.conn.conn.setContext (pipelined c elem.lstCommand) } →
      Exec (appendAll elem.conn elem.lstCommand) first (.ok (true, conn)) →
      (∀ event ∈ first, isQuiet event) →
      Exec (CRunner.readAll hasCallback elem.lstCommand.length conn lstRpy) second
        (.ok (last, lstRpy ++ second.filterMap readReply)) →
      Exec (CRunner.runGroups hasCallback size groups (lstRpy ++ second.filterMap readReply)) rest
        (.ok ended) →
      LawfulGroupStep hasCallback size elem groups lstRpy c
        (first ++ (second ++ ⟨.release ⟨some last⟩, ()⟩ :: rest)) ended

theorem exec_runGroups_cons_lawful {hasCallback : Bool} {size : Nat} {elem : NodeCommand}
    {groups : List NodeCommand} {lstRpy : List CReply} {c : RedisContext}
    {trace : List RunnerEvent} {ended : Bool × List CReply}
    (exec : Exec (CRunner.runGroups hasCallback size (elem :: groups) lstRpy) trace (.ok ended))
    (lawful : ∀ event ∈ trace, CallbackLaw event)
    (valid : elem.conn.conn.contextPtr = some c)
    (wellFormed : ∀ cmd ∈ elem.lstCommand, cmd.WellFormed) :
    LawfulGroupStep hasCallback size elem groups lstRpy c trace ended := by
  cases exec_runGroups_cons exec with
  | refused appending =>
      obtain ⟨quiet, _⟩ := exec_appendAll appending valid wellFormed
      apply LawfulGroupStep.refused appending
      exact List.forall_mem_append.mpr ⟨quiet, fun event mem => isQuiet_of_mem_releases mem⟩
  | goesOn appending reading looping =>
      obtain ⟨_, tailLawful⟩ := List.forall_mem_append.mp lawful
      obtain ⟨readLawful, _⟩ := List.forall_mem_append.mp tailLawful
      obtain ⟨quiet, _⟩ := exec_appendAll appending valid wellFormed
      cases eq_pipelined_of_exec appending valid wellFormed
      obtain ⟨_, readEq⟩ := exec_readAll_replies reading readLawful rfl
      cases readEq
      exact .goesOn rfl appending quiet reading looping

/-- The loop over the groups ends after a prefix of them whose commands it has
answered; the vector is padded when groups are left. -/
theorem exec_runGroups {hasCallback : Bool} {size : Nat} {groups : List NodeCommand}
    {lstRpy : List CReply} {trace : List RunnerEvent} {ended : Bool × List CReply}
    (exec : Exec (CRunner.runGroups hasCallback size groups lstRpy) trace (.ok ended))
    (lawful : ∀ event ∈ trace, BatchLaw event)
    (wellFormed : ∀ cmd ∈ grouped groups, cmd.WellFormed)
    (connections : ∀ ptr ∈ groups.map NodeCommand.conn,
      ∃ c, ptr.conn.contextPtr = some c ∧ c.InSync) :
    ∃ count finished, Answered hasCallback (grouped (groups.take count)) trace ∧
      ended = (finished, if finished then lstRpy ++ trace.filterMap readReply
        else resize (lstRpy ++ trace.filterMap readReply) size) ∧
      (finished → grouped (groups.take count) = grouped groups) := by
  induction groups generalizing lstRpy trace with
  | nil =>
      obtain ⟨rfl, resultEq⟩ := Exec.pure_iff.mp exec
      cases resultEq
      exact ⟨0, true, .of_quiet (by simp), by simp, fun _ => rfl⟩
  | cons elem groups ih =>
      obtain ⟨elemWellFormed, restWellFormed⟩ := List.forall_mem_append.mp wellFormed
      obtain ⟨⟨c, valid, inSync⟩, restConnections⟩ := List.forall_mem_cons.mp connections
      have callbackLawful : ∀ event ∈ trace, CallbackLaw event := fun event mem =>
        (lawful event mem).callbackLaw
      cases exec_runGroups_cons_lawful exec callbackLawful valid elemWellFormed with
      | refused _ quiet =>
          -- the handles are destroyed and the vector is padded
          refine ⟨0, false, .of_quiet quiet, ?_, fun isFinished => absurd isFinished (by decide)⟩
          rw [filterMap_readReply_of_quiet quiet, List.append_nil]
          rfl
      | @goesOn first second rest conn last _ connEq _ firstQuiet reading looping =>
          obtain ⟨_, tailLawful⟩ := List.forall_mem_append.mp lawful
          obtain ⟨secondLawful, restLawful⟩ := List.forall_mem_append.mp tailLawful
          obtain ⟨_, loopLawful⟩ := List.forall_mem_cons.mp restLawful
          subst connEq
          have answered :=
            exec_readAll reading secondLawful rfl (pending_of_inSync inSync elem.lstCommand)
          obtain ⟨count, finished, restAnswered, endedEq, complete⟩ :=
            ih looping loopLawful restWellFormed restConnections
          have released : Answered hasCallback [] [(⟨.release ⟨some last⟩, ()⟩ : RunnerEvent)] :=
            .of_quiet (by simp [isQuiet])
          refine ⟨count + 1, finished, ?_, ?_, ?_⟩
          · have all := ((Answered.of_quiet firstQuiet).append answered).append
              (released.append restAnswered)
            simpa [grouped] using all
          · rw [endedEq, filterMap_readReply_group firstQuiet, ← List.append_assoc]
          · intro isFinished
            have rest := complete isFinished
            simpa [grouped] using rest

/-! ## The whole batch -/

/-- What a call on a queue returns and does: one reply for each command, of
which the first `answered` belong to the commands in order and the others are
default-constructed. -/
structure BatchReplies (queue : List CCommand) (hasCallback : Bool) (groups : List NodeCommand)
    (trace : List RunnerEvent) (lstRpy : List CReply) (answered : Nat) : Prop where
  length : lstRpy.length = queue.length
  bound : answered ≤ queue.length
  boundary : answered = queue.length ∨ ∃ count, answered = (grouped (groups.take count)).length
  answers : List.Forall₂ Answers (queue.take answered) (trace.filter isRead)
  replies : lstRpy.take answered = trace.filterMap readReply
  padding : lstRpy.drop answered = List.replicate (queue.length - answered) .empty
  callbacks : trace.filterMap invokedOn = if hasCallback then lstRpy.take answered else []
  untouched : groups = [] → answered = 0 ∧ ∀ event ∈ trace, isTransmission event = false

/-- A trace that answers a prefix of the queue gives the replies of the batch,
once the vector is padded to the length of the queue. -/
theorem BatchReplies.of_answered {queue answeredCmds : List CCommand} {hasCallback : Bool}
    {groups : List NodeCommand} {trace : List RunnerEvent}
    (answered : Answered hasCallback answeredCmds trace) (isPrefix : answeredCmds <+: queue)
    (boundary : ∃ count, answeredCmds = grouped (groups.take count))
    (untouched : groups = [] → answeredCmds = [] ∧ ∀ event ∈ trace, isTransmission event = false) :
    BatchReplies queue hasCallback groups trace
      (resize (trace.filterMap readReply) queue.length) answeredCmds.length := by
  have readLength := answered.length_replies
  have bound := isPrefix.length_le
  have whole : (trace.filterMap readReply).take queue.length = trace.filterMap readReply :=
    List.take_of_length_le (readLength ▸ bound)
  have taken : (resize (trace.filterMap readReply) queue.length).take answeredCmds.length =
      trace.filterMap readReply := by
    rw [resize, whole, ← readLength, List.take_left]
  constructor
  · rw [resize, whole, List.length_append, List.length_replicate, readLength]
    exact Nat.add_sub_cancel' bound
  · exact bound
  · obtain ⟨count, rfl⟩ := boundary
    exact .inr ⟨count, rfl⟩
  · rw [← List.prefix_iff_eq_take.mp isPrefix]
    exact answered.answers
  · exact taken
  · rw [resize, whole, ← readLength, List.drop_left]
  · rw [taken]
    exact answered.callbacks
  · intro empty
    obtain ⟨rfl, silent⟩ := untouched empty
    exact ⟨rfl, silent⟩

/-- What `_run` does with the groups of a batch and the queue they leave. -/
def runMapped (hasCallback : Bool) (groups : List NodeCommand) (left : List CCommand) :
    RunnerProgram (List CReply × CRunner) :=
  if groups.isEmpty then
    .pure (resize [] left.length, ⟨left⟩)
  else
    (CRunner.runGroups hasCallback left.length groups []).bind fun ended =>
      .pure (ended.2, if ended.1 then ⟨[]⟩ else ⟨left⟩)

/-- A batch that is not a single command takes the path over the groups. -/
theorem runCommands_eq (TRetryCount : Nat) (hasCallback : Bool) {queue : List CCommand}
    (notSingle : queue.length ≠ 1) :
    CRunner.runCommands TRetryCount hasCallback ⟨queue⟩ =
      (mapCommandPerNode TRetryCount queue).bind fun mapped =>
        runMapped hasCallback mapped.1 mapped.2 := by
  rcases queue with _ | ⟨first, _ | ⟨second, queue⟩⟩
  · rfl
  · contradiction
  · rfl

/-- A batch with groups goes through the loop over them. -/
theorem exec_runMapped_cons {hasCallback : Bool} {elem : NodeCommand} {groups : List NodeCommand}
    {left : List CCommand} {trace : List RunnerEvent}
    {result : Except Fault (List CReply × CRunner)}
    (exec : Exec (runMapped hasCallback (elem :: groups) left) trace result) :
    ∃ ended, Exec (CRunner.runGroups hasCallback left.length (elem :: groups) []) trace ended ∧
      result = ended.map fun ended => (ended.2, if ended.1 then ⟨[]⟩ else ⟨left⟩) :=
  Exec.bind_pure_iff.mp exec

/-- A single command is sent, then the callback is invoked on its reply; the
queue stays as it is. -/
theorem exec_runCommands_one {TRetryCount : Nat} {hasCallback : Bool} {cmd : CCommand}
    {trace : List RunnerEvent} {lstRpy : List CReply} {after : CRunner}
    (exec : Exec (CRunner.runCommands TRetryCount hasCallback ⟨[cmd]⟩) trace (.ok (lstRpy, after)))
    (wellFormed : cmd.WellFormed) :
    ∃ rpy returned sending invocation, trace = sending ++ invocation ∧
      Exec (singleAttempts cmd.lstCommandBuffer[1]? cmd TRetryCount .empty) sending (.ok rpy) ∧
      Exec (CRunner.callback hasCallback rpy ⟨none⟩) invocation (.ok returned) ∧
      lstRpy = [returned] ∧ after = ⟨[cmd]⟩ := by
  rcases Exec.bind_iff.mp exec with
    ⟨fault, _, resultEq⟩ | ⟨rpy, sending, invocation, rfl, attempts, continued⟩
  · contradiction
  rw [runSingleCommand, wellFormed.getKey_eq] at attempts
  obtain ⟨called, invoked, resultEq⟩ := Exec.bind_pure_iff.mp continued
  cases called with
  | error fault => contradiction
  | ok returned =>
      cases resultEq
      exact ⟨rpy, returned, sending, invocation, rfl, attempts, invoked, rfl, rfl⟩

/-- The groups of a batch that was mapped hold the commands of the queue. -/
theorem MappingResult.grouped_eq {TRetryCount : Nat} {queue : List CCommand}
    {elem : NodeCommand} {groups : List NodeCommand} {left : List CCommand}
    {trace : List RunnerEvent} (wellFormed : ∀ cmd ∈ queue, cmd.WellFormed)
    (mapping : MappingResult TRetryCount queue [] [] trace (elem :: groups) left) :
    grouped (elem :: groups) = queue := by
  have notZero : TRetryCount ≠ 0 := fun zero => by simpa using mapping.unmapped zero
  rcases mapping.commands notZero with ⟨empty, _⟩ | commandsEq
  · contradiction
  · exact commandsEq.trans (CCommand.map_moved_eq wellFormed)

theorem MappingResult.wellFormed_grouped {TRetryCount : Nat} {queue : List CCommand}
    {groups : List NodeCommand} {left : List CCommand} {trace : List RunnerEvent}
    (mapping : MappingResult TRetryCount queue [] [] trace groups left)
    (wellFormed : ∀ cmd ∈ queue, cmd.WellFormed) : ∀ cmd ∈ grouped groups, cmd.WellFormed := by
  cases groups with
  | nil => exact fun _ mem => absurd mem List.not_mem_nil
  | cons elem groups => rwa [mapping.grouped_eq wellFormed]

/-- The connections of the groups have a context. -/
theorem MappingResult.valid {TRetryCount : Nat} {queue : List CCommand}
    {groups : List NodeCommand} {left : List CCommand} {trace : List RunnerEvent}
    (mapping : MappingResult TRetryCount queue [] [] trace groups left) :
    ∀ ptr ∈ groups.map NodeCommand.conn, ∃ c, ptr.conn.contextPtr = some c := by
  intro ptr mem
  rcases mapping.connections ptr mem with old | ⟨_, _, _, usableEq⟩
  · contradiction
  · exact (usable_eq_some_iff.mp usableEq).2

/-- The connections of the groups are in sync. -/
theorem MappingResult.inSync {TRetryCount : Nat} {queue : List CCommand}
    {groups : List NodeCommand} {left : List CCommand} {trace : List RunnerEvent}
    (mapping : MappingResult TRetryCount queue [] [] trace groups left)
    (lawful : ∀ event ∈ trace, BatchLaw event) :
    ∀ ptr ∈ groups.map NodeCommand.conn, ∃ c, ptr.conn.contextPtr = some c ∧ c.InSync := by
  intro ptr mem
  rcases mapping.connections ptr mem with old | ⟨key, handle, given, usableEq⟩
  · contradiction
  · obtain ⟨handleEq, c, valid⟩ := usable_eq_some_iff.mp usableEq
    exact ⟨c, valid, lawful _ given ptr handleEq c valid⟩

theorem resize_eq_self {lstRpy : List CReply} {size : Nat} (sizeEq : lstRpy.length = size) :
    resize lstRpy size = lstRpy := by
  rw [resize, sizeEq, Nat.sub_self, List.take_of_length_le sizeEq.le, List.replicate_zero,
    List.append_nil]

theorem exec_runMapped {TRetryCount : Nat} {hasCallback : Bool} {queue : List CCommand}
    {groups : List NodeCommand} {left : List CCommand} {first second : List RunnerEvent}
    {lstRpy : List CReply} {runner : CRunner}
    (exec : Exec (runMapped hasCallback groups left) second (.ok (lstRpy, runner)))
    (mapping : MappingResult TRetryCount queue [] [] first groups left)
    (lawful : ∀ event ∈ first ++ second, BatchLaw event)
    (wellFormed : ∀ cmd ∈ queue, cmd.WellFormed) :
    ∃ answered, BatchReplies queue hasCallback groups (first ++ second) lstRpy answered := by
  have mapQuiet : Answered hasCallback [] first :=
    .of_quiet fun event mem => isQuiet_of_isPoolEvent (mapping.poolOnly event mem)
  have leftLength : left.length = queue.length := by
    rw [mapping.length, List.length_nil, Nat.zero_add]
  obtain ⟨firstLawful, secondLawful⟩ := List.forall_mem_append.mp lawful
  cases groups with
  | nil =>
      obtain ⟨rfl, resultEq⟩ := Exec.pure_iff.mp exec
      cases resultEq
      rw [List.append_nil, leftLength]
      have noReplies : first.filterMap readReply = [] :=
        List.eq_nil_of_length_eq_zero mapQuiet.length_replies
      refine ⟨0, noReplies ▸ BatchReplies.of_answered mapQuiet List.nil_prefix ⟨0, rfl⟩ ?_⟩
      intro _
      exact ⟨rfl, fun event mem => not_isTransmission_of_isPoolEvent (mapping.poolOnly event mem)⟩
  | cons elem groups =>
      have groupedEq := mapping.grouped_eq wellFormed
      have groupedWellFormed := mapping.wellFormed_grouped wellFormed
      have connections := mapping.inSync firstLawful
      obtain ⟨fault | ended, looping, resultEq⟩ := exec_runMapped_cons exec
      · contradiction
      cases resultEq
      obtain ⟨count, finished, answered, rfl, complete⟩ :=
        exec_runGroups looping secondLawful groupedWellFormed connections
      have isPrefix : grouped ((elem :: groups).take count) <+: queue := by
        have split := congrArg grouped (List.take_append_drop count (elem :: groups))
        rw [grouped, List.flatMap_append, groupedEq] at split
        exact ⟨_, split⟩
      have noReplies : first.filterMap readReply = [] :=
        List.eq_nil_of_length_eq_zero mapQuiet.length_replies
      have whole := BatchReplies.of_answered (mapQuiet.append answered) isPrefix ⟨count, rfl⟩
        fun absent => absurd absent (List.cons_ne_nil elem groups)
      rw [List.filterMap_append, noReplies, List.nil_append] at whole
      refine ⟨(grouped ((elem :: groups).take count)).length, ?_⟩
      cases finished with
      | false => exact leftLength ▸ whole
      | true =>
          have readLength := answered.length_replies
          rw [complete rfl, groupedEq] at readLength
          rw [resize_eq_self readLength] at whole
          exact whole

/-- A batch that is mapped returns exactly when no callback throws and every broken
connection has a deleter. -/
theorem completing_runMapped {TRetryCount : Nat} {hasCallback : Bool} {queue : List CCommand}
    {groups : List NodeCommand} {left : List CCommand} {trace : List RunnerEvent}
    (mapping : MappingResult TRetryCount queue [] [] trace groups left)
    (wellFormed : ∀ cmd ∈ queue, cmd.WellFormed) :
    Completing (fun _ => True) (runMapped hasCallback groups left) := by
  rw [runMapped]
  split
  · exact .pure trivial
  · exact (completing_runGroups (mapping.wellFormed_grouped wellFormed) mapping.valid []).bind
      fun _ _ _ => .pure trivial

/-- `runCommands` on a queue of two or more commands returns one reply for each
of them, whatever the connections do, exactly when every connection that is
destroyed with an error has a deleter. -/
theorem runCommands_replies_iff {σ : Type} (environment : Environment RunnerOp RunnerAns σ)
    (state : σ) (TRetryCount : Nat) (hasCallback : Bool) {queue : List CCommand}
    {groups : List NodeCommand} {left : List CCommand} (two : 2 ≤ queue.length)
    (wellFormed : ∀ cmd ∈ queue, cmd.WellFormed)
    (mapped : ((mapCommandPerNode TRetryCount queue).run environment state).result =
      .ok (groups, left))
    (lawful : ∀ event ∈
      ((CRunner.runCommands TRetryCount hasCallback ⟨queue⟩).run environment state).trace,
      BatchLaw event) :
    (∃ lstRpy runner answered,
      ((CRunner.runCommands TRetryCount hasCallback ⟨queue⟩).run environment state).result =
        .ok (lstRpy, runner) ∧
      BatchReplies queue hasCallback groups
        ((CRunner.runCommands TRetryCount hasCallback ⟨queue⟩).run environment state).trace
        lstRpy answered) ↔
      ∀ event ∈
        ((CRunner.runCommands TRetryCount hasCallback ⟨queue⟩).run environment state).trace,
        DeletesBroken event := by
  rw [runCommands_eq TRetryCount hasCallback (by omega), Program.run_bind_ok _ mapped] at lawful ⊢
  have mapExec := Program.exec_run environment (mapCommandPerNode TRetryCount queue) state
  rw [mapped] at mapExec
  have mapping := exec_mapCommandPerNode mapExec
  have mapClean := (disposing_mapCommands TRetryCount queue (0, 0) [] []).exec _ _ mapExec
  obtain ⟨_, batchLawful⟩ := List.forall_mem_append.mp lawful
  have batch := Program.exec_run environment (runMapped hasCallback groups left)
    ((mapCommandPerNode TRetryCount queue).run environment state).state
  have returns_iff := (completing_runMapped mapping wellFormed).returns_iff _ _ batch
  rw [forall₂_congr fun event mem => (batchLawful event mem).callbackLaw.completes_iff]
    at returns_iff
  rw [List.forall_mem_append, ← returns_iff]
  constructor
  · rintro ⟨lstRpy, runner, _, returned, _⟩
    exact ⟨fun event mem => deletesBroken_of_disposes (mapClean event mem), _, returned⟩
  · rintro ⟨_, ⟨lstRpy, runner⟩, returned⟩
    rw [returned] at batch
    obtain ⟨answered, replies⟩ := exec_runMapped batch mapping lawful wellFormed
    exact ⟨lstRpy, runner, answered, returned, replies⟩

/-- A pool that opens a connection to the node of the key on every get, over
servers that answer `OK`; the commands for which `refuses` holds cannot be
appended.  The state numbers the connections. -/
def freshEnvironment (nodes : Option Bytes → Nat × Nat) (refuses : List Bytes → Bool) :
    Environment RunnerOp RunnerAns Nat
  | .get key, i =>
      let conn :=
        ((CConnection.create i).setSlotRange (nodes key).1 (nodes key).2).setContext .opened
      (⟨some ⟨conn, .deletes⟩⟩, i + 1)
  | .release _, i => ((), i)
  | .callback rpy _, i => (.returned rpy, i)
  | .redis (.connectWithTimeout _ _ _), i => (.refused, i)
  | .redis (.setTimeout _ _), i => (none, i)
  | .redis (.commandArgv _ _), i => (.reply (.status [0x4f, 0x4b]), i)
  | .redis (.appendCommandArgv _ argv), i => (if refuses argv then some ⟨1, []⟩ else none, i)
  | .redis (.getReply c), i => (if c.err = 0 then .ok (.status [0x4f, 0x4b]) else .error ⟨1, []⟩, i)

theorem batchLaw_freshEnvironment (nodes : Option Bytes → Nat × Nat) (refuses : List Bytes → Bool)
    (op : RunnerOp) (i : Nat) : BatchLaw ⟨op, (freshEnvironment nodes refuses op i).1⟩ := by
  rcases op with key | _ | _ | _ | _ | _ | ⟨c, argv⟩ | c
  · rintro ptr ⟨⟩ c ⟨⟩
    rfl
  · trivial
  · rfl
  · trivial
  · trivial
  · trivial
  · intro error errorEq
    simp only [freshEnvironment, Option.ite_none_right_eq_some, Option.some.injEq] at errorEq
    rw [← errorEq.2]
    decide
  · by_cases healthy : c.err = 0
    · simp [freshEnvironment, healthy, BatchLaw]
    · simp [freshEnvironment, healthy, BatchLaw]

/-- `GET a` and `GET b`. -/
def getBoth : List (List Bytes) :=
  [[[0x47, 0x45, 0x54], [0x61]], [[0x47, 0x45, 0x54], [0x62]]]

theorem runCommands_replies_getBoth :
    ∃ groups lstRpy runner answered,
      ((CRunner.runCommands 5 true ⟨getBoth.map .ofTexts⟩).run
        (freshEnvironment (fun _ => (0, 16383)) fun _ => false) 0).result = .ok (lstRpy, runner) ∧
      BatchReplies (getBoth.map .ofTexts) true groups
        ((CRunner.runCommands 5 true ⟨getBoth.map .ofTexts⟩).run
          (freshEnvironment (fun _ => (0, 16383)) fun _ => false) 0).trace lstRpy answered := by
  have lawful := Program.run_trace_forall
    (batchLaw_freshEnvironment (fun _ => (0, 16383)) fun _ => false)
    (CRunner.runCommands 5 true ⟨getBoth.map .ofTexts⟩) 0
  have clean : ∀ event ∈ ((CRunner.runCommands 5 true ⟨getBoth.map .ofTexts⟩).run
      (freshEnvironment (fun _ => (0, 16383)) fun _ => false) 0).trace, disposes event := by
    decide
  exact ⟨_, (runCommands_replies_iff (freshEnvironment (fun _ => (0, 16383)) fun _ => false) 0 5
    true (by decide) (List.forall_mem_map.mpr fun texts _ => CCommand.wellFormed_ofTexts texts) rfl
    lawful).mpr fun event mem => deletesBroken_of_disposes (clean event mem)⟩

/-- The pool of one server, without a call of `create`, and a server that accepts
connections and closes them before it replies.  The state holds the idle lists and
the number of connections that were opened. -/
def closingEnvironment : Environment RunnerOp RunnerAns (PoolMap × Nat)
  | .get key, (pool, id) =>
      let got := (CConnectionPool.get oneServer pool key).run acceptingServer id
      match got.result with
      | .ok (raii, pool) => (raii, pool, got.state)
      | .error _ => (⟨none⟩, pool, got.state)
  | .release handle, (pool, id) =>
      match handle.destroy pool with
      | .ok (pool, _) => ((), pool, id)
      | .error _ => ((), pool, id)
  | .callback rpy _, s => (.returned rpy, s)
  | .redis (.connectWithTimeout _ _ _), s => (.connected, s)
  | .redis (.setTimeout _ _), s => (none, s)
  | .redis (.commandArgv _ _), s => (.replyFailed ⟨3, literal "Server closed the connection"⟩, s)
  | .redis (.appendCommandArgv _ _), s => (none, s)
  | .redis (.getReply _), s => (.error ⟨3, literal "Server closed the connection"⟩, s)

theorem batchLaw_closingEnvironment {op : RunnerOp} (notGet : ∀ key, op ≠ .get key)
    (state : PoolMap × Nat) : BatchLaw ⟨op, (closingEnvironment op state).1⟩ := by
  rcases op with key | _ | _ | _ | _ | _ | _ | c
  · exact absurd rfl (notGet key)
  · trivial
  · rfl
  · trivial
  · trivial
  · trivial
  · exact fun _ refused => nomatch refused
  · exact (by decide : (3 : Int) ≠ 0)

/-- The connection of the group was opened on demand, so nothing deletes it when the
server has closed it. -/
theorem runCommands_terminates_on_close :
    (∃ groups left, ((mapCommandPerNode 5 (getBoth.map .ofTexts)).run closingEnvironment
      (.empty, 0)).result = .ok (groups, left)) ∧
    (∀ event ∈ ((CRunner.runCommands 5 false ⟨getBoth.map .ofTexts⟩).run closingEnvironment
      (.empty, 0)).trace, BatchLaw event) ∧
    ((CRunner.runCommands 5 false ⟨getBoth.map .ofTexts⟩).run closingEnvironment
      (.empty, 0)).result = .error .terminate := by
  refine ⟨⟨_, _, rfl⟩, ?_, rfl⟩
  refine List.forall_mem_cons.mpr ⟨?_, List.forall_mem_cons.mpr ⟨?_, ?_⟩⟩
  · rintro ptr ⟨⟩ c ⟨⟩
    rfl
  · rintro ptr ⟨⟩ c ⟨⟩
    rfl
  · repeat' (first
      | exact List.forall_mem_nil _
      | refine List.forall_mem_cons.mpr ⟨batchLaw_closingEnvironment (by rintro _ ⟨⟩) _, ?_⟩)

end MCRedis.Runner
