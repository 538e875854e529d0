import MCRedis.Runner.Async
import MCRedis.Runner.Batch

/-!
# The two runners on one batch

The asynchronous runner repeats the loops of the synchronous one with a running
reply in place of the vector.  On the same answers both make the same calls; the
replies they report differ exactly when a batch is cut short after a reply that
is not default-constructed.
-/

namespace MCRedis.Runner

open MCRedis.Client
open MCRedis.Pool
open MCRedis.Task
open MCRedis.Transition

/-- The event is an append that hiredis refuses. -/
def appendFails : RunnerEvent → Bool
  | ⟨.redis (.appendCommandArgv _ _), some _⟩ => true
  | _ => false

/-- The reply read last, starting from `rpy`. -/
def lastRead (rpy : CReply) (trace : List RunnerEvent) : CReply :=
  trace.foldl (fun last event => (readReply event).getD last) rpy

/-- An append fails while the reply read last is not default-constructed. -/
def cutShort : CReply → List RunnerEvent → Bool
  | _, [] => false
  | last, event :: trace =>
      (appendFails event && !last.isEmpty) || cutShort ((readReply event).getD last) trace

theorem lastRead_append (rpy : CReply) (first second : List RunnerEvent) :
    lastRead rpy (first ++ second) = lastRead (lastRead rpy first) second :=
  List.foldl_append

theorem cutShort_append (rpy : CReply) (first second : List RunnerEvent) :
    cutShort rpy (first ++ second) =
      (cutShort rpy first || cutShort (lastRead rpy first) second) := by
  induction first generalizing rpy with
  | nil => rfl
  | cons event first ih =>
      rw [List.cons_append, cutShort, cutShort, ih, Bool.or_assoc]
      rfl

theorem lastRead_of_quiet {trace : List RunnerEvent} (quiet : ∀ event ∈ trace, isQuiet event)
    (rpy : CReply) : lastRead rpy trace = rpy := by
  induction trace with
  | nil => rfl
  | cons event trace ih =>
      obtain ⟨eventQuiet, restQuiet⟩ := List.forall_mem_cons.mp quiet
      rw [lastRead, List.foldl_cons, (quiet_parts eventQuiet).2.1]
      exact ih restQuiet

theorem not_appendFails_of_isPoolEvent {event : RunnerEvent} (pool : isPoolEvent event) :
    appendFails event = false := by
  rcases event with ⟨_ | _ | _ | _, answer⟩ <;> first | rfl | contradiction

theorem not_appendFails_of_mem_releases {ptrs : List ConnPtr} {event : RunnerEvent}
    (mem : event ∈ releases ptrs) : appendFails event = false :=
  not_appendFails_of_isPoolEvent (isPoolEvent_of_mem_releases mem)

/-- A trace without a refused append is not cut short. -/
theorem cutShort_eq_false {trace : List RunnerEvent}
    (accepted : ∀ event ∈ trace, appendFails event = false) (rpy : CReply) :
    cutShort rpy trace = false := by
  induction trace generalizing rpy with
  | nil => rfl
  | cons event trace ih =>
      obtain ⟨eventAccepted, restAccepted⟩ := List.forall_mem_cons.mp accepted
      rw [cutShort, eventAccepted, ih restAccepted]
      rfl

/-- The reply read last is the last of the replies read. -/
theorem lastRead_eq_getLast? (rpy : CReply) (trace : List RunnerEvent) :
    lastRead rpy trace = (trace.filterMap readReply).getLast?.getD rpy := by
  induction trace generalizing rpy with
  | nil => rfl
  | cons event trace ih =>
      change lastRead ((readReply event).getD rpy) trace = _
      rw [ih]
      cases read : readReply event with
      | none => rw [List.filterMap_cons_none read, Option.getD_none]
      | some first =>
          rw [List.filterMap_cons_some read, List.getLast?_cons, Option.getD_some,
            Option.getD_some]

/-! ## The synchronous loop -/

theorem not_appendFails_of_silent {event : RunnerEvent} (silent : event.op.transmits = false) :
    appendFails event = false := by
  rcases event with ⟨_ | _ | _ | _ | _ | _ | _ | _, answer⟩ <;> first | rfl | contradiction

/-- Reading the replies of a group appends nothing. -/
theorem not_appendFails_of_readAll {hasCallback : Bool} {remaining : Nat} {ptr : ConnPtr}
    {lstRpy : List CReply} {trace : List RunnerEvent}
    {result : Except Fault (ConnPtr × List CReply)}
    (exec : Exec (CRunner.readAll hasCallback remaining ptr lstRpy) trace result) :
    ∀ event ∈ trace, appendFails event = false := by
  have silent := ((silent_readAll hasCallback remaining ptr lstRpy).exec exec fun _ _ => trivial).1
  exact fun event mem => not_appendFails_of_silent (silent event mem)

/-- Reading the replies of a group reads as many as the group has commands. -/
theorem length_readReply_readAll {hasCallback : Bool} {remaining : Nat} {ptr after : ConnPtr}
    {c : RedisContext} {lstRpy replies : List CReply} {trace : List RunnerEvent}
    (exec : Exec (CRunner.readAll hasCallback remaining ptr lstRpy) trace (.ok (after, replies)))
    (lawful : ∀ event ∈ trace, CallbackLaw event) (valid : ptr.conn.contextPtr = some c) :
    (trace.filterMap readReply).length = remaining := by
  induction remaining generalizing ptr c lstRpy trace with
  | zero =>
      obtain ⟨rfl, _⟩ := Exec.pure_iff.mp exec
      rfl
  | succ remaining ih =>
      obtain ⟨answer, rest, rfl, reading, restLawful⟩ := exec_readAll_succ exec lawful valid
      rw [filterMap_readReply_read, List.length_cons, ih reading restLawful rfl]

/-- Only the last append of a group can be one that hiredis refuses. -/
theorem cutShort_appendAll {cmds : List CCommand} {ptr after : ConnPtr} {c : RedisContext}
    {trace : List RunnerEvent} {appended : Bool}
    (exec : Exec (appendAll ptr cmds) trace (.ok (appended, after)))
    (valid : ptr.conn.contextPtr = some c) (wellFormed : ∀ cmd ∈ cmds, cmd.WellFormed)
    (rpy : CReply) :
    cutShort rpy trace = (!appended && !rpy.isEmpty) ∧ (appended = false → cmds ≠ []) := by
  induction cmds generalizing ptr c trace with
  | nil =>
      obtain ⟨rfl, resultEq⟩ := Exec.pure_iff.mp exec
      cases resultEq
      exact ⟨rfl, nofun⟩
  | cons cmd cmds ih =>
      obtain ⟨cmdWellFormed, restWellFormed⟩ := List.forall_mem_cons.mp wellFormed
      refine ⟨?_, fun _ => List.cons_ne_nil cmd cmds⟩
      rcases exec_appendAll_cons exec valid cmdWellFormed with
        ⟨error, after, rfl, resultEq⟩ | ⟨rest, rfl, continued⟩
      · cases resultEq
        rw [cutShort, cutShort, Bool.or_false]
        rfl
      · rw [cutShort, ← (ih continued rfl restWellFormed).1]
        rfl

section Group

variable {first second rest : List RunnerEvent} {rpy : CReply}

/-- Of a group, only the replies that are read change the running reply. -/
theorem lastRead_group (quiet : ∀ event ∈ first, isQuiet event) (handle : CConnectionRAII) :
    lastRead rpy (first ++ (second ++ ⟨.release handle, ()⟩ :: rest)) =
      lastRead (lastRead rpy second) rest := by
  rw [lastRead_append, lastRead_of_quiet quiet, lastRead_append]
  rfl

/-- A group whose appends are accepted cuts nothing short. -/
theorem cutShort_group (quiet : ∀ event ∈ first, isQuiet event)
    (firstCut : cutShort rpy first = false)
    (accepted : ∀ event ∈ second, appendFails event = false) (handle : CConnectionRAII) :
    cutShort rpy (first ++ (second ++ ⟨.release handle, ()⟩ :: rest)) =
      cutShort (lastRead rpy second) rest := by
  rw [cutShort_append, firstCut, lastRead_of_quiet quiet, cutShort_append,
    cutShort_eq_false accepted]
  rfl

/-- Destroying the handles does not change what the events before have decided. -/
theorem cutShort_append_releases (ptrs : List ConnPtr) :
    cutShort rpy (first ++ releases ptrs) = cutShort rpy first := by
  rw [cutShort_append, cutShort_eq_false (fun event mem => not_appendFails_of_mem_releases mem),
    Bool.or_false]

end Group

/-- The loop over the groups reaches its end, or it is cut short when the reply
read last is not default-constructed; then replies are missing. -/
theorem exec_runGroups_cut {hasCallback : Bool} {size : Nat} {groups : List NodeCommand}
    {lstRpy : List CReply} {trace : List RunnerEvent} {ended : Bool × List CReply}
    (exec : Exec (CRunner.runGroups hasCallback size groups lstRpy) trace (.ok ended))
    (lawful : ∀ event ∈ trace, CallbackLaw event)
    (wellFormed : ∀ cmd ∈ grouped groups, cmd.WellFormed)
    (valid : ∀ ptr ∈ groups.map NodeCommand.conn, ∃ c, ptr.conn.contextPtr = some c)
    (rpy : CReply) :
    (ended = (true, lstRpy ++ trace.filterMap readReply) ∧ cutShort rpy trace = false) ∨
      (ended = (false, resize (lstRpy ++ trace.filterMap readReply) size) ∧
        cutShort rpy trace = !(lastRead rpy trace).isEmpty ∧
        (trace.filterMap readReply).length < (grouped groups).length) := by
  induction groups generalizing lstRpy trace rpy with
  | nil =>
      obtain ⟨rfl, resultEq⟩ := Exec.pure_iff.mp exec
      cases resultEq
      exact .inl ⟨by simp, rfl⟩
  | cons elem groups ih =>
      obtain ⟨elemWellFormed, restWellFormed⟩ := List.forall_mem_append.mp wellFormed
      obtain ⟨⟨c, elemValid⟩, restValid⟩ := List.forall_mem_cons.mp valid
      cases exec_runGroups_cons_lawful exec lawful elemValid elemWellFormed with
      | refused appending quiet =>
          obtain ⟨firstCut, nonempty⟩ := cutShort_appendAll appending elemValid elemWellFormed rpy
          rw [lastRead_of_quiet quiet, filterMap_readReply_of_quiet quiet, List.append_nil]
          refine .inr ⟨rfl, ?_, ?_⟩
          · rw [cutShort_append_releases, firstCut]
            rfl
          · apply List.length_pos_of_ne_nil
            exact List.append_ne_nil_of_left_ne_nil (nonempty rfl) _
      | @goesOn first second rest conn last _ connEq appending firstQuiet reading looping =>
          obtain ⟨_, tailLawful⟩ := List.forall_mem_append.mp lawful
          obtain ⟨secondLawful, restLawful⟩ := List.forall_mem_append.mp tailLawful
          obtain ⟨_, loopLawful⟩ := List.forall_mem_cons.mp restLawful
          obtain ⟨firstCut, _⟩ := cutShort_appendAll appending elemValid elemWellFormed rpy
          subst connEq
          have count := length_readReply_readAll reading secondLawful rfl
          have outcome := ih looping loopLawful restWellFormed restValid (lastRead rpy second)
          rw [lastRead_group firstQuiet,
            cutShort_group firstQuiet firstCut (not_appendFails_of_readAll reading),
            filterMap_readReply_group firstQuiet, ← List.append_assoc lstRpy, List.length_append,
            count, grouped, List.flatMap_cons, List.length_append]
          rcases outcome with complete | ⟨resultEq, isCut, fewer⟩
          · exact .inl complete
          · exact .inr ⟨resultEq, isCut, Nat.add_lt_add_left fewer _⟩

/-! ## The path of a single command -/

/-- The operation appends a command. -/
def RunnerOp.appends : RunnerOp → Bool
  | .redis (.appendCommandArgv _ _) => true
  | _ => false

theorem not_appendFails_of_not_appends {event : RunnerEvent} (single : event.op.appends = false) :
    appendFails event = false := by
  rcases event with ⟨_ | _ | _ | _ | _ | _ | _ | _, answer⟩ <;> first | rfl | contradiction

/-- The program appends no command. -/
abbrev Appendless {α : Type} (program : RunnerProgram α) : Prop :=
  Guarantees (fun _ _ => True) (fun op => op.appends = false) (fun _ => True) program

theorem appendless_sendCommand (conn : CConnection) (cmd : CCommand) :
    Appendless (RunnerProgram.redis (conn.sendCommand cmd)) := by
  cases valid : conn.contextPtr with
  | none =>
      rw [CConnection.sendCommand, CConnection.context, valid]
      trivial
  | some c =>
      cases argvEq : cmd.argv with
      | error fault =>
          rw [CConnection.sendCommand, CConnection.context, valid, argvEq]
          trivial
      | ok argv =>
          rw [redis_sendCommand valid argvEq]
          exact ⟨rfl, fun _ _ => trivial⟩

theorem appendless_singleAttempts (cmdKey : Option Bytes) (cmd : CCommand) (tryCount : Nat)
    (rpy : CReply) : Appendless (singleAttempts cmdKey cmd tryCount rpy) := by
  induction tryCount generalizing rpy with
  | zero => trivial
  | succ tryCount ih =>
      refine ⟨rfl, fun handle _ => ?_⟩
      cases found : usable handle with
      | none =>
          simp only [Program.bind_pure_left, found]
          exact Guarantees.bind (guarantees_release rfl) fun _ _ => ih rpy
      | some ptr =>
          simp only [Program.bind_pure_left, found]
          apply Guarantees.bind (appendless_sendCommand ptr.conn cmd)
          intro sent _
          exact Guarantees.bind (guarantees_release rfl) fun _ _ => ih sent.1

theorem appendless_callback (hasCallback : Bool) (rpy : CReply) (held : CConnectionRAII) :
    Appendless (CRunner.callback hasCallback rpy held) := by
  cases hasCallback with
  | false => trivial
  | true =>
      refine ⟨rfl, fun answer _ => ?_⟩
      cases answer <;> trivial

/-- A single command is executed without an append. -/
theorem appendless_runCommands_one (TRetryCount : Nat) (hasCallback : Bool) (cmd : CCommand) :
    Appendless (CRunner.runCommands TRetryCount hasCallback ⟨[cmd]⟩) := by
  have sending : Appendless (runSingleCommand TRetryCount cmd) := by
    rw [runSingleCommand]
    cases cmd.getKey with
    | error fault => trivial
    | ok cmdKey => exact appendless_singleAttempts cmdKey cmd TRetryCount .empty
  apply Guarantees.bind sending
  intro rpy _
  exact Guarantees.bind (appendless_callback hasCallback rpy ⟨none⟩) fun _ _ => trivial

/-! ## The running reply -/

/-- What the value of a task, or of a part of it, says about the replies that were
read, as long as the callbacks leave their argument unchanged. -/
abbrev Reads {α : Type} (post : List RunnerEvent → α → Prop) (program : RunnerProgram α) : Prop :=
  Leaves (fun trace value => (∀ event ∈ trace, CallbackLaw event) → post trace value) program

theorem Reads.bind {α β : Type} {first : List RunnerEvent → α → Prop}
    {post : List RunnerEvent → β → Prop} {program : RunnerProgram α} {next : α → RunnerProgram β}
    (before : Reads first program)
    (after : ∀ trace value, first trace value →
      Reads (fun rest => post (trace ++ rest)) (next value)) :
    Reads post (program.bind next) := by
  constructor
  intro trace value exec lawful
  rcases Exec.bind_iff.mp exec with
    ⟨fault, _, resultEq⟩ | ⟨middle, front, rest, rfl, frontExec, restExec⟩
  · contradiction
  · obtain ⟨frontLawful, restLawful⟩ := List.forall_mem_append.mp lawful
    have holds := before.exec front middle frontExec frontLawful
    exact (after front middle holds).exec rest value restExec restLawful

theorem reads_of_quiet {α : Type} {program : RunnerProgram α}
    (quiet : Guarantees (fun _ _ => True) (fun op => ∀ answer, isQuiet ⟨op, answer⟩)
      (fun _ => True) program) :
    Reads (fun trace _ => ∀ event ∈ trace, isQuiet event) program := by
  constructor
  intro trace value exec _ event mem
  exact (quiet.exec exec fun _ _ => trivial).1 event mem event.answer

theorem quiet_release (handle : CConnectionRAII) :
    Guarantees (fun _ _ => True) (fun op => ∀ answer, isQuiet ⟨op, answer⟩) (fun _ => True)
      (release handle) :=
  guarantees_release fun _ => rfl

theorem quiet_releaseAll (ptrs : List ConnPtr) :
    Guarantees (fun _ _ => True) (fun op => ∀ answer, isQuiet ⟨op, answer⟩) (fun _ => True)
      (releaseAll ptrs) := by
  induction ptrs with
  | nil => trivial
  | cons ptr rest ih => exact Guarantees.bind (quiet_release _) fun _ _ => ih

theorem quiet_appendAll (ptr : ConnPtr) (cmds : List CCommand) :
    Guarantees (fun _ _ => True) (fun op => ∀ answer, isQuiet ⟨op, answer⟩) (fun _ => True)
      (appendAll ptr cmds) := by
  induction cmds generalizing ptr with
  | nil => trivial
  | cons cmd cmds ih =>
      cases valid : ptr.conn.contextPtr with
      | none =>
          rw [appendAll, CConnection.appendCommand, CConnection.context, valid]
          trivial
      | some c =>
          cases argvEq : cmd.argv with
          | error fault =>
              rw [appendAll, CConnection.appendCommand, CConnection.context, valid, argvEq]
              trivial
          | ok argv =>
              rw [appendAll, redis_appendCommand valid argvEq]
              refine ⟨fun _ => rfl, fun error _ => ?_⟩
              cases error with
              | some error => trivial
              | none => exact ih _

/-- A callback that leaves its argument unchanged returns the reply. -/
theorem reads_invoke (hasCallback : Bool) (rpy : CReply) (held : CConnectionRAII) :
    Reads (fun trace answer => trace = callbackTrace hasCallback rpy held ∧ answer = .returned rpy)
      (invoke hasCallback rpy held) := by
  cases hasCallback with
  | false => exact .pure fun _ => ⟨rfl, rfl⟩
  | true =>
      apply Leaves.request
      intro answer
      apply Leaves.pure
      intro lawful
      have unchanged : answer = .returned rpy := lawful _ List.mem_cons_self
      exact ⟨by rw [unchanged]; rfl, unchanged⟩

theorem lastRead_callbackTrace (hasCallback : Bool) (last rpy : CReply)
    (held : CConnectionRAII) : lastRead last (callbackTrace hasCallback rpy held) = last := by
  cases hasCallback <;> rfl

namespace CAsyncRunner

/-- The running reply of a group is the reply read last. -/
theorem reads_readAll (hasCallback : Bool) (remaining : Nat) (ptr : ConnPtr) (rpy : CReply) :
    Reads (fun trace result => result.2 = some (lastRead rpy trace))
      (readAll hasCallback remaining ptr rpy) := by
  induction remaining generalizing ptr rpy with
  | zero => exact .pure fun _ => rfl
  | succ remaining ih =>
      cases valid : ptr.conn.contextPtr with
      | none =>
          rw [readAll, CConnection.getReply, CConnection.context, valid]
          exact .fail _
      | some c =>
          rw [readAll, redis_getReply valid]
          simp only [Program.bind_eq_bind, Program.request_bind, Program.bind_pure_left]
          apply Leaves.request
          intro answer
          have read : ∀ trace, lastRead rpy (⟨.redis (.getReply c), answer⟩ :: trace) =
              lastRead (replyRead answer) trace := by
            intro trace
            rw [lastRead, lastRead, List.foldl_cons, readReply_getReply, Option.getD_some]
          simp only [read]
          refine Leaves.mono (@Reads.bind _ _ _
            (fun trace result => result.2 = some (lastRead (replyRead answer) trace)) _ _
            (reads_invoke hasCallback (replyRead answer) _) ?_) ?_
          · rintro _ _ ⟨rfl, rfl⟩
            simp only [lastRead_append, lastRead_callbackTrace]
            exact ih _ _
          · exact fun trace _ holds lawful => holds (List.forall_mem_cons.mp lawful).2

/-- The running reply of the loop over the groups is the reply read last. -/
theorem reads_runGroups (hasCallback : Bool) (groups : List NodeCommand) (rpy : CReply) :
    Reads (fun trace result => result = .returned (lastRead rpy trace))
      (runGroups hasCallback groups rpy) := by
  induction groups generalizing rpy with
  | nil => exact .pure fun _ => rfl
  | cons elem groups ih =>
      apply Reads.bind (reads_of_quiet (quiet_appendAll elem.conn elem.lstCommand))
      rintro first ⟨appended, conn⟩ firstQuiet
      simp only [lastRead_append, lastRead_of_quiet firstQuiet]
      cases appended with
      | false =>
          apply Reads.bind (reads_of_quiet (quiet_release _))
          rintro released _ releasedQuiet
          simp only [lastRead_append, lastRead_of_quiet releasedQuiet]
          apply Reads.bind (reads_of_quiet (quiet_releaseAll _))
          rintro others _ othersQuiet
          simp only [lastRead_append, lastRead_of_quiet othersQuiet]
          exact .pure fun _ => rfl
      | true =>
          apply Reads.bind (reads_readAll hasCallback elem.lstCommand.length conn rpy)
          rintro second ⟨last, read⟩ readEq
          cases read with
          | none => exact absurd readEq.symm (Option.some_ne_none _)
          | some read =>
              cases readEq
              simp only [lastRead_append]
              apply Reads.bind (reads_of_quiet (quiet_release _))
              rintro released _ releasedQuiet
              simp only [lastRead_append, lastRead_of_quiet releasedQuiet]
              exact ih _

end CAsyncRunner

/-! ## The two runners in step -/

/-- The same event; a callback leaves its argument unchanged. -/
def SameEvent (event other : RunnerEvent) : Prop :=
  event = other ∧ CallbackLaw event

theorem inStep_same {α : Type} (program : RunnerProgram α) :
    InStep SameEvent Eq program program :=
  (InStep.refl program).weaken fun _ _ same => same.1

theorem inStep_request {α β : Type} {op : RunnerOp} {post : α → β → Prop}
    {next : RunnerAns op → RunnerProgram α} {next' : RunnerAns op → RunnerProgram β}
    (rest : ∀ answer, CallbackLaw ⟨op, answer⟩ →
      InStep SameEvent post (next answer) (next' answer)) :
    InStep SameEvent post (.request op next) (.request op next') := by
  refine ⟨?_, ?_, ?_⟩
  · rintro answer _ ⟨rfl, _⟩
    rfl
  · rintro _ answer ⟨rfl, _⟩
    rfl
  · rintro answer _ ⟨⟨⟩, lawful⟩
    exact rest answer lawful

theorem inStep_callback (hasCallback : Bool) (rpy : CReply) (held : CConnectionRAII) :
    InStep SameEvent (fun last answer => answer = .returned last)
      (CRunner.callback hasCallback rpy held) (invoke hasCallback rpy held) := by
  cases hasCallback with
  | false => rfl
  | true =>
      apply inStep_request
      intro answer lawful
      have unchanged : answer = .returned rpy := lawful
      rw [unchanged]
      rfl

theorem inStep_readAll (hasCallback : Bool) (remaining : Nat) (ptr : ConnPtr)
    (lstRpy : List CReply) (rpy : CReply) :
    InStep SameEvent (fun sync async => async.1 = sync.1 ∧ async.2 ≠ none)
      (CRunner.readAll hasCallback remaining ptr lstRpy)
      (CAsyncRunner.readAll hasCallback remaining ptr rpy) := by
  induction remaining generalizing ptr lstRpy rpy with
  | zero => exact ⟨rfl, Option.some_ne_none rpy⟩
  | succ remaining ih =>
      apply (inStep_same (RunnerProgram.redis ptr.conn.getReply)).bind
      rintro ⟨read, conn⟩ _ rfl
      apply (inStep_callback hasCallback read ⟨some { ptr with conn := conn }⟩).bind
      rintro last _ rfl
      exact ih _ _ _

theorem inStep_runGroups (hasCallback : Bool) (size : Nat) (groups : List NodeCommand)
    (lstRpy : List CReply) (rpy : CReply) :
    InStep SameEvent (fun _ result => ∃ last, result = .returned last)
      (CRunner.runGroups hasCallback size groups lstRpy)
      (CAsyncRunner.runGroups hasCallback groups rpy) := by
  induction groups generalizing lstRpy rpy with
  | nil => exact ⟨rpy, rfl⟩
  | cons elem groups ih =>
      apply (inStep_same (appendAll elem.conn elem.lstCommand)).bind
      rintro ⟨appended, conn⟩ _ rfl
      cases appended with
      | false =>
          apply (inStep_same (release ⟨some conn⟩)).bind
          intro _ _ _
          apply (inStep_same (releaseAll (groups.map NodeCommand.conn))).bind
          intro _ _ _
          exact ⟨rpy, rfl⟩
      | true =>
          apply (inStep_readAll hasCallback elem.lstCommand.length conn lstRpy rpy).bind
          rintro ⟨last, replies⟩ ⟨other, read⟩ ⟨sameConn, reads⟩
          cases sameConn
          apply (inStep_same (release ⟨some last⟩)).bind
          intro _ _ _
          cases read with
          | none => exact absurd rfl reads
          | some read => exact ih replies read

/-! ## Whole sessions -/

/-- The commands given to a fresh runner. -/
def CRunner.queued (texts : List (List Bytes)) : CRunner :=
  texts.foldl (fun runner text => runner.append (.ofTexts text)) ⟨[]⟩

def CAsyncRunner.queued (texts : List (List Bytes)) : CAsyncRunner :=
  texts.foldl (fun runner text => runner.append (.ofTexts text)) .create

theorem CRunner.queued_eq (texts : List (List Bytes)) :
    CRunner.queued texts = ⟨texts.map .ofTexts⟩ := by
  have general : ∀ runner : CRunner,
      texts.foldl (fun runner text => runner.append (.ofTexts text)) runner =
        ⟨runner.lstCommand ++ texts.map .ofTexts⟩ := by
    intro runner
    induction texts generalizing runner with
    | nil => simp
    | cons text texts ih =>
        rw [List.foldl_cons, ih]
        simp [CRunner.append, (CCommand.wellFormed_ofTexts text).moved_eq]
  exact general ⟨[]⟩

theorem CAsyncRunner.queued_eq (texts : List (List Bytes)) :
    CAsyncRunner.queued texts = ⟨texts.map .ofTexts, 0⟩ := by
  have general : ∀ runner : CAsyncRunner,
      texts.foldl (fun runner text => runner.append (.ofTexts text)) runner =
        ⟨runner.lstCommand ++ texts.map .ofTexts, runner.resultId⟩ := by
    intro runner
    induction texts generalizing runner with
    | nil => simp
    | cons text texts ih =>
        rw [List.foldl_cons, ih]
        simp [CAsyncRunner.append, (CCommand.wellFormed_ofTexts text).moved_eq]
  exact general .create

/-- The last reply of `runCommands` on a fresh `CRunner`; a default-constructed
one when there is none. -/
def syncReply (TRetryCount : Nat) (hasCallback : Bool) (texts : List (List Bytes)) :
    RunnerProgram CReply := do
  let (lstRpy, _) ← (CRunner.queued texts).runCommands TRetryCount hasCallback
  pure (lstRpy.getLast?.getD .empty)

/-- The reply of `getResult` after `runCommands` on a fresh `CAsyncRunner`. -/
def asyncReply (TRetryCount : Nat) (hasCallback : Bool) (texts : List (List Bytes))
    (taskHolder : CTaskHolder TaskResult) : RunnerProgram CReply := do
  let (runner, taskHolder) ←
    (CAsyncRunner.queued texts).runCommands TRetryCount hasCallback taskHolder
  Program.ofExcept ((runner.getResult taskHolder).map Prod.fst)

/-- Both sessions invoke the callback on the same replies, and report the same
reply or end in the same fault. -/
structure Agree {σ : Type} (sync async : Outcome RunnerOp RunnerAns Fault CReply σ) : Prop where
  callbacks : async.trace.filterMap invokedOn = sync.trace.filterMap invokedOn
  reply : async.result = sync.result

/-- What the task does with the groups of a batch. -/
def taskMapped (hasCallback : Bool) (groups : List NodeCommand) : RunnerProgram TaskResult :=
  if groups.isEmpty then .pure (.returned .empty)
  else CAsyncRunner.runGroups hasCallback groups .empty

theorem task_eq (TRetryCount : Nat) (hasCallback : Bool) {queue : List CCommand}
    (notSingle : queue.length ≠ 1) :
    CAsyncRunner.task TRetryCount hasCallback queue =
      (mapCommandPerNode TRetryCount queue).bind fun mapped => taskMapped hasCallback mapped.1 := by
  rcases queue with _ | ⟨first, _ | ⟨second, queue⟩⟩
  · rfl
  · contradiction
  · rfl

theorem asyncReply_eq (TRetryCount : Nat) (hasCallback : Bool) (texts : List (List Bytes))
    (taskHolder : CTaskHolder TaskResult) :
    asyncReply TRetryCount hasCallback texts taskHolder =
      (CAsyncRunner.task TRetryCount hasCallback (texts.map .ofTexts)).bind fun result =>
        Program.ofExcept ((CAsyncRunner.getResult ⟨[], (taskHolder.addTask result).1⟩
          (taskHolder.addTask result).2).map Prod.fst) := by
  rw [asyncReply, CAsyncRunner.queued_eq]
  exact Program.bind_bind _ _ _

/-! ### In step -/

/-- A call of the synchronous runner and the task run in step; on a single command
the reply is the same. -/
theorem inStep_runCommands (TRetryCount : Nat) (hasCallback : Bool) (queue : List CCommand) :
    InStep SameEvent
      (fun ended result => ∃ last, result = .returned last ∧
        (queue.length = 1 → ended.1.getLast?.getD .empty = last))
      (CRunner.runCommands TRetryCount hasCallback ⟨queue⟩)
      (CAsyncRunner.task TRetryCount hasCallback queue) := by
  by_cases single : queue.length = 1
  · obtain ⟨cmd, rfl⟩ := List.length_eq_one_iff.mp single
    apply (inStep_same (runSingleCommand TRetryCount cmd)).bind
    rintro rpy _ rfl
    apply (inStep_callback hasCallback rpy ⟨none⟩).bind
    rintro last _ rfl
    exact ⟨last, rfl, fun _ => rfl⟩
  · rw [runCommands_eq TRetryCount hasCallback single, task_eq TRetryCount hasCallback single]
    apply (inStep_same (mapCommandPerNode TRetryCount queue)).bind
    rintro ⟨groups, left⟩ _ rfl
    rw [runMapped, taskMapped]
    split
    · exact ⟨.empty, rfl, fun alone => absurd alone single⟩
    · rw [← Program.bind_pure_right (CAsyncRunner.runGroups hasCallback groups .empty)]
      apply (inStep_runGroups hasCallback left.length groups [] .empty).bind
      rintro ended _ ⟨last, rfl⟩
      exact ⟨last, rfl, fun alone => absurd alone single⟩

theorem inStep_reply (TRetryCount : Nat) (hasCallback : Bool) (texts : List (List Bytes))
    {taskHolder : CTaskHolder TaskResult} (ready : taskHolder.Ready) :
    InStep SameEvent (fun sync async => texts.length = 1 → async = sync)
      (syncReply TRetryCount hasCallback texts)
      (asyncReply TRetryCount hasCallback texts taskHolder) := by
  rw [syncReply, CRunner.queued_eq, asyncReply_eq]
  apply (inStep_runCommands TRetryCount hasCallback (texts.map .ofTexts)).bind
  rintro ⟨lstRpy, runner⟩ _ ⟨last, rfl, same⟩
  rw [CAsyncRunner.getResult_addTask ready]
  exact fun single => (same (List.length_map CCommand.ofTexts ▸ single)).symm

/-! ### What is reported -/

/-- The reply of a task that is not for a single command is the one read last. -/
theorem reads_task (TRetryCount : Nat) (hasCallback : Bool) {queue : List CCommand}
    (notSingle : queue.length ≠ 1) :
    Reads (fun trace result => result = .returned (lastRead .empty trace))
      (CAsyncRunner.task TRetryCount hasCallback queue) := by
  have mapping : Reads (fun trace _ => ∀ event ∈ trace, isQuiet event)
      (mapCommandPerNode TRetryCount queue) :=
    ⟨fun trace _ exec _ event mem =>
      isQuiet_of_isPoolEvent ((exec_mapCommandPerNode exec).poolOnly event mem)⟩
  rw [task_eq TRetryCount hasCallback notSingle]
  apply Reads.bind mapping
  rintro first ⟨groups, left⟩ quiet
  simp only [lastRead_append, lastRead_of_quiet quiet]
  rw [taskMapped]
  split
  · exact .pure fun _ => rfl
  · exact CAsyncRunner.reads_runGroups hasCallback groups .empty

theorem exec_asyncReply {TRetryCount : Nat} {hasCallback : Bool} {texts : List (List Bytes)}
    {taskHolder : CTaskHolder TaskResult} {trace : List RunnerEvent} {rpy : CReply}
    (ready : taskHolder.Ready) (notSingle : (texts.map CCommand.ofTexts).length ≠ 1)
    (exec : Exec (asyncReply TRetryCount hasCallback texts taskHolder) trace (.ok rpy))
    (lawful : ∀ event ∈ trace, CallbackLaw event) : rpy = lastRead .empty trace := by
  rw [asyncReply_eq] at exec
  rcases Exec.bind_iff.mp exec with
    ⟨fault, _, resultEq⟩ | ⟨result, front, rest, rfl, tasking, returned⟩
  · contradiction
  obtain ⟨frontLawful, _⟩ := List.forall_mem_append.mp lawful
  cases (reads_task TRetryCount hasCallback notSingle).exec front result tasking frontLawful
  rw [CAsyncRunner.getResult_addTask ready] at returned
  obtain ⟨rfl, resultEq⟩ := Exec.pure_iff.mp returned
  cases resultEq
  rw [List.append_nil]

theorem getLast?_resize {lstRpy : List CReply} {size : Nat} (padded : lstRpy.length < size) :
    (resize lstRpy size).getLast?.getD .empty = .empty := by
  obtain ⟨missing, missingEq⟩ := Nat.exists_eq_add_of_lt padded
  have padding : size - lstRpy.length = missing + 1 := by omega
  rw [resize, padding, List.replicate_succ', ← List.append_assoc, List.getLast?_concat]
  rfl

/-- On the groups of a batch, the last reply of the vector is the one read last
unless the batch is cut short. -/
theorem exec_runMapped_last {TRetryCount : Nat} {hasCallback : Bool} {queue : List CCommand}
    {groups : List NodeCommand} {left : List CCommand} {first second : List RunnerEvent}
    {lstRpy : List CReply} {runner : CRunner}
    (mapping : MappingResult TRetryCount queue [] [] first groups left)
    (exec : Exec (runMapped hasCallback groups left) second (.ok (lstRpy, runner)))
    (lawful : ∀ event ∈ second, CallbackLaw event)
    (wellFormed : ∀ cmd ∈ queue, cmd.WellFormed) :
    lstRpy.getLast?.getD .empty = lastRead .empty second ↔ cutShort .empty second = false := by
  have leftLength : left.length = queue.length := by
    rw [mapping.length, List.length_nil, Nat.zero_add]
  cases groups with
  | nil =>
      obtain ⟨rfl, resultEq⟩ := Exec.pure_iff.mp exec
      cases resultEq
      rw [resize, List.take_nil, List.nil_append, List.getLast?_replicate]
      refine iff_of_true ?_ rfl
      split <;> rfl
  | cons elem groups =>
      have groupedEq := mapping.grouped_eq wellFormed
      have groupedWellFormed := mapping.wellFormed_grouped wellFormed
      obtain ⟨fault | ended, looping, resultEq⟩ := exec_runMapped_cons exec
      · contradiction
      cases resultEq
      rcases exec_runGroups_cut looping lawful groupedWellFormed mapping.valid .empty with
        ⟨rfl, notCut⟩ | ⟨rfl, isCut, fewer⟩
      · rw [notCut, List.nil_append, lastRead_eq_getLast?]
        exact iff_of_true rfl rfl
      · rw [groupedEq, ← leftLength] at fewer
        rw [isCut, List.nil_append, getLast?_resize fewer, Bool.not_eq_false',
          CReply.isEmpty_iff, eq_comm]

/-- A batch whose mapping returns: whether the call returns, and what it reports. -/
theorem exec_syncReply {TRetryCount : Nat} {hasCallback : Bool} {texts : List (List Bytes)}
    {trace : List RunnerEvent} {result : Except Fault CReply}
    (notSingle : (texts.map CCommand.ofTexts).length ≠ 1)
    (exec : Exec (syncReply TRetryCount hasCallback texts) trace result)
    (lawful : ∀ event ∈ trace, CallbackLaw event)
    (mapped : ∀ fault,
      ¬ Exec (mapCommandPerNode TRetryCount (texts.map .ofTexts)) trace (.error fault)) :
    ((∃ rpy, result = .ok rpy) ↔ ∀ event ∈ trace, DeletesBroken event) ∧
      ∀ rpy, result = .ok rpy → (rpy = lastRead .empty trace ↔ cutShort .empty trace = false) := by
  have wellFormed : ∀ cmd ∈ texts.map CCommand.ofTexts, cmd.WellFormed :=
    List.forall_mem_map.mpr fun text _ => CCommand.wellFormed_ofTexts text
  rw [syncReply, CRunner.queued_eq, runCommands_eq TRetryCount hasCallback notSingle] at exec
  obtain ⟨ended, running, rfl⟩ := Exec.bind_pure_iff.mp exec
  rcases Exec.bind_iff.mp running with
    ⟨fault, mapping, _⟩ | ⟨⟨groups, left⟩, first, second, rfl, mapExec, batch⟩
  · exact absurd mapping (mapped fault)
  have mapping := exec_mapCommandPerNode mapExec
  have mapClean := (disposing_mapCommands _ _ _ _ _).exec _ _ mapExec
  obtain ⟨_, secondLawful⟩ := List.forall_mem_append.mp lawful
  have returns_iff := (completing_runMapped mapping wellFormed).returns_iff _ _ batch
  rw [forall₂_congr fun event mem => (secondLawful event mem).completes_iff] at returns_iff
  constructor
  · rw [List.forall_mem_append, ← returns_iff,
      and_iff_right fun event mem => deletesBroken_of_disposes (mapClean event mem)]
    cases ended <;> simp [Except.map]
  · rintro rpy resultEq
    have firstQuiet : ∀ event ∈ first, isQuiet event := fun event mem =>
      isQuiet_of_isPoolEvent (mapping.poolOnly event mem)
    have firstAccepted : ∀ event ∈ first, appendFails event = false := fun event mem =>
      not_appendFails_of_isPoolEvent (mapping.poolOnly event mem)
    rw [lastRead_append, lastRead_of_quiet firstQuiet, cutShort_append,
      cutShort_eq_false firstAccepted, lastRead_of_quiet firstQuiet, Bool.false_or]
    cases ended with
    | error fault => contradiction
    | ok ended =>
        cases resultEq
        exact exec_runMapped_last mapping batch secondLawful wellFormed

theorem cutShort_single {TRetryCount : Nat} {hasCallback : Bool} {texts : List (List Bytes)}
    {trace : List RunnerEvent} {result : Except Fault CReply}
    (single : (texts.map CCommand.ofTexts).length = 1)
    (exec : Exec (syncReply TRetryCount hasCallback texts) trace result) :
    cutShort .empty trace = false := by
  rw [syncReply, CRunner.queued_eq] at exec
  obtain ⟨cmd, queueEq⟩ := List.length_eq_one_iff.mp single
  rw [queueEq] at exec
  obtain ⟨ended, running, _⟩ := Exec.bind_pure_iff.mp exec
  have appendless := ((appendless_runCommands_one TRetryCount hasCallback cmd).exec running
    fun _ _ => trivial).1
  exact cutShort_eq_false (fun event mem => not_appendFails_of_not_appends (appendless event mem)) _

/-- The two runners agree on a batch exactly when it is not cut short after a
reply that is not default-constructed, or ends the process because a connection
that is broken has no deleter. -/
theorem runners_agree_iff {σ : Type} (environment : Environment RunnerOp RunnerAns σ) (state : σ)
    (TRetryCount : Nat) (hasCallback : Bool) (texts : List (List Bytes))
    (taskHolder : CTaskHolder TaskResult) (ready : taskHolder.Ready)
    (mapped : texts.length ≠ 1 → ∃ groups left,
      ((mapCommandPerNode TRetryCount (texts.map .ofTexts)).run environment state).result =
        .ok (groups, left))
    (lawful : ∀ event ∈ ((syncReply TRetryCount hasCallback texts).run environment state).trace,
      CallbackLaw event) :
    Agree ((syncReply TRetryCount hasCallback texts).run environment state)
        ((asyncReply TRetryCount hasCallback texts taskHolder).run environment state) ↔
      ¬ (cutShort .empty ((syncReply TRetryCount hasCallback texts).run environment state).trace =
          true ∧
        ∀ event ∈ ((syncReply TRetryCount hasCallback texts).run environment state).trace,
          DeletesBroken event) := by
  have exec := Program.exec_run environment (syncReply TRetryCount hasCallback texts) state
  have related : List.Forall₂ SameEvent
      ((syncReply TRetryCount hasCallback texts).run environment state).trace
      ((syncReply TRetryCount hasCallback texts).run environment state).trace :=
    List.forall₂_same.mpr fun event mem => ⟨rfl, lawful event mem⟩
  obtain ⟨result, asyncExec, alike⟩ :=
    (inStep_reply TRetryCount hasCallback texts ready).exec_result related exec
  have agree_iff : Agree ((syncReply TRetryCount hasCallback texts).run environment state)
      ((asyncReply TRetryCount hasCallback texts taskHolder).run environment state) ↔
        result = ((syncReply TRetryCount hasCallback texts).run environment state).result := by
    rw [Program.run_eq_of_exec asyncExec]
    exact ⟨fun agree => agree.reply, fun same => ⟨rfl, same⟩⟩
  rw [agree_iff]
  generalize ((syncReply TRetryCount hasCallback texts).run environment state).result = sync
    at exec alike
  by_cases single : texts.length = 1
  · have notCut := cutShort_single (by rwa [List.length_map]) exec
    rw [notCut]
    refine iff_of_true ?_ fun cut => Bool.false_ne_true cut.1
    cases alike with
    | returned same => rw [same single]
    | failed fault => rfl
  · have notSingle : (texts.map CCommand.ofTexts).length ≠ 1 := by rwa [List.length_map]
    have noFault : ∀ fault, ¬ Exec (mapCommandPerNode TRetryCount (texts.map .ofTexts))
        ((syncReply TRetryCount hasCallback texts).run environment state).trace
        (.error fault) := by
      intro fault faulted
      obtain ⟨groups, left, returned⟩ := mapped single
      rw [Program.run_eq_of_exec faulted] at returned
      contradiction
    obtain ⟨returns_iff, reported⟩ := exec_syncReply notSingle exec lawful noFault
    rw [← returns_iff]
    cases alike with
    | failed fault => exact iff_of_true rfl fun cut => nomatch cut.2
    | @returned sync async _ =>
        have last := exec_asyncReply ready notSingle asyncExec lawful
        rw [and_iff_left ⟨sync, rfl⟩, Bool.not_eq_true, ← reported sync rfl, ← last,
          Except.ok.injEq, eq_comm]

/-- The node of `a` holds the lower half of the slots, the node of `b` the upper
half. -/
def twoNodes : Option Bytes → Nat × Nat
  | some [0x61] => (0, 8191)
  | _ => (8192, 16383)

theorem runners_agree_on_two_nodes :
    Agree ((syncReply 5 true getBoth).run (freshEnvironment twoNodes fun _ => false) 0)
      ((asyncReply 5 true getBoth .create).run (freshEnvironment twoNodes fun _ => false) 0) :=
  (runners_agree_iff (freshEnvironment twoNodes fun _ => false) 0 5 true getBoth .create
    CTaskHolder.ready_create (fun _ => ⟨_, _, rfl⟩)
    (Program.run_trace_forall (fun op i => (batchLaw_freshEnvironment _ _ op i).callbackLaw)
      _ _)).mpr fun cut => Bool.false_ne_true cut.1

/-- The node of `b` refuses its command: the synchronous runner reports a
default-constructed reply, the asynchronous one the `OK` of the node of `a`. -/
theorem runners_disagree_on_refused_append :
    (∃ groups left, ((mapCommandPerNode 5 (getBoth.map .ofTexts)).run
      (freshEnvironment twoNodes (· = [[0x47, 0x45, 0x54], [0x62]])) 0).result =
        .ok (groups, left)) ∧
    (∀ event ∈ ((syncReply 5 true getBoth).run
      (freshEnvironment twoNodes (· = [[0x47, 0x45, 0x54], [0x62]])) 0).trace,
      CallbackLaw event) ∧
    ¬ Agree
      ((syncReply 5 true getBoth).run
        (freshEnvironment twoNodes (· = [[0x47, 0x45, 0x54], [0x62]])) 0)
      ((asyncReply 5 true getBoth .create).run
        (freshEnvironment twoNodes (· = [[0x47, 0x45, 0x54], [0x62]])) 0) := by
  refine ⟨⟨_, _, rfl⟩, ?_, ?_⟩
  · exact Program.run_trace_forall
      (fun op i => (batchLaw_freshEnvironment _ _ op i).callbackLaw) _ _
  · rintro ⟨_, same⟩
    cases same

end MCRedis.Runner
