import MCRedis.Runner.Agreement
import MCRedis.Runner.History

/-!
# The queue after a failed run

A run that fails keeps its queue.  The commands that were mapped before the
failure have been moved into the groups by then, so what the queue keeps of them
are the shells that the move constructor leaves behind.
-/

namespace MCRedis.Runner

open MCRedis.Client
open MCRedis.Pool
open MCRedis.Transition

/-- How a run fails, and the commands that were mapped before: the attempts for
some command all fail, or a connection refuses an append. -/
inductive Failure (TRetryCount : Nat) (queue : List CCommand) (trace : List RunnerEvent) :
    List CCommand → Prop
  | unmapped {mapped : List CCommand} : GivesUpAfter TRetryCount mapped queue (answersOf trace) →
      Failure TRetryCount queue trace mapped
  | refused {event : RunnerEvent} : event ∈ trace → appendFails event →
      Failure TRetryCount queue trace queue

/-- The shell of a well-formed command is well formed only when the command had
no texts. -/
theorem wellFormed_movedFrom_iff {cmd : CCommand} (wellFormed : cmd.WellFormed) :
    cmd.movedFrom.WellFormed ↔ cmd.lstCommandBuffer = [] := by
  constructor
  · intro shell
    exact wellFormed.pointers.symm.trans shell.pointers
  · intro empty
    exact ⟨wellFormed.pointers.trans empty, rfl⟩

theorem forall_movedFrom_iff {cmds : List CCommand} (wellFormed : ∀ cmd ∈ cmds, cmd.WellFormed) :
    (∀ cmd ∈ cmds.map CCommand.movedFrom, cmd.WellFormed) ↔
      ∀ cmd ∈ cmds, cmd.lstCommandBuffer = [] := by
  rw [List.forall_mem_map]
  exact forall₂_congr fun cmd mem => wellFormed_movedFrom_iff (wellFormed cmd mem)

/-! ## Refused appends -/

/-- The append loop ends normally only when no append is refused. -/
theorem exec_appendAll_accepted {cmds : List CCommand} {ptr after : ConnPtr} {c : RedisContext}
    {trace : List RunnerEvent} (exec : Exec (appendAll ptr cmds) trace (.ok (true, after)))
    (valid : ptr.conn.contextPtr = some c) (wellFormed : ∀ cmd ∈ cmds, cmd.WellFormed) :
    ∀ event ∈ trace, appendFails event = false := by
  induction cmds generalizing ptr c trace with
  | nil =>
      obtain ⟨rfl, _⟩ := Exec.pure_iff.mp exec
      simp
  | cons cmd cmds ih =>
      obtain ⟨cmdWellFormed, restWellFormed⟩ := List.forall_mem_cons.mp wellFormed
      rcases exec_appendAll_cons exec valid cmdWellFormed with
        ⟨error, _, rfl, resultEq⟩ | ⟨rest, rfl, continued⟩
      · cases resultEq
      · exact List.forall_mem_cons.mpr ⟨rfl, ih continued rfl restWellFormed⟩

/-- The loop over the groups reaches its end only when no append is refused. -/
theorem exec_runGroups_accepted {hasCallback : Bool} {size : Nat} {groups : List NodeCommand}
    {lstRpy replies : List CReply} {trace : List RunnerEvent}
    (exec : Exec (CRunner.runGroups hasCallback size groups lstRpy) trace (.ok (true, replies)))
    (wellFormed : ∀ cmd ∈ grouped groups, cmd.WellFormed)
    (valid : ∀ ptr ∈ groups.map NodeCommand.conn, ∃ c, ptr.conn.contextPtr = some c) :
    ∀ event ∈ trace, appendFails event = false := by
  induction groups generalizing lstRpy trace with
  | nil =>
      obtain ⟨rfl, _⟩ := Exec.pure_iff.mp exec
      simp
  | cons elem groups ih =>
      obtain ⟨elemWellFormed, restWellFormed⟩ := List.forall_mem_append.mp wellFormed
      obtain ⟨⟨c, elemValid⟩, restValid⟩ := List.forall_mem_cons.mp valid
      cases exec_runGroups_cons exec with
      | goesOn appending reading looping =>
          intro event mem
          rcases List.mem_append.mp mem with mem | mem
          · exact exec_appendAll_accepted appending elemValid elemWellFormed event mem
          · rcases List.mem_append.mp mem with mem | mem
            · exact not_appendFails_of_readAll reading event mem
            · rcases List.mem_cons.mp mem with rfl | mem
              · rfl
              · exact ih looping restWellFormed restValid event mem

/-- A batch with a refused append leaves the queue that the mapping has left. -/
theorem exec_runMapped_refused {hasCallback : Bool} {groups : List NodeCommand}
    {left : List CCommand} {trace : List RunnerEvent} {event : RunnerEvent}
    {lstRpy : List CReply} {after : CRunner}
    (exec : Exec (runMapped hasCallback groups left) trace (.ok (lstRpy, after)))
    (wellFormed : ∀ cmd ∈ grouped groups, cmd.WellFormed)
    (valid : ∀ ptr ∈ groups.map NodeCommand.conn, ∃ c, ptr.conn.contextPtr = some c)
    (mem : event ∈ trace) (refused : appendFails event) : after = ⟨left⟩ := by
  cases groups with
  | nil =>
      obtain ⟨rfl, _⟩ := Exec.pure_iff.mp exec
      contradiction
  | cons elem groups =>
      obtain ⟨fault | ⟨finished, replies⟩, looping, resultEq⟩ := exec_runMapped_cons exec
      · contradiction
      cases resultEq
      cases finished with
      | false => rfl
      | true =>
          have accepted := exec_runGroups_accepted looping wellFormed valid event mem
          exact absurd refused (ne_true_of_eq_false accepted)

/-! ## The queue that is left -/

/-- The queue keeps the shells of the commands `mapped` and the other commands as
they were. -/
def KeepsShells (queue mapped : List CCommand) (after : CRunner) : Prop :=
  ∃ rest, queue = mapped ++ rest ∧ after = ⟨mapped.map CCommand.movedFrom ++ rest⟩

/-- What a failed run of a batch leaves in the queue. -/
theorem exec_batch_keeps {TRetryCount : Nat} {hasCallback : Bool} {queue mapped : List CCommand}
    {trace : List RunnerEvent} {lstRpy : List CReply} {after : CRunner}
    (notSingle : queue.length ≠ 1) (wellFormed : ∀ cmd ∈ queue, cmd.WellFormed)
    (exec : Exec (CRunner.runCommands TRetryCount hasCallback ⟨queue⟩) trace (.ok (lstRpy, after)))
    (failed : Failure TRetryCount queue trace mapped) : KeepsShells queue mapped after := by
  rw [runCommands_eq TRetryCount hasCallback notSingle] at exec
  rcases Exec.bind_iff.mp exec with
    ⟨fault, _, resultEq⟩ | ⟨⟨groups, left⟩, first, second, rfl, mapping, batch⟩
  · contradiction
  have mappingResult := exec_mapCommandPerNode mapping
  have firstAccepted : ∀ event ∈ first, ¬ appendFails event := fun event mem =>
    ne_true_of_eq_false (not_appendFails_of_isPoolEvent (mappingResult.poolOnly event mem))
  obtain ⟨taken, rest, ptrs, extended, run⟩ := exec_mapCommandPerNode_run mapping
  obtain ⟨answered, more, answersEq, obtains, ending⟩ := run.ending
  have queueEq := run.queue
  cases ending with
  | done =>
      rw [List.append_nil] at queueEq
      subst queueEq
      cases failed with
      | unmapped givesUp =>
          rw [answersOf_append, answersEq, List.append_assoc] at givesUp
          exact absurd givesUp (obtains.not_givesUpAfter _)
      | refused mem refused =>
          rcases List.mem_append.mp mem with mem | mem
          · exact absurd refused (firstAccepted _ mem)
          · have groupedWellFormed := mappingResult.wellFormed_grouped wellFormed
            rw [exec_runMapped_refused batch groupedWellFormed mappingResult.valid mem refused]
            exact ⟨[], (List.append_nil _).symm, by simp⟩
  | gaveUp keyEq positive =>
      obtain ⟨rfl, resultEq⟩ := Exec.pure_iff.mp batch
      cases resultEq
      rw [List.append_nil] at failed
      cases failed with
      | unmapped givesUp =>
          have own : GivesUpAfter TRetryCount taken queue (answersOf first) :=
            ⟨_, _, _, answered, ptrs, queueEq, obtains, keyEq, answersEq ▸ List.prefix_rfl⟩
          cases givesUp.unique own
          exact ⟨_, queueEq, rfl⟩
      | refused mem refused => exact absurd refused (firstAccepted _ mem)
  | skipped zero =>
      subst zero
      cases obtains with
      | cons _ few => exact absurd few (Nat.not_lt_zero _)
      | nil =>
          cases List.map_eq_nil_iff.mp (run.runs.eq_nil_iff.mpr rfl)
          obtain ⟨rfl, resultEq⟩ := Exec.pure_iff.mp batch
          cases resultEq
          rw [List.append_nil] at failed
          cases failed with
          | unmapped givesUp =>
              rcases givesUp with ⟨cmd, later, key, _, _, queueEq', before, _, _⟩
              cases before with
              | cons _ few => exact absurd few (Nat.not_lt_zero _)
              | nil => exact ⟨_, rfl, by rw [queueEq]; rfl⟩
          | refused mem refused => exact absurd refused (firstAccepted _ mem)

/-- What a failed run of a single command leaves in the queue. -/
theorem exec_single_keeps {TRetryCount : Nat} {hasCallback : Bool} {cmd : CCommand}
    {mapped : List CCommand} {trace : List RunnerEvent} {lstRpy : List CReply} {after : CRunner}
    (wellFormed : cmd.WellFormed)
    (exec : Exec (CRunner.runCommands TRetryCount hasCallback ⟨[cmd]⟩) trace (.ok (lstRpy, after)))
    (failed : Failure TRetryCount [cmd] trace mapped) : KeepsShells [cmd] mapped after := by
  obtain ⟨rpy, returned, sending, invocation, rfl, attempts, invoked, _, rfl⟩ :=
    exec_runCommands_one exec wellFormed
  cases failed with
  | unmapped givesUp =>
      rcases givesUp with ⟨other, rest, _, _, _, queueEq, _⟩
      cases mapped with
      | nil => exact ⟨_, rfl, rfl⟩
      | cons first mapped => simp at queueEq
  | refused mem refused =>
      have appendless := ((appendless_runCommands_one TRetryCount hasCallback cmd).exec exec
        fun _ _ => trivial).1
      have accepted := not_appendFails_of_not_appends (appendless _ mem)
      exact absurd refused (ne_true_of_eq_false accepted)

/-- A failed run leaves well-formed commands in the queue exactly when the
commands mapped before the failure had no texts. -/
theorem failed_run_leaves_wellFormed_iff {TRetryCount : Nat} {hasCallback : Bool}
    {queue mapped : List CCommand} {trace : List RunnerEvent} {lstRpy : List CReply}
    {after : CRunner} (wellFormed : ∀ cmd ∈ queue, cmd.WellFormed)
    (exec : Exec (CRunner._run TRetryCount hasCallback ⟨queue⟩) trace (.ok (lstRpy, after)))
    (failed : Failure TRetryCount queue trace mapped) :
    (∀ cmd ∈ after.lstCommand, cmd.WellFormed) ↔ ∀ cmd ∈ mapped, cmd.lstCommandBuffer = [] := by
  have keeps : KeepsShells queue mapped after := by
    by_cases single : queue.length = 1
    · obtain ⟨cmd, rfl⟩ := List.length_eq_one_iff.mp single
      exact exec_single_keeps (wellFormed cmd List.mem_cons_self) exec failed
    · exact exec_batch_keeps single wellFormed exec failed
  obtain ⟨rest, rfl, rfl⟩ := keeps
  obtain ⟨mappedWellFormed, restWellFormed⟩ := List.forall_mem_append.mp wellFormed
  rw [List.forall_mem_append, forall_movedFrom_iff mappedWellFormed]
  exact and_iff_left restWellFormed

/-- A pool that has a connection for the key `a` only. -/
def onlyA : Environment RunnerOp RunnerAns Nat
  | .get key, i => if key = some [0x61] then oneNode (.get key) i else (⟨none⟩, i)
  | op, i => oneNode op i

/-- `GET b`, which cannot be mapped, before `GET a`. -/
theorem failed_run_leaves_wellFormed_getB :
    ∃ trace lstRpy after,
      Exec (CRunner._run 5 false ⟨getBoth.reverse.map .ofTexts⟩) trace (.ok (lstRpy, after)) ∧
      ((∀ cmd ∈ after.lstCommand, cmd.WellFormed) ↔
        ∀ cmd ∈ ([] : List CCommand), cmd.lstCommandBuffer = []) := by
  have exec := Program.exec_run onlyA (CRunner._run 5 false ⟨getBoth.reverse.map .ofTexts⟩) 0
  have wellFormed : ∀ cmd ∈ getBoth.reverse.map CCommand.ofTexts, cmd.WellFormed :=
    List.forall_mem_map.mpr fun texts _ => CCommand.wellFormed_ofTexts texts
  exact ⟨_, _, _, exec, failed_run_leaves_wellFormed_iff wellFormed exec
    (.unmapped ⟨_, _, _, [], [], rfl, .nil, rfl, [], rfl⟩)⟩

/-- `GET a` is mapped before `GET b` fails: the queue keeps the shell of `GET a`,
and the next run reads past its end. -/
theorem failed_run_leaves_shell :
    ∃ trace lstRpy after,
      Exec (CRunner._run 5 false ⟨getBoth.map .ofTexts⟩) trace (.ok (lstRpy, after)) ∧
      Failure 5 (getBoth.map .ofTexts) trace [.ofTexts [[0x47, 0x45, 0x54], [0x61]]] ∧
      (¬ ∀ cmd ∈ after.lstCommand, cmd.WellFormed) ∧
      ((CRunner._run 5 false after).run onlyA 0).result = .error (.undefined .outOfBounds) := by
  have exec := Program.exec_run onlyA (CRunner._run 5 false ⟨getBoth.map .ofTexts⟩) 0
  refine ⟨_, _, _, exec, ?_, ?_, rfl⟩
  · have first : 0 < 5 := by decide
    exact .unmapped ⟨_, _, _, _, _, rfl, .cons rfl first .nil, rfl, [], rfl⟩
  · intro wellFormed
    have shell := wellFormed _ List.mem_cons_self
    exact absurd shell.pointers (List.cons_ne_nil _ _)

end MCRedis.Runner
