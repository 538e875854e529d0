import MCRedis.Task.Accounting

/-!
# The replies of `getResult`

A runner keeps the id of the last task it launched, and the entry under that id
holds the future of this task until the runner takes it out.  Ids that were
given back belong to nobody, so the handler cannot reclaim the entry in between;
only `stop` can, and then the future is gone.
-/

namespace MCRedis.Task

open MCRedis.Client
open MCRedis.Container
open MCRedis.Runner
open MCRedis.Transition

/-! ## The last task of a runner -/

/-- A task that a runner launched, and whether somebody was in `join` since. -/
structure Latest where
  task : Nat
  joined : Bool

/-- What a step does to the last task of a runner: a launch replaces it,
`getResult` uses it up, and a step of `join` is remembered. -/
def trackTask (name : Nat) (latest : Option Latest) (visit : TaskVisit) : Option Latest :=
  match visit.label with
  | .construct other => if other = name then none else latest
  | .launch other => if other = name then some ⟨visit.before.tasks.length, false⟩ else latest
  | .returned other _ => if other = name then none else latest
  | .stop _ => latest.map fun latest => { latest with joined := true }
  | _ => latest

/-- The task of the most recent `run` or `runCommands` of the runner, unless
`getResult` was called on it since. -/
def lastTask (name : Nat) (visits : List TaskVisit) : Option Latest :=
  visits.foldl (trackTask name) none

theorem lastTask_append (name : Nat) (visits : List TaskVisit) (visit : TaskVisit) :
    lastTask name (visits ++ [visit]) = trackTask name (lastTask name visits) visit :=
  List.foldl_append

/-- The task has ended with the reply. -/
def TaskState.Computed (s : TaskState) (task : Nat) (rpy : CReply) : Prop :=
  ∃ record, s.tasks[task]? = some record ∧ record.result = some (.returned rpy)

/-! ## What a runner expects -/

/-- The future of the task, which `join` may have removed. -/
def Latest.Future (latest : Latest) (result : Option Nat) : Prop :=
  result = some latest.task ∨ latest.joined = true ∧ result = none

/-- What a runner expects in its position, whose last task is the given one. -/
structure RunnerState.Expects (holder : CTaskHolder Nat) (rs : RunnerState)
    (last : Option Latest) : Prop where
  current : ∀ id, rs.current = some id →
    ∃ latest, last = some latest ∧ latest.Future (holder.mapTask.find? id)
  idle : rs.pc = .idle → rs.runner.resultId = 0 → last = none
  launched : ∀ task, rs.pc = .runLaunched task → ∃ latest, last = some latest ∧ latest.task = task
  added : ∀ id, rs.pc = .runAdded id → id ≠ 0
  taken : ∀ result, rs.pc = .getTaken result ∨ rs.pc = .getReset result →
    ∃ latest, last = some latest ∧ latest.Future result

namespace RunnerState.Expects

variable {holder after : CTaskHolder Nat} {rs : RunnerState} {last : Option Latest}

/-- The entry of the current id is all a runner expects of the holder. -/
theorem frame (expects : rs.Expects holder last)
    (kept : ∀ id, rs.current = some id → after.mapTask.find? id = holder.mapTask.find? id) :
    rs.Expects after last where
  current := by
    intro id currentEq
    rw [kept id currentEq]
    exact expects.current id currentEq
  idle := expects.idle
  launched := expects.launched
  added := expects.added
  taken := expects.taken

/-- A step of `join` may empty the map. -/
theorem join (expects : rs.Expects holder last)
    (kept : ∀ id, after.mapTask.find? id = holder.mapTask.find? id ∨
      after.mapTask.find? id = none) :
    rs.Expects after (last.map fun latest => { latest with joined := true }) where
  current := by
    intro id currentEq
    obtain ⟨latest, rfl, future⟩ := expects.current id currentEq
    refine ⟨_, rfl, ?_⟩
    rcases kept id with same | gone
    · rw [same]
      exact future.imp_right fun lost => ⟨rfl, lost.2⟩
    · exact .inr ⟨rfl, gone⟩
  idle := by
    intro idle noId
    rw [expects.idle idle noId]
    rfl
  launched := by
    intro task launched
    obtain ⟨latest, rfl, taskEq⟩ := expects.launched task launched
    exact ⟨_, rfl, taskEq⟩
  added := expects.added
  taken := by
    intro result taken
    obtain ⟨latest, rfl, future⟩ := expects.taken result taken
    exact ⟨_, rfl, future.imp_right fun lost => ⟨rfl, lost.2⟩⟩

/-- A runner that is not in an operation, with the id it holds. -/
theorem of_idle {runner : CAsyncRunner} {agent : Option Nat}
    (current : ∀ id, runner.resultId = id → id ≠ 0 →
      ∃ latest, last = some latest ∧ latest.Future (holder.mapTask.find? id))
    (idle : runner.resultId = 0 → last = none) :
    RunnerState.Expects holder ⟨runner, .idle, agent⟩ last where
  current := by
    intro id currentEq
    obtain ⟨hasId, idEq⟩ := Option.ite_none_right_eq_some.mp currentEq
    cases idEq
    exact current _ rfl hasId
  idle := fun _ => idle
  launched := nofun
  added := nofun
  taken := nofun

/-- A runner without an id, in a position of which nothing else is expected. -/
theorem of_none (current : rs.current = none) (idle : rs.pc ≠ .idle)
    (launched : ∀ task, rs.pc = .runLaunched task →
      ∃ latest, last = some latest ∧ latest.task = task)
    (added : ∀ id, rs.pc ≠ .runAdded id)
    (taken : ∀ result, rs.pc = .getTaken result ∨ rs.pc = .getReset result →
      ∃ latest, last = some latest ∧ latest.Future result) : rs.Expects holder last where
  current := by
    intro id currentEq
    rw [current] at currentEq
    contradiction
  idle := fun atIdle => absurd atIdle idle
  launched := launched
  added := fun id atAdded => absurd atAdded (added id)
  taken := taken

/-- A runner that has launched its task. -/
theorem of_launched {runner : CAsyncRunner} {task : Nat} {agent : Option Nat} {latest : Latest}
    (lastEq : last = some latest) (taskEq : latest.task = task) :
    RunnerState.Expects holder ⟨runner, .runLaunched task, agent⟩ last := by
  refine of_none rfl (by simp) ?_ (by simp) (by simp)
  rintro _ ⟨⟩
  exact ⟨latest, lastEq, taskEq⟩

/-- A runner whose `getResult` has taken the future. -/
theorem of_taken {runner : CAsyncRunner} {result : Option Nat} {agent : Option Nat}
    {latest : Latest} (lastEq : last = some latest) (future : latest.Future result) :
    RunnerState.Expects holder ⟨runner, .getTaken result, agent⟩ last ∧
      RunnerState.Expects holder ⟨runner, .getReset result, agent⟩ last := by
  have taken : ∀ other, result = other → ∃ latest, last = some latest ∧ latest.Future other := by
    rintro _ rfl
    exact ⟨latest, lastEq, future⟩
  exact ⟨of_none rfl (by simp) (by simp) (by simp) (by simpa using taken),
    of_none rfl (by simp) (by simp) (by simp) (by simpa using taken)⟩

/-- A runner whose task was added under the id. -/
theorem of_added {runner : CAsyncRunner} {id : Nat} {agent : Option Nat} {latest : Latest}
    (hasId : id ≠ 0) (lastEq : last = some latest)
    (future : latest.Future (holder.mapTask.find? id)) :
    RunnerState.Expects holder ⟨runner, .runAdded id, agent⟩ last where
  current := by
    intro other currentEq
    obtain ⟨_, ownEq⟩ := Option.ite_none_right_eq_some.mp currentEq
    cases ownEq
    exact ⟨latest, lastEq, future⟩
  idle := by simp
  launched := by simp
  added := by
    rintro _ ⟨⟩
    exact hasId
  taken := by simp

/-- A runner that enters an operation, with the id it had or none. -/
theorem enter {new : RunnerState} (expects : rs.Expects holder last)
    (current : ∀ id, new.current = some id → rs.current = some id)
    (entered : new.pc = .getEntered ∨ new.pc = .destroyEntered ∨
      ∃ hasCallback, new.pc = .runEntered hasCallback ∨ new.pc = .runReturned hasCallback) :
    new.Expects holder last where
  current := fun id currentEq => expects.current id (current id currentEq)
  idle := by rcases entered with eq | eq | ⟨_, eq | eq⟩ <;> simp [eq]
  launched := by rcases entered with eq | eq | ⟨_, eq | eq⟩ <;> simp [eq]
  added := by rcases entered with eq | eq | ⟨_, eq | eq⟩ <;> simp [eq]
  taken := by rcases entered with eq | eq | ⟨_, eq | eq⟩ <;> simp [eq]

end RunnerState.Expects

/-! ## Steps -/

/-- An id is the current one of one runner only. -/
theorem HolderInv.holds_unique {s : TaskState} (inv : HolderInv s) {first second id : Nat}
    (firstHolds : s.Holds first id) (secondHolds : s.Holds second id) : first = second := by
  obtain ⟨firstState, firstFound, firstEq⟩ := firstHolds
  obtain ⟨secondState, secondFound, secondEq⟩ := secondHolds
  have once := Nat.le_of_add_right_le (inv.ledger.atMostOnce id)
  exact OrderedMap.key_unique_of_count_collect _ once firstFound
    (Option.mem_toList.mpr firstEq) secondFound (Option.mem_toList.mpr secondEq)

/-- Every runner gets what it expects. -/
def ResultsInv (s : TaskState) (last : Nat → Option Latest) : Prop :=
  ∀ name rs, s.runners.find? name = some rs → rs.Expects s.holder (last name)

namespace ResultsInv

variable {s t : TaskState} {last after : Nat → Option Latest} {name : Nat} {rs : RunnerState}

/-- A step of one runner that leaves the entries of the other ones alone. -/
theorem insert (inv : ResultsInv s last) (runnersEq : t.runners = s.runners.insert name rs)
    (new : rs.Expects t.holder (after name))
    (same : ∀ other, other ≠ name → after other = last other)
    (kept : ∀ other id, other ≠ name → s.Holds other id →
      t.holder.mapTask.find? id = s.holder.mapTask.find? id) : ResultsInv t after := by
  rw [ResultsInv, runnersEq]
  refine OrderedMap.forall_find?_insert new ?_
  intro other state differ found
  rw [same other differ]
  exact (inv other state found).frame fun id currentEq =>
    kept other id differ ⟨state, found, currentEq⟩

/-- A step that leaves all entries alone. -/
theorem move (inv : ResultsInv s last) (runnersEq : t.runners = s.runners.insert name rs)
    (mapEq : t.holder.mapTask = s.holder.mapTask) (new : rs.Expects t.holder (last name)) :
    ResultsInv t last :=
  inv.insert runnersEq new (fun _ _ => rfl) fun _ _ _ _ => by rw [mapEq]

theorem erase (inv : ResultsInv s last) (runnersEq : t.runners = s.runners.erase name)
    (mapEq : t.holder.mapTask = s.holder.mapTask) : ResultsInv t last := by
  rw [ResultsInv, runnersEq]
  refine OrderedMap.forall_find?_erase ?_
  intro other state _ found
  exact (inv other state found).frame fun id _ => by rw [mapEq]

theorem holder (inv : ResultsInv s last) (runnersEq : t.runners = s.runners)
    (kept : ∀ other id, s.Holds other id →
      t.holder.mapTask.find? id = s.holder.mapTask.find? id) : ResultsInv t last := by
  intro other state found
  rw [runnersEq] at found
  exact (inv other state found).frame fun id currentEq => kept other id ⟨state, found, currentEq⟩

/-- The handler erases only what was given back. -/
theorem handler (inv : ResultsInv s last) (accounts : HolderInv s) (step : HandlerStep s t) :
    ResultsInv t last := by
  cases step with
  | @erase id rest erasing _ =>
      refine inv.holder rfl ?_
      intro other held holds
      have returned := (accounts.erasing _ erasing).2.1 id List.mem_cons_self
      have differ : held ≠ id := by
        rintro rfl
        exact accounts.ledger.not_held returned (TaskState.mem_idsOf holds)
      change (s.holder.mapTask.erase id).find? held = _
      rw [OrderedMap.find?_erase, if_neg differ]
  | _ => exact inv.holder rfl fun _ _ _ => rfl

theorem stop {caller : Nat} (inv : ResultsInv s last) (step : StopStep caller s t) :
    ResultsInv t fun other => (last other).map fun latest => { latest with joined := true } := by
  have runnersEq : t.runners = s.runners := by cases step <;> rfl
  intro other state found
  rw [runnersEq] at found
  apply (inv other state found).join
  intro id
  cases step with
  | clear joining => exact .inr rfl
  | _ => exact .inl rfl

/-- The task a runner launched is added under an id that no other runner has. -/
theorem addTask {task : Nat} {agent : Option Nat} {runner : CAsyncRunner}
    (inv : ResultsInv s last) (accounts : HolderInv s)
    (few : s.issued.length + 1 < uint64Size)
    (found : s.runners.find? name = some ⟨runner, .runLaunched task, agent⟩) :
    ResultsInv
      ({ s with
          holder := (s.holder.addTask task).2
          issued := (s.holder.addTask task).1 :: s.issued }.setRunner name
        ⟨runner, .runAdded (s.holder.addTask task).1, agent⟩) last := by
  obtain ⟨latest, lastEq, taskEq⟩ := (inv name _ found).launched task rfl
  rw [accounts.addTask_eq few]
  refine inv.insert rfl (.of_added (Nat.succ_ne_zero _) lastEq (.inl ?_)) (fun _ _ => rfl) ?_
  · rw [taskEq]
    exact OrderedMap.find?_insert_self _ _ _
  · intro other id _ holds
    have old := (accounts.bounded id (.inl (TaskState.mem_idsOf holds))).2
    exact OrderedMap.find?_insert_of_ne _ _ (Nat.lt_succ_of_le old).ne

/-- A runner takes the future under its own id, which no other runner has. -/
theorem take {agent : Option Nat} {runner : CAsyncRunner} (inv : ResultsInv s last)
    (accounts : HolderInv s) (hasId : runner.resultId ≠ 0)
    (found : s.runners.find? name = some ⟨runner, .getEntered, agent⟩) :
    ResultsInv
      ({ s with holder := (s.holder.getResult runner.resultId).2 }.setRunner name
        ⟨runner, .getTaken (s.holder.getResult runner.resultId).1, agent⟩) last := by
  have holds : s.Holds name runner.resultId := ⟨_, found, if_pos hasId⟩
  obtain ⟨latest, lastEq, future⟩ := (inv name _ found).current _ (if_pos hasId)
  rw [← CTaskHolder.getResult_fst] at future
  refine inv.insert rfl (RunnerState.Expects.of_taken lastEq future).1 (fun _ _ => rfl) ?_
  intro other id differ otherHolds
  have idNe : id ≠ runner.resultId := by
    rintro rfl
    exact differ (accounts.holds_unique otherHolds holds)
  change (s.holder.getResult _).2.mapTask.find? _ = _
  rw [CTaskHolder.find?_getResult, if_neg idNe]

/-- The steps of a runner: it follows its own task through its operations, and
leaves the entries of the others alone. -/
theorem runner {action : TaskAction} (inv : ResultsInv s last) (accounts : AccountInv s)
    (few : t.issued.length < uint64Size) (step : RunnerStep s action t) :
    ResultsInv t fun other => trackTask other (last other) ⟨s, action, t⟩ := by
  cases step with
  | @construct name absent =>
      refine inv.insert rfl ?_ (fun other differ => if_neg differ.symm) fun _ _ _ _ => rfl
      exact .of_idle (fun id idEq hasId => absurd idEq.symm hasId) fun _ => if_pos rfl
  | @append name cmd runner found =>
      have expects := inv name _ found
      refine inv.move rfl rfl (.of_idle ?_ (expects.idle rfl))
      rintro _ rfl hasId
      exact expects.current _ (if_pos hasId)
  | @run name agent cmd hasCallback runner found _ =>
      refine inv.move rfl rfl ((inv name _ found).enter ?_ ?_)
      · rw [current_run]
        exact fun _ currentEq => currentEq
      · right; right
        refine ⟨hasCallback, ?_⟩
        rw [runEntry]
        split
        · exact .inl rfl
        · exact .inr rfl
  | @returnId name agent hasCallback runner found _ =>
      have expects : RunnerState.Expects (s.holder.returnId runner.resultId) _ _ :=
        (inv name _ found).frame fun _ _ => rfl
      refine inv.move rfl rfl (expects.enter ?_ (.inr (.inr ⟨hasCallback, .inr rfl⟩)))
      exact fun _ currentEq => absurd currentEq (Option.some_ne_none _).symm
  | @launch name agent hasCallback runner found =>
      refine inv.insert rfl ?_ (fun other differ => if_neg differ.symm) fun _ _ _ _ => rfl
      exact .of_launched (if_pos rfl) rfl
  | addTask found _ _ => exact inv.addTask accounts.holder few found
  | addTaskInUse _ _ used => cases (accounts.holder.unused few).symm.trans used
  | @dropTask name _ _ _ found _ _ => exact (accounts.runners name _ found).elim
  | @assign name id agent runner found =>
      have expects := inv name _ found
      have hasId := expects.added id rfl
      refine inv.move rfl rfl (.of_idle ?_ fun noId => absurd noId hasId)
      rintro _ rfl _
      exact expects.current _ (if_pos hasId)
  | @getNothing name runner found noId =>
      have unused := (inv name _ found).idle rfl noId
      intro other state otherFound
      change RunnerState.Expects s.holder state (if name = other then none else last other)
      split
      · rename_i equal
        cases equal
        exact unused ▸ inv name state otherFound
      · exact inv other state otherFound
  | @getResult name agent runner found _ _ =>
      exact inv.move rfl rfl ((inv name _ found).enter (fun _ currentEq => currentEq) (.inl rfl))
  | take found _ => exact inv.take accounts.holder (accounts.runners _ _ found) found
  | @reset name agent runner result found =>
      obtain ⟨latest, lastEq, future⟩ := (inv name _ found).taken _ (.inl rfl)
      exact inv.move rfl rfl (RunnerState.Expects.of_taken lastEq future).2
  | @getInvalid name agent runner found =>
      have noId : runner.resultId = 0 := accounts.runners name _ found
      refine inv.insert rfl (.of_idle ?_ fun _ => if_pos rfl)
        (fun other differ => if_neg differ.symm) fun _ _ _ _ => rfl
      exact fun id idEq hasId => absurd (idEq.symm.trans noId) hasId
  | @getReply name task agent runner record rpy found _ _ =>
      have noId : runner.resultId = 0 := accounts.runners name _ found
      refine inv.insert rfl (.of_idle ?_ fun _ => if_pos rfl)
        (fun other differ => if_neg differ.symm) fun _ _ _ _ => rfl
      exact fun id idEq hasId => absurd (idEq.symm.trans noId) hasId
  | destroyNothing found _ => exact inv.erase rfl rfl
  | @destroy name agent runner found _ _ =>
      exact inv.move rfl rfl
        ((inv name _ found).enter (fun _ currentEq => currentEq) (.inr (.inl rfl)))
  | destroyReturnId found _ => exact inv.erase rfl rfl

end ResultsInv

/-! ## Runs -/

theorem AccountInv.results {TRetryCount : Nat} {s t : TaskState} {action : TaskAction}
    {last : Nat → Option Latest} (accounts : AccountInv s) (inv : ResultsInv s last)
    (few : t.issued.length < uint64Size) (step : TaskStep TRetryCount s action t) :
    ResultsInv t fun other => trackTask other (last other) ⟨s, action, t⟩ := by
  cases step with
  | runner step => exact inv.runner accounts few step
  | handler step => exact inv.handler accounts.holder step
  | stop step => exact inv.stop step
  | finish _ _ _ _ => exact inv.holder rfl fun _ _ _ => rfl

/-- What holds of the runners after a history of steps. -/
structure History (earlier : List TaskVisit) (s : TaskState) : Prop where
  accounts : AccountInv s
  results : ResultsInv s fun name => lastTask name earlier

theorem History.run {TRetryCount : Nat} {earlier : List TaskVisit} {s : TaskState}
    (run : Run (TaskStep TRetryCount) .init earlier s) (few : s.issued.length < uint64Size) :
    History earlier s := by
  have grows := run.le_last (fun s => s.issued.length) fun visit mem =>
    issued_length_le (run.step_of_mem visit mem)
  refine run.history History ⟨AccountInv.init, nofun⟩ ?_
  rintro before visit later rfl step history
  have fewer := (grows visit (by simp)).trans_lt few
  refine ⟨history.accounts.step fewer step, ?_⟩
  have lastEq : (fun name => lastTask name (before ++ [visit])) =
      fun name => trackTask name (lastTask name before) visit :=
    funext fun name => lastTask_append name before visit
  rw [lastEq]
  exact history.accounts.results history.results fewer step

/-- In any interleaving in which fewer tasks were added than there are ids, a
call of `getResult` returns the reply that the last task of its runner has
computed, or the default reply when somebody was in `join` since; without such a
task it returns the default reply. -/
theorem getResult_lastTask {TRetryCount : Nat} {earlier : List TaskVisit} {s t : TaskState}
    {name : Nat} {rpy : CReply} (run : Run (TaskStep TRetryCount) .init earlier s)
    (few : s.issued.length < uint64Size)
    (step : TaskStep TRetryCount s (.returned name rpy) t) :
    (∀ latest, lastTask name earlier = some latest →
      s.Computed latest.task rpy ∨ latest.joined = true ∧ rpy = .empty) ∧
    (lastTask name earlier = none → rpy = .empty) := by
  have results : ∀ name rs, s.runners.find? name = some rs →
      rs.Expects s.holder (lastTask name earlier) := (History.run run few).results
  cases step with
  | runner step =>
      cases step with
      | getNothing found noId =>
          have unused := (results name _ found).idle rfl noId
          refine ⟨?_, fun _ => rfl⟩
          rw [unused]
          nofun
      | getInvalid found =>
          obtain ⟨latest, lastEq, future⟩ := (results name _ found).taken none (.inr rfl)
          refine ⟨?_, fun _ => rfl⟩
          rw [lastEq]
          rintro _ ⟨⟩
          rcases future with some | lost
          · contradiction
          · exact .inr ⟨lost.1, rfl⟩
      | @getReply _ task _ _ record _ found recordFound computed =>
          obtain ⟨latest, lastEq, future⟩ := (results name _ found).taken (some task) (.inr rfl)
          rw [lastEq]
          refine ⟨?_, nofun⟩
          rintro _ ⟨⟩
          rcases future with taskEq | lost
          · cases taskEq
            exact .inl ⟨record, recordFound, computed⟩
          · exact absurd lost.2 (Option.some_ne_none task)

/-- A runner runs a command, and `getResult` returns what its task computed. -/
theorem getResult_lastTask_increment : ∃ earlier s t rpy,
    Run (TaskStep 1) .init earlier s ∧ TaskStep 1 s (.returned 0 rpy) t ∧
      lastTask 0 earlier = some ⟨0, false⟩ ∧ s.Computed 0 rpy := by
  obtain ⟨trace, exec⟩ := exec_increment
  have launched : Run (TaskStep 1) .init _ _ :=
    .cons (.runner (@RunnerStep.construct .init 0 rfl))
      (.cons (.runner (@RunnerStep.run _ 0 none (some increment) false .create rfl nofun))
        (.cons (.runner (@RunnerStep.launch _ 0 none false ⟨[increment], 0⟩ rfl))
          (.cons (.runner (@RunnerStep.addTask _ 0 0 none ⟨[], 0⟩ rfl rfl rfl))
            (.single (.runner (@RunnerStep.assign _ 0 1 none ⟨[], 0⟩ rfl))))))
  have taken : Run (TaskStep 1) _ _ _ :=
    launched.append
      (.cons (@TaskStep.finish 1 _ 0 ⟨false, [increment], none⟩ incrementResult trace rfl rfl
          (TaskState.not_engaged_of_entries (by decide)) exec)
        (.cons (.runner (@RunnerStep.getResult _ 0 none ⟨[], 1⟩ rfl (by decide) nofun))
          (.cons (.runner (@RunnerStep.take _ 0 none ⟨[], 1⟩ rfl rfl))
            (.single (.runner (@RunnerStep.reset _ 0 none ⟨[], 1⟩ (some 0) rfl))))))
  have returned : ∃ earlier s t rpy, Run (TaskStep 1) .init earlier s ∧
      s.issued.length < uint64Size ∧ lastTask 0 earlier = some ⟨0, false⟩ ∧
        TaskStep 1 s (.returned 0 rpy) t :=
    ⟨_, _, _, _, taken, by decide, rfl,
      .runner (@RunnerStep.getReply _ 0 0 none ⟨[], 0⟩ ⟨false, [increment], some incrementResult⟩
        (.mk .INTEGER [] 1 []) rfl rfl rfl)⟩
  obtain ⟨earlier, s, t, rpy, run, few, lastEq, step⟩ := returned
  have result := (getResult_lastTask run few step).1 _ lastEq
  exact ⟨earlier, s, t, rpy, run, step, lastEq,
    result.resolve_right fun lost => Bool.false_ne_true lost.1⟩

end MCRedis.Task
