import MCRedis.Task.Joining

/-!
# Waiting under the mutex

The handler erases the entries of returned ids, `stop` waits for the futures in
the map, and `addTask` destroys the future of a task whose id is in use, while
they hold the mutex; all of this lasts until the task has ended.  A task whose
callback uses a runner needs the same mutex.  `getResult` moves the future out of
the map and waits for it after it has released the mutex.
-/

namespace MCRedis.Task

open MCRedis.Client
open MCRedis.Container
open MCRedis.Runner
open MCRedis.Transition

/-! ## Deadlocks -/

/-- The next step of a runner in this position locks the mutex. -/
def RunnerPc.Locks : RunnerPc → Prop
  | .runEntered _ | .runLaunched _ | .getEntered | .destroyEntered => True
  | _ => False

/-- The operation of a runner in this position has still to lock the mutex. -/
def RunnerPc.WillLock : RunnerPc → Prop
  | .runEntered _ | .runReturned _ | .runLaunched _ | .getEntered | .destroyEntered => True
  | _ => False

theorem RunnerPc.Locks.willLock {pc : RunnerPc} (locks : pc.Locks) : pc.WillLock := by
  cases pc <;> first | exact trivial | contradiction

namespace TaskState

/-- The owner of the mutex waits for the task. -/
def OwnerAwaits (s : TaskState) (task : Nat) : Prop :=
  ¬ s.Finished task ∧
    ((s.mutex = some .handler ∧ ∃ id rest, s.handler = .erasing (id :: rest) ∧
        s.holder.mapTask.find? id = some task) ∨
      (∃ caller rest, s.mutex = some (.stop caller) ∧
        s.stops.find? caller = some (.joining (task :: rest))) ∨
      ∃ name, s.mutex = some (.runner name task))

/-- The task waits for the mutex, in an operation that its callback performs. -/
def AwaitsMutex (s : TaskState) (task : Nat) : Prop :=
  s.mutex ≠ none ∧
    ∃ name rs, s.runners.find? name = some rs ∧ rs.agent = some task ∧ rs.pc.Locks

/-- The owner of the mutex waits for a task that waits for the mutex. -/
def Deadlocked (s : TaskState) : Prop :=
  ∃ task, s.OwnerAwaits task ∧ s.AwaitsMutex task

/-- The task has to end before the handler, a call of `stop` or a call of `addTask`
can release the mutex again. -/
def Leaving (s : TaskState) (task : Nat) : Prop :=
  (s.handler ≠ .ended ∧ ∃ id ∈ s.holder.lstReturnedId, s.holder.mapTask.find? id = some task) ∨
    (∃ caller rest, s.stops.find? caller = some (.joining rest) ∧ task ∈ rest) ∨
    ∃ name, s.mutex = some (.runner name task)

/-- The task performs an operation that has still to lock the mutex. -/
def Entering (s : TaskState) (task : Nat) : Prop :=
  ∃ name rs, s.runners.find? name = some rs ∧ rs.agent = some task ∧ rs.pc.WillLock

theorem not_leaving {s : TaskState} {task : Nat} (returned : s.holder.lstReturnedId = [])
    (stops : s.stops = .empty) (free : s.mutex = none) : ¬ s.Leaving task := by
  rintro (⟨_, id, mem, _⟩ | ⟨caller, rest, joining, _⟩ | ⟨name, held⟩)
  · rw [returned] at mem
    contradiction
  · rw [stops] at joining
    contradiction
  · rw [free] at held
    contradiction

end TaskState

/-! ## Keeping apart -/

/-- The step keeps the tasks that somebody waits for under the mutex apart from
those that have to lock it: a task that is waited for begins no operation; an id
is returned, and `stop` locks the mutex, only while no task that is waited for
from then on has to lock it in its callback, except that a task may destroy its
own runner; and no such task is added under an id that was returned or is in
use. -/
def KeepsApart (s : TaskState) : TaskAction → Prop
  | .run _ agent _ _ => ∀ task, agent = some task → ¬ s.Leaving task
  | .getResult _ agent => ∀ task, agent = some task → ¬ s.Leaving task
  | .destroy name agent => ∀ rs task, s.runners.find? name = some rs → rs.runner.resultId ≠ 0 →
      agent = some task → ¬ s.Leaving task
  | .returnId name => s.handler ≠ .ended → ∀ rs task, s.runners.find? name = some rs →
      s.holder.mapTask.find? rs.runner.resultId = some task →
        ∀ other state, s.runners.find? other = some state → state.agent = some task →
          state.pc.WillLock → other = name ∧ state.pc = .destroyEntered
  | .addTask name => ∀ rs task, s.runners.find? name = some rs → rs.pc = .runLaunched task →
      ((s.holder.mapTask.find? ((s.holder.lastId + 1) % uint64Size)).isSome ∨
        s.handler ≠ .ended ∧ (s.holder.lastId + 1) % uint64Size ∈ s.holder.lstReturnedId) →
          ¬ s.Entering task
  | .stop caller => s.stops.find? caller = some .locking →
      ∀ id task, s.holder.mapTask.find? id = some task → ¬ s.Entering task
  | _ => True

/-- What is kept by the steps that keep apart. -/
structure ApartInv (s : TaskState) : Prop where
  apart : ∀ task, s.Leaving task → ¬ s.Entering task
  erasing : ∀ rest, s.handler = .erasing rest → ∀ id ∈ rest, id ∈ s.holder.lstReturnedId

namespace ApartInv

variable {s t : TaskState}

theorem init : ApartInv .init :=
  ⟨by rintro task _ ⟨name, rs, found, _⟩; contradiction, nofun⟩

/-- No deadlock is reached. -/
theorem not_deadlocked (inv : ApartInv s) : ¬ s.Deadlocked := by
  rintro ⟨task, ⟨_, owner⟩, _, name, rs, found, agentEq, locks⟩
  have entering : s.Entering task := ⟨name, rs, found, agentEq, locks.willLock⟩
  rcases owner with ⟨_, id, rest, erasing, stored⟩ | ⟨caller, rest, _, joining⟩ | held
  · have returned := inv.erasing _ erasing id List.mem_cons_self
    exact inv.apart task (.inl ⟨by simp [erasing], id, returned, stored⟩) entering
  · exact inv.apart task (.inr (.inl ⟨caller, _, joining, List.mem_cons_self⟩)) entering
  · exact inv.apart task (.inr (.inr held)) entering

/-- A step that leaves the handler alone. -/
theorem keep (inv : ApartInv s) (handler : t.handler = s.handler)
    (returned : ∀ id ∈ s.holder.lstReturnedId, id ∈ t.holder.lstReturnedId)
    (apart : ∀ task, t.Leaving task → ¬ t.Entering task) : ApartInv t := by
  refine ⟨apart, ?_⟩
  intro rest erasing id mem
  rw [handler] at erasing
  exact returned id (inv.erasing rest erasing id mem)

end ApartInv

/-! ### What a step of a runner changes -/

section Entering

variable {s t : TaskState} {name task : Nat} {rs old : RunnerState}

/-- After the step of a runner, a task that has to lock the mutex is in the
operation of this runner, or of another one as before. -/
theorem TaskState.Entering.of_insert (entering : t.Entering task)
    (runnersEq : t.runners = s.runners.insert name rs) :
    rs.agent = some task ∧ rs.pc.WillLock ∨
      ∃ other state, other ≠ name ∧ s.runners.find? other = some state ∧
        state.agent = some task ∧ state.pc.WillLock := by
  obtain ⟨other, state, found, agentEq, willLock⟩ := entering
  rw [runnersEq, OrderedMap.find?_insert] at found
  split at found
  · cases found
    exact .inl ⟨agentEq, willLock⟩
  · rename_i differ
    exact .inr ⟨other, state, differ, found, agentEq, willLock⟩

theorem TaskState.Entering.of_erase (entering : t.Entering task)
    (runnersEq : t.runners = s.runners.erase name) :
    ∃ other state, other ≠ name ∧ s.runners.find? other = some state ∧
      state.agent = some task ∧ state.pc.WillLock := by
  obtain ⟨other, state, found, agentEq, willLock⟩ := entering
  rw [runnersEq, OrderedMap.find?_erase] at found
  split at found
  · contradiction
  · rename_i differ
    exact ⟨other, state, differ, found, agentEq, willLock⟩

/-- A runner that goes on in its operation is no new one to lock the mutex. -/
theorem TaskState.Entering.of_goOn (entering : t.Entering task)
    (runnersEq : t.runners = s.runners.insert name rs) (found : s.runners.find? name = some old)
    (agent : rs.pc.WillLock → rs.agent = old.agent ∧ old.pc.WillLock) : s.Entering task := by
  rcases entering.of_insert runnersEq with ⟨agentEq, willLock⟩ | ⟨other, state, _, others⟩
  · obtain ⟨sameAgent, before⟩ := agent willLock
    exact ⟨name, old, found, sameAgent.symm.trans agentEq, before⟩
  · exact ⟨other, state, others⟩

end Entering

section Leaving

variable {s t : TaskState} {task : Nat}

/-- With fewer entries and returned ids, nobody new is waited for. -/
theorem TaskState.Leaving.mono (leaving : t.Leaving task) (stops : t.stops = s.stops)
    (owner : ∀ name, t.mutex = some (.runner name task) → s.mutex = some (.runner name task))
    (handler : s.handler = .ended → t.handler = .ended)
    (returned : ∀ id ∈ t.holder.lstReturnedId, id ∈ s.holder.lstReturnedId)
    (stored : ∀ id, t.holder.mapTask.find? id = some task →
      s.holder.mapTask.find? id = some task) : s.Leaving task := by
  rcases leaving with ⟨running, id, mem, found⟩ | joining | ⟨name, held⟩
  · exact .inl ⟨running ∘ handler, id, returned id mem, stored id found⟩
  · rw [stops] at joining
    exact .inr (.inl joining)
  · exact .inr (.inr ⟨name, owner name held⟩)

end Leaving

namespace ApartInv

variable {s t : TaskState}

/-- A runner begins an operation, or ends one, and nobody new is waited for. -/
theorem begin {name : Nat} {rs : RunnerState} (inv : ApartInv s)
    (free : ∀ task, rs.agent = some task → ¬ s.Leaving task) : ApartInv (s.setRunner name rs) := by
  refine inv.keep rfl (fun _ mem => mem) ?_
  intro task leaving entering
  have before : s.Leaving task := leaving
  rcases entering.of_insert rfl with ⟨agentEq, _⟩ | ⟨other, state, _, others⟩
  · exact free task agentEq before
  · exact inv.apart task before ⟨other, state, others⟩

/-- A runner goes on in its operation, and nobody new is waited for. -/
theorem goOn {name : Nat} {rs old : RunnerState} (inv : ApartInv s)
    (handler : t.handler = s.handler)
    (returned : t.holder.lstReturnedId = s.holder.lstReturnedId)
    (runnersEq : t.runners = s.runners.insert name rs) (found : s.runners.find? name = some old)
    (agent : rs.pc.WillLock → rs.agent = old.agent ∧ old.pc.WillLock)
    (leaving : ∀ task, t.Leaving task → s.Entering task → s.Leaving task) : ApartInv t := by
  refine inv.keep handler (fun _ mem => returned ▸ mem) ?_
  intro task leaves entering
  have before := entering.of_goOn runnersEq found agent
  exact inv.apart task (leaving task leaves before) before

/-- The id that a runner returns is that of a task which has not to lock the
mutex. -/
theorem returnId {id : Nat} (inv : ApartInv s) (runners : OrderedMap Nat RunnerState)
    (entering : ∀ task,
      { s with holder := s.holder.returnId id, runners := runners : TaskState }.Entering task →
        s.Entering task ∧ (s.handler ≠ .ended → s.holder.mapTask.find? id ≠ some task)) :
    ApartInv { s with holder := s.holder.returnId id, runners := runners } := by
  refine inv.keep rfl (fun _ mem => List.mem_append_left _ mem) ?_
  intro task leaving enters
  obtain ⟨before, otherTask⟩ := entering task enters
  rcases leaving with ⟨running, other, mem, stored⟩ | joining
  · rcases List.mem_append.mp mem with old | new
    · exact inv.apart task (.inl ⟨running, other, old, stored⟩) before
    · cases List.mem_singleton.mp new
      exact otherTask running stored
  · exact inv.apart task (.inr joining) before

theorem runner {action : TaskAction} (inv : ApartInv s) (step : RunnerStep s action t)
    (keepsApart : KeepsApart s action) : ApartInv t := by
  cases step with
  | construct absent => exact inv.begin fun _ => nofun
  | append found => exact inv.begin fun _ => nofun
  | run found _ => exact inv.begin keepsApart
  | @returnId name agent hasCallback runner found free =>
      refine inv.returnId (s.runners.insert name _) ?_
      intro task enters
      have before := enters.of_goOn rfl found fun _ => ⟨rfl, trivial⟩
      refine ⟨before, ?_⟩
      intro running stored
      obtain ⟨other, state, otherFound, agentEq, willLock⟩ := before
      obtain ⟨rfl, destroyed⟩ :=
        keepsApart running _ task found stored other state otherFound agentEq willLock
      cases found.symm.trans otherFound
      contradiction
  | launch found =>
      exact inv.goOn rfl rfl rfl found (fun _ => ⟨rfl, trivial⟩) fun _ leaving _ => leaving
  | @addTask name added agent runner found free unused =>
      refine inv.goOn rfl (CTaskHolder.lstReturnedId_addTask _ _) rfl found nofun ?_
      intro task leaving before
      rcases leaving with ⟨running, id, mem, stored⟩ | joining
      · rw [TaskState.setRunner, CTaskHolder.lstReturnedId_addTask] at mem
        change (s.holder.addTask added).2.mapTask.find? id = some task at stored
        rcases s.holder.find?_addTask added id with same | ⟨rfl, _, new⟩
        · exact .inl ⟨running, id, mem, same ▸ stored⟩
        · cases new.symm.trans stored
          exact absurd before (keepsApart _ _ found rfl (.inr ⟨running, mem⟩))
      · exact .inr joining
  | @addTaskInUse name added other agent runner found free used =>
      refine inv.goOn rfl (CTaskHolder.lstReturnedId_addTask _ _) rfl found nofun ?_
      intro task leaving before
      rcases leaving with ⟨running, id, mem, stored⟩ | joining | ⟨owner, held⟩
      · rw [TaskState.setRunner, CTaskHolder.lstReturnedId_addTask] at mem
        change (s.holder.addTask added).2.mapTask.find? id = some task at stored
        rw [CTaskHolder.addTask_of_used used] at stored
        exact .inl ⟨running, id, mem, stored⟩
      · exact .inr (.inl joining)
      · cases held
        have inUse := Option.isSome_of_eq_some used
        exact absurd before (keepsApart _ _ found rfl (.inl inUse))
  | dropTask found held _ =>
      refine inv.goOn rfl rfl rfl found nofun ?_
      intro task leaving _
      exact leaving.mono rfl (fun _ => nofun) (fun ended => ended) (fun _ mem => mem)
        fun _ stored => stored
  | assign found => exact inv.begin fun _ => nofun
  | getNothing found _ => exact inv
  | getResult found _ _ => exact inv.begin keepsApart
  | @take name agent runner found free =>
      refine inv.goOn rfl (CTaskHolder.lstReturnedId_getResult _ _) rfl found nofun ?_
      intro task leaving _
      rcases leaving with ⟨running, id, mem, stored⟩ | joining
      · rw [TaskState.setRunner, CTaskHolder.lstReturnedId_getResult] at mem
        change (s.holder.getResult _).2.mapTask.find? id = some task at stored
        rw [CTaskHolder.find?_getResult] at stored
        split at stored
        · contradiction
        · exact .inl ⟨running, id, mem, stored⟩
      · exact .inr joining
  | reset found => exact inv.goOn rfl rfl rfl found nofun fun _ leaving _ => leaving
  | getInvalid found => exact inv.begin fun _ => nofun
  | getReply found _ _ => exact inv.begin fun _ => nofun
  | @destroyNothing name _ _ found _ =>
      refine inv.keep rfl (fun _ mem => mem) ?_
      intro task leaving enters
      obtain ⟨other, state, _, others⟩ := enters.of_erase rfl
      exact inv.apart task leaving ⟨other, state, others⟩
  | destroy found hasId _ => exact inv.begin fun task => keepsApart _ task found hasId
  | @destroyReturnId name agent runner found free =>
      refine inv.returnId (s.runners.erase name) ?_
      intro task enters
      obtain ⟨other, state, differ, otherFound, agentEq, willLock⟩ := enters.of_erase rfl
      refine ⟨⟨other, state, otherFound, agentEq, willLock⟩, ?_⟩
      intro running stored
      exact differ
        (keepsApart running _ task found stored other state otherFound agentEq willLock).1

/-- The handler only ever waits for fewer tasks. -/
theorem handler (inv : ApartInv s) (step : HandlerStep s t) : ApartInv t := by
  have fewer : ∀ task, t.Leaving task → s.Leaving task := by
    intro task leaving
    refine leaving.mono ?_ ?_ (fun ended => absurd ended step.running) ?_ ?_
    · cases step <;> rfl
    · intro name held
      cases step with
      | lock | clear => cases held
      | _ => exact held
    · intro id mem
      cases step with
      | clear erasing => contradiction
      | _ => exact mem
    · intro id stored
      cases step with
      | @erase erased rest _ _ =>
          change (s.holder.mapTask.erase erased).find? id = some task at stored
          rw [OrderedMap.find?_erase] at stored
          split at stored
          · contradiction
          · exact stored
      | _ => exact stored
  refine ⟨?_, ?_⟩
  · intro task leaving entering
    have runners : t.runners = s.runners := by cases step <;> rfl
    rw [TaskState.Entering, runners] at entering
    exact inv.apart task (fewer task leaving) entering
  · cases step with
    | loop looping =>
        intro rest erasing
        dsimp only at erasing
        split at erasing <;> contradiction
    | test testing =>
        intro rest erasing
        dsimp only at erasing
        split at erasing <;> contradiction
    | lock locking free =>
        rintro _ ⟨⟩ id mem
        exact mem
    | erase erasing _ =>
        rintro _ ⟨⟩ id mem
        exact inv.erasing _ erasing id (List.mem_cons_of_mem _ mem)
    | clear erasing => nofun

/-- Whom a call of `stop` waits for it has waited for before, unless it has just
locked the mutex. -/
theorem joining_of_stop {caller other task : Nat} {rest : List Nat} (step : StopStep caller s t)
    (joining : t.stops.find? other = some (.joining rest)) (mem : task ∈ rest) :
    (∃ before, s.stops.find? other = some (.joining before) ∧ task ∈ before) ∨
      s.stops.find? caller = some .locking ∧ ∃ id, s.holder.mapTask.find? id = some task := by
  cases step with
  | lock locking free =>
      rw [OrderedMap.find?_insert] at joining
      split at joining
      · cases joining
        obtain ⟨⟨id, _⟩, entry, rfl⟩ := List.mem_map.mp mem
        exact .inr ⟨locking, id, OrderedMap.find?_eq_some_iff.mpr entry⟩
      · exact .inl ⟨rest, joining, mem⟩
  | @join first _ before finished =>
      rw [OrderedMap.find?_insert] at joining
      split at joining
      · rename_i equal
        cases joining
        exact .inl ⟨_, equal ▸ before, List.mem_cons_of_mem first mem⟩
      · exact .inl ⟨rest, joining, mem⟩
  | clear cleared =>
      rw [OrderedMap.find?_erase] at joining
      split at joining
      · contradiction
      · exact .inl ⟨rest, joining, mem⟩
  | _ =>
      rw [OrderedMap.find?_insert] at joining
      split at joining
      · cases joining
      · exact .inl ⟨rest, joining, mem⟩

/-- A call of `stop` that takes a step waits for nobody new, unless it locks the
mutex. -/
theorem stop {caller : Nat} (inv : ApartInv s) (step : StopStep caller s t)
    (keepsApart : KeepsApart s (.stop caller)) : ApartInv t := by
  have handler : t.handler = s.handler := by cases step <;> rfl
  have returned : t.holder.lstReturnedId = s.holder.lstReturnedId := by cases step <;> rfl
  have runners : t.runners = s.runners := by cases step <;> rfl
  refine inv.keep handler (fun _ mem => returned ▸ mem) ?_
  intro task leaving entering
  rw [TaskState.Entering, runners] at entering
  rcases leaving with ⟨running, id, mem, stored⟩ | ⟨other, rest, joining, mem⟩ | ⟨name, held⟩
  · rw [handler] at running
    rw [returned] at mem
    cases step with
    | clear _ => contradiction
    | _ => exact inv.apart task (.inl ⟨running, id, mem, stored⟩) entering
  · rcases joining_of_stop step joining mem with ⟨before, old⟩ | ⟨locking, id, stored⟩
    · exact inv.apart task (.inr (.inl ⟨other, before, old⟩)) entering
    · exact keepsApart locking id task stored entering
  · cases step with
    | lock | clear => cases held
    | _ => exact inv.apart task (.inr (.inr ⟨name, held⟩)) entering

theorem step {TRetryCount : Nat} {action : TaskAction} (inv : ApartInv s)
    (step : TaskStep TRetryCount s action t) (keepsApart : KeepsApart s action) : ApartInv t := by
  cases step with
  | runner step => exact inv.runner step keepsApart
  | handler step => exact inv.handler step
  | stop step => exact inv.stop step keepsApart
  | finish _ _ _ _ => exact ⟨inv.apart, inv.erasing⟩

end ApartInv

/-- In every interleaving whose steps keep apart, nobody who holds the mutex ever
waits for a task that waits for the mutex. -/
theorem not_deadlocked_of_keepsApart {TRetryCount : Nat} {visits : List TaskVisit}
    {last : TaskState} (run : Run (TaskStep TRetryCount) .init visits last)
    (apart : ∀ visit ∈ visits, KeepsApart visit.before visit.label) :
    ¬ last.Deadlocked ∧ ∀ visit ∈ visits, ¬ visit.before.Deadlocked ∧ ¬ visit.after.Deadlocked := by
  have inv := run.invariant ApartInv ApartInv.init fun visit mem step inv =>
    inv.step step (apart visit mem)
  refine ⟨inv.1.not_deadlocked, ?_⟩
  intro visit mem
  obtain ⟨before, after⟩ := inv.2 visit mem
  exact ⟨before.not_deadlocked, after.not_deadlocked⟩

/-! ## Runs with a callback that uses a runner -/

/-- The callback of the task of runner 0 runs a command on runner 1, up to the
point where it has to lock the mutex.  From there the steps need not keep apart:
when runner 0 is destroyed, the handler locks the mutex and waits for the task. -/
theorem run_in_callback : ∃ visits s more t,
    Run (TaskStep 5) .init visits s ∧ (∀ visit ∈ visits, KeepsApart visit.before visit.label) ∧
      s.runners.find? 1 = some ⟨⟨[], 0⟩, .runLaunched 1, some 0⟩ ∧
        Run (TaskStep 5) s more t ∧ t.Deadlocked := by
  have launched : Run (TaskStep 5) .init _ _ :=
    .cons (.runner (@RunnerStep.construct .init 0 rfl))
      (.cons (.runner (@RunnerStep.construct _ 1 rfl))
        (.cons (.runner (@RunnerStep.run _ 0 none (some increment) true .create rfl nofun))
          (.cons (.runner (@RunnerStep.launch _ 0 none true ⟨[increment], 0⟩ rfl))
            (.cons (.runner (@RunnerStep.addTask _ 0 0 none ⟨[], 0⟩ rfl rfl rfl))
              (.single (.runner (@RunnerStep.assign _ 0 1 none ⟨[], 0⟩ rfl)))))))
  have called : Run (TaskStep 5) .init _ _ :=
    launched.append
      (.cons (.runner (@RunnerStep.run _ 1 (some 0) (some increment) false .create rfl
          (by rintro _ ⟨⟩; exact ⟨⟨_, rfl, rfl⟩, TaskState.not_engaged_of_entries (by decide)⟩)))
        (.single (.runner (@RunnerStep.launch _ 1 (some 0) false ⟨[increment], 0⟩ rfl))))
  refine ⟨_, _, _, _, called, ?_, rfl,
    .cons (.runner (@RunnerStep.destroy _ 0 none ⟨[], 1⟩ rfl Nat.one_ne_zero nofun))
      (.cons (.runner (@RunnerStep.destroyReturnId _ 0 none ⟨[], 1⟩ rfl rfl))
        (.cons (.handler (@HandlerStep.loop _ rfl))
          (.cons (.handler (@HandlerStep.test _ rfl))
            (.single (.handler (@HandlerStep.lock _ rfl rfl)))))), 0, ⟨?_, ?_⟩, ?_⟩
  · have noAgent : ∀ (s : TaskState) (task : Nat), none = some task → ¬ s.Leaving task :=
      fun _ _ equal => absurd equal nofun
    refine List.forall_mem_append.mpr ⟨?_, ?_⟩
    · simp only [List.forall_mem_cons]
      refine ⟨trivial, trivial, noAgent _, trivial, ?_, trivial, List.forall_mem_nil _⟩
      rintro _ _ _ _ (used | ⟨_, returned⟩)
      · exact absurd used (by decide)
      · exact absurd returned List.not_mem_nil
    · simp only [List.forall_mem_cons]
      exact ⟨fun task _ => TaskState.not_leaving rfl rfl rfl, trivial,
        fun _ mem => absurd mem List.not_mem_nil⟩
  · rintro ⟨record, result, found, resultEq⟩
    cases found
    contradiction
  · exact .inl ⟨rfl, 1, [], rfl, rfl⟩
  · exact ⟨nofun, 1, _, rfl, rfl, trivial⟩

/-- Such a callback is fine as long as the runner of its task lives. -/
theorem not_deadlocked_callback : ∃ visits s, Run (TaskStep 5) .init visits s ∧
    s.runners.find? 1 = some ⟨⟨[], 0⟩, .runLaunched 1, some 0⟩ ∧ ¬ s.Deadlocked := by
  obtain ⟨visits, s, _, _, run, apart, found, _⟩ := run_in_callback
  exact ⟨visits, s, run, found, (not_deadlocked_of_keepsApart run apart).1⟩

/-- When the runner is destroyed meanwhile, the handler waits under the mutex for
the task, and the task for the mutex. -/
theorem destroyed_runner_deadlocks :
    ¬ ∀ visits s, Run (TaskStep 5) .init visits s → ¬ s.Deadlocked := by
  intro never
  obtain ⟨visits, s, more, t, run, _, _, rest, deadlocked⟩ := run_in_callback
  exact never _ t (run.append rest) deadlocked

end MCRedis.Task
