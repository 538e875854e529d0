import MCRedis.Runner.Single
import MCRedis.Task.Machine

/-!
# What `join` waits for

`stop` sets `terminate_`, waits until the handler has ended, and then waits under
the mutex for every future in `mapTask_`.  An entry leaves the map when the
handler erases it, which waits for its task, when `getResult` takes its future
out, or when `stop` clears the map in the end.
-/

namespace MCRedis.Task

open MCRedis.Client
open MCRedis.Container
open MCRedis.Runner
open MCRedis.Transition

/-! ## What the steps leave alone -/

/-- What no step of a runner changes; the map it changes only while nobody holds
the mutex, and it takes the mutex from no call of `stop`. -/
structure Aside (s t : TaskState) : Prop where
  handler : t.handler = s.handler
  stops : t.stops = s.stops
  mutex : ∀ caller, s.mutex = some (.stop caller) → t.mutex = some (.stop caller)
  terminate : t.holder.terminate = s.holder.terminate
  mapTask : s.mutex ≠ none → t.holder.mapTask = s.holder.mapTask

theorem RunnerStep.aside {s t : TaskState} {action : TaskAction} (step : RunnerStep s action t) :
    Aside s t := by
  cases step with
  | addTask found free unused =>
      exact ⟨rfl, rfl, fun _ held => held, CTaskHolder.terminate_addTask _ _,
        fun locked => absurd free locked⟩
  | addTaskInUse found free used =>
      exact ⟨rfl, rfl, fun _ held => absurd (free.symm.trans held) nofun,
        CTaskHolder.terminate_addTask _ _, fun locked => absurd free locked⟩
  | dropTask found held finished =>
      exact ⟨rfl, rfl, fun _ other => absurd (held.symm.trans other) nofun, rfl, fun _ => rfl⟩
  | take found free =>
      exact ⟨rfl, rfl, fun _ held => held, CTaskHolder.terminate_getResult _ _,
        fun locked => absurd free locked⟩
  | _ => exact ⟨rfl, rfl, fun _ held => held, rfl, fun _ => rfl⟩

/-- A task that has ended stays so. -/
theorem TaskState.Finished.append {s : TaskState} {task : Nat} (finished : s.Finished task)
    (record : TaskRecord) (runners : OrderedMap Nat RunnerState) :
    { s with tasks := s.tasks ++ [record], runners := runners : TaskState }.Finished task := by
  obtain ⟨old, result, found, resultEq⟩ := finished
  have bound := (List.getElem?_eq_some_iff.mp found).1
  exact ⟨old, result, (List.getElem?_append_left bound).trans found, resultEq⟩

theorem TaskStep.finished {TRetryCount : Nat} {s t : TaskState} {action : TaskAction} {task : Nat}
    (step : TaskStep TRetryCount s action t) (finished : s.Finished task) : t.Finished task := by
  cases step with
  | runner step =>
      cases step with
      | launch found => exact finished.append _ _
      | _ => exact finished
  | handler step => cases step <;> exact finished
  | stop step => cases step <;> exact finished
  | @finish other record result trace found running _ _ =>
      obtain ⟨old, oldResult, oldFound, resultEq⟩ := finished
      have differ : other ≠ task := by
        rintro rfl
        cases found.symm.trans oldFound
        rw [running] at resultEq
        contradiction
      exact ⟨old, oldResult, (List.getElem?_set_ne differ).trans oldFound, resultEq⟩

/-! ## How far a call of `stop` is -/

/-- How far a call of `stop` can be: it has set `terminate_`, and it gets to the
mutex after the handler has ended. -/
def StopPc.Reached (s : TaskState) : StopPc → Prop
  | .called => True
  | .waiting => s.holder.terminate = true
  | .locking | .joining _ => s.holder.terminate = true ∧ s.handler = .ended

theorem StopPc.Reached.mono {s t : TaskState} {pc : StopPc} (reached : pc.Reached s)
    (terminate : s.holder.terminate = true → t.holder.terminate = true)
    (ended : s.handler = .ended → t.handler = .ended) : pc.Reached t := by
  cases pc with
  | called => trivial
  | waiting => exact terminate reached
  | locking => exact ⟨terminate reached.1, ended reached.2⟩
  | joining rest => exact ⟨terminate reached.1, ended reached.2⟩

/-- Every call of `stop` has reached where it is. -/
def StopsInv (s : TaskState) : Prop :=
  ∀ caller pc, s.stops.find? caller = some pc → pc.Reached s

theorem HandlerStep.running {s t : TaskState} (step : HandlerStep s t) : s.handler ≠ .ended := by
  cases step with
  | loop looping => simp [looping]
  | test testing => simp [testing]
  | lock locking _ => simp [locking]
  | erase erasing _ => simp [erasing]
  | clear erasing => simp [erasing]

namespace StopsInv

variable {s t : TaskState}

theorem same (inv : StopsInv s) (stops : t.stops = s.stops)
    (terminate : t.holder.terminate = s.holder.terminate)
    (ended : s.handler = .ended → t.handler = .ended) : StopsInv t := by
  intro caller pc found
  rw [stops] at found
  exact (inv caller pc found).mono (fun set => terminate.trans set) ended

theorem runner {action : TaskAction} (inv : StopsInv s) (step : RunnerStep s action t) :
    StopsInv t :=
  inv.same step.aside.stops step.aside.terminate fun ended => step.aside.handler.trans ended

/-- While the handler has not ended, its steps keep back no call of `stop`. -/
theorem handler (inv : StopsInv s) (step : HandlerStep s t) : StopsInv t := by
  have running := step.running
  have stops : t.stops = s.stops := by cases step <;> rfl
  have terminate : t.holder.terminate = s.holder.terminate := by cases step <;> rfl
  exact inv.same stops terminate fun ended => absurd ended running

theorem stop {caller : Nat} (inv : StopsInv s) (step : StopStep caller s t) : StopsInv t := by
  cases step with
  | call absent => exact OrderedMap.forall_find?_insert trivial fun other pc _ => inv other pc
  | terminate called =>
      refine OrderedMap.forall_find?_insert rfl ?_
      intro other pc _ found
      exact (inv other pc found).mono (fun _ => rfl) fun ended => ended
  | wait waiting ended =>
      refine OrderedMap.forall_find?_insert ⟨inv caller _ waiting, ended⟩ ?_
      exact fun other pc _ => inv other pc
  | lock locking free =>
      refine OrderedMap.forall_find?_insert (inv caller _ locking) ?_
      exact fun other pc _ => inv other pc
  | join joining finished =>
      refine OrderedMap.forall_find?_insert (inv caller _ joining) ?_
      exact fun other pc _ => inv other pc
  | clear joining => exact OrderedMap.forall_find?_erase fun other pc _ => inv other pc

end StopsInv

/-! ## The futures that `stop` waits for -/

/-- Every task with an entry in the map has ended or is still to be waited for. -/
def TaskState.Awaits (s : TaskState) (rest : List Nat) : Prop :=
  ∀ id task, s.holder.mapTask.find? id = some task → task ∈ rest ∨ s.Finished task

/-- A call of `stop` that waits for the futures holds the mutex, and will have
waited for all of them. -/
def StopPc.Locked (s : TaskState) (caller : Nat) : StopPc → Prop
  | .joining rest => s.mutex = some (.stop caller) ∧ s.Awaits rest
  | _ => True

theorem StopPc.Locked.mono {s t : TaskState} {caller : Nat} {pc : StopPc}
    (locked : pc.Locked s caller)
    (mutex : s.mutex = some (.stop caller) → t.mutex = some (.stop caller))
    (awaits : s.mutex = some (.stop caller) → ∀ rest, s.Awaits rest → t.Awaits rest) :
    pc.Locked t caller := by
  cases pc with
  | joining rest => exact ⟨mutex locked.1, awaits locked.1 rest locked.2⟩
  | _ => trivial

/-- What holds of the calls of `stop`. -/
structure JoinInv (s : TaskState) : Prop where
  stops : StopsInv s
  locked : ∀ caller pc, s.stops.find? caller = some pc → pc.Locked s caller

namespace JoinInv

theorem init : JoinInv .init :=
  ⟨nofun, nofun⟩

variable {s t : TaskState} {TRetryCount : Nat}

/-- While somebody waits for the futures, the handler has ended. -/
theorem ended (inv : JoinInv s) {caller : Nat} {rest : List Nat}
    (joining : s.stops.find? caller = some (.joining rest)) : s.handler = .ended :=
  (inv.stops caller _ joining).2

theorem runner {action : TaskAction} (inv : JoinInv s) (step : RunnerStep s action t) :
    JoinInv t := by
  refine ⟨inv.stops.runner step, ?_⟩
  intro caller pc found
  have taskStep : TaskStep 0 s action t := .runner step
  rw [step.aside.stops] at found
  refine (inv.locked caller pc found).mono (step.aside.mutex caller) ?_
  intro held rest awaits id task stored
  rw [step.aside.mapTask (by simp [held])] at stored
  exact (awaits id task stored).imp_right taskStep.finished

theorem handler (inv : JoinInv s) (step : HandlerStep s t) : JoinInv t := by
  refine ⟨inv.stops.handler step, ?_⟩
  intro caller pc found
  have stops : t.stops = s.stops := by cases step <;> rfl
  rw [stops] at found
  cases pc with
  | joining rest => exact absurd (inv.ended found) step.running
  | _ => trivial

theorem stop {caller : Nat} (inv : JoinInv s) (step : StopStep caller s t) : JoinInv t := by
  refine ⟨inv.stops.stop step, ?_⟩
  cases step with
  | call absent =>
      exact OrderedMap.forall_find?_insert trivial fun other pc _ => inv.locked other pc
  | terminate called =>
      exact OrderedMap.forall_find?_insert trivial fun other pc _ => inv.locked other pc
  | wait waiting ended =>
      exact OrderedMap.forall_find?_insert trivial fun other pc _ => inv.locked other pc
  | lock locking free =>
      refine OrderedMap.forall_find?_insert ⟨rfl, ?_⟩ ?_
      · intro id task stored
        exact .inl (List.mem_map.mpr ⟨(id, task), OrderedMap.find?_eq_some_iff.mp stored, rfl⟩)
      · intro other pc _ found
        have locked := inv.locked other pc found
        cases pc with
        | joining rest => exact absurd (free.symm.trans locked.1) nofun
        | _ => trivial
  | @join task rest joining finished =>
      obtain ⟨held, awaits⟩ := inv.locked caller _ joining
      refine OrderedMap.forall_find?_insert ⟨held, ?_⟩ fun other pc _ => inv.locked other pc
      intro id other stored
      rcases awaits id other stored with mem | done
      · rcases List.mem_cons.mp mem with rfl | left
        · exact .inr finished
        · exact .inl left
      · exact .inr done
  | clear joining =>
      have held := (inv.locked caller _ joining).1
      refine OrderedMap.forall_find?_erase ?_
      intro other pc differ found
      have locked := inv.locked other pc found
      cases pc with
      | joining rest =>
          cases held.symm.trans locked.1
          contradiction
      | _ => trivial

theorem step {action : TaskAction} (inv : JoinInv s) (step : TaskStep TRetryCount s action t) :
    JoinInv t := by
  cases step with
  | runner step => exact inv.runner step
  | handler step => exact inv.handler step
  | stop step => exact inv.stop step
  | finish found running free exec =>
      have taskStep := TaskStep.finish found running free exec
      refine ⟨inv.stops.same rfl rfl fun ended => ended, ?_⟩
      intro caller pc stopping
      refine (inv.locked caller pc stopping).mono (fun held => held) ?_
      exact fun _ rest awaits id task stored => (awaits id task stored).imp_right taskStep.finished

end JoinInv

/-! ## The tasks that were added -/

/-- The step puts the task into the map. -/
def Puts (visit : TaskVisit) (task : Nat) : Prop :=
  ∃ id, visit.before.holder.mapTask.find? id = none ∧
    visit.after.holder.mapTask.find? id = some task

/-- The step is the section of a `getResult` that takes the future of the task
out of the map. -/
def TakesOut (visit : TaskVisit) (task : Nat) : Prop :=
  ∃ name id, visit.label = .take name ∧ visit.before.holder.mapTask.find? id = some task ∧
    visit.after.holder.mapTask.find? id = none

/-- An entry stays, unless its task has ended or `getResult` takes it. -/
theorem JoinInv.entry {TRetryCount : Nat} {s t : TaskState} {action : TaskAction} {id task : Nat}
    (inv : JoinInv s) (step : TaskStep TRetryCount s action t)
    (stored : s.holder.mapTask.find? id = some task) :
    t.holder.mapTask.find? id = some task ∨ s.Finished task ∨ TakesOut ⟨s, action, t⟩ task := by
  cases step with
  | runner step =>
      cases step with
      | @addTask _ added _ _ _ _ _ =>
          left
          rcases s.holder.find?_addTask added id with same | ⟨_, absent, _⟩
          · exact same.trans stored
          · rw [absent] at stored
            contradiction
      | @addTaskInUse _ added _ _ _ _ _ used =>
          left
          change (s.holder.addTask added).2.mapTask.find? id = some task
          rw [CTaskHolder.addTask_of_used used]
          exact stored
      | @take name agent runner found free =>
          have after := CTaskHolder.find?_getResult runner.resultId id s.holder
          split at after
          · exact .inr (.inr ⟨name, id, rfl, stored, after⟩)
          · exact .inl (after.trans stored)
      | _ => exact .inl stored
  | handler step =>
      cases step with
      | @erase erased rest erasing finished =>
          by_cases equal : id = erased
          · exact .inr (.inl (finished task (equal ▸ stored)))
          · left
            change (s.holder.mapTask.erase erased).find? id = some task
            rw [OrderedMap.find?_erase, if_neg equal, stored]
      | _ => exact .inl stored
  | stop step =>
      cases step with
      | clear joining =>
          rcases (inv.locked _ _ joining).2 id task stored with mem | done
          · contradiction
          · exact .inr (.inl done)
      | _ => exact .inl stored
  | finish _ _ _ _ => exact .inl stored

/-- Every task that was put into the map has ended, was taken out, or has its
entry. -/
structure Tracked (earlier : List TaskVisit) (s : TaskState) : Prop where
  join : JoinInv s
  kept : ∀ task, (∃ visit ∈ earlier, Puts visit task) →
    s.Finished task ∨ (∃ visit ∈ earlier, TakesOut visit task) ∨
      ∃ id, s.holder.mapTask.find? id = some task

theorem Tracked.step {TRetryCount : Nat} {earlier : List TaskVisit} {visit : TaskVisit}
    (tracked : Tracked earlier visit.before)
    (step : TaskStep TRetryCount visit.before visit.label visit.after) :
    Tracked (earlier ++ [visit]) visit.after := by
  refine ⟨tracked.join.step step, ?_⟩
  rintro task ⟨other, mem, puts⟩
  rcases List.mem_append.mp mem with old | new
  · rcases tracked.kept task ⟨other, old, puts⟩ with done | ⟨taker, takerMem, takes⟩ | ⟨id, stored⟩
    · exact .inl (step.finished done)
    · exact .inr (.inl ⟨taker, List.mem_append_left _ takerMem, takes⟩)
    · rcases tracked.join.entry step stored with same | done | takes
      · exact .inr (.inr ⟨id, same⟩)
      · exact .inl (step.finished done)
      · exact .inr (.inl ⟨visit, by simp, takes⟩)
  · cases List.mem_singleton.mp new
    obtain ⟨id, _, stored⟩ := puts
    exact .inr (.inr ⟨id, stored⟩)

/-- When `join` returns, the handler has ended, and every task that was put into
the map before has ended too, unless `getResult` has taken its future out. -/
theorem join_awaits {TRetryCount : Nat} {visits : List TaskVisit} {s t : TaskState} {caller : Nat}
    (run : Run (TaskStep TRetryCount) .init visits s)
    (step : TaskStep TRetryCount s (.stop caller) t) (returned : t.stops.find? caller = none) :
    t.handler = .ended ∧ ∀ task, (∃ visit ∈ visits, Puts visit task) →
      t.Finished task ∨ ∃ visit ∈ visits, TakesOut visit task := by
  have tracked : Tracked visits s :=
    run.history Tracked ⟨JoinInv.init, by simp⟩ fun _ _ _ _ step tracked => tracked.step step
  cases step with
  | runner step => contradiction
  | stop step =>
      cases step with
      | clear joining =>
          refine ⟨tracked.join.ended joining, ?_⟩
          intro task puts
          rcases tracked.kept task puts with done | taken | ⟨id, stored⟩
          · exact .inl done
          · exact .inr taken
          · rcases (tracked.join.locked caller _ joining).2 id task stored with mem | done
            · contradiction
            · exact .inl done
      | _ => simp at returned

/-- The task of an `INCR` on a healthy connection computes one. -/
def incrementResult : TaskResult :=
  .returned (.mk .INTEGER [] 1 [])

def increment : CCommand :=
  .ofTexts [[0x49, 0x4e, 0x43, 0x52], [0x6b]]

theorem exec_increment :
    ∃ trace, Exec (CAsyncRunner.task 1 false [increment]) trace (.ok incrementResult) :=
  ⟨_, Program.exec_run (attemptEnvironment incrementOutcomes) _ 0⟩

/-- A runner runs a command; `join` waits until the task has ended. -/
theorem join_awaits_increment : ∃ visits s t, Run (TaskStep 1) .init visits s ∧
    (∃ visit ∈ visits, Puts visit 0) ∧ TaskStep 1 s (.stop 0) t ∧ t.handler = .ended ∧
      (t.Finished 0 ∨ ∃ visit ∈ visits, TakesOut visit 0) := by
  obtain ⟨trace, exec⟩ := exec_increment
  have launched : Run (TaskStep 1) .init _ _ :=
    .cons (.runner (@RunnerStep.construct .init 0 rfl))
      (.cons (.runner (@RunnerStep.run _ 0 none (some increment) false .create rfl nofun))
        (.single (.runner (@RunnerStep.launch _ 0 none false ⟨[increment], 0⟩ rfl))))
  have run : Run (TaskStep 1) .init _ _ :=
    launched.append
      (.cons (.runner (@RunnerStep.addTask _ 0 0 none ⟨[], 0⟩ rfl rfl rfl))
        (.cons (.stop (@StopStep.call 0 _ rfl))
          (.cons (.stop (@StopStep.terminate 0 _ rfl))
            (.cons (.handler (@HandlerStep.loop _ rfl))
              (.cons (.stop (@StopStep.wait 0 _ rfl rfl))
                (.cons (.stop (@StopStep.lock 0 _ rfl rfl))
                  (.cons (@TaskStep.finish 1 _ 0 ⟨false, [increment], none⟩ incrementResult trace
                      rfl rfl (TaskState.not_engaged_of_entries (by decide)) exec)
                    (.single (.stop (@StopStep.join 0 _ 0 [] rfl ⟨_, _, rfl, rfl⟩))))))))))
  have returned : ∃ visits s t, Run (TaskStep 1) .init visits s ∧ (∃ visit ∈ visits, Puts visit 0) ∧
      TaskStep 1 s (.stop 0) t ∧ t.stops.find? 0 = none :=
    ⟨_, _, _, run, ⟨_, List.mem_append_right _ List.mem_cons_self, 1, rfl, rfl⟩,
      .stop (@StopStep.clear 0 _ rfl), rfl⟩
  obtain ⟨visits, s, t, run, puts, step, returned⟩ := returned
  obtain ⟨ended, done⟩ := join_awaits run step returned
  exact ⟨visits, s, t, run, puts, step, ended, done 0 puts⟩

end MCRedis.Task
