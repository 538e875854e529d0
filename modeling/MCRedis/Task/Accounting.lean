import MCRedis.Container.Ledger
import MCRedis.Task.Joining

/-!
# Accounting for the ids

The ids of the task holder form a ledger: a runner holds the id of its last
task until it gives it to `returnId` or takes the entry out itself, and the
handler erases the entries of the ids that were given back.  As long as ids do
not wrap around, no entry is orphaned and none is reclaimed under its runner.
-/

namespace MCRedis.Task

open MCRedis.Client
open MCRedis.Container
open MCRedis.Runner
open MCRedis.Transition

/-- The id that counts as the runner's: the one it has stored or, while `_run`
is not finished, the one that `addTask` returned to it.  After it has passed
the id to `returnId` or taken its entry out, it has none. -/
def RunnerState.current (rs : RunnerState) : Option Nat :=
  match rs.pc with
  | .idle | .runEntered _ | .getEntered | .destroyEntered =>
      if rs.runner.resultId ≠ 0 then some rs.runner.resultId else none
  | .runAdded id => if id ≠ 0 then some id else none
  | .runReturned _ | .runLaunched _ | .runDropping | .getTaken _ | .getReset _ => none

/-- The current ids of a collection of runners. -/
def idsOf (runners : OrderedMap Nat RunnerState) : List Nat :=
  runners.collect fun rs => rs.current.toList

theorem count_idsOf {runners : OrderedMap Nat RunnerState} {name : Nat} {rs : RunnerState}
    (found : runners.find? name = some rs) (id : Nat) :
    (idsOf runners).count id =
      rs.current.toList.count id + (idsOf (runners.erase name)).count id :=
  OrderedMap.count_collect_erase _ found id

theorem count_idsOf_insert (runners : OrderedMap Nat RunnerState) (name : Nat) (rs : RunnerState)
    (id : Nat) :
    (idsOf (runners.insert name rs)).count id =
      rs.current.toList.count id + (idsOf (runners.erase name)).count id :=
  OrderedMap.count_collect_insert_erase _ runners name rs id

/-- A runner that keeps its current id keeps the ids of all. -/
theorem count_idsOf_same {runners : OrderedMap Nat RunnerState} {name : Nat}
    {old new : RunnerState} (found : runners.find? name = some old)
    (same : new.current = old.current) (id : Nat) :
    (idsOf (runners.insert name new)).count id = (idsOf runners).count id := by
  rw [count_idsOf_insert, count_idsOf found, same]

namespace TaskState

/-- `mapTask_` has an entry for the id. -/
def Stored (s : TaskState) (id : Nat) : Prop :=
  (s.holder.mapTask.find? id).isSome = true

/-- The id is the current one of the runner. -/
def Holds (s : TaskState) (name id : Nat) : Prop :=
  ∃ rs, s.runners.find? name = some rs ∧ rs.current = some id

theorem mem_idsOf {s : TaskState} {name id : Nat} (holds : s.Holds name id) :
    id ∈ idsOf s.runners := by
  obtain ⟨rs, found, currentEq⟩ := holds
  apply OrderedMap.mem_collect_of_find? _ found
  rw [currentEq]
  exact List.mem_singleton_self id

theorem holds_of_mem_idsOf {s : TaskState} {id : Nat} (mem : id ∈ idsOf s.runners) :
    ∃ name, s.Holds name id := by
  obtain ⟨⟨name, rs⟩, entryMem, idMem⟩ := (OrderedMap.mem_collect_iff _).mp mem
  refine ⟨name, rs, OrderedMap.find?_eq_some_iff.mpr entryMem, ?_⟩
  exact Option.mem_toList.mp idMem

end TaskState

/-- What every step keeps, as long as ids do not wrap around. -/
structure HolderInv (s : TaskState) : Prop where
  ledger : Ledger (idsOf s.runners) s.holder.lstReturnedId s.Stored
  bounded : ∀ id, id ∈ idsOf s.runners ∨ id ∈ s.holder.lstReturnedId →
    0 < id ∧ id ≤ s.holder.lastId
  counted : s.holder.lastId = s.issued.length
  issuedBounded : ∀ id ∈ s.issued, 0 < id ∧ id ≤ s.holder.lastId
  distinct : s.issued.Nodup
  stored : s.holder.terminate = false → ∀ id ∈ idsOf s.runners, s.Stored id
  erasing : ∀ rest, s.handler = .erasing rest → s.mutex = some .handler ∧
    (∀ id ∈ rest, id ∈ s.holder.lstReturnedId) ∧
      ∀ id ∈ s.holder.lstReturnedId, id ∈ rest ∨ ¬ s.Stored id
  stopping : ∀ caller pc, s.stops.find? caller = some pc → pc.Reached s

namespace HolderInv

theorem init : HolderInv .init where
  ledger := Ledger.empty.mono (fun _ => rfl) nofun
  bounded := by
    rintro id (held | returned)
    · contradiction
    · contradiction
  counted := rfl
  issuedBounded := nofun
  distinct := .nil
  stored := fun _ => nofun
  erasing := nofun
  stopping := nofun

variable {s : TaskState}

/-- A stored id was issued before. -/
theorem stored_bounded (inv : HolderInv s) {id : Nat} (isStored : s.Stored id) :
    0 < id ∧ id ≤ s.holder.lastId := by
  apply inv.bounded
  rcases inv.ledger.cases isStored with ⟨once, _⟩ | ⟨_, once⟩
  · exact .inl (List.count_pos_iff.mp (once ▸ Nat.one_pos))
  · exact .inr (List.count_pos_iff.mp (once ▸ Nat.one_pos))

theorem not_erasing (inv : HolderInv s) (free : s.mutex = none) (rest : List Nat) :
    s.handler ≠ .erasing rest := by
  intro erasing
  have locked := (inv.erasing rest erasing).1
  rw [free] at locked
  contradiction

/-! ### The steps of the runners -/

section Runners

variable (inv : HolderInv s) (runners : OrderedMap Nat RunnerState)
include inv

/-- A step that leaves the current id of its runner and the holder alone. -/
theorem quiet (tasks : List TaskRecord)
    (same : ∀ id, (idsOf runners).count id = (idsOf s.runners).count id) :
    HolderInv { s with runners := runners, tasks := tasks } := by
  have sub : ∀ id ∈ idsOf runners, id ∈ idsOf s.runners := by
    intro id mem
    rwa [← List.count_pos_iff, same id, List.count_pos_iff] at mem
  exact {
    ledger := inv.ledger.mono same fun _ isStored => isStored
    bounded := fun id mem => inv.bounded id (mem.imp_left (sub id))
    counted := inv.counted
    issuedBounded := inv.issuedBounded
    distinct := inv.distinct
    stored := fun running id mem => inv.stored running id (sub id mem)
    erasing := inv.erasing
    stopping := inv.stopping
  }

variable {id : Nat} (free : s.mutex = none)
  (split : ∀ other, (idsOf s.runners).count other =
    [id].count other + (idsOf runners).count other)
include free split

/-- A runner gives its current id to `returnId`. -/
theorem returnId : HolderInv { s with runners := runners, holder := s.holder.returnId id } where
  ledger := inv.ledger.giveBack split
  bounded := by
    rintro other (held | returned)
    · exact inv.bounded other (.inl (Ledger.mem_of_split split held))
    · rcases List.mem_append.mp returned with old | new
      · exact inv.bounded other (.inr old)
      · cases List.mem_singleton.mp new
        exact inv.bounded id (.inl (Ledger.mem_of_split_self split))
  counted := inv.counted
  issuedBounded := inv.issuedBounded
  distinct := inv.distinct
  stored := fun running other held => inv.stored running other (Ledger.mem_of_split split held)
  erasing := fun rest erasing => absurd erasing (inv.not_erasing free rest)
  stopping := inv.stopping

/-- A runner takes the entry of its current id out of the map. -/
theorem take : HolderInv { s with runners := runners, holder := (s.holder.getResult id).2 } := by
  have stored_iff : ∀ other,
      { s with runners := runners, holder := (s.holder.getResult id).2 : TaskState }.Stored other ↔
        s.Stored other ∧ other ≠ id := by
    intro other
    rw [TaskState.Stored, CTaskHolder.find?_getResult]
    split
    · rename_i equal
      simp [equal]
    · rename_i differ
      simp [differ, TaskState.Stored]
  rw [CTaskHolder.getResult_eq] at stored_iff ⊢
  exact {
    ledger := (inv.ledger.takeOut split).mono (fun _ => rfl) fun other => (stored_iff other).mp
    bounded := by
      rintro other (held | returned)
      · exact inv.bounded other (.inl (Ledger.mem_of_split split held))
      · exact inv.bounded other (.inr returned)
    counted := inv.counted
    issuedBounded := inv.issuedBounded
    distinct := inv.distinct
    stored := by
      intro running other held
      apply (stored_iff other).mpr
      refine ⟨inv.stored running other (Ledger.mem_of_split split held), ?_⟩
      rintro rfl
      exact inv.ledger.not_mem_of_split split held
    erasing := fun rest erasing => absurd erasing (inv.not_erasing free rest)
    stopping := inv.stopping
  }

end Runners

/-- The next id is in use only after as many tasks were added as there are ids. -/
theorem unused (inv : HolderInv s) (few : s.issued.length < uint64Size) :
    s.holder.mapTask.find? ((s.holder.lastId + 1) % uint64Size) = none := by
  by_contra used
  have stored := inv.stored_bounded (Option.isSome_iff_ne_none.mpr used)
  rw [← inv.counted] at few
  rcases Nat.lt_or_eq_of_le (Nat.succ_le_of_lt few) with small | wraps
  · rw [Nat.mod_eq_of_lt small] at stored
    exact Nat.not_succ_le_self _ stored.2
  · rw [← Nat.succ_eq_add_one, wraps, Nat.mod_self] at stored
    exact Nat.lt_irrefl 0 stored.1

/-- `addTask` issues the next id, unless as many tasks were added as there are
ids. -/
theorem addTask_eq (inv : HolderInv s) (few : s.issued.length + 1 < uint64Size) (task : Nat) :
    s.holder.addTask task =
      (s.holder.lastId + 1,
        { s.holder with
          lastId := s.holder.lastId + 1
          mapTask := s.holder.mapTask.insert (s.holder.lastId + 1) task }) := by
  have small : s.holder.lastId + 1 < uint64Size := by
    rw [inv.counted]
    exact few
  have nextEq := Nat.mod_eq_of_lt small
  have ready : s.holder.Ready := by
    constructor
    · rw [nextEq]
      exact Nat.succ_ne_zero _
    · exact inv.unused (Nat.lt_of_succ_lt few)
  rw [CTaskHolder.addTask_of_ready ready, nextEq]

/-- A new task is added, and its id becomes the current one of the runner. -/
theorem addTask (inv : HolderInv s) (runners : OrderedMap Nat RunnerState) {task : Nat}
    (free : s.mutex = none) (few : s.issued.length + 1 < uint64Size)
    (joined : ∀ other, (idsOf runners).count other =
      [(s.holder.addTask task).1].count other + (idsOf s.runners).count other) :
    HolderInv
      { s with
        runners := runners
        holder := (s.holder.addTask task).2
        issued := (s.holder.addTask task).1 :: s.issued } := by
  rw [inv.addTask_eq few] at joined ⊢
  have fresh : ∀ id ≤ s.holder.lastId, id ≠ s.holder.lastId + 1 := fun id le equal =>
    Nat.not_succ_le_self _ (equal ▸ le)
  have stored_iff : ∀ other, ((s.holder.mapTask.insert (s.holder.lastId + 1) task).find?
      other).isSome = true ↔ other = s.holder.lastId + 1 ∨ s.Stored other := by
    intro other
    rw [OrderedMap.find?_insert]
    split
    · rename_i equal
      simp [equal]
    · rename_i differ
      simp [differ, TaskState.Stored]
  have held_cases : ∀ other ∈ idsOf runners,
      other = s.holder.lastId + 1 ∨ other ∈ idsOf s.runners := by
    intro other mem
    have isHeld := List.count_pos_iff.mpr mem
    rw [joined other] at isHeld
    by_cases equal : s.holder.lastId + 1 = other
    · exact .inl equal.symm
    · rw [List.count_singleton, if_neg (by simpa using equal), Nat.zero_add] at isHeld
      exact .inr (List.count_pos_iff.mp isHeld)
  exact {
    ledger := by
      have notHeld : s.holder.lastId + 1 ∉ idsOf s.runners := fun mem =>
        fresh _ (inv.bounded _ (.inl mem)).2 rfl
      have notReturned : s.holder.lastId + 1 ∉ s.holder.lstReturnedId := fun mem =>
        fresh _ (inv.bounded _ (.inr mem)).2 rfl
      exact (inv.ledger.issue notHeld notReturned joined).mono (fun _ => rfl)
        fun other => (stored_iff other).mp
    bounded := by
      have old : ∀ other, other ∈ idsOf s.runners ∨ other ∈ s.holder.lstReturnedId →
          0 < other ∧ other ≤ s.holder.lastId + 1 := fun other mem =>
        ⟨(inv.bounded other mem).1, Nat.le_succ_of_le (inv.bounded other mem).2⟩
      rintro other (held | returned)
      · rcases held_cases other held with rfl | before
        · exact ⟨Nat.succ_pos _, le_rfl⟩
        · exact old other (.inl before)
      · exact old other (.inr returned)
    counted := congrArg (· + 1) inv.counted
    issuedBounded := by
      intro id mem
      rcases List.mem_cons.mp mem with rfl | before
      · exact ⟨Nat.succ_pos _, le_rfl⟩
      · exact ⟨(inv.issuedBounded id before).1, Nat.le_succ_of_le (inv.issuedBounded id before).2⟩
    distinct := List.nodup_cons.mpr
      ⟨fun mem => fresh _ (inv.issuedBounded _ mem).2 rfl, inv.distinct⟩
    stored := by
      intro running other held
      apply (stored_iff other).mpr
      exact (held_cases other held).imp_right (inv.stored running other)
    erasing := fun rest erasing => absurd erasing (inv.not_erasing free rest)
    stopping := inv.stopping
  }

/-! ### The steps of the handler and of stop -/

variable {t : TaskState}

/-- Entries may only go under ids that were returned. -/
theorem erase (inv : HolderInv s) {id : Nat} {rest : List Nat}
    (erasing : s.handler = .erasing (id :: rest))
    (stopping : StopsInv { s with handler := .erasing rest, holder := s.holder.remove id }) :
    HolderInv { s with handler := .erasing rest, holder := s.holder.remove id } := by
  obtain ⟨locked, returned, covered⟩ := inv.erasing _ erasing
  have stored_iff : ∀ other, ((s.holder.remove id).mapTask.find? other).isSome = true ↔
      s.Stored other ∧ other ≠ id := by
    intro other
    rw [CTaskHolder.remove, OrderedMap.find?_erase]
    split
    · rename_i equal
      simp [equal]
    · rename_i differ
      simp [differ, TaskState.Stored]
  exact {
    ledger := inv.ledger.mono (fun _ => rfl) fun other isStored =>
      ((stored_iff other).mp isStored).1
    bounded := inv.bounded
    counted := inv.counted
    issuedBounded := inv.issuedBounded
    distinct := inv.distinct
    stored := by
      intro running other held
      apply (stored_iff other).mpr
      refine ⟨inv.stored running other held, ?_⟩
      rintro rfl
      exact inv.ledger.not_held (returned other List.mem_cons_self) held
    erasing := by
      rintro _ ⟨⟩
      refine ⟨locked, fun other mem => returned other (List.mem_cons_of_mem id mem), ?_⟩
      intro other mem
      rcases covered other mem with left | gone
      · rcases List.mem_cons.mp left with rfl | left
        · exact .inr fun isStored => ((stored_iff other).mp isStored).2 rfl
        · exact .inl left
      · exact .inr fun isStored => gone ((stored_iff other).mp isStored).1
    stopping := stopping
  }

theorem handler (inv : HolderInv s) (step : HandlerStep s t) : HolderInv t := by
  have stopping := StopsInv.handler inv.stopping step
  cases step with
  | loop looping =>
      refine { inv with erasing := ?_, stopping := stopping }
      intro rest erasing
      dsimp only at erasing
      split at erasing <;> contradiction
  | test testing =>
      refine { inv with erasing := ?_, stopping := stopping }
      intro rest erasing
      dsimp only at erasing
      split at erasing <;> contradiction
  | lock locking free =>
      refine { inv with erasing := ?_, stopping := stopping }
      rintro _ ⟨⟩
      exact ⟨rfl, fun _ mem => mem, fun _ mem => .inl mem⟩
  | erase erasing _ => exact inv.erase erasing stopping
  | clear erasing =>
      obtain ⟨_, _, covered⟩ := inv.erasing _ erasing
      have gone : ∀ id ∈ s.holder.lstReturnedId, ¬ s.Stored id := by
        intro id mem
        rcases covered id mem with left | gone
        · contradiction
        · exact gone
      exact {
        ledger := inv.ledger.forget gone
        bounded := fun id mem => inv.bounded id (mem.imp_right nofun)
        counted := inv.counted
        issuedBounded := inv.issuedBounded
        distinct := inv.distinct
        stored := inv.stored
        erasing := nofun
        stopping := stopping
      }

theorem stop {caller : Nat} (inv : HolderInv s) (step : StopStep caller s t) : HolderInv t := by
  have stopping := StopsInv.stop inv.stopping step
  cases step with
  | call absent => exact { inv with stopping := stopping }
  | terminate called => exact { inv with stored := nofun, stopping := stopping }
  | wait waiting ended => exact { inv with stopping := stopping }
  | lock locking free =>
      refine { inv with erasing := ?_, stopping := stopping }
      exact fun rest erasing => absurd erasing (inv.not_erasing free rest)
  | join joining finished => exact { inv with stopping := stopping }
  | clear joining =>
      obtain ⟨terminated, ended⟩ := inv.stopping caller _ joining
      refine { inv with ledger := ?_, stored := ?_, erasing := ?_, stopping := stopping }
      · exact inv.ledger.mono (fun _ => rfl) nofun
      · intro running
        rw [terminated] at running
        contradiction
      · intro rest erasing
        rw [ended] at erasing
        contradiction

end HolderInv

/-! ## The runners -/

/-- What the position of a runner says about its id: it enters a section that
uses the id with an id, and has none when it reads a future; no task is refused
its id. -/
def RunnerState.Coherent (rs : RunnerState) : Prop :=
  match rs.pc with
  | .runEntered _ | .getEntered | .destroyEntered => rs.runner.resultId ≠ 0
  | .getReset _ => rs.runner.resultId = 0
  | .runDropping => False
  | _ => True

def RunnersInv (s : TaskState) : Prop :=
  ∀ name rs, s.runners.find? name = some rs → rs.Coherent

theorem RunnersInv.insert {s t : TaskState} (inv : RunnersInv s) {name : Nat} {rs : RunnerState}
    (runnersEq : t.runners = s.runners.insert name rs) (coherent : rs.Coherent) :
    RunnersInv t := by
  rw [RunnersInv, runnersEq]
  exact OrderedMap.forall_find?_insert coherent fun other found _ => inv other found

theorem RunnersInv.erase {s t : TaskState} (inv : RunnersInv s) {name : Nat}
    (runnersEq : t.runners = s.runners.erase name) : RunnersInv t := by
  rw [RunnersInv, runnersEq]
  exact OrderedMap.forall_find?_erase fun other found _ => inv other found

theorem coherent_run (runner : CAsyncRunner) (cmd : Option CCommand) (hasCallback : Bool)
    (agent : Option Nat) :
    RunnerState.Coherent ⟨enterRun runner cmd, runEntry runner hasCallback, agent⟩ := by
  have sameId : (enterRun runner cmd).resultId = runner.resultId := by
    cases cmd <;> rfl
  by_cases noId : runner.resultId = 0
  · rw [runEntry, if_neg (by simpa using noId)]
    trivial
  · rw [runEntry, if_pos noId]
    exact sameId.trans_ne noId

theorem RunnersInv.step {s t : TaskState} {action : TaskAction} (inv : RunnersInv s)
    (unused : s.holder.mapTask.find? ((s.holder.lastId + 1) % uint64Size) = none)
    (step : RunnerStep s action t) : RunnersInv t := by
  cases step with
  | addTaskInUse _ _ used => cases unused.symm.trans used
  | run found _ => exact inv.insert rfl (coherent_run _ _ _ _)
  | getNothing found _ => exact inv
  | getResult found hasId _ => exact inv.insert rfl hasId
  | reset found => exact inv.insert rfl rfl
  | destroyNothing found _ => exact inv.erase rfl
  | destroy found hasId _ => exact inv.insert rfl hasId
  | destroyReturnId found _ => exact inv.erase rfl
  | _ => exact inv.insert rfl trivial

theorem current_run (runner : CAsyncRunner) (cmd : Option CCommand) (hasCallback : Bool)
    (agent : Option Nat) :
    RunnerState.current ⟨enterRun runner cmd, runEntry runner hasCallback, agent⟩ =
      RunnerState.current ⟨runner, .idle, none⟩ := by
  have sameId : (enterRun runner cmd).resultId = runner.resultId := by
    cases cmd <;> rfl
  by_cases noId : runner.resultId = 0
  · simp [RunnerState.current, runEntry, noId]
  · simp [RunnerState.current, runEntry, noId, sameId]

/-- A runner without a current id is removed or put in a place where it has
one. -/
theorem HolderInv.runner {s t : TaskState} {action : TaskAction} (inv : HolderInv s)
    (coherent : RunnersInv s) (few : t.issued.length < uint64Size)
    (step : RunnerStep s action t) : HolderInv t := by
  cases step with
  | construct absent =>
      apply inv.quiet (s.runners.insert _ _) s.tasks
      intro id
      exact (OrderedMap.count_collect_insert_new _ absent _ id).trans (Nat.zero_add _)
  | append found => exact inv.quiet _ s.tasks (count_idsOf_same found rfl)
  | run found _ => exact inv.quiet _ s.tasks (count_idsOf_same found (current_run _ _ _ _))
  | @returnId name agent hasCallback runner found free =>
      have hasId : runner.resultId ≠ 0 := coherent name _ found
      apply inv.returnId (s.runners.insert name _) free
      intro other
      rw [count_idsOf found, count_idsOf_insert, RunnerState.current, if_pos hasId]
      exact (congrArg _ (Nat.zero_add _)).symm
  | launch found => exact inv.quiet _ _ (count_idsOf_same found rfl)
  | addTaskInUse _ _ used => cases (inv.unused few).symm.trans used
  | @dropTask name _ _ _ found _ _ => exact (coherent name _ found).elim
  | @addTask name task agent runner found free _ =>
      have hasId : (s.holder.addTask task).1 ≠ 0 := by
        rw [inv.addTask_eq few]
        exact Nat.succ_ne_zero _
      have added : RunnerState.current ⟨runner, .runAdded (s.holder.addTask task).1, agent⟩ =
          some (s.holder.addTask task).1 := if_pos hasId
      apply inv.addTask (s.runners.insert name _) free few
      intro other
      rw [count_idsOf_insert, count_idsOf found, added]
      exact congrArg _ (Nat.zero_add _).symm
  | assign found => exact inv.quiet _ s.tasks (count_idsOf_same found rfl)
  | getNothing found _ => exact inv
  | getResult found _ _ => exact inv.quiet _ s.tasks (count_idsOf_same found rfl)
  | @take name agent runner found free =>
      have hasId : runner.resultId ≠ 0 := coherent name _ found
      apply inv.take (s.runners.insert name _) free
      intro other
      rw [count_idsOf found, count_idsOf_insert, RunnerState.current, if_pos hasId]
      exact (congrArg _ (Nat.zero_add _)).symm
  | reset found => exact inv.quiet _ s.tasks (count_idsOf_same found rfl)
  | @getInvalid name agent runner found =>
      have noId : runner.resultId = 0 := coherent name _ found
      apply inv.quiet _ s.tasks (count_idsOf_same found _)
      simp [RunnerState.current, noId]
  | @getReply name task agent runner record rpy found _ _ =>
      have noId : runner.resultId = 0 := coherent name _ found
      apply inv.quiet _ s.tasks (count_idsOf_same found _)
      simp [RunnerState.current, noId]
  | @destroyNothing name agent runner found noId =>
      apply inv.quiet (s.runners.erase name) s.tasks
      intro id
      rw [count_idsOf found]
      simp [RunnerState.current, noId]
  | destroy found _ _ => exact inv.quiet _ s.tasks (count_idsOf_same found rfl)
  | @destroyReturnId name agent runner found free =>
      have hasId : runner.resultId ≠ 0 := coherent name _ found
      apply inv.returnId (s.runners.erase name) free
      intro other
      rw [count_idsOf found, RunnerState.current, if_pos hasId]
      rfl

/-! ## Runs -/

/-- The record of the issued ids only grows. -/
theorem issued_length_le {TRetryCount : Nat} {s t : TaskState} {action : TaskAction}
    (step : TaskStep TRetryCount s action t) : s.issued.length ≤ t.issued.length := by
  cases step with
  | runner step =>
      cases step with
      | addTask => exact Nat.le_succ _
      | dropTask => exact Nat.le_succ _
      | _ => exact le_rfl
  | handler step => cases step <;> exact le_rfl
  | stop step => cases step <;> exact le_rfl
  | finish _ _ _ _ => exact le_rfl

/-- Both invariants, which every step keeps while ids do not wrap around. -/
structure AccountInv (s : TaskState) : Prop where
  holder : HolderInv s
  runners : RunnersInv s

theorem AccountInv.init : AccountInv .init :=
  ⟨HolderInv.init, nofun⟩

theorem AccountInv.step {TRetryCount : Nat} {s t : TaskState} {action : TaskAction}
    (inv : AccountInv s) (few : t.issued.length < uint64Size)
    (step : TaskStep TRetryCount s action t) : AccountInv t := by
  have unused := inv.holder.unused ((issued_length_le step).trans_lt few)
  cases step with
  | runner step => exact ⟨inv.holder.runner inv.runners few step, inv.runners.step unused step⟩
  | handler step =>
      refine ⟨inv.holder.handler step, ?_⟩
      cases step <;> exact inv.runners
  | stop step =>
      refine ⟨inv.holder.stop step, ?_⟩
      cases step <;> exact inv.runners
  | finish _ _ _ _ => exact ⟨inv.holder.quiet s.runners _ fun _ => rfl, inv.runners⟩

/-- What the runners may rely on: an entry of `mapTask_` belongs to exactly one
live runner, or its id is in `lstReturnedId_` exactly once, and not both; no id
was issued twice; before `stop`, the current id of every runner has its
entry. -/
structure Accounted (s : TaskState) : Prop where
  entry : ∀ id, s.Stored id →
    ((∃! name, s.Holds name id) ∧ id ∉ s.holder.lstReturnedId) ∨
      ((∀ name, ¬ s.Holds name id) ∧ s.holder.lstReturnedId.count id = 1)
  distinct : s.issued.Nodup
  stored : s.holder.terminate = false → ∀ name id, s.Holds name id → s.Stored id

theorem HolderInv.accounted {s : TaskState} (inv : HolderInv s) : Accounted s where
  entry := by
    intro id isStored
    rcases inv.ledger.cases isStored with ⟨once, notReturned⟩ | ⟨notHeld, once⟩
    · left
      have mem := List.count_pos_iff.mp (once ▸ Nat.one_pos)
      obtain ⟨name, holds⟩ := TaskState.holds_of_mem_idsOf mem
      refine ⟨⟨name, holds, ?_⟩, notReturned⟩
      rintro other ⟨otherState, otherFound, otherEq⟩
      obtain ⟨state, found, currentEq⟩ := holds
      exact OrderedMap.key_unique_of_count_collect _ once.le otherFound
        (Option.mem_toList.mpr otherEq) found (Option.mem_toList.mpr currentEq)
    · right
      exact ⟨fun name holds => notHeld (TaskState.mem_idsOf holds), once⟩
  distinct := inv.distinct
  stored := fun running name id holds => inv.stored running id (TaskState.mem_idsOf holds)

/-- In every state that any interleaving of the runners, the handler and `stop`
reaches with fewer added tasks than there are ids, the ids are accounted for. -/
theorem ids_accounted {TRetryCount : Nat} {visits : List (Visit TaskState TaskAction)}
    {last : TaskState} (run : Run (TaskStep TRetryCount) .init visits last)
    (few : last.issued.length < uint64Size) : Accounted last := by
  have grows := run.le_last (fun s => s.issued.length) fun visit mem =>
    issued_length_le (run.step_of_mem visit mem)
  have inv := run.invariant AccountInv AccountInv.init fun visit mem step inv =>
    inv.step ((grows visit mem).trans_lt few) step
  exact inv.1.holder.accounted

/-- A runner launches a task and then a second one: it has given the first id
back, and the second one is its own. -/
theorem ids_accounted_twoTasks : ∃ visits last,
    Run (TaskStep 5) .init visits last ∧ last.issued = [2, 1] ∧ Accounted last := by
  have launched : Run (TaskStep 5) .init _ _ :=
    .cons (.runner (@RunnerStep.construct .init 0 rfl))
      (.cons (.runner (@RunnerStep.run _ 0 none none false .create rfl nofun))
        (.cons (.runner (@RunnerStep.launch _ 0 none false .create rfl))
          (.cons (.runner (@RunnerStep.addTask _ 0 0 none .create rfl rfl rfl))
            (.single (.runner (@RunnerStep.assign _ 0 1 none .create rfl))))))
  have again : Run (TaskStep 5) _ _ _ :=
    launched.append
      (.cons (.runner (@RunnerStep.run _ 0 none none false ⟨[], 1⟩ rfl nofun))
        (.cons (.runner (@RunnerStep.returnId _ 0 none false ⟨[], 1⟩ rfl rfl))
          (.cons (.runner (@RunnerStep.launch _ 0 none false ⟨[], 1⟩ rfl))
            (.single (.runner (@RunnerStep.addTask _ 0 1 none ⟨[], 1⟩ rfl rfl rfl))))))
  exact ⟨_, _, again, rfl, ids_accounted again (by decide)⟩

end MCRedis.Task
