import MCRedis.Client.Basic
import MCRedis.Container.OrderedMap
import Mathlib.Data.Nat.Basic

/-!
# The task holder

`CTaskHolder` keeps the futures of all asynchronous runners under ids that it
issues in ascending order.  Each operation here is the section it executes while
it holds the mutex.
-/

namespace MCRedis.Task

open MCRedis.Client
open MCRedis.Container

/-- `CTaskHolder`, over any type of futures. -/
structure CTaskHolder (τ : Type) where
  mapTask : OrderedMap Nat τ
  lastId : Nat
  terminate : Bool
  lstReturnedId : List Nat

namespace CTaskHolder

variable {τ : Type}

def create : CTaskHolder τ where
  mapTask := .empty
  lastId := 0
  terminate := false
  lstReturnedId := []

/-- `addTask`: the id of the task, or zero when the map has the id already; the
future is destroyed then, before the mutex is released. -/
def addTask (result : τ) (holder : CTaskHolder τ) : Nat × CTaskHolder τ :=
  let id := (holder.lastId + 1) % uint64Size
  match holder.mapTask.find? id with
  | none => (id, { holder with lastId := id, mapTask := holder.mapTask.insert id result })
  | some _ => (0, { holder with lastId := id })

/-- `getResult`: the future is moved out of the map; a future without a shared
state is returned when there is none. -/
def getResult (id : Nat) (holder : CTaskHolder τ) : Option τ × CTaskHolder τ :=
  match holder.mapTask.find? id with
  | none => (none, holder)
  | some result => (some result, { holder with mapTask := holder.mapTask.erase id })

def remove (id : Nat) (holder : CTaskHolder τ) : CTaskHolder τ :=
  { holder with mapTask := holder.mapTask.erase id }

def returnId (id : Nat) (holder : CTaskHolder τ) : CTaskHolder τ :=
  { holder with lstReturnedId := holder.lstReturnedId ++ [id] }

theorem getResult_fst (id : Nat) (holder : CTaskHolder τ) :
    (holder.getResult id).1 = holder.mapTask.find? id := by
  cases found : holder.mapTask.find? id <;> simp only [getResult, found]

/-- Afterwards the map has no entry for the id, and the others are as before. -/
theorem find?_getResult (id other : Nat) (holder : CTaskHolder τ) :
    (holder.getResult id).2.mapTask.find? other =
      if other = id then none else holder.mapTask.find? other := by
  cases found : holder.mapTask.find? id with
  | none =>
      simp only [getResult, found]
      split
      · rename_i equal
        rw [equal, found]
      · rfl
  | some result =>
      simp only [getResult, found]
      exact OrderedMap.find?_erase _ _ _

/-- Nothing but the map changes. -/
theorem getResult_eq (id : Nat) (holder : CTaskHolder τ) :
    (holder.getResult id).2 = { holder with mapTask := (holder.getResult id).2.mapTask } := by
  cases found : holder.mapTask.find? id <;> simp only [getResult, found]

@[simp]
theorem terminate_getResult (id : Nat) (holder : CTaskHolder τ) :
    (holder.getResult id).2.terminate = holder.terminate := by
  rw [getResult_eq]

@[simp]
theorem lstReturnedId_getResult (id : Nat) (holder : CTaskHolder τ) :
    (holder.getResult id).2.lstReturnedId = holder.lstReturnedId := by
  rw [getResult_eq]

@[simp]
theorem terminate_addTask (result : τ) (holder : CTaskHolder τ) :
    (holder.addTask result).2.terminate = holder.terminate := by
  rw [addTask]
  split <;> rfl

@[simp]
theorem lstReturnedId_addTask (result : τ) (holder : CTaskHolder τ) :
    (holder.addTask result).2.lstReturnedId = holder.lstReturnedId := by
  rw [addTask]
  split <;> rfl

/-- An entry is as before, or it is the new one under the next id, which was not
in use. -/
theorem find?_addTask (result : τ) (holder : CTaskHolder τ) (other : Nat) :
    (holder.addTask result).2.mapTask.find? other = holder.mapTask.find? other ∨
      other = (holder.lastId + 1) % uint64Size ∧ holder.mapTask.find? other = none ∧
        (holder.addTask result).2.mapTask.find? other = some result := by
  rw [addTask]
  split
  · rename_i unused
    by_cases equal : other = (holder.lastId + 1) % uint64Size
    · cases equal
      exact .inr ⟨rfl, unused, OrderedMap.find?_insert_self _ _ _⟩
    · exact .inl (OrderedMap.find?_insert_of_ne _ _ equal)
  · exact .inl rfl

/-- The next id is one that `addTask` can issue: it is not zero and not in use.
Ids are issued in ascending order, so this holds until they wrap around. -/
structure Ready (holder : CTaskHolder τ) : Prop where
  notZero : (holder.lastId + 1) % uint64Size ≠ 0
  unused : holder.mapTask.find? ((holder.lastId + 1) % uint64Size) = none

theorem addTask_of_ready {holder : CTaskHolder τ} (ready : holder.Ready) (result : τ) :
    holder.addTask result =
      ((holder.lastId + 1) % uint64Size,
        { holder with
          lastId := (holder.lastId + 1) % uint64Size
          mapTask := holder.mapTask.insert ((holder.lastId + 1) % uint64Size) result }) := by
  simp only [addTask, ready.unused]

/-- A task whose id is in use is not added. -/
theorem addTask_of_used {holder : CTaskHolder τ} {other : τ}
    (used : holder.mapTask.find? ((holder.lastId + 1) % uint64Size) = some other) (result : τ) :
    holder.addTask result = (0, { holder with lastId := (holder.lastId + 1) % uint64Size }) := by
  simp only [addTask, used]

theorem ready_create : (create : CTaskHolder τ).Ready :=
  ⟨Nat.one_ne_zero, OrderedMap.find?_empty _⟩

end CTaskHolder

end MCRedis.Task
