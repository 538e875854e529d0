import MCRedis.Client.Connection

/-!
# Middlewares

A middleware opens connections for a pool.  Its functions are programs over
hiredis, the allocation of connection objects, the capacity of vectors, the
user's connection callback and `std::rand`.  A pool holds a tuple of
middlewares and asks them in order until one of them is content.
-/

namespace MCRedis.MiddleWare

open MCRedis.Client
open MCRedis.Transition

/-- The operations a middleware may issue.  The pool is a template: `foreign` asks
a middleware of the user's own, by its position in the tuple, for a connection. -/
inductive MwOp
  | redis (op : RedisOp)
  | newConnection
  | deleteConnection (id : Nat)
  | reserve (capacity : Nat)
  | connectionCallback (conn : CConnection)
  | rand
  | foreign (index slotNo : Nat)

/-- Their answers: the new object's name, whether the capacity was granted, the
connection as the callback leaves it, a random number, the connection given. -/
abbrev MwAns : MwOp → Type
  | .redis op => RedisAns op
  | .newConnection => Nat
  | .deleteConnection _ => Unit
  | .reserve _ => Bool
  | .connectionCallback _ => CConnection
  | .rand => Nat
  | .foreign _ _ => Option CConnection

abbrev MwProgram := Program MwOp MwAns Fault

/-- The hiredis calls of a connection, made by a middleware. -/
def MwProgram.redis {α : Type} (program : RedisProgram α) : MwProgram α :=
  program.translate MwOp.redis fun _ answer => answer

/-- `new CConnection`. -/
def newConnection : MwProgram CConnection := do
  let id ← (Program.perform MwOp.newConnection : MwProgram Nat)
  pure (CConnection.create id)

/-- `delete`, or the destructor of the owning `unique_ptr`. -/
def deleteConnection (conn : CConnection) : MwProgram Unit :=
  Program.perform (MwOp.deleteConnection conn.id)

/-- `reserve`: a capacity that is not granted throws. -/
def reserve (capacity : Nat) : MwProgram Unit := do
  let granted ← (Program.perform (MwOp.reserve capacity) : MwProgram Bool)
  if granted then pure () else .fail .terminate

/-- `callback_`: it works on the object itself, which stays the same object. -/
def connectionCallback (conn : CConnection) : MwProgram CConnection := do
  let called ← (Program.perform (MwOp.connectionCallback conn) : MwProgram CConnection)
  pure { called with id := conn.id }

/-- The loop of `create` in a middleware that opens its connections one by one,
with `num` iterations left. -/
def createWith (getConnection : MwProgram (Option CConnection)) :
    Nat → List CConnection → MwProgram (List CConnection)
  | 0, lstConn => pure lstConn
  | num + 1, lstConn => do
      let p ← getConnection
      match p with
      | none => createWith getConnection num lstConn
      | some p => createWith getConnection num (lstConn ++ [p])

/-- `_tuple_iterator`: visit the tuple until the function returns true. -/
def tupleIterator {m : Type → Type} [Monad m] {τ σ : Type} (fn : τ → σ → m (Bool × σ)) :
    List τ → σ → m σ
  | [], state => pure state
  | elem :: tuple, state => do
      let (done, state) ← fn elem state
      if done then pure state else tupleIterator fn tuple state

/-- What holds of the state at first, and is kept by every visit, holds of the
state in the end. -/
theorem returns_tupleIterator {law : Event MwOp MwAns → Prop} {τ σ : Type}
    {fn : τ → σ → MwProgram (Bool × σ)} {post : σ → Prop} {tuple : List τ} {state : σ}
    (initial : post state)
    (visits : ∀ elem ∈ tuple, ∀ state, post state →
      Returns law (fun result => post result.2) (fn elem state)) :
    Returns law post (tupleIterator fn tuple state) := by
  induction tuple generalizing state with
  | nil => exact .pure initial
  | cons elem tuple ih =>
      obtain ⟨first, others⟩ := List.forall_mem_cons.mp visits
      apply Returns.bind (first state initial)
      rintro ⟨done, state⟩ holds
      cases done with
      | true => exact .pure holds
      | false => exact ih holds others

/-- What a pool needs of a middleware. -/
structure TMiddleWare where
  create : Nat → MwProgram (List CConnection)
  getConnection : Nat → MwProgram (Option CConnection)
  getSlot : Option Bytes → Except Fault Nat

/-- `_pre_create` over the tuple. -/
def preCreate (mw : List TMiddleWare) (defaultNum : Nat) : MwProgram (List CConnection) :=
  tupleIterator (fun mw _ => do
    let lstConnection ← mw.create defaultNum
    pure (!lstConnection.isEmpty, lstConnection)) mw []

/-- `_get_connection` over the tuple. -/
def getConnection (mw : List TMiddleWare) (slotNo : Nat) : MwProgram (Option CConnection) :=
  tupleIterator (fun mw _ => do
    let conn ← mw.getConnection slotNo
    pure (conn.isSome, conn)) mw none

/-- A tuple of one middleware gives what the middleware gives. -/
theorem preCreate_single (mw : TMiddleWare) (defaultNum : Nat) :
    preCreate [mw] defaultNum = mw.create defaultNum := by
  simp [preCreate, tupleIterator, Program.bind_bind, Program.bind_pure_right]

theorem getConnection_single (mw : TMiddleWare) (slotNo : Nat) :
    getConnection [mw] slotNo = mw.getConnection slotNo := by
  simp [getConnection, tupleIterator, Program.bind_bind, Program.bind_pure_right]

/-- `_get_slot` over the tuple; `slotNo_` has no value before the first
middleware sets it. -/
def getSlot (mw : List TMiddleWare) (key : Option Bytes) : Except Fault Nat := do
  let slotNo ← tupleIterator (fun mw (_ : Option Nat) => do
    let slotNo ← mw.getSlot key
    pure (slotNo ≠ uint32Max, some slotNo)) mw none
  match slotNo with
  | some slotNo => .ok slotNo
  | none => .error (.undefined .indeterminate)

theorem getSlot_single (mw : TMiddleWare) (key : Option Bytes) :
    getSlot [mw] key = mw.getSlot key := by
  simp only [getSlot, tupleIterator]
  cases mw.getSlot key with
  | error fault => rfl
  | ok slotNo =>
      by_cases last : slotNo = uint32Max <;> simp [last, bind, Except.bind, pure, Except.pure]

/-- A tuple of middlewares that know no slots knows no slots. -/
theorem getSlot_of_noSlot {mw : List TMiddleWare} (some : mw ≠ [])
    (noSlot : ∀ elem ∈ mw, ∀ key, elem.getSlot key = .ok uint32Max) (key : Option Bytes) :
    getSlot mw key = .ok uint32Max := by
  have visited : ∀ tuple : List TMiddleWare,
      (∀ elem ∈ tuple, ∀ key, elem.getSlot key = .ok uint32Max) → ∀ slotNo : Option Nat,
        tupleIterator (fun mw (_ : Option Nat) => do
          let slotNo ← mw.getSlot key
          pure (decide (slotNo ≠ uint32Max), Option.some slotNo)) tuple slotNo =
            (.ok (if tuple = [] then slotNo else Option.some uint32Max) : Except Fault _) := by
    intro tuple noSlot
    induction tuple with
    | nil => exact fun _ => rfl
    | cons elem tuple ih =>
        obtain ⟨first, others⟩ := List.forall_mem_cons.mp noSlot
        intro slotNo
        rw [tupleIterator, first key]
        refine (ih others (Option.some uint32Max)).trans ?_
        simp
  rw [getSlot, visited mw noSlot none, if_neg some]
  rfl

end MCRedis.MiddleWare
