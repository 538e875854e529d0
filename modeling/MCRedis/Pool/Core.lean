import MCRedis.Container.OrderedMap
import MCRedis.MiddleWare.Core
import Mathlib.Data.Nat.Basic

/-!
# The connection pool

`CConnectionPool` files idle connections under the end of their slot range and
looks them up by the lower bound of the requested slot.  A connection travels
in a `unique_ptr` with a `std::function` deleter: through the idle lists, and
through the handles (`CConnectionRAII`) given to clients.
-/

namespace MCRedis.Pool

open MCRedis.Client
open MCRedis.Container
open MCRedis.MiddleWare
open MCRedis.Transition

/-- The deleter of a `conn_ptr_t`: an empty `std::function`, or the one that
deletes the connection. -/
inductive Deleter
  | empty
  | deletes
  deriving DecidableEq, Repr

/-- A `conn_ptr_t` that is not null. -/
structure ConnPtr where
  conn : CConnection
  deleter : Deleter

/-- `~unique_ptr` invokes the deleter.  An empty `std::function` throws, and the
exception leaves the destructor. -/
def ConnPtr.dispose (ptr : ConnPtr) : Except Fault Unit :=
  match ptr.deleter with
  | .empty => .error .terminate
  | .deletes => .ok ()

/-- `pool_`: the idle connections, by the end of their slot range. -/
abbrev PoolMap := OrderedMap Nat (List ConnPtr)

/-- A handle; a null `connPtr_` is `none`. -/
structure CConnectionRAII where
  connPtr : Option ConnPtr

/-- `pool_[std::get<1>(connPtr->getSlotRange())].push_front(std::move(connPtr))`. -/
def pushFront (pool : PoolMap) (ptr : ConnPtr) : PoolMap :=
  let key := ptr.conn.slotRange.2
  pool.insert key (ptr :: (pool.find? key).getD [])

/-- The connections of all idle lists. -/
def idle (pool : PoolMap) : List ConnPtr :=
  pool.entries.flatMap Prod.snd

namespace CConnectionRAII

/-- `~CConnectionRAII`: the pool, and the pointers whose deleter is invoked. -/
def destroy (handle : CConnectionRAII) (pool : PoolMap) : Except Fault (PoolMap × List ConnPtr) :=
  match handle.connPtr with
  | none => .ok (pool, [])
  | some ptr => do
      let errorNo ← ptr.conn.errorNo
      if errorNo = 0 then .ok (pushFront pool ptr, []) else .ok (pool, [ptr])

/-- How `~CConnectionRAII` leaves, whatever the pool holds: it returns once the
deleters that it invokes have. -/
def destructor (handle : CConnectionRAII) : Except Fault Unit := do
  let (_, discarded) ← handle.destroy .empty
  discarded.forM ConnPtr.dispose

end CConnectionRAII

namespace CConnectionPool

/-- `_get`: the front of the list found by the lower bound, or else a
connection opened by the middlewares, whose pointer gets no deleter. -/
def _get (mw : List TMiddleWare) (pool : PoolMap) (slot : Nat) :
    MwProgram (CConnectionRAII × PoolMap) :=
  match pool.lowerBound slot with
  | some (key, front :: rest) => pure (⟨some front⟩, pool.insert key rest)
  | _ => do
      let conn ← getConnection mw slot
      match conn with
      | none => pure (⟨none⟩, pool)
      | some conn => pure (⟨some ⟨conn, .empty⟩⟩, pool)

/-- `get(key, keyLen)`; `get()` passes a null key. -/
def get (mw : List TMiddleWare) (pool : PoolMap) (key : Option Bytes) :
    MwProgram (CConnectionRAII × PoolMap) := do
  let slot ← Program.ofExcept (getSlot mw key)
  _get mw pool slot

/-- The pointer that `create` makes of a connection. -/
def created (conn : CConnection) : ConnPtr :=
  ⟨conn, .deletes⟩

/-- `clear`: every list is emptied, its entry stays. -/
def clear (pool : PoolMap) : PoolMap :=
  pool.mapValues fun _ => []

end CConnectionPool

end MCRedis.Pool
