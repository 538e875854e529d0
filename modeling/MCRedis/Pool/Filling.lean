import MCRedis.MiddleWare.Opening
import MCRedis.Pool.Deprecated

/-!
# Filling the pools

`create` of the two pools, as a call that no other thread interrupts.  The keyed
pool takes a list of connections from its middlewares, and leaves out those that
were not opened; the deprecated pool opens them one by one and stops at the first
that is not opened.
-/

namespace MCRedis.Pool

open MCRedis.Client
open MCRedis.Container
open MCRedis.MiddleWare
open MCRedis.Transition

/-- The loop of `create` that files the connections. -/
def pushAll (pool : PoolMap) (lstConnection : List CConnection) : PoolMap :=
  lstConnection.foldl (fun pool conn => pushFront pool (CConnectionPool.created conn)) pool

/-- `create`. -/
def CConnectionPool.create (mw : List TMiddleWare) (defaultNum : Nat) (pool : PoolMap) :
    MwProgram (Bool × PoolMap) := do
  let lstConnection ← preCreate mw defaultNum
  if lstConnection.isEmpty then pure (false, pool) else pure (true, pushAll pool lstConnection)

/-- `create` of the deprecated pool, with `defaultNum` iterations left. -/
def Deprecated.create (mw : List TMiddleWare) :
    Nat → List CConnection → MwProgram (Bool × List CConnection)
  | 0, pool => pure (true, pool)
  | defaultNum + 1, pool => do
      let connPtr ← Deprecated._getConnection mw
      match connPtr with
      | none => pure (false, pool)
      | some conn => Deprecated.create mw defaultNum (conn :: pool)

/-- A callback that leaves the slot range as it is. -/
def KeepsRange : Event MwOp MwAns → Prop
  | ⟨.connectionCallback conn, called⟩ => called.slotRange = conn.slotRange
  | _ => True

section

variable {getConnection : MwProgram (Option CConnection)}

end

theorem SameIdle.pushAll {pool : PoolMap} {flat made : List CConnection}
    (same : SameIdle pool flat) (default : ∀ conn ∈ made, DefaultRange conn) :
    SameIdle (Pool.pushAll pool made) (made.reverse ++ flat) := by
  induction made generalizing pool flat with
  | nil => exact same
  | cons conn made ih =>
      obtain ⟨first, others⟩ := List.forall_mem_cons.mp default
      have pushed : SameIdle (Pool.pushFront pool (CConnectionPool.created conn)) (conn :: flat) :=
        same.pushFront first
      rw [List.reverse_cons, List.append_assoc]
      exact ih pushed others

end MCRedis.Pool
