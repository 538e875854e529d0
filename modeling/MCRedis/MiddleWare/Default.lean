import MCRedis.MiddleWare.Core

/-!
# The middleware for a single server
-/

namespace MCRedis.MiddleWare

open MCRedis.Client
open MCRedis.Transition

/-- `CDefaultMiddleWare`; of the callback only its presence is kept, its effect
is an answer of the environment. -/
structure CDefaultMiddleWare where
  hostName : Bytes
  port : Nat
  hasCallback : Bool
  timeoutSec : Nat

namespace CDefaultMiddleWare

/-- The slot is not used. -/
def getConnection (mw : CDefaultMiddleWare) (_slot : Nat) : MwProgram (Option CConnection) := do
  let p ← newConnection
  let (connected, p) ← MwProgram.redis (p.connect mw.hostName mw.port mw.timeoutSec)
  if connected then
    if mw.hasCallback then do
      let p ← connectionCallback p
      pure (some p)
    else
      pure (some p)
  else do
    deleteConnection p
    pure none

/-- The loop of `create`, with `num` iterations left. -/
def createAll (mw : CDefaultMiddleWare) : Nat → List CConnection → MwProgram (List CConnection)
  | 0, lstConn => pure lstConn
  | num + 1, lstConn => do
      let p ← mw.getConnection 0
      match p with
      | none => createAll mw num lstConn
      | some p => createAll mw num (lstConn ++ [p])

theorem createAll_eq (mw : CDefaultMiddleWare) (num : Nat) (lstConn : List CConnection) :
    mw.createAll num lstConn = createWith (mw.getConnection 0) num lstConn := by
  induction num generalizing lstConn with
  | zero => rfl
  | succ num ih =>
      rw [createAll, createWith]
      congr 1
      funext p
      cases p with
      | none => exact ih lstConn
      | some p => exact ih (lstConn ++ [p])

def create (mw : CDefaultMiddleWare) (num : Nat) : MwProgram (List CConnection) := do
  reserve num
  mw.createAll num []

def getSlot (_mw : CDefaultMiddleWare) (_key : Option Bytes) : Except Fault Nat :=
  .ok uint32Max

/-- What a pool uses of it. -/
def toTMiddleWare (mw : CDefaultMiddleWare) : TMiddleWare where
  create := mw.create
  getConnection := mw.getConnection
  getSlot := mw.getSlot

end CDefaultMiddleWare

end MCRedis.MiddleWare
