import MCRedis.MiddleWare.Cluster

/-!
# The middleware for sentinels

`CSentinelSupport` asks one of its sentinels for the address of the master, or
for those of the slaves, every time it opens a connection.  The lists of fields
that describe the slaves are read at fixed positions.
-/

namespace MCRedis.MiddleWare

open MCRedis.Client
open MCRedis.Transition

inductive ERole
  | MASTER
  | SLAVE
  deriving DecidableEq, Repr

structure CSentinelSupport where
  lstSentinel : List (Bytes × Nat)
  masterName : Bytes
  role : ERole
  hasCallback : Bool
  timeoutSec : Nat

/-- `std::stoul`, where `unsigned long` has 64 bits. -/
def stoul (str : Bytes) : Except Fault Nat :=
  stoull str

/-- `vector.at(index)`. -/
def vectorAt {α : Type} (vector : List α) (index : Nat) : Except Fault α :=
  match vector[index]? with
  | some elem => .ok elem
  | none => .error .terminate

/-- The address of the master. -/
def masterOf (rpy : CReply) : Except Fault (Bytes × Nat) := do
  let ip ← replyAt rpy 0
  let portText ← replyAt rpy 1
  let port ← stoul portText.getStr
  return (ip.getStr, port % 65536)

/-- The value of the fields `flags` and `role-reported` that is asked for. -/
def slaveText : Bytes :=
  literal "slave"

/-- The body of the loop over the slaves: the address that is pushed. -/
def slaveOf (sub : CReply) : Except Fault (Option (Bytes × Nat)) := do
  let ip ← replyAt sub 3
  let portText ← replyAt sub 5
  let port ← stoul portText.getStr
  let flag ← replyAt sub 9
  if flag.getStr ≠ slaveText then
    return none
  else
    let roleReported ← replyAt sub 23
    if roleReported.getStr ≠ slaveText then
      return none
    else
      return some (ip.getStr, port % 65536)

/-- The vector `slaves` after the loop. -/
def slavesOf (rpy : CReply) : Except Fault (List (Bytes × Nat)) :=
  return (← rpy.getReplies.mapM slaveOf).reduceOption

namespace CSentinelSupport

/-- `SENTINEL get-master-addr-by-name`. -/
def masterCommand (mw : CSentinelSupport) : CCommand :=
  .ofTexts [literal "SENTINEL", literal "get-master-addr-by-name", mw.masterName]

/-- `SENTINEL slaves`. -/
def slavesCommand (mw : CSentinelSupport) : CCommand :=
  .ofTexts [literal "SENTINEL", literal "slaves", mw.masterName]

/-- A connection to the first sentinel that accepts one. -/
def connectSentinel (timeoutSec : Nat) : List (Bytes × Nat) → MwProgram (Option CConnection)
  | [] => pure none
  | (host, port) :: rest => do
      let sentinel ← newConnection
      let (connected, sentinel) ← MwProgram.redis (sentinel.connect host port timeoutSec)
      if connected then pure (some sentinel)
      else do
        deleteConnection sentinel
        connectSentinel timeoutSec rest

/-- A new connection, deleted again when it is not accepted; the address is
evaluated behind `new`. -/
def openConnection (target : Except Fault (Bytes × Nat)) (timeoutSec : Nat) :
    MwProgram (Option CConnection) := do
  let newConnection ← newConnection
  let (host, port) ← Program.ofExcept target
  let (connected, newConnection) ← MwProgram.redis (newConnection.connect host port timeoutSec)
  if connected then pure (some newConnection)
  else do
    deleteConnection newConnection
    pure none

/-- The branch of the role `MASTER`; the connect has no timeout. -/
def openMaster (mw : CSentinelSupport) (sentinel : CConnection) :
    MwProgram (Option CConnection × CConnection) := do
  let (rpy, sentinel) ← MwProgram.redis (sentinel.sendCommand mw.masterCommand)
  if rpy.getType ≠ .ARRAY ∨ rpy.getReplies.length < 2 then
    pure (none, sentinel)
  else do
    let newConnection ← openConnection (masterOf rpy) 0
    pure (newConnection, sentinel)

/-- The branch of the role `SLAVE`. -/
def openSlave (mw : CSentinelSupport) (sentinel : CConnection) :
    MwProgram (Option CConnection × CConnection) := do
  let (rpy, sentinel) ← MwProgram.redis (sentinel.sendCommand mw.slavesCommand)
  if rpy.getType ≠ .ARRAY then
    pure (none, sentinel)
  else do
    reserve rpy.getReplies.length
    let slaves ← Program.ofExcept (slavesOf rpy)
    if slaves = [] then
      pure (none, sentinel)
    else do
      let random ← (Program.perform MwOp.rand : MwProgram Nat)
      let target ← Program.ofExcept (vectorAt slaves (random % slaves.length))
      let newConnection ← openConnection (.ok target) mw.timeoutSec
      pure (newConnection, sentinel)

def openRole (mw : CSentinelSupport) (sentinel : CConnection) :
    MwProgram (Option CConnection × CConnection) :=
  match mw.role with
  | .MASTER => mw.openMaster sentinel
  | .SLAVE => mw.openSlave sentinel

/-- The end of `getConnection`. -/
def runCallback (mw : CSentinelSupport) (conn : CConnection) : MwProgram CConnection :=
  if mw.hasCallback then connectionCallback conn else pure conn

/-- The slot is not used; the connection to the sentinel is deleted on every way
out. -/
def getConnection (mw : CSentinelSupport) (_slot : Nat) : MwProgram (Option CConnection) := do
  let sentinel ← connectSentinel mw.timeoutSec mw.lstSentinel
  match sentinel with
  | none => pure none
  | some sentinel => do
      let (newConnection, sentinel) ← mw.openRole sentinel
      match newConnection with
      | none => do
          deleteConnection sentinel
          pure none
      | some newConnection => do
          let newConnection ← mw.runCallback newConnection
          deleteConnection sentinel
          pure (some newConnection)

def create (mw : CSentinelSupport) (num : Nat) : MwProgram (List CConnection) := do
  reserve num
  createWith (mw.getConnection 0) num []

def getSlot (_mw : CSentinelSupport) (_key : Option Bytes) : Except Fault Nat :=
  .ok uint32Max

/-- What a pool uses of it. -/
def toTMiddleWare (mw : CSentinelSupport) : TMiddleWare where
  create := mw.create
  getConnection := mw.getConnection
  getSlot := mw.getSlot

end CSentinelSupport

end MCRedis.MiddleWare
