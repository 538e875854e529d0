import MCRedis.MiddleWare.Core
import MCRedis.MiddleWare.Slot

/-!
# The middleware for a cluster

`CClusterSupport` asks one of its hosts for the slot ranges of the cluster
every time it opens connections, and gives each connection the range of the
node it leads to.

What holds of the connections it gives follows from what holds of the listed
nodes and of a connection to such a node; the last section says so once for
`create` and `getConnection`.
-/

namespace MCRedis.MiddleWare

open MCRedis.Client
open MCRedis.Transition

structure CClusterSupport where
  lstHost : List (Bytes × Nat)
  timeoutSec : Nat

/-- An entry of the list that `_getNodes` returns. -/
structure Node where
  beginSlotRange : Nat
  endSlotRange : Nat
  masterIp : Bytes
  masterPort : Nat

/-! ## The status text -/

/-- The lines that `std::getline` extracts: a final part without characters is
not a line. -/
def lines : Bytes → List Bytes
  | [] => []
  | c :: text =>
      if c = 0x0a then [] :: lines text
      else
        match lines text with
        | [] => [[c]]
        | line :: rest => (c :: line) :: rest

/-- The entry of one line; the last character of the line is not part of the
value. -/
def statusEntry : Bytes → Option (Bytes × Bytes)
  | [] => none
  | first :: rest =>
      if first = 0x23 ∨ first = 0x0d then none
      else
        let line := first :: rest
        let pos := (line.takeWhile (· ≠ 0x3a)).length
        if pos = line.length then none
        else some (line.take pos, (line.drop (pos + 1)).dropLast)

/-- `fnToStatusMap`.  An insertion does not replace an entry, so the first one
of a name is the one to look up. -/
def fnToStatusMap (str : Bytes) : List (Bytes × Bytes) :=
  (lines str).filterMap statusEntry

def isSpace (c : UInt8) : Bool :=
  c = 0x20 ∨ (0x09 ≤ c ∧ c ≤ 0x0d)

def isDigit (c : UInt8) : Bool :=
  0x30 ≤ c ∧ c ≤ 0x39

/-- The optional sign: whether it is a minus, and the text behind it. -/
def takeSign : Bytes → Bool × Bytes
  | [] => (false, [])
  | c :: text =>
      if c = 0x2d then (true, text) else if c = 0x2b then (false, text) else (false, c :: text)

/-- `std::stoull`: without digits and beyond the range it throws; a minus sign
negates in the unsigned type. -/
def stoull (str : Bytes) : Except Fault Nat :=
  let (negative, text) := takeSign (str.dropWhile isSpace)
  let digits := text.takeWhile isDigit
  let value := digits.foldl (fun value c => value * 10 + (c.toNat - 0x30)) 0
  if digits = [] ∨ uint64Size ≤ value then .error .terminate
  else if negative then .ok ((uint64Size - value) % uint64Size)
  else .ok value

/-! ## The slot listing -/

/-- `getReplies().at(index)`. -/
def replyAt (rpy : CReply) (index : Nat) : Except Fault CReply :=
  match rpy.getReplies[index]? with
  | some sub => .ok sub
  | none => .error .terminate

/-- The conversion of an `int64_t` to an unsigned type with `size` values. -/
def toUnsigned (size : Nat) (value : Int) : Nat :=
  (value % size).toNat

/-- The node of one entry of the listing. -/
def nodeOf (nodes : CReply) : Except Fault Node := do
  let beginSlot ← replyAt nodes 0
  let endSlot ← replyAt nodes 1
  let master ← replyAt nodes 2
  let ip ← replyAt master 0
  let port ← replyAt master 1
  return {
    beginSlotRange := toUnsigned (uint32Max + 1) beginSlot.getInteger
    endSlotRange := toUnsigned (uint32Max + 1) endSlot.getInteger
    masterIp := ip.getStr
    masterPort := toUnsigned 65536 port.getInteger
  }

/-- `CLUSTER info`. -/
def clusterInfo : CCommand :=
  .ofTexts [literal "CLUSTER", literal "info"]

/-- `CLUSTER slots`. -/
def clusterSlots : CCommand :=
  .ofTexts [literal "CLUSTER", literal "slots"]

namespace CClusterSupport

/-- A connection to the first host that accepts one.  The object made for a host
that does not is left behind. -/
def connectAny (timeoutSec : Nat) : List (Bytes × Nat) → MwProgram (Option CConnection)
  | [] => pure none
  | (host, port) :: rest => do
      let connection ← newConnection
      let (connected, connection) ← MwProgram.redis (connection.connect host port timeoutSec)
      if connected then pure (some connection) else connectAny timeoutSec rest

/-- The number of known nodes is only reserved for. -/
def reserveNodes (infoStatus : List (Bytes × Bytes)) : MwProgram Unit :=
  match infoStatus.lookup (literal "cluster_known_nodes") with
  | none => pure ()
  | some value => do
      let number ← Program.ofExcept (stoull value)
      reserve number

/-- `_getNodes`; the connection is deleted on every way out. -/
def _getNodes (mw : CClusterSupport) : MwProgram (List Node) := do
  let conn ← connectAny mw.timeoutSec mw.lstHost
  match conn with
  | none => pure []
  | some conn => do
      let (rpy, conn) ← MwProgram.redis (conn.sendCommand clusterInfo)
      let infoStatus := fnToStatusMap rpy.getStr
      if rpy.getType ≠ .STRING ∨
          infoStatus.lookup (literal "cluster_state") ≠ some (literal "ok") then do
        deleteConnection conn
        pure []
      else do
        reserveNodes infoStatus
        let (rpy, conn) ← MwProgram.redis (conn.sendCommand clusterSlots)
        let lstNode ← Program.ofExcept (rpy.getReplies.mapM nodeOf)
        deleteConnection conn
        pure lstNode

/-- A connection to a node; without one the object is left to the caller. -/
def connectNode (mw : CClusterSupport) (node : Node) : MwProgram (Bool × CConnection) := do
  let newConnection ← newConnection
  let (connected, newConnection) ←
    MwProgram.redis (newConnection.connect node.masterIp node.masterPort mw.timeoutSec)
  if connected then
    pure (true, newConnection.setSlotRange node.beginSlotRange node.endSlotRange)
  else
    pure (false, newConnection)

/-- The inner loop of `create`, with `num` iterations left; what could not be
connected is left behind. -/
def createNode (mw : CClusterSupport) (node : Node) :
    Nat → List CConnection → MwProgram (List CConnection)
  | 0, lstConn => pure lstConn
  | num + 1, lstConn => do
      let (connected, newConnection) ← mw.connectNode node
      if connected then createNode mw node num (lstConn ++ [newConnection])
      else createNode mw node num lstConn

/-- The outer loop of `create`. -/
def createNodes (mw : CClusterSupport) (num : Nat) :
    List Node → List CConnection → MwProgram (List CConnection)
  | [], lstConn => pure lstConn
  | node :: lstNode, lstConn => do
      let lstConn ← mw.createNode node num lstConn
      createNodes mw num lstNode lstConn

def create (mw : CClusterSupport) (num : Nat) : MwProgram (List CConnection) := do
  let lstNode ← mw._getNodes
  reserve (num * lstNode.length % uint64Size)
  mw.createNodes num lstNode []

/-- The first node whose range contains the slot is the one to connect to. -/
def getConnection (mw : CClusterSupport) (slot : Nat) : MwProgram (Option CConnection) := do
  let lstNode ← mw._getNodes
  match lstNode.find? fun node => slot ≥ node.beginSlotRange ∧ slot ≤ node.endSlotRange with
  | none => pure none
  | some node => do
      let (connected, newConnection) ← mw.connectNode node
      if connected then pure (some newConnection)
      else do
        deleteConnection newConnection
        pure none

/-- What a pool uses of it. -/
def toTMiddleWare (mw : CClusterSupport) (charSigned : Bool) : TMiddleWare where
  create := mw.create
  getConnection := mw.getConnection
  getSlot := getSlot charSigned

/-! ## What the connections have in common -/

section Returns

variable {law : Event MwOp MwAns → Prop} {P : CConnection → Prop} {mw : CClusterSupport}

theorem returns_createNode {node : Node}
    (connects : Returns law (fun result => result.1 = true → P result.2) (mw.connectNode node))
    (num : Nat) {lstConn : List CConnection} (all : ∀ conn ∈ lstConn, P conn) :
    Returns law (fun lstConn => ∀ conn ∈ lstConn, P conn) (mw.createNode node num lstConn) := by
  induction num generalizing lstConn with
  | zero => exact .pure all
  | succ num ih =>
      apply Returns.bind connects
      rintro ⟨connected, newConnection⟩ holds
      cases connected with
      | false => exact ih all
      | true =>
          apply ih
          intro conn mem
          rcases List.mem_append.mp mem with old | new
          · exact all conn old
          · rw [List.mem_singleton.mp new]
            exact holds rfl

theorem returns_createNodes (num : Nat) {lstNode : List Node}
    (connects : ∀ node ∈ lstNode,
      Returns law (fun result => result.1 = true → P result.2) (mw.connectNode node))
    {lstConn : List CConnection} (all : ∀ conn ∈ lstConn, P conn) :
    Returns law (fun lstConn => ∀ conn ∈ lstConn, P conn)
      (mw.createNodes num lstNode lstConn) := by
  induction lstNode generalizing lstConn with
  | nil => exact .pure all
  | cons node lstNode ih =>
      obtain ⟨first, others⟩ := List.forall_mem_cons.mp connects
      apply Returns.bind (returns_createNode first num all)
      intro lstConn all
      exact ih others all

variable {Q : Node → Prop}

theorem returns_create
    (nodes : Returns law (fun lstNode => ∀ node ∈ lstNode, Q node) mw._getNodes)
    (connects : ∀ node, Q node →
      Returns law (fun result => result.1 = true → P result.2) (mw.connectNode node))
    (num : Nat) :
    Returns law (fun lstConn => ∀ conn ∈ lstConn, P conn) (mw.create num) := by
  apply Returns.bind nodes
  intro lstNode listed
  apply Returns.bind_any
  intro _
  exact returns_createNodes num (fun node mem => connects node (listed node mem)) nofun

theorem returns_getConnection {slot : Nat}
    (nodes : Returns law (fun lstNode => ∀ node ∈ lstNode, Q node) mw._getNodes)
    (connects : ∀ node, Q node → slot ≥ node.beginSlotRange ∧ slot ≤ node.endSlotRange →
      Returns law (fun result => result.1 = true → P result.2) (mw.connectNode node)) :
    Returns law (fun opened => ∀ conn, opened = some conn → P conn) (mw.getConnection slot) := by
  apply Returns.bind nodes
  intro lstNode listed
  split
  · exact .pure nofun
  · rename_i node found
    have contains := List.find?_some found
    rw [decide_eq_true_iff] at contains
    apply Returns.bind (connects node (listed node (List.mem_of_find?_eq_some found)) contains)
    rintro ⟨connected, newConnection⟩ holds
    cases connected with
    | false => exact .bind_any fun _ => .pure nofun
    | true =>
        apply Returns.pure
        rintro _ ⟨⟩
        exact holds rfl

end Returns

end CClusterSupport

end MCRedis.MiddleWare
