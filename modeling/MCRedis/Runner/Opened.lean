import MCRedis.MiddleWare.Cluster
import MCRedis.MiddleWare.Opening
import MCRedis.Runner.Sync

/-!
# Opened connections

A connection that a middleware has just opened owes no reply.  The user's
connection callback is the only other code that uses it before the pool does;
it is assumed to read the replies to what it sends.
-/

namespace MCRedis.Runner

open MCRedis.Client
open MCRedis.MiddleWare
open MCRedis.Transition

/-- A connection callback that is given a connection which owes nothing leaves
it so. -/
def OpeningLaw (event : Event MwOp MwAns) : Prop :=
  ∀ conn (answer : CConnection), event = ⟨.connectionCallback conn, answer⟩ →
    Owes conn 0 → Owes answer 0

/-- Every connection that the middleware opens owes nothing. -/
structure OpensSettled (mw : TMiddleWare) : Prop where
  create : ∀ defaultNum, Returns OpeningLaw
    (fun lstConnection => ∀ conn ∈ lstConnection, Owes conn 0) (mw.create defaultNum)
  getConnection : ∀ slotNo, Returns OpeningLaw
    (fun opened => ∀ conn, opened = some conn → Owes conn 0) (mw.getConnection slotNo)

theorem returns_connect (conn : CConnection) (host : Bytes) (port timeoutSec : Nat) :
    Returns OpeningLaw (fun result => Owes result.2 0)
      (MwProgram.redis (conn.connect host port timeoutSec)) := by
  have established : ∀ (conn : CConnection) (c : RedisContext),
      c.sent = [] → c.received = [] → Owes (conn.setContext c) 0 := by
    rintro conn c sent received _ ⟨⟩ _
    rw [sent, received]
    rfl
  apply Returns.request
  intro answer _
  cases answer with
  | noContext => exact .fail _
  | refused => exact .pure nofun
  | connected =>
      by_cases limited : timeoutSec ≠ 0
      · simp only [Program.bind_pure_left, if_pos limited]
        apply Returns.request
        intro error _
        cases error with
        | none => exact .pure (established _ _ rfl rfl)
        | some error => exact .pure (established _ _ rfl rfl)
      · simp only [Program.bind_pure_left, if_neg limited]
        exact .pure (established _ _ rfl rfl)

/-! ## The tuple -/

theorem returns_preCreate {mw : List TMiddleWare} (opens : ∀ elem ∈ mw, OpensSettled elem)
    (defaultNum : Nat) :
    Returns OpeningLaw (fun lstConnection => ∀ conn ∈ lstConnection, Owes conn 0)
      (preCreate mw defaultNum) := by
  apply returns_tupleIterator nofun
  intro elem mem _ _
  exact Returns.bind ((opens elem mem).create defaultNum) fun _ owes => .pure owes

theorem returns_getConnection {mw : List TMiddleWare} (opens : ∀ elem ∈ mw, OpensSettled elem)
    (slotNo : Nat) :
    Returns OpeningLaw (fun opened => ∀ conn, opened = some conn → Owes conn 0)
      (getConnection mw slotNo) := by
  apply returns_tupleIterator nofun
  intro elem mem _ _
  exact Returns.bind ((opens elem mem).getConnection slotNo) fun _ owes => .pure owes

/-! ## The middlewares -/

theorem opening_settled : Opening OpeningLaw fun conn => Owes conn 0 where
  connect := fun id => returns_connect (CConnection.create id)
  callback := fun conn called lawful owes => lawful conn called rfl owes

theorem opensSettled_slotless {mw : TMiddleWare} (slotless : Slotless mw) : OpensSettled mw where
  create := slotless.returns_create opening_settled
  getConnection := slotless.returns_getConnection opening_settled

theorem opensSettled_default (mw : CDefaultMiddleWare) : OpensSettled mw.toTMiddleWare :=
  opensSettled_slotless (.server mw)

theorem opensSettled_sentinel (mw : CSentinelSupport) : OpensSettled mw.toTMiddleWare :=
  opensSettled_slotless (.sentinels mw)

theorem returns_cluster_connectNode (mw : CClusterSupport) (node : Node) :
    Returns OpeningLaw (fun result => Owes result.2 0) (mw.connectNode node) := by
  apply Returns.bind_any
  intro conn
  apply Returns.bind (returns_connect conn _ _ _)
  rintro ⟨connected, conn⟩ owes
  cases connected with
  | true => exact .pure owes
  | false => exact .pure owes

theorem opensSettled_cluster (mw : CClusterSupport) (charSigned : Bool) :
    OpensSettled (mw.toTMiddleWare charSigned) := by
  have nodes : Returns OpeningLaw (fun lstNode => ∀ node ∈ lstNode, True) mw._getNodes :=
    (Returns.any mw._getNodes).mono fun _ _ _ _ => trivial
  have connects : ∀ node, Returns OpeningLaw (fun result => result.1 = true → Owes result.2 0)
      (mw.connectNode node) := fun node =>
    (returns_cluster_connectNode mw node).mono fun _ owes _ => owes
  constructor
  · exact CClusterSupport.returns_create nodes fun node _ => connects node
  · exact fun slot => CClusterSupport.returns_getConnection nodes fun node _ _ => connects node

end MCRedis.Runner
