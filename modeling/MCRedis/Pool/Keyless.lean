import MCRedis.Pool.Reuse

/-!
# Requests without a key

A command without a key belongs to no slot.  The middlewares without slots file
their connections where such a request finds them; a pool over a cluster has no
entry and no node for it.
-/

namespace MCRedis.Pool

open MCRedis.Client
open MCRedis.Container
open MCRedis.MiddleWare
open MCRedis.Transition

/-- A get returns a handle whose connection has a context. -/
def Yields (result : Except Fault (CConnectionRAII × PoolMap)) : Prop :=
  ∃ ptr pool, result = .ok (⟨some ptr⟩, pool) ∧ ptr.conn.isValid = true

/-- A slot beyond the topology is not found among the idle lists. -/
theorem Keyed.missed {topology : Topology} {pool : PoolMap} (keyed : Keyed topology pool)
    {slot : Nat} (beyond : 16384 ≤ slot) : hit pool slot = none := by
  cases found : hit pool slot with
  | none => rfl
  | some entry =>
      obtain ⟨key, front, rest⟩ := entry
      obtain ⟨stored, above, _⟩ := OrderedMap.lowerBound_eq_some_iff.mp (lowerBound_of_hit found)
      obtain ⟨range, mem, endEq⟩ := keyed _ stored
      have bounded := topology.bounded range mem
      rw [endEq] at bounded
      exact absurd (beyond.trans above) (Nat.not_le.mpr bounded)

/-- The cluster has no node for a slot beyond its topology. -/
theorem not_opened_beyond {topology : Topology} {mw : CClusterSupport} {slot : Nat}
    {trace : List (Event MwOp MwAns)} {conn : CConnection} (beyond : 16384 ≤ slot)
    (lawful : ∀ event ∈ trace, topology.Law event) :
    ¬ Exec (mw.getConnection slot) trace (.ok (some conn)) := by
  intro exec
  obtain ⟨mem, inside⟩ := (CClusterSupport.returns_getConnection_inRange topology mw slot).exec
    exec lawful conn rfl
  have bounded := topology.bounded conn.slotRange mem
  exact absurd (beyond.trans inside.2) (Nat.not_le.mpr bounded)

/-- A command with fewer than two arguments has no key. -/
theorem getKey_of_short {texts : List Bytes} (short : texts.length < 2) :
    (CCommand.ofTexts texts).getKey = .ok none := by
  rw [(CCommand.wellFormed_ofTexts texts).getKey_eq]
  exact congrArg Except.ok (List.getElem?_eq_none (Nat.le_of_lt_succ short))

/-- In every state of a pool over a cluster, a get without a key yields no
connection, whatever the servers of the cluster answer; nor does the get for a
command with fewer than two arguments. -/
theorem keyless_yields_nothing {topology : Topology} {mw : CClusterSupport} {charSigned : Bool}
    {visits : List (Visit PoolState PoolAction)} {s : PoolState}
    (run : Run (PoolStep topology.Law [mw.toTMiddleWare charSigned]) .init visits s)
    (unchanged : ∀ visit ∈ visits, ∀ handle rBegin rEnd,
      visit.label ≠ .setSlotRange handle rBegin rEnd)
    {key : Option Bytes}
    (keyless : key = none ∨ ∃ texts : List Bytes, texts.length < 2 ∧
      (CCommand.ofTexts texts).getKey = .ok key)
    {trace : List (Event MwOp MwAns)} {result : Except Fault (CConnectionRAII × PoolMap)}
    (exec : Exec (CConnectionPool.get [mw.toTMiddleWare charSigned] s.pool key) trace result)
    (lawful : ∀ event ∈ trace, topology.Law event) : ¬ Yields result := by
  have keyEq : key = none := by
    rcases keyless with none | ⟨texts, short, keyEq⟩
    · exact none
    · exact (Except.ok.inj ((getKey_of_short short).symm.trans keyEq)).symm
  have inv := (run.invariant (ReuseInv topology) (ReuseInv.init topology)
    fun visit mem step inv => inv.step step.2 (unchanged visit mem)).1
  have beyond : 16384 ≤ uint32Max := by decide
  subst keyEq
  rw [CConnectionPool.get, getSlot_single] at exec
  change Exec (CConnectionPool._get [mw.toTMiddleWare charSigned] s.pool uint32Max) trace result
    at exec
  rintro ⟨ptr, pool, rfl, _⟩
  rcases exec_get exec with ⟨_, _, _, found, _⟩ | ⟨_, _, conn, asking, handleEq⟩
  · rw [inv.keyed.missed beyond] at found
    contradiction
  · rw [getConnection_single] at asking
    cases conn with
    | none => cases handleEq
    | some conn => exact not_opened_beyond beyond lawful asking

/-- After a get with a key, a request without one asks the cluster. -/
theorem keyless_after_keyed : ∃ visits s trace result,
    Run (PoolStep twoNodes.Law twoNodesTuple) .init visits s ∧
      Exec (CConnectionPool.get twoNodesTuple s.pool none) trace result ∧ ¬ Yields result := by
  have slotEq : CClusterSupport.getSlot true (some [0x31]) = .ok 9842 := rfl
  obtain ⟨_, run⟩ := run_partial_create slotEq (by decide)
  have exec := Program.exec_run (clusterServer 0)
    (CConnectionPool.get twoNodesTuple (afterKeyedGet 9842).pool none) 0
  have lawful := Program.run_trace_forall (clusterServer_lawful 0)
    (CConnectionPool.get twoNodesTuple (afterKeyedGet 9842).pool none) 0
  exact ⟨_, _, _, _, run, exec,
    keyless_yields_nothing run (unchanged_partialVisits _ _ _) (.inl rfl) exec lawful⟩

/-! ## A healthy cluster -/

/-- The connection to the first node. -/
def lowerConnection (id : Nat) : CConnection :=
  { CConnection.create id with
    slotRange := (0, 8191)
    contextPtr := some .opened
    host := [0x61]
    port := 7001 }

/-- Both nodes have accepted a connection. -/
def afterHealthyCreate : PoolState :=
  { PoolState.init with
    creating := PoolState.init.creating.insert 0 [lowerConnection 1, upperConnection 2]
    given := [lowerConnection 1, upperConnection 2].map CConnection.id ++ PoolState.init.given }

def afterLowerPush : PoolState :=
  { afterHealthyCreate with
    creating := afterHealthyCreate.creating.insert 0 [upperConnection 2]
    pool := pushFront afterHealthyCreate.pool (CConnectionPool.created (lowerConnection 1)) }

def afterUpperPush : PoolState :=
  { afterLowerPush with
    creating := afterLowerPush.creating.insert 0 []
    pool := pushFront afterLowerPush.pool (CConnectionPool.created (upperConnection 2)) }

/-- Both nodes have an idle connection; a get with a key yields the one of the key,
and a get without a key finds none and opens none. -/
theorem keyless_null_on_healthy_cluster : twoNodes.Covers ∧
    (∃ visits, Run (PoolStep twoNodes.Law twoNodesTuple) .init visits afterUpperPush) ∧
    (∃ trace result, Exec (CConnectionPool.get twoNodesTuple afterUpperPush.pool (some [0x31]))
      trace result ∧ Yields result) ∧
    ∃ trace, (∀ event ∈ trace, twoNodes.Law event) ∧
      Exec (CConnectionPool.get twoNodesTuple afterUpperPush.pool none) trace
        (.ok (⟨none⟩, afterUpperPush.pool)) := by
  have created : PoolStep twoNodes.Law twoNodesTuple .init (.create 0 1 _) afterHealthyCreate :=
    ⟨rfl, .create (Program.exec_run (clusterServer 0) (preCreate twoNodesTuple 1) 0)
      (Program.run_trace_forall (clusterServer_lawful 0) _ _) (by decide) rfl⟩
  have lower : PoolStep twoNodes.Law twoNodesTuple afterHealthyCreate (.push 0) afterLowerPush :=
    ⟨rfl, .push rfl⟩
  have upper : PoolStep twoNodes.Law twoNodesTuple afterLowerPush (.push 0) afterUpperPush :=
    ⟨rfl, .push rfl⟩
  have keyed := Program.exec_run (clusterServer 0)
    (CConnectionPool.get twoNodesTuple afterUpperPush.pool (some [0x31])) 0
  have keyless := Program.exec_run (clusterServer 0)
    (CConnectionPool.get twoNodesTuple afterUpperPush.pool none) 0
  refine ⟨covers_twoNodes, ⟨_, .cons created (.cons lower (.single upper))⟩,
    ⟨_, _, keyed, CConnectionPool.created (upperConnection 2), _, rfl, rfl⟩, _, ?_, keyless⟩
  exact Program.run_trace_forall (clusterServer_lawful 0) _ _

end MCRedis.Pool
