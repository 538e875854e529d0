import MCRedis.MiddleWare.Topology
import MCRedis.Pool.Pointers

/-!
# Routing by slot

A pool over a cluster files every connection under the end of the slot range
of its node, and looks for a slot by the lower bound.  The lookup does not see
where the range begins: it finds the node of the slot only if the pool has an
entry for that node, and otherwise finds the next node that has one.
-/

namespace MCRedis.Pool

open MCRedis.Client
open MCRedis.Container
open MCRedis.MiddleWare
open MCRedis.Transition

/-- The pointer leads to a node of the topology. -/
def Ranged (topology : Topology) (ptr : ConnPtr) : Prop :=
  ptr.conn.slotRange ∈ topology.ranges

/-- What holds of a pool over a cluster: every connection is in its place and
carries a range of the topology. -/
structure RoutingInv (topology : Topology) (s : PoolState) : Prop where
  owned : PoolInv s
  ranged : AllPtrs (Ranged topology) s

theorem RoutingInv.init (topology : Topology) : RoutingInv topology .init :=
  ⟨PoolInv.init, AllPtrs.init _⟩

/-- The slot ranges that clients leave alone stay those of the topology. -/
theorem keepsPtrs_ranged {topology : Topology} {mw : CClusterSupport} {charSigned : Bool}
    {visit : Visit PoolState PoolAction}
    (unchanged : ∀ handle rBegin rEnd, visit.label ≠ .setSlotRange handle rBegin rEnd) :
    KeepsPtrs topology.Law [mw.toTMiddleWare charSigned] (Ranged topology) visit where
  create := by
    intro _ defaultNum trace lstConnection _ exec lawful
    rw [preCreate_single] at exec
    exact (CClusterSupport.returns_create_ranged topology mw defaultNum).exec exec lawful
  get := by
    intro _ _ slot trace conn _ _ _ exec lawful
    rw [getConnection_single] at exec
    have given := CClusterSupport.returns_getConnection_inRange topology mw slot
    exact (given.exec exec lawful conn rfl).1
  use := by
    intro _ ptr conn _ sameRange ranged
    rw [Ranged, sameRange]
    exact ranged
  setSlotRange := fun handle rBegin rEnd _ labelEq _ =>
    absurd labelEq (unchanged handle rBegin rEnd)

theorem RoutingInv.step {topology : Topology} {mw : CClusterSupport} {charSigned : Bool}
    {visit : Visit PoolState PoolAction} (inv : RoutingInv topology visit.before)
    (step : PoolSection topology.Law [mw.toTMiddleWare charSigned] visit.before visit.label
      visit.after)
    (unchanged : ∀ handle rBegin rEnd, visit.label ≠ .setSlotRange handle rBegin rEnd) :
    RoutingInv topology visit.after :=
  ⟨inv.owned.step step, inv.ranged.step step (keepsPtrs_ranged unchanged)⟩

/-- A get with a key hands out a connection to the node of the key's slot, or
none. -/
def Routes (charSigned : Bool) (visit : Visit PoolState PoolAction) : Prop :=
  ∀ handle key answers slot ptr, visit.label = .get handle (some key) answers →
    CClusterSupport.getSlot charSigned (some key) = .ok slot →
    visit.after.handles.find? handle = some ⟨some ptr⟩ → InRange ptr.conn.slotRange slot

/-- Before a get with a key, the pool has an entry for the node of the slot, or
the lookup finds no idle connection. -/
def OwnEntry (topology : Topology) (charSigned : Bool) (visit : Visit PoolState PoolAction) :
    Prop :=
  ∀ handle key answers slot, visit.label = .get handle (some key) answers →
    CClusterSupport.getSlot charSigned (some key) = .ok slot →
    hit visit.before.pool slot = none ∨
      ∃ range ∈ topology.ranges, InRange range slot ∧
        (visit.before.pool.find? range.2).isSome = true

/-- The connection that is hit leads to a node whose range ends at its key. -/
theorem RoutingInv.front {topology : Topology} {s : PoolState} {slot key : Nat} {front : ConnPtr}
    {rest : List ConnPtr} (inv : RoutingInv topology s)
    (found : hit s.pool slot = some (key, front, rest)) :
    Ranged topology front ∧ front.conn.slotRange.2 = key := by
  have stored := OrderedMap.find?_eq_some_iff.mp (find?_of_hit found)
  constructor
  · exact (forall_idle_of_hit found inv.ranged.idle).1
  · exact inv.owned.filed _ stored front List.mem_cons_self

/-- When the pool has an entry for the node of the slot, the lookup does not
pass it: what it finds at or below the end of the range leads to that node. -/
theorem RoutingInv.inRange_of_entry {topology : Topology} {s : PoolState} {slot key : Nat}
    {front : ConnPtr} {rest : List ConnPtr} (inv : RoutingInv topology s)
    (found : hit s.pool slot = some (key, front, rest)) {range : Nat × Nat}
    (mem : range ∈ topology.ranges) (inside : InRange range slot)
    (entry : (s.pool.find? range.2).isSome = true) : InRange front.conn.slotRange slot := by
  obtain ⟨ptrs, stored⟩ := Option.isSome_iff_exists.mp entry
  obtain ⟨_, above, least⟩ := OrderedMap.lowerBound_eq_some_iff.mp (lowerBound_of_hit found)
  have notPassed : key ≤ range.2 :=
    least (range.2, ptrs) (OrderedMap.find?_eq_some_iff.mp stored) inside.2
  obtain ⟨ranged, ending⟩ := inv.front found
  have keyInRange : InRange range key := ⟨inside.1.trans above, notPassed⟩
  have keyInFront : InRange front.conn.slotRange key := by
    have ordered := topology.ordered front.conn.slotRange ranged
    rw [ending] at ordered
    exact ⟨ordered, ending.ge⟩
  rw [topology.eq_of_inRange ranged mem keyInFront keyInRange]
  exact inside

/-- One get routes exactly when the pool has an entry for the node of the slot,
or the connection is opened for the slot. -/
theorem routes_iff_ownEntry_step {topology : Topology} {mw : CClusterSupport} {charSigned : Bool}
    {visit : Visit PoolState PoolAction} (inv : RoutingInv topology visit.before)
    (step : PoolSection topology.Law [mw.toTMiddleWare charSigned] visit.before visit.label
      visit.after) :
    Routes charSigned visit ↔ OwnEntry topology charSigned visit := by
  rcases visit with ⟨s, action, t⟩
  change PoolSection topology.Law _ s action t at step
  change RoutingInv topology s at inv
  constructor
  · rintro routes handle key answers slot rfl slotEq
    cases step with
    | @get _ slot' _ _ raii pool slotEq' exec lawful fresh absent =>
        rw [getSlot_single] at slotEq'
        cases slotEq.symm.trans slotEq'
        rcases exec_get exec with ⟨listKey, front, rest, found, rfl, rfl⟩ | ⟨missed, _⟩
        · right
          obtain ⟨ranged, ending⟩ := inv.front found
          refine ⟨front.conn.slotRange, ranged, ?_, ?_⟩
          · exact routes handle key answers slot front rfl slotEq
              (OrderedMap.find?_insert_self _ _ _)
          · change (s.pool.find? front.conn.slotRange.2).isSome = true
            rw [ending, find?_of_hit found]
            rfl
        · exact .inl missed
  · rintro ownEntry handle key answers slot ptr rfl slotEq given
    cases step with
    | @get _ slot' _ _ raii pool slotEq' exec lawful fresh absent =>
        rw [getSlot_single] at slotEq'
        cases slotEq.symm.trans slotEq'
        cases (OrderedMap.find?_insert_self _ _ _).symm.trans given
        rcases exec_get exec with
          ⟨listKey, front, rest, found, raiiEq, rfl⟩ | ⟨missed, rfl, conn, asking, raiiEq⟩
        · cases raiiEq
          rcases ownEntry handle key answers slot rfl slotEq with
            missed | ⟨range, mem, inside, entry⟩
          · exact absurd (missed.symm.trans found) nofun
          · exact inv.inRange_of_entry found mem inside entry
        · cases conn with
          | none => cases raiiEq
          | some conn =>
              cases raiiEq
              rw [getConnection_single] at asking
              have given := CClusterSupport.returns_getConnection_inRange topology mw slot
              exact (given.exec asking lawful conn rfl).2

/-- Along a run in which no client changes a slot range, the gets lead to the
nodes of their slots exactly when, before each of them, the pool has an entry
for that node or no idle connection to offer. -/
theorem routes_iff_ownEntry {topology : Topology} {mw : CClusterSupport} {charSigned : Bool}
    {visits : List (Visit PoolState PoolAction)} {last : PoolState}
    (run : Run (PoolStep topology.Law [mw.toTMiddleWare charSigned]) .init visits last)
    (unchanged : ∀ visit ∈ visits, ∀ handle rBegin rEnd,
      visit.label ≠ .setSlotRange handle rBegin rEnd) :
    (∀ visit ∈ visits, Routes charSigned visit) ↔
      ∀ visit ∈ visits, OwnEntry topology charSigned visit := by
  have around := run.invariant (RoutingInv topology) (RoutingInv.init topology)
    fun visit mem step inv => inv.step step.2 (unchanged visit mem)
  have each : ∀ visit ∈ visits,
      (Routes charSigned visit ↔ OwnEntry topology charSigned visit) := fun visit mem =>
    routes_iff_ownEntry_step (around.2 visit mem).1 (run.step_of_mem visit mem).2
  constructor
  · exact fun routes visit mem => (each visit mem).mp (routes visit mem)
  · exact fun ownEntry visit mem => (each visit mem).mpr (ownEntry visit mem)

/-! ## A cluster of two nodes -/

/-- The first node owns the lower half of the slots, the second the upper
half. -/
def twoNodes : Topology where
  ranges := [(0, 8191), (8192, 16383)]
  ordered := by simp
  bounded := by simp
  disjoint := by simp

theorem covers_twoNodes : twoNodes.Covers := by
  intro slot bounded
  by_cases lower : slot ≤ 8191
  · exact ⟨(0, 8191), by simp [twoNodes], Nat.zero_le slot, lower⟩
  · exact ⟨(8192, 16383), by simp [twoNodes], Nat.lt_of_not_le lower, Nat.le_of_lt_succ bounded⟩

/-- The pool asks the second node for the topology. -/
def twoNodesTuple : List TMiddleWare :=
  [CClusterSupport.toTMiddleWare ⟨[([0x62], 7002)], 0⟩ true]

def slotsListing : List RedisReply :=
  [.array [.integer 0, .integer 8191, .array [.string [0x61], .integer 7001]],
    .array [.integer 8192, .integer 16383, .array [.string [0x62], .integer 7002]]]

/-- The servers of the cluster, all of which accept connections but the one on
the port `refused`. -/
def clusterServer (refused : Nat) : Environment MwOp MwAns Nat
  | .redis (.connectWithTimeout _ port _), id =>
      (if port = refused then .refused else .connected, id)
  | .redis (.commandArgv _ argv), id =>
      (.reply (if argv = clusterSlots.lstCommandBuffer then .array slotsListing
        else .string (literal "cluster_state:ok\r\n")), id)
  | op, id => acceptingServer op id

theorem clusterServer_lawful (refused : Nat) (op : MwOp) (id : Nat) :
    twoNodes.Law ⟨op, (clusterServer refused op id).1⟩ := by
  intro c entries eventEq
  obtain ⟨rfl, answerEq⟩ := Event.mk.inj eventEq
  have listing := eq_of_heq answerEq
  rw [clusterServer, if_pos rfl] at listing
  cases listing
  intro entry mem
  rcases List.mem_cons.mp mem with rfl | mem
  · exact ⟨(0, 8191), by simp [twoNodes], _, rfl⟩
  · rw [List.mem_singleton.mp mem]
    exact ⟨(8192, 16383), by simp [twoNodes], _, rfl⟩

/-- The connection to the second node. -/
def upperConnection (id : Nat) : CConnection :=
  { CConnection.create id with
    slotRange := (8192, 16383)
    contextPtr := some .opened
    host := [0x62]
    port := 7002 }

/-- The first node did not accept a connection during `create(1)`. -/
def afterPartialCreate : PoolState :=
  { PoolState.init with
    creating := PoolState.init.creating.insert 0 [upperConnection 2]
    given := [upperConnection 2].map CConnection.id ++ PoolState.init.given }

def afterPartialPush : PoolState :=
  { afterPartialCreate with
    creating := afterPartialCreate.creating.insert 0 []
    pool := pushFront afterPartialCreate.pool (CConnectionPool.created (upperConnection 2)) }

def afterKeyedGet (slot : Nat) : PoolState :=
  { afterPartialPush with
    pool := afterPartialPush.pool.insert 16383 []
    handles := afterPartialPush.handles.insert 0
      ⟨some (CConnectionPool.created (upperConnection 2))⟩
    given := opened afterPartialPush.pool slot
      ⟨some (CConnectionPool.created (upperConnection 2))⟩ ++ afterPartialPush.given }

/-- A pool that could only connect to the second node, and a get with a key. -/
def partialVisits (answers : List (Event MwOp MwAns)) (key : Bytes) (slot : Nat) :
    List (Visit PoolState PoolAction) :=
  [⟨.init, .create 0 1 answers, afterPartialCreate⟩,
    ⟨afterPartialCreate, .push 0, afterPartialPush⟩,
    ⟨afterPartialPush, .get 0 (some key) [], afterKeyedGet slot⟩]

theorem unchanged_partialVisits (answers : List (Event MwOp MwAns)) (key : Bytes) (slot : Nat) :
    ∀ visit ∈ partialVisits answers key slot, ∀ handle rBegin rEnd,
      visit.label ≠ .setSlotRange handle rBegin rEnd := by
  simp only [partialVisits, List.forall_mem_cons]
  exact ⟨nofun, nofun, nofun, fun _ mem => absurd mem List.not_mem_nil⟩

theorem run_partial_create {key : Bytes} {slot : Nat}
    (slotEq : CClusterSupport.getSlot true (some key) = .ok slot) (bounded : slot ≤ 16383) :
    ∃ answers, Run (PoolStep twoNodes.Law twoNodesTuple) .init (partialVisits answers key slot)
      (afterKeyedGet slot) := by
  have found : hit afterPartialPush.pool slot =
      some (16383, CConnectionPool.created (upperConnection 2), []) := by
    change hit ⟨[(16383, [CConnectionPool.created (upperConnection 2)])], _⟩ slot = _
    simp [hit, OrderedMap.lowerBound, bounded]
  have created : PoolStep twoNodes.Law twoNodesTuple .init (.create 0 1 _)
      afterPartialCreate :=
    ⟨rfl, .create (Program.exec_run (clusterServer 7001) (preCreate twoNodesTuple 1) 0)
      (Program.run_trace_forall (clusterServer_lawful 7001) _ _) (by decide) rfl⟩
  have pushed : PoolStep twoNodes.Law twoNodesTuple afterPartialCreate (.push 0) afterPartialPush :=
    ⟨rfl, .push rfl⟩
  have exec : Exec (CConnectionPool._get twoNodesTuple afterPartialPush.pool slot) []
      (.ok (⟨some (CConnectionPool.created (upperConnection 2))⟩,
        afterPartialPush.pool.insert 16383 [])) := by
    rw [CConnectionPool._get, lowerBound_of_hit found]
    exact .pure _
  have nothingOpened : opened afterPartialPush.pool slot
      ⟨some (CConnectionPool.created (upperConnection 2))⟩ = [] := by
    rw [opened, found]
    rfl
  have obtained : PoolStep twoNodes.Law twoNodesTuple afterPartialPush (.get 0 (some key) [])
      (afterKeyedGet slot) := by
    refine ⟨rfl, .get ?_ exec (fun _ mem => absurd mem List.not_mem_nil) ?_ rfl⟩
    · rw [twoNodesTuple, getSlot_single]
      exact slotEq
    · rw [nothingOpened]
      exact ⟨.nil, fun _ mem => absurd mem List.not_mem_nil⟩
  exact ⟨_, .cons created (.cons pushed (.single obtained))⟩

/-- A key of the second node is routed. -/
theorem routes_upper_key :
    ∃ visits last, Run (PoolStep twoNodes.Law twoNodesTuple) .init visits last ∧
      ∀ visit ∈ visits, Routes true visit := by
  have slotEq : CClusterSupport.getSlot true (some [0x31]) = .ok 9842 := rfl
  obtain ⟨_, run⟩ := run_partial_create slotEq (by decide)
  refine ⟨_, _, run, (routes_iff_ownEntry run (unchanged_partialVisits _ _ _)).mpr ?_⟩
  simp only [partialVisits, List.forall_mem_cons]
  refine ⟨nofun, nofun, ?_, fun _ mem => absurd mem List.not_mem_nil⟩
  rintro handle key answers slot ⟨⟩ slotEq'
  cases slotEq.symm.trans slotEq'
  exact .inr ⟨(8192, 16383), by simp [twoNodes], by decide, rfl⟩

/-- A key of the first node gets the idle connection to the second node. -/
theorem lower_key_gets_upper_node :
    twoNodes.Covers ∧ ∃ visits last, Run (PoolStep twoNodes.Law twoNodesTuple) .init visits last ∧
      (∀ visit ∈ visits, ∀ handle rBegin rEnd,
        visit.label ≠ .setSlotRange handle rBegin rEnd) ∧
      ¬ ∀ visit ∈ visits, Routes true visit := by
  have slotEq : CClusterSupport.getSlot true (some [0x62]) = .ok 3300 := rfl
  obtain ⟨_, run⟩ := run_partial_create slotEq (by decide)
  refine ⟨covers_twoNodes, _, _, run, unchanged_partialVisits _ _ _, ?_⟩
  intro routes
  have routed := routes ⟨afterPartialPush, .get 0 (some [0x62]) [], afterKeyedGet 3300⟩
    (by simp [partialVisits]) 0 [0x62] [] 3300 (CConnectionPool.created (upperConnection 2)) rfl
    slotEq rfl
  exact absurd routed (by decide)

end MCRedis.Pool
