import MCRedis.Pool.Routing
import Mathlib.Order.MinMax

/-!
# Reuse of idle connections

The ranges of a topology do not overlap, so the end of a range is the first key
at or above any of its slots.  A connection that was filed is therefore found
again for every slot of its range, and no connection is opened while one of the
range is idle.
-/

namespace MCRedis.Pool

open MCRedis.Client
open MCRedis.Container
open MCRedis.MiddleWare
open MCRedis.Transition

/-! ## The keys of the pool -/

/-- Every key of the pool is the end of a range, also when its list is empty. -/
def Keyed (topology : Topology) (pool : PoolMap) : Prop :=
  ∀ entry ∈ pool.entries, ∃ range ∈ topology.ranges, range.2 = entry.1

section Keyed

variable {topology : Topology} {pool : PoolMap}

/-- No other end lies between a slot and the end of its range. -/
theorem end_le {range other : Nat × Nat} {slot : Nat} (mem : range ∈ topology.ranges)
    (inside : InRange range slot) (otherMem : other ∈ topology.ranges) (above : slot ≤ other.2) :
    range.2 ≤ other.2 := by
  by_contra beyond
  have inRange : InRange range other.2 := ⟨inside.1.trans above, (Nat.lt_of_not_le beyond).le⟩
  have inOther : InRange other other.2 := ⟨topology.ordered other otherMem, le_rfl⟩
  have equal := topology.eq_of_inRange mem otherMem inRange inOther
  exact beyond (congrArg Prod.snd equal).le

/-- The lower bound of a slot is the entry of its range, if there is one. -/
theorem Keyed.lowerBound (keyed : Keyed topology pool) {range : Nat × Nat} {slot : Nat}
    {ptrs : List ConnPtr} (mem : range ∈ topology.ranges) (inside : InRange range slot)
    (stored : pool.find? range.2 = some ptrs) : pool.lowerBound slot = some (range.2, ptrs) := by
  refine OrderedMap.lowerBound_eq_some_iff.mpr
    ⟨OrderedMap.find?_eq_some_iff.mp stored, inside.2, ?_⟩
  intro entry entryMem above
  obtain ⟨other, otherMem, endEq⟩ := keyed entry entryMem
  rw [← endEq] at above ⊢
  exact end_le mem inside otherMem above

theorem Keyed.insert (keyed : Keyed topology pool) {key : Nat} (ptrs : List ConnPtr)
    (ending : ∃ range ∈ topology.ranges, range.2 = key) :
    Keyed topology (pool.insert key ptrs) := by
  intro entry entryMem
  rcases OrderedMap.mem_insert_iff.mp entryMem with rfl | ⟨old, _⟩
  · exact ending
  · exact keyed entry old

theorem Keyed.pushFront (keyed : Keyed topology pool) {ptr : ConnPtr}
    (ranged : Ranged topology ptr) : Keyed topology (pushFront pool ptr) :=
  keyed.insert _ ⟨_, ranged, rfl⟩

theorem Keyed.of_hit (keyed : Keyed topology pool) {slot key : Nat} {front : ConnPtr}
    {rest : List ConnPtr} (found : hit pool slot = some (key, front, rest)) :
    Keyed topology (pool.insert key rest) :=
  keyed.insert rest (keyed _ (OrderedMap.find?_eq_some_iff.mp (find?_of_hit found)))

theorem Keyed.clear (keyed : Keyed topology pool) :
    Keyed topology (CConnectionPool.clear pool) := by
  intro entry mem
  obtain ⟨old, oldMem, rfl⟩ := List.mem_map.mp mem
  exact keyed old oldMem

end Keyed

/-- What holds of a pool over a cluster whose clients leave the ranges alone. -/
structure ReuseInv (topology : Topology) (s : PoolState) : Prop where
  routing : RoutingInv topology s
  keyed : Keyed topology s.pool

theorem ReuseInv.init (topology : Topology) : ReuseInv topology .init :=
  ⟨RoutingInv.init topology, nofun⟩

theorem ReuseInv.step {topology : Topology} {mw : CClusterSupport} {charSigned : Bool}
    {visit : Visit PoolState PoolAction} (inv : ReuseInv topology visit.before)
    (step : PoolSection topology.Law [mw.toTMiddleWare charSigned] visit.before visit.label
      visit.after)
    (unchanged : ∀ handle rBegin rEnd, visit.label ≠ .setSlotRange handle rBegin rEnd) :
    ReuseInv topology visit.after := by
  refine ⟨inv.routing.step step unchanged, ?_⟩
  rcases visit with ⟨s, action, t⟩
  change PoolSection topology.Law _ s action t at step
  change ReuseInv topology s at inv
  have ranged := inv.routing.ranged
  have keyed := inv.keyed
  cases step with
  | @push client conn rest found =>
      apply keyed.pushFront
      exact (List.forall_mem_cons.mp
        (OrderedMap.forall_of_find? (fun conns => conns) found ranged.creating)).1
  | get slotEq exec lawful fresh absent =>
      rcases exec_get exec with ⟨listKey, front, rest, found, rfl, rfl⟩ | ⟨missed, rfl, _⟩
      · exact keyed.of_hit found
      · exact keyed
  | @release handle raii pool freed found destroyed =>
      rcases destroy_cases destroyed with
        ⟨_, rfl, _⟩ | ⟨ptr, c, owned, _, ⟨_, rfl, _⟩ | ⟨_, rfl, _⟩⟩
      · exact keyed
      · exact keyed.pushFront (ranged.handle found ptr owned)
      · exact keyed
  | clear => exact keyed.clear
  | destroy => exact fun _ mem => absurd mem List.not_mem_nil
  | _ => exact keyed

/-! ## A get after a release -/

/-- After a handle without an error was released, a get for any slot of its range
returns its connection, and asks nobody for a new one. -/
theorem get_released {topology : Topology} {mw : CClusterSupport} {charSigned : Bool}
    {visits : List (Visit PoolState PoolAction)} {s t : PoolState} {handle slot : Nat}
    {ptr : ConnPtr} {key : Option Bytes}
    (run : Run (PoolStep topology.Law [mw.toTMiddleWare charSigned]) .init visits s)
    (unchanged : ∀ visit ∈ visits, ∀ handle rBegin rEnd,
      visit.label ≠ .setSlotRange handle rBegin rEnd)
    (held : s.handles.find? handle = some ⟨some ptr⟩) (healthy : ptr.conn.errorNo = .ok 0)
    (released : PoolStep topology.Law [mw.toTMiddleWare charSigned] s (.release handle) t)
    (slotEq : CClusterSupport.getSlot charSigned key = .ok slot)
    (inside : InRange ptr.conn.slotRange slot) :
    ∃ pool, CConnectionPool.get [mw.toTMiddleWare charSigned] t.pool key =
      .pure (⟨some ptr⟩, pool) := by
  have inv := (run.invariant (ReuseInv topology) (ReuseInv.init topology)
    fun visit mem step inv => inv.step step.2 (unchanged visit mem)).1
  have ranged : Ranged topology ptr := inv.routing.ranged.handle held ptr rfl
  obtain ⟨_, step⟩ := released
  cases step with
  | @release _ raii pool freed found destroyed =>
      cases held.symm.trans found
      cases (destroy_of_healthy healthy s.pool).symm.trans destroyed
      have lower := (inv.keyed.pushFront ranged).lowerBound ranged inside
        (OrderedMap.find?_insert_self _ _ _)
      refine ⟨(pushFront s.pool ptr).insert ptr.conn.slotRange.2
        ((s.pool.find? ptr.conn.slotRange.2).getD []), ?_⟩
      rw [CConnectionPool.get, getSlot_single]
      change (Program.ofExcept (CClusterSupport.getSlot charSigned key)).bind _ = _
      rw [slotEq, Program.ofExcept_ok, Program.bind_pure_left, CConnectionPool._get, lower]
      rfl

/-- The handle of `run_partial_create` is released, and a get for another slot of
the second node returns its connection. -/
theorem get_released_upper : ∃ visits s t pool,
    Run (PoolStep twoNodes.Law twoNodesTuple) .init visits s ∧
      PoolStep twoNodes.Law twoNodesTuple s (.release 0) t ∧
        CConnectionPool.get twoNodesTuple t.pool (some [0x34]) =
          .pure (⟨some (CConnectionPool.created (upperConnection 2))⟩, pool) := by
  have slotEq : CClusterSupport.getSlot true (some [0x31]) = .ok 9842 := rfl
  obtain ⟨_, run⟩ := run_partial_create slotEq (by decide)
  have released : PoolStep twoNodes.Law twoNodesTuple (afterKeyedGet 9842) (.release 0) _ :=
    ⟨rfl, .release rfl (destroy_of_healthy rfl _)⟩
  have nextEq : CClusterSupport.getSlot true (some [0x34]) = .ok 14039 := rfl
  obtain ⟨pool, got⟩ := get_released run (unchanged_partialVisits _ _ _) rfl rfl released nextEq
    (by decide)
  exact ⟨_, _, _, pool, run, released, got⟩

/-! ## How many connections are open -/

/-- The slot range of the connection a pointer owns. -/
def ConnPtr.range (ptr : ConnPtr) : Nat × Nat :=
  ptr.conn.slotRange

/-- The number of idle connections of the range. -/
def PoolState.idleNum (s : PoolState) (range : Nat × Nat) : Nat :=
  (idleOf ConnPtr.range s.pool).count range

/-- The number of connections of the range that are held by handles. -/
def PoolState.heldNum (s : PoolState) (range : Nat × Nat) : Nat :=
  (heldOf ConnPtr.range s.handles).count range

/-- The number of live connections of the range, idle or held. -/
def PoolState.liveNum (s : PoolState) (range : Nat × Nat) : Nat :=
  s.idleNum range + s.heldNum range

theorem PoolState.liveNum_eq (s : PoolState) (range : Nat × Nat) :
    s.liveNum range = (idleOf ConnPtr.range s.pool).count range +
      (heldOf ConnPtr.range s.handles).count range :=
  rfl

/-- The ranges of the connection that the step of a `create` puts into the pool. -/
def pushedRanges (visit : Visit PoolState PoolAction) : List (Nat × Nat) :=
  match visit.label with
  | .push client =>
      (((visit.before.creating.find? client).getD []).take 1).map CConnection.slotRange
  | _ => []

/-- The number of connections of the range that `create` has put into the pool. -/
def pushedNum (range : Nat × Nat) (visits : List (Visit PoolState PoolAction)) : Nat :=
  (visits.flatMap pushedRanges).count range

/-- The greatest number of connections of the range held at one moment so far. -/
def peakNum (range : Nat × Nat) (visits : List (Visit PoolState PoolAction)) : Nat :=
  visits.foldl (fun peak visit => max peak (visit.after.heldNum range)) 0

theorem pushedNum_append (range : Nat × Nat) (visits : List (Visit PoolState PoolAction))
    (visit : Visit PoolState PoolAction) :
    pushedNum range (visits ++ [visit]) =
      pushedNum range visits + (pushedRanges visit).count range := by
  rw [pushedNum, List.flatMap_append, List.count_append, List.flatMap_singleton]
  rfl

theorem peakNum_append (range : Nat × Nat) (visits : List (Visit PoolState PoolAction))
    (visit : Visit PoolState PoolAction) :
    peakNum range (visits ++ [visit]) = max (peakNum range visits) (visit.after.heldNum range) :=
  List.foldl_append

/-- The step puts a connection into the pool, or is a get. -/
def isPush : PoolAction → Bool
  | .push _ => true
  | _ => false

def isGet : PoolAction → Bool
  | .get _ _ _ => true
  | _ => false

/-- While a connection of a slot's range is idle, the slot is hit. -/
theorem idleNum_of_missed {topology : Topology} {s : PoolState} {slot : Nat} {range : Nat × Nat}
    (inv : ReuseInv topology s) (mem : range ∈ topology.ranges) (inside : InRange range slot)
    (missed : hit s.pool slot = none) : s.idleNum range = 0 := by
  apply List.count_eq_zero.mpr
  intro idle
  obtain ⟨⟨key, ptrs⟩, stored, listed⟩ := (OrderedMap.mem_collect_iff _).mp idle
  obtain ⟨ptr, ptrMem, rangeEq⟩ := List.mem_map.mp listed
  have endEq : range.2 = key := by
    rw [← rangeEq]
    exact inv.routing.owned.filed _ stored ptr ptrMem
  have lower := inv.keyed.lowerBound mem inside
    (endEq ▸ OrderedMap.find?_eq_some_iff.mpr stored)
  cases ptrs with
  | nil => contradiction
  | cons front rest =>
      rw [hit, lower] at missed
      contradiction

/-- A get moves an idle connection to its handle, or opens one; it opens one of
the range only when none of the range is idle. -/
theorem ReuseInv.liveNum_get {topology : Topology} {mw : CClusterSupport} {charSigned : Bool}
    {s : PoolState} {handle slot : Nat} {trace : List (Event MwOp MwAns)} {raii : CConnectionRAII}
    {pool : PoolMap} {given : List Nat} (inv : ReuseInv topology s)
    (exec : Exec (CConnectionPool._get [mw.toTMiddleWare charSigned] s.pool slot) trace
      (.ok (raii, pool)))
    (lawful : ∀ event ∈ trace, topology.Law event) (absent : s.handles.find? handle = none)
    (range : Nat × Nat) :
    let after : PoolState :=
      { s with pool := pool, handles := s.handles.insert handle raii, given := given }
    after.liveNum range ≤ s.liveNum range ∨ after.liveNum range = after.heldNum range := by
  intro after
  have held := count_heldOf_insert ConnPtr.range range absent raii
  rcases exec_get exec with
    ⟨listKey, front, rest, found, rfl, rfl⟩ | ⟨missed, rfl, conn, asking, rfl⟩
  · left
    have taken := count_of_hit ConnPtr.range range found
    rw [Option.toList_some, List.map_singleton] at held
    simp only [PoolState.liveNum_eq, after]
    omega
  · rw [getConnection_single] at asking
    have answered := CClusterSupport.returns_getConnection_inRange topology mw slot
    by_cases own : ∃ conn', conn = some conn' ∧ conn'.slotRange = range
    · right
      obtain ⟨conn, rfl, rfl⟩ := own
      obtain ⟨mem, inside⟩ := answered.exec asking lawful conn rfl
      have noneIdle := idleNum_of_missed inv mem inside missed
      rw [PoolState.liveNum, PoolState.idleNum]
      exact (congrArg (· + _) noneIdle).trans (Nat.zero_add _)
    · left
      have notOwn : ((conn.map fun conn => (⟨conn, .empty⟩ : ConnPtr)).toList.map
          ConnPtr.range).count range = 0 := by
        cases conn with
        | none => rfl
        | some conn =>
            apply List.count_eq_zero.mpr
            intro mem
            exact own ⟨conn, rfl, (List.mem_singleton.mp mem).symm⟩
      dsimp only at held
      simp only [PoolState.liveNum_eq, after]
      omega

/-- What one step does to the live connections of a range: a connection that is
put into the pool is one more, a get brings one more only when all of them are
then held, and every other step leaves at most as many. -/
theorem ReuseInv.liveNum_le {topology : Topology} {mw : CClusterSupport} {charSigned : Bool}
    {visit : Visit PoolState PoolAction} (inv : ReuseInv topology visit.before)
    (step : PoolSection topology.Law [mw.toTMiddleWare charSigned] visit.before visit.label
      visit.after)
    (unchanged : ∀ handle rBegin rEnd, visit.label ≠ .setSlotRange handle rBegin rEnd)
    (range : Nat × Nat) :
    visit.after.liveNum range ≤ visit.before.liveNum range + (pushedRanges visit).count range ∨
      isGet visit.label = true ∧ visit.after.liveNum range = visit.after.heldNum range := by
  rcases visit with ⟨s, action, t⟩
  change PoolSection topology.Law _ s action t at step
  change ReuseInv topology s at inv
  change (∀ handle rBegin rEnd, action ≠ .setSlotRange handle rBegin rEnd) at unchanged
  cases step with
  | create _ _ _ _ => exact .inl (Nat.le_add_right _ _)
  | @push client conn rest found =>
      left
      have pushed := count_pushFront ConnPtr.range range s.pool (CConnectionPool.created conn)
      simp only [pushedRanges, found, Option.getD_some, List.take_succ_cons, List.take_zero,
        List.map_singleton, PoolState.liveNum_eq]
      change _ = [conn.slotRange].count range + _ at pushed
      omega
  | finish found => exact .inl (Nat.le_add_right _ _)
  | get slotEq exec lawful fresh absent =>
      rcases inv.liveNum_get exec lawful absent range with fewer | allHeld
      · exact .inl (fewer.trans (Nat.le_add_right _ _))
      · exact .inr ⟨rfl, allHeld⟩
  | move found absent =>
      left
      simp only [PoolState.liveNum_eq, count_heldOf_move ConnPtr.range range found absent]
      exact Nat.le_add_right _ _
  | @use handle ptr conn found _ sameRange =>
      left
      have sameOf : ConnPtr.range { ptr with conn := conn } = ptr.range := sameRange
      simp only [PoolState.liveNum_eq, count_heldOf_replace ConnPtr.range range found sameOf]
      exact Nat.le_add_right _ _
  | setSlotRange found => exact absurd rfl (unchanged _ _ _)
  | release found destroyed =>
      left
      have left := count_destroy ConnPtr.range range found destroyed
      simp only [PoolState.liveNum_eq]
      omega
  | clear =>
      left
      simp only [PoolState.liveNum_eq, idleOf_clear, List.count_nil]
      omega
  | destroy _ _ =>
      left
      simp only [PoolState.liveNum_eq]
      change 0 + _ ≤ _
      omega

theorem pushedRanges_of_not_push {visit : Visit PoolState PoolAction}
    (other : isPush visit.label = false) : pushedRanges visit = [] := by
  rw [pushedRanges]
  split
  · rename_i client labelEq
    rw [labelEq] at other
    contradiction
  · rfl

/-- What holds of the live connections of a range after a history of steps:
before the first get there are only those that were put into the pool. -/
structure ReuseHistory (topology : Topology) (range : Nat × Nat)
    (earlier : List (Visit PoolState PoolAction)) (s : PoolState) : Prop where
  reuse : ReuseInv topology s
  beforeGet : (∀ visit ∈ earlier, isGet visit.label = false) →
    s.liveNum range ≤ pushedNum range earlier
  bound : s.liveNum range ≤ max (pushedNum range earlier) (peakNum range earlier)

theorem ReuseHistory.step {topology : Topology} {mw : CClusterSupport} {charSigned : Bool}
    {range : Nat × Nat} {earlier : List (Visit PoolState PoolAction)}
    {visit : Visit PoolState PoolAction}
    (history : ReuseHistory topology range earlier visit.before)
    (step : PoolSection topology.Law [mw.toTMiddleWare charSigned] visit.before visit.label
      visit.after)
    (unchanged : ∀ handle rBegin rEnd, visit.label ≠ .setSlotRange handle rBegin rEnd)
    (pushFirst : isPush visit.label = true → ∀ other ∈ earlier, isGet other.label = false) :
    ReuseHistory topology range (earlier ++ [visit]) visit.after := by
  have live := history.reuse.liveNum_le step unchanged range
  refine ⟨history.reuse.step step unchanged, ?_, ?_⟩
  · intro noGet
    obtain ⟨before, notGet⟩ := List.forall_mem_append.mp noGet
    rw [pushedNum_append]
    rcases live with more | ⟨get, _⟩
    · exact more.trans (Nat.add_le_add_right (history.beforeGet before) _)
    · rw [notGet visit (List.mem_singleton_self visit)] at get
      contradiction
  · rw [pushedNum_append, peakNum_append]
    rcases live with more | ⟨_, allHeld⟩
    · cases push : isPush visit.label with
      | true =>
          have pushed := history.beforeGet (pushFirst push)
          exact (more.trans (Nat.add_le_add_right pushed _)).trans (le_max_left _ _)
      | false =>
          rw [pushedRanges_of_not_push push, List.count_nil, Nat.add_zero] at more ⊢
          exact (more.trans history.bound).trans (max_le_max_left _ (le_max_left _ _))
    · rw [allHeld]
      exact (le_max_right _ _).trans (le_max_right _ _)

/-- In every state that is reached without a change of a slot range, when nothing
is put into the pool after the first get, the live connections of a range are at
most as many as `create` has put into the pool, or as were held at one moment. -/
theorem liveNum_le_max {topology : Topology} {mw : CClusterSupport} {charSigned : Bool}
    {visits : List (Visit PoolState PoolAction)} {last : PoolState}
    (run : Run (PoolStep topology.Law [mw.toTMiddleWare charSigned]) .init visits last)
    (unchanged : ∀ visit ∈ visits, ∀ handle rBegin rEnd,
      visit.label ≠ .setSlotRange handle rBegin rEnd)
    (createFirst : visits.Pairwise fun earlier later =>
      isGet earlier.label = true → isPush later.label = false)
    (range : Nat × Nat) :
    last.liveNum range ≤ max (pushedNum range visits) (peakNum range visits) := by
  apply ReuseHistory.bound
  apply run.history (ReuseHistory topology range)
  · exact ⟨ReuseInv.init topology, fun _ => le_rfl, Nat.zero_le _⟩
  · rintro earlier visit later rfl step history
    refine history.step step.2 (unchanged visit (by simp)) ?_
    intro push other mem
    obtain ⟨_, _, across⟩ := List.pairwise_append.mp createFirst
    by_contra get
    have notPush := across other mem visit List.mem_cons_self (Bool.eq_true_of_not_eq_false get)
    rw [push] at notPush
    contradiction

/-- One connection was put into the pool, and it is the one that is held. -/
theorem liveNum_le_max_upper : ∃ visits last,
    Run (PoolStep twoNodes.Law twoNodesTuple) .init visits last ∧
      last.heldNum (8192, 16383) = 1 ∧
        last.liveNum (8192, 16383) ≤
          max (pushedNum (8192, 16383) visits) (peakNum (8192, 16383) visits) := by
  have slotEq : CClusterSupport.getSlot true (some [0x31]) = .ok 9842 := rfl
  obtain ⟨answers, run⟩ := run_partial_create slotEq (by decide)
  refine ⟨_, _, run, rfl, liveNum_le_max run (unchanged_partialVisits _ _ _) ?_ _⟩
  simp [partialVisits, isGet, isPush]

end MCRedis.Pool
