import MCRedis.Pool.Machine

/-!
# Properties of the pointers

A property of pointers holds of every pointer in a pool as soon as it holds of
those that enter it and is kept by what the clients do through their handles.
The case analysis over the steps of the pool is made here once.
-/

namespace MCRedis.Pool

open MCRedis.Client
open MCRedis.Container
open MCRedis.MiddleWare
open MCRedis.Transition

/-- The pointers of the handles. -/
def PoolState.handlePtrs (s : PoolState) : List ConnPtr :=
  s.handles.collect fun raii => raii.connPtr.toList

/-- The connections that unfinished calls of `create` have not pushed yet. -/
def PoolState.createdConnections (s : PoolState) : List CConnection :=
  s.creating.collect fun lstConnection => lstConnection

/-- The property holds of every pointer of the state, and of the pointers that
will be made of the connections still to be pushed. -/
structure AllPtrs (P : ConnPtr → Prop) (s : PoolState) : Prop where
  idle : ∀ ptr ∈ idle s.pool, P ptr
  handles : ∀ ptr ∈ s.handlePtrs, P ptr
  creating : ∀ conn ∈ s.createdConnections, P (CConnectionPool.created conn)
  discarded : ∀ ptr ∈ s.discarded, P ptr

theorem AllPtrs.init (P : ConnPtr → Prop) : AllPtrs P .init :=
  ⟨nofun, nofun, nofun, nofun⟩

section Idle

variable {P : ConnPtr → Prop} {pool : PoolMap}

/-- What holds of the pointer and of all idle ones holds of those after the
pointer is filed. -/
theorem forall_idle_pushFront {ptr : ConnPtr} (new : P ptr) (all : ∀ other ∈ idle pool, P other) :
    ∀ other ∈ idle (pushFront pool ptr), P other := by
  apply OrderedMap.forall_collect_insert (fun ptrs => ptrs) _ all
  refine List.forall_mem_cons.mpr ⟨new, ?_⟩
  cases found : pool.find? ptr.conn.slotRange.2 with
  | none =>
      intro other mem
      contradiction
  | some ptrs => exact OrderedMap.forall_of_find? (fun ptrs => ptrs) found all

/-- What holds of all idle pointers holds of the one that a get takes and of
those it leaves. -/
theorem forall_idle_of_hit {slot key : Nat} {front : ConnPtr} {rest : List ConnPtr}
    (found : hit pool slot = some (key, front, rest)) (all : ∀ ptr ∈ idle pool, P ptr) :
    P front ∧ ∀ ptr ∈ idle (pool.insert key rest), P ptr := by
  have listed := OrderedMap.forall_of_find? (fun ptrs => ptrs) (find?_of_hit found) all
  obtain ⟨first, others⟩ := List.forall_mem_cons.mp listed
  exact ⟨first, OrderedMap.forall_collect_insert (fun ptrs => ptrs) others all⟩

/-- A handle that is destroyed leaves its pointer among the idle ones, or it is
freed. -/
theorem forall_idle_destroy {raii : CConnectionRAII} {after : PoolMap} {freed : List ConnPtr}
    (destroyed : raii.destroy pool = .ok (after, freed))
    (held : ∀ ptr, raii.connPtr = some ptr → P ptr) (all : ∀ ptr ∈ idle pool, P ptr) :
    (∀ ptr ∈ idle after, P ptr) ∧ ∀ ptr ∈ freed, P ptr := by
  rcases destroy_cases destroyed with
    ⟨_, rfl, rfl⟩ | ⟨owner, c, some, _, ⟨_, rfl, rfl⟩ | ⟨_, rfl, rfl⟩⟩
  · exact ⟨all, fun ptr mem => absurd mem List.not_mem_nil⟩
  · exact ⟨forall_idle_pushFront (held owner some) all, fun ptr mem => absurd mem List.not_mem_nil⟩
  · refine ⟨all, ?_⟩
    intro ptr mem
    rw [List.mem_singleton.mp mem]
    exact held owner some

theorem idle_clear (pool : PoolMap) : idle (CConnectionPool.clear pool) = [] := by
  simp [idle, CConnectionPool.clear, OrderedMap.entries_mapValues]

end Idle

/-- What a step has to meet so that it keeps a property of the pointers: the
connections that it brings into the pool have the property, and its use of a
handle keeps it. -/
structure KeepsPtrs (law : Event MwOp MwAns → Prop) (mw : List TMiddleWare) (P : ConnPtr → Prop)
    (visit : Visit PoolState PoolAction) : Prop where
  create : ∀ client defaultNum trace lstConnection, visit.label = .create client defaultNum trace →
    Exec (preCreate mw defaultNum) trace (.ok lstConnection) → (∀ event ∈ trace, law event) →
      ∀ conn ∈ lstConnection, P (CConnectionPool.created conn)
  get : ∀ handle key slot trace conn, visit.label = .get handle key trace →
    getSlot mw key = .ok slot → hit visit.before.pool slot = none →
      Exec (getConnection mw slot) trace (.ok (some conn)) → (∀ event ∈ trace, law event) →
        P ⟨conn, .empty⟩
  use : ∀ handle ptr conn, visit.label = .use handle → conn.slotRange = ptr.conn.slotRange →
    P ptr → P { ptr with conn := conn }
  setSlotRange : ∀ handle rBegin rEnd ptr, visit.label = .setSlotRange handle rBegin rEnd →
    P ptr → P { ptr with conn := ptr.conn.setSlotRange rBegin rEnd }

section Step

variable {P : ConnPtr → Prop} {s : PoolState}

/-- A handle that is stored holds a pointer with the property. -/
theorem AllPtrs.handles_insert (inv : AllPtrs P s) (handle : Nat) {raii : CConnectionRAII}
    (holds : ∀ ptr, raii.connPtr = some ptr → P ptr) :
    ∀ ptr ∈ (s.handles.insert handle raii).collect (fun raii => raii.connPtr.toList), P ptr :=
  OrderedMap.forall_collect_insert _ (fun ptr mem => holds ptr (Option.mem_toList.mp mem))
    inv.handles

/-- A handle that is found holds a pointer with the property. -/
theorem AllPtrs.handle (inv : AllPtrs P s) {handle : Nat} {raii : CConnectionRAII}
    (found : s.handles.find? handle = some raii) : ∀ ptr, raii.connPtr = some ptr → P ptr :=
  fun ptr owned =>
    OrderedMap.forall_of_find? _ found inv.handles ptr (Option.mem_toList.mpr owned)

/-- The step lemma of a property of the pointers. -/
theorem AllPtrs.step {law : Event MwOp MwAns → Prop} {mw : List TMiddleWare}
    {visit : Visit PoolState PoolAction} (inv : AllPtrs P visit.before)
    (step : PoolSection law mw visit.before visit.label visit.after)
    (keeps : KeepsPtrs law mw P visit) : AllPtrs P visit.after := by
  rcases visit with ⟨s, action, t⟩
  change PoolSection law mw s action t at step
  change AllPtrs P s at inv
  have idle := inv.idle
  have handles := inv.handles
  have creating := inv.creating
  have discarded := inv.discarded
  cases step with
  | @create client defaultNum trace lstConnection exec lawful fresh absent =>
      have given := keeps.create client defaultNum trace lstConnection rfl exec lawful
      exact ⟨idle, handles, OrderedMap.forall_collect_insert _ given creating, discarded⟩
  | @push client conn rest found =>
      obtain ⟨first, others⟩ :=
        List.forall_mem_cons.mp (OrderedMap.forall_of_find? (fun conns => conns) found creating)
      exact ⟨forall_idle_pushFront first idle, handles,
        OrderedMap.forall_collect_insert _ others creating, discarded⟩
  | finish => exact ⟨idle, handles, OrderedMap.forall_collect_erase _ creating, discarded⟩
  | @get handle slot key trace raii pool slotEq exec lawful fresh absent =>
      rcases exec_get exec with
        ⟨listKey, front, rest, found, rfl, rfl⟩ | ⟨missed, rfl, conn, asking, rfl⟩
      · obtain ⟨first, others⟩ := forall_idle_of_hit found idle
        refine ⟨others, inv.handles_insert handle ?_, creating, discarded⟩
        rintro _ ⟨⟩
        exact first
      · refine ⟨idle, inv.handles_insert handle ?_, creating, discarded⟩
        intro ptr owned
        obtain ⟨conn, rfl, rfl⟩ := Option.map_eq_some_iff.mp owned
        exact keeps.get handle key slot trace conn rfl slotEq missed asking lawful
  | @move source target raii found absent =>
      have emptied : ∀ ptr, (⟨none⟩ : CConnectionRAII).connPtr = some ptr → P ptr :=
        fun _ owned => absurd owned (Option.some_ne_none _).symm
      have moved := OrderedMap.forall_of_find? (fun raii => raii.connPtr.toList) found handles
      exact ⟨idle, OrderedMap.forall_collect_insert _ moved (inv.handles_insert source emptied),
        creating, discarded⟩
  | @use handle owner conn found _ sameRange =>
      refine ⟨idle, inv.handles_insert handle ?_, creating, discarded⟩
      rintro _ ⟨⟩
      exact keeps.use handle owner conn rfl sameRange (inv.handle found owner rfl)
  | @setSlotRange handle rBegin rEnd owner found =>
      refine ⟨idle, inv.handles_insert handle ?_, creating, discarded⟩
      rintro _ ⟨⟩
      exact keeps.setSlotRange handle rBegin rEnd owner rfl (inv.handle found owner rfl)
  | @release handle raii pool freed found destroyed =>
      obtain ⟨left, gone⟩ := forall_idle_destroy destroyed (inv.handle found) idle
      exact ⟨left, OrderedMap.forall_collect_erase _ handles, creating,
        List.forall_mem_append.mpr ⟨gone, discarded⟩⟩
  | clear =>
      refine ⟨?_, handles, creating, List.forall_mem_append.mpr ⟨idle, discarded⟩⟩
      change ∀ ptr ∈ Pool.idle (CConnectionPool.clear s.pool), P ptr
      rw [idle_clear]
      exact fun _ mem => absurd mem List.not_mem_nil
  | destroy =>
      exact ⟨fun _ mem => absurd mem List.not_mem_nil, handles, creating,
        List.forall_mem_append.mpr ⟨idle, discarded⟩⟩

end Step

end MCRedis.Pool
