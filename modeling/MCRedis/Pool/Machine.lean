import MCRedis.MiddleWare.Default
import MCRedis.Pool.Core
import MCRedis.Transition.Run

/-!
# The pool as a state machine

Any number of clients work on one pool.  Each section that a client executes
while it holds the mutex is one step, as is each of the steps it takes between
two of them: a middleware creates connections, a handle is moved, a connection
is used through its handle, a handle of a broken connection is destroyed.

The state keeps two records besides the data of the program: the names of all
connections that middlewares have given to the pool, and the pointers whose
deleter has been invoked.
-/

namespace MCRedis.Pool

open MCRedis.Client
open MCRedis.Container
open MCRedis.MiddleWare
open MCRedis.Transition

/-- The name of the connection a pointer owns. -/
def ConnPtr.id (ptr : ConnPtr) : Nat :=
  ptr.conn.id

structure PoolState where
  pool : PoolMap
  handles : OrderedMap Nat CConnectionRAII
  creating : OrderedMap Nat (List CConnection)
  given : List Nat
  discarded : List ConnPtr
  alive : Bool

/-- The steps of the clients, who name their handles and their calls of
`create`.  A step in which the middlewares take part is labelled with the
answers they receive. -/
inductive PoolAction
  | create (client defaultNum : Nat) (answers : List (Event MwOp MwAns))
  | push (client : Nat)
  | finish (client : Nat)
  | get (handle : Nat) (key : Option Bytes) (answers : List (Event MwOp MwAns))
  | move (source target : Nat)
  | use (handle : Nat)
  | setSlotRange (handle rBegin rEnd : Nat)
  | release (handle : Nat)
  | clear
  | destroy

namespace PoolState

/-- A pool that has just been constructed. -/
def init : PoolState where
  pool := .empty
  handles := .empty
  creating := .empty
  given := []
  discarded := []
  alive := true

/-- The connections of the idle lists. -/
def idleIds (s : PoolState) : List Nat :=
  s.pool.collect fun ptrs => ptrs.map ConnPtr.id

/-- The connections of the handles. -/
def handleIds (s : PoolState) : List Nat :=
  s.handles.collect fun raii => raii.connPtr.toList.map ConnPtr.id

/-- The connections that unfinished calls of `create` have not pushed yet. -/
def creatingIds (s : PoolState) : List Nat :=
  s.creating.collect fun lstConnection => lstConnection.map CConnection.id

/-- Every place that holds a connection, with the connection it holds. -/
def places (s : PoolState) : List Nat :=
  s.idleIds ++ (s.handleIds ++ s.creatingIds)

/-- The connections whose deleter was invoked. -/
def discardedIds (s : PoolState) : List Nat :=
  s.discarded.map ConnPtr.id

/-- A middleware has given the connection to the pool and it is not freed. -/
def Live (s : PoolState) (id : Nat) : Prop :=
  id ∈ s.given ∧ id ∉ s.discardedIds

/-- What `new` guarantees: distinct objects, none of which was given before. -/
def Fresh (s : PoolState) (ids : List Nat) : Prop :=
  ids.Nodup ∧ ∀ id ∈ ids, id ∉ s.given

end PoolState

/-- The list that the lower bound finds, unless it is empty. -/
def hit (pool : PoolMap) (slot : Nat) : Option (Nat × ConnPtr × List ConnPtr) :=
  match pool.lowerBound slot with
  | some (key, front :: rest) => some (key, front, rest)
  | _ => none

/-- The connections that a get obtains from the middlewares. -/
def opened (pool : PoolMap) (slot : Nat) (raii : CConnectionRAII) : List Nat :=
  if (hit pool slot).isSome then [] else raii.connPtr.toList.map ConnPtr.id

/-- The steps on a pool that has not been destroyed; `law` is what holds of the
answers that the middlewares receive. -/
inductive PoolSection (law : Event MwOp MwAns → Prop) (mw : List TMiddleWare) :
    PoolState → PoolAction → PoolState → Prop
  | create {s : PoolState} {client defaultNum : Nat} {trace : List (Event MwOp MwAns)}
      {lstConnection : List CConnection} :
      Exec (preCreate mw defaultNum) trace (.ok lstConnection) →
      (∀ event ∈ trace, law event) →
      s.Fresh (lstConnection.map CConnection.id) →
      s.creating.find? client = none →
      PoolSection law mw s (.create client defaultNum trace)
        { s with
          creating := s.creating.insert client lstConnection
          given := lstConnection.map CConnection.id ++ s.given }
  | push {s : PoolState} {client : Nat} {conn : CConnection} {rest : List CConnection} :
      s.creating.find? client = some (conn :: rest) →
      PoolSection law mw s (.push client)
        { s with
          creating := s.creating.insert client rest
          pool := pushFront s.pool (CConnectionPool.created conn) }
  | finish {s : PoolState} {client : Nat} :
      s.creating.find? client = some [] →
      PoolSection law mw s (.finish client) { s with creating := s.creating.erase client }
  | get {s : PoolState} {handle slot : Nat} {key : Option Bytes} {trace : List (Event MwOp MwAns)}
      {raii : CConnectionRAII} {pool : PoolMap} :
      getSlot mw key = .ok slot →
      Exec (CConnectionPool._get mw s.pool slot) trace (.ok (raii, pool)) →
      (∀ event ∈ trace, law event) →
      s.Fresh (opened s.pool slot raii) →
      s.handles.find? handle = none →
      PoolSection law mw s (.get handle key trace)
        { s with
          pool := pool
          handles := s.handles.insert handle raii
          given := opened s.pool slot raii ++ s.given }
  | move {s : PoolState} {source target : Nat} {raii : CConnectionRAII} :
      s.handles.find? source = some raii →
      s.handles.find? target = none →
      PoolSection law mw s (.move source target)
        { s with handles := (s.handles.insert source ⟨none⟩).insert target raii }
  | use {s : PoolState} {handle : Nat} {ptr : ConnPtr} {conn : CConnection} :
      s.handles.find? handle = some ⟨some ptr⟩ →
      conn.id = ptr.conn.id →
      conn.slotRange = ptr.conn.slotRange →
      PoolSection law mw s (.use handle)
        { s with handles := s.handles.insert handle ⟨some { ptr with conn := conn }⟩ }
  | setSlotRange {s : PoolState} {handle rBegin rEnd : Nat} {ptr : ConnPtr} :
      s.handles.find? handle = some ⟨some ptr⟩ →
      PoolSection law mw s (.setSlotRange handle rBegin rEnd)
        { s with
          handles := s.handles.insert handle
            ⟨some { ptr with conn := ptr.conn.setSlotRange rBegin rEnd }⟩ }
  | release {s : PoolState} {handle : Nat} {raii : CConnectionRAII} {pool : PoolMap}
      {freed : List ConnPtr} :
      s.handles.find? handle = some raii →
      raii.destroy s.pool = .ok (pool, freed) →
      PoolSection law mw s (.release handle)
        { s with
          pool := pool
          handles := s.handles.erase handle
          discarded := freed ++ s.discarded }
  | clear {s : PoolState} :
      PoolSection law mw s .clear
        { s with
          pool := CConnectionPool.clear s.pool
          discarded := idle s.pool ++ s.discarded }
  | destroy {s : PoolState} :
      s.creating = .empty →
      s.handles = .empty →
      PoolSection law mw s .destroy
        { s with
          pool := .empty
          discarded := idle s.pool ++ s.discarded
          alive := false }

/-- One step of any client. -/
def PoolStep (law : Event MwOp MwAns → Prop) (mw : List TMiddleWare) (s : PoolState)
    (action : PoolAction) (t : PoolState) : Prop :=
  s.alive = true ∧ PoolSection law mw s action t

/-! ## The lookup -/

theorem lowerBound_of_hit {pool : PoolMap} {slot key : Nat} {front : ConnPtr}
    {rest : List ConnPtr} (found : hit pool slot = some (key, front, rest)) :
    pool.lowerBound slot = some (key, front :: rest) := by
  unfold hit at found
  split at found
  · rename_i lower
    cases found
    exact lower
  · contradiction

theorem find?_of_hit {pool : PoolMap} {slot key : Nat} {front : ConnPtr} {rest : List ConnPtr}
    (found : hit pool slot = some (key, front, rest)) : pool.find? key = some (front :: rest) :=
  OrderedMap.find?_of_lowerBound (lowerBound_of_hit found)

/-- Without a hit, a get asks the middlewares. -/
theorem get_of_missed {mw : List TMiddleWare} {pool : PoolMap} {slot : Nat}
    (missed : hit pool slot = none) :
    CConnectionPool._get mw pool slot =
      (getConnection mw slot).bind fun conn =>
        .pure (⟨conn.map fun conn => ⟨conn, .empty⟩⟩, pool) := by
  rw [CConnectionPool._get]
  split
  · rename_i key front rest lower
    rw [hit, lower] at missed
    contradiction
  · rw [Program.bind_eq_bind]
    congr 1
    funext conn
    cases conn <;> rfl

/-- A get takes the front of the list that was hit; otherwise the pool stays as
it is, and the handle gets what the middlewares give, without a deleter. -/
theorem exec_get {mw : List TMiddleWare} {pool after : PoolMap} {slot : Nat}
    {trace : List (Event MwOp MwAns)} {raii : CConnectionRAII}
    (exec : Exec (CConnectionPool._get mw pool slot) trace (.ok (raii, after))) :
    (∃ key front rest, hit pool slot = some (key, front, rest) ∧ raii = ⟨some front⟩ ∧
        after = pool.insert key rest) ∨
      (hit pool slot = none ∧ after = pool ∧ ∃ conn,
        Exec (getConnection mw slot) trace (.ok conn) ∧
          raii = ⟨conn.map fun conn => ⟨conn, .empty⟩⟩) := by
  cases found : hit pool slot with
  | some entry =>
      obtain ⟨key, front, rest⟩ := entry
      rw [CConnectionPool._get, lowerBound_of_hit found] at exec
      cases (Exec.pure_iff.mp exec).2
      exact .inl ⟨key, front, rest, rfl, rfl, rfl⟩
  | none =>
      rw [get_of_missed found] at exec
      rcases Exec.bind_iff.mp exec with
        ⟨fault, _, resultEq⟩ | ⟨conn, first, last, rfl, asking, returned⟩
      · contradiction
      · obtain ⟨rfl, resultEq⟩ := Exec.pure_iff.mp returned
        cases resultEq
        rw [List.append_nil]
        exact .inr ⟨rfl, rfl, conn, asking, rfl⟩

/-- The destructor of a handle files the connection, or frees it when it is
broken, or has nothing to do. -/
theorem destroy_cases {raii : CConnectionRAII} {pool after : PoolMap} {freed : List ConnPtr}
    (destroyed : raii.destroy pool = .ok (after, freed)) :
    (raii.connPtr = none ∧ after = pool ∧ freed = []) ∨
      ∃ ptr c, raii.connPtr = some ptr ∧ ptr.conn.contextPtr = some c ∧
        ((c.err = 0 ∧ after = pushFront pool ptr ∧ freed = []) ∨
          (c.err ≠ 0 ∧ after = pool ∧ freed = [ptr])) := by
  rcases raii with ⟨_ | ptr⟩
  · cases destroyed
    exact .inl ⟨rfl, rfl, rfl⟩
  · right
    cases valid : ptr.conn.contextPtr with
    | none =>
        simp [CConnectionRAII.destroy, CConnection.errorNo, CConnection.context, valid,
          Except.map, bind, Except.bind] at destroyed
    | some c =>
        simp only [CConnectionRAII.destroy, CConnection.errorNo, CConnection.context, valid,
          Except.map, bind, Except.bind] at destroyed
        refine ⟨ptr, c, rfl, valid, ?_⟩
        by_cases healthy : c.err = 0
        · rw [if_pos healthy] at destroyed
          cases destroyed
          exact .inl ⟨healthy, rfl, rfl⟩
        · rw [if_neg healthy] at destroyed
          cases destroyed
          exact .inr ⟨healthy, rfl, rfl⟩

/-- The connection of a handle without an error is filed. -/
theorem destroy_of_healthy {ptr : ConnPtr} (healthy : ptr.conn.errorNo = .ok 0) (pool : PoolMap) :
    CConnectionRAII.destroy ⟨some ptr⟩ pool = .ok (pushFront pool ptr, []) := by
  simp [CConnectionRAII.destroy, healthy, bind, Except.bind]

/-! ## What the operations on the idle lists keep -/

/-- Every idle connection is filed under the end of its slot range. -/
def Filed (pool : PoolMap) : Prop :=
  ∀ entry ∈ pool.entries, ∀ ptr ∈ entry.2, ptr.conn.slotRange.2 = entry.1

theorem filed_insert {pool : PoolMap} {key : Nat} {ptrs : List ConnPtr} (filed : Filed pool)
    (list : ∀ ptr ∈ ptrs, ptr.conn.slotRange.2 = key) : Filed (pool.insert key ptrs) := by
  intro entry mem
  rcases OrderedMap.mem_insert_iff.mp mem with rfl | ⟨old, _⟩
  · exact list
  · exact filed entry old

theorem filed_pushFront {pool : PoolMap} (filed : Filed pool) (ptr : ConnPtr) :
    Filed (pushFront pool ptr) := by
  apply filed_insert filed
  intro other mem
  rcases List.mem_cons.mp mem with rfl | mem
  · rfl
  · cases found : pool.find? ptr.conn.slotRange.2 with
    | none =>
        rw [found] at mem
        contradiction
    | some ptrs =>
        rw [found] at mem
        exact filed _ (OrderedMap.find?_eq_some_iff.mp found) other mem

theorem filed_clear (pool : PoolMap) : Filed (CConnectionPool.clear pool) := by
  intro entry mem ptr ptrMem
  obtain ⟨old, _, rfl⟩ := List.mem_map.mp mem
  contradiction

/-! ## Counting the connections -/

section Count

variable {β : Type} (g : ConnPtr → β)

/-- What `g` reads off the connections of the idle lists. -/
def idleOf (pool : PoolMap) : List β :=
  pool.collect fun ptrs => ptrs.map g

/-- What `g` reads off the connections of the handles. -/
def heldOf (handles : OrderedMap Nat CConnectionRAII) : List β :=
  handles.collect fun raii => raii.connPtr.toList.map g

theorem map_idle (pool : PoolMap) : (idle pool).map g = idleOf g pool :=
  List.map_flatMap

theorem idleOf_clear (pool : PoolMap) : idleOf g (CConnectionPool.clear pool) = [] := by
  simp [idleOf, CConnectionPool.clear, OrderedMap.collect, OrderedMap.entries_mapValues]

variable [BEq β] (x : β)

omit g in
theorem count_cons_eq_add (first : β) (others : List β) :
    (first :: others).count x = [first].count x + others.count x := by
  rw [← List.singleton_append, List.count_append]

theorem count_pushFront (pool : PoolMap) (ptr : ConnPtr) :
    (idleOf g (pushFront pool ptr)).count x = [g ptr].count x + (idleOf g pool).count x := by
  cases found : pool.find? ptr.conn.slotRange.2 with
  | none =>
      rw [pushFront, found]
      exact OrderedMap.count_collect_insert_new _ found _ x
  | some ptrs =>
      have replaced := OrderedMap.count_collect_insert (fun ptrs => ptrs.map g) found
        (ptr :: ptrs) x
      have front := count_cons_eq_add x (g ptr) (ptrs.map g)
      rw [List.map_cons] at replaced
      rw [pushFront, found, Option.getD_some, idleOf, idleOf]
      omega

/-- The front of the list that was hit is taken from the idle ones. -/
theorem count_of_hit {pool : PoolMap} {slot key : Nat} {front : ConnPtr} {rest : List ConnPtr}
    (found : hit pool slot = some (key, front, rest)) :
    (idleOf g pool).count x = [g front].count x + (idleOf g (pool.insert key rest)).count x := by
  have taken := OrderedMap.count_collect_insert (fun ptrs => ptrs.map g) (find?_of_hit found) rest x
  rw [List.map_cons, count_cons_eq_add] at taken
  rw [idleOf, idleOf]
  omega

variable {handles : OrderedMap Nat CConnectionRAII}

theorem count_heldOf_insert {handle : Nat} (absent : handles.find? handle = none)
    (raii : CConnectionRAII) :
    (heldOf g (handles.insert handle raii)).count x =
      (raii.connPtr.toList.map g).count x + (heldOf g handles).count x :=
  OrderedMap.count_collect_insert_new _ absent raii x

/-- A moved handle leaves nothing behind. -/
theorem count_heldOf_move {source target : Nat} {raii : CConnectionRAII}
    (found : handles.find? source = some raii) (absent : handles.find? target = none) :
    (heldOf g ((handles.insert source ⟨none⟩).insert target raii)).count x =
      (heldOf g handles).count x := by
  have targetAbsent : (handles.insert source ⟨none⟩).find? target = none := by
    rw [OrderedMap.find?_insert_of_ne, absent]
    rintro rfl
    rw [found] at absent
    contradiction
  have emptied := OrderedMap.count_collect_insert
    (fun raii => raii.connPtr.toList.map g) found ⟨none⟩ x
  rw [Option.toList_none, List.map_nil, List.count_nil] at emptied
  rw [count_heldOf_insert g x targetAbsent, heldOf, heldOf]
  omega

theorem count_heldOf_replace {handle : Nat} {ptr other : ConnPtr}
    (found : handles.find? handle = some ⟨some ptr⟩) (same : g other = g ptr) :
    (heldOf g (handles.insert handle ⟨some other⟩)).count x = (heldOf g handles).count x := by
  have replaced := OrderedMap.count_collect_insert
    (fun raii => raii.connPtr.toList.map g) found ⟨some other⟩ x
  rw [Option.toList_some, Option.toList_some, List.map_singleton, List.map_singleton,
    same] at replaced
  rw [heldOf, heldOf]
  omega

/-- A destroyed handle leaves its connection in an idle list, or it is freed. -/
theorem count_destroy {handle : Nat} {raii : CConnectionRAII} {pool after : PoolMap}
    {freed : List ConnPtr} (found : handles.find? handle = some raii)
    (destroyed : raii.destroy pool = .ok (after, freed)) :
    (idleOf g after).count x + (heldOf g (handles.erase handle)).count x +
        (freed.map g).count x =
      (idleOf g pool).count x + (heldOf g handles).count x := by
  have erased := OrderedMap.count_collect_erase (fun raii => raii.connPtr.toList.map g) found x
  rw [heldOf, heldOf]
  rcases destroy_cases destroyed with
    ⟨none, rfl, rfl⟩ | ⟨ptr, c, some, _, ⟨_, rfl, rfl⟩ | ⟨_, rfl, rfl⟩⟩
  · rw [none, Option.toList_none, List.map_nil, List.count_nil] at erased
    rw [List.map_nil, List.count_nil]
    omega
  · have pushed := count_pushFront g x pool ptr
    rw [some, Option.toList_some, List.map_singleton] at erased
    rw [List.map_nil, List.count_nil]
    omega
  · rw [some, Option.toList_some, List.map_singleton] at erased
    rw [List.map_singleton]
    omega

end Count

/-! ## Ownership -/

/-- No connection is lost and none is duplicated: over the idle lists, the
handles, the unfinished creates and the discarded pointers, a connection occurs
as often as it was given, which is at most once. -/
structure PoolInv (s : PoolState) : Prop where
  conserved : ∀ id, s.idleIds.count id + s.handleIds.count id + s.creatingIds.count id +
    s.discardedIds.count id = s.given.count id
  distinct : s.given.Nodup
  filed : Filed s.pool

theorem PoolInv.init : PoolInv .init where
  conserved := fun _ => rfl
  distinct := .nil
  filed := nofun

theorem PoolState.Fresh.nodup_append {s : PoolState} {ids : List Nat} (fresh : s.Fresh ids)
    (distinct : s.given.Nodup) : (ids ++ s.given).Nodup :=
  List.nodup_append'.mpr ⟨fresh.1, distinct, fresh.2⟩

/-- How often a connection occurs: idle, held, to be pushed, or discarded. -/
def PoolState.tally (s : PoolState) (id : Nat) : Nat :=
  s.idleIds.count id + s.handleIds.count id + s.creatingIds.count id + s.discardedIds.count id

theorem PoolState.tally_eq (s : PoolState) (id : Nat) :
    s.tally id = (idleOf ConnPtr.id s.pool).count id + (heldOf ConnPtr.id s.handles).count id +
      (s.creating.collect fun lstConnection => lstConnection.map CConnection.id).count id +
      (s.discarded.map ConnPtr.id).count id :=
  rfl

namespace PoolInv

variable {s t : PoolState}

/-- A step that only moves connections. -/
theorem moves (inv : PoolInv s) (givenEq : t.given = s.given) (filed : Filed t.pool)
    (same : ∀ id, t.tally id = s.tally id) : PoolInv t where
  conserved := by
    intro id
    rw [givenEq]
    exact (same id).trans (inv.conserved id)
  distinct := givenEq ▸ inv.distinct
  filed := filed

/-- A step in which the middlewares give connections. -/
theorem receives {ids : List Nat} (inv : PoolInv s) (fresh : s.Fresh ids)
    (givenEq : t.given = ids ++ s.given) (filed : Filed t.pool)
    (more : ∀ id, t.tally id = ids.count id + s.tally id) : PoolInv t where
  conserved := by
    intro id
    rw [givenEq, List.count_append, ← inv.conserved id]
    exact more id
  distinct := givenEq ▸ fresh.nodup_append inv.distinct
  filed := filed

/-- A get moves the front of an idle list to the handle, or receives the
connection that the middlewares give. -/
theorem get {mw : List TMiddleWare} {handle slot : Nat} {trace : List (Event MwOp MwAns)}
    {raii : CConnectionRAII} {pool : PoolMap} (inv : PoolInv s)
    (exec : Exec (CConnectionPool._get mw s.pool slot) trace (.ok (raii, pool)))
    (fresh : s.Fresh (opened s.pool slot raii)) (absent : s.handles.find? handle = none) :
    PoolInv { s with
      pool := pool
      handles := s.handles.insert handle raii
      given := opened s.pool slot raii ++ s.given } := by
  rcases exec_get exec with
    ⟨listKey, front, rest, found, rfl, rfl⟩ | ⟨missed, rfl, conn, _, rfl⟩
  · have stored := find?_of_hit found
    have filed : Filed (s.pool.insert listKey rest) := by
      apply filed_insert inv.filed
      intro ptr mem
      exact inv.filed _ (OrderedMap.find?_eq_some_iff.mp stored) ptr (List.mem_cons_of_mem _ mem)
    have noneOpened : opened s.pool slot ⟨some front⟩ = [] := by
      rw [opened, found]
      rfl
    refine inv.moves (by rw [noneOpened]; rfl) filed ?_
    intro id
    have taken := count_of_hit ConnPtr.id id found
    simp only [PoolState.tally_eq, count_heldOf_insert ConnPtr.id id absent, Option.toList_some,
      List.map_singleton]
    omega
  · refine inv.receives fresh rfl inv.filed ?_
    intro id
    rw [opened, missed, Option.isSome_none, if_neg Bool.false_ne_true]
    simp only [PoolState.tally_eq, count_heldOf_insert ConnPtr.id id absent]
    omega

/-- A moved handle leaves nothing behind. -/
theorem move {source target : Nat} {raii : CConnectionRAII} (inv : PoolInv s)
    (found : s.handles.find? source = some raii) (absent : s.handles.find? target = none) :
    PoolInv { s with handles := (s.handles.insert source ⟨none⟩).insert target raii } := by
  refine inv.moves rfl inv.filed ?_
  intro id
  simp only [PoolState.tally_eq, count_heldOf_move ConnPtr.id id found absent]

/-- A handle whose connection keeps its name holds the same connection. -/
theorem replace {handle : Nat} {ptr : ConnPtr} (inv : PoolInv s)
    (found : s.handles.find? handle = some ⟨some ptr⟩) (other : ConnPtr)
    (sameId : other.id = ptr.id) :
    PoolInv { s with handles := s.handles.insert handle ⟨some other⟩ } := by
  refine inv.moves rfl inv.filed ?_
  intro id
  simp only [PoolState.tally_eq, count_heldOf_replace ConnPtr.id id found sameId]

/-- A destroyed handle leaves its connection in an idle list or discards it. -/
theorem release {handle : Nat} {raii : CConnectionRAII} {pool : PoolMap} {freed : List ConnPtr}
    (inv : PoolInv s) (found : s.handles.find? handle = some raii)
    (destroyed : raii.destroy s.pool = .ok (pool, freed)) :
    PoolInv { s with
      pool := pool
      handles := s.handles.erase handle
      discarded := freed ++ s.discarded } := by
  have filed : Filed pool := by
    rcases destroy_cases destroyed with ⟨_, rfl, _⟩ | ⟨ptr, c, _, _, ⟨_, rfl, _⟩ | ⟨_, rfl, _⟩⟩
    · exact inv.filed
    · exact filed_pushFront inv.filed ptr
    · exact inv.filed
  refine inv.moves rfl filed ?_
  intro id
  have left := count_destroy ConnPtr.id id found destroyed
  simp only [PoolState.tally_eq, List.map_append, List.count_append]
  omega

/-- Every step keeps the ownership of the connections. -/
theorem step {law : Event MwOp MwAns → Prop} {mw : List TMiddleWare} {action : PoolAction}
    (inv : PoolInv s) (step : PoolSection law mw s action t) : PoolInv t := by
  cases step with
  | @create client defaultNum trace lstConnection exec lawful fresh absent =>
      refine inv.receives fresh rfl inv.filed ?_
      intro id
      have added := OrderedMap.count_collect_insert_new
        (fun lstConnection => lstConnection.map CConnection.id) absent lstConnection id
      simp only [PoolState.tally_eq]
      omega
  | @push client conn rest found =>
      refine inv.moves rfl (filed_pushFront inv.filed _) ?_
      intro id
      have taken := OrderedMap.count_collect_insert
        (fun lstConnection => lstConnection.map CConnection.id) found rest id
      have pushed := count_pushFront ConnPtr.id id s.pool (CConnectionPool.created conn)
      rw [List.map_cons, count_cons_eq_add] at taken
      change _ = [conn.id].count id + _ at pushed
      simp only [PoolState.tally_eq]
      omega
  | @finish client found =>
      refine inv.moves rfl inv.filed ?_
      intro id
      have erased := OrderedMap.count_collect_erase
        (fun lstConnection => lstConnection.map CConnection.id) found id
      rw [List.map_nil, List.count_nil] at erased
      simp only [PoolState.tally_eq]
      omega
  | get _ exec _ fresh absent => exact inv.get exec fresh absent
  | move found absent => exact inv.move found absent
  | @use handle ptr conn found sameId _ => exact inv.replace found { ptr with conn := conn } sameId
  | @setSlotRange handle rBegin rEnd ptr found =>
      exact inv.replace found { ptr with conn := ptr.conn.setSlotRange rBegin rEnd } rfl
  | release found destroyed => exact inv.release found destroyed
  | clear =>
      refine inv.moves rfl (filed_clear s.pool) ?_
      intro id
      simp only [PoolState.tally_eq, idleOf_clear, List.map_append, map_idle,
        List.count_append, List.count_nil]
      omega
  | destroy noCreate noHandle =>
      refine inv.moves rfl nofun ?_
      intro id
      simp only [PoolState.tally_eq, List.map_append, map_idle, List.count_append]
      change 0 + _ + _ + _ = _
      omega

end PoolInv

/-- What the clients may rely on: a live connection is in exactly one place, the
places hold no other connection, and an idle one is filed under the end of its
slot range. -/
structure Owned (s : PoolState) : Prop where
  once : ∀ id, s.Live id → s.places.count id = 1
  onlyLive : ∀ id ∈ s.places, s.Live id
  filed : ∀ entry ∈ s.pool.entries, ∀ ptr ∈ entry.2, ptr.conn.slotRange.2 = entry.1

theorem PoolState.count_places (s : PoolState) (id : Nat) :
    s.places.count id = s.idleIds.count id + s.handleIds.count id + s.creatingIds.count id := by
  rw [PoolState.places, List.count_append, List.count_append, Nat.add_assoc]

theorem PoolInv.owned {s : PoolState} (inv : PoolInv s) : Owned s := by
  have balance : ∀ id, s.places.count id + s.discardedIds.count id = s.given.count id := by
    intro id
    rw [PoolState.count_places]
    exact inv.conserved id
  have atMostOnce : ∀ id, s.given.count id ≤ 1 := fun id =>
    List.nodup_iff_count_le_one.mp inv.distinct id
  constructor
  · rintro id ⟨given, notDiscarded⟩
    have givenOnce := List.count_pos_iff.mpr given
    have absent := List.count_eq_zero.mpr notDiscarded
    have balance := balance id
    have atMostOnce := atMostOnce id
    omega
  · intro id held
    have heldOnce := List.count_pos_iff.mpr held
    have balance := balance id
    have atMostOnce := atMostOnce id
    constructor
    · apply List.count_pos_iff.mp
      omega
    · apply List.count_eq_zero.mp
      omega
  · exact inv.filed

/-- A discarded connection stays discarded. -/
theorem discardedIds_subset {law : Event MwOp MwAns → Prop} {mw : List TMiddleWare}
    {s t : PoolState} {action : PoolAction}
    (step : PoolSection law mw s action t) : s.discardedIds ⊆ t.discardedIds := by
  cases step with
  | release found destroyed =>
      rw [PoolState.discardedIds, PoolState.discardedIds, List.map_append]
      exact List.subset_append_right _ _
  | clear =>
      rw [PoolState.discardedIds, PoolState.discardedIds, List.map_append]
      exact List.subset_append_right _ _
  | destroy =>
      rw [PoolState.discardedIds, PoolState.discardedIds, List.map_append]
      exact List.subset_append_right _ _
  | _ => exact List.Subset.refl _

/-- The visit destroys a handle whose connection has an error. -/
def ReleasesBroken (visit : Visit PoolState PoolAction) (ptr : ConnPtr) : Prop :=
  ∃ handle c, visit.label = .release handle ∧
    visit.before.handles.find? handle = some ⟨some ptr⟩ ∧
    ptr.conn.contextPtr = some c ∧ c.err ≠ 0

theorem discarded_of_releasesBroken {law : Event MwOp MwAns → Prop} {mw : List TMiddleWare}
    {visit : Visit PoolState PoolAction} {ptr : ConnPtr} (broken : ReleasesBroken visit ptr)
    (step : PoolSection law mw visit.before visit.label visit.after) :
    ptr.id ∈ visit.after.discardedIds := by
  obtain ⟨handle, c, labelEq, found, valid, failed⟩ := broken
  rcases visit with ⟨before, label, after⟩
  cases (show label = .release handle from labelEq)
  change PoolSection law mw before (.release handle) after at step
  change before.handles.find? handle = some ⟨some ptr⟩ at found
  cases step with
  | @release _ raii pool freed released destroyed =>
      cases released.symm.trans found
      rcases destroy_cases destroyed with
        ⟨none, _⟩ | ⟨other, c', some, valid', ⟨healthy, _⟩ | ⟨_, rfl, rfl⟩⟩
      · contradiction
      · cases some
        cases valid.symm.trans valid'
        exact absurd healthy failed
      · cases some
        exact List.mem_cons_self

/-- In every state that any interleaving of the clients reaches, every live
connection is in exactly one place; a connection whose handle is destroyed while
it has an error is in no place in any later state. -/
theorem pool_ownership {law : Event MwOp MwAns → Prop} {mw : List TMiddleWare}
    {visits : List (Visit PoolState PoolAction)} {last : PoolState}
    (run : Run (PoolStep law mw) .init visits last) :
    Owned last ∧ ∀ earlier visit later ptr, visits = earlier ++ visit :: later →
      ReleasesBroken visit ptr →
        ∀ state ∈ visit.after :: later.map Visit.after, ptr.id ∉ state.places := by
  have keeps : ∀ visit : Visit PoolState PoolAction,
      PoolStep law mw visit.before visit.label visit.after → PoolInv visit.before →
        PoolInv visit.after := fun visit step inv => inv.step step.2
  constructor
  · exact (run.invariant PoolInv PoolInv.init fun visit _ => keeps visit).1.owned
  · rintro earlier visit later ptr rfl broken
    obtain ⟨before, step, after⟩ := run.split
    have inv := keeps visit step
      (before.invariant PoolInv PoolInv.init fun visit _ => keeps visit).1
    have discarded := discarded_of_releasesBroken broken step.2
    have absent : ∀ state, PoolInv state → ptr.id ∈ state.discardedIds → ptr.id ∉ state.places :=
      fun state inv gone held => (inv.owned.onlyLive _ held).2 gone
    have around := after.invariant (fun state => PoolInv state ∧ ptr.id ∈ state.discardedIds)
      ⟨inv, discarded⟩ fun visit _ step both =>
        ⟨keeps visit step both.1, discardedIds_subset step.2 both.2⟩
    intro state mem
    rcases List.mem_cons.mp mem with rfl | mem
    · exact absent _ inv discarded
    · obtain ⟨other, otherMem, rfl⟩ := List.mem_map.mp mem
      obtain ⟨_, otherInv, gone⟩ := around.2 other otherMem
      exact absent _ otherInv gone

/-! ## A short run -/

/-- A pool over one server. -/
def oneServer : List TMiddleWare :=
  [CDefaultMiddleWare.toTMiddleWare ⟨[0x68], 6379, false, 0⟩]

/-- No assumption on the answers. -/
abbrev anyAnswer (_ : Event MwOp MwAns) : Prop :=
  True

/-- A server that accepts every connection; the state is the name of the next
one. -/
def acceptingServer : Environment MwOp MwAns Nat
  | .redis (.connectWithTimeout _ _ _), id => (.connected, id)
  | .redis (.setTimeout _ _), id => (none, id)
  | .redis (.commandArgv _ _), id => (.reply .nil, id)
  | .redis (.appendCommandArgv _ _), id => (none, id)
  | .redis (.getReply _), id => (.ok .nil, id)
  | .newConnection, id => (id, id + 1)
  | .deleteConnection _, id => ((), id)
  | .reserve _, id => (true, id)
  | .connectionCallback conn, id => (conn, id)
  | .rand, id => (0, id)
  | .foreign _ _, id => (none, id)

/-- The connection that is opened under a name. -/
def acceptedConnection (id : Nat) : CConnection :=
  { CConnection.create id with contextPtr := some .opened, host := [0x68], port := 6379 }

instance (s : PoolState) (ids : List Nat) : Decidable (s.Fresh ids) :=
  inferInstanceAs (Decidable (_ ∧ _))

/-- The pool after a get that opens the first connection. -/
def afterGet : PoolState :=
  { PoolState.init with
    handles := OrderedMap.empty.insert 0 ⟨some ⟨acceptedConnection 0, .empty⟩⟩
    given := [0] }

theorem step_get_oneServer : ∃ answers,
    PoolStep anyAnswer oneServer .init (.get 0 none answers) afterGet := by
  have exec := Program.exec_run acceptingServer
    (CConnectionPool._get oneServer .empty uint32Max) 0
  exact ⟨_, rfl, .get rfl exec (fun _ _ => trivial) (by decide) rfl⟩

/-- The connection after a command that failed. -/
def brokenConnection : CConnection :=
  (acceptedConnection 0).setContext (RedisContext.opened.setError ⟨1, []⟩)

def afterUse : PoolState :=
  { afterGet with handles := afterGet.handles.insert 0 ⟨some ⟨brokenConnection, .empty⟩⟩ }

def afterRelease : PoolState :=
  { afterUse with
    handles := afterUse.handles.erase 0
    discarded := [⟨brokenConnection, .empty⟩] ++ afterUse.discarded }

/-- A connection is opened by a get, broken by its use and released. -/
theorem pool_ownership_oneServer :
    ∃ visits last, Run (PoolStep anyAnswer oneServer) .init visits last ∧
      Owned last ∧ ∀ earlier visit later ptr, visits = earlier ++ visit :: later →
        ReleasesBroken visit ptr →
          ∀ state ∈ visit.after :: later.map Visit.after, ptr.id ∉ state.places := by
  have used : PoolStep anyAnswer oneServer afterGet (.use 0) afterUse :=
    ⟨rfl, @PoolSection.use anyAnswer oneServer afterGet 0 ⟨acceptedConnection 0, .empty⟩
      brokenConnection rfl rfl rfl⟩
  have released : PoolStep anyAnswer oneServer afterUse (.release 0) afterRelease :=
    ⟨rfl, .release rfl rfl⟩
  obtain ⟨_, opened⟩ := step_get_oneServer
  have run := Run.cons opened (.cons used (.single released))
  exact ⟨_, _, run, pool_ownership run⟩

end MCRedis.Pool
