import MCRedis.Pool.Pointers

/-!
# The deleters

A connection that `create` brings into the pool carries a deleter; one that a
get opens on demand does not.  The deleter stays with the pointer, so the pool
keeps to its discipline exactly as long as no get opens a connection.
-/

namespace MCRedis.Pool

open MCRedis.Client
open MCRedis.Container
open MCRedis.MiddleWare
open MCRedis.Transition

/-- Every pointer that the pool or a handle holds has a deleter, and discarding
frees a connection, once, and only when nothing holds it any more. -/
structure Callable (s : PoolState) : Prop where
  idle : ∀ ptr ∈ idle s.pool, ptr.deleter = .deletes
  handles : ∀ ptr ∈ s.handlePtrs, ptr.deleter = .deletes
  discarded : ∀ ptr ∈ s.discarded, ptr.deleter = .deletes
  once : s.discardedIds.Nodup
  gone : ∀ id ∈ s.discardedIds, id ∉ s.places

theorem PoolInv.callable {s : PoolState} (inv : PoolInv s)
    (deleters : AllPtrs (fun ptr => ptr.deleter = .deletes) s) : Callable s where
  idle := deleters.idle
  handles := deleters.handles
  discarded := deleters.discarded
  once := by
    apply List.nodup_iff_count_le_one.mpr
    intro id
    have conserved := inv.conserved id
    have distinct := List.nodup_iff_count_le_one.mp inv.distinct id
    omega
  gone := fun id discarded held => (inv.owned.onlyLive id held).2 discarded

/-- A get finds a connection in an idle list, or the middlewares have none to
give. -/
def FromIdle (mw : List TMiddleWare) (visit : Visit PoolState PoolAction) : Prop :=
  ∀ handle key answers slot, visit.label = .get handle key answers → getSlot mw key = .ok slot →
    (hit visit.before.pool slot).isSome ∨ Exec (getConnection mw slot) answers (.ok none)

/-- A step that opens no connection on demand keeps the deleters. -/
theorem FromIdle.keepsPtrs {law : Event MwOp MwAns → Prop} {mw : List TMiddleWare}
    {visit : Visit PoolState PoolAction} (fromIdle : FromIdle mw visit) :
    KeepsPtrs law mw (fun ptr => ptr.deleter = .deletes) visit where
  create := fun _ _ _ _ _ _ _ _ _ => rfl
  get := by
    intro handle key slot trace conn labelEq slotEq missed asking _
    rcases fromIdle handle key trace slot labelEq slotEq with isHit | notGiven
    · rw [missed] at isHit
      contradiction
    · cases asking.unique notGiven
  use := fun _ _ _ _ _ deletes => deletes
  setSlotRange := fun _ _ _ _ _ deletes => deletes

/-- A get that opens a connection hands out a pointer without a deleter. -/
theorem fromIdle_of_callable {law : Event MwOp MwAns → Prop} {mw : List TMiddleWare}
    {visit : Visit PoolState PoolAction}
    (step : PoolSection law mw visit.before visit.label visit.after)
    (callable : Callable visit.after) : FromIdle mw visit := by
  rcases visit with ⟨s, action, t⟩
  change PoolSection law mw s action t at step
  rintro handle key answers slot rfl slotEq
  cases step with
  | @get _ slot' _ _ raii pool slotEq' exec lawful fresh absent =>
      cases slotEq.symm.trans slotEq'
      rcases exec_get exec with
        ⟨listKey, front, rest, found, rfl, rfl⟩ | ⟨missed, rfl, conn, asking, rfl⟩
      · left
        change (hit s.pool slot).isSome
        rw [found]
        rfl
      · right
        cases conn with
        | none => exact asking
        | some conn =>
            have held : (⟨conn, .empty⟩ : ConnPtr) ∈ PoolState.handlePtrs
                { s with
                  handles := s.handles.insert handle ⟨some ⟨conn, .empty⟩⟩
                  given := opened s.pool slot ⟨some ⟨conn, .empty⟩⟩ ++ s.given } :=
              OrderedMap.mem_collect_of_find? _ (OrderedMap.find?_insert_self _ _ _)
                (List.mem_singleton_self _)
            exact absurd (callable.handles _ held) Deleter.noConfusion

/-- Along a run, every pointer is callable and every discarded connection is
freed exactly once exactly when no get opens a connection on demand. -/
theorem callable_iff_fromIdle {law : Event MwOp MwAns → Prop} {mw : List TMiddleWare}
    {visits : List (Visit PoolState PoolAction)} {last : PoolState}
    (run : Run (PoolStep law mw) .init visits last) :
    (∀ visit ∈ visits, Callable visit.after) ↔ ∀ visit ∈ visits, FromIdle mw visit := by
  constructor
  · intro callable visit mem
    exact fromIdle_of_callable (run.step_of_mem visit mem).2 (callable visit mem)
  · intro fromIdle visit mem
    have around := run.invariant
      (fun s => PoolInv s ∧ AllPtrs (fun ptr => ptr.deleter = .deletes) s)
      ⟨PoolInv.init, AllPtrs.init _⟩
      fun visit mem step inv =>
        ⟨inv.1.step step.2, inv.2.step step.2 (fromIdle visit mem).keepsPtrs⟩
    obtain ⟨_, inv, deleters⟩ := around.2 visit mem
    exact inv.callable deleters

/-- The pool after `create(1)` has obtained a connection. -/
def afterCreate : PoolState :=
  { PoolState.init with
    creating := PoolState.init.creating.insert 0 [acceptedConnection 0]
    given := [acceptedConnection 0].map CConnection.id ++ PoolState.init.given }

def afterPush : PoolState :=
  { afterCreate with
    creating := afterCreate.creating.insert 0 []
    pool := pushFront afterCreate.pool (CConnectionPool.created (acceptedConnection 0)) }

def afterIdleGet : PoolState :=
  { afterPush with
    pool := afterPush.pool.insert uint32Max []
    handles := afterPush.handles.insert 0 ⟨some (CConnectionPool.created (acceptedConnection 0))⟩
    given := opened afterPush.pool uint32Max
      ⟨some (CConnectionPool.created (acceptedConnection 0))⟩ ++ afterPush.given }

/-- A connection that `create` made is obtained from its idle list. -/
theorem callable_after_create :
    ∃ visits last, Run (PoolStep anyAnswer oneServer) .init visits last ∧
      ∀ visit ∈ visits, Callable visit.after := by
  have create := Program.exec_run acceptingServer (preCreate oneServer 1) 0
  have get := Program.exec_run acceptingServer
    (CConnectionPool._get oneServer afterPush.pool uint32Max) 0
  have created : PoolStep anyAnswer oneServer .init (.create 0 1 _) afterCreate :=
    ⟨rfl, .create create (fun _ _ => trivial) (by decide) rfl⟩
  have pushed : PoolStep anyAnswer oneServer afterCreate (.push 0) afterPush := ⟨rfl, .push rfl⟩
  have obtained : PoolStep anyAnswer oneServer afterPush (.get 0 none _) afterIdleGet :=
    ⟨rfl, .get rfl get (fun _ _ => trivial) (by decide) rfl⟩
  have run := Run.cons created (.cons pushed (.single obtained))
  refine ⟨_, _, run, (callable_iff_fromIdle run).mpr ?_⟩
  simp only [List.forall_mem_cons, List.not_mem_nil, false_imp_iff, implies_true, and_true]
  refine ⟨nofun, nofun, ?_⟩
  rintro handle key answers slot ⟨⟩ ⟨⟩
  exact .inl rfl

/-- A get on an empty pool hands out a pointer with an empty deleter. -/
theorem get_opens_without_deleter :
    ∃ visits last, Run (PoolStep anyAnswer oneServer) .init visits last ∧
      ¬ ∀ visit ∈ visits, Callable visit.after := by
  obtain ⟨_, step⟩ := step_get_oneServer
  refine ⟨_, _, .single step, ?_⟩
  intro callable
  exact absurd ((callable _ (List.mem_singleton_self _)).handles ⟨acceptedConnection 0, .empty⟩
    (List.mem_singleton_self _)) Deleter.noConfusion

end MCRedis.Pool
