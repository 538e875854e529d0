import MCRedis.MiddleWare.Health
import MCRedis.Pool.Deleters

/-!
# Admission to the idle lists

The destructor of a handle files a connection only without an error number;
`create` files whatever the middlewares give.  The idle lists stay free of broken
connections as long as no call of `create` is given one.
-/

namespace MCRedis.Pool

open MCRedis.Client
open MCRedis.Container
open MCRedis.MiddleWare
open MCRedis.MiddleWare.Health
open MCRedis.Transition

/-- Every idle connection has the error number 0. -/
def Admitted (s : PoolState) : Prop :=
  ∀ ptr ∈ idle s.pool, Healthy ptr.conn

/-- The connections that are idle, and those that will be. -/
structure AdmissionInv (s : PoolState) : Prop where
  admitted : Admitted s
  creating : ∀ conn ∈ s.createdConnections, Healthy conn

theorem AdmissionInv.init : AdmissionInv .init :=
  ⟨nofun, nofun⟩

/-- In a call of `create`, a timeout that cannot be set or a callback leaves no
connection with an error. -/
def CreatesMended (visit : Visit PoolState PoolAction) : Prop :=
  ∀ client defaultNum answers, visit.label = .create client defaultNum answers →
    damage.Mended answers

/-- A handle that is destroyed files a healthy connection only. -/
theorem admitted_destroy {raii : CConnectionRAII} {pool after : PoolMap} {freed : List ConnPtr}
    (destroyed : raii.destroy pool = .ok (after, freed))
    (all : ∀ ptr ∈ idle pool, Healthy ptr.conn) : ∀ ptr ∈ idle after, Healthy ptr.conn := by
  rcases destroy_cases destroyed with
    ⟨_, rfl, _⟩ | ⟨ptr, c, _, valid, ⟨zero, rfl, _⟩ | ⟨_, rfl, _⟩⟩
  · exact all
  · have healthy : Healthy ptr.conn := by
      rw [Healthy, CConnection.errorNo, CConnection.context, valid, ← zero]
      rfl
    exact forall_idle_pushFront healthy all
  · exact all

/-- The step lemma: only `create` may bring a broken connection. -/
theorem AdmissionInv.step {law : Event MwOp MwAns → Prop} {mw : List TMiddleWare}
    {visit : Visit PoolState PoolAction} (provided : ∀ elem ∈ mw, Provided elem)
    (inv : AdmissionInv visit.before)
    (step : PoolSection law mw visit.before visit.label visit.after)
    (mended : CreatesMended visit) : AdmissionInv visit.after := by
  rcases visit with ⟨s, action, t⟩
  change PoolSection law mw s action t at step
  change AdmissionInv s at inv
  have admitted := inv.admitted
  have creating := inv.creating
  cases step with
  | @create client defaultNum trace lstConnection exec lawful fresh absent =>
      have given := (healthy_iff_mended provided exec).mpr (mended client defaultNum trace rfl)
      exact ⟨admitted, OrderedMap.forall_collect_insert _ given creating⟩
  | @push client conn rest found =>
      obtain ⟨first, others⟩ :=
        List.forall_mem_cons.mp (OrderedMap.forall_of_find? (fun conns => conns) found creating)
      exact ⟨forall_idle_pushFront first admitted,
        OrderedMap.forall_collect_insert _ others creating⟩
  | finish => exact ⟨admitted, OrderedMap.forall_collect_erase _ creating⟩
  | get slotEq exec lawful fresh absent =>
      rcases exec_get exec with ⟨listKey, front, rest, found, rfl, rfl⟩ | ⟨_, rfl, _⟩
      · exact ⟨(forall_idle_of_hit found admitted).2, creating⟩
      · exact ⟨admitted, creating⟩
  | release found destroyed => exact ⟨admitted_destroy destroyed admitted, creating⟩
  | clear =>
      refine ⟨?_, creating⟩
      change ∀ ptr ∈ idle (CConnectionPool.clear s.pool), Healthy ptr.conn
      rw [idle_clear]
      exact fun _ mem => absurd mem List.not_mem_nil
  | destroy => exact ⟨fun _ mem => absurd mem List.not_mem_nil, creating⟩
  | _ => exact ⟨admitted, creating⟩

/-- In a run whose calls of `create` are mended, every idle connection of every
state has the error number 0, and so has every connection that a get takes from
an idle list. -/
theorem admitted_of_mended {law : Event MwOp MwAns → Prop} {mw : List TMiddleWare}
    {visits : List (Visit PoolState PoolAction)} {last : PoolState}
    (provided : ∀ elem ∈ mw, Provided elem) (run : Run (PoolStep law mw) .init visits last)
    (mended : ∀ visit ∈ visits, CreatesMended visit) :
    Admitted last ∧ ∀ visit ∈ visits, (Admitted visit.before ∧ Admitted visit.after) ∧
      ∀ slot key front rest, hit visit.before.pool slot = some (key, front, rest) →
        front.conn.errorNo = .ok 0 := by
  obtain ⟨final, around⟩ := run.invariant AdmissionInv AdmissionInv.init
    fun visit mem step inv => inv.step provided step.2 (mended visit mem)
  refine ⟨final.admitted, ?_⟩
  intro visit mem
  obtain ⟨before, after⟩ := around visit mem
  refine ⟨⟨before.admitted, after.admitted⟩, ?_⟩
  intro slot key front rest found
  exact (forall_idle_of_hit found before.admitted).1

theorem provided_oneServer : ∀ elem ∈ oneServer, Provided elem :=
  List.forall_mem_singleton.mpr (.default _)

/-- A connection that is accepted is created and filed. -/
theorem admitted_after_create :
    ∃ visits last, Run (PoolStep anyAnswer oneServer) .init visits last ∧
      idle last.pool = [CConnectionPool.created (acceptedConnection 0)] ∧
      Admitted last ∧ ∀ visit ∈ visits, (Admitted visit.before ∧ Admitted visit.after) ∧
        ∀ slot key front rest, hit visit.before.pool slot = some (key, front, rest) →
          front.conn.errorNo = .ok 0 := by
  have create := Program.exec_run acceptingServer (preCreate oneServer 1) 0
  have created : PoolStep anyAnswer oneServer .init (.create 0 1 _) afterCreate :=
    ⟨rfl, .create create (fun _ _ => trivial) (by decide) rfl⟩
  have pushed : PoolStep anyAnswer oneServer afterCreate (.push 0) afterPush := ⟨rfl, .push rfl⟩
  have run := Run.cons created (.single pushed)
  refine ⟨_, _, run, rfl, admitted_of_mended provided_oneServer run ?_⟩
  simp only [List.forall_mem_cons, List.not_mem_nil, false_imp_iff, implies_true, and_true]
  refine ⟨?_, nofun⟩
  rintro client defaultNum answers ⟨⟩
  exact (healthy_iff_mended provided_oneServer create).mp (List.forall_mem_singleton.mpr rfl)

/-! ## A callback whose command fails -/

/-- A server with a callback. -/
def calledServer : CDefaultMiddleWare :=
  ⟨[0x68], 6379, true, 0⟩

/-- The callback sends a command, and the server has closed the connection. -/
def calledAnswers : List (Event MwOp MwAns) :=
  [⟨.reserve 1, true⟩, ⟨.newConnection, (0 : Nat)⟩,
    ⟨.redis (.connectWithTimeout [0x68] 6379 0), ConnectAnswer.connected⟩,
    ⟨.connectionCallback (acceptedConnection 0), brokenConnection⟩]

theorem exec_calledServer :
    Exec (preCreate [calledServer.toTMiddleWare] 1) calledAnswers (.ok [brokenConnection]) := by
  change Exec (Program.request (MwOp.reserve 1) _) _ _
  refine Exec.request_iff.mpr ⟨true, _, rfl, ?_⟩
  change Exec (Program.request MwOp.newConnection _) _ _
  refine Exec.request_iff.mpr ⟨(0 : Nat), _, rfl, ?_⟩
  change Exec (Program.request (MwOp.redis (.connectWithTimeout _ _ _)) _) _ _
  refine Exec.request_iff.mpr ⟨ConnectAnswer.connected, _, rfl, ?_⟩
  change Exec (Program.request (MwOp.connectionCallback _) _) _ _
  refine Exec.request_iff.mpr ⟨brokenConnection, _, rfl, ?_⟩
  exact Exec.pure [brokenConnection]

def calledCreate : PoolState :=
  { PoolState.init with
    creating := PoolState.init.creating.insert 0 [brokenConnection]
    given := [brokenConnection].map CConnection.id ++ PoolState.init.given }

def calledPush : PoolState :=
  { calledCreate with
    creating := calledCreate.creating.insert 0 []
    pool := pushFront calledCreate.pool (CConnectionPool.created brokenConnection) }

/-- `create` files the broken connection, and the next get hands it out. -/
theorem broken_connection_filed :
    ∃ visits, Run (PoolStep anyAnswer [calledServer.toTMiddleWare]) .init visits calledPush ∧
      ¬ Admitted calledPush ∧
      ∃ pool, CConnectionPool.get [calledServer.toTMiddleWare] calledPush.pool none =
        .pure (⟨some (CConnectionPool.created brokenConnection)⟩, pool) := by
  have created : PoolStep anyAnswer [calledServer.toTMiddleWare] .init
      (.create 0 1 calledAnswers) calledCreate :=
    ⟨rfl, .create exec_calledServer (fun _ _ => trivial) (by decide) rfl⟩
  have pushed : PoolStep anyAnswer [calledServer.toTMiddleWare] calledCreate (.push 0) calledPush :=
    ⟨rfl, .push rfl⟩
  refine ⟨_, .cons created (.single pushed), ?_, _, rfl⟩
  intro admitted
  have healthy := admitted (CConnectionPool.created brokenConnection) (List.mem_singleton_self _)
  exact absurd (Except.ok.inj healthy) (by decide)

end MCRedis.Pool
