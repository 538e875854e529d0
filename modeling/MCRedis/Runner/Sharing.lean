import MCRedis.Pool.Pointers
import MCRedis.Runner.Opened
import MCRedis.Transition.Interleaving

/-!
# Runners on a shared pool

Any number of calls of `CRunner` and of tasks of `CAsyncRunner` use one pool,
while other threads create connections for it and clear it.  Each operation of
a runner is one step; the sections of the pool are atomic.
-/

namespace MCRedis.Runner

open MCRedis.Client
open MCRedis.Container
open MCRedis.MiddleWare
open MCRedis.Pool
open MCRedis.Transition

/-- The idle lists, and the connections that calls of `create` have still to
push. -/
structure SharedPool where
  pool : PoolMap
  creating : OrderedMap Nat (List CConnection)

def SharedPool.init : SharedPool where
  pool := .empty
  creating := .empty

/-- What the threads that are not runners do with the pool. -/
inductive SharedAction
  | create (client defaultNum : Nat)
  | push (client : Nat)
  | finish (client : Nat)
  | clear

inductive SharedStep (mw : List TMiddleWare) : SharedPool → SharedAction → SharedPool → Prop
  | create {s : SharedPool} {client defaultNum : Nat} {trace : List (Event MwOp MwAns)}
      {lstConnection : List CConnection} :
      Exec (preCreate mw defaultNum) trace (.ok lstConnection) →
      (∀ event ∈ trace, OpeningLaw event) →
      s.creating.find? client = none →
      SharedStep mw s (.create client defaultNum)
        { s with creating := s.creating.insert client lstConnection }
  | push {s : SharedPool} {client : Nat} {conn : CConnection} {rest : List CConnection} :
      s.creating.find? client = some (conn :: rest) →
      SharedStep mw s (.push client)
        { pool := pushFront s.pool (CConnectionPool.created conn)
          creating := s.creating.insert client rest }
  | finish {s : SharedPool} {client : Nat} :
      s.creating.find? client = some [] →
      SharedStep mw s (.finish client) { s with creating := s.creating.erase client }
  | clear {s : SharedPool} :
      SharedStep mw s .clear { s with pool := CConnectionPool.clear s.pool }

/-- How the pool, the user's callback and hiredis answer a runner. -/
inductive Serve (mw : List TMiddleWare) :
    SharedPool → (op : RunnerOp) → RunnerAns op → SharedPool → Prop
  | get {s : SharedPool} {key : Option Bytes} {trace : List (Event MwOp MwAns)}
      {raii : CConnectionRAII} {pool : PoolMap} :
      Exec (CConnectionPool.get mw s.pool key) trace (.ok (raii, pool)) →
      (∀ event ∈ trace, OpeningLaw event) →
      Serve mw s (.get key) raii { s with pool := pool }
  | release {s : SharedPool} {handle : CConnectionRAII} {pool : PoolMap} {freed : List ConnPtr} :
      handle.destroy s.pool = .ok (pool, freed) →
      Serve mw s (.release handle) () { s with pool := pool }
  | callback {s : SharedPool} {rpy : CReply} {held : CConnectionRAII} (answer : CallbackAnswer) :
      Serve mw s (.callback rpy held) answer s
  | redis {s : SharedPool} {op : RedisOp} {answer : RedisAns op} :
      RedisLaw op answer →
      Serve mw s (.redis op) answer s

/-- A frame is entered with any queue and any commands; its result goes to the
caller or to the future of the task. -/
inductive Launch : Frame → RunnerProgram Unit → Prop
  | run (TRetryCount : Nat) (hasCallback : Bool) (cmd : CCommand) (runner : CRunner) :
      Launch .call ((runner.run TRetryCount hasCallback cmd).bind fun _ => .pure ())
  | runCommands (TRetryCount : Nat) (hasCallback : Bool) (runner : CRunner) :
      Launch .call ((runner.runCommands TRetryCount hasCallback).bind fun _ => .pure ())
  | task (TRetryCount : Nat) (hasCallback : Bool) (lstCommand : List CCommand) :
      Launch .task ((CAsyncRunner.task TRetryCount hasCallback lstCommand).bind fun _ => .pure ())

/-- The runners over the middlewares of one pool. -/
abbrev runners (mw : List TMiddleWare) :
    SystemRules RunnerOp RunnerAns Fault SharedPool Frame SharedAction where
  Launch := Launch
  Serve := Serve mw
  Outside := SharedStep mw

abbrev RunnersState := System RunnerOp RunnerAns Fault SharedPool Frame

abbrev RunnersVisit := Visit RunnersState (SystemLabel RunnerOp RunnerAns Frame SharedAction)

/-- No connection that the pool holds, or is about to hold, owes a reply. -/
structure SharedInv (s : SharedPool) : Prop where
  idle : ∀ ptr ∈ idle s.pool, Owes ptr.conn 0
  creating : ∀ conn ∈ s.creating.collect fun lstConnection => lstConnection, Owes conn 0

theorem SharedInv.init : SharedInv .init :=
  ⟨nofun, nofun⟩

section Inv

variable {mw : List TMiddleWare} {s t : SharedPool}

/-- A get keeps the idle lists settled, and hands out a settled handle. -/
theorem SharedInv.get (inv : SharedInv s) (opens : ∀ elem ∈ mw, OpensSettled elem)
    {key : Option Bytes} {trace : List (Event MwOp MwAns)} {raii : CConnectionRAII}
    {pool : PoolMap} (exec : Exec (CConnectionPool.get mw s.pool key) trace (.ok (raii, pool)))
    (lawful : ∀ event ∈ trace, OpeningLaw event) :
    Settled raii ∧ ∀ ptr ∈ Pool.idle pool, Owes ptr.conn 0 := by
  rw [CConnectionPool.get] at exec
  cases slotEq : getSlot mw key with
  | error fault =>
      rw [slotEq] at exec
      cases (Exec.fail_iff.mp exec).2
  | ok slot =>
      rw [slotEq] at exec
      rcases exec_get exec with
        ⟨listKey, front, rest, found, rfl, rfl⟩ | ⟨_, rfl, conn, asking, rfl⟩
      · obtain ⟨first, others⟩ := forall_idle_of_hit found inv.idle
        exact ⟨settled_some.mpr first, others⟩
      · refine ⟨?_, inv.idle⟩
        have owes := (returns_getConnection opens slot).exec asking lawful
        cases conn with
        | none => exact nofun
        | some conn => exact settled_some.mpr (owes conn rfl)

theorem SharedInv.serve (opens : ∀ elem ∈ mw, OpensSettled elem) {op : RunnerOp}
    {answer : RunnerAns op} (inv : SharedInv s) (issued : RunnerGuarantee op)
    (served : Serve mw s op answer t) : SharedInv t := by
  cases served with
  | get exec lawful => exact ⟨(inv.get opens exec lawful).2, inv.creating⟩
  | release destroyed => exact ⟨(forall_idle_destroy destroyed issued inv.idle).1, inv.creating⟩
  | callback answer => exact inv
  | redis lawful => exact inv

theorem SharedInv.outside (opens : ∀ elem ∈ mw, OpensSettled elem) {action : SharedAction}
    (inv : SharedInv s) (step : SharedStep mw s action t) : SharedInv t := by
  cases step with
  | @create client defaultNum trace lstConnection exec lawful absent =>
      have given := (returns_preCreate opens defaultNum).exec exec lawful
      exact ⟨inv.idle, OrderedMap.forall_collect_insert _ given inv.creating⟩
  | @push client conn rest found =>
      obtain ⟨first, others⟩ :=
        List.forall_mem_cons.mp (OrderedMap.forall_of_find? (fun conns => conns) found inv.creating)
      exact ⟨forall_idle_pushFront first inv.idle,
        OrderedMap.forall_collect_insert _ others inv.creating⟩
  | finish => exact ⟨inv.idle, OrderedMap.forall_collect_erase _ inv.creating⟩
  | clear =>
      refine ⟨?_, inv.creating⟩
      change ∀ ptr ∈ Pool.idle (CConnectionPool.clear s.pool), Owes ptr.conn 0
      rw [idle_clear]
      exact fun _ mem => absurd mem List.not_mem_nil

end Inv

/-- A frame keeps the contract of its kind. -/
theorem Launch.keeps {frame : Frame} {program : RunnerProgram Unit}
    (launched : Launch frame program) : Keeps frame (fun _ => True) program := by
  cases launched with
  | run TRetryCount hasCallback cmd runner =>
      exact Guarantees.bind (CRunner.keeps_run TRetryCount hasCallback cmd runner)
        fun _ _ => trivial
  | runCommands TRetryCount hasCallback runner =>
      exact Guarantees.bind (CRunner.keeps_runBatch TRetryCount hasCallback runner)
        fun _ _ => trivial
  | task TRetryCount hasCallback lstCommand =>
      exact Guarantees.bind (CAsyncRunner.keeps_task TRetryCount hasCallback lstCommand)
        fun _ _ => trivial

theorem contract_runners {mw : List TMiddleWare} (opens : ∀ elem ∈ mw, OpensSettled elem) :
    Contract (runners mw) SharedInv RunnerRely RunnerGuarantee where
  launch := fun _ _ launched => launched.keeps
  serve := fun _ _ _ _ inv issued served => inv.serve opens issued served
  outside := fun _ _ _ inv step => inv.outside opens step

/-- A callback that throws out of a task of `CAsyncRunner` does so when the
connection whose reply it was given owes no further one. -/
def ThrowsSettled (visit : RunnersVisit) : Prop :=
  ∀ thread rpy held,
    visit.label = .issue thread .task ⟨.callback rpy held, CallbackAnswer.threw⟩ → Settled held

/-- The visit destroys a handle, and the destructor puts the connection back
into an idle list. -/
def PutBack (visit : RunnersVisit) (ptr : ConnPtr) : Prop :=
  ∃ thread frame, visit.label = .issue thread frame ⟨.release ⟨some ptr⟩, ()⟩ ∧
    (⟨some ptr⟩ : CConnectionRAII).destroy visit.before.shared.pool =
      .ok (pushFront visit.before.shared.pool ptr, [])

theorem PutBack.errorNo {visit : RunnersVisit} {ptr : ConnPtr} (putBack : PutBack visit ptr) :
    ptr.conn.errorNo = .ok 0 := by
  obtain ⟨_, _, _, destroyed⟩ := putBack
  rcases destroy_cases destroyed with
    ⟨none, _⟩ | ⟨owner, c, some, valid, ⟨healthy, _⟩ | ⟨_, _, freed⟩⟩
  · contradiction
  · cases some
    rw [CConnection.errorNo, CConnection.context, valid, ← healthy]
    rfl
  · contradiction

/-- What a step answers can be relied on, unless a callback throws too early. -/
theorem relied_of_throwsSettled {mw : List TMiddleWare} (opens : ∀ elem ∈ mw, OpensSettled elem)
    {visit : RunnersVisit} (throws : ThrowsSettled visit)
    (step : SystemStep (runners mw) visit.before visit.label visit.after)
    (inv : SharedInv visit.before.shared) : Relied RunnerRely visit := by
  rcases visit with ⟨s, label, t⟩
  change SystemStep (runners mw) s label t at step
  rintro thread frame event rfl
  cases step with
  | issue found served =>
      cases served with
      | get exec lawful => exact (inv.get opens exec lawful).1
      | release destroyed => trivial
      | @callback rpy held answer =>
          cases answer with
          | returned rpy => trivial
          | threw =>
              rintro rfl
              exact throws thread rpy held rfl
      | redis lawful => exact lawful

/-- Along every interleaving of runs in which a callback throws out of a task
only when its connection owes no further reply, every connection that is put
back into an idle list is in sync. -/
theorem putBack_inSync {mw : List TMiddleWare} (opens : ∀ elem ∈ mw, OpensSettled elem)
    {visits : List RunnersVisit} {last : RunnersState}
    (run : Run (SystemStep (runners mw)) ⟨.init, []⟩ visits last)
    (throws : ∀ visit ∈ visits, ThrowsSettled visit) :
    ∀ visit ∈ visits, ∀ ptr, PutBack visit ptr → ptr.conn.InSync := by
  intro visit mem ptr putBack
  have healthy := putBack.errorNo
  have guaranteed := ((contract_runners opens).run run SharedInv.init fun visit mem step inv =>
    relied_of_throwsSettled opens (throws visit mem) step inv) visit mem
  obtain ⟨thread, frame, labelEq, _⟩ := putBack
  have settled := guaranteed.2.2 thread frame _ labelEq
  exact (settled_some.mp settled).inSync healthy

/-! ## A task on one server -/

/-- The state in which a task is the only thread. -/
def alone (pool : PoolMap) (program : RunnerProgram Unit) : RunnersState :=
  ⟨⟨pool, .empty⟩, [⟨.task, program⟩]⟩

theorem alone_issue {pool after : PoolMap} {op : RunnerOp}
    {next : RunnerAns op → RunnerProgram Unit} {answer : RunnerAns op}
    (served : Serve oneServer ⟨pool, .empty⟩ op answer ⟨after, .empty⟩) :
    SystemStep (runners oneServer) (alone pool (.request op next)) (.issue 0 .task ⟨op, answer⟩)
      (alone after (next answer)) :=
  .issue rfl served

theorem opensSettled_oneServer : ∀ elem ∈ oneServer, OpensSettled elem := by
  intro elem mem
  rw [List.mem_singleton.mp mem]
  exact opensSettled_default _

theorem acceptingServer_lawful (op : MwOp) (id : Nat) :
    OpeningLaw ⟨op, (acceptingServer op id).1⟩ := by
  intro conn answer eventEq owes
  obtain ⟨rfl, answerEq⟩ := Event.mk.inj eventEq
  rw [← eq_of_heq answerEq]
  exact owes

/-- On an empty pool, a get opens a connection. -/
theorem serve_get_oneServer (id : Nat) (key : Bytes) :
    Serve oneServer ⟨.empty, .empty⟩ (.get (some key)) ⟨some ⟨acceptedConnection id, .empty⟩⟩
      ⟨.empty, .empty⟩ :=
  .get (Program.exec_run acceptingServer (CConnectionPool.get oneServer .empty (some key)) id)
    (Program.run_trace_forall acceptingServer_lawful _ _)

def getA : CCommand :=
  .ofTexts [literal "GET", literal "a"]

/-- The connection after both commands were appended and one reply was read. -/
def oneUnread : CConnection :=
  (acceptedConnection 0).setContext
    { RedisContext.opened with
      sent := [[literal "GET", literal "a"], [literal "GET", literal "a"]]
      received := [.nil] }

/-- The pool after the connection of the second get went back. -/
def oneIdle : PoolMap :=
  pushFront .empty ⟨acceptedConnection 1, .empty⟩

/-- A task gets a connection for each of its two commands, appends both to the
first connection, and its callback throws when it is given the first reply. -/
theorem run_throwing_task : ∃ visits program,
    Run (SystemStep (runners oneServer)) ⟨.init, []⟩ visits
      (alone oneIdle (.request (.release ⟨some ⟨oneUnread, .empty⟩⟩) program)) := by
  have released : Serve oneServer ⟨.empty, .empty⟩
      (.release ⟨some ⟨acceptedConnection 1, .empty⟩⟩) () ⟨oneIdle, .empty⟩ := .release rfl
  have appended : ∀ c argv, Serve oneServer ⟨oneIdle, .empty⟩ (.redis (.appendCommandArgv c argv))
      none ⟨oneIdle, .empty⟩ := fun _ _ => .redis trivial
  have replied : ∀ c, Serve oneServer ⟨oneIdle, .empty⟩ (.redis (.getReply c)) (.ok .nil)
      ⟨oneIdle, .empty⟩ := fun _ => .redis trivial
  have threw : ∀ rpy held, Serve oneServer ⟨oneIdle, .empty⟩ (.callback rpy held) .threw
      ⟨oneIdle, .empty⟩ := fun _ _ => .callback .threw
  have spawned : SystemStep (runners oneServer) ⟨.init, []⟩ (.spawn .task)
      (alone .empty ((CAsyncRunner.task 5 true [getA, getA]).bind fun _ => .pure ())) :=
    .spawn (.task 5 true [getA, getA])
  have first := Run.cons spawned (.single (alone_issue (serve_get_oneServer 0 (literal "a"))))
  have second := first.append (.single (alone_issue (serve_get_oneServer 1 (literal "a"))))
  have mapped := second.append (.single (alone_issue released))
  have sent := (mapped.append (.single (alone_issue (appended _ _)))).append
    (.single (alone_issue (appended _ _)))
  have read := (sent.append (.single (alone_issue (replied _)))).append
    (.single (alone_issue (threw _ _)))
  exact ⟨_, _, read⟩

/-- The connection goes back with the second reply unread. -/
theorem throw_puts_back_unread : ∃ visits last,
    Run (SystemStep (runners oneServer)) ⟨.init, []⟩ visits last ∧
      ¬ ∀ visit ∈ visits, ∀ ptr, PutBack visit ptr → ptr.conn.InSync := by
  obtain ⟨visits, program, run⟩ := run_throwing_task
  have putBack : Serve oneServer ⟨oneIdle, .empty⟩ (.release ⟨some ⟨oneUnread, .empty⟩⟩) ()
      ⟨pushFront oneIdle ⟨oneUnread, .empty⟩, .empty⟩ := .release rfl
  refine ⟨_, _, run.append (.single (alone_issue putBack)), ?_⟩
  intro inSync
  have unread := inSync _ (List.mem_append_right _ (List.mem_singleton_self _)) ⟨oneUnread, .empty⟩
    ⟨0, .task, rfl, rfl⟩
  exact absurd (unread _ rfl) (by decide)

/-- The connection after a command that was answered. -/
def oneAnswered : CConnection :=
  (acceptedConnection 0).setContext
    { RedisContext.opened with
      sent := [[literal "GET", literal "a"]]
      received := [.nil] }

/-- A callback that throws in the task of a single command, which holds no
handle any more. -/
theorem putBack_inSync_oneServer : ∃ visits last,
    Run (SystemStep (runners oneServer)) ⟨.init, []⟩ visits last ∧
      ∀ visit ∈ visits, ∀ ptr, PutBack visit ptr → ptr.conn.InSync := by
  have answered : ∀ c argv, Serve oneServer ⟨.empty, .empty⟩ (.redis (.commandArgv c argv))
      (.reply .nil) ⟨.empty, .empty⟩ := fun _ _ => .redis trivial
  have released : Serve oneServer ⟨.empty, .empty⟩ (.release ⟨some ⟨oneAnswered, .empty⟩⟩) ()
      ⟨pushFront .empty ⟨oneAnswered, .empty⟩, .empty⟩ := .release rfl
  have threw : ∀ pool rpy held, Serve oneServer ⟨pool, .empty⟩ (.callback rpy held) .threw
      ⟨pool, .empty⟩ := fun _ _ _ => .callback .threw
  have spawned : SystemStep (runners oneServer) ⟨.init, []⟩ (.spawn .task)
      (alone .empty ((CAsyncRunner.task 1 true [getA]).bind fun _ => .pure ())) :=
    .spawn (.task 1 true [getA])
  have got := Run.cons spawned (.single (alone_issue (serve_get_oneServer 0 (literal "a"))))
  have sent := got.append (.single (alone_issue (answered _ _)))
  have back := sent.append (.single (alone_issue released))
  have run := back.append (.single (alone_issue (threw _ _ _)))
  refine ⟨_, _, run, putBack_inSync opensSettled_oneServer run ?_⟩
  simp only [List.forall_mem_append, List.forall_mem_cons, List.not_mem_nil, false_imp_iff,
    implies_true, and_true]
  refine ⟨⟨⟨⟨nofun, nofun⟩, nofun⟩, nofun⟩, ?_⟩
  rintro thread rpy held ⟨⟩
  exact nofun

end MCRedis.Runner
