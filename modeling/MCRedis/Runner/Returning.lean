import MCRedis.Runner.Mapping

/-!
# When the loop over the groups returns

Once the commands are mapped, nothing keeps the synchronous runner from returning
but a callback that throws, and a connection that fails without a deleter.  The
deleters come from the pool: a runner destroys what it was given.
-/

namespace MCRedis.Runner

open MCRedis.Client
open MCRedis.Pool
open MCRedis.Transition

/-! ## What a program needs to return -/

/-- A connection that has an error when its handle is destroyed has a deleter. -/
def DeletesBroken (event : RunnerEvent) : Prop :=
  ∀ ptr c, event = ⟨.release ⟨some ptr⟩, ()⟩ → ptr.conn.contextPtr = some c → c.err ≠ 0 →
    ptr.deleter = .deletes

theorem deletesBroken_of_disposes {event : RunnerEvent} (clean : disposes event) :
    DeletesBroken event := by
  rintro ptr c rfl valid broken
  have disposable : (⟨some ptr⟩ : CConnectionRAII).disposable = true := clean
  rw [CConnectionRAII.disposable_of_context valid] at disposable
  simpa [broken] using disposable

/-- The event does not keep the loop over the groups from returning. -/
def Completes (event : RunnerEvent) : Prop :=
  DeletesBroken event ∧ ∀ rpy held, event ≠ ⟨.callback rpy held, .threw⟩

/-- The program returns exactly when all events complete; the connection that it
leaves behind has a context. -/
abbrev Completing {α : Type} (post : α → Prop) (program : RunnerProgram α) : Prop :=
  Settles Completes (fun _ value => post value) program

theorem completes_redis (op : RedisOp) (answer : RedisAns op) :
    Completes ⟨.redis op, answer⟩ := by
  constructor
  · rintro ptr c ⟨⟩
  · rintro rpy held ⟨⟩

theorem completing_redis {α : Type} {post : α → Prop} {op : RedisOp}
    {next : RedisAns op → RunnerProgram α} (rest : ∀ answer, Completing post (next answer)) :
    Completing post (.request (.redis op) next) :=
  .request (fun answer _ => rest answer) fun answer unlawful =>
    absurd (completes_redis op answer) unlawful

theorem completing_release {ptr : ConnPtr} {c : RedisContext}
    (valid : ptr.conn.contextPtr = some c) :
    Completing (fun _ => True) (release ⟨some ptr⟩) := by
  have completes_iff : Completes ⟨.release ⟨some ptr⟩, ()⟩ ↔
      (⟨some ptr⟩ : CConnectionRAII).disposable := by
    constructor
    · rintro ⟨deletes, _⟩
      rw [CConnectionRAII.disposable_of_context valid]
      simpa [or_iff_not_imp_left] using deletes ptr c rfl valid
    · intro clean
      refine ⟨deletesBroken_of_disposes clean, ?_⟩
      rintro rpy held ⟨⟩
  apply Settles.request
  · intro answer completes
    have returned := CConnectionRAII.destructor_eq_ok_iff.mpr (completes_iff.mp completes)
    simp only [Program.bind_pure_left, returned, Program.ofExcept_ok]
    exact .pure trivial
  · intro answer stays
    have failed := mt CConnectionRAII.destructor_eq_ok_iff.mp fun clean =>
      stays (completes_iff.mpr clean)
    rw [Program.bind_pure_left]
    cases destructorEq : (⟨some ptr⟩ : CConnectionRAII).destructor with
    | ok _ => exact absurd destructorEq failed
    | error fault => exact .fail fault

theorem completing_releaseAll {ptrs : List ConnPtr}
    (valid : ∀ ptr ∈ ptrs, ∃ c, ptr.conn.contextPtr = some c) :
    Completing (fun _ => True) (releaseAll ptrs) := by
  induction ptrs with
  | nil => exact .pure trivial
  | cons ptr rest ih =>
      obtain ⟨⟨c, first⟩, others⟩ := List.forall_mem_cons.mp valid
      exact (completing_release first).bind fun _ _ _ => ih others

theorem completing_callback (hasCallback : Bool) (rpy : CReply) (held : CConnectionRAII) :
    Completing (fun _ => True) (CRunner.callback hasCallback rpy held) := by
  cases hasCallback with
  | false => exact .pure trivial
  | true =>
      apply Settles.request
      · intro answer completes
        cases answer with
        | returned rpy => exact .pure trivial
        | threw => exact absurd rfl (completes.2 rpy held)
      · intro answer unlawful
        cases answer with
        | threw => exact .fail _
        | returned last =>
            refine absurd ⟨?_, ?_⟩ unlawful
            · rintro ptr c ⟨⟩
            · rintro rpy held ⟨⟩

theorem completing_appendAll {cmds : List CCommand} {ptr : ConnPtr} {c : RedisContext}
    (valid : ptr.conn.contextPtr = some c) (wellFormed : ∀ cmd ∈ cmds, cmd.WellFormed) :
    Completing (fun result => ∃ c, result.2.conn.contextPtr = some c) (appendAll ptr cmds) := by
  induction cmds generalizing ptr c with
  | nil => exact .pure ⟨c, valid⟩
  | cons cmd cmds ih =>
      obtain ⟨cmdWellFormed, restWellFormed⟩ := List.forall_mem_cons.mp wellFormed
      rw [appendAll, redis_appendCommand valid cmdWellFormed.argv_eq]
      apply completing_redis
      intro error
      cases error with
      | some error => exact .pure ⟨_, rfl⟩
      | none => exact ih rfl restWellFormed

theorem completing_readAll {hasCallback : Bool} {remaining : Nat} {ptr : ConnPtr}
    {c : RedisContext} (valid : ptr.conn.contextPtr = some c) (lstRpy : List CReply) :
    Completing (fun result => ∃ c, result.1.conn.contextPtr = some c)
      (CRunner.readAll hasCallback remaining ptr lstRpy) := by
  induction remaining generalizing ptr c lstRpy with
  | zero => exact .pure ⟨c, valid⟩
  | succ remaining ih =>
      rw [CRunner.readAll, redis_getReply valid]
      apply completing_redis
      intro answer
      exact (completing_callback hasCallback _ _).bind fun _ _ _ => ih rfl _

/-- The loop over groups of well-formed commands on valid connections returns
exactly when no callback throws and every broken connection has a deleter. -/
theorem completing_runGroups {hasCallback : Bool} {size : Nat} {groups : List NodeCommand}
    (wellFormed : ∀ cmd ∈ grouped groups, cmd.WellFormed)
    (valid : ∀ ptr ∈ groups.map NodeCommand.conn, ∃ c, ptr.conn.contextPtr = some c)
    (lstRpy : List CReply) :
    Completing (fun _ => True) (CRunner.runGroups hasCallback size groups lstRpy) := by
  induction groups generalizing lstRpy with
  | nil => exact .pure trivial
  | cons elem groups ih =>
      obtain ⟨elemWellFormed, restWellFormed⟩ := List.forall_mem_append.mp wellFormed
      obtain ⟨⟨c, elemValid⟩, restValid⟩ := List.forall_mem_cons.mp valid
      apply (completing_appendAll elemValid elemWellFormed).bind
      rintro _ ⟨appended, conn⟩ ⟨_, connValid⟩
      cases appended with
      | false =>
          apply (completing_release connValid).bind
          intro _ _ _
          exact (completing_releaseAll restValid).bind fun _ _ _ => .pure trivial
      | true =>
          apply (completing_readAll connValid lstRpy).bind
          rintro _ ⟨last, replies⟩ ⟨_, lastValid⟩
          exact (completing_release lastValid).bind fun _ _ _ => ih restWellFormed restValid replies

/-! ## Where the deleters come from -/

end MCRedis.Runner
