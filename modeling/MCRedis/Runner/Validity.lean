import MCRedis.Runner.Calls
import MCRedis.Transition.Traces

/-!
# Connections without a context

A connect that fails leaves a connection without a context.  The runners look
for that before they use a connection; the destructor of a handle does not, and
reads the error number of a context that is not there.
-/

namespace MCRedis.Runner

open MCRedis.Client
open MCRedis.Pool
open MCRedis.Transition

/-- The connection of the handle, if there is one, has a context. -/
def Sound (handle : CConnectionRAII) : Prop :=
  ∀ ptr, handle.connPtr = some ptr → ptr.conn.isValid = true

/-- To release the handle reads no context that is not there; a connection without
a context is discarded. -/
def ReleasesSafely (handle : CConnectionRAII) : Prop :=
  ∀ pool, handle.destroy pool ≠ .error (.undefined .nullDereference) ∧
    ∀ ptr, handle.connPtr = some ptr → ptr.conn.contextPtr = none →
      handle.destroy pool = .ok (pool, [ptr])

/-- A handle is released safely exactly when its connection has a context. -/
theorem releasesSafely_iff_sound (handle : CConnectionRAII) :
    ReleasesSafely handle ↔ Sound handle := by
  rcases handle with ⟨_ | ptr⟩
  · have sound : Sound ⟨none⟩ := by
      rintro ptr ⟨⟩
    refine iff_of_true (fun pool => ⟨?_, ?_⟩) sound
    · rintro ⟨⟩
    · rintro ptr ⟨⟩
  · cases valid : ptr.conn.contextPtr with
    | none =>
        refine iff_of_false ?_ ?_
        · exact fun safe => (safe .empty).1 (CConnectionRAII.destroy_of_noContext valid .empty)
        · intro sound
          have isValid := sound ptr rfl
          rw [CConnection.isValid, valid] at isValid
          contradiction
    | some c =>
        refine iff_of_true ?_ ?_
        · intro pool
          refine ⟨?_, ?_⟩
          · rw [CConnectionRAII.destroy_of_context valid]
            split
            · rintro ⟨⟩
            · rintro ⟨⟩
          · rintro _ ⟨⟩ absent
            rw [valid] at absent
            contradiction
        · rintro _ ⟨⟩
          rw [CConnection.isValid, valid]
          rfl

/-! ## The holder of a handle -/

/-- What the holder of a handle does with its connection. -/
inductive HolderOp
  | connect (host : Bytes) (port timeoutSec : Nat)
  | sendCommand (cmd : CCommand)
  | appendCommand (cmd : CCommand)
  | getReply
  | setTimeout (timeoutSec : Nat)

/-- A call that needs a context, made only when there is one. -/
def whenValid {α : Type} (conn : CConnection) (call : RedisProgram (α × CConnection)) :
    RedisProgram CConnection :=
  if conn.isValid then call.bind fun result => .pure result.2 else .pure conn

def holderStep (conn : CConnection) : HolderOp → RedisProgram CConnection
  | .connect host port timeoutSec =>
      (conn.connect host port timeoutSec).bind fun result => .pure result.2
  | .sendCommand cmd => whenValid conn (conn.sendCommand cmd)
  | .appendCommand cmd => whenValid conn (conn.appendCommand cmd)
  | .getReply => whenValid conn conn.getReply
  | .setTimeout timeoutSec => whenValid conn (conn.setTimeout timeoutSec)

/-- A sequence of calls on one connection. -/
def holderRun : List HolderOp → CConnection → RedisProgram CConnection
  | [], conn => .pure conn
  | op :: ops, conn => (holderStep conn op).bind (holderRun ops)

/-- The answer to a connect. -/
def connectAnswer : Event RedisOp RedisAns → Option ConnectAnswer
  | ⟨.connectWithTimeout _ _ _, answer⟩ => some answer
  | _ => none

/-- The last connect has succeeded; without one, the connection had a context
before. -/
def LastConnects (conn : CConnection) (trace : List (Event RedisOp RedisAns)) : Prop :=
  match (trace.filterMap connectAnswer).getLast? with
  | none => conn.isValid = true
  | some answer => answer = .connected

/-- Whether the connection has a context follows from the last connect. -/
abbrev Follows (conn : CConnection) (trace : List (Event RedisOp RedisAns))
    (after : CConnection) : Prop :=
  after.isValid = true ↔ LastConnects conn trace

theorem Follows.append {conn middle after : CConnection}
    {first second : List (Event RedisOp RedisAns)} (front : Follows conn first middle)
    (back : Follows middle second after) : Follows conn (first ++ second) after := by
  have back' : after.isValid = true ↔ LastConnects middle second := back
  rw [Follows, back', LastConnects, LastConnects, List.filterMap_append, List.getLast?_append]
  cases (second.filterMap connectAnswer).getLast? with
  | some answer => rfl
  | none => exact front

/-- The call connects nothing, and the connection has a context afterwards. -/
abbrev StaysValid {α : Type} (trace : List (Event RedisOp RedisAns)) (result : α × CConnection) :
    Prop :=
  trace.filterMap connectAnswer = [] ∧ result.2.isValid = true

theorem leaves_connect (conn : CConnection) (host : Bytes) (port timeoutSec : Nat) :
    Leaves (fun trace result => Follows conn trace result.2)
      (conn.connect host port timeoutSec) := by
  apply Leaves.request
  rintro (_ | _ | _)
  · exact .fail _
  · apply Leaves.pure
    refine iff_of_false ?_ ?_
    · rintro ⟨⟩
    · rintro ⟨⟩
  · simp only [Program.bind_pure_left]
    split
    · apply Leaves.request
      rintro (_ | error)
      · exact .pure (iff_of_true rfl rfl)
      · exact .pure (iff_of_true rfl rfl)
    · exact .pure (iff_of_true rfl rfl)

theorem context_of_isValid {conn : CConnection} (valid : conn.isValid = true) :
    ∃ c, conn.contextPtr = some c ∧ conn.context = .ok c := by
  obtain ⟨c, found⟩ := Option.isSome_iff_exists.mp valid
  exact ⟨c, found, by rw [CConnection.context, found]⟩

theorem leaves_sendCommand {conn : CConnection} (valid : conn.isValid = true) (cmd : CCommand) :
    Leaves StaysValid (conn.sendCommand cmd) := by
  obtain ⟨c, _, contextEq⟩ := context_of_isValid valid
  simp only [CConnection.sendCommand, contextEq, Program.ofExcept_ok, Program.bind_eq_bind,
    Program.bind_pure_left]
  apply Leaves.bind_ofExcept
  intro argv _
  apply Leaves.request
  rintro (_ | _ | _)
  all_goals exact .pure ⟨rfl, rfl⟩

theorem leaves_appendCommand {conn : CConnection} (valid : conn.isValid = true) (cmd : CCommand) :
    Leaves StaysValid (conn.appendCommand cmd) := by
  obtain ⟨c, _, contextEq⟩ := context_of_isValid valid
  simp only [CConnection.appendCommand, contextEq, Program.ofExcept_ok, Program.bind_eq_bind,
    Program.bind_pure_left]
  apply Leaves.bind_ofExcept
  intro argv _
  apply Leaves.request
  rintro (_ | _)
  all_goals exact .pure ⟨rfl, rfl⟩

theorem leaves_getReply {conn : CConnection} (valid : conn.isValid = true) :
    Leaves StaysValid conn.getReply := by
  obtain ⟨c, _, contextEq⟩ := context_of_isValid valid
  simp only [CConnection.getReply, contextEq, Program.ofExcept_ok, Program.bind_eq_bind,
    Program.bind_pure_left]
  apply Leaves.request
  rintro (_ | _)
  all_goals exact .pure ⟨rfl, rfl⟩

theorem leaves_setTimeout {conn : CConnection} (valid : conn.isValid = true) (timeoutSec : Nat) :
    Leaves StaysValid (conn.setTimeout timeoutSec) := by
  obtain ⟨c, _, contextEq⟩ := context_of_isValid valid
  simp only [CConnection.setTimeout, contextEq, Program.ofExcept_ok, Program.bind_eq_bind,
    Program.bind_pure_left]
  apply Leaves.request
  rintro (_ | _)
  · exact .pure ⟨rfl, valid⟩
  · exact .pure ⟨rfl, rfl⟩

/-- Calls that connect nothing and keep a context. -/
theorem leaves_whenValid {α : Type} {conn : CConnection}
    {call : RedisProgram (α × CConnection)}
    (keeps : conn.isValid = true → Leaves StaysValid call) :
    Leaves (Follows conn) (whenValid conn call) := by
  unfold whenValid
  split
  · rename_i valid
    apply Leaves.bind (keeps valid)
    rintro trace ⟨value, after⟩ ⟨noConnect, validAfter⟩
    apply Leaves.pure
    rw [List.append_nil, Follows, LastConnects, noConnect]
    exact iff_of_true validAfter valid
  · exact .pure Iff.rfl

theorem leaves_holderStep (conn : CConnection) (op : HolderOp) :
    Leaves (Follows conn) (holderStep conn op) := by
  cases op with
  | connect host port timeoutSec =>
      apply Leaves.bind (leaves_connect conn host port timeoutSec)
      intro trace result follows
      apply Leaves.pure
      rw [List.append_nil]
      exact follows
  | sendCommand cmd => exact leaves_whenValid fun valid => leaves_sendCommand valid cmd
  | appendCommand cmd => exact leaves_whenValid fun valid => leaves_appendCommand valid cmd
  | getReply => exact leaves_whenValid leaves_getReply
  | setTimeout timeoutSec => exact leaves_whenValid fun valid => leaves_setTimeout valid timeoutSec

theorem leaves_holderRun (ops : List HolderOp) (conn : CConnection) :
    Leaves (Follows conn) (holderRun ops conn) := by
  induction ops generalizing conn with
  | nil => exact .pure Iff.rfl
  | cons op ops ih =>
      apply Leaves.bind (leaves_holderStep conn op)
      intro trace middle front
      exact (ih middle).mono fun _ _ => front.append

/-! ## The runners -/

/-- A handle that the pool gives has a context, unless it is null. -/
def GivesSound (event : RunnerEvent) : Prop :=
  ∀ key handle, event = ⟨.get key, handle⟩ → Sound handle

/-- A handle is destroyed safely. -/
def DestroysSafely (event : RunnerEvent) : Prop :=
  ∀ handle, event = ⟨.release handle, ()⟩ → ReleasesSafely handle

/-- All handles that are destroyed are destroyed safely exactly when all that the pool
gives are sound. -/
abbrev Accords (trace : List RunnerEvent) : Prop :=
  (∀ event ∈ trace, DestroysSafely event) ↔ ∀ event ∈ trace, GivesSound event

theorem Accords.nil : Accords [] :=
  iff_of_true (List.forall_mem_nil _) (List.forall_mem_nil _)

theorem Accords.append {first second : List RunnerEvent} (front : Accords first)
    (back : Accords second) : Accords (first ++ second) := by
  rw [Accords, List.forall_mem_append, List.forall_mem_append]
  exact and_congr front back

/-- An event that gives and destroys no handle without a context. -/
theorem accords_single {event : RunnerEvent}
    (harmless : DestroysSafely event ∧ GivesSound event) : Accords [event] :=
  iff_of_true (List.forall_mem_singleton.mpr harmless.1) (List.forall_mem_singleton.mpr harmless.2)

/-- An attempt that finds no usable connection destroys the handle it was given. -/
theorem accords_missed (key : Option Bytes) (handle : CConnectionRAII) :
    Accords [⟨.get key, handle⟩, ⟨.release handle, ()⟩] := by
  have gives : GivesSound ⟨.get key, handle⟩ ↔ Sound handle := by
    constructor
    · exact fun sound => sound key handle rfl
    · rintro sound _ _ ⟨⟩
      exact sound
  have destroys : DestroysSafely ⟨.release handle, ()⟩ ↔ Sound handle := by
    rw [← releasesSafely_iff_sound]
    constructor
    · exact fun safe => safe handle rfl
    · rintro safe _ ⟨⟩
      exact safe
  rw [Accords, List.forall_mem_cons, List.forall_mem_singleton, List.forall_mem_cons,
    List.forall_mem_singleton, gives, destroys, and_iff_right nofun, and_iff_left nofun]

theorem sound_of_isValid (ptr : ConnPtr) (valid : ptr.conn.isValid = true) : Sound ⟨some ptr⟩ := by
  rintro _ ⟨⟩
  exact valid

theorem harmless_get (key : Option Bytes) {handle : CConnectionRAII} (sound : Sound handle) :
    DestroysSafely ⟨.get key, handle⟩ ∧ GivesSound ⟨.get key, handle⟩ := by
  refine ⟨nofun, ?_⟩
  rintro _ _ ⟨⟩
  exact sound

theorem harmless_redis (op : RedisOp) (answer : RedisAns op) :
    DestroysSafely ⟨.redis op, answer⟩ ∧ GivesSound ⟨.redis op, answer⟩ :=
  ⟨nofun, nofun⟩

theorem harmless_release {handle : CConnectionRAII} (sound : Sound handle) :
    DestroysSafely ⟨.release handle, ()⟩ ∧ GivesSound ⟨.release handle, ()⟩ := by
  refine ⟨?_, nofun⟩
  rintro _ ⟨⟩
  exact (releasesSafely_iff_sound _).mpr sound

/-- A connection that a runner uses has a context, and the handle as well. -/
theorem sound_of_usable {handle : CConnectionRAII} {ptr : ConnPtr}
    (found : usable handle = some ptr) : ptr.conn.isValid = true ∧ Sound handle := by
  obtain ⟨connEq, c, valid⟩ := usable_eq_some_iff.mp found
  have isValid : ptr.conn.isValid = true := by rw [CConnection.isValid, valid]; rfl
  refine ⟨isValid, ?_⟩
  rintro other otherEq
  cases connEq.symm.trans otherEq
  exact isValid

/-- The trace accords, and the value meets the postcondition. -/
abbrev Accordant {α : Type} (post : α → Prop) (program : RunnerProgram α) : Prop :=
  Throughout Accords post program

theorem additive_accords : Additive Accords :=
  ⟨.nil, fun _ _ => Accords.append⟩

theorem accordant_sendCommand {conn : CConnection} (valid : conn.isValid = true)
    (cmd : CCommand) :
    Accordant (fun result => result.2.isValid = true)
      (RunnerProgram.redis (conn.sendCommand cmd)) := by
  obtain ⟨c, contextPtrEq, contextEq⟩ := context_of_isValid valid
  cases argvEq : cmd.argv with
  | error fault =>
      simp only [RunnerProgram.redis, CConnection.sendCommand, contextEq, argvEq,
        Program.ofExcept_ok, Program.ofExcept_error, Program.bind_eq_bind, Program.bind_pure_left,
        Program.fail_bind, Program.translate_fail]
      exact .fail .nil fault
  | ok argv =>
      rw [redis_sendCommand contextPtrEq argvEq]
      apply Throughout.request
      intro answer
      exact .pure (accords_single (harmless_redis (.commandArgv c argv) answer)) rfl

/-- The destructor issues no operation, however it ends. -/
theorem accordant_destructor {α : Type} {post : α → Prop} (handle : CConnectionRAII)
    {next : RunnerProgram α} (accordant : Accordant post next) :
    Accordant post ((Program.ofExcept handle.destructor).bind fun _ => next) :=
  .bind_ofExcept additive_accords fun _ _ => accordant

theorem accordant_release {α : Type} {post : α → Prop} {handle : CConnectionRAII}
    {next : RunnerProgram α} (sound : Sound handle) (accordant : Accordant post next) :
    Accordant post ((release handle).bind fun _ => next) := by
  apply Throughout.request
  intro answer
  exact (accordant_destructor handle accordant).after additive_accords
    (accords_single (harmless_release sound))

/-- One attempt: the handle is destroyed at once, or its connection is used. -/
theorem accordant_attempt {α : Type} {post : α → Prop} {cmdKey : Option Bytes}
    {missed : RunnerProgram α} {found : ConnPtr → RunnerProgram α}
    (accordantMissed : Accordant post missed)
    (accordantFound : ∀ ptr, ptr.conn.isValid = true → Accordant post (found ptr)) :
    Accordant post ((poolGet cmdKey).bind fun conn =>
      match usable conn with
      | none => (release conn).bind fun _ => missed
      | some ptr => found ptr) := by
  apply Throughout.request
  intro handle
  cases usableEq : usable handle with
  | none =>
      simp only [Program.bind_pure_left, usableEq]
      apply Throughout.request
      intro answer
      exact (accordant_destructor handle accordantMissed).after additive_accords
        (accords_missed cmdKey handle)
  | some ptr =>
      obtain ⟨valid, sound⟩ := sound_of_usable usableEq
      simp only [Program.bind_pure_left, usableEq]
      exact (accordantFound ptr valid).after additive_accords
        (accords_single (harmless_get cmdKey sound))

theorem accordant_singleAttempts (cmdKey : Option Bytes) (cmd : CCommand) (tryCount : Nat)
    (rpy : CReply) : Accordant (fun _ => True) (singleAttempts cmdKey cmd tryCount rpy) := by
  induction tryCount generalizing rpy with
  | zero => exact .pure .nil trivial
  | succ tryCount ih =>
      apply accordant_attempt (ih rpy)
      intro ptr valid
      apply Throughout.bind additive_accords (accordant_sendCommand valid cmd)
      rintro ⟨rpy', sent⟩ validSent
      exact accordant_release (sound_of_isValid { ptr with conn := sent } validSent) (ih rpy')

theorem accordant_runSingleCommand (TRetryCount : Nat) (cmd : CCommand) :
    Accordant (fun _ => True) (runSingleCommand TRetryCount cmd) := by
  apply Throughout.bind_ofExcept additive_accords
  intro cmdKey _
  exact accordant_singleAttempts cmdKey cmd TRetryCount .empty

/-! ### Mapping -/

theorem accordant_mapAttempts (cmdKey : Option Bytes) (n : Nat) :
    Accordant (fun attempt => ∀ ptr, attempt = .mapped ptr → ptr.conn.isValid = true)
      (mapAttempts cmdKey n) := by
  induction n with
  | zero => exact .pure .nil (by rintro _ ⟨⟩)
  | succ n ih =>
      apply accordant_attempt
      · by_cases last : n = 0
        · rw [if_pos last]
          exact .pure .nil (by rintro _ ⟨⟩)
        · rw [if_neg last]
          exact ih
      · intro ptr valid
        refine .pure .nil ?_
        rintro _ ⟨⟩
        exact valid

theorem accordant_releaseAll {ptrs : List ConnPtr} (valid : ∀ ptr ∈ ptrs, ptr.conn.isValid = true) :
    Accordant (fun _ => True) (releaseAll ptrs) := by
  induction ptrs with
  | nil => exact .pure .nil trivial
  | cons ptr rest ih =>
      obtain ⟨first, others⟩ := List.forall_mem_cons.mp valid
      exact accordant_release (sound_of_isValid ptr first) (ih others)

/-- The connections of the groups have a context. -/
abbrev ValidGroups (groups : List NodeCommand) : Prop :=
  ∀ ptr ∈ groups.map NodeCommand.conn, ptr.conn.isValid = true

theorem accordant_mapCommands (TRetryCount : Nat) (queue : List CCommand)
    (prevSlotRange : Nat × Nat) {groups : List NodeCommand} (valid : ValidGroups groups)
    (visited : List CCommand) :
    Accordant (fun result => ValidGroups result.1)
      (mapCommands TRetryCount queue prevSlotRange groups visited) := by
  induction queue generalizing prevSlotRange groups visited with
  | nil => exact .pure .nil valid
  | cons cmd queue ih =>
      apply Throughout.bind_ofExcept additive_accords
      intro cmdKey _
      apply Throughout.bind additive_accords (accordant_mapAttempts cmdKey TRetryCount)
      intro attempt mapped
      cases attempt with
      | gaveUp =>
          apply Throughout.bind additive_accords (accordant_releaseAll valid)
          exact fun _ _ => .pure .nil (List.forall_mem_nil _)
      | skipped => exact ih prevSlotRange valid _
      | mapped ptr =>
          have ptrValid := mapped ptr rfl
          dsimp only
          split
          · apply ih
            rw [ValidGroups, List.map_append]
            exact List.forall_mem_append.mpr ⟨valid, List.forall_mem_singleton.mpr ptrValid⟩
          · apply Throughout.bind_ofExcept additive_accords
            intro extended appended
            apply accordant_release (sound_of_isValid ptr ptrValid)
            apply ih
            rw [ValidGroups, connections_of_appendToLast appended]
            exact valid

/-! ## When a handle is released safely -/

/-- The histories of a holder, and the two loops that obtain handles: a handle is
released safely exactly when the last connect of its holder has succeeded, and
those of a loop exactly when the pool gives it no connection without a
context. -/
theorem releasesSafely_iff (ops : List HolderOp) (ptr : ConnPtr) (TRetryCount : Nat)
    (cmd : CCommand) (queue : List CCommand) :
    (∀ trace after, Exec (holderRun ops ptr.conn) trace (.ok after) →
      (ReleasesSafely ⟨some { ptr with conn := after }⟩ ↔ LastConnects ptr.conn trace)) ∧
    (∀ trace result, Exec (runSingleCommand TRetryCount cmd) trace result →
      ((∀ event ∈ trace, DestroysSafely event) ↔ ∀ event ∈ trace, GivesSound event)) ∧
    (∀ trace result, Exec (mapCommandPerNode TRetryCount queue) trace result →
      ((∀ event ∈ trace, DestroysSafely event) ↔ ∀ event ∈ trace, GivesSound event) ∧
        ∀ groups left, result = .ok (groups, left) →
          ∀ elem ∈ groups, ReleasesSafely ⟨some elem.conn⟩) := by
  refine ⟨?_, ?_, ?_⟩
  · intro trace after exec
    have follows : after.isValid = true ↔ LastConnects ptr.conn trace :=
      (leaves_holderRun ops ptr.conn).exec trace after exec
    rw [releasesSafely_iff_sound, ← follows]
    exact ⟨fun sound => sound _ rfl, sound_of_isValid { ptr with conn := after }⟩
  · intro trace result exec
    exact ((accordant_runSingleCommand TRetryCount cmd).exec trace result exec).1
  · intro trace result exec
    have noGroup : ValidGroups [] := List.forall_mem_nil _
    have accordant := accordant_mapCommands TRetryCount queue (0, 0) noGroup []
    obtain ⟨accords, valid⟩ := accordant.exec trace result exec
    refine ⟨accords, fun groups left returned elem mem => ?_⟩
    have connValid := valid (groups, left) returned elem.conn (List.mem_map_of_mem mem)
    exact (releasesSafely_iff_sound _).mpr (sound_of_isValid elem.conn connValid)

/-- A connection to a host, as the pool hands it out. -/
def healthyPtr : ConnPtr :=
  ⟨(CConnection.create 0).setContext .opened, .deletes⟩

/-- The holder connects to a host that refuses; the release then reads the error
number of the context that is gone. -/
theorem refused_connect_unsafe :
    ∃ after, healthyPtr.conn.isValid = true ∧
      Exec (holderRun [.connect [0x68] 6379 0] healthyPtr.conn)
        [⟨.connectWithTimeout [0x68] 6379 0, .refused⟩] (.ok after) ∧
      ¬ ReleasesSafely ⟨some { healthyPtr with conn := after }⟩ ∧
      CConnectionRAII.destroy ⟨some { healthyPtr with conn := after }⟩ .empty =
        .error (.undefined .nullDereference) := by
  let after : CConnection :=
    { healthyPtr.conn with contextPtr := none, host := [0x68], port := 6379 }
  have unsafeRelease : CConnectionRAII.destroy ⟨some { healthyPtr with conn := after }⟩ .empty =
      .error (.undefined .nullDereference) := CConnectionRAII.destroy_of_noContext rfl .empty
  refine ⟨after, rfl, ?_, fun safe => (safe .empty).1 unsafeRelease, unsafeRelease⟩
  exact Exec.request_iff.mpr ⟨.refused, [], rfl, Exec.pure_iff.mpr ⟨rfl, rfl⟩⟩

end MCRedis.Runner
