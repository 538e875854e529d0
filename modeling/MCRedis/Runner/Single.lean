import MCRedis.Runner.Calls

/-!
# The retry loop of a single command

`runSingleCommand` keeps retrying after an attempt that was answered: the loop
has no exit on success.  Here its runs are described for every sequence of
attempt outcomes, and the at-most-once law is shown to hold exactly when no
attempt before the last one obtains a reply of the server and every handle can
be destroyed.
-/

namespace MCRedis.Runner

open MCRedis.Client
open MCRedis.Pool
open MCRedis.Transition

/-! ## Outcomes of attempts -/

/-- What one attempt meets: a null handle, a connection without a context, or a
valid one on which `redisCommandArgv` gives the answer. -/
inductive AttemptOutcome
  | null
  | invalid (ptr : ConnPtr)
  | valid (ptr : ConnPtr) (c : RedisContext) (answer : CommandAnswer)

namespace AttemptOutcome

/-- The handle that `pool.get` returns. -/
def handle : AttemptOutcome → CConnectionRAII
  | null => ⟨none⟩
  | invalid ptr => ⟨some { ptr with conn := { ptr.conn with contextPtr := none } }⟩
  | valid ptr c _ => ⟨some { ptr with conn := ptr.conn.setContext c }⟩

def answer : AttemptOutcome → CommandAnswer
  | valid _ _ answer => answer
  | _ => .appendFailed ⟨0, []⟩

/-- The reply of the server, where the attempt obtains one. -/
def serverReply : AttemptOutcome → Option CReply
  | valid _ _ (.reply reply) => some (.ofRaw reply)
  | _ => none

/-- The reply the attempt leaves in `rpy`. -/
def assigned (rpy : CReply) : AttemptOutcome → CReply
  | valid _ _ answer => replyOf answer
  | _ => rpy

/-- The handle as the attempt destroys it. -/
def destroyed (argv : List Bytes) : AttemptOutcome → CConnectionRAII
  | valid ptr c answer =>
      ⟨some { ptr with conn := ptr.conn.setContext (contextAfter c argv answer) }⟩
  | outcome => outcome.handle

/-- The error number that an answer leaves in the context. -/
def errAfter (c : RedisContext) : CommandAnswer → Int
  | .appendFailed error => error.err
  | .replyFailed error => error.err
  | .reply _ => c.err

/-- The destructor of the handle returns: the connection is not an invalid one,
and if it has an error after the attempt, then it has a deleter. -/
def disposable : AttemptOutcome → Bool
  | null => true
  | invalid _ => false
  | valid ptr c answer => errAfter c answer == 0 || ptr.deleter == .deletes

theorem disposable_destroyed (argv : List Bytes) (outcome : AttemptOutcome) :
    (outcome.destroyed argv).disposable = outcome.disposable := by
  cases outcome with
  | null => rfl
  | invalid ptr => rfl
  | valid ptr c answer => cases answer <;> rfl

end AttemptOutcome

/-- The pool and the connections give the outcomes in order; the state is the
number of attempts that have ended. -/
def attemptEnvironment (outcomes : Nat → AttemptOutcome) : Environment RunnerOp RunnerAns Nat
  | .get _, i => ((outcomes i).handle, i)
  | .release _, i => ((), i + 1)
  | .callback rpy _, i => (.returned rpy, i)
  | .redis (.connectWithTimeout _ _ _), i => (.refused, i)
  | .redis (.setTimeout _ _), i => (none, i)
  | .redis (.commandArgv _ _), i => ((outcomes i).answer, i)
  | .redis (.appendCommandArgv _ _), i => (none, i)
  | .redis (.getReply _), i => (.error ⟨0, []⟩, i)

/-! ## The at-most-once law -/

/-- The event is an attempt of the loop: it asks the pool for a handle. -/
def isAttempt : RunnerEvent → Bool
  | ⟨.get _, _⟩ => true
  | _ => false

/-- The event transmits the command. -/
def isSend : RunnerEvent → Bool
  | ⟨.redis (.commandArgv _ _), _⟩ => true
  | _ => false

/-- The reply of the server to a transmission. -/
def serverReply : RunnerEvent → Option CReply
  | ⟨.redis (.commandArgv _ _), .reply reply⟩ => some (.ofRaw reply)
  | _ => none

/-- At most `TRetryCount` attempts and at most one transmission answered by the
server; once there is one, nothing is attempted or sent any more, and its reply
is the one returned. -/
structure AtMostOnce (TRetryCount : Nat) (trace : List RunnerEvent) (returned : CReply) : Prop where
  attempts : trace.countP isAttempt ≤ TRetryCount
  once : (trace.filterMap serverReply).length ≤ 1
  stops : trace.Pairwise fun event later =>
    (serverReply event).isSome → isAttempt later = false ∧ isSend later = false
  first : ∀ rpy, (trace.filterMap serverReply).head? = some rpy → returned = rpy

/-! ## The run of the loop -/

/-- The events of one attempt. -/
def attemptTrace (cmdKey : Option Bytes) (argv : List Bytes) (outcome : AttemptOutcome) :
    List RunnerEvent :=
  match outcome with
  | .valid _ c answer =>
      [⟨.get cmdKey, outcome.handle⟩, ⟨.redis (.commandArgv c argv), answer⟩,
        ⟨.release (outcome.destroyed argv), ()⟩]
  | _ => [⟨.get cmdKey, outcome.handle⟩, ⟨.release (outcome.destroyed argv), ()⟩]

/-- The loop goes on once the handle of the attempt is destroyed. -/
theorem run_singleAttempts_succ (outcomes : Nat → AttemptOutcome) (cmdKey : Option Bytes)
    {cmd : CCommand} {argv : List Bytes} (argvEq : cmd.argv = .ok argv) (n i : Nat) (rpy : CReply) :
    (singleAttempts cmdKey cmd (n + 1) rpy).run (attemptEnvironment outcomes) i =
      let rest := ((Program.ofExcept ((outcomes i).destroyed argv).destructor).bind fun _ =>
        singleAttempts cmdKey cmd n ((outcomes i).assigned rpy)).run
          (attemptEnvironment outcomes) (i + 1)
      ⟨attemptTrace cmdKey argv (outcomes i) ++ rest.trace, rest.result, rest.state⟩ := by
  rw [singleAttempts]
  simp only [poolGet, Program.perform, Program.bind_eq_bind, Program.request_bind,
    Program.bind_pure_left, Program.run, attemptEnvironment]
  cases outcome : outcomes i with
  | null => rfl
  | invalid ptr => rfl
  | valid ptr c answer =>
      have usableEq : usable (AttemptOutcome.valid ptr c answer).handle =
          some { ptr with conn := ptr.conn.setContext c } := rfl
      rw [usableEq]
      dsimp only
      rw [redis_sendCommand (c := c) rfl argvEq]
      simp only [Program.request_bind, Program.bind_pure_left, Program.run, attemptEnvironment,
        outcome, AttemptOutcome.answer]
      rfl

theorem run_singleAttempts_of_disposable {outcomes : Nat → AttemptOutcome}
    (cmdKey : Option Bytes) {cmd : CCommand} {argv : List Bytes} (argvEq : cmd.argv = .ok argv)
    {i : Nat} (disposable : (outcomes i).disposable = true) (n : Nat) (rpy : CReply) :
    (singleAttempts cmdKey cmd (n + 1) rpy).run (attemptEnvironment outcomes) i =
      let rest := (singleAttempts cmdKey cmd n ((outcomes i).assigned rpy)).run
        (attemptEnvironment outcomes) (i + 1)
      ⟨attemptTrace cmdKey argv (outcomes i) ++ rest.trace, rest.result, rest.state⟩ := by
  have returned := CConnectionRAII.destructor_eq_ok_iff.mpr
    ((AttemptOutcome.disposable_destroyed argv (outcomes i)).trans disposable)
  rw [run_singleAttempts_succ outcomes cmdKey argvEq, returned]
  rfl

theorem run_singleAttempts_zero (outcomes : Nat → AttemptOutcome) (cmdKey : Option Bytes)
    (cmd : CCommand) (i : Nat) (rpy : CReply) :
    (singleAttempts cmdKey cmd 0 rpy).run (attemptEnvironment outcomes) i = ⟨[], .ok rpy, i⟩ :=
  rfl

/-! ## The law and the attempts -/

/-- Only an attempt that obtains a reply of the server has an event that does. -/
theorem filterMap_attemptTrace (cmdKey : Option Bytes) (argv : List Bytes)
    (outcome : AttemptOutcome) :
    (attemptTrace cmdKey argv outcome).filterMap serverReply = outcome.serverReply.toList := by
  rcases outcome with _ | _ | ⟨ptr, c, _ | _ | _⟩ <;> rfl

theorem countP_attemptTrace (cmdKey : Option Bytes) (argv : List Bytes)
    (outcome : AttemptOutcome) : (attemptTrace cmdKey argv outcome).countP isAttempt = 1 := by
  rcases outcome with _ | _ | ⟨ptr, c, _ | _ | _⟩ <;> rfl

theorem exists_attempt_mem (cmdKey : Option Bytes) (argv : List Bytes) (outcome : AttemptOutcome) :
    ∃ event ∈ attemptTrace cmdKey argv outcome, isAttempt event = true := by
  apply List.countP_pos_iff.mp
  rw [countP_attemptTrace]
  exact Nat.one_pos

theorem exists_answered_mem (cmdKey : Option Bytes) (argv : List Bytes) {outcome : AttemptOutcome}
    (answered : outcome.serverReply ≠ none) :
    ∃ event ∈ attemptTrace cmdKey argv outcome, (serverReply event).isSome := by
  obtain ⟨rpy, replyEq⟩ := Option.ne_none_iff_exists'.mp answered
  have mem : rpy ∈ (attemptTrace cmdKey argv outcome).filterMap serverReply := by
    rw [filterMap_attemptTrace, replyEq]
    exact List.mem_singleton_self rpy
  obtain ⟨event, eventMem, eventEq⟩ := List.mem_filterMap.mp mem
  exact ⟨event, eventMem, Option.isSome_of_eq_some eventEq⟩

theorem serverReply_of_mem_attemptTrace {cmdKey : Option Bytes} {argv : List Bytes}
    {outcome : AttemptOutcome} {event : RunnerEvent}
    (mem : event ∈ attemptTrace cmdKey argv outcome) (unanswered : outcome.serverReply = none) :
    serverReply event = none := by
  have none := filterMap_attemptTrace cmdKey argv outcome
  rw [unanswered, Option.toList_none, List.filterMap_eq_nil_iff] at none
  exact none event mem

/-- An attempt without a reply of the server may precede any lawful trace. -/
theorem AtMostOnce.unanswered_append {cmdKey : Option Bytes} {argv : List Bytes}
    {outcome : AttemptOutcome} {n : Nat} {trace : List RunnerEvent} {returned : CReply}
    (unanswered : outcome.serverReply = none) (lawful : AtMostOnce n trace returned) :
    AtMostOnce (n + 1) (attemptTrace cmdKey argv outcome ++ trace) returned := by
  have replies : (attemptTrace cmdKey argv outcome ++ trace).filterMap serverReply =
      trace.filterMap serverReply := by
    rw [List.filterMap_append, filterMap_attemptTrace, unanswered]
    rfl
  constructor
  · rw [List.countP_append, countP_attemptTrace, Nat.add_comm]
    exact Nat.add_le_add_right lawful.attempts 1
  · rw [replies]
    exact lawful.once
  · rw [List.pairwise_append]
    refine ⟨?_, lawful.stops, ?_⟩
    · apply List.pairwise_of_forall_mem_list
      intro event mem later _ answered
      simp [serverReply_of_mem_attemptTrace mem unanswered] at answered
    · intro event mem later _ answered
      simp [serverReply_of_mem_attemptTrace mem unanswered] at answered
  · rw [replies]
    exact lawful.first

/-- A single attempt is lawful. -/
theorem AtMostOnce.single (cmdKey : Option Bytes) (argv : List Bytes) (outcome : AttemptOutcome)
    (rpy : CReply) :
    AtMostOnce 1 (attemptTrace cmdKey argv outcome) (outcome.assigned rpy) := by
  constructor
  · exact (countP_attemptTrace cmdKey argv outcome).le
  · rw [filterMap_attemptTrace]
    exact Option.length_toList_le
  · rcases outcome with _ | _ | ⟨ptr, c, _ | _ | _⟩ <;>
      simp [attemptTrace, serverReply, isAttempt, isSend]
  · rw [filterMap_attemptTrace]
    rcases outcome with _ | _ | ⟨ptr, c, _ | _ | _⟩ <;>
      simp [AttemptOutcome.serverReply, AttemptOutcome.assigned, replyOf]

/-- The handles of the next `n` attempts can be destroyed. -/
abbrev Disposable (outcomes : Nat → AttemptOutcome) (i n : Nat) : Prop :=
  ∀ j < n, (outcomes (i + j)).disposable = true

theorem Disposable.first {outcomes : Nat → AttemptOutcome} {i n : Nat}
    (disposable : Disposable outcomes i (n + 1)) : (outcomes i).disposable = true :=
  disposable 0 (Nat.succ_pos n)

theorem Disposable.rest {outcomes : Nat → AttemptOutcome} {i n : Nat}
    (disposable : Disposable outcomes i (n + 1)) : Disposable outcomes (i + 1) n := by
  intro j bound
  rw [Nat.add_assoc, Nat.add_comm 1 j]
  exact disposable (j + 1) (Nat.succ_lt_succ bound)

/-- A loop that returns has destroyed the handle of every attempt. -/
theorem disposable_of_returns {outcomes : Nat → AttemptOutcome} {cmdKey : Option Bytes}
    {cmd : CCommand} {argv : List Bytes} (argvEq : cmd.argv = .ok argv) {n i : Nat}
    {rpy returned : CReply}
    (returns : ((singleAttempts cmdKey cmd n rpy).run (attemptEnvironment outcomes) i).result =
      .ok returned) : Disposable outcomes i n := by
  induction n generalizing i rpy with
  | zero =>
      intro j bound
      exact absurd bound (Nat.not_lt_zero j)
  | succ n ih =>
      have first : (outcomes i).disposable = true := by
        by_contra broken
        have failed : ((outcomes i).destroyed argv).destructor ≠ .ok () := by
          rwa [Ne, CConnectionRAII.destructor_eq_ok_iff, AttemptOutcome.disposable_destroyed]
        rw [run_singleAttempts_succ outcomes cmdKey argvEq] at returns
        cases destructorEq : ((outcomes i).destroyed argv).destructor with
        | ok _ => exact failed destructorEq
        | error fault =>
            rw [destructorEq] at returns
            cases returns
      rw [run_singleAttempts_of_disposable cmdKey argvEq first] at returns
      intro j bound
      cases j with
      | zero => exact first
      | succ j =>
          rw [← Nat.add_assoc, Nat.add_right_comm]
          exact ih returns j (Nat.lt_of_succ_lt_succ bound)

/-- The loop is lawful when no attempt before the last one is answered and every
handle can be destroyed. -/
theorem atMostOnce_of_unanswered {outcomes : Nat → AttemptOutcome} {cmdKey : Option Bytes}
    {cmd : CCommand} {argv : List Bytes} (argvEq : cmd.argv = .ok argv) (n i : Nat) (rpy : CReply)
    (unanswered : ∀ j, j + 1 < n → (outcomes (i + j)).serverReply = none)
    (disposable : Disposable outcomes i n) :
    ∃ returned,
      ((singleAttempts cmdKey cmd n rpy).run (attemptEnvironment outcomes) i).result =
          .ok returned ∧
        AtMostOnce n
          ((singleAttempts cmdKey cmd n rpy).run (attemptEnvironment outcomes) i).trace
          returned := by
  induction n generalizing i rpy with
  | zero =>
      refine ⟨rpy, rfl, ?_⟩
      constructor <;> simp [run_singleAttempts_zero]
  | succ n ih =>
      rw [run_singleAttempts_of_disposable cmdKey argvEq disposable.first]
      cases n with
      | zero =>
          refine ⟨(outcomes i).assigned rpy, rfl, ?_⟩
          simpa [run_singleAttempts_zero] using AtMostOnce.single cmdKey argv (outcomes i) rpy
      | succ n =>
          have later : ∀ j, j + 1 < n + 1 → (outcomes (i + 1 + j)).serverReply = none := by
            intro j bound
            rw [Nat.add_assoc, Nat.add_comm 1 j]
            exact unanswered (j + 1) (Nat.succ_lt_succ bound)
          obtain ⟨returned, resultEq, lawful⟩ :=
            ih (i + 1) ((outcomes i).assigned rpy) later disposable.rest
          refine ⟨returned, resultEq, ?_⟩
          exact lawful.unanswered_append (unanswered 0 (by omega))

/-- An answered attempt that is not the last one is followed by another. -/
theorem not_stops_of_answered {outcomes : Nat → AttemptOutcome} {cmdKey : Option Bytes}
    {cmd : CCommand} {argv : List Bytes} (argvEq : cmd.argv = .ok argv) (n i j : Nat) (rpy : CReply)
    (disposable : Disposable outcomes i n) (notLast : j + 1 < n)
    (answered : (outcomes (i + j)).serverReply ≠ none) :
    ¬ ((singleAttempts cmdKey cmd n rpy).run (attemptEnvironment outcomes) i).trace.Pairwise
      fun event later =>
        (serverReply event).isSome → isAttempt later = false ∧ isSend later = false := by
  induction n generalizing i j rpy with
  | zero => omega
  | succ n ih =>
      rw [run_singleAttempts_of_disposable cmdKey argvEq disposable.first]
      intro stops
      obtain ⟨_, restStops, across⟩ := List.pairwise_append.mp stops
      cases j with
      | zero =>
          obtain ⟨event, eventMem, eventAnswered⟩ := exists_answered_mem cmdKey argv answered
          obtain ⟨m, rfl⟩ : ∃ m, n = m + 1 := Nat.exists_eq_succ_of_ne_zero (by omega)
          obtain ⟨later, laterMem, isLater⟩ := exists_attempt_mem cmdKey argv (outcomes (i + 1))
          have inRest : later ∈ ((singleAttempts cmdKey cmd (m + 1) ((outcomes i).assigned rpy)).run
              (attemptEnvironment outcomes) (i + 1)).trace := by
            rw [run_singleAttempts_succ outcomes cmdKey argvEq]
            exact List.mem_append_left _ laterMem
          have stopped := (across event eventMem later inRest eventAnswered).1
          rw [isLater] at stopped
          contradiction
      | succ j =>
          have shifted : (outcomes (i + 1 + j)).serverReply ≠ none := by
            rwa [Nat.add_assoc, Nat.add_comm 1 j]
          exact ih (i + 1) j _ disposable.rest (by omega) shifted restStops

/-- The whole call, on a command built from any argument texts. -/
def singleRun (TRetryCount : Nat) (texts : List Bytes) (outcomes : Nat → AttemptOutcome) :
    Outcome RunnerOp RunnerAns Fault CReply Nat :=
  (runSingleCommand TRetryCount (.ofTexts texts)).run (attemptEnvironment outcomes) 0

theorem singleRun_eq (TRetryCount : Nat) (texts : List Bytes) (outcomes : Nat → AttemptOutcome) :
    singleRun TRetryCount texts outcomes =
      (singleAttempts texts[1]? (.ofTexts texts) TRetryCount .empty).run
        (attemptEnvironment outcomes) 0 := by
  rw [singleRun, runSingleCommand, (CCommand.wellFormed_ofTexts texts).getKey_eq]
  rfl

/-- `runSingleCommand` returns, delivers at most one server-answered transmission
and stops there exactly when none of the attempts before the last one obtains a
reply of the server and the handle of every attempt can be destroyed. -/
theorem runSingleCommand_atMostOnce_iff (TRetryCount : Nat) (texts : List Bytes)
    (outcomes : Nat → AttemptOutcome) :
    (∃ returned, (singleRun TRetryCount texts outcomes).result = .ok returned ∧
      AtMostOnce TRetryCount (singleRun TRetryCount texts outcomes).trace returned) ↔
      (∀ attempt, attempt + 1 < TRetryCount → (outcomes attempt).serverReply = none) ∧
        ∀ attempt < TRetryCount, (outcomes attempt).disposable = true := by
  have argvEq := (CCommand.wellFormed_ofTexts texts).argv_eq
  rw [singleRun_eq]
  constructor
  · rintro ⟨returned, returns, lawful⟩
    have disposable := disposable_of_returns argvEq returns
    refine ⟨?_, ?_⟩
    · intro attempt notLast
      by_contra answered
      have shifted : (outcomes (0 + attempt)).serverReply ≠ none := by
        rwa [Nat.zero_add]
      exact not_stops_of_answered argvEq TRetryCount 0 attempt _ disposable notLast shifted
        lawful.stops
    · intro attempt bound
      rw [← Nat.zero_add attempt]
      exact disposable attempt bound
  · rintro ⟨unanswered, disposable⟩
    refine atMostOnce_of_unanswered argvEq TRetryCount 0 _ ?_ ?_
    · intro attempt notLast
      rw [Nat.zero_add]
      exact unanswered attempt notLast
    · intro attempt bound
      rw [Nat.zero_add]
      exact disposable attempt bound

/-- A counter incremented on a healthy connection: attempt `i` is answered with
the integer `i + 1`. -/
def incrementOutcomes (attempt : Nat) : AttemptOutcome :=
  .valid ⟨CConnection.create 0, .deletes⟩ .opened (.reply (.integer (attempt + 1)))

/-- With the default retry count one `INCR` is executed five times, and the
fifth reply is the one returned. -/
theorem runSingleCommand_increments_five_times :
    ¬ ∃ returned,
      (singleRun 5 [[0x49, 0x4e, 0x43, 0x52], [0x6b]] incrementOutcomes).result = .ok returned ∧
        AtMostOnce 5 (singleRun 5 [[0x49, 0x4e, 0x43, 0x52], [0x6b]] incrementOutcomes).trace
          returned := by
  rintro ⟨returned, _, lawful⟩
  exact absurd lawful.once (by decide)

end MCRedis.Runner
