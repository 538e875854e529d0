import MCRedis.Container.Runs
import MCRedis.Runner.Calls

/-!
# Mapping a batch to nodes

`mapCommandPerNode` only talks to the pool.  Its runs are described by the
answers of the pool: which command each of them serves, which groups come out,
and where the loop leaves early.
-/

namespace MCRedis.Runner

open MCRedis.Client
open MCRedis.Container
open MCRedis.Pool
open MCRedis.Transition

/-- The event is one of the pool: a handle is obtained or destroyed. -/
def isPoolEvent : RunnerEvent → Bool
  | ⟨.get _, _⟩ => true
  | ⟨.release _, _⟩ => true
  | _ => false

/-- The pool gave a handle from which `ptr` is usable. -/
def Given (trace : List RunnerEvent) (ptr : ConnPtr) : Prop :=
  ∃ key handle, (⟨.get key, handle⟩ : RunnerEvent) ∈ trace ∧ usable handle = some ptr

/-- The commands of all groups, in order. -/
def grouped (lstNodeCommand : List NodeCommand) : List CCommand :=
  lstNodeCommand.flatMap NodeCommand.lstCommand

/-- The destruction of several handles. -/
def releases (ptrs : List ConnPtr) : List RunnerEvent :=
  ptrs.map fun ptr => ⟨.release ⟨some ptr⟩, ()⟩

theorem isPoolEvent_of_mem_releases {ptrs : List ConnPtr} {event : RunnerEvent}
    (mem : event ∈ releases ptrs) : isPoolEvent event := by
  obtain ⟨ptr, _, rfl⟩ := List.mem_map.mp mem
  rfl

/-- Destroying several handles destroys them in order, up to one whose destructor
fails. -/
theorem exec_releaseAll {ptrs : List ConnPtr} {trace : List RunnerEvent}
    {result : Except Fault Unit} (exec : Exec (releaseAll ptrs) trace result) :
    (∃ count, trace = releases (ptrs.take count)) ∧ (result = .ok () → trace = releases ptrs) ∧
      ∀ fault, result = .error fault →
        ∃ handle : CConnectionRAII, handle.destructor = .error fault := by
  induction ptrs generalizing trace with
  | nil =>
      obtain ⟨rfl, rfl⟩ := Exec.pure_iff.mp exec
      refine ⟨⟨0, rfl⟩, fun _ => rfl, ?_⟩
      rintro fault ⟨⟩
  | cons ptr rest ih =>
      rcases exec_release_bind exec with ⟨fault, failed, rfl, rfl⟩ | ⟨tail, rfl, others⟩
      · refine ⟨⟨1, rfl⟩, ?_, ?_⟩
        · rintro ⟨⟩
        · rintro _ ⟨⟩
          exact ⟨_, failed⟩
      · obtain ⟨⟨count, tailEq⟩, returned, failed⟩ := ih others
        refine ⟨⟨count + 1, congrArg (List.cons _) tailEq⟩, ?_, failed⟩
        exact fun resultEq => congrArg (List.cons _) (returned resultEq)

/-- Leaving the loop over the groups early destroys the handle of the group and
those of the groups after it. -/
theorem exec_unwind {α : Type} {value returned : α} {ptr : ConnPtr} {ptrs : List ConnPtr}
    {trace : List RunnerEvent}
    (exec : Exec ((release ⟨some ptr⟩).bind fun _ => (releaseAll ptrs).bind fun _ => .pure value)
      trace (.ok returned)) : trace = releases (ptr :: ptrs) ∧ returned = value := by
  obtain ⟨rest, rfl, _, others⟩ := exec_release_bind_ok exec
  obtain ⟨first, releasing, resultEq⟩ := Exec.bind_pure_iff.mp others
  cases first with
  | error fault => contradiction
  | ok _ =>
      cases resultEq
      exact ⟨congrArg (List.cons _) ((exec_releaseAll releasing).2.1 rfl), rfl⟩

/-! ## The answers of the pool -/

/-- An answer of the pool: the key it was asked for, and the connection when it
is usable. -/
abbrev PoolAnswer := Option Bytes × Option ConnPtr

/-- The answer of the pool that the event shows. -/
def poolAnswer : RunnerEvent → Option PoolAnswer
  | ⟨.get key, handle⟩ => some (key, usable handle)
  | _ => none

/-- The answers of the pool in the trace, in order. -/
def answersOf (trace : List RunnerEvent) : List PoolAnswer :=
  trace.filterMap poolAnswer

@[simp]
theorem answersOf_nil : answersOf [] = [] :=
  rfl

@[simp]
theorem answersOf_get (key : Option Bytes) (handle : CConnectionRAII) (trace : List RunnerEvent) :
    answersOf (⟨.get key, handle⟩ :: trace) = (key, usable handle) :: answersOf trace :=
  rfl

@[simp]
theorem answersOf_release (handle : CConnectionRAII) (answer : Unit) (trace : List RunnerEvent) :
    answersOf (⟨.release handle, answer⟩ :: trace) = answersOf trace :=
  rfl

@[simp]
theorem answersOf_append (first second : List RunnerEvent) :
    answersOf (first ++ second) = answersOf first ++ answersOf second :=
  List.filterMap_append

@[simp]
theorem answersOf_releases (ptrs : List ConnPtr) : answersOf (releases ptrs) = [] := by
  induction ptrs with
  | nil => rfl
  | cons ptr ptrs ih => exact ih

/-- Attempts for a key that all fail. -/
def misses (key : Option Bytes) (count : Nat) : List PoolAnswer :=
  List.replicate count (key, none)

/-- The answers give each command a connection, after fewer than `TRetryCount`
attempts that fail. -/
inductive Obtains (TRetryCount : Nat) : List CCommand → List PoolAnswer → List ConnPtr → Prop
  | nil : Obtains TRetryCount [] [] []
  | cons {cmd : CCommand} {lstCommand : List CCommand} {key : Option Bytes} {count : Nat}
      {ptr : ConnPtr} {answers : List PoolAnswer} {ptrs : List ConnPtr} :
      cmd.getKey = .ok key → count < TRetryCount → Obtains TRetryCount lstCommand answers ptrs →
      Obtains TRetryCount (cmd :: lstCommand) (misses key count ++ (key, some ptr) :: answers)
        (ptr :: ptrs)

/-- The commands `mapped` obtain a connection, and all attempts for the command
after them fail. -/
def GivesUpAfter (TRetryCount : Nat) (mapped queue : List CCommand)
    (answers : List PoolAnswer) : Prop :=
  ∃ cmd rest key answered ptrs, queue = mapped ++ cmd :: rest ∧
    Obtains TRetryCount mapped answered ptrs ∧ cmd.getKey = .ok key ∧
    answered ++ misses key TRetryCount <+: answers

theorem Obtains.length_eq {TRetryCount : Nat} {cmds : List CCommand} {answers : List PoolAnswer}
    {ptrs : List ConnPtr} (obtains : Obtains TRetryCount cmds answers ptrs) :
    ptrs.length = cmds.length := by
  induction obtains with
  | nil => rfl
  | cons _ _ _ ih => exact congrArg Nat.succ ih

/-- The failed attempts before a connection are determined by the answers. -/
theorem misses_append_inj {key key' : Option Bytes} {count count' : Nat} {ptr ptr' : ConnPtr}
    {answers answers' : List PoolAnswer}
    (equal : misses key count ++ (key, some ptr) :: answers =
      misses key' count' ++ (key', some ptr') :: answers') :
    count = count' ∧ ptr = ptr' ∧ answers = answers' := by
  induction count generalizing count' with
  | zero =>
      cases count' with
      | zero =>
          obtain ⟨head, tail⟩ := List.cons.inj equal
          exact ⟨rfl, Option.some.inj (Prod.mk.inj head).2, tail⟩
      | succ count' =>
          obtain ⟨head, _⟩ := List.cons.inj equal
          exact absurd (Prod.mk.inj head).2 (Option.some_ne_none ptr)
  | succ count ih =>
      cases count' with
      | zero =>
          obtain ⟨head, _⟩ := List.cons.inj equal
          exact absurd (Prod.mk.inj head).2.symm (Option.some_ne_none ptr')
      | succ count' =>
          obtain ⟨countEq, rest⟩ := ih (List.cons.inj equal).2
          exact ⟨congrArg Nat.succ countEq, rest⟩

/-- A command that obtains a connection has fewer failed attempts. -/
theorem misses_not_prefix {TRetryCount count : Nat} {key key' : Option Bytes} {ptr : ConnPtr}
    {answers : List PoolAnswer} (few : count < TRetryCount) :
    ¬ misses key' TRetryCount <+: misses key count ++ (key, some ptr) :: answers := by
  induction count generalizing TRetryCount with
  | zero =>
      obtain ⟨more, rfl⟩ := Nat.exists_eq_succ_of_ne_zero (Nat.ne_zero_of_lt few)
      intro isPrefix
      have head := (List.cons_prefix_cons.mp isPrefix).1
      exact absurd (Prod.mk.inj head).2.symm (Option.some_ne_none ptr)
  | succ count ih =>
      obtain ⟨more, rfl⟩ := Nat.exists_eq_succ_of_ne_zero (Nat.ne_zero_of_lt few)
      intro isPrefix
      exact ih (Nat.lt_of_succ_lt_succ few) (List.cons_prefix_cons.mp isPrefix).2

/-- When the attempts for a command all fail, the answers do not give it a
connection. -/
theorem Obtains.not_misses_prefix {TRetryCount : Nat} {mapped rest : List CCommand}
    {cmd : CCommand} {answered answers : List PoolAnswer} {ptrs ptrs' : List ConnPtr}
    (obtains : Obtains TRetryCount mapped answered ptrs)
    (further : Obtains TRetryCount (mapped ++ cmd :: rest) answers ptrs') (key : Option Bytes)
    (more : List PoolAnswer) :
    ¬ answered ++ misses key TRetryCount <+: answers ++ more := by
  induction obtains generalizing answers ptrs' with
  | nil =>
      cases further with
      | cons _ few _ =>
          rw [List.nil_append, List.append_assoc, List.cons_append]
          exact misses_not_prefix few
  | cons _ _ _ ih =>
      cases further with
      | cons _ _ later =>
          rintro ⟨tail, equal⟩
          rw [List.append_assoc, List.append_assoc, List.append_assoc, List.cons_append,
            List.cons_append] at equal
          obtain ⟨_, _, restEq⟩ := misses_append_inj equal
          exact ih later ⟨tail, by rw [← restEq, List.append_assoc]⟩

/-- A queue whose commands all obtain a connection is not given up. -/
theorem Obtains.not_givesUpAfter {TRetryCount : Nat} {queue mapped : List CCommand}
    {answers : List PoolAnswer} {ptrs : List ConnPtr}
    (obtains : Obtains TRetryCount queue answers ptrs) (more : List PoolAnswer) :
    ¬ GivesUpAfter TRetryCount mapped queue (answers ++ more) := by
  rintro ⟨cmd, rest, key, answered, ptrs', rfl, before, _, isPrefix⟩
  exact before.not_misses_prefix obtains key more isPrefix

theorem GivesUpAfter.isPrefix {TRetryCount : Nat} {mapped queue : List CCommand}
    {answers : List PoolAnswer} (givesUp : GivesUpAfter TRetryCount mapped queue answers) :
    mapped <+: queue := by
  rcases givesUp with ⟨cmd, rest, _, _, _, rfl, _⟩
  exact List.prefix_append mapped (cmd :: rest)

/-- Giving up after some commands and after more of them exclude each other. -/
theorem GivesUpAfter.eq_of_prefix {TRetryCount : Nat} {first second queue : List CCommand}
    {answers : List PoolAnswer} (one : GivesUpAfter TRetryCount first queue answers)
    (other : GivesUpAfter TRetryCount second queue answers) (isPrefix : first <+: second) :
    first = second := by
  obtain ⟨tail, rfl⟩ := isPrefix
  rcases one with ⟨_, _, key, answered, _, _, obtains, _, answersEq⟩
  rcases other with ⟨_, _, _, answered', _, _, obtains', _, more, rfl⟩
  cases tail with
  | nil => exact (List.append_nil first).symm
  | cons cmd rest =>
      rw [List.append_assoc] at answersEq
      exact absurd answersEq (obtains.not_misses_prefix obtains' key _)

/-- Where the loop gives up is determined by the answers. -/
theorem GivesUpAfter.unique {TRetryCount : Nat} {first second queue : List CCommand}
    {answers : List PoolAnswer} (one : GivesUpAfter TRetryCount first queue answers)
    (other : GivesUpAfter TRetryCount second queue answers) : first = second := by
  rcases List.prefix_or_prefix_of_prefix one.isPrefix other.isPrefix with isPrefix | isPrefix
  · exact one.eq_of_prefix other isPrefix
  · exact (other.eq_of_prefix one isPrefix).symm

/-! ## The loop over the commands -/

/-- The group under the slot range of its connection. -/
def NodeCommand.run (elem : NodeCommand) : (Nat × Nat) × List CCommand :=
  (elem.conn.conn.slotRange, elem.lstCommand)

theorem grouped_eq_of_isRuns {groups : List NodeCommand} {items : List ((Nat × Nat) × CCommand)}
    (runs : IsRuns (groups.map NodeCommand.run) items) : grouped groups = items.map Prod.snd := by
  rw [← runs.flatMap_snd, List.flatMap_map]
  rfl

/-- The commands as they are moved into the groups, each under the slot range of
the connection that it obtained. -/
def placed (cmds : List CCommand) (ptrs : List ConnPtr) : List ((Nat × Nat) × CCommand) :=
  List.zip (ptrs.map fun ptr => ptr.conn.slotRange) (cmds.map CCommand.moved)

/-- How the retry loop of one command ends, and the answers it takes. -/
inductive AttemptsEnd (cmdKey : Option Bytes) (n : Nat) :
    List PoolAnswer → Except Fault MapAttempt → Prop
  | mapped {count : Nat} {ptr : ConnPtr} : count < n →
      AttemptsEnd cmdKey n (misses cmdKey count ++ [(cmdKey, some ptr)]) (.ok (.mapped ptr))
  | gaveUp : n ≠ 0 → AttemptsEnd cmdKey n (misses cmdKey n) (.ok .gaveUp)
  | skipped : n = 0 → AttemptsEnd cmdKey n [] (.ok .skipped)
  | destroyed {count : Nat} {handle : CConnectionRAII} {fault : Fault} :
      handle.destructor = .error fault → AttemptsEnd cmdKey n (misses cmdKey count) (.error fault)

theorem AttemptsEnd.missed {cmdKey : Option Bytes} {n : Nat} {answers : List PoolAnswer}
    {result : Except Fault MapAttempt} (ended : AttemptsEnd cmdKey n answers result)
    (more : n ≠ 0) : AttemptsEnd cmdKey (n + 1) ((cmdKey, none) :: answers) result := by
  cases ended with
  | mapped few => exact .mapped (Nat.succ_lt_succ few)
  | gaveUp => exact .gaveUp (Nat.succ_ne_zero n)
  | skipped zero => exact absurd zero more
  | @destroyed count _ _ failed => exact @AttemptsEnd.destroyed _ _ (count + 1) _ _ failed

theorem exec_mapAttempts_end {cmdKey : Option Bytes} {n : Nat} {trace : List RunnerEvent}
    {result : Except Fault MapAttempt} (exec : Exec (mapAttempts cmdKey n) trace result) :
    AttemptsEnd cmdKey n (answersOf trace) result := by
  induction n generalizing trace with
  | zero =>
      obtain ⟨rfl, rfl⟩ := Exec.pure_iff.mp exec
      exact .skipped rfl
  | succ n ih =>
      simp only [mapAttempts, poolGet, Program.perform, Program.bind_eq_bind,
        Program.request_bind, Program.bind_pure_left] at exec
      obtain ⟨handle, tail, rfl, got⟩ := Exec.request_iff.mp exec
      rw [answersOf_get]
      cases found : usable handle with
      | some ptr =>
          rw [found] at got
          obtain ⟨rfl, rfl⟩ := Exec.pure_iff.mp got
          have first : 0 < n + 1 := Nat.succ_pos n
          exact .mapped first
      | none =>
          rw [found] at got
          rcases exec_release_bind got with ⟨fault, failed, rfl, rfl⟩ | ⟨rest, rfl, retry⟩
          · exact @AttemptsEnd.destroyed _ _ 1 _ _ failed
          · rw [answersOf_release]
            by_cases last : n = 0
            · subst last
              obtain ⟨rfl, rfl⟩ := Exec.pure_iff.mp retry
              exact .gaveUp Nat.one_ne_zero
            · rw [if_neg last] at retry
              exact (ih retry).missed last

/-- What the loop compares the slot range of a connection with: the range of the
last group, or the marker when there is no group. -/
def prevRange (groups : List NodeCommand) : Nat × Nat :=
  match groups.getLast? with
  | none => (0, 0)
  | some last => last.conn.conn.slotRange

@[simp]
theorem prevRange_nil : prevRange [] = (0, 0) :=
  rfl

@[simp]
theorem prevRange_append (groups : List NodeCommand) (elem : NodeCommand) :
    prevRange (groups ++ [elem]) = elem.conn.conn.slotRange := by
  rw [prevRange, List.getLast?_append]
  rfl

/-- The groups after a command is mapped to the connection: it opens a group, or
it joins the last one. -/
inductive Places (groups : List NodeCommand) (ptr : ConnPtr) (cmd : CCommand) :
    List NodeCommand → Prop
  | opens : ptr.conn.slotRange ≠ prevRange groups →
      Places groups ptr cmd (groups ++ [⟨ptr, [cmd]⟩])
  | joins {init : List NodeCommand} {last : NodeCommand} : groups = init ++ [last] →
      last.conn.conn.slotRange = ptr.conn.slotRange →
      Places groups ptr cmd (init ++ [{ last with lstCommand := last.lstCommand ++ [cmd] }])

namespace Places

variable {groups extended : List NodeCommand} {ptr : ConnPtr} {cmd : CCommand}

theorem prevRange_eq (places : Places groups ptr cmd extended) :
    prevRange extended = ptr.conn.slotRange := by
  cases places with
  | opens => exact prevRange_append groups _
  | joins _ same => exact (prevRange_append _ _).trans same

theorem connections (places : Places groups ptr cmd extended) :
    ∀ other ∈ extended.map NodeCommand.conn,
      other ∈ groups.map NodeCommand.conn ∨ other = ptr := by
  cases places with
  | opens => simp
  | joins groupsEq =>
      subst groupsEq
      intro other mem
      left
      simpa using mem

/-- The first command never joins a group, so its range is not the marker. -/
theorem marker (places : Places groups ptr cmd extended) (empty : groups = []) :
    ptr.conn.slotRange ≠ (0, 0) := by
  cases places with
  | opens differs =>
      subst empty
      exact differs
  | joins groupsEq => simp [empty] at groupsEq

/-- The groups stay the maximal runs of equal slot range. -/
theorem isRuns {items : List ((Nat × Nat) × CCommand)}
    (places : Places groups ptr cmd extended) (runs : IsRuns (groups.map NodeCommand.run) items) :
    IsRuns (extended.map NodeCommand.run) (items ++ [(ptr.conn.slotRange, cmd)]) := by
  cases places with
  | opens differs =>
      rw [List.map_append]
      apply runs.push
      rintro last lastEq same
      obtain ⟨elem, elemEq, rfl⟩ := Option.map_eq_some_iff.mp (List.getLast?_map ▸ lastEq)
      rw [prevRange, elemEq] at differs
      exact differs same.symm
  | @joins init last groupsEq same =>
      subst groupsEq
      rw [List.map_append, ← same]
      rw [List.map_append] at runs
      exact runs.extend

end Places

/-- How the loop over the commands ends on the commands `rest`, with the groups
of the commands before them and the answers it takes. -/
inductive LoopEnd (TRetryCount : Nat) (groups : List NodeCommand) (visited : List CCommand) :
    List CCommand → List PoolAnswer → Except Fault (List NodeCommand × List CCommand) → Prop
  | done : LoopEnd TRetryCount groups visited [] [] (.ok (groups, visited))
  | gaveUp {cmd : CCommand} {rest : List CCommand} {key : Option Bytes} :
      cmd.getKey = .ok key → TRetryCount ≠ 0 →
      LoopEnd TRetryCount groups visited (cmd :: rest) (misses key TRetryCount)
        (.ok ([], visited ++ cmd :: rest))
  | noGroup {cmd : CCommand} {rest : List CCommand} {key : Option Bytes} {count : Nat}
      {ptr : ConnPtr} :
      groups = [] → cmd.getKey = .ok key → count < TRetryCount → ptr.conn.slotRange = (0, 0) →
      LoopEnd TRetryCount groups visited (cmd :: rest) (misses key count ++ [(key, some ptr)])
        (.error (.undefined .emptyContainer))
  | noKey {cmd : CCommand} {rest : List CCommand} {fault : Fault} :
      cmd.getKey = .error fault →
      LoopEnd TRetryCount groups visited (cmd :: rest) [] (.error fault)
  | skipped {rest : List CCommand} :
      TRetryCount = 0 →
      LoopEnd TRetryCount groups visited rest [] (.ok (groups, visited ++ rest))
  | skippedNoKey {rest : List CCommand} {cmd : CCommand} {fault : Fault} :
      TRetryCount = 0 → cmd ∈ rest → cmd.getKey = .error fault →
      LoopEnd TRetryCount groups visited rest [] (.error fault)
  | destroyed {rest : List CCommand} {key : Option Bytes} {count : Nat}
      {handle : CConnectionRAII} {fault : Fault} :
      handle.destructor = .error fault →
      LoopEnd TRetryCount groups visited rest (misses key count) (.error fault)

/-- A run of the loop: the commands `mapped` obtain the connections `ptrs` and
extend the groups, and the loop ends on the commands `rest`. -/
structure LoopRun (TRetryCount : Nat) (queue : List CCommand) (before : List NodeCommand)
    (items : List ((Nat × Nat) × CCommand)) (visited : List CCommand) (answers : List PoolAnswer)
    (result : Except Fault (List NodeCommand × List CCommand)) (mapped rest : List CCommand)
    (ptrs : List ConnPtr) (after : List NodeCommand) : Prop where
  queue : queue = mapped ++ rest
  runs : IsRuns (after.map NodeCommand.run) (items ++ placed mapped ptrs)
  connections : ∀ ptr ∈ after.map NodeCommand.conn,
    ptr ∈ before.map NodeCommand.conn ∨ ptr ∈ ptrs
  marker : before = [] → ∀ ptr ∈ ptrs.head?, ptr.conn.slotRange ≠ (0, 0)
  ending : ∃ answered more, answers = answered ++ more ∧
    Obtains TRetryCount mapped answered ptrs ∧
    LoopEnd TRetryCount after (visited ++ mapped.map CCommand.movedFrom) rest more result

/-- The loop ends without mapping another command. -/
theorem LoopRun.ends {TRetryCount : Nat} {queue : List CCommand} {before : List NodeCommand}
    {items : List ((Nat × Nat) × CCommand)} {visited : List CCommand} {answers : List PoolAnswer}
    {result : Except Fault (List NodeCommand × List CCommand)}
    (runs : IsRuns (before.map NodeCommand.run) items)
    (ending : LoopEnd TRetryCount before visited queue answers result) :
    LoopRun TRetryCount queue before items visited answers result [] queue [] before := by
  constructor
  · rfl
  · simpa [placed] using runs
  · exact fun ptr mem => .inl mem
  · simp
  · exact ⟨[], answers, rfl, .nil, by simpa using ending⟩

/-- One command is mapped, then the loop goes on. -/
theorem LoopRun.cons {TRetryCount count : Nat} {cmd : CCommand} {queue mapped rest : List CCommand}
    {before extended after : List NodeCommand} {items : List ((Nat × Nat) × CCommand)}
    {visited : List CCommand} {key : Option Bytes} {ptr : ConnPtr} {ptrs : List ConnPtr}
    {answers : List PoolAnswer} {result : Except Fault (List NodeCommand × List CCommand)}
    (keyEq : cmd.getKey = .ok key) (few : count < TRetryCount)
    (places : Places before ptr cmd.moved extended)
    (loop : LoopRun TRetryCount queue extended (items ++ [(ptr.conn.slotRange, cmd.moved)])
      (visited ++ [cmd.movedFrom]) answers result mapped rest ptrs after) :
    LoopRun TRetryCount (cmd :: queue) before items visited
      (misses key count ++ (key, some ptr) :: answers) result (cmd :: mapped) rest (ptr :: ptrs)
      after := by
  constructor
  · exact congrArg (List.cons cmd) loop.queue
  · have runs := loop.runs
    rw [List.append_assoc] at runs
    exact runs
  · intro other mem
    rcases loop.connections other mem with old | new
    · rcases places.connections other old with old | rfl
      · exact .inl old
      · exact .inr List.mem_cons_self
    · exact .inr (List.mem_cons_of_mem ptr new)
  · rintro empty _ ⟨⟩
    exact places.marker empty
  · obtain ⟨answered, more, rfl, obtains, ending⟩ := loop.ending
    refine ⟨_, more, ?_, .cons keyEq few obtains, ?_⟩
    · rw [List.append_assoc, List.cons_append]
    · rw [List.append_assoc] at ending
      exact ending

/-- Without attempts the commands are skipped. -/
theorem exec_mapCommands_zero {cmds visited : List CCommand} {prevSlotRange : Nat × Nat}
    {before : List NodeCommand} {trace : List RunnerEvent}
    {result : Except Fault (List NodeCommand × List CCommand)}
    (exec : Exec (mapCommands 0 cmds prevSlotRange before visited) trace result) :
    LoopEnd 0 before visited cmds (answersOf trace) result := by
  induction cmds generalizing visited with
  | nil =>
      obtain ⟨rfl, rfl⟩ := Exec.pure_iff.mp exec
      exact .done
  | cons cmd cmds ih =>
      rw [mapCommands] at exec
      cases keyEq : cmd.getKey with
      | error fault =>
          rw [keyEq] at exec
          obtain ⟨rfl, rfl⟩ := Exec.fail_iff.mp exec
          exact .noKey keyEq
      | ok cmdKey =>
          rw [keyEq] at exec
          have ended := ih exec
          generalize answersOf trace = taken at ended ⊢
          cases ended with
          | done => exact .skipped rfl
          | gaveUp _ positive => exact absurd rfl positive
          | noGroup _ _ few => exact absurd few (Nat.not_lt_zero _)
          | noKey faultEq =>
              exact .skippedNoKey rfl (List.mem_cons_of_mem cmd List.mem_cons_self) faultEq
          | skipped zero =>
              rw [List.append_assoc]
              exact .skipped zero
          | skippedNoKey zero mem faultEq =>
              exact .skippedNoKey zero (List.mem_cons_of_mem cmd mem) faultEq
          | destroyed failed => exact .destroyed failed

/-- What the loop does with a command once it is mapped: it places it in a group
and goes on, unless the connection that a group does not need cannot be
destroyed, or the range is the marker and there is no group. -/
theorem exec_mapped {TRetryCount : Nat} {cmd : CCommand} {queue visited : List CCommand}
    {before : List NodeCommand} {ptr : ConnPtr} {trace : List RunnerEvent}
    {result : Except Fault (List NodeCommand × List CCommand)}
    (exec : Exec
      (if ptr.conn.slotRange ≠ prevRange before then
        mapCommands TRetryCount queue ptr.conn.slotRange (before ++ [⟨ptr, [cmd.moved]⟩])
          (visited ++ [cmd.movedFrom])
      else
        (Program.ofExcept (appendToLast before cmd.moved)).bind fun lstNodeCommand =>
          (release ⟨some ptr⟩).bind fun _ =>
            mapCommands TRetryCount queue (prevRange before) lstNodeCommand
              (visited ++ [cmd.movedFrom])) trace result) :
    (∃ extended loopTrace, Places before ptr cmd.moved extended ∧
        answersOf trace = answersOf loopTrace ∧
        Exec (mapCommands TRetryCount queue (prevRange extended) extended
          (visited ++ [cmd.movedFrom])) loopTrace result) ∨
      (∃ extended fault, Places before ptr cmd.moved extended ∧
        (⟨some ptr⟩ : CConnectionRAII).destructor = .error fault ∧ answersOf trace = [] ∧
        result = .error fault) ∨
      (before = [] ∧ ptr.conn.slotRange = (0, 0) ∧ trace = [] ∧
        result = .error (.undefined .emptyContainer)) := by
  by_cases differs : ptr.conn.slotRange ≠ prevRange before
  · have places : Places before ptr cmd.moved (before ++ [⟨ptr, [cmd.moved]⟩]) := .opens differs
    rw [if_pos differs, ← places.prevRange_eq] at exec
    exact .inl ⟨_, trace, places, rfl, exec⟩
  · rw [if_neg differs] at exec
    have same := not_not.mp differs
    rcases before.eq_nil_or_concat with rfl | ⟨init, last, rfl⟩
    · obtain ⟨rfl, rfl⟩ := Exec.fail_iff.mp exec
      exact .inr (.inr ⟨rfl, same, rfl, rfl⟩)
    · rw [List.concat_eq_append] at same exec ⊢
      have lastRange := same.trans (prevRange_append init last)
      have places : Places (init ++ [last]) ptr cmd.moved _ := .joins rfl lastRange.symm
      rw [appendToLast_append] at exec
      rcases exec_release_bind exec with ⟨fault, failed, rfl, rfl⟩ | ⟨rest, rfl, loop⟩
      · exact .inr (.inl ⟨_, fault, places, failed, rfl, rfl⟩)
      · refine .inl ⟨_, rest, places, rfl, ?_⟩
        rw [places.prevRange_eq, same]
        exact loop

/-- Every run of the loop maps some of the commands and ends on the others. -/
theorem exec_mapCommands_run {TRetryCount : Nat} {queue visited : List CCommand}
    {before : List NodeCommand} {items : List ((Nat × Nat) × CCommand)} {trace : List RunnerEvent}
    {result : Except Fault (List NodeCommand × List CCommand)}
    (runs : IsRuns (before.map NodeCommand.run) items)
    (exec : Exec (mapCommands TRetryCount queue (prevRange before) before visited) trace result) :
    ∃ mapped rest ptrs after, LoopRun TRetryCount queue before items visited (answersOf trace)
      result mapped rest ptrs after := by
  by_cases zero : TRetryCount = 0
  · subst zero
    exact ⟨_, _, _, _, .ends runs (exec_mapCommands_zero exec)⟩
  induction queue generalizing before items visited trace with
  | nil =>
      obtain ⟨rfl, rfl⟩ := Exec.pure_iff.mp exec
      exact ⟨_, _, _, _, .ends runs .done⟩
  | cons cmd queue ih =>
      rw [mapCommands] at exec
      cases keyEq : cmd.getKey with
      | error fault =>
          rw [keyEq] at exec
          obtain ⟨rfl, rfl⟩ := Exec.fail_iff.mp exec
          exact ⟨_, _, _, _, .ends runs (.noKey keyEq)⟩
      | ok cmdKey =>
          simp only [keyEq, Program.ofExcept_ok, Program.bind_eq_bind,
            Program.bind_pure_left] at exec
          rcases Exec.bind_iff.mp exec with
            ⟨fault, tried, rfl⟩ | ⟨attempt, first, second, rfl, tried, continued⟩
          · have ended := exec_mapAttempts_end tried
            generalize answersOf trace = taken at ended
            cases ended with
            | destroyed failed => exact ⟨_, _, _, _, .ends runs (.destroyed failed)⟩
          have ended := exec_mapAttempts_end tried
          rw [answersOf_append]
          generalize answersOf first = taken at ended
          cases ended with
          | mapped few =>
              rw [List.append_assoc, List.singleton_append]
              rcases exec_mapped continued with
                ⟨extended, loopTrace, places, answersEq, loop⟩ |
                  ⟨extended, fault, places, failed, answersEq, rfl⟩ | ⟨rfl, range, rfl, rfl⟩
              · obtain ⟨mapped, rest, ptrs, after, run⟩ := ih (places.isRuns runs) loop
                rw [answersEq]
                exact ⟨_, _, _, _, run.cons keyEq few places⟩
              · have ended : LoopEnd TRetryCount extended (visited ++ [cmd.movedFrom]) queue []
                    (.error fault) := @LoopEnd.destroyed _ _ _ _ none 0 _ _ failed
                rw [answersEq]
                exact ⟨_, _, _, _, (LoopRun.ends (places.isRuns runs) ended).cons keyEq few places⟩
              · exact ⟨_, _, _, _, .ends runs (.noGroup rfl keyEq few range)⟩
          | gaveUp positive =>
              obtain ⟨released, releasing, rfl⟩ := Exec.bind_pure_iff.mp continued
              obtain ⟨⟨count, rfl⟩, _, failed⟩ := exec_releaseAll releasing
              rw [answersOf_releases, List.append_nil]
              cases released with
              | ok _ => exact ⟨_, _, _, _, .ends runs (.gaveUp keyEq positive)⟩
              | error fault =>
                  obtain ⟨handle, destructorEq⟩ := failed fault rfl
                  exact ⟨_, _, _, _, .ends runs (.destroyed destructorEq)⟩
          | skipped none => exact absurd none zero

theorem exec_mapCommandPerNode_run {TRetryCount : Nat} {queue : List CCommand}
    {trace : List RunnerEvent} {result : Except Fault (List NodeCommand × List CCommand)}
    (exec : Exec (mapCommandPerNode TRetryCount queue) trace result) :
    ∃ mapped rest ptrs after,
      LoopRun TRetryCount queue [] [] [] (answersOf trace) result mapped rest ptrs after :=
  exec_mapCommands_run .nil exec

theorem length_placed {TRetryCount : Nat} {cmds : List CCommand} {answers : List PoolAnswer}
    {ptrs : List ConnPtr} (obtains : Obtains TRetryCount cmds answers ptrs) :
    (placed cmds ptrs).length = cmds.length := by
  rw [placed, List.length_zip, List.length_map, List.length_map, obtains.length_eq, Nat.min_self]

theorem placed_snd {TRetryCount : Nat} {cmds : List CCommand} {answers : List PoolAnswer}
    {ptrs : List ConnPtr} (obtains : Obtains TRetryCount cmds answers ptrs) :
    (placed cmds ptrs).map Prod.snd = cmds.map CCommand.moved := by
  rw [placed, List.map_snd_zip]
  rw [List.length_map, List.length_map, obtains.length_eq]

/-! ## The handles that are destroyed -/

theorem disposing_releaseAll (ptrs : List ConnPtr) : Disposing (releaseAll ptrs) := by
  induction ptrs with
  | nil => exact .pure (List.forall_mem_nil _)
  | cons ptr rest ih => exact (disposing_release _).then fun _ => ih

theorem disposing_mapAttempts (cmdKey : Option Bytes) (n : Nat) :
    Disposing (mapAttempts cmdKey n) := by
  induction n with
  | zero => exact .pure (List.forall_mem_nil _)
  | succ n ih =>
      apply Disposing.request fun _ => rfl
      intro handle
      simp only [Program.bind_pure_left]
      cases usable handle with
      | some ptr => exact .pure (List.forall_mem_nil _)
      | none =>
          apply (disposing_release handle).then
          intro _
          by_cases last : n = 0
          · rw [if_pos last]
            exact .pure (List.forall_mem_nil _)
          · rw [if_neg last]
            exact ih

/-- A mapping that returns has destroyed disposable handles only. -/
theorem disposing_mapCommands (TRetryCount : Nat) (cmds : List CCommand)
    (prevSlotRange : Nat × Nat) (groups : List NodeCommand) (visited : List CCommand) :
    Disposing (mapCommands TRetryCount cmds prevSlotRange groups visited) := by
  induction cmds generalizing prevSlotRange groups visited with
  | nil => exact .pure (List.forall_mem_nil _)
  | cons cmd cmds ih =>
      apply Leaves.bind_ofExcept
      intro cmdKey _
      apply (disposing_mapAttempts cmdKey TRetryCount).then
      intro attempt
      cases attempt with
      | gaveUp => exact (disposing_releaseAll _).then fun _ => .pure (List.forall_mem_nil _)
      | skipped => exact ih _ _ _
      | mapped ptr =>
          dsimp only
          split
          · exact ih _ _ _
          · apply Leaves.bind_ofExcept
            intro extended _
            exact (disposing_release _).then fun _ => ih _ _ _

/-! ## What a batch may rely on -/

/-- What a normal return of the mapping loop guarantees, from the groups and
the visited commands it started with. -/
structure MappingResult (TRetryCount : Nat) (lstCommand : List CCommand)
    (before : List NodeCommand) (visited : List CCommand) (trace : List RunnerEvent)
    (after : List NodeCommand) (left : List CCommand) : Prop where
  poolOnly : ∀ event ∈ trace, isPoolEvent event
  length : left.length = visited.length + lstCommand.length
  commands : TRetryCount ≠ 0 →
    (after = [] ∧ ∃ mapped, GivesUpAfter TRetryCount mapped lstCommand (answersOf trace)) ∨
    grouped after = grouped before ++ lstCommand.map CCommand.moved
  unmapped : TRetryCount = 0 → after = before
  connections : ∀ ptr ∈ after.map NodeCommand.conn,
    ptr ∈ before.map NodeCommand.conn ∨ Given trace ptr

/-- The operation is one of the pool. -/
def RunnerOp.isPool : RunnerOp → Bool
  | .get _ => true
  | .release _ => true
  | _ => false

theorem isPoolEvent_of_isPool {event : RunnerEvent} (pool : event.op.isPool) :
    isPoolEvent event := by
  rcases event with ⟨_ | _ | _ | _, answer⟩ <;> first | rfl | contradiction

/-- The program only talks to the pool. -/
abbrev PoolOnly {α : Type} (program : RunnerProgram α) : Prop :=
  Guarantees (fun _ _ => True) (fun op => op.isPool) (fun _ => True) program

theorem poolOnly_release (handle : CConnectionRAII) : PoolOnly (release handle) :=
  guarantees_release rfl

theorem poolOnly_releaseAll (ptrs : List ConnPtr) : PoolOnly (releaseAll ptrs) := by
  induction ptrs with
  | nil => trivial
  | cons ptr ptrs ih => exact (poolOnly_release _).bind fun _ _ => ih

theorem poolOnly_mapAttempts (cmdKey : Option Bytes) (n : Nat) :
    PoolOnly (mapAttempts cmdKey n) := by
  induction n with
  | zero => trivial
  | succ n ih =>
      simp only [mapAttempts, poolGet, Program.perform, Program.bind_eq_bind,
        Program.request_bind, Program.bind_pure_left]
      refine ⟨rfl, ?_⟩
      intro handle _
      dsimp only
      cases usable handle with
      | some ptr => trivial
      | none =>
          apply (poolOnly_release handle).bind
          intro _ _
          by_cases last : n = 0
          · subst last
            trivial
          · simp only [if_neg last]
            exact ih

theorem poolOnly_mapCommands (TRetryCount : Nat) (cmds : List CCommand)
    (prevSlotRange : Nat × Nat) (groups : List NodeCommand) (visited : List CCommand) :
    PoolOnly (mapCommands TRetryCount cmds prevSlotRange groups visited) := by
  induction cmds generalizing prevSlotRange groups visited with
  | nil => trivial
  | cons cmd cmds ih =>
      rw [mapCommands]
      cases cmd.getKey with
      | error fault => trivial
      | ok cmdKey =>
          apply (poolOnly_mapAttempts cmdKey TRetryCount).bind
          intro attempt _
          cases attempt with
          | gaveUp => exact (poolOnly_releaseAll _).bind fun _ _ => trivial
          | skipped => exact ih _ _ _
          | mapped ptr =>
              change PoolOnly (if ptr.conn.slotRange ≠ prevSlotRange then _ else _)
              split
              · exact ih _ _ _
              · cases appendToLast groups cmd.moved with
                | error fault => trivial
                | ok extended => exact (poolOnly_release _).bind fun _ _ => ih _ _ _

theorem exists_get_of_mem_answersOf {trace : List RunnerEvent} {key : Option Bytes}
    {found : Option ConnPtr} (mem : (key, found) ∈ answersOf trace) :
    ∃ handle, (⟨.get key, handle⟩ : RunnerEvent) ∈ trace ∧ usable handle = found := by
  obtain ⟨⟨op, answer⟩, eventMem, answerEq⟩ := List.mem_filterMap.mp mem
  cases op with
  | get key =>
      obtain ⟨rfl, usableEq⟩ := Prod.mk.inj (Option.some.inj answerEq)
      exact ⟨answer, eventMem, usableEq⟩
  | release | callback | redis => contradiction

theorem Obtains.exists_mem {TRetryCount : Nat} {cmds : List CCommand} {answers : List PoolAnswer}
    {ptrs : List ConnPtr} (obtains : Obtains TRetryCount cmds answers ptrs) :
    ∀ ptr ∈ ptrs, ∃ key, (key, some ptr) ∈ answers := by
  induction obtains with
  | nil => simp
  | @cons _ _ key _ _ _ _ _ _ _ ih =>
      intro other mem
      rcases List.mem_cons.mp mem with rfl | mem
      · exact ⟨key, by simp⟩
      · obtain ⟨otherKey, otherMem⟩ := ih other mem
        exact ⟨otherKey, List.mem_append_right _ (List.mem_cons_of_mem _ otherMem)⟩

/-- A normal return of the mapping. -/
theorem exec_mapCommandPerNode {TRetryCount : Nat} {queue left : List CCommand}
    {groups : List NodeCommand} {trace : List RunnerEvent}
    (exec : Exec (mapCommandPerNode TRetryCount queue) trace (.ok (groups, left))) :
    MappingResult TRetryCount queue [] [] trace groups left := by
  have poolOnly := ((poolOnly_mapCommands TRetryCount queue (0, 0) [] []).exec exec
    fun _ _ => trivial).1
  obtain ⟨mapped, rest, ptrs, after, run⟩ := exec_mapCommandPerNode_run exec
  obtain ⟨answered, more, answersEq, obtains, ending⟩ := run.ending
  have queueEq := run.queue
  constructor
  · exact fun event mem => isPoolEvent_of_isPool (poolOnly event mem)
  · rw [queueEq]
    cases ending <;> simp
  · intro notZero
    cases ending with
    | done =>
        right
        rw [queueEq, List.append_nil, grouped_eq_of_isRuns run.runs, List.nil_append,
          placed_snd obtains]
        rfl
    | gaveUp keyEq _ =>
        left
        exact ⟨rfl, mapped, _, _, _, answered, ptrs, queueEq, obtains, keyEq,
          answersEq ▸ List.prefix_rfl⟩
    | skipped zero => exact absurd zero notZero
  · rintro rfl
    have ended := exec_mapCommands_zero exec
    generalize answersOf trace = answers at ended
    cases ended with
    | done => rfl
    | gaveUp _ positive => exact absurd rfl positive
    | skipped => rfl
  · intro ptr mem
    right
    have obtained : ptr ∈ after.map NodeCommand.conn := by
      cases ending with
      | done => exact mem
      | gaveUp => contradiction
      | skipped => exact mem
    rcases run.connections ptr obtained with old | new
    · contradiction
    · obtain ⟨key, answerMem⟩ := obtains.exists_mem ptr new
      have mem : (key, some ptr) ∈ answersOf trace := by
        rw [answersEq]
        exact List.mem_append_left more answerMem
      exact ⟨key, exists_get_of_mem_answersOf mem⟩

end MCRedis.Runner
