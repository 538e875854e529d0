import MCRedis.Runner.Batch

/-!
# The groups of a batch

The groups of `mapCommandPerNode` are the maximal runs of commands whose
connections have the same slot range.  The marker for "no previous group" is the
range from 0 to 0, which is also the range of a node that owns slot 0 alone.
-/

namespace MCRedis.Runner

open MCRedis.Client
open MCRedis.Container
open MCRedis.Pool
open MCRedis.Transition

/-! ## The groups that come out -/

/-- The groups hold the commands of the queue in order, none is empty, each
command is in a group with the slot range of the connection that it obtained, and
neighbouring groups have different ranges. -/
structure MaximalGroups (queue : List CCommand) (ptrs : List ConnPtr)
    (groups : List NodeCommand) : Prop where
  commands : grouped groups = queue.map CCommand.moved
  unchanged : (∀ cmd ∈ queue, cmd.WellFormed) → grouped groups = queue
  nonempty : ∀ elem ∈ groups, elem.lstCommand ≠ []
  ranges : groups.flatMap (fun elem =>
    elem.lstCommand.map fun cmd => (elem.conn.conn.slotRange, cmd)) = placed queue ptrs
  maximal : groups.IsChain fun elem next => elem.conn.conn.slotRange ≠ next.conn.conn.slotRange

theorem MaximalGroups.of_isRuns {TRetryCount : Nat} {queue : List CCommand}
    {answers : List PoolAnswer} {ptrs : List ConnPtr} {groups : List NodeCommand}
    (obtains : Obtains TRetryCount queue answers ptrs)
    (runs : IsRuns (groups.map NodeCommand.run) (placed queue ptrs)) :
    MaximalGroups queue ptrs groups := by
  have commands : grouped groups = queue.map CCommand.moved := by
    rw [grouped_eq_of_isRuns runs, placed_snd obtains]
  constructor
  · exact commands
  · exact fun wellFormed => commands.trans (CCommand.map_moved_eq wellFormed)
  · exact fun elem mem => runs.nonempty _ (List.mem_map_of_mem mem)
  · rw [← runs.content, List.flatMap_map]
    rfl
  · exact (List.isChain_map NodeCommand.run).mp runs.maximal

/-- `mapCommandPerNode` gives no groups exactly when all attempts for some
command fail; otherwise its groups are the maximal runs of commands whose
connections have the same slot range. -/
theorem mapCommandPerNode_groups {TRetryCount : Nat} {queue left : List CCommand}
    {groups : List NodeCommand} {trace : List RunnerEvent} (nonempty : queue ≠ [])
    (positive : 1 ≤ TRetryCount)
    (exec : Exec (mapCommandPerNode TRetryCount queue) trace (.ok (groups, left))) :
    (groups = [] ↔ ∃ mapped, GivesUpAfter TRetryCount mapped queue (answersOf trace)) ∧
      (groups ≠ [] → ∃ ptrs, Obtains TRetryCount queue (answersOf trace) ptrs ∧
        MaximalGroups queue ptrs groups) := by
  obtain ⟨mapped, rest, ptrs, after, run⟩ := exec_mapCommandPerNode_run exec
  obtain ⟨answered, more, answersEq, obtains, ending⟩ := run.ending
  have queueEq := run.queue
  cases ending with
  | done =>
      rw [List.append_nil] at queueEq
      subst queueEq
      rw [answersEq]
      have runs := run.runs
      rw [List.nil_append] at runs
      have present : groups ≠ [] := by
        intro empty
        have none := runs.eq_nil_iff.mp (List.map_eq_nil_iff.mpr empty)
        have length := length_placed obtains
        rw [none] at length
        exact nonempty (List.eq_nil_of_length_eq_zero length.symm)
      constructor
      · constructor
        · exact fun empty => absurd empty present
        · rintro ⟨given, givesUp⟩
          exact absurd givesUp (obtains.not_givesUpAfter [])
      · rw [List.append_nil]
        exact fun _ => ⟨ptrs, obtains, .of_isRuns obtains runs⟩
  | gaveUp keyEq _ =>
      have givesUp : GivesUpAfter TRetryCount mapped queue (answersOf trace) :=
        ⟨_, _, _, answered, ptrs, queueEq, obtains, keyEq, answersEq ▸ List.prefix_rfl⟩
      exact ⟨iff_of_true rfl ⟨mapped, givesUp⟩, fun present => absurd rfl present⟩
  | skipped zero => exact absurd zero (Nat.ne_zero_of_lt positive)

/-- Two nodes: the first one has the key `a`. -/
abbrev twoRanges : Environment RunnerOp RunnerAns Nat :=
  freshEnvironment (fun key => if key = some [0x61] then (0, 8191) else (8192, 16383))
    fun _ => false

/-- `GET a` and `GET b` on two nodes come out in two groups. -/
theorem mapCommandPerNode_groups_getBoth :
    ∃ trace groups left,
      Exec (mapCommandPerNode 5 (getBoth.map .ofTexts)) trace (.ok (groups, left)) ∧
        groups.length = 2 ∧
        (groups = [] ↔ ∃ mapped, GivesUpAfter 5 mapped (getBoth.map .ofTexts) (answersOf trace)) ∧
        (groups ≠ [] → ∃ ptrs, Obtains 5 (getBoth.map .ofTexts) (answersOf trace) ptrs ∧
          MaximalGroups (getBoth.map .ofTexts) ptrs groups) := by
  have exec := Program.exec_run twoRanges (mapCommandPerNode 5 (getBoth.map .ofTexts)) 0
  exact ⟨_, _, _, exec, rfl, mapCommandPerNode_groups (by decide) (by decide) exec⟩

/-! ## The marker -/

/-- The connection of the first answer that has one, among the first
`TRetryCount` answers. -/
def FirstUsable (TRetryCount : Nat) (answers : List PoolAnswer) (ptr : ConnPtr) : Prop :=
  ∃ key count, count < TRetryCount ∧ misses key count ++ [(key, some ptr)] <+: answers

theorem not_firstUsable_nil (TRetryCount : Nat) (ptr : ConnPtr) :
    ¬ FirstUsable TRetryCount [] ptr := by
  rintro ⟨key, count, _, isPrefix⟩
  simpa using List.prefix_nil.mp isPrefix

theorem not_firstUsable_misses (TRetryCount count : Nat) (key : Option Bytes) (ptr : ConnPtr) :
    ¬ FirstUsable TRetryCount (misses key count) ptr := by
  rintro ⟨key', count', _, isPrefix⟩
  have mem : (key', some ptr) ∈ misses key count := isPrefix.subset (by simp)
  have answer := List.eq_of_mem_replicate mem
  exact absurd (Prod.mk.inj answer).2 (Option.some_ne_none ptr)

theorem FirstUsable.eq {TRetryCount count : Nat} {key : Option Bytes} {ptr ptr' : ConnPtr}
    {answers : List PoolAnswer}
    (first : FirstUsable TRetryCount (misses key count ++ (key, some ptr) :: answers) ptr') :
    ptr' = ptr := by
  obtain ⟨key', count', _, more, equal⟩ := first
  rw [List.append_assoc] at equal
  exact (misses_append_inj equal).2.1

theorem CCommand.getKey_ne_emptyContainer (cmd : CCommand) :
    cmd.getKey ≠ .error (.undefined .emptyContainer) := by
  rw [CCommand.getKey]
  split
  · simp
  · rw [CCommand.argument]
    split <;> simp [Except.map]

theorem destructor_ne_emptyContainer (handle : CConnectionRAII) :
    handle.destructor ≠ .error (.undefined .emptyContainer) := by
  rcases handle.destructor_cases with returned | null | terminates
  · simp [returned]
  · simp [null]
  · simp [terminates]

/-- Some group exists whenever the loop appends to the last one, exactly when the
first usable connection does not have the range of the marker. -/
theorem mapCommandPerNode_appends_iff {TRetryCount : Nat} {queue : List CCommand}
    {trace : List RunnerEvent} {result : Except Fault (List NodeCommand × List CCommand)}
    (exec : Exec (mapCommandPerNode TRetryCount queue) trace result) :
    result ≠ .error (.undefined .emptyContainer) ↔
      ∀ ptr, FirstUsable TRetryCount (answersOf trace) ptr → ptr.conn.slotRange ≠ (0, 0) := by
  obtain ⟨mapped, rest, ptrs, after, run⟩ := exec_mapCommandPerNode_run exec
  obtain ⟨answered, more, answersEq, obtains, ending⟩ := run.ending
  rw [answersEq]
  constructor
  · intro safe ptr first
    cases obtains with
    | nil =>
        rw [List.nil_append] at first
        cases ending with
        | done => exact absurd first (not_firstUsable_nil _ ptr)
        | gaveUp => exact absurd first (not_firstUsable_misses _ _ _ ptr)
        | noGroup => exact absurd rfl safe
        | noKey => exact absurd first (not_firstUsable_nil _ ptr)
        | skipped => exact absurd first (not_firstUsable_nil _ ptr)
        | skippedNoKey => exact absurd first (not_firstUsable_nil _ ptr)
        | destroyed => exact absurd first (not_firstUsable_misses _ _ _ ptr)
    | cons =>
        rw [List.append_assoc, List.cons_append] at first
        rw [first.eq]
        exact run.marker rfl _ rfl
  · rintro marker rfl
    generalize faultEq : Except.error (Fault.undefined .emptyContainer) = result at ending
    cases ending with
    | done => contradiction
    | gaveUp => contradiction
    | skipped => contradiction
    | noKey keyEq =>
        cases faultEq
        exact CCommand.getKey_ne_emptyContainer _ keyEq
    | skippedNoKey _ _ keyEq =>
        cases faultEq
        exact CCommand.getKey_ne_emptyContainer _ keyEq
    | destroyed failed =>
        cases faultEq
        exact destructor_ne_emptyContainer _ failed
    | noGroup empty _ few range =>
        have none := run.runs.eq_nil_iff.mp (List.map_eq_nil_iff.mpr empty)
        have length := length_placed obtains
        rw [← List.nil_append (placed mapped ptrs), none] at length
        cases List.eq_nil_of_length_eq_zero length.symm
        cases obtains
        exact marker _ ⟨_, _, few, List.prefix_rfl⟩ range

/-- On one node that owns all slots no append lacks a group. -/
theorem mapCommandPerNode_appends_getBoth :
    ∃ trace result, Exec (mapCommandPerNode 5 (getBoth.map .ofTexts)) trace result ∧
      (result ≠ .error (.undefined .emptyContainer) ↔
        ∀ ptr, FirstUsable 5 (answersOf trace) ptr → ptr.conn.slotRange ≠ (0, 0)) := by
  have exec := Program.exec_run (freshEnvironment (fun _ => (0, 16383)) fun _ => false)
    (mapCommandPerNode 5 (getBoth.map .ofTexts)) 0
  exact ⟨_, _, exec, mapCommandPerNode_appends_iff exec⟩

/-- `GET 06S` twice: the key is in slot 0. -/
def getSlotZero : List (List Bytes) :=
  [[[0x47, 0x45, 0x54], [0x30, 0x36, 0x53]], [[0x47, 0x45, 0x54], [0x30, 0x36, 0x53]]]

/-- On a node that owns slot 0 alone, the first command is appended to the last
group of none. -/
theorem mapCommandPerNode_appends_to_no_group :
    ((mapCommandPerNode 5 (getSlotZero.map .ofTexts)).run
      (freshEnvironment (fun _ => (0, 0)) fun _ => false) 0).result =
        .error (.undefined .emptyContainer) :=
  rfl

end MCRedis.Runner
