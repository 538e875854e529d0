import MCRedis.Hiredis.Reader

/-!
# Arrays under construction

While a nested reply is read, one array at every level is waiting for elements.
A level records how many were announced and which are there; the levels are
listed from the innermost to the root.  They determine the tasks on the stack,
below the task of the current item, and the objects in memory: each array object
points to its complete elements and to the array that is under construction
inside it, and its other elements are null.
-/

namespace MCRedis.Hiredis

open MCRedis.Client

/-- An array that still waits for elements. -/
structure Level where
  total : Nat
  done : List RedisReply

/-- The place of the next object, when the root is at `base`. -/
def nextPlace (base : Nat) : List Level → Nat
  | [] => base
  | level :: levels => nextPlace base levels + 1 + sizes level.done

/-- The objects of one level; `child` is the array under construction in it. -/
def frame (place : Nat) (level : Level) (child : Option Nat) : List ReplyObject :=
  arrayObject (padded level.total (roots (place + 1) level.done ++ child.toList)) ::
    layouts (place + 1) level.done

/-- The objects of the levels; `child` belongs to the innermost one. -/
def frames (base : Nat) : List Level → Option Nat → List ReplyObject
  | [], _ => []
  | level :: levels, child =>
      frames base levels (some (nextPlace base levels)) ++
        frame (nextPlace base levels) level child

/-- The index of the current item in its parent; the root has none. -/
def currentIdx : List Level → Int
  | [] => -1
  | level :: _ => level.done.length

/-- The task of an array, inside the arrays of other levels. -/
def arrayTask (base : Nat) (level : Level) (levels : List Level) : RedisReadTask where
  type := some .array
  elements := level.total
  idx := currentIdx levels
  obj := some (nextPlace base levels)

/-- The tasks of the arrays. -/
def arrayTasks (base : Nat) : List Level → List RedisReadTask
  | [] => []
  | level :: levels => arrayTask base level levels :: arrayTasks base levels

/-- What a complete item leads to: the arrays that it completes are closed, and
either the root is complete or an array waits for its next element. -/
def settle : List Level → RedisReply → RedisReply ⊕ List Level
  | [], reply => .inl reply
  | level :: levels, reply =>
      if level.done.length + 1 = level.total then settle levels (.array (level.done ++ [reply]))
      else .inr ({ level with done := level.done ++ [reply] } :: levels)

/-- Every level waits for an element, and counts them in an `int`. -/
def Waiting (levels : List Level) : Prop :=
  ∀ level ∈ levels, level.done.length < level.total ∧ level.total ≤ intMax

theorem length_frame (place : Nat) (level : Level) (child : Option Nat) :
    (frame place level child).length = 1 + sizes level.done := by
  rw [frame, List.length_cons, length_layouts, Nat.add_comm]

theorem add_length_frames (base : Nat) (levels : List Level) (child : Option Nat) :
    base + (frames base levels child).length = nextPlace base levels := by
  induction levels generalizing child with
  | nil => rfl
  | cons level levels ih =>
      rw [frames, List.length_append, length_frame, nextPlace, ← Nat.add_assoc, ih, Nat.add_assoc]

theorem length_arrayTasks (base : Nat) (levels : List Level) :
    (arrayTasks base levels).length = levels.length := by
  induction levels with
  | nil => rfl
  | cons level levels ih => rw [arrayTasks, List.length_cons, List.length_cons, ih]

/-! ## Objects of the levels -/

/-- The element that completes a child takes its place among the elements. -/
theorem frame_snoc (place : Nat) (level : Level) (reply : RedisReply) :
    frame place level (some (place + 1 + sizes level.done)) ++
        layout (place + 1 + sizes level.done) reply =
      frame place { level with done := level.done ++ [reply] } none := by
  rw [frame, frame, roots_snoc, layouts_snoc]
  simp

/-- An array that has all its elements is complete. -/
theorem frame_full (place : Nat) {level : Level} (full : level.done.length = level.total) :
    frame place level none = layout place (.array level.done) := by
  rw [frame, layout, Option.toList_none, List.append_nil, padded_full]
  rw [length_roots, full]

/-- The objects after a complete item are those of what it leads to. -/
theorem frames_append_layout (base : Nat) (levels : List Level) (reply : RedisReply) :
    frames base levels (some (nextPlace base levels)) ++ layout (nextPlace base levels) reply =
      match settle levels reply with
      | .inl root => layout base root
      | .inr levels => frames base levels none := by
  induction levels generalizing reply with
  | nil => rfl
  | cons level levels ih =>
      rw [frames, nextPlace, List.append_assoc, frame_snoc, settle]
      by_cases full : level.done.length + 1 = level.total
      · rw [if_pos full, frame_full, ih]
        rw [List.length_append]
        exact full
      · rw [if_neg full]
        rfl

/-- The objects of the levels from the root inwards. -/
theorem frames_snoc (base : Nat) (levels : List Level) (root : Level) (child : Option Nat) :
    frames base (levels ++ [root]) child =
      frame base root (if levels = [] then child else some (base + 1 + sizes root.done)) ++
        frames (base + 1 + sizes root.done) levels child := by
  have places : ∀ levels, nextPlace base (levels ++ [root]) =
      nextPlace (base + 1 + sizes root.done) levels := by
    intro levels
    induction levels with
    | nil => rfl
    | cons level levels ih => rw [List.cons_append, nextPlace, nextPlace, ih]
  induction levels generalizing child with
  | nil => simp [frames, nextPlace]
  | cons level levels ih =>
      rw [List.cons_append, frames, ih, places, frames, List.append_assoc,
        if_neg (List.cons_ne_nil _ _)]
      by_cases innermost : levels = []
      · subst innermost
        rfl
      · rw [if_neg innermost]

/-- The element of an array in memory that belongs to the task is set. -/
theorem storeInParent_middle (before after : Heap) {element : List (Option Nat)}
    {top parent : RedisReadTask} {index : Nat} (obj : parent.obj = some before.length)
    (idx : top.idx = index) (bound : index < element.length) (rest : List RedisReadTask)
    (r : Nat) :
    storeInParent (before ++ some (arrayObject element) :: after) (top :: parent :: rest) r =
      .ok (before ++ some (arrayObject (element.set index (some r))) :: after) := by
  rw [storeInParent, obj]
  simp only [deref_middle, bind, Except.bind, arrayObject, ne_eq, not_true_eq_false, if_false]
  rw [if_pos (by omega), idx, Int.toNat_natCast, List.set_append_right _ _ (Nat.le_refl _),
    Nat.sub_self]
  rfl

/-- A new object becomes the element that its parent waits for. -/
theorem storeInParent_frames (old : Heap) {levels : List Level} (waiting : Waiting levels)
    {top : RedisReadTask} (idx : top.idx = currentIdx levels) (object : ReplyObject) :
    storeInParent (old ++ (frames old.length levels none).map some ++ [some object])
        (top :: arrayTasks old.length levels) (nextPlace old.length levels) =
      .ok (old ++ (frames old.length levels (some (nextPlace old.length levels))).map some ++
        [some object]) := by
  cases levels with
  | nil => rfl
  | cons level levels =>
      obtain ⟨room, -⟩ := waiting level List.mem_cons_self
      let before := old ++ (frames old.length levels (some (nextPlace old.length levels))).map some
      let after := (layouts (nextPlace old.length levels + 1) level.done).map some ++ [some object]
      have placed : before.length = nextPlace old.length levels := by
        rw [List.length_append, List.length_map]
        exact add_length_frames old.length levels _
      have memory : ∀ child, old ++ (frames old.length (level :: levels) child).map some ++
          [some object] = before ++ some (arrayObject (padded level.total
            (roots (nextPlace old.length levels + 1) level.done ++ child.toList))) :: after := by
        intro child
        simp [frames, frame, before, after]
      have counted : (roots (nextPlace old.length levels + 1) level.done).length =
          level.done.length := length_roots _ _
      rw [memory, memory, arrayTasks, storeInParent_middle before after (congrArg some placed.symm)
        idx, Option.toList_none, List.append_nil, ← counted,
        padded_set (by omega)]
      · rfl
      · rw [Option.toList_none, List.append_nil, length_padded (by omega)]
        exact room

theorem createObject_frames (old : Heap) {levels : List Level} (waiting : Waiting levels)
    {top : RedisReadTask} (idx : top.idx = currentIdx levels) (object : ReplyObject) :
    createObject (old ++ (frames old.length levels none).map some)
        (top :: arrayTasks old.length levels) object =
      .ok (nextPlace old.length levels,
        old ++ (frames old.length levels (some (nextPlace old.length levels))).map some ++
          [some object]) := by
  have place : (old ++ (frames old.length levels none).map some).length =
      nextPlace old.length levels := by
    rw [List.length_append, List.length_map]
    exact add_length_frames old.length levels none
  rw [createObject, createReplyObject, place]
  simp only [storeInParent_frames old waiting idx object, bind, Except.bind]
  rfl

/-! ## Tasks of the levels -/

/-- The next task after a complete item. -/
theorem moveToNextTask_arrayTasks (base : Nat) (levels : List Level) {top : RedisReadTask}
    (idx : top.idx = currentIdx levels) (waiting : Waiting levels) (reply : RedisReply) :
    match settle levels reply with
    | .inl _ => moveToNextTask (top :: arrayTasks base levels) = .ok []
    | .inr rest => ∃ task : RedisReadTask, task.type = none ∧ task.idx = currentIdx rest ∧
        moveToNextTask (top :: arrayTasks base levels) = .ok (task :: arrayTasks base rest) := by
  induction levels generalizing top reply with
  | nil => rfl
  | cons level levels ih =>
      obtain ⟨⟨room, -⟩, others⟩ := List.forall_mem_cons.mp waiting
      have idxEq : top.idx = (level.done.length : Int) := idx
      have isArray : ¬ (arrayTask base level levels).type ≠ some .array := not_not.mpr rfl
      rw [settle]
      by_cases full : level.done.length + 1 = level.total
      · have next := @ih (arrayTask base level levels) rfl others (.array (level.done ++ [reply]))
        have last : top.idx = (arrayTask base level levels).elements - 1 := by
          change top.idx = (level.total : Int) - 1
          omega
        have moved : moveToNextTask (top :: arrayTasks base (level :: levels)) =
            moveToNextTask (arrayTask base level levels :: arrayTasks base levels) := by
          rw [arrayTasks, moveToNextTask, if_neg isArray, if_pos last]
        rw [if_pos full, moved]
        exact next
      · have more : top.idx ≠ (arrayTask base level levels).elements - 1 := by
          change top.idx ≠ (level.total : Int) - 1
          omega
        have inside : top.idx < (arrayTask base level levels).elements := by
          change top.idx < (level.total : Int)
          omega
        rw [if_neg full]
        refine ⟨{ top with type := none, elements := -1, idx := top.idx + 1 }, rfl, ?_, ?_⟩
        · rw [currentIdx, List.length_append, idxEq]
          rfl
        · rw [arrayTasks, moveToNextTask, if_neg isArray, if_neg more,
            if_neg (not_not.mpr inside)]
          rfl

/-- The levels that are left after a complete item wait for their next elements. -/
theorem waiting_of_settle {levels rest : List Level} {reply : RedisReply}
    (waiting : Waiting levels) (settled : settle levels reply = .inr rest) :
    Waiting rest ∧ rest ≠ [] ∧ rest.length ≤ levels.length := by
  induction levels generalizing reply with
  | nil => contradiction
  | cons level levels ih =>
      obtain ⟨⟨room, small⟩, others⟩ := List.forall_mem_cons.mp waiting
      rw [settle] at settled
      split at settled
      case isTrue full =>
        obtain ⟨left, nonempty, shorter⟩ := ih others settled
        exact ⟨left, nonempty, Nat.le_succ_of_le shorter⟩
      case isFalse notFull =>
        cases settled
        refine ⟨List.forall_mem_cons.mpr ⟨⟨?_, small⟩, others⟩, List.cons_ne_nil _ _, Nat.le_refl _⟩
        rw [List.length_append]
        change level.done.length + 1 < level.total
        omega

/-! ## Freeing -/

theorem foldlM_free_replicate (fuel : Nat) (objects : Heap) (count : Nat) :
    (List.replicate count none).foldlM (freeReplyObjectFor fuel) objects = .ok objects := by
  have nothing : freeReplyObjectFor fuel objects none = .ok objects := by
    cases fuel <;> rfl
  induction count with
  | zero => rfl
  | succ count ih =>
      rw [List.replicate_succ, List.foldlM_cons, nothing]
      exact ih

/-- Freeing the root frees everything under construction, and nothing else. -/
theorem freeReplyObjectFor_frames (fuel : Nat) (before : Heap) (levels : List Level)
    (nonempty : levels ≠ []) (enough : (frames before.length levels none).length ≤ fuel) :
    freeReplyObjectFor fuel (before ++ (frames before.length levels none).map some)
        (some before.length) =
      .ok (before ++ List.replicate (frames before.length levels none).length none) := by
  induction levels using List.reverseRecOn generalizing before fuel with
  | nil => exact absurd rfl nonempty
  | append_singleton levels root ih =>
      rw [frames_snoc, List.length_append, length_frame] at enough
      obtain ⟨fuel, rfl⟩ : ∃ left, fuel = left + 1 := ⟨fuel - 1, by omega⟩
      let child : Option Nat :=
        if levels = [] then none else some (before.length + 1 + sizes root.done)
      let inner := frames (before.length + 1 + sizes root.done) levels none
      have bound : 1 + sizes root.done + inner.length ≤ fuel + 1 := enough
      let object := arrayObject (padded root.total
        (roots (before.length + 1) root.done ++ child.toList))
      have memory : before ++ (frames before.length (levels ++ [root]) none).map some =
          before ++ some object :: ((layouts (before.length + 1) root.done).map some ++
            inner.map some) := by
        rw [frames_snoc]
        simp [frame, object, inner, child]
      have elements := freeReplyObjectFor_layouts fuel (before ++ [some object]) (inner.map some)
        root.done (by omega)
      have children : ∀ objects : Heap, objects.length = before.length + 1 + sizes root.done →
          (child.toList.map some).foldlM (freeReplyObjectFor fuel)
            (objects ++ inner.map some) =
              .ok (objects ++ List.replicate inner.length none) := by
        intro objects length
        by_cases innermost : levels = []
        · subst innermost
          simp [child, inner, frames, pure, Except.pure]
        · have below : inner.length ≤ fuel := by omega
          have inside := ih fuel objects innermost (by rw [length]; exact below)
          rw [length] at inside
          simp only [child, if_neg innermost, Option.toList_some, List.map_cons, List.map_nil,
            List.foldlM_cons, List.foldlM_nil, bind_pure]
          exact inside
      have counted : (frames before.length (levels ++ [root]) none).length =
          1 + sizes root.done + inner.length := by
        rw [frames_snoc, List.length_append, length_frame]
      rw [memory, counted, freeReplyObjectFor, deref_middle]
      simp only [List.length_append, List.length_cons, List.length_nil, List.append_assoc,
        List.cons_append, List.nil_append, Nat.zero_add] at elements
      simp only [bind, Except.bind, object, arrayObject, padded, List.map_append,
        List.foldlM_append] at elements ⊢
      rw [elements]
      simp only []
      have inside := children (before ++ some object :: List.replicate (sizes root.done) none)
        (by simp; omega)
      simp only [List.append_assoc, List.cons_append] at inside
      simp only [object, arrayObject, padded, List.map_append] at inside
      rw [inside]
      simp only [foldlM_free_replicate]
      rw [List.set_append_right _ _ (Nat.le_refl _), Nat.sub_self, List.set_cons_zero,
        List.replicate_append_replicate, ← List.replicate_succ, Nat.add_comm 1, Nat.add_right_comm]
      rfl

end MCRedis.Hiredis
