import MCRedis.Hiredis.Resume

/-!
# Steps of the reader

What one call of `processItem` does to a reader that is in the middle of a reply.
It moves to the next item, completes the reply, finds too few bytes, rejects the
stream or has no meaning; in each case the recursive parser, taken up where the
reader stands, does the same with the unread bytes, whatever bytes follow them.
-/

namespace MCRedis.Hiredis

open MCRedis.Client
open MCRedis.Parsing
open MCRedis.Text

/-- The reader is at an item inside some levels of arrays.  The reply has been
started unless the item is the root, beside the `old` objects. -/
structure Holds (r : RedisReader) (old : Heap) (levels : List Level)
    (pending : Option ReplyType) : Prop where
  buffered : Buffered r
  err : r.err = 0
  objects : r.objects = old ++ (frames old.length levels none).map some
  rstack : ∃ top, r.rstack = top :: arrayTasks old.length levels ∧ top.type = pending ∧
    top.idx = currentIdx levels
  reply : r.reply = if levels = [] then none else some old.length
  depth : levels.length ≤ levelsMax
  waiting : Waiting levels

/-- The reply is complete. -/
structure Completed (r : RedisReader) (old : Heap) (root : RedisReply) : Prop where
  buffered : Buffered r
  err : r.err = 0
  objects : r.objects = old ++ (layout old.length root).map some
  rstack : r.rstack = []
  reply : r.reply = some old.length

/-- The stream was rejected: no object of the reply is left, nor any byte. -/
structure Failed (r : RedisReader) (old : Heap) (message : Bytes) : Prop where
  err : r.err = redisErrProtocol
  errstr : r.errstr = message.take 127
  buf : r.buf = []
  pos : r.pos = 0
  len : r.len = 0
  rstack : r.rstack = []
  reply : r.reply = none
  objects : ∃ count, r.objects = old ++ List.replicate count none

/-- A step of the reader, beside the parser that stands where the reader stood. -/
inductive Stepped (r : RedisReader) (old : Heap) (parser : WireParser RedisReply) :
    Except Fault (Status × RedisReader) → Prop
  | next {after : RedisReader} {levels : List Level} : Holds after old levels none →
      (∀ later, parser (unread r ++ later) = resume none levels (unread after ++ later)) →
      (unread after).length < (unread r).length → Stepped r old parser (.ok (.ok, after))
  | complete {after : RedisReader} {root : RedisReply} : Completed after old root →
      (∀ later, parser (unread r ++ later) = .done root (unread after ++ later)) →
      (unread after).length < (unread r).length → Stepped r old parser (.ok (.ok, after))
  | starved {after : RedisReader} {levels : List Level} {pending : Option ReplyType} :
      Holds after old levels pending →
      (∀ later, parser (unread r ++ later) = resume pending levels (unread after ++ later)) →
      resume pending levels (unread after) = .more → Stepped r old parser (.ok (.err, after))
  | rejected {after : RedisReader} {message : Bytes} : Failed after old message →
      (∀ later, parser (unread r ++ later) = .bad (.protocol message)) →
      Stepped r old parser (.ok (.err, after))
  | faulted {fault : Fault} :
      (∀ later, parser (unread r ++ later) = .bad (.fault fault)) →
      Stepped r old parser (.error fault)

/-- A step after bytes were consumed is a step from before. -/
theorem Stepped.after {r middle : RedisReader} {old : Heap}
    {parser inner : WireParser RedisReply} {result : Except Fault (Status × RedisReader)}
    (stepped : Stepped middle old inner result)
    (same : ∀ later, parser (unread r ++ later) = inner (unread middle ++ later))
    (shorter : (unread middle).length ≤ (unread r).length) : Stepped r old parser result := by
  cases stepped with
  | next holds parsed taken =>
      exact .next holds (fun later => (same later).trans (parsed later))
        (Nat.lt_of_lt_of_le taken shorter)
  | complete completed parsed taken =>
      exact .complete completed (fun later => (same later).trans (parsed later))
        (Nat.lt_of_lt_of_le taken shorter)
  | starved holds parsed starved =>
      exact .starved holds (fun later => (same later).trans (parsed later)) starved
  | rejected failed parsed => exact .rejected failed fun later => (same later).trans (parsed later)
  | faulted parsed => exact .faulted fun later => (same later).trans (parsed later)

section Pieces

variable {r : RedisReader} {old : Heap} {levels : List Level} {pending : Option ReplyType}

/-- The number of tasks on the stack. -/
theorem Holds.length_rstack (holds : Holds r old levels pending) :
    r.rstack.length = levels.length + 1 := by
  obtain ⟨top, rstack, -⟩ := holds.rstack
  rw [rstack, List.length_cons, length_arrayTasks]

/-- A new object is appended, and stored in the array that waits for it. -/
theorem Holds.createObject (holds : Holds r old levels pending) (object : ReplyObject) :
    createObject r.objects r.rstack object =
      .ok (nextPlace old.length levels,
        old ++ (frames old.length levels (some (nextPlace old.length levels))).map some ++
          [some object]) := by
  obtain ⟨top, rstack, -, idx⟩ := holds.rstack
  rw [holds.objects, rstack]
  exact createObject_frames old holds.waiting idx object

/-- Once an item is stored, the reply has been started. -/
theorem Holds.started (holds : Holds r old levels pending) :
    (if r.rstack.length = 1 then some (nextPlace old.length levels) else r.reply) =
      some old.length := by
  rw [holds.length_rstack, holds.reply]
  cases levels with
  | nil => rfl
  | cons level levels => simp

/-- An item that is complete, on a reader whose cursor is behind it. -/
theorem Holds.completeItem (holds : Holds r old levels pending) {found : RedisReply}
    {object : ReplyObject} {count : Nat} {parser : WireParser RedisReply}
    (written : layout (nextPlace old.length levels) found = [object])
    (inside : count ≤ (unread r).length) (positive : 0 < count)
    (parsed : ∀ later, parser (unread r ++ later) =
      finish levels found ((unread r).drop count ++ later)) :
    Stepped r old parser (do
      let (obj, objects) ← Hiredis.createObject r.objects r.rstack object
      Hiredis.completeItem { advanced r count with objects := objects } obj) := by
  obtain ⟨top, rstack, -, idx⟩ := holds.rstack
  have memory := frames_append_layout old.length levels found
  have moved := moveToNextTask_arrayTasks old.length levels idx holds.waiting found
  have buffered := holds.buffered.advanced inside
  have shorter : ((unread r).drop count).length < (unread r).length := by
    rw [List.length_drop]
    omega
  simp only [finish_eq_settle holds.waiting found] at parsed
  rw [written] at memory
  rw [← rstack] at moved
  rw [← unread_advanced] at shorter parsed
  rw [holds.createObject object, ok_bind, List.append_assoc, ← List.map_singleton,
    ← List.map_append, memory]
  cases settled : settle levels found with
  | inl root =>
      rw [settled] at moved parsed
      change moveToNextTask (advanced r count).rstack = .ok [] at moved
      simp only [Hiredis.completeItem, moved, ok_bind]
      exact .complete ⟨⟨buffered.len, buffered.pos, buffered.small⟩, holds.err, rfl, rfl,
        holds.started⟩ parsed shorter
  | inr rest =>
      rw [settled] at moved parsed
      obtain ⟨waiting, nonempty, notDeeper⟩ := waiting_of_settle holds.waiting settled
      obtain ⟨task, type, taskIdx, moved⟩ := moved
      change moveToNextTask (advanced r count).rstack = .ok _ at moved
      simp only [Hiredis.completeItem, moved, ok_bind]
      refine .next ⟨⟨buffered.len, buffered.pos, buffered.small⟩, holds.err, rfl,
        ⟨task, rfl, type, taskIdx⟩, ?_, Nat.le_trans notDeeper holds.depth, waiting⟩ parsed shorter
      rw [if_neg nonempty]
      exact holds.started

/-- An array that was announced with elements. -/
theorem Holds.pushLevel (holds : Holds r old levels (some .array)) {n count : Nat}
    {parser : WireParser RedisReply} (positive : 0 < n) (small : n ≤ intMax)
    (shallow : levels.length < levelsMax) (inside : count ≤ (unread r).length)
    (taken : 0 < count)
    (parsed : ∀ later, parser (unread r ++ later) =
      resume none (⟨n, []⟩ :: levels) ((unread r).drop count ++ later)) :
    Stepped r old parser (do
      let (obj, objects) ← Hiredis.createObject r.objects r.rstack
        (arrayObject (List.replicate n none))
      let rstack ← pushTask (advanced r count).rstack n obj
      pure (.ok, { advanced r count with
        reply := if (advanced r count).rstack.length = 1 then some obj else r.reply,
        rstack := rstack, objects := objects })) := by
  obtain ⟨top, rstack, type, idx⟩ := holds.rstack
  have buffered := holds.buffered.advanced inside
  have shorter : ((unread r).drop count).length < (unread r).length := by
    rw [List.length_drop]
    omega
  have room : (top :: arrayTasks old.length levels).length < stackSize := by
    rw [levelsMax] at shallow
    rw [List.length_cons, length_arrayTasks, stackSize]
    omega
  rw [← unread_advanced] at shorter parsed
  have pushed : ∀ obj, pushTask (advanced r count).rstack n obj =
      .ok ({ type := none, elements := -1, idx := 0, obj := none } ::
        { top with elements := n, obj := some obj } :: arrayTasks old.length levels) := by
    intro obj
    change pushTask r.rstack n obj = _
    rw [rstack, pushTask, if_pos room]
  have waiting : Waiting (⟨n, []⟩ :: levels) :=
    List.forall_mem_cons.mpr ⟨⟨positive, small⟩, holds.waiting⟩
  have deeper : (⟨n, []⟩ :: levels : List Level).length ≤ levelsMax := shallow
  rw [holds.createObject, ok_bind]
  simp only [pushed, ok_bind]
  refine .next ⟨⟨buffered.len, buffered.pos, buffered.small⟩, holds.err, ?_,
    ⟨{ type := none, elements := -1, idx := 0, obj := none }, ?_, rfl, rfl⟩, ?_, deeper,
    waiting⟩ parsed shorter
  · simp [frames, frame, padded, roots, layouts]
  · have task : { top with
        elements := (n : Int), obj := some (nextPlace old.length levels) } =
          arrayTask old.length ⟨n, []⟩ levels := by
      rw [arrayTask, type, idx]
    change _ :: _ :: _ = _ :: arrayTask old.length ⟨n, []⟩ levels :: _
    rw [← task]
  · rw [if_neg (List.cons_ne_nil _ _)]
    exact holds.started

/-- A rejected stream, on a reader whose cursor may have moved. -/
theorem Holds.protocolError (holds : Holds r old levels pending) {moved : RedisReader}
    (objects : moved.objects = r.objects) (reply : moved.reply = r.reply) {message : Bytes}
    {parser : WireParser RedisReply}
    (parsed : ∀ later, parser (unread r ++ later) = .bad (.protocol message)) :
    Stepped r old parser (protocolError moved message) := by
  rw [Hiredis.protocolError, redisReaderSetError, reply, holds.reply, objects, holds.objects]
  cases levels with
  | nil => exact .rejected ⟨rfl, rfl, rfl, rfl, rfl, rfl, rfl, 0, rfl⟩ parsed
  | cons level levels =>
      have freed := freeReplyObjectFor_frames
        (old ++ (frames old.length (level :: levels) none).map some).length old (level :: levels)
        (List.cons_ne_nil _ _) (by rw [List.length_append, List.length_map]; omega)
      rw [if_neg (List.cons_ne_nil _ _)]
      simp only [freeReplyObject, freed, ok_bind]
      exact .rejected ⟨rfl, rfl, rfl, rfl, rfl, rfl, rfl, _, rfl⟩ parsed

end Pieces

/-! ## Lines and numbers -/

theorem line_done {input text rest : Bytes} (cut : cutLine input = some (text, rest))
    (later : Bytes) : line (input ++ later) = .done text (rest ++ later) := by
  rw [line, cutLine_append cut later]

theorem line_more {input : Bytes} (cut : cutLine input = none) : line input = .more := by
  rw [line, cut]

theorem number_done {input text rest : Bytes} {value : Int} {message : Bytes}
    (cut : cutLine input = some (text, rest)) (read : string2ll text = some value)
    (later : Bytes) : number message (input ++ later) = .done value (rest ++ later) := by
  rw [number, Parser.bind_done (line_done cut later), read]
  rfl

theorem number_bad {input text rest : Bytes} {message : Bytes}
    (cut : cutLine input = some (text, rest)) (read : string2ll text = none)
    (later : Bytes) : number message (input ++ later) = .bad (.protocol message) := by
  rw [number, Parser.bind_done (line_done cut later), read]
  rfl

theorem number_more {input : Bytes} {message : Bytes} (cut : cutLine input = none) :
    number message input = .more :=
  Parser.bind_more (line_more cut)

/-! ## Items of a known type -/

section Items

variable {r : RedisReader} {old : Heap} {levels : List Level}

/-- A line item of text. -/
theorem Holds.textLine {type : ReplyType} (holds : Holds r old levels (some type))
    (construct : Bytes → RedisReply) (textual : type = .error ∨ type = .status ∨ type = .string)
    (notInteger : type ≠ .integer)
    (laid : ∀ place text, layout place (construct text) = [textObject type text])
    (itemEq : item (levelsMax - levels.length) type =
      line >>= fun text => pure (construct text)) :
    Stepped r old (resume (some type) levels) (processLineItem type r) := by
  rw [processLineItem, readLine_eq holds.buffered, ok_bind]
  cases cut : cutLine (unread r) with
  | none =>
      refine .starved holds (fun _ => rfl) ?_
      rw [resume_some, itemEq, Parser.bind_bind]
      exact Parser.bind_more (line_more cut)
  | some found =>
      obtain ⟨text, rest⟩ := found
      obtain ⟨-, dropped, length⟩ := cutLine_parts cut
      simp only [if_neg notInteger, createStringObject, if_pos textual]
      refine holds.completeItem (laid _ text) (by omega) (by omega) fun later => ?_
      rw [resume_some, itemEq, Parser.bind_bind, Parser.bind_done (line_done cut later), dropped]
      rfl

theorem Holds.integerLine (holds : Holds r old levels (some .integer)) :
    Stepped r old (resume (some .integer) levels) (processLineItem .integer r) := by
  rw [processLineItem, readLine_eq holds.buffered, ok_bind]
  cases cut : cutLine (unread r) with
  | none =>
      refine .starved holds (fun _ => rfl) ?_
      rw [resume_some, item_integer, Parser.bind_bind]
      exact Parser.bind_more (number_more cut)
  | some found =>
      obtain ⟨text, rest⟩ := found
      obtain ⟨-, dropped, length⟩ := cutLine_parts cut
      simp only [if_true]
      cases read : string2ll text with
      | none =>
          refine holds.protocolError rfl rfl fun later => ?_
          rw [resume_some, item_integer, Parser.bind_bind,
            Parser.bind_bad (number_bad cut read later)]
      | some value =>
          simp only [createIntegerObject]
          have laid : layout (nextPlace old.length levels) (.integer value) =
              [integerObject value] := rfl
          refine holds.completeItem laid (by omega) (by omega) fun later => ?_
          rw [resume_some, item_integer, Parser.bind_bind,
            Parser.bind_done (number_done cut read later), dropped]
          rfl

/-- A bulk item; its body is taken with the line end behind it. -/
theorem Holds.bulk (holds : Holds r old levels (some .string)) :
    Stepped r old (resume (some .string) levels) (processBulkItem r) := by
  have small : (unread r).length ≤ intMax := by
    have := holds.buffered.length_unread
    have := holds.buffered.small
    omega
  have whole : ∀ input,
      resume (some .string) levels input = (bulkItem >>= finish levels) input := by
    intro input
    rw [resume_some, item_string]
  rw [processBulkItem, holds.buffered.slice_unread, ok_bind, seekNewline_eq small]
  cases cut : cutLine (unread r) with
  | none =>
      refine .starved holds (fun _ => rfl) ?_
      rw [whole, bulkItem, Parser.bind_bind]
      exact Parser.bind_more (number_more cut)
  | some found =>
      obtain ⟨text, rest⟩ := found
      obtain ⟨taken, dropped, length⟩ := cutLine_parts cut
      simp only [Option.map_some, taken]
      cases read : string2ll text with
      | none =>
          refine holds.protocolError rfl rfl fun later => ?_
          rw [whole, bulkItem, Parser.bind_bind, Parser.bind_bad (number_bad cut read later)]
      | some len =>
          have afterLine : ∀ later, resume (some .string) levels (unread r ++ later) =
              ((if len < -1 then .fail (.protocol (literal "Bulk string length out of range"))
                else if len = -1 then pure .nil
                else if len + 2 > llongMax then .fail (.fault (.undefined .signedOverflow))
                else do
                  let body ← bytes (len.toNat + 2)
                  pure (.string (body.take len.toNat))) >>= finish levels) (rest ++ later) := by
            intro later
            rw [whole, bulkItem, Parser.bind_bind,
              Parser.bind_done (number_done cut read later)]
          simp only []
          by_cases below : len < -1
          · rw [if_pos below]
            refine holds.protocolError rfl rfl fun later => ?_
            rw [afterLine, if_pos below]
            rfl
          by_cases null : len = -1
          · rw [if_neg below, if_pos null]
            have laid : layout (nextPlace old.length levels) .nil = [nilObject] := rfl
            refine holds.completeItem laid (by omega) (by omega) fun later => ?_
            rw [afterLine, if_neg below, if_pos null, dropped]
            rfl
          by_cases overflow : len + 2 > llongMax
          · rw [if_neg below, if_neg null, if_pos overflow]
            refine .faulted fun later => ?_
            rw [afterLine, if_neg below, if_neg null, if_pos overflow]
            rfl
          obtain ⟨n, rfl⟩ : ∃ n : Nat, len = n := Int.eq_ofNat_of_zero_le (by omega)
          simp only [if_neg below, if_neg null, if_neg overflow, Int.toNat_natCast] at afterLine ⊢
          have position := holds.buffered.length_unread
          have lengths := holds.buffered.len
          have fits : (r.pos + (text.length + 2 + (n + 2))) % uint64Size =
              r.pos + (text.length + 2 + (n + 2)) := by
            apply Nat.mod_eq_of_lt
            have := holds.buffered.small
            rw [intMax] at this
            rw [llongMax] at overflow
            rw [uint64Size]
            omega
          rw [fits]
          by_cases enough : n + 2 ≤ rest.length
          · have body : slice r.buf (r.pos + (text.length + 2)) n = .ok (rest.take n) := by
              rw [slice, if_pos (by omega), ← List.drop_drop, ← unread, dropped]
            have parsed : bytes (n + 2) rest = .done (rest.take (n + 2)) (rest.drop (n + 2)) := by
              rw [bytes, if_pos enough]
            have laid : layout (nextPlace old.length levels) (.string (rest.take n)) =
                [textObject .string (rest.take n)] := rfl
            rw [if_pos (by omega), body, ok_bind]
            refine holds.completeItem laid (by omega) (by omega) fun later => ?_
            have behind : (unread r).drop (text.length + 2 + (n + 2)) = rest.drop (n + 2) := by
              rw [← List.drop_drop, dropped]
            rw [afterLine, Parser.bind_bind,
              Parser.bind_done ((stable_bytes (n + 2)).done parsed later), behind, List.take_take,
              Nat.min_eq_left (Nat.le_add_right n 2)]
            rfl
          · rw [if_neg (by omega)]
            refine .starved holds (fun _ => rfl) ?_
            have alone := afterLine []
            rw [List.append_nil, List.append_nil] at alone
            rw [alone, Parser.bind_bind]
            apply Parser.bind_more
            rw [bytes, if_neg enough]

/-- The header of an array; its elements follow as items of their own. -/
theorem Holds.multiBulk (holds : Holds r old levels (some .array)) :
    Stepped r old (resume (some .array) levels) (processMultiBulkItem r) := by
  have depth := holds.depth
  rw [levelsMax] at depth
  rw [processMultiBulkItem, holds.length_rstack]
  by_cases deepest : levels.length = 8
  · rw [if_pos (by omega)]
    refine holds.protocolError rfl rfl fun later => ?_
    rw [resume_some, deepest]
    rfl
  obtain ⟨left, levelsLeft⟩ : ∃ left, levelsMax - levels.length = left + 1 :=
    ⟨7 - levels.length, by rw [levelsMax]; omega⟩
  have below : levelsMax - (levels.length + 1) = left := by omega
  have whole : ∀ input, resume (some .array) levels input =
      (multiBulkItem (anyReply left) >>= finish levels) input := by
    intro input
    rw [resume_some, levelsLeft]
    rfl
  rw [if_neg (by omega), readLine_eq holds.buffered, ok_bind]
  cases cut : cutLine (unread r) with
  | none =>
      refine .starved holds (fun _ => rfl) ?_
      rw [whole, multiBulkItem, Parser.bind_bind]
      exact Parser.bind_more (number_more cut)
  | some found =>
      obtain ⟨text, rest⟩ := found
      obtain ⟨-, dropped, length⟩ := cutLine_parts cut
      simp only []
      cases read : string2ll text with
      | none =>
          refine holds.protocolError rfl rfl fun later => ?_
          rw [whole, multiBulkItem, Parser.bind_bind, Parser.bind_bad (number_bad cut read later)]
      | some elements =>
          have afterLine : ∀ later, resume (some .array) levels (unread r ++ later) =
              ((if elements < -1 ∨ elements > intMax then
                  .fail (.protocol (literal "Multi-bulk length out of range"))
                else if elements = -1 then pure .nil
                else do
                  let replies ← (anyReply left).times elements.toNat
                  pure (.array replies)) >>= finish levels) (rest ++ later) := by
            intro later
            rw [whole, multiBulkItem, Parser.bind_bind,
              Parser.bind_done (number_done cut read later)]
          simp only []
          by_cases outside : elements < -1 ∨ elements > intMax
          · rw [if_pos outside]
            refine holds.protocolError rfl rfl fun later => ?_
            rw [afterLine, if_pos outside]
            rfl
          by_cases null : elements = -1
          · rw [if_neg outside, if_pos null]
            have laid : layout (nextPlace old.length levels) .nil = [nilObject] := rfl
            refine holds.completeItem laid (by omega) (by omega) fun later => ?_
            rw [afterLine, if_neg outside, if_pos null, dropped]
            rfl
          obtain ⟨n, rfl⟩ : ∃ n : Nat, elements = n := Int.eq_ofNat_of_zero_le (by omega)
          simp only [if_neg outside, if_neg null, Int.toNat_natCast] at afterLine ⊢
          by_cases empty : n = 0
          · subst empty
            have laid : layout (nextPlace old.length levels) (.array []) =
                [arrayObject (List.replicate 0 none)] := rfl
            simp only [Int.natCast_zero, gt_iff_lt, Int.lt_irrefl, if_false, createArrayObject]
            refine holds.completeItem laid (by omega) (by omega) fun later => ?_
            rw [afterLine, dropped]
            rfl
          · have positive : (n : Int) > 0 := by omega
            simp only [if_pos positive, createArrayObject]
            exact holds.pushLevel (by omega) (by omega) (by omega) (by omega) (by omega)
              fun later => by
                rw [afterLine, dropped, ← below, times_bind_finish n (by omega)]

/-- One more byte is needed to know the type of an item, and it is consumed. -/
theorem Holds.typed (holds : Holds r old levels none) {byte : UInt8} {rest : Bytes}
    {type : ReplyType} {top : RedisReadTask} (front : unread r = byte :: rest)
    (known : typeOfByte byte = some type) (idx : top.idx = currentIdx levels) :
    let after := { advanced r 1 with
      rstack := { top with type := some type } :: arrayTasks old.length levels }
    Holds after old levels (some type) ∧ unread after = rest ∧
      ∀ later, resume none levels (unread r ++ later) =
        resume (some type) levels (unread after ++ later) := by
  have inside : 1 ≤ (unread r).length := by
    rw [front]
    exact Nat.succ_pos _
  have buffered := holds.buffered.advanced inside
  have behind : (unread r).drop 1 = rest := by
    rw [front]
    rfl
  rw [← unread_advanced] at behind
  refine ⟨⟨⟨buffered.len, buffered.pos, buffered.small⟩, holds.err, holds.objects,
    ⟨_, rfl, rfl, idx⟩, holds.reply, holds.depth, holds.waiting⟩, behind, fun later => ?_⟩
  change _ = resume (some type) levels (unread (advanced r 1) ++ later)
  have parsed : typeByte (unread r ++ later) = .done type (rest ++ later) := by
    rw [front, List.cons_append, typeByte, known]
  have whole : resume none levels = typeByte >>= fun type => resume (some type) levels := rfl
  rw [behind, whole, Parser.bind_done parsed]

/-- An item of a known type. -/
theorem Holds.processTyped {type : ReplyType} (holds : Holds r old levels (some type)) :
    Stepped r old (resume (some type) levels) (processTyped type r) := by
  cases type with
  | error =>
      exact holds.textLine .error (.inl rfl) (by decide) (fun _ _ => rfl) (item_error _)
  | status =>
      exact holds.textLine .status (.inr (.inl rfl)) (by decide) (fun _ _ => rfl) (item_status _)
  | integer => exact holds.integerLine
  | string => exact holds.bulk
  | array => exact holds.multiBulk
  | nil =>
      refine .faulted fun later => ?_
      rw [resume_some, item_nil]
      rfl

end Items

/-- Every step of the reader is a step of the parser. -/
theorem stepped_processItem {r : RedisReader} {old : Heap} {levels : List Level}
    {pending : Option ReplyType} (holds : Holds r old levels pending) :
    Stepped r old (resume pending levels) (processItem r) := by
  obtain ⟨top, rstack, type, idx⟩ := holds.rstack
  rw [processItem, rstack]
  simp only [type]
  cases pending with
  | some type => exact holds.processTyped
  | none =>
      have position := holds.buffered.length_unread
      simp only [readBytes, holds.buffered.remaining]
      cases front : unread r with
      | nil =>
          rw [if_neg (by simp)]
          refine .starved holds (fun _ => rfl) ?_
          rw [front]
          rfl
      | cons byte rest =>
          have first : slice r.buf r.pos 1 = .ok [byte] := by
            rw [front, List.length_cons] at position
            rw [slice, if_pos (by omega), ← unread, front]
            rfl
          rw [if_pos (by simp), first, ok_bind]
          simp only [pure_bind]
          cases known : typeOfByte byte with
          | none =>
              refine holds.protocolError rfl rfl fun later => ?_
              have rejected : typeByte (unread r ++ later) =
                  .bad (.protocol (protocolByteMessage byte)) := by
                rw [front, List.cons_append, typeByte, known]
              exact Parser.bind_bad rejected
          | some type =>
              obtain ⟨typed, behind, same⟩ := holds.typed front known idx
              refine typed.processTyped.after same ?_
              rw [behind, front]
              exact Nat.le_succ _

end MCRedis.Hiredis
