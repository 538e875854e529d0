import MCRedis.MiddleWare.Cluster

/-!
# The status text

The answer to `CLUSTER info` is a text of lines `name:value`.  This file reads
it with every access to a line checked, and counts the characters of a value in
the unsigned type, as the code does.

No text makes a checked access fail, so the checked reading agrees with the one
that `_getNodes` uses.  A text that is rendered from a list of pairs, with
comments and blank lines between them, is read back as that list.
-/

namespace MCRedis.MiddleWare

open MCRedis.Client

/-! ## The checked reading -/

/-- `line.at(index)`. -/
def charAt (str : Bytes) (index : Nat) : Except Fault UInt8 :=
  match str[index]? with
  | some c => .ok c
  | none => .error .terminate

/-- `str.substr(pos, count)`: a position behind the end throws, a count that is
too large is cut. -/
def substr (str : Bytes) (pos count : Nat) : Except Fault Bytes :=
  if str.length < pos then .error .terminate else .ok ((str.drop pos).take count)

/-- `str.find_first_of(c)`, with `npos` as `none`. -/
def findFirstOf (str : Bytes) (c : UInt8) : Option Nat :=
  let pos := (str.takeWhile (· ≠ c)).length
  if pos = str.length then none else some pos

/-- The difference of two values of `size_t`. -/
def sizeSub (first second : Nat) : Nat :=
  if second ≤ first then first - second else uint64Size - (second - first)

/-- The body of the loop, up to the insertion. -/
def statusLine (line : Bytes) : Except Fault (Option (Bytes × Bytes)) := do
  if line = [] then
    return none
  else
    let first ← charAt line 0
    if first = 0x23 ∨ first = 0x0d then
      return none
    else
      match findFirstOf line 0x3a with
      | none => return none
      | some pos =>
          let name ← substr line 0 pos
          let value ← substr line (pos + 1) (sizeSub line.length (pos + 2))
          return some (name, value)

/-- `statusMap.insert`: the entry of a name that is there already stays. -/
def insertNew (statusMap : List (Bytes × Bytes)) (entry : Bytes × Bytes) : List (Bytes × Bytes) :=
  if (statusMap.lookup entry.1).isSome then statusMap else statusMap ++ [entry]

/-- The loop of `fnToStatusMap`. -/
def statusLoop : List Bytes → List (Bytes × Bytes) → Except Fault (List (Bytes × Bytes))
  | [], statusMap => .ok statusMap
  | line :: rest, statusMap => do
      let entry ← statusLine line
      statusLoop rest (entry.elim statusMap (insertNew statusMap))

/-- `fnToStatusMap`, with every access checked. -/
def toStatusMap (str : Bytes) : Except Fault (List (Bytes × Bytes)) :=
  statusLoop (lines str) []

/-! ## No access fails -/

/-- The count wraps only when nothing follows the colon, and then nothing is
taken. -/
theorem take_sizeSub {line : Bytes} {pos : Nat} (inside : pos < line.length) :
    (line.drop (pos + 1)).take (sizeSub line.length (pos + 2)) =
      (line.drop (pos + 1)).dropLast := by
  by_cases more : pos + 2 ≤ line.length
  · rw [sizeSub, if_pos more, List.dropLast_eq_take, List.length_drop]
    rfl
  · have ending : line.drop (pos + 1) = [] := List.drop_eq_nil_of_le (by omega)
    rw [ending, List.take_nil, List.dropLast_nil]

/-- Every line is read without a fault. -/
theorem statusLine_eq (line : Bytes) : statusLine line = .ok (statusEntry line) := by
  cases line with
  | nil => rfl
  | cons first rest =>
      rw [statusLine, if_neg (List.cons_ne_nil first rest), statusEntry]
      change (if first = 0x23 ∨ first = 0x0d then _ else _) = _
      by_cases skipped : first = 0x23 ∨ first = 0x0d
      · rw [if_pos skipped, if_pos skipped]
        rfl
      · rw [if_neg skipped, if_neg skipped, findFirstOf]
        dsimp only
        generalize first :: rest = line
        have within : (line.takeWhile (· ≠ 0x3a)).length ≤ line.length :=
          (List.takeWhile_prefix _).length_le
        generalize (line.takeWhile (· ≠ 0x3a)).length = pos at within ⊢
        by_cases absent : pos = line.length
        · rw [if_pos absent, if_pos absent]
          rfl
        · have inside : pos < line.length := Nat.lt_of_le_of_ne within absent
          rw [if_neg absent, if_neg absent, ← take_sizeSub inside]
          dsimp only
          rw [substr, substr, if_neg (Nat.not_lt_zero _), if_neg (Nat.not_lt.mpr inside)]
          rfl

theorem statusLoop_eq (text : List Bytes) (statusMap : List (Bytes × Bytes)) :
    statusLoop text statusMap = .ok ((text.filterMap statusEntry).foldl insertNew statusMap) := by
  induction text generalizing statusMap with
  | nil => rfl
  | cons line rest ih =>
      rw [statusLoop, statusLine_eq]
      change statusLoop rest _ = _
      rw [ih]
      cases found : statusEntry line with
      | none => rw [List.filterMap_cons_none found, Option.elim_none]
      | some entry => rw [List.filterMap_cons_some found, Option.elim_some, List.foldl_cons]

/-- The checked reading of any text ends with a map. -/
theorem toStatusMap_eq (str : Bytes) :
    toStatusMap str = .ok ((fnToStatusMap str).foldl insertNew []) :=
  statusLoop_eq (lines str) []

theorem lookup_insertNew (statusMap : List (Bytes × Bytes)) (entry : Bytes × Bytes) (name : Bytes) :
    (insertNew statusMap entry).lookup name = (statusMap ++ [entry]).lookup name := by
  unfold insertNew
  split
  · rename_i known
    rw [List.lookup_append]
    by_cases same : name = entry.1
    · rw [same, Option.or_of_isSome known]
    · have other : (name == entry.1) = false := beq_eq_false_iff_ne.mpr same
      rw [List.lookup_cons, other, List.lookup_nil, Option.or_none]
  · rfl

/-- The map finds the first entry of a name, as the reading of `_getNodes` does. -/
theorem lookup_toStatusMap {str : Bytes} {statusMap : List (Bytes × Bytes)}
    (read : toStatusMap str = .ok statusMap) (name : Bytes) :
    statusMap.lookup name = (fnToStatusMap str).lookup name := by
  have folded : ∀ entries statusMap : List (Bytes × Bytes),
      (entries.foldl insertNew statusMap).lookup name = (statusMap ++ entries).lookup name := by
    intro entries
    induction entries with
    | nil => simp
    | cons entry entries ih =>
        intro statusMap
        rw [List.foldl_cons, ih, List.lookup_append, lookup_insertNew, ← List.lookup_append,
          List.append_assoc, List.singleton_append]
  rw [toStatusMap_eq] at read
  cases read
  exact folded _ []

/-! ## Rendered texts -/

/-- An entry of the text: a pair, a comment or a blank line. -/
inductive StatusItem
  | pair (name value : Bytes)
  | comment (text : Bytes)
  | blank

namespace StatusItem

/-- The line of an entry, without its line feed. -/
def line : StatusItem → Bytes
  | .pair name value => name ++ 0x3a :: (value ++ [0x0d])
  | .comment text => 0x23 :: text
  | .blank => [0x0d]

def render (item : StatusItem) : Bytes :=
  item.line ++ [0x0a]

def entry? : StatusItem → Option (Bytes × Bytes)
  | .pair name value => some (name, value)
  | .comment _ => none
  | .blank => none

/-- A name ends at the colon and a line at the line feed, so neither contains
its end; a line that begins as a comment or a blank line is skipped. -/
def WellFormed : StatusItem → Prop
  | .pair name value =>
      0x3a ∉ name ∧ 0x0a ∉ name ∧ name.head? ≠ some 0x23 ∧ name.head? ≠ some 0x0d ∧ 0x0a ∉ value
  | .comment text => 0x0a ∉ text
  | .blank => True

instance : (item : StatusItem) → Decidable item.WellFormed
  | .pair _ _ => inferInstanceAs (Decidable (_ ∧ _ ∧ _ ∧ _ ∧ _))
  | .comment _ => inferInstanceAs (Decidable (_ ∉ _))
  | .blank => inferInstanceAs (Decidable True)

theorem lineFeed_notMem_line {item : StatusItem} (wellFormed : item.WellFormed) :
    0x0a ∉ item.line := by
  cases item with
  | pair name value =>
      obtain ⟨_, inName, _, _, inValue⟩ := wellFormed
      simp [line, inName, inValue]
  | comment text =>
      have inText : 0x0a ∉ text := wellFormed
      simp [line, inText]
  | blank => simp [line]

theorem statusEntry_line {item : StatusItem} (wellFormed : item.WellFormed) :
    statusEntry item.line = item.entry? := by
  cases item with
  | comment text => rfl
  | blank => rfl
  | pair name value =>
      obtain ⟨noColon, _, notComment, notBlank, _⟩ := wellFormed
      have found : (line (.pair name value)).takeWhile (· ≠ 0x3a) = name := by
        have whole : ∀ c ∈ name, decide (c ≠ 0x3a) = true := by
          intro c mem
          exact decide_eq_true fun equal => noColon (equal ▸ mem)
        rw [line, List.takeWhile_append_of_pos whole]
        simp
      have inside : name.length ≠ (line (.pair name value)).length := by
        rw [line, List.length_append, List.length_cons]
        omega
      have named : (line (.pair name value)).take name.length = name := by
        rw [line, List.take_left]
      have valued : ((line (.pair name value)).drop (name.length + 1)).dropLast = value := by
        rw [line, ← List.drop_drop, List.drop_left, List.drop_succ_cons, List.drop_zero,
          List.dropLast_concat]
      cases lineEq : line (.pair name value) with
      | nil => simp [line] at lineEq
      | cons first rest =>
          have notSkipped : ¬ (first = 0x23 ∨ first = 0x0d) := by
            cases name with
            | nil =>
                cases lineEq
                decide
            | cons c name =>
                cases lineEq
                rintro (rfl | rfl)
                · exact notComment rfl
                · exact notBlank rfl
          rw [lineEq] at found inside named valued
          rw [statusEntry, if_neg notSkipped]
          dsimp only
          rw [found, if_neg inside, named, valued]
          rfl

end StatusItem

theorem lines_append {line : Bytes} (noFeed : 0x0a ∉ line) (rest : Bytes) :
    lines (line ++ 0x0a :: rest) = line :: lines rest := by
  induction line with
  | nil => rw [List.nil_append, lines, if_pos rfl]
  | cons c line ih =>
      have first : 0x0a ≠ c := List.ne_of_not_mem_cons noFeed
      have others : 0x0a ∉ line := List.not_mem_of_not_mem_cons noFeed
      rw [List.cons_append, lines, if_neg (Ne.symm first), ih others]

theorem lines_render {items : List StatusItem} (wellFormed : ∀ item ∈ items, item.WellFormed) :
    lines (items.flatMap StatusItem.render) = items.map StatusItem.line := by
  induction items with
  | nil => rfl
  | cons item items ih =>
      obtain ⟨first, others⟩ := List.forall_mem_cons.mp wellFormed
      rw [List.flatMap_cons, StatusItem.render, List.append_assoc, List.singleton_append,
        lines_append (StatusItem.lineFeed_notMem_line first), ih others, List.map_cons]

theorem fnToStatusMap_render {items : List StatusItem}
    (wellFormed : ∀ item ∈ items, item.WellFormed) :
    fnToStatusMap (items.flatMap StatusItem.render) = items.filterMap StatusItem.entry? := by
  rw [fnToStatusMap, lines_render wellFormed, List.filterMap_map]
  exact List.filterMap_congr fun item mem => StatusItem.statusEntry_line (wellFormed item mem)

/-- Entries of distinct names are all inserted. -/
theorem foldl_insertNew_of_nodup {entries statusMap : List (Bytes × Bytes)}
    (distinct : ((statusMap ++ entries).map Prod.fst).Nodup) :
    entries.foldl insertNew statusMap = statusMap ++ entries := by
  induction entries generalizing statusMap with
  | nil => simp
  | cons entry entries ih =>
      have appended : statusMap ++ entry :: entries = statusMap ++ [entry] ++ entries := by simp
      have new : statusMap.lookup entry.1 = none := by
        rw [List.map_append, List.map_cons] at distinct
        have apart := (List.nodup_append.mp distinct).2.2
        apply List.lookup_eq_none_iff.mpr
        intro other mem
        apply bne_iff_ne.mpr
        exact (apart other.1 (List.mem_map_of_mem mem) entry.1 List.mem_cons_self).symm
      rw [appended] at distinct ⊢
      rw [List.foldl_cons, insertNew, new, Option.isSome_none, if_neg Bool.false_ne_true,
        ih distinct]

/-- A rendered text is read back as exactly its pairs, and no text at all makes an
access fail. -/
theorem toStatusMap_render :
    (∀ items : List StatusItem, (∀ item ∈ items, item.WellFormed) →
      ((items.filterMap StatusItem.entry?).map Prod.fst).Nodup →
        toStatusMap (items.flatMap StatusItem.render) = .ok (items.filterMap StatusItem.entry?)) ∧
      ∀ str, ∃ statusMap, toStatusMap str = .ok statusMap := by
  constructor
  · intro items wellFormed distinct
    rw [toStatusMap_eq, fnToStatusMap_render wellFormed, foldl_insertNew_of_nodup distinct]
    rfl
  · intro str
    exact ⟨_, toStatusMap_eq str⟩

/-- A value may contain a colon, end in a carriage return, or be empty. -/
theorem toStatusMap_render_colons :
    toStatusMap (literal "# Cluster\r\n\r\na:b:c\r\nd:e\r\r\n:\r\n") =
      .ok [(literal "a", literal "b:c"), (literal "d", literal "e\r"), ([], [])] :=
  toStatusMap_render.1
    [.comment (literal " Cluster\r"), .blank, .pair (literal "a") (literal "b:c"),
      .pair (literal "d") (literal "e\r"), .pair [] []]
    (by decide) (by decide)

end MCRedis.MiddleWare
