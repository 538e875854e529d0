import MCRedis.Hiredis.Reader
import MCRedis.Parsing.Prefix

/-!
# A parser of replies

What the reader is for: a recursive parser that takes one reply off the front of
a stream of bytes, with the messages of the reader for what it rejects.  It knows
of no buffer and no task stack, and what it decides does not change with the
bytes that follow.
-/

namespace MCRedis.Hiredis

open MCRedis.Client
open MCRedis.Parsing
open MCRedis.Text

/-- Why a stream cannot be read on: a protocol error, or a fault of the reader. -/
inductive Rejection
  | protocol (message : Bytes)
  | fault (fault : Fault)
  deriving DecidableEq, Repr

abbrev WireParser := Parser UInt8 Rejection

def crlf : Bytes := [0x0d, 0x0a]

/-- The text before the first line end, and what follows the line end. -/
def cutLine : Bytes → Option (Bytes × Bytes)
  | [] => none
  | [_] => none
  | first :: second :: rest =>
      if first = 0x0d ∧ second = 0x0a then some ([], rest)
      else (cutLine (second :: rest)).map fun cut => (first :: cut.1, cut.2)

def line : WireParser Bytes := fun input =>
  match cutLine input with
  | some (text, rest) => .done text rest
  | none => .more

/-- A number of bytes. -/
def bytes (count : Nat) : WireParser Bytes := fun input =>
  if count ≤ input.length then .done (input.take count) (input.drop count) else .more

/-- The type of the next item. -/
def typeByte : WireParser ReplyType := fun input =>
  match input with
  | [] => .more
  | byte :: rest =>
      match typeOfByte byte with
      | some type => .done type rest
      | none => .bad (.protocol (protocolByteMessage byte))

/-- A line that holds a number. -/
def number (message : Bytes) : WireParser Int := do
  let text ← line
  match string2ll text with
  | some value => pure value
  | none => .fail (.protocol message)

def bulkItem : WireParser RedisReply := do
  let len ← number (literal "Bad bulk string length")
  if len < -1 then .fail (.protocol (literal "Bulk string length out of range"))
  else if len = -1 then pure .nil
  else if len + 2 > llongMax then .fail (.fault (.undefined .signedOverflow))
  else do
    let body ← bytes (len.toNat + 2)
    pure (.string (body.take len.toNat))

def multiBulkItem (element : WireParser RedisReply) : WireParser RedisReply := do
  let elements ← number (literal "Bad multi-bulk length")
  if elements < -1 ∨ elements > intMax then
    .fail (.protocol (literal "Multi-bulk length out of range"))
  else if elements = -1 then pure .nil
  else do
    let replies ← element.times elements.toNat
    pure (.array replies)

/-- An item of a type, with arrays nested in at most `depth` levels. -/
def item : Nat → ReplyType → WireParser RedisReply
  | _, .status => do
      let text ← line
      pure (.status text)
  | _, .error => do
      let text ← line
      pure (.error text)
  | _, .integer => do
      let value ← number (literal "Bad integer value")
      pure (.integer value)
  | _, .string => bulkItem
  | 0, .array =>
      .fail (.protocol (literal "No support for nested multi bulk replies with depth > 7"))
  | depth + 1, .array => multiBulkItem (typeByte >>= item depth)
  | _, .nil => .fail (.fault .terminate)

def anyReply (depth : Nat) : WireParser RedisReply :=
  typeByte >>= item depth

theorem item_status (depth : Nat) :
    item depth .status = line >>= fun text => pure (.status text) := by
  cases depth <;> rfl

theorem item_error (depth : Nat) :
    item depth .error = line >>= fun text => pure (.error text) := by
  cases depth <;> rfl

theorem item_integer (depth : Nat) :
    item depth .integer =
      number (literal "Bad integer value") >>= fun value => pure (.integer value) := by
  cases depth <;> rfl

theorem item_string (depth : Nat) : item depth .string = bulkItem := by
  cases depth <;> rfl

theorem item_nil (depth : Nat) : item depth .nil = .fail (.fault .terminate) := by
  cases depth <;> rfl

/-- The levels of arrays that the task stack has room for. -/
def levelsMax : Nat := 8

/-! ## Stability -/

theorem cutLine_append {input text rest : Bytes} (cut : cutLine input = some (text, rest))
    (later : Bytes) : cutLine (input ++ later) = some (text, rest ++ later) := by
  induction input generalizing text with
  | nil => contradiction
  | cons first input ih =>
      cases input with
      | nil => contradiction
      | cons second input =>
          rw [cutLine] at cut
          rw [List.cons_append, List.cons_append, cutLine]
          split at cut
          case isTrue ended =>
            cases cut
            rw [if_pos ended]
          case isFalse open_ =>
            obtain ⟨⟨inner, innerRest⟩, innerCut, equal⟩ := Option.map_eq_some_iff.mp cut
            cases equal
            rw [if_neg open_, ← List.cons_append, ih innerCut]
            rfl

theorem stable_line : Parser.Stable line where
  done := by
    intro input rest text parsed later
    rw [line] at parsed ⊢
    cases cut : cutLine input with
    | none =>
        rw [cut] at parsed
        contradiction
    | some found =>
        rw [cut] at parsed
        cases parsed
        rw [cutLine_append cut later]
  bad := by
    intro input error parsed later
    rw [line] at parsed
    split at parsed <;> contradiction

theorem stable_bytes (count : Nat) : Parser.Stable (bytes count) where
  done := by
    intro input rest body parsed later
    rw [bytes] at parsed ⊢
    split at parsed
    case isTrue enough =>
      cases parsed
      rw [if_pos (by rw [List.length_append]; omega), List.take_append_of_le_length enough,
        List.drop_append_of_le_length enough]
    case isFalse => contradiction
  bad := by
    intro input error parsed later
    rw [bytes] at parsed
    split at parsed <;> contradiction

theorem stable_typeByte : Parser.Stable typeByte where
  done := by
    intro input rest type parsed later
    cases input with
    | nil => contradiction
    | cons byte input =>
        simp only [typeByte] at parsed
        simp only [List.cons_append, typeByte]
        cases known : typeOfByte byte with
        | some other =>
            rw [known] at parsed
            cases parsed
            rfl
        | none =>
            rw [known] at parsed
            contradiction
  bad := by
    intro input error parsed later
    cases input with
    | nil => contradiction
    | cons byte input =>
        simp only [typeByte] at parsed
        simp only [List.cons_append, typeByte]
        cases known : typeOfByte byte with
        | some other =>
            rw [known] at parsed
            contradiction
        | none =>
            rw [known] at parsed
            exact parsed

theorem stable_number (message : Bytes) : Parser.Stable (number message) := by
  apply stable_line.bind
  intro text
  split
  · exact .pure _
  · exact .fail _

theorem stable_bulkItem : Parser.Stable bulkItem := by
  apply (stable_number _).bind
  intro len
  split
  · exact .fail _
  split
  · exact .pure _
  split
  · exact .fail _
  · exact (stable_bytes _).bind fun body => .pure _

theorem stable_multiBulkItem {element : WireParser RedisReply} (stable : Parser.Stable element) :
    Parser.Stable (multiBulkItem element) := by
  apply (stable_number _).bind
  intro elements
  split
  · exact .fail _
  split
  · exact .pure _
  · exact (stable.times _).bind fun replies => .pure _

theorem stable_item (depth : Nat) (type : ReplyType) : Parser.Stable (item depth type) := by
  induction depth generalizing type with
  | zero =>
      cases type with
      | status => exact stable_line.bind fun text => .pure _
      | error => exact stable_line.bind fun text => .pure _
      | integer => exact (stable_number _).bind fun value => .pure _
      | string => exact stable_bulkItem
      | array => exact .fail _
      | nil => exact .fail _
  | succ depth ih =>
      cases type with
      | status => exact stable_line.bind fun text => .pure _
      | error => exact stable_line.bind fun text => .pure _
      | integer => exact (stable_number _).bind fun value => .pure _
      | string => exact stable_bulkItem
      | array => exact stable_multiBulkItem (stable_typeByte.bind ih)
      | nil => exact .fail _

theorem stable_reply (depth : Nat) : Parser.Stable (anyReply depth) :=
  stable_typeByte.bind (stable_item depth)

end MCRedis.Hiredis
