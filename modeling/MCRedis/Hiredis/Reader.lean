import MCRedis.Hiredis.Number
import MCRedis.Hiredis.Objects

/-!
# The reply reader

`redisReader` of `read.c` with the default reply functions.  The buffer is a list
of bytes and a null buffer is empty.  The task stack is a list with the current
task first: `ridx` is one less than its length, and the parent of a task is the
task after it.  The objects that the reader creates are kept beside it.

Accesses outside the buffer, the task stack or an array of elements, the overflow
of a signed addition and failed assertions are faults.

Allocations succeed: the branches that set an error when there is no memory for an
object or for the buffer are left out.
-/

namespace MCRedis.Hiredis

open MCRedis.Client

/-- `REDIS_OK` and `REDIS_ERR`. -/
inductive Status
  | ok
  | err
  deriving DecidableEq, Repr

/-- `REDIS_ERR_PROTOCOL`. -/
def redisErrProtocol : Int := 4

/-- `redisReadTask`; a type that is not known yet is none. -/
structure RedisReadTask where
  type : Option ReplyType
  elements : Int
  idx : Int
  obj : Option Nat
  deriving DecidableEq, Repr

/-- `redisReader`, with the reply objects allocated so far. -/
structure RedisReader where
  err : Int
  errstr : Bytes
  buf : Bytes
  pos : Nat
  len : Nat
  rstack : List RedisReadTask
  reply : Option Nat
  objects : Heap
  deriving DecidableEq, Repr

/-- The number of entries of `rstack`. -/
def stackSize : Nat := 9

/-- `redisReaderCreate`, in a memory that holds other objects. -/
def redisReaderCreate (objects : Heap) : RedisReader where
  err := 0
  errstr := []
  buf := []
  pos := 0
  len := 0
  rstack := []
  reply := none
  objects := objects

/-! ## Strings -/

/-- The bytes of a buffer from a position on. -/
def slice (buf : Bytes) (pos count : Nat) : Except Fault Bytes :=
  if pos + count ≤ buf.length then .ok ((buf.drop pos).take count)
  else .error (.undefined .outOfBounds)

/-- `sdsrange`; both ends are `int`s, and a negative one counts from the end. -/
def sdsrange (s : Bytes) (start finish : Int) : Bytes :=
  if s.length = 0 then s
  else
    let len := toInt s.length
    let start := if start < 0 then max (toInt (s.length + start)) 0 else start
    let finish := if finish < 0 then max (toInt (s.length + finish)) 0 else finish
    if start > finish then []
    else if start ≥ len then []
    else
      let finish := if finish ≥ len then toInt (s.length - 1) else finish
      if start > finish then []
      else (s.drop start.toNat).take (finish - start + 1).toNat

/-- The loop of `seekNewline` from a position on; `s` is what is left there.  A
carriage return that no newline follows is passed over. -/
def seekNewlineFrom (last : Int) (pos : Nat) : Bytes → Option Nat
  | [] => none
  | c :: s =>
      if (pos : Int) < last then
        if c = 0x0d ∧ s.head? = some 0x0a then some pos
        else seekNewlineFrom last (pos + 1) s
      else none

/-- `seekNewline`: the position of the first line end; the length is an `int`. -/
def seekNewline (s : Bytes) : Option Nat :=
  seekNewlineFrom (toInt (sizeSub s.length 1)) 0 s

/-- `isprint`, in the C locale. -/
def isprint (byte : UInt8) : Bool :=
  decide (0x20 ≤ byte ∧ byte ≤ 0x7e)

/-- A hexadecimal digit. -/
def hexDigit (digit : Nat) : UInt8 :=
  if digit < 10 then UInt8.ofNat (0x30 + digit) else UInt8.ofNat (0x57 + digit)

/-- `chrtos`: a byte between quotation marks, as C writes it. -/
def chrtos (byte : UInt8) : Bytes :=
  if byte = 0x5c ∨ byte = 0x22 then [0x22, 0x5c, byte, 0x22]
  else if byte = 0x0a then literal "\"\\n\""
  else if byte = 0x0d then literal "\"\\r\""
  else if byte = 0x09 then literal "\"\\t\""
  else if byte = 0x07 then literal "\"\\a\""
  else if byte = 0x08 then literal "\"\\b\""
  else if isprint byte then [0x22, byte, 0x22]
  else literal "\"\\x" ++ [hexDigit (byte.toNat / 16), hexDigit (byte.toNat % 16)] ++ literal "\""

/-- The text that is printed to report a type byte. -/
def protocolByteMessage (byte : UInt8) : Bytes :=
  literal "Protocol error, got " ++ chrtos byte ++ literal " as reply type byte"

/-! ## Errors -/

/-- `__redisReaderSetError`: the reply under construction is freed, the buffer is
cleared and the stack reset. -/
def redisReaderSetError (r : RedisReader) (type : Int) (str : Bytes) :
    Except Fault RedisReader := do
  let objects ←
    match r.reply with
    | some reply => freeReplyObject r.objects (some reply)
    | none => pure r.objects
  pure { r with
    err := type, errstr := str.take 127, buf := [], pos := 0, len := 0, rstack := [],
    reply := none, objects := objects }

/-- A protocol error ends the processing of an item. -/
def protocolError (r : RedisReader) (str : Bytes) : Except Fault (Status × RedisReader) := do
  let r ← redisReaderSetError r redisErrProtocol str
  pure (.err, r)

/-! ## Objects -/

/-- What every function that creates an object does with it: the element of the
parent, if the task has one, is set to it. -/
def storeInParent (objects : Heap) (rstack : List RedisReadTask) (r : Nat) : Except Fault Heap :=
  match rstack with
  | task :: parent :: _ => do
      let object ← deref objects parent.obj
      if object.type ≠ .array then .error .terminate
      else if 0 ≤ task.idx ∧ task.idx < object.element.length then
        let element := object.element.set task.idx.toNat (some r)
        match parent.obj with
        | some place => pure (objects.set place (some { object with element := element }))
        | none => .error (.undefined .nullDereference)
      else .error (.undefined .outOfBounds)
  | _ => pure objects

/-- An object that could be allocated is created and stored. -/
def createObject (objects : Heap) (rstack : List RedisReadTask) (object : ReplyObject) :
    Except Fault (Nat × Heap) := do
  let (r, objects) := createReplyObject objects object
  let objects ← storeInParent objects rstack r
  pure (r, objects)

/-- `createStringObject`; the type is the task's. -/
def createStringObject (objects : Heap) (rstack : List RedisReadTask) (type : ReplyType)
    (str : Bytes) : Except Fault (Nat × Heap) :=
  if type = .error ∨ type = .status ∨ type = .string then
    createObject objects rstack (textObject type str)
  else .error .terminate

/-- `createArrayObject`; `calloc` leaves the elements null. -/
def createArrayObject (objects : Heap) (rstack : List RedisReadTask) (elements : Nat) :
    Except Fault (Nat × Heap) :=
  createObject objects rstack (arrayObject (List.replicate elements none))

def createIntegerObject (objects : Heap) (rstack : List RedisReadTask) (value : Int) :
    Except Fault (Nat × Heap) :=
  createObject objects rstack (integerObject value)

def createNilObject (objects : Heap) (rstack : List RedisReadTask) : Except Fault (Nat × Heap) :=
  createObject objects rstack nilObject

/-! ## Items -/

/-- `readBytes`. -/
def readBytes (r : RedisReader) (bytes : Nat) : Except Fault (Option Bytes × RedisReader) :=
  if sizeSub r.len r.pos ≥ bytes then do
    let p ← slice r.buf r.pos bytes
    pure (some p, { r with pos := r.pos + bytes })
  else pure (none, r)

/-- `readLine`: the characters before the line end, which is skipped. -/
def readLine (r : RedisReader) : Except Fault (Option Bytes × RedisReader) := do
  let p ← slice r.buf r.pos (sizeSub r.len r.pos)
  match seekNewline p with
  | some len => pure (some (p.take len), { r with pos := r.pos + (len + 2) })
  | none => pure (none, r)

/-- `moveToNextTask`. -/
def moveToNextTask : List RedisReadTask → Except Fault (List RedisReadTask)
  | [] => .ok []
  | [_] => .ok []
  | cur :: prv :: rest =>
      if prv.type ≠ some .array then .error .terminate
      else if cur.idx = prv.elements - 1 then moveToNextTask (prv :: rest)
      else if ¬ cur.idx < prv.elements then .error .terminate
      else .ok ({ cur with type := none, elements := -1, idx := cur.idx + 1 } :: prv :: rest)

/-- The end of an item that is complete: the root becomes the reply. -/
def completeItem (r : RedisReader) (obj : Nat) : Except Fault (Status × RedisReader) := do
  let rstack ← moveToNextTask r.rstack
  pure (.ok, { r with
    reply := if r.rstack.length = 1 then some obj else r.reply, rstack := rstack })

/-- `processLineItem`; the type of the task is given, and the object is created. -/
def processLineItem (type : ReplyType) (r : RedisReader) : Except Fault (Status × RedisReader) := do
  let (p, r) ← readLine r
  match p with
  | none => pure (.err, r)
  | some p =>
      if type = .integer then
        match string2ll p with
        | none => protocolError r (literal "Bad integer value")
        | some v => do
            let (obj, objects) ← createIntegerObject r.objects r.rstack v
            completeItem { r with objects := objects } obj
      else do
        let (obj, objects) ← createStringObject r.objects r.rstack type p
        completeItem { r with objects := objects } obj

/-- `processBulkItem`; nothing is taken before the whole item is there, and the object
is created. -/
def processBulkItem (r : RedisReader) : Except Fault (Status × RedisReader) := do
  let p ← slice r.buf r.pos (sizeSub r.len r.pos)
  match seekNewline p with
  | none => pure (.err, r)
  | some s =>
      match string2ll (p.take s) with
      | none => protocolError r (literal "Bad bulk string length")
      | some len =>
          if len < -1 then protocolError r (literal "Bulk string length out of range")
          else if len = -1 then do
            let (obj, objects) ← createNilObject r.objects r.rstack
            completeItem { r with pos := r.pos + (s + 2), objects := objects } obj
          else if len + 2 > llongMax then .error (.undefined .signedOverflow)
          else
            let bytelen := s + 2 + (len.toNat + 2)
            if (r.pos + bytelen) % uint64Size ≤ r.len then do
              let str ← slice r.buf (r.pos + (s + 2)) len.toNat
              let (obj, objects) ← createStringObject r.objects r.rstack .string str
              completeItem { r with pos := r.pos + bytelen, objects := objects } obj
            else pure (.err, r)

/-- The task of the elements of an array is pushed on the stack, which has room
for nine. -/
def pushTask (rstack : List RedisReadTask) (elements : Int) (obj : Nat) :
    Except Fault (List RedisReadTask) :=
  match rstack with
  | [] => .error (.undefined .outOfBounds)
  | cur :: rest =>
      if rstack.length < stackSize then
        .ok ({ type := none, elements := -1, idx := 0, obj := none } ::
          { cur with elements := elements, obj := some obj } :: rest)
      else .error (.undefined .outOfBounds)

/-- `processMultiBulkItem`. -/
def processMultiBulkItem (r : RedisReader) : Except Fault (Status × RedisReader) :=
  if r.rstack.length = 9 then
    protocolError r (literal "No support for nested multi bulk replies with depth > 7")
  else do
    let (p, r) ← readLine r
    match p with
    | none => pure (.err, r)
    | some p =>
        match string2ll p with
        | none => protocolError r (literal "Bad multi-bulk length")
        | some elements =>
            if elements < -1 ∨ elements > intMax then
              protocolError r (literal "Multi-bulk length out of range")
            else if elements = -1 then do
              let (obj, objects) ← createNilObject r.objects r.rstack
              completeItem { r with objects := objects } obj
            else do
              let (obj, objects) ← createArrayObject r.objects r.rstack elements.toNat
              if elements > 0 then do
                let rstack ← pushTask r.rstack elements obj
                pure (.ok, { r with
                  reply := if r.rstack.length = 1 then some obj else r.reply,
                  rstack := rstack, objects := objects })
              else completeItem { r with objects := objects } obj

/-- The type that a type byte announces. -/
def typeOfByte (byte : UInt8) : Option ReplyType :=
  if byte = 0x2d then some .error
  else if byte = 0x2b then some .status
  else if byte = 0x3a then some .integer
  else if byte = 0x24 then some .string
  else if byte = 0x2a then some .array
  else none

/-- The second half of `processItem`: an item of a known type. -/
def processTyped (type : ReplyType) (r : RedisReader) : Except Fault (Status × RedisReader) :=
  match type with
  | .error | .status | .integer => processLineItem type r
  | .string => processBulkItem r
  | .array => processMultiBulkItem r
  | .nil => .error .terminate

/-- `processItem`; the type byte is consumed as soon as it is there. -/
def processItem (r : RedisReader) : Except Fault (Status × RedisReader) :=
  match r.rstack with
  | [] => .error (.undefined .outOfBounds)
  | cur :: rest =>
      match cur.type with
      | some type => processTyped type r
      | none => do
          let (p, r) ← readBytes r 1
          match p with
          | some (byte :: _) =>
              match typeOfByte byte with
              | none => protocolError r (protocolByteMessage byte)
              | some type =>
                  processTyped type { r with rstack := { cur with type := some type } :: rest }
          | _ => pure (.err, r)

/-! ## The interface of the reader -/

/-- `redisReaderFree`: the memory that is left. -/
def redisReaderFree (r : RedisReader) : Except Fault Heap :=
  match r.reply with
  | some reply => freeReplyObject r.objects (some reply)
  | none => pure r.objects

/-- `redisReaderFeed`, when there is memory for the bytes. -/
def redisReaderFeed (r : RedisReader) (buf : Bytes) : Status × RedisReader :=
  if r.err ≠ 0 then (.err, r)
  else if buf.length ≥ 1 then
    (.ok, { r with buf := r.buf ++ buf, len := (r.buf ++ buf).length })
  else (.ok, r)

/-- The loop of `redisReaderGetReply`. -/
def processItems : Nat → RedisReader → Except Fault RedisReader
  | 0, r => pure r
  | fuel + 1, r =>
      if r.rstack = [] then pure r
      else do
        let (status, r) ← processItem r
        match status with
        | .ok => processItems fuel r
        | .err => pure r

/-- The first item to process when the stack is empty. -/
def startRoot (r : RedisReader) : RedisReader :=
  if r.rstack = [] then
    { r with rstack := [{ type := none, elements := -1, idx := -1, obj := none }] }
  else r

/-- The part of the buffer that has been consumed is discarded when it is large. -/
def discardConsumed (r : RedisReader) : RedisReader :=
  if r.pos ≥ 1024 then
    let buf := sdsrange r.buf (toInt r.pos) (-1)
    { r with buf := buf, pos := 0, len := buf.length }
  else r

/-- `redisReaderGetReply`; every item takes a byte or more. -/
def redisReaderGetReply (r : RedisReader) : Except Fault (Status × Option Nat × RedisReader) :=
  if r.err ≠ 0 then .ok (.err, none, r)
  else if r.len = 0 then .ok (.ok, none, r)
  else do
    let r ← processItems (r.buf.length + 1) (startRoot r)
    if r.err ≠ 0 then pure (.err, none, r)
    else
      let r := discardConsumed r
      if r.rstack = [] then pure (.ok, r.reply, { r with reply := none })
      else pure (.ok, none, r)

end MCRedis.Hiredis
