import MCRedis.Hiredis.Command

/-!
# Strings in memory

`sds`: a string behind a header that has one of five layouts.  The header counts
the bytes of the string and those that are allocated for it, in fields as narrow
as the allocation permits; the string grows by more than it has to, and moves to
another layout on the way.

The rest of the model works on the bytes of the strings.  Here the functions that
hiredis calls on its buffers run on the memory, and are shown to do to the string
what they are taken to do.  Allocations succeed.
-/

namespace MCRedis.Hiredis

open MCRedis.Client
open MCRedis.Transition

/-! ## Memory -/

/-- The bytes of a block, `none` where nothing has been written. -/
abbrev Memory := List (Option UInt8)

/-- The bytes that a copy reads. -/
def load (buf : Memory) (pos count : Nat) : Except Fault Memory :=
  if pos + count ≤ buf.length then .ok ((buf.drop pos).take count)
  else .error (.undefined .outOfBounds)

/-- A block after some bytes are written. -/
def store (buf : Memory) (pos : Nat) (bytes : Memory) : Except Fault Memory :=
  if pos + bytes.length ≤ buf.length then
    .ok (buf.take pos ++ (bytes ++ buf.drop (pos + bytes.length)))
  else .error (.undefined .outOfBounds)

/-- `SDS_TYPE_5` to `SDS_TYPE_64`. -/
inductive SdsType
  | type5
  | type8
  | type16
  | type32
  | type64
  deriving DecidableEq, Repr

namespace SdsType

/-- `sdsHdrSize`. -/
def hdrSize : SdsType → Nat
  | type5 => 1
  | type8 => 3
  | type16 => 5
  | type32 => 9
  | type64 => 17

/-- The number of values of a field of the header; in type 5 the length has five bits
of the flags. -/
def fieldSize : SdsType → Nat
  | type5 => 32
  | type8 => 256
  | type16 => 65536
  | type32 => 4294967296
  | type64 => 18446744073709551616

end SdsType

/-- `sdsReqType`. -/
def sdsReqType (stringSize : Nat) : SdsType :=
  if stringSize < 32 then .type5
  else if stringSize < 0xff then .type8
  else if stringSize < 0xffff then .type16
  else if stringSize < 0xffffffff then .type32
  else .type64

/-- `SDS_MAX_PREALLOC`. -/
def sdsMaxPrealloc : Nat := 1048576

/-- A string: the fields of its header, and the bytes behind the header up to the end
of the block.  Type 5 has no field `alloc`. -/
structure Sds where
  type : SdsType
  lenField : Nat
  allocField : Nat
  buf : Memory

/-- The memory behind the header in a new block for `size` bytes and a terminator. -/
def newBlock (type : SdsType) (size : Nat) : Except Fault Memory :=
  let total := (type.hdrSize + size + 1) % uint64Size
  if total < type.hdrSize then .error (.undefined .outOfBounds)
  else .ok (List.replicate (total - type.hdrSize) none)

/-- The size that a string grows to. -/
def grownLen (len addlen : Nat) : Nat :=
  let newlen := (len + addlen) % uint64Size
  if newlen < sdsMaxPrealloc then newlen * 2 else (newlen + sdsMaxPrealloc) % uint64Size

/-- The type of a string that grows; type 5 does not remember empty space. -/
def grownType (newlen : Nat) : SdsType :=
  if sdsReqType newlen = .type5 then .type8 else sdsReqType newlen

namespace Sds

def sdslen (s : Sds) : Nat :=
  s.lenField

/-- The difference has the width of the fields, but for the two narrow ones that are
converted before. -/
def sdsavail (s : Sds) : Nat :=
  match s.type with
  | .type5 => 0
  | .type32 => (s.allocField + 4294967296 - s.lenField) % 4294967296
  | _ => (s.allocField + uint64Size - s.lenField) % uint64Size

def sdsalloc (s : Sds) : Nat :=
  match s.type with
  | .type5 => s.lenField
  | _ => s.allocField

def sdssetlen (s : Sds) (newlen : Nat) : Sds :=
  { s with lenField := newlen % s.type.fieldSize }

def sdsinclen (s : Sds) (inc : Nat) : Sds :=
  { s with lenField := (s.lenField + inc) % s.type.fieldSize }

def sdssetalloc (s : Sds) (newlen : Nat) : Sds :=
  match s.type with
  | .type5 => s
  | _ => { s with allocField := newlen % s.type.fieldSize }

/-- `sdsnewlen` from an object in memory. -/
def sdsnewlen (init : Bytes) (initlen : Nat) : Except Fault Sds := do
  let type := if initlen = 0 then .type8 else sdsReqType initlen
  let buf ← newBlock type initlen
  let text ← load (init.map some) 0 initlen
  let buf ← store buf 0 text
  let buf ← store buf initlen [some 0]
  pure (sdssetalloc (sdssetlen ⟨type, 0, 0, buf⟩ initlen) initlen)

def sdsempty : Except Fault Sds :=
  sdsnewlen [] 0

/-- `sdsMakeRoomFor`: the block is enlarged, or the string is moved when the size of
the header changes. -/
def sdsMakeRoomFor (s : Sds) (addlen : Nat) : Except Fault Sds :=
  if s.sdsavail ≥ addlen then .ok s
  else do
    let newlen := grownLen s.sdslen addlen
    let type := grownType newlen
    let block ← newBlock type newlen
    if s.type = type then
      pure (sdssetalloc { s with buf := s.buf.take block.length ++ block.drop s.buf.length } newlen)
    else do
      let text ← load s.buf 0 (s.sdslen + 1)
      let buf ← store block 0 text
      pure (sdssetalloc (sdssetlen ⟨type, 0, 0, buf⟩ s.sdslen) newlen)

def sdscatlen (s : Sds) (memory : Bytes) (len : Nat) : Except Fault Sds := do
  let curlen := s.sdslen
  let s ← s.sdsMakeRoomFor len
  let text ← load (memory.map some) 0 len
  let buf ← store s.buf curlen text
  let s := sdssetlen { s with buf := buf } (curlen + len)
  let buf ← store s.buf (curlen + len) [some 0]
  pure { s with buf := buf }

/-- The number of bytes of a range, in `int`. -/
def rangeLen (start finish : Int) : Except Fault Nat :=
  if start > finish then .ok 0
  else if finish - start + 1 > intMax then .error (.undefined .signedOverflow)
  else .ok (finish - start + 1).toNat

/-- The length of the range that is left, when both ends are counted from the start;
the range is clipped to the string. -/
def clippedLen (len : Nat) (start finish : Int) : Except Fault Nat := do
  let newlen ← rangeLen start finish
  if newlen = 0 then pure 0
  else if start ≥ toInt len then pure 0
  else if finish ≥ toInt len then rangeLen start (toInt (len - 1))
  else pure newlen

/-- The range is moved to the start. -/
def moveFront (buf : Memory) (start newlen : Nat) : Except Fault Memory :=
  if start = 0 ∨ newlen = 0 then .ok buf
  else do
    let moved ← load buf start newlen
    store buf 0 moved

/-- `sdsrange`. -/
def sdsrange (s : Sds) (start finish : Int) : Except Fault Sds :=
  let len := s.sdslen
  if len = 0 then .ok s
  else do
    let start := if start < 0 then max (toInt (len + start)) 0 else start
    let finish := if finish < 0 then max (toInt (len + finish)) 0 else finish
    let newlen ← clippedLen len start finish
    let buf ← moveFront s.buf start.toNat newlen
    let buf ← store buf newlen [some 0]
    pure (sdssetlen { s with buf := buf } newlen)

/-- Room is made when the free space is too small. -/
def roomFor (s : Sds) (len : Nat) : Except Fault Sds :=
  if s.sdsavail < len then s.sdsMakeRoomFor len else .ok s

/-- A text is copied to position `i`. -/
def catText (i : Int) (s : Sds) (text : Bytes) : Except Fault Sds := do
  let s ← s.roomFor text.length
  if i < 0 then .error (.undefined .outOfBounds)
  else do
    let buf ← store s.buf i.toNat (text.map some)
    pure (sdsinclen { s with buf := buf } text.length)

/-- A single character is written, and the position moves on. -/
def catChar (i : Int) (s : Sds) (c : UInt8) : Except Fault Sds := do
  let s ← catText i s [c]
  if i + 1 > intMax then .error (.undefined .signedOverflow) else pure s

/-- The terminator is written to position `i`. -/
def terminateAt (i : Int) (s : Sds) : Except Fault Sds :=
  if i < 0 then .error (.undefined .outOfBounds)
  else do
    let buf ← store s.buf i.toNat [some 0]
    pure { s with buf := buf }

/-- The loop of `sdscatfmt`; an iteration starts with room for a character. -/
def sdscatfmtFrom (i : Int) (s : Sds) : Bytes → List VaArg → Except Fault Sds
  | [], _ => terminateAt i s
  | [c], _ => do
      let s ← s.roomFor 1
      if c = 0x25 then .error (.undefined .outOfBounds)
      else do
        let s ← catChar i s c
        terminateAt (i + 1) s
  | c :: next :: f, args => do
      let s ← s.roomFor 1
      if c = 0x25 then do
        let (text, args) ← conversion next args
        let s ← catText i s text
        sdscatfmtFrom (toInt (i + text.length)) s f args
      else do
        let s ← catChar i s c
        sdscatfmtFrom (i + 1) s (next :: f) args

/-- `sdscatfmt`. -/
def sdscatfmt (s : Sds) (fmt : Bytes) (args : List VaArg) : Except Fault Sds :=
  sdscatfmtFrom (toInt s.sdslen) s fmt args

/-! ## The invariant -/

/-- The header counts the bytes of the string and the allocated ones, which its fields
can hold, and the block has room for them and a terminator. -/
structure Holds (s : Sds) (content : Bytes) : Prop where
  len : s.lenField = content.length
  inside : content.length ≤ s.sdsalloc
  block : s.sdsalloc + 1 ≤ s.buf.length
  field : s.sdsalloc < s.type.fieldSize
  text : s.buf.take content.length = content.map some

/-- The string is terminated as well. -/
structure Represents (s : Sds) (content : Bytes) : Prop extends s.Holds content where
  terminated : s.buf[content.length]? = some (some 0)

end Sds

/-- A length to which a string can grow by the size that is allocated in advance. -/
def Growable (len : Nat) : Prop :=
  len + sdsMaxPrealloc + 18 < uint64Size

instance (len : Nat) : Decidable (Growable len) :=
  inferInstanceAs (Decidable (_ < _))

theorem growable_of_intMax {len : Nat} (small : len ≤ intMax + 1) : Growable len := by
  rw [intMax] at small
  rw [Growable, sdsMaxPrealloc, uint64Size]
  omega

theorem store_ok {buf bytes : Memory} {pos : Nat} (inside : pos + bytes.length ≤ buf.length) :
    store buf pos bytes = .ok (buf.take pos ++ (bytes ++ buf.drop (pos + bytes.length))) :=
  if_pos inside

theorem load_ok {buf : Memory} {pos count : Nat} (inside : pos + count ≤ buf.length) :
    load buf pos count = .ok ((buf.drop pos).take count) :=
  if_pos inside

theorem newBlock_ok {type : SdsType} {size : Nat} (growable : size + 18 < uint64Size) :
    newBlock type size = .ok (List.replicate (size + 1) none) := by
  have header : type.hdrSize ≤ 17 := by cases type <;> decide
  have total : (type.hdrSize + size + 1) % uint64Size = type.hdrSize + size + 1 := by
    apply Nat.mod_eq_of_lt
    omega
  rw [newBlock, total, if_neg (by omega)]
  congr 2
  omega

theorem lt_fieldSize_sdsReqType {size : Nat} (small : size < uint64Size) :
    size < (sdsReqType size).fieldSize := by
  rw [uint64Size] at small
  unfold sdsReqType
  split_ifs <;> simp only [SdsType.fieldSize] <;> omega

theorem grownLen_bounds {len addlen : Nat} (growable : Growable (len + addlen)) :
    len + addlen ≤ grownLen len addlen ∧ grownLen len addlen + 18 < uint64Size := by
  rw [Growable, sdsMaxPrealloc, uint64Size] at growable
  have small : (len + addlen) % uint64Size = len + addlen := by
    apply Nat.mod_eq_of_lt
    rw [uint64Size]
    omega
  rw [grownLen, small, sdsMaxPrealloc, uint64Size]
  split <;> omega

theorem lt_fieldSize_grownType {newlen : Nat} (small : newlen < uint64Size) :
    newlen < (grownType newlen).fieldSize ∧ grownType newlen ≠ .type5 := by
  have fits := lt_fieldSize_sdsReqType small
  rw [grownType]
  split
  · rename_i isType5
    rw [isType5, SdsType.fieldSize] at fits
    rw [SdsType.fieldSize]
    exact ⟨by omega, by simp⟩
  · rename_i notType5
    exact ⟨fits, notType5⟩

namespace Sds

variable {s : Sds} {content text : Bytes}

theorem Holds.sdsavail_eq (holds : s.Holds content) : s.sdsavail = s.sdsalloc - content.length := by
  have inside := holds.inside
  have field := holds.field
  rcases s with ⟨type, lenField, allocField, buf⟩
  cases holds.len
  cases type <;> simp only [sdsavail, sdsalloc, SdsType.fieldSize, uint64Size] at * <;> omega

/-- Bytes that fit into the free space are appended. -/
theorem Holds.append (holds : s.Holds content) (room : text.length ≤ s.sdsavail) :
    ∃ buf, store s.buf content.length (text.map some) = .ok buf ∧
      Holds { s with buf := buf, lenField := (content.length + text.length) % s.type.fieldSize }
        (content ++ text) := by
  have avail := holds.sdsavail_eq
  have inside := holds.inside
  have block := holds.block
  have field := holds.field
  have whole : (content.length + text.length) % s.type.fieldSize = content.length + text.length :=
    Nat.mod_eq_of_lt (by omega)
  have fits : content.length + (text.map some).length ≤ s.buf.length := by
    rw [List.length_map]
    omega
  have lengthEq : (s.buf.take content.length ++
      (text.map some ++ s.buf.drop (content.length + (text.map some).length))).length =
        s.buf.length := by
    simp only [List.length_append, List.length_take, List.length_drop]
    omega
  have allocEq : ∀ buf lenField, (content ++ text).length ≤ lenField → lenField ≤ s.sdsalloc →
      (content ++ text).length ≤ sdsalloc { s with buf := buf, lenField := lenField } ∧
        sdsalloc { s with buf := buf, lenField := lenField } ≤ s.sdsalloc := by
    intro buf lenField enough below
    rcases s with ⟨type, _, allocField, _⟩
    cases type <;> simp only [sdsalloc] at * <;> omega
  rw [whole]
  refine ⟨_, store_ok fits, ?_⟩
  obtain ⟨enough, below⟩ := allocEq (s.buf.take content.length ++
    (text.map some ++ s.buf.drop (content.length + (text.map some).length)))
    (content.length + text.length) (by rw [List.length_append]) (by omega)
  constructor
  · exact List.length_append.symm
  · exact enough
  · exact (Nat.succ_le_succ below).trans (block.trans lengthEq.ge)
  · exact below.trans_lt field
  · have front : (content.map some ++ text.map some).length = (content ++ text).length := by
      rw [← List.map_append, List.length_map]
    change List.take _ (_ ++ (_ ++ _)) = _
    rw [holds.text, ← List.append_assoc, List.take_left' front, List.map_append]

/-- The terminator is written behind the string. -/
theorem Holds.terminate (holds : s.Holds content) :
    ∃ buf, store s.buf content.length [some 0] = .ok buf ∧
      Represents { s with buf := buf } content := by
  have block := holds.block
  have inside := holds.inside
  have fits : content.length + [some (0 : UInt8)].length ≤ s.buf.length := by
    rw [List.length_singleton]
    omega
  have front : (s.buf.take content.length).length = content.length := by
    rw [List.length_take]
    omega
  refine ⟨_, store_ok fits, ⟨?_, ?_⟩⟩
  · refine ⟨holds.len, holds.inside, ?_, holds.field, ?_⟩
    · refine block.trans (Nat.le_of_eq ?_)
      simp only [List.length_append, List.length_take, List.length_drop, List.length_singleton]
      omega
    · change List.take _ (_ ++ _) = _
      rw [List.take_left' front, holds.text]
  · change (_ ++ _)[_]? = _
    rw [List.getElem?_append_right front.le, front, Nat.sub_self]
    rfl

/-- A string in a block that has been allocated for it. -/
theorem holds_sdssetalloc {type : SdsType} {alloc newlen : Nat} {buf : Memory}
    (remembers : type ≠ .type5) (small : newlen < type.fieldSize) (inside : content.length ≤ newlen)
    (block : buf.length = newlen + 1) (textEq : buf.take content.length = content.map some) :
    Holds (sdssetalloc ⟨type, content.length, alloc, buf⟩ newlen) content ∧
      sdsalloc (sdssetalloc ⟨type, content.length, alloc, buf⟩ newlen) = newlen := by
  have whole : newlen % type.fieldSize = newlen := Nat.mod_eq_of_lt small
  have setEq : sdssetalloc ⟨type, content.length, alloc, buf⟩ newlen =
      ⟨type, content.length, newlen, buf⟩ := by
    cases type with
    | type5 => exact absurd rfl remembers
    | _ => rw [sdssetalloc, whole]
  have allocEq : sdsalloc ⟨type, content.length, newlen, buf⟩ = newlen := by
    cases type with
    | type5 => exact absurd rfl remembers
    | _ => rfl
  rw [setEq, allocEq]
  refine ⟨⟨rfl, ?_, ?_, ?_, textEq⟩, rfl⟩
  · rw [allocEq]
    exact inside
  · rw [allocEq]
    exact block.ge
  · rw [allocEq]
    exact small

theorem buf_sdssetalloc (s : Sds) (newlen : Nat) : (sdssetalloc s newlen).buf = s.buf := by
  rcases s with ⟨type, _, _, _⟩
  cases type <;> rfl

/-- A larger block that begins with the start of the old one, the terminator included. -/
theorem Holds.moved (holds : s.Holds content) {type : SdsType} {alloc newlen count : Nat}
    {rest : Memory} (remembers : type ≠ .type5) (small : newlen < type.fieldSize)
    (inside : content.length ≤ newlen) (bound : content.length < count)
    (block : (s.buf.take count ++ rest).length = newlen + 1) :
    Holds (sdssetalloc ⟨type, content.length, alloc, s.buf.take count ++ rest⟩ newlen) content ∧
      sdsavail (sdssetalloc ⟨type, content.length, alloc, s.buf.take count ++ rest⟩ newlen) =
        newlen - content.length ∧
      (sdssetalloc ⟨type, content.length, alloc, s.buf.take count ++ rest⟩ newlen).buf[
        content.length]? = s.buf[content.length]? := by
  have longer : content.length < (s.buf.take count).length := by
    have old := holds.inside
    have oldBlock := holds.block
    rw [List.length_take]
    omega
  have textEq : (s.buf.take count ++ rest).take content.length = content.map some := by
    rw [List.take_append_of_le_length longer.le, List.take_take, Nat.min_eq_left bound.le,
      holds.text]
  obtain ⟨grown, allocEq⟩ := @holds_sdssetalloc content type alloc newlen _ remembers small inside
    block textEq
  refine ⟨grown, ?_, ?_⟩
  · rw [grown.sdsavail_eq, allocEq]
  · rw [buf_sdssetalloc, List.getElem?_append_left longer, List.getElem?_take_of_lt bound]

/-- Room is made for some more bytes; the string stays as it is. -/
theorem Holds.makeRoom (holds : s.Holds content) {addlen : Nat}
    (growable : Growable (content.length + addlen)) :
    ∃ grown, s.sdsMakeRoomFor addlen = .ok grown ∧ grown.Holds content ∧
      addlen ≤ grown.sdsavail ∧
      grown.buf[content.length]? = s.buf[content.length]? := by
  rw [sdsMakeRoomFor]
  split
  · rename_i room
    exact ⟨s, rfl, holds, room, rfl⟩
  · rename_i narrow
    obtain ⟨enough, below⟩ := grownLen_bounds growable
    rw [sdslen, holds.len]
    generalize grownLen content.length addlen = newlen at enough below ⊢
    obtain ⟨small, remembers⟩ :=
      lt_fieldSize_grownType (lt_of_le_of_lt (Nat.le_add_right newlen 18) below)
    have bound : content.length < newlen + 1 := by omega
    have room : addlen ≤ newlen - content.length := by omega
    dsimp only
    rw [newBlock_ok below, ok_bind, List.length_replicate]
    split
    · rename_i same
      have block : (s.buf.take (newlen + 1) ++
          (List.replicate (newlen + 1) none).drop s.buf.length).length = newlen + 1 := by
        simp only [List.length_append, List.length_take, List.length_drop, List.length_replicate]
        omega
      rw [same]
      obtain ⟨grown, avail, terminator⟩ := holds.moved remembers small (by omega) bound block
      exact ⟨_, rfl, grown, room.trans_eq avail.symm, terminator⟩
    · have old := holds.inside
      have oldBlock := holds.block
      have copied : (s.buf.take (content.length + 1)).length = content.length + 1 := by
        rw [List.length_take]
        omega
      have block : (s.buf.take (content.length + 1) ++
          (List.replicate (newlen + 1) none).drop (content.length + 1)).length = newlen + 1 := by
        simp only [List.length_append, copied, List.length_drop, List.length_replicate]
        omega
      have narrowLen : content.length % (grownType newlen).fieldSize = content.length :=
        Nat.mod_eq_of_lt (by omega)
      have fits : 0 + (s.buf.take (content.length + 1)).length ≤
          (List.replicate (newlen + 1) (none : Option UInt8)).length := by
        rw [copied, List.length_replicate]
        omega
      rw [load_ok (by omega), ok_bind, List.drop_zero, store_ok fits, ok_bind, copied,
        List.take_zero, List.nil_append, Nat.zero_add, sdssetlen, narrowLen]
      obtain ⟨grown, avail, terminator⟩ :=
        holds.moved remembers small (by omega) (Nat.lt_succ_self content.length) block
      exact ⟨_, rfl, grown, room.trans_eq avail.symm, terminator⟩

end Sds

end MCRedis.Hiredis
