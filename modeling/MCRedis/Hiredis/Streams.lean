import MCRedis.Hiredis.Format
import MCRedis.Hiredis.ReaderSession

/-!
# Streams of replies

What sessions of the reader come to.  When replies are asked for until there are
none, the replies handed out are those that the parser finds in all the bytes
fed, wherever the bytes were cut; they are the replies whose encodings stand at
the front of the bytes.

As long as the buffer never holds more bytes than an `int` counts, and allocations
succeed, the reader runs into undefined behaviour in one case only: a bulk string
whose announced length overflows a `long long` when the line end is counted.
-/

namespace MCRedis.Hiredis

open MCRedis.Client
open MCRedis.Parsing
open MCRedis.Text

/-! ## Draining a reader -/

/-- How a session ends when the stream ends so. -/
def EndsAs (ending : Parser.Ending Rejection) (answers : List ReaderAnswer)
    (last : Except Fault RedisReader) : Prop :=
  match ending with
  | .starved => answers.getLast? = some .nothing ∧ ∃ r, last = .ok r
  | .rejected (.protocol message) => answers.getLast? = some .failed ∧
      ∃ r, last = .ok r ∧ r.err = redisErrProtocol ∧ r.errstr = message.take 127
  | .rejected (.fault fault) => last = .error fault

theorem EndsAs.cons {ending : Parser.Ending Rejection} {answers : List ReaderAnswer}
    {last : Except Fault RedisReader} (ends : EndsAs ending answers last) (answer : ReaderAnswer) :
    EndsAs ending (answer :: answers) last := by
  match ending with
  | .starved => exact ⟨by rw [List.getLast?_cons, ends.1]; rfl, ends.2⟩
  | .rejected (.protocol message) => exact ⟨by rw [List.getLast?_cons, ends.1]; rfl, ends.2⟩
  | .rejected (.fault fault) => exact ends

theorem EndsAs.append {ending : Parser.Ending Rejection} {answers : List ReaderAnswer}
    {last : Except Fault RedisReader} (ends : EndsAs ending answers last)
    (before : List ReaderAnswer) : EndsAs ending (before ++ answers) last := by
  induction before with
  | nil => exact ends
  | cons answer before ih => exact ih.cons answer

/-- The replies that were handed out are at the front of the stream. -/
theorem Reading.prefix {fed : Bytes} {got : List RedisReply} {r : RedisReader}
    (reading : Reading fed got r) : got <+: (replyStream fed).1 := by
  cases reading with
  | inside ready ahead =>
      have now := ahead []
      rw [List.append_nil] at now
      rw [now]
      exact List.prefix_append _ _
  | failed failed ahead =>
      have now := ahead []
      rw [List.append_nil] at now
      rw [now]

/-- Asking often enough hands out every reply that is left in the stream. -/
theorem Reading.drained {fed : Bytes} {got : List RedisReply} {r : RedisReader} {asks : Nat}
    (reading : Reading fed got r) (enough : (replyStream fed).1.length < got.length + asks) :
    ∃ new, (replyStream fed).1 = got ++ new ∧
      repliesOf (readerSession r (List.replicate asks .getReply)).1 = new.map CReply.ofRaw ∧
      EndsAs (replyStream fed).2 (readerSession r (List.replicate asks .getReply)).1
        (readerSession r (List.replicate asks .getReply)).2 := by
  induction asks generalizing got r with
  | zero => exact absurd reading.prefix.length_le (Nat.not_le.mpr enough)
  | succ asks ih =>
      have answered := reading.getReply
      rw [List.replicate_succ, readerSession]
      generalize readerCall r .getReply = result at answered
      cases answered with
      | @reply root after kept =>
          obtain ⟨new, stream, replies, ends⟩ := ih kept (by
            rw [List.length_append, List.length_singleton]
            omega)
          refine ⟨root :: new, ?_, congrArg (CReply.ofRaw root :: ·) replies, ends.cons _⟩
          rw [stream, List.append_assoc, List.singleton_append]
      | nothing kept starved =>
          cases asks with
          | zero =>
              refine ⟨[], by rw [starved, List.append_nil], rfl, ?_⟩
              rw [starved]
              exact ⟨rfl, _, rfl⟩
          | succ asks =>
              obtain ⟨new, stream, replies, ends⟩ := ih kept (by
                rw [starved]
                exact Nat.lt_add_of_pos_right asks.succ_pos)
              exact ⟨new, stream, replies, ends.cons _⟩
      | failed kept rejected err errstr =>
          cases asks with
          | zero =>
              refine ⟨[], by rw [rejected, List.append_nil], rfl, ?_⟩
              rw [rejected]
              exact ⟨rfl, _, rfl, err, errstr⟩
          | succ asks =>
              obtain ⟨new, stream, replies, ends⟩ := ih kept (by
                rw [rejected]
                exact Nat.lt_add_of_pos_right asks.succ_pos)
              exact ⟨new, stream, replies, ends.cons _⟩
      | faulted rejected =>
          have now := rejected []
          rw [List.append_nil] at now
          refine ⟨[], by rw [now, List.append_nil], rfl, ?_⟩
          rw [now]
          rfl

theorem repliesOf_append (answers more : List ReaderAnswer) :
    repliesOf (answers ++ more) = repliesOf answers ++ repliesOf more := by
  induction answers with
  | nil => rfl
  | cons answer answers ih =>
      cases answer with
      | reply rpy => exact congrArg (rpy :: ·) ih
      | fed status => exact ih
      | nothing => exact ih
      | failed => exact ih

/-- Whatever the pieces and whenever replies were asked for in between: asking
often enough in the end hands out the replies of the stream of all bytes, each
of them once and in order, and fails as the stream does. -/
theorem drained_session (calls : List ReaderCall) (asks : Nat)
    (countable : Countable (redisReaderCreate []) calls)
    (enough : (replyStream (fedBytes calls)).1.length < asks) :
    let session := readerSession (redisReaderCreate [])
      (calls ++ List.replicate asks .getReply)
    repliesOf session.1 = (replyStream (fedBytes calls)).1.map CReply.ofRaw ∧
      EndsAs (replyStream (fedBytes calls)).2 session.1 session.2 := by
  intro session
  obtain ⟨got, replies, ended⟩ := reading_redisReaderCreate.session countable
  have split : session = _ := readerSession_append (redisReaderCreate []) calls
    (List.replicate asks .getReply)
  rw [List.nil_append, List.nil_append] at ended
  cases last : (readerSession (redisReaderCreate []) calls).2 with
  | ok r =>
      rw [last] at ended split
      obtain ⟨new, stream, rest, ends⟩ := Reading.drained ended
        (Nat.lt_of_lt_of_le enough (Nat.le_add_left _ _))
      rw [split]
      refine ⟨?_, ends.append _⟩
      rw [repliesOf_append, replies, rest, stream, List.map_append]
  | error fault =>
      rw [last] at ended split
      have now := ended []
      rw [List.append_nil] at now
      rw [split, now]
      exact ⟨replies, rfl⟩

theorem length_buf_redisReaderFeed (r : RedisReader) (chunk : Bytes) :
    (redisReaderFeed r chunk).2.buf.length ≤ r.buf.length + chunk.length := by
  rw [redisReaderFeed]
  split
  · exact Nat.le_add_right _ _
  split
  · exact (List.length_append).le
  · exact Nat.le_add_right _ _

/-- Bytes that an `int` counts can be fed in any pieces. -/
theorem countable_feed {r : RedisReader} {chunks : List Bytes}
    (small : r.buf.length + chunks.flatten.length ≤ intMax) :
    Countable r (chunks.map .feed) := by
  induction chunks generalizing r with
  | nil => trivial
  | cons chunk chunks ih =>
      rw [List.flatten_cons, List.length_append] at small
      refine ⟨?_, ?_⟩
      · rintro _ ⟨⟩
        omega
      · rintro answer after called
        have fed : (redisReaderFeed r chunk).2 = after :=
          congrArg Prod.snd (Except.ok.inj called)
        have grown := length_buf_redisReaderFeed r chunk
        rw [fed] at grown
        exact ih (by omega)

/-- A status reply that arrives in two pieces. -/
theorem drained_session_pieces :
    repliesOf (readerSession (redisReaderCreate [])
      ([.feed (literal "+O"), .feed (literal "K\r\n")] ++ List.replicate 2 .getReply)).1 =
      [CReply.ofRaw (.status (literal "OK"))] :=
  (drained_session _ 2 (@countable_feed _ [literal "+O", literal "K\r\n"] (by decide))
    (by decide)).1

/-- A drained session hands out the only replies whose encodings, one after the
other, are in front of bytes that no reply begins. -/
theorem drained_session_decodes (calls : List ReaderCall) (asks : Nat)
    (countable : Countable (redisReaderCreate []) calls)
    (enough : (fedBytes calls).length < asks) :
    ∃ replies, repliesOf (readerSession (redisReaderCreate [])
        (calls ++ List.replicate asks .getReply)).1 = replies.map CReply.ofRaw ∧
      ∀ others, others = replies ↔ ∃ parts rest, List.Forall₂ (Encodes levelsMax) others parts ∧
        fedBytes calls = parts.flatten ++ rest ∧
          ∀ reply used, Encodes levelsMax reply used → ¬ used <+: rest := by
  have exact := exact_reply levelsMax
  have progress := progress_reply levelsMax
  have fewer := Parser.length_stream_le progress (fedBytes calls)
  refine ⟨(replyStream (fedBytes calls)).1,
    (drained_session calls asks countable (Nat.lt_of_le_of_lt fewer enough)).1, fun others => ?_⟩
  constructor
  · rintro rfl
    obtain ⟨parts, rest, encoded, split, ended⟩ := exact.exists_flatten progress (fedBytes calls)
    refine ⟨parts, rest, encoded, split, ?_⟩
    apply (exact.stream_eq_nil_iff progress rest).mp
    rw [ended]
  · rintro ⟨parts, rest, encoded, split, unwritten⟩
    rw [replyStream, split, exact.stream_flatten progress encoded,
      (exact.stream_eq_nil_iff progress rest).mpr unwritten, List.append_nil]

theorem drained_session_decodes_pieces :
    ∃ replies, repliesOf (readerSession (redisReaderCreate [])
        ([.feed (literal "+O"), .feed (literal "K\r\n")] ++ List.replicate 6 .getReply)).1 =
          replies.map CReply.ofRaw ∧
      ∀ others, others = replies ↔ ∃ parts rest, List.Forall₂ (Encodes levelsMax) others parts ∧
        literal "+OK\r\n" = parts.flatten ++ rest ∧
          ∀ reply used, Encodes levelsMax reply used → ¬ used <+: rest :=
  drained_session_decodes _ 6 (@countable_feed _ [literal "+O", literal "K\r\n"] (by decide))
    (by decide)

/-! ## Faults -/

/-- The header of a bulk string whose length does not leave room for a line end in
a `long long`. -/
def LargeHeader (header : Bytes) : Prop :=
  ∃ len : Int, llongMax - 2 < len ∧ len ≤ llongMax ∧ header = 0x24 :: decimal len ++ crlf

/-- What a rejection says of the bytes: a fault has met a large header. -/
def Offends (rejection : Rejection) (input : Bytes) : Prop :=
  match rejection with
  | .protocol _ => True
  | .fault fault => fault = .undefined .signedOverflow ∧ ∃ header, LargeHeader header ∧
      header <:+: input

theorem Offends.behind {rejection : Rejection} {rest input : Bytes} (suffix : rest <:+ input)
    (offends : Offends rejection rest) : Offends rejection input := by
  cases rejection with
  | protocol message => trivial
  | fault fault =>
      obtain ⟨overflow, header, large, inside⟩ := offends
      exact ⟨overflow, header, large, inside.trans suffix.isInfix⟩

theorem blames_typeByte : Parser.Blames typeByte Offends where
  bad := by
    intro input error parsed
    cases input with
    | nil => contradiction
    | cons byte input =>
        rw [typeByte] at parsed
        split at parsed
        · contradiction
        · cases parsed
          trivial
  suffix := exact_typeByte.suffix

theorem blames_line : Parser.Blames line Offends where
  bad := by
    intro input error parsed
    rw [line] at parsed
    split at parsed <;> contradiction
  suffix := exact_line.suffix

theorem eq_of_number_bad {message input : Bytes} {error : Rejection}
    (parsed : number message input = .bad error) : error = .protocol message := by
  cases cut : cutLine input with
  | none =>
      rw [number_more cut] at parsed
      cases parsed
  | some found =>
      cases read : string2ll found.1 with
      | none =>
          have rejected := @number_bad _ _ _ message cut read []
          rw [List.append_nil, parsed] at rejected
          cases rejected
          rfl
      | some value =>
          have done := @number_done _ _ _ _ message cut read []
          rw [List.append_nil, parsed] at done
          contradiction

theorem blames_number (message : Bytes) : Parser.Blames (number message) Offends where
  bad := by
    intro input error parsed
    rw [eq_of_number_bad parsed]
    trivial
  suffix := (exact_number message).suffix

theorem blames_multiBulkItem {element : WireParser RedisReply}
    (blames : Parser.Blames element Offends) :
    Parser.Blames (multiBulkItem element) Offends := by
  refine (blames_number _).bind (fun elements => ?_) Offends.behind
  split
  · exact .fail fun _ => trivial
  split
  · exact .pure _
  · exact (blames.times Offends.behind _).bind (fun replies => .pure _) Offends.behind

/-- A bulk string is rejected with a fault when its length is too large. -/
theorem bulkItem_fault {input : Bytes} {fault : Fault}
    (parsed : bulkItem input = .bad (.fault fault)) :
    fault = .undefined .signedOverflow ∧
      ∃ len : Int, llongMax - 2 < len ∧ len ≤ llongMax ∧ decimal len ++ crlf <+: input := by
  rw [bulkItem, Parser.bind_apply] at parsed
  cases counted : number (literal "Bad bulk string length") input with
  | done len rest =>
      obtain ⟨used, ⟨small, rfl⟩, rfl⟩ := (exact_number _ _ _ _).mp counted
      rw [counted, Parsed.bind] at parsed
      split at parsed
      · cases parsed
      split at parsed
      · cases parsed
      split at parsed
      case isTrue large =>
        cases parsed
        exact ⟨rfl, len, by omega, small.2, List.prefix_append _ _⟩
      case isFalse =>
        rw [Parser.bind_apply, bytes] at parsed
        split at parsed <;> cases parsed
  | more =>
      rw [counted] at parsed
      cases parsed
  | bad error =>
      rw [counted, eq_of_number_bad counted] at parsed
      cases parsed

theorem blames_item (depth : Nat) (type : ReplyType) (other : type ≠ .string) (known : type ≠ .nil)
    (element : ∀ shallow, depth = shallow + 1 → Parser.Blames (anyReply shallow) Offends) :
    Parser.Blames (item depth type) Offends := by
  cases type with
  | status =>
      rw [item_status]
      exact blames_line.bind (fun text => .pure _) Offends.behind
  | error =>
      rw [item_error]
      exact blames_line.bind (fun text => .pure _) Offends.behind
  | integer =>
      rw [item_integer]
      exact (blames_number _).bind (fun value => .pure _) Offends.behind
  | array =>
      cases depth with
      | zero => exact .fail fun _ => trivial
      | succ depth => exact blames_multiBulkItem (element depth rfl)
  | string => exact absurd rfl other
  | nil => exact absurd rfl known

theorem bad_of_elements {depth : Nat}
    (element : ∀ shallow, depth = shallow + 1 → Parser.Blames (anyReply shallow) Offends)
    {input : Bytes} {error : Rejection} (parsed : anyReply depth input = .bad error) :
    Offends error input := by
  rw [anyReply, Parser.bind_apply] at parsed
  cases announced : typeByte input with
  | done type rest =>
      rw [announced] at parsed
      obtain ⟨_, ⟨byte, known, rfl⟩, rfl⟩ := (exact_typeByte _ _ _).mp announced
      have known := typeOfByte_eq_some_iff.mp known
      by_cases string : type = .string
      case pos =>
        subst string
        rw [Parsed.bind, item_string] at parsed
        cases error with
        | protocol message => trivial
        | fault fault =>
            obtain ⟨overflow, len, large, small, rest, rfl⟩ := bulkItem_fault parsed
            refine ⟨overflow, _, ⟨len, large, small, rfl⟩, ?_⟩
            rw [known]
            exact ⟨[], rest, by simp⟩
      case neg =>
        have blames := blames_item depth type string (by rintro rfl; exact known) element
        exact (blames.bad parsed).behind (List.suffix_append _ _)
  | more =>
      rw [announced] at parsed
      cases parsed
  | bad other =>
      rw [announced] at parsed
      cases parsed
      exact blames_typeByte.bad announced

/-- A reply is rejected with a fault for a large header only. -/
theorem blames_reply (depth : Nat) : Parser.Blames (anyReply depth) Offends where
  bad := by
    induction depth with
    | zero => exact bad_of_elements fun shallow deeper => absurd deeper (Nat.succ_ne_zero _).symm
    | succ depth ih =>
        refine bad_of_elements fun shallow deeper => ?_
        cases deeper
        exact ⟨ih, (exact_reply depth).suffix⟩
  suffix := (exact_reply depth).suffix

/-! ## Memory -/

/-- The reader stays inside its buffer and its stack, keeps no object between two
replies, and can be freed without leaving one. -/
structure SafeReader (r : RedisReader) : Prop where
  pos : r.pos ≤ r.len
  len : r.len = r.buf.length
  rstack : r.rstack.length ≤ stackSize
  idle : r.rstack = [] → ∃ count, r.objects = List.replicate count none
  freed : ∃ count, redisReaderFree r = .ok (List.replicate count none)

theorem Holds.freed {r : RedisReader} {count : Nat} {levels : List Level}
    {pending : Option ReplyType} (holds : Holds r (List.replicate count none) levels pending) :
    ∃ count, redisReaderFree r = .ok (List.replicate count none) := by
  by_cases root : levels = []
  · rw [redisReaderFree, holds.reply, if_pos root]
    subst root
    exact ⟨count, congrArg _ (holds.objects.trans (List.append_nil _))⟩
  · rw [redisReaderFree, holds.reply, if_neg root]
    simp only [freeReplyObject, holds.objects]
    rw [freeReplyObjectFor_frames _ _ _ root (by
      rw [List.length_append, List.length_map]
      exact Nat.le_add_left _ _), List.replicate_append_replicate]
    exact ⟨_, rfl⟩

theorem redisReaderFree_startRoot (r : RedisReader) :
    redisReaderFree (startRoot r) = redisReaderFree r := by
  rw [startRoot]
  split <;> rfl

theorem Ready.safe {r : RedisReader} {count : Nat} {levels : List Level}
    {pending : Option ReplyType} (ready : Ready r (List.replicate count none) levels pending) :
    SafeReader r := by
  have buffered := ready.buffered
  have holds := ready.holds
  have freed := holds.freed
  rw [redisReaderFree_startRoot] at freed
  obtain ⟨top, rstack, -⟩ := holds.rstack
  have small : (startRoot r).rstack.length ≤ stackSize := by
    rw [rstack, List.length_cons, length_arrayTasks]
    exact Nat.succ_le_succ holds.depth
  by_cases idle : r.rstack = []
  · rw [startRoot, if_pos idle] at holds rstack
    have none_ : levels = [] := by
      cases levels with
      | nil => rfl
      | cons level levels => simp [arrayTasks] at rstack
    subst none_
    refine ⟨buffered.len ▸ buffered.pos, buffered.len, ?_, fun _ => ⟨count, ?_⟩, freed⟩
    · rw [idle]
      exact Nat.zero_le _
    · exact holds.objects.trans (List.append_nil _)
  · rw [startRoot_of_ne idle] at small
    exact ⟨buffered.len ▸ buffered.pos, buffered.len, small, fun empty => absurd empty idle, freed⟩

theorem Reading.safe {fed : Bytes} {got : List RedisReply} {r : RedisReader}
    (reading : Reading fed got r) : SafeReader r := by
  cases reading with
  | inside ready => exact ready.safe
  | @failed freed message failed =>
      obtain ⟨count, objects⟩ := failed.objects
      rw [List.replicate_append_replicate] at objects
      refine ⟨?_, ?_, ?_, fun _ => ⟨_, objects⟩, freed + count, ?_⟩
      · rw [failed.pos]
        exact Nat.zero_le _
      · rw [failed.len, failed.buf]
        rfl
      · rw [failed.rstack]
        exact Nat.zero_le _
      · rw [redisReaderFree, failed.reply, objects]
        rfl

/-- As long as no large header is fed, no session faults: no access is out of
bounds, no assertion fails, no object is freed twice or lost. -/
theorem readerSession_safe (calls : List ReaderCall)
    (countable : Countable (redisReaderCreate []) calls)
    (plain : ∀ header, LargeHeader header → ¬ header <:+: fedBytes calls) :
    ∃ r, (readerSession (redisReaderCreate []) calls).2 = .ok r ∧ SafeReader r := by
  obtain ⟨got, -, ended⟩ := reading_redisReaderCreate.session countable
  rw [List.nil_append] at ended
  cases last : (readerSession (redisReaderCreate []) calls).2 with
  | ok r =>
      rw [last] at ended
      exact ⟨r, rfl, Reading.safe ended⟩
  | error fault =>
      rw [last] at ended
      have rejected := ended []
      rw [List.append_nil] at rejected
      have offends : Offends (.fault fault) (fedBytes calls) :=
        (blames_reply levelsMax).stream (progress_reply levelsMax) Offends.behind
          (congrArg Prod.snd rejected)
      obtain ⟨-, header, large, inside⟩ := offends
      exact absurd inside (plain header large)

/-- Bytes without a dollar sign hold no header of a bulk string. -/
theorem readerSession_safe_pieces :
    ∃ r, (readerSession (redisReaderCreate [])
      [.feed (literal "+O"), .feed (literal "K\r\n")]).2 = .ok r ∧ SafeReader r := by
  refine readerSession_safe _
    (@countable_feed _ [literal "+O", literal "K\r\n"] (by decide)) ?_
  rintro header ⟨len, -, -, rfl⟩ inside
  have dollar : (0x24 : UInt8) ∈ literal "+OK\r\n" := inside.subset List.mem_cons_self
  exact absurd dollar (by decide)

end MCRedis.Hiredis
