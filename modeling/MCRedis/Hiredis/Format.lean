import MCRedis.Hiredis.Grammar

/-!
# The format of replies

The bytes that write a reply.  The parser of replies is exact for them: every
reply it gives was written in the format, and every reply in the format is read.

The format is not strict in two places: nothing is asked of the two bytes after a
bulk string, and there are two ways to write nil.  Arrays are nested in at most
eight levels.
-/

namespace MCRedis.Hiredis

open MCRedis.Client
open MCRedis.Parsing
open MCRedis.Text

/-- A text that holds no line end. -/
def Unbroken (text : Bytes) : Prop :=
  ¬ crlf <:+: text

instance (text : Bytes) : Decidable (Unbroken text) :=
  inferInstanceAs (Decidable (¬ _))

/-- The bytes that write a reply, with arrays nested in at most `depth` levels. -/
def Encodes : Nat → RedisReply → Bytes → Prop
  | _, .status text, used => Unbroken text ∧ used = 0x2b :: text ++ crlf
  | _, .error text, used => Unbroken text ∧ used = 0x2d :: text ++ crlf
  | _, .integer value, used => IsLongLong value ∧ used = 0x3a :: decimal value ++ crlf
  | _, .string body, used =>
      body.length + 2 ≤ llongMax ∧ ∃ tail : Bytes, tail.length = 2 ∧
        used = 0x24 :: decimal body.length ++ crlf ++ body ++ tail
  | depth, .nil, used =>
      used = 0x24 :: decimal (-1) ++ crlf ∨ 0 < depth ∧ used = 0x2a :: decimal (-1) ++ crlf
  | 0, .array _, _ => False
  | depth + 1, .array elements, used =>
      elements.length ≤ intMax ∧ ∃ parts, List.Forall₂ (Encodes depth) elements parts ∧
        used = 0x2a :: decimal elements.length ++ crlf ++ parts.flatten

theorem unbroken_cons_iff {first second : UInt8} {text : Bytes} :
    Unbroken (first :: second :: text) ↔
      ¬ (first = 0x0d ∧ second = 0x0a) ∧ Unbroken (second :: text) := by
  rw [Unbroken, Unbroken, List.infix_cons_iff, not_or]
  apply and_congr_left'
  rw [crlf, List.cons_prefix_cons, List.cons_prefix_cons]
  constructor
  · rintro apart ⟨rfl, rfl⟩
    exact apart ⟨rfl, rfl, List.nil_prefix⟩
  · rintro apart ⟨rfl, rfl, -⟩
    exact apart ⟨rfl, rfl⟩

theorem unbroken_nil : Unbroken [] := by
  decide

theorem unbroken_singleton (c : UInt8) : Unbroken [c] := by
  intro inside
  have := inside.length_le
  simp [crlf] at this

theorem cutLine_eq_some_iff {input text rest : Bytes} :
    cutLine input = some (text, rest) ↔ Unbroken text ∧ input = text ++ crlf ++ rest := by
  induction input generalizing text with
  | nil =>
      constructor
      · rintro ⟨⟩
      · rintro ⟨-, equal⟩
        have := congrArg List.length equal
        simp [crlf] at this
  | cons first input ih =>
      cases input with
      | nil =>
          constructor
          · rintro ⟨⟩
          · rintro ⟨-, equal⟩
            have := congrArg List.length equal
            simp [crlf] at this
            omega
      | cons second input =>
          rw [cutLine]
          split
          case isTrue ended =>
            obtain ⟨rfl, rfl⟩ := ended
            constructor
            · rintro ⟨⟩
              exact ⟨unbroken_nil, rfl⟩
            · rintro ⟨unbroken, equal⟩
              cases text with
              | nil =>
                  cases equal
                  rfl
              | cons c text =>
                  cases text with
                  | nil => simp [crlf] at equal
                  | cons d text =>
                      simp only [List.cons_append, List.cons.injEq] at equal
                      obtain ⟨rfl, rfl, -⟩ := equal
                      exact absurd ⟨rfl, rfl⟩ (unbroken_cons_iff.mp unbroken).1
          case isFalse open_ =>
            rw [Option.map_eq_some_iff]
            constructor
            · rintro ⟨⟨inner, innerRest⟩, innerCut, equal⟩
              cases equal
              obtain ⟨unbroken, equal⟩ := ih.mp innerCut
              refine ⟨?_, by rw [equal]; rfl⟩
              cases inner with
              | nil => exact unbroken_singleton first
              | cons c inner =>
                  obtain ⟨rfl, -⟩ := List.cons.inj equal
                  exact unbroken_cons_iff.mpr ⟨open_, unbroken⟩
            · rintro ⟨unbroken, equal⟩
              cases text with
              | nil =>
                  simp only [crlf, List.cons_append, List.nil_append, List.cons.injEq] at equal
                  exact absurd ⟨equal.1, equal.2.1⟩ open_
              | cons c inner =>
                  obtain ⟨rfl, others⟩ := List.cons.inj equal
                  refine ⟨(inner, rest), ih.mpr ⟨?_, others⟩, rfl⟩
                  cases inner with
                  | nil => exact unbroken_nil
                  | cons d inner => exact (unbroken_cons_iff.mp unbroken).2

theorem exact_line :
    Parser.Exact line fun text used => Unbroken text ∧ used = text ++ crlf := by
  intro input text rest
  have cutIff := @cutLine_eq_some_iff input text rest
  have lineIff : line input = .done text rest ↔ cutLine input = some (text, rest) := by
    rw [line]
    cases cutLine input with
    | none => simp
    | some cut => simp [Prod.ext_iff]
  rw [lineIff, cutIff]
  constructor
  · rintro ⟨unbroken, equal⟩
    exact ⟨text ++ crlf, ⟨unbroken, rfl⟩, equal⟩
  · rintro ⟨used, ⟨unbroken, rfl⟩, equal⟩
    exact ⟨unbroken, equal⟩

theorem exact_bytes (count : Nat) :
    Parser.Exact (bytes count) fun body used => used.length = count ∧ body = used := by
  intro input body rest
  rw [bytes]
  split
  case isTrue enough =>
    constructor
    · rintro ⟨⟩
      exact ⟨input.take count, ⟨List.length_take_of_le enough, rfl⟩,
        (List.take_append_drop count input).symm⟩
    · rintro ⟨used, ⟨counted, rfl⟩, rfl⟩
      rw [← counted, List.take_left, List.drop_left]
  case isFalse short =>
    constructor
    · rintro ⟨⟩
    · rintro ⟨used, ⟨counted, rfl⟩, rfl⟩
      rw [List.length_append] at short
      omega

/-- The decimal text of an integer holds no line end. -/
theorem unbroken_decimal (value : Int) : Unbroken (decimal value) := by
  have digits : ∀ n c, c ∈ decimalNat n → c ≠ 0x0d := by
    intro n c member
    have each : ∀ d : Fin 10, digitChar d ≠ 0x0d := by decide
    rw [decimalNat] at member
    split at member
    · rw [List.mem_singleton.mp member]
      decide
    · obtain ⟨digit, listed, rfl⟩ := List.mem_map.mp member
      exact each ⟨digit, Nat.digits_lt_base (by decide) (List.mem_reverse.mp listed)⟩
  have all : ∀ c ∈ decimal value, c ≠ 0x0d := by
    cases value with
    | ofNat n => exact digits n
    | negSucc n => exact List.forall_mem_cons.mpr ⟨by decide, digits (n + 1)⟩
  intro inside
  exact all 0x0d (inside.subset (List.mem_cons_self)) rfl

theorem exact_number (message : Bytes) :
    Parser.Exact (number message) fun value used =>
      IsLongLong value ∧ used = decimal value ++ crlf := by
  have parsed : Parser.Exact (number message) _ := exact_line.bind fun text =>
    (show Parser.Exact _ fun value used => string2ll text = some value ∧ used = [] by
      cases read : string2ll text with
      | none =>
          refine (Parser.Exact.fail _).congr fun value used => ?_
          simp
      | some other =>
          refine (Parser.Exact.pure other).congr fun value used => ?_
          simp [eq_comm])
  refine parsed.congr fun value used => ?_
  constructor
  · rintro ⟨text, _, _, ⟨-, rfl⟩, ⟨read, rfl⟩, rfl⟩
    obtain ⟨rfl, fits⟩ := eq_decimal_of_string2ll read
    exact ⟨fits, List.append_nil _⟩
  · rintro ⟨fits, rfl⟩
    exact ⟨decimal value, decimal value ++ crlf, [], ⟨unbroken_decimal value, rfl⟩,
      ⟨string2ll_decimal fits, rfl⟩, (List.append_nil _).symm⟩

theorem exact_bulkItem :
    Parser.Exact bulkItem fun reply used =>
      (∃ body tail : Bytes, reply = .string body ∧ body.length + 2 ≤ llongMax ∧ tail.length = 2 ∧
        used = decimal body.length ++ crlf ++ body ++ tail) ∨
      reply = .nil ∧ used = decimal (-1) ++ crlf := by
  refine (exact_number _ |>.bind fun len =>
    (show Parser.Exact _ fun reply used =>
        len = -1 ∧ reply = .nil ∧ used = [] ∨
        0 ≤ len ∧ len + 2 ≤ llongMax ∧ used.length = len.toNat + 2 ∧
          reply = .string (used.take len.toNat) by
      split
      case isTrue below =>
        refine (Parser.Exact.fail _).congr fun reply used => ?_
        constructor
        · exact False.elim
        · rintro (⟨rfl, -⟩ | ⟨positive, -⟩) <;> omega
      split
      case isTrue minus =>
        subst minus
        refine (Parser.Exact.pure _).congr fun reply used => ?_
        constructor
        · exact fun holds => .inl ⟨rfl, holds⟩
        · rintro (⟨-, holds⟩ | ⟨positive, -⟩)
          · exact holds
          · omega
      split
      case isTrue large =>
        refine (Parser.Exact.fail _).congr fun reply used => ?_
        constructor
        · exact False.elim
        · rintro (⟨rfl, -⟩ | ⟨-, small, -⟩) <;> omega
      case isFalse low notMinus small =>
        refine ((exact_bytes _).bind fun body => Parser.Exact.pure _).congr fun reply used => ?_
        constructor
        · rintro ⟨_, front, _, ⟨counted, rfl⟩, ⟨rfl, rfl⟩, rfl⟩
          rw [List.append_nil]
          exact .inr ⟨by omega, by omega, counted, rfl⟩
        · rintro (⟨minus, -⟩ | ⟨-, -, counted, rfl⟩)
          · exact absurd minus notMinus
          · exact ⟨used, used, [], ⟨counted, rfl⟩, ⟨rfl, rfl⟩, (List.append_nil _).symm⟩)).congr
      fun reply used => ?_
  constructor
  · rintro ⟨len, _, back, ⟨-, rfl⟩, ⟨rfl, rfl, rfl⟩ | ⟨positive, small, counted, rfl⟩, rfl⟩
    · exact .inr ⟨rfl, List.append_nil _⟩
    · obtain ⟨n, rfl⟩ := Int.eq_ofNat_of_zero_le positive
      rw [Int.toNat_natCast] at counted ⊢
      have taken : (back.take n).length = n := List.length_take_of_le (by omega)
      refine .inl ⟨back.take n, back.drop n, rfl, by omega, by rw [List.length_drop]; omega, ?_⟩
      rw [taken, List.append_assoc _ (back.take n), List.take_append_drop]
  · rintro (⟨body, tail, rfl, small, counted, rfl⟩ | ⟨rfl, rfl⟩)
    · refine ⟨body.length, _, body ++ tail, ⟨?_, rfl⟩, .inr ⟨by omega, by omega, ?_, ?_⟩, ?_⟩
      · rw [IsLongLong]
        omega
      · rw [List.length_append, counted, Int.toNat_natCast]
      · rw [Int.toNat_natCast, List.take_left]
      · simp only [List.append_assoc]
    · exact ⟨-1, _, [], ⟨by decide, rfl⟩, .inl ⟨rfl, rfl, rfl⟩, (List.append_nil _).symm⟩

theorem exact_multiBulkItem {element : WireParser RedisReply} {Element : RedisReply → Bytes → Prop}
    (exact : Parser.Exact element Element) :
    Parser.Exact (multiBulkItem element) fun reply used =>
      (∃ elements parts, reply = .array elements ∧ elements.length ≤ intMax ∧
        List.Forall₂ Element elements parts ∧
          used = decimal elements.length ++ crlf ++ parts.flatten) ∨
      reply = .nil ∧ used = decimal (-1) ++ crlf := by
  refine (exact_number _ |>.bind fun count =>
    (show Parser.Exact _ fun reply used =>
        count = -1 ∧ reply = .nil ∧ used = [] ∨
        0 ≤ count ∧ count ≤ intMax ∧ ∃ elements parts, reply = .array elements ∧
          elements.length = count.toNat ∧ List.Forall₂ Element elements parts ∧
            used = parts.flatten by
      split
      case isTrue outside =>
        refine (Parser.Exact.fail _).congr fun reply used => ?_
        constructor
        · exact False.elim
        · rintro (⟨rfl, -⟩ | ⟨positive, small, -⟩) <;> omega
      split
      case isTrue minus =>
        subst minus
        refine (Parser.Exact.pure _).congr fun reply used => ?_
        constructor
        · exact fun holds => .inl ⟨rfl, holds⟩
        · rintro (⟨-, holds⟩ | ⟨positive, -⟩)
          · exact holds
          · omega
      case isFalse inside notMinus =>
        refine ((exact.times _).bind fun replies => Parser.Exact.pure _).congr fun reply used => ?_
        constructor
        · rintro ⟨elements, _, _, ⟨counted, parts, written, rfl⟩, ⟨rfl, rfl⟩, rfl⟩
          exact .inr ⟨by omega, by omega, elements, parts, rfl, counted, written,
            List.append_nil _⟩
        · rintro (⟨minus, -⟩ | ⟨-, -, elements, parts, rfl, counted, written, rfl⟩)
          · exact absurd minus notMinus
          · exact ⟨elements, parts.flatten, [], ⟨counted, parts, written, rfl⟩, ⟨rfl, rfl⟩,
              (List.append_nil _).symm⟩)).congr fun reply used => ?_
  constructor
  · rintro ⟨count, _, back, ⟨-, rfl⟩,
      ⟨rfl, rfl, rfl⟩ | ⟨positive, small, elements, parts, rfl, counted, written, rfl⟩, rfl⟩
    · exact .inr ⟨rfl, List.append_nil _⟩
    · obtain ⟨n, rfl⟩ := Int.eq_ofNat_of_zero_le positive
      rw [Int.toNat_natCast] at counted
      exact .inl ⟨elements, parts, rfl, by omega, written, by rw [counted]⟩
  · rintro (⟨elements, parts, rfl, small, written, rfl⟩ | ⟨rfl, rfl⟩)
    · refine ⟨elements.length, _, parts.flatten, ⟨?_, rfl⟩,
        .inr ⟨by omega, by omega, elements, parts, rfl, (Int.toNat_natCast _).symm, written, rfl⟩,
        rfl⟩
      rw [intMax] at small
      rw [IsLongLong, llongMax]
      omega
    · exact ⟨-1, _, [], ⟨by decide, rfl⟩, .inl ⟨rfl, rfl, rfl⟩, (List.append_nil _).symm⟩

theorem typeOfByte_eq_some_iff {byte : UInt8} {type : ReplyType} :
    typeOfByte byte = some type ↔
      match type with
      | .error => byte = 0x2d
      | .status => byte = 0x2b
      | .integer => byte = 0x3a
      | .string => byte = 0x24
      | .array => byte = 0x2a
      | .nil => False := by
  rw [typeOfByte]
  constructor
  · intro known
    split at known
    · cases known
      assumption
    split at known
    · cases known
      assumption
    split at known
    · cases known
      assumption
    split at known
    · cases known
      assumption
    split at known
    · cases known
      assumption
    · contradiction
  · cases type with
    | nil => exact False.elim
    | _ =>
        rintro rfl
        rfl

theorem exact_typeByte :
    Parser.Exact typeByte fun type used => ∃ byte, typeOfByte byte = some type ∧ used = [byte] := by
  intro input type rest
  cases input with
  | nil =>
      constructor
      · rintro ⟨⟩
      · rintro ⟨used, ⟨byte, -, rfl⟩, equal⟩
        contradiction
  | cons byte input =>
      rw [typeByte]
      constructor
      · intro parsed
        cases known : typeOfByte byte with
        | none =>
            rw [known] at parsed
            contradiction
        | some other =>
            rw [known] at parsed
            cases parsed
            exact ⟨[byte], ⟨byte, known, rfl⟩, rfl⟩
      · rintro ⟨used, ⟨other, known, rfl⟩, equal⟩
        cases equal
        rw [known]
        rfl

/-- The bytes of a reply without those of its type. -/
theorem exact_line_item (construct : Bytes → RedisReply) :
    Parser.Exact (line >>= fun text => (pure (construct text) : WireParser RedisReply))
      fun reply used => ∃ text, reply = construct text ∧ Unbroken text ∧ used = text ++ crlf := by
  refine (exact_line.bind fun text => Parser.Exact.pure _).congr fun reply used => ?_
  constructor
  · rintro ⟨text, _, _, ⟨unbroken, rfl⟩, ⟨rfl, rfl⟩, rfl⟩
    exact ⟨text, rfl, unbroken, List.append_nil _⟩
  · rintro ⟨text, rfl, unbroken, rfl⟩
    exact ⟨text, _, [], ⟨unbroken, rfl⟩, ⟨rfl, rfl⟩, (List.append_nil _).symm⟩

theorem exact_integer_item :
    Parser.Exact (number (literal "Bad integer value") >>= fun value =>
      (pure (.integer value) : WireParser RedisReply)) fun reply used =>
        ∃ value, reply = .integer value ∧ IsLongLong value ∧ used = decimal value ++ crlf := by
  refine ((exact_number _).bind fun value => Parser.Exact.pure _).congr fun reply used => ?_
  constructor
  · rintro ⟨value, _, _, ⟨fits, rfl⟩, ⟨rfl, rfl⟩, rfl⟩
    exact ⟨value, rfl, fits, List.append_nil _⟩
  · rintro ⟨value, rfl, fits, rfl⟩
    exact ⟨value, _, [], ⟨fits, rfl⟩, ⟨rfl, rfl⟩, (List.append_nil _).symm⟩

/-- The first byte of a reply is a type byte. -/
theorem Encodes.typeByte {depth : Nat} {reply : RedisReply} {used : Bytes}
    (written : Encodes depth reply used) :
    ∃ byte type rest, typeOfByte byte = some type ∧ used = byte :: rest := by
  cases reply with
  | status text =>
      cases depth <;> exact ⟨0x2b, .status, _, rfl, written.2⟩
  | error text =>
      cases depth <;> exact ⟨0x2d, .error, _, rfl, written.2⟩
  | integer value =>
      cases depth <;> exact ⟨0x3a, .integer, _, rfl, written.2⟩
  | string body =>
      cases depth with
      | zero =>
          obtain ⟨-, tail, -, rfl⟩ := written
          exact ⟨0x24, .string, _, rfl, rfl⟩
      | succ depth =>
          obtain ⟨-, tail, -, rfl⟩ := written
          exact ⟨0x24, .string, _, rfl, rfl⟩
  | nil =>
      cases depth with
      | zero =>
          obtain rfl | ⟨-, rfl⟩ := written
          · exact ⟨0x24, .string, _, rfl, rfl⟩
          · exact ⟨0x2a, .array, _, rfl, rfl⟩
      | succ depth =>
          obtain rfl | ⟨-, rfl⟩ := written
          · exact ⟨0x24, .string, _, rfl, rfl⟩
          · exact ⟨0x2a, .array, _, rfl, rfl⟩
  | array elements =>
      cases depth with
      | zero => exact written.elim
      | succ depth =>
          obtain ⟨-, parts, -, rfl⟩ := written
          exact ⟨0x2a, .array, _, rfl, rfl⟩

/-- What follows the type byte in the bytes of a reply. -/
def EncodesItem (depth : Nat) (type : ReplyType) (reply : RedisReply) (used : Bytes) : Prop :=
  ∃ byte, typeOfByte byte = some type ∧ Encodes depth reply (byte :: used)

theorem encodesItem_status (depth : Nat) (reply : RedisReply) (used : Bytes) :
    EncodesItem depth .status reply used ↔
      ∃ text, reply = .status text ∧ Unbroken text ∧ used = text ++ crlf := by
  constructor
  · rintro ⟨byte, known, written⟩
    obtain rfl := typeOfByte_eq_some_iff.mp known
    cases reply <;> cases depth <;> simp_all [Encodes]
  · rintro ⟨text, rfl, unbroken, rfl⟩
    exact ⟨0x2b, rfl, by cases depth <;> exact ⟨unbroken, rfl⟩⟩

theorem encodesItem_error (depth : Nat) (reply : RedisReply) (used : Bytes) :
    EncodesItem depth .error reply used ↔
      ∃ text, reply = .error text ∧ Unbroken text ∧ used = text ++ crlf := by
  constructor
  · rintro ⟨byte, known, written⟩
    obtain rfl := typeOfByte_eq_some_iff.mp known
    cases reply <;> cases depth <;> simp_all [Encodes]
  · rintro ⟨text, rfl, unbroken, rfl⟩
    exact ⟨0x2d, rfl, by cases depth <;> exact ⟨unbroken, rfl⟩⟩

theorem encodesItem_integer (depth : Nat) (reply : RedisReply) (used : Bytes) :
    EncodesItem depth .integer reply used ↔
      ∃ value, reply = .integer value ∧ IsLongLong value ∧ used = decimal value ++ crlf := by
  constructor
  · rintro ⟨byte, known, written⟩
    obtain rfl := typeOfByte_eq_some_iff.mp known
    cases reply <;> cases depth <;> simp_all [Encodes]
  · rintro ⟨value, rfl, fits, rfl⟩
    exact ⟨0x3a, rfl, by cases depth <;> exact ⟨fits, rfl⟩⟩

theorem encodesItem_string (depth : Nat) (reply : RedisReply) (used : Bytes) :
    EncodesItem depth .string reply used ↔
      (∃ body tail : Bytes, reply = .string body ∧ body.length + 2 ≤ llongMax ∧ tail.length = 2 ∧
        used = decimal body.length ++ crlf ++ body ++ tail) ∨
      reply = .nil ∧ used = decimal (-1) ++ crlf := by
  constructor
  · rintro ⟨byte, known, written⟩
    obtain rfl := typeOfByte_eq_some_iff.mp known
    cases reply <;> cases depth <;> simp_all [Encodes]
  · rintro (⟨body, tail, rfl, small, counted, rfl⟩ | ⟨rfl, rfl⟩)
    · exact ⟨0x24, rfl, by cases depth <;> exact ⟨small, tail, counted, rfl⟩⟩
    · exact ⟨0x24, rfl, by cases depth <;> exact .inl rfl⟩

theorem encodesItem_array (depth : Nat) (reply : RedisReply) (used : Bytes) :
    EncodesItem (depth + 1) .array reply used ↔
      (∃ elements parts, reply = .array elements ∧ elements.length ≤ intMax ∧
        List.Forall₂ (Encodes depth) elements parts ∧
          used = decimal elements.length ++ crlf ++ parts.flatten) ∨
      reply = .nil ∧ used = decimal (-1) ++ crlf := by
  constructor
  · rintro ⟨byte, known, written⟩
    obtain rfl := typeOfByte_eq_some_iff.mp known
    cases reply <;> simp_all [Encodes]
  · rintro (⟨elements, parts, rfl, small, written, rfl⟩ | ⟨rfl, rfl⟩)
    · exact ⟨0x2a, rfl, small, parts, written, rfl⟩
    · exact ⟨0x2a, rfl, .inr ⟨Nat.succ_pos depth, rfl⟩⟩

/-- No item of an array fits below the last level. -/
theorem not_encodesItem_array_zero (reply : RedisReply) (used : Bytes) :
    ¬ EncodesItem 0 .array reply used := by
  rintro ⟨byte, known, written⟩
  obtain rfl := typeOfByte_eq_some_iff.mp known
  cases reply <;> simp_all [Encodes]

/-- An exact parser for the items gives one for the replies. -/
theorem exact_reply_of_item {depth : Nat}
    (exact : ∀ type, Parser.Exact (item depth type) (EncodesItem depth type)) :
    Parser.Exact (anyReply depth) (Encodes depth) := by
  refine (exact_typeByte.bind exact).congr fun reply used => ?_
  constructor
  · rintro ⟨type, _, back, ⟨byte, known, rfl⟩, ⟨other, sameType, written⟩, rfl⟩
    have same : other = byte := by
      have first := typeOfByte_eq_some_iff.mp known
      have second := typeOfByte_eq_some_iff.mp sameType
      cases type with
      | nil => exact first.elim
      | _ => exact second.trans first.symm
    rw [← same]
    exact written
  · intro written
    obtain ⟨byte, type, rest, known, rfl⟩ := written.typeByte
    exact ⟨type, [byte], rest, ⟨byte, known, rfl⟩, ⟨byte, known, written⟩, rfl⟩

/-- Only the items of arrays depend on the levels that are left. -/
theorem exact_item_of_array {depth : Nat}
    (array : Parser.Exact (item depth .array) (EncodesItem depth .array)) (type : ReplyType) :
    Parser.Exact (item depth type) (EncodesItem depth type) := by
  cases type with
  | status =>
      rw [item_status]
      exact (exact_line_item _).congr fun reply used => (encodesItem_status depth reply used).symm
  | error =>
      rw [item_error]
      exact (exact_line_item _).congr fun reply used => (encodesItem_error depth reply used).symm
  | integer =>
      rw [item_integer]
      exact exact_integer_item.congr fun reply used => (encodesItem_integer depth reply used).symm
  | string =>
      rw [item_string]
      exact exact_bulkItem.congr fun reply used => (encodesItem_string depth reply used).symm
  | nil =>
      rw [item_nil]
      refine (Parser.Exact.fail _).congr fun reply used => ⟨False.elim, ?_⟩
      rintro ⟨byte, known, -⟩
      exact typeOfByte_eq_some_iff.mp known
  | array => exact array

theorem exact_item (depth : Nat) (type : ReplyType) :
    Parser.Exact (item depth type) (EncodesItem depth type) := by
  induction depth generalizing type with
  | zero =>
      apply exact_item_of_array
      exact (Parser.Exact.fail _).congr fun reply used =>
        ⟨False.elim, not_encodesItem_array_zero reply used⟩
  | succ depth ih =>
      have elements : Parser.Exact (typeByte >>= item depth) (Encodes depth) :=
        exact_reply_of_item ih
      apply exact_item_of_array
      exact (exact_multiBulkItem elements).congr fun reply used =>
        (encodesItem_array depth reply used).symm

/-- The parser takes exactly the bytes that the format gives a reply. -/
theorem exact_reply (depth : Nat) : Parser.Exact (anyReply depth) (Encodes depth) :=
  exact_reply_of_item (exact_item depth)

/-- A reply takes a byte or more. -/
theorem progress_reply (depth : Nat) : Parser.Progress (anyReply depth) := by
  intro input value rest parsed
  obtain ⟨used, written, rfl⟩ := (exact_reply depth input value rest).mp parsed
  obtain ⟨byte, type, others, -, rfl⟩ := written.typeByte
  simp

end MCRedis.Hiredis
