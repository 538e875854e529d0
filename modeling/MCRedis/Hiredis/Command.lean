import MCRedis.Client.Connection
import MCRedis.Hiredis.Streams

/-!
# Formatting commands

`redisFormatSdsCommandArgv` and `redisFormatCommandArgv`: the two functions that
write an argument vector in the protocol, the first with `sdscatfmt`, the second
with `sprintf` into a buffer whose size has been computed before.

The lengths of the arguments and of the command are converted to narrower types
on the way, so both give the encoding of the arguments only as long as it is no
longer than an `int` counts.

Allocations succeed, but for those of a negative size: the branches that report
that there is no memory for the command are left out.
-/

namespace MCRedis.Hiredis

open MCRedis.Client
open MCRedis.Parsing
open MCRedis.Text

/-! ## Strings -/

/-- `sdscatlen`: a number of bytes of an object in memory. -/
def sdscatlen (s memory : Bytes) (len : Nat) : Except Fault Bytes :=
  if len ≤ memory.length then .ok (s ++ memory.take len) else .error (.undefined .outOfBounds)

/-- An argument of `sdscatfmt`: a string or an integer. -/
inductive VaArg
  | text (str : Bytes)
  | number (value : Int)
  deriving DecidableEq, Repr

/-- What a conversion specifier of `sdscatfmt` writes, and the arguments after it.
An integer is read with the width that the specifier names. -/
def conversion (next : UInt8) (args : List VaArg) : Except Fault (Bytes × List VaArg) :=
  if next = 0x73 then
    match args with
    | .text str :: args => .ok (cString str, args)
    | _ => .error (.undefined .indeterminate)
  else if next = 0x53 then
    match args with
    | .text str :: args => .ok (str, args)
    | _ => .error (.undefined .indeterminate)
  else if next = 0x69 then
    match args with
    | .number value :: args => .ok (sdsll2str (toInt value), args)
    | _ => .error (.undefined .indeterminate)
  else if next = 0x49 then
    match args with
    | .number value :: args => .ok (sdsll2str (value.bmod uint64Size), args)
    | _ => .error (.undefined .indeterminate)
  else if next = 0x75 then
    match args with
    | .number value :: args => .ok (sdsull2str (value % (uint32Max + 1)).toNat, args)
    | _ => .error (.undefined .indeterminate)
  else if next = 0x55 then
    match args with
    | .number value :: args => .ok (sdsull2str (value % uint64Size).toNat, args)
    | _ => .error (.undefined .indeterminate)
  else .ok ([next], args)

/-- A text is copied to position `i`, which is meant to be the end of the string. -/
def writeAt (i : Int) (s text : Bytes) : Except Fault Bytes :=
  if i = s.length then .ok (s ++ text)
  else if i < 0 then .error (.undefined .outOfBounds)
  else .error (.undefined .indeterminate)

/-- A single character is written, and the position moves on. -/
def writeChar (i : Int) (s : Bytes) (c : UInt8) : Except Fault Bytes := do
  let s ← writeAt i s [c]
  if i + 1 > intMax then .error (.undefined .signedOverflow) else pure s

/-- The loop of `sdscatfmt`; the position is an `int`. -/
def sdscatfmtFrom (i : Int) (s : Bytes) : Bytes → List VaArg → Except Fault Bytes
  | [], _ => .ok s
  | [c], _ => if c = 0x25 then .error (.undefined .outOfBounds) else writeChar i s c
  | c :: next :: f, args =>
      if c = 0x25 then do
        let (text, args) ← conversion next args
        let s ← writeAt i s text
        sdscatfmtFrom (toInt (i + text.length)) s f args
      else do
        let s ← writeChar i s c
        sdscatfmtFrom (i + 1) s (next :: f) args

/-- `sdscatfmt`. -/
def sdscatfmt (s fmt : Bytes) (args : List VaArg) : Except Fault Bytes :=
  sdscatfmtFrom (toInt s.length) s fmt args

/-! ## The two formatters -/

/-- `bulklen`. -/
def bulklen (len : Nat) : Nat :=
  (1 + countDigits len + 2 + len + 2) % uint64Size

/-- The argument at an index: its memory up to the given length, or up to the
terminator when no lengths are given. -/
def argumentAt (argv : List Bytes) (argvlen : Option (List Nat)) (j : Nat) : Except Fault Bytes :=
  match argv[j]? with
  | none => .error (.undefined .outOfBounds)
  | some memory =>
      match argvlen with
      | none => if 0 ∈ memory then .ok (cString memory) else .error (.undefined .outOfBounds)
      | some lens =>
          match lens[j]? with
          | none => .error (.undefined .outOfBounds)
          | some len => sdscatlen [] memory len

/-- The arguments that the loops over `argc` visit. -/
def arguments (argc : Int) (argv : List Bytes) (argvlen : Option (List Nat)) :
    Except Fault (List Bytes) :=
  (List.range argc.toNat).mapM (argumentAt argv argvlen)

/-- The length of the first line of a command. -/
def headlen (argc : Int) : Nat :=
  1 + countDigits (argc % uint64Size).toNat + 2

/-- The body of the loop that constructs the command. -/
def catArgument (cmd arg : Bytes) : Except Fault Bytes := do
  let cmd ← sdscatfmt cmd (literal "$%u\r\n") [.number arg.length]
  pure (cmd ++ arg ++ crlf)

/-- `redisFormatSdsCommandArgv`, when there is memory for the command: the returned
length and the command. -/
def redisFormatSdsCommandArgv (argc : Int) (argv : List Bytes) (argvlen : Option (List Nat)) :
    Except Fault (Int × Bytes) := do
  let args ← arguments argc argv argvlen
  let totlen := args.foldl (fun totlen arg => (totlen + bulklen arg.length) % uint64Size)
    (headlen argc)
  let cmd ← sdscatfmt [] (literal "*%i\r\n") [.number argc]
  let cmd ← args.foldlM catArgument cmd
  if cmd.length = totlen then .ok (toInt totlen, cmd) else .error .terminate

/-- `sprintf` to the end of a command in a buffer; a terminator follows. -/
def sprintfEnd (capacity : Nat) (cmd text : Bytes) : Except Fault Bytes :=
  if cmd.length + text.length < capacity then .ok (cmd ++ text)
  else .error (.undefined .outOfBounds)

/-- `memcpy` to the end of a command in a buffer. -/
def memcpyEnd (capacity : Nat) (cmd text : Bytes) : Except Fault Bytes :=
  if cmd.length + text.length ≤ capacity then .ok (cmd ++ text)
  else .error (.undefined .outOfBounds)

/-- The body of the loop that builds the command. -/
def printArgument (capacity : Nat) (cmd arg : Bytes) : Except Fault Bytes := do
  let cmd ← sprintfEnd capacity cmd (0x24 :: decimal arg.length ++ crlf)
  let cmd ← memcpyEnd capacity cmd arg
  memcpyEnd capacity cmd crlf

/-- `redisFormatCommandArgv`: no command for a size that was negative, which cannot be
allocated; there is memory for all others. -/
def redisFormatCommandArgv (argc : Int) (argv : List Bytes) (argvlen : Option (List Nat)) :
    Except Fault (Int × Option Bytes) := do
  let args ← arguments argc argv argvlen
  let totlen := args.foldl (fun totlen arg => toInt (totlen + bulklen arg.length))
    (headlen argc : Int)
  if totlen = intMax then .error (.undefined .signedOverflow)
  else if totlen + 1 < 0 then .ok (-1, none)
  else do
    let capacity := (totlen + 1).toNat
    let cmd ← sprintfEnd capacity [] (0x2a :: decimal argc ++ crlf)
    let cmd ← args.foldlM (printArgument capacity) cmd
    if cmd.length = totlen then .ok (totlen, some cmd) else .error .terminate

/-! ## The encoding -/

/-- An argument in the protocol. -/
def encodeArgument (arg : Bytes) : Bytes :=
  0x24 :: decimal arg.length ++ crlf ++ arg ++ crlf

/-- A command in the protocol. -/
def encodeCommand (args : List Bytes) : Bytes :=
  0x2a :: decimal args.length ++ crlf ++ (args.map encodeArgument).flatten

theorem writeAt_length (s text : Bytes) : writeAt s.length s text = .ok (s ++ text) :=
  if_pos rfl

theorem writeChar_length {s : Bytes} {c : UInt8} (small : s.length + 1 ≤ intMax) :
    writeChar s.length s c = .ok (s ++ [c]) := by
  rw [writeChar, writeAt_length, ok_bind, if_neg (by omega)]
  rfl

theorem length_add_length (s text : Bytes) :
    (s.length : Int) + text.length = (s ++ text).length := by
  rw [List.length_append, Nat.cast_add]

/-- A format of a character, a conversion and a line end. -/
theorem sdscatfmt_line {s text : Bytes} {c next : UInt8} {args rest : List VaArg}
    (plain : c ≠ 0x25) (converted : conversion next args = .ok (text, rest))
    (small : s.length + (text.length + 3) ≤ intMax) :
    sdscatfmt s [c, 0x25, next, 0x0d, 0x0a] args = .ok (s ++ (c :: text ++ crlf)) := by
  have afterChar : (s.length : Int) + 1 = (s ++ [c]).length := length_add_length s [c]
  have afterText : toInt ((s ++ [c]).length + text.length) = (s ++ [c] ++ text).length := by
    rw [length_add_length]
    apply toInt_eq
    rw [List.length_append, List.length_append, List.length_singleton]
    omega
  have afterReturn : ((s ++ [c] ++ text).length : Int) + 1 =
      (s ++ [c] ++ text ++ [0x0d]).length := length_add_length _ [0x0d]
  have ending : sdscatfmtFrom (s ++ [c] ++ text).length (s ++ [c] ++ text) [0x0d, 0x0a] rest =
      .ok (s ++ [c] ++ text ++ [0x0d] ++ [0x0a]) := by
    rw [sdscatfmtFrom, if_neg (by decide), writeChar_length (by simp; omega), ok_bind,
      afterReturn, sdscatfmtFrom, if_neg (by decide), writeChar_length (by simp; omega)]
  have middle : sdscatfmtFrom (s ++ [c]).length (s ++ [c]) [0x25, next, 0x0d, 0x0a] args =
      .ok (s ++ [c] ++ text ++ [0x0d] ++ [0x0a]) := by
    rw [sdscatfmtFrom, if_pos rfl, converted, ok_bind]
    change writeAt _ _ text >>= _ = _
    rw [writeAt_length, ok_bind, afterText]
    exact ending
  rw [sdscatfmt, toInt_eq (by omega), sdscatfmtFrom, if_neg plain, writeChar_length (by omega),
    ok_bind, afterChar, middle]
  simp [crlf]

/-- Arguments that are given with their lengths. -/
theorem arguments_lengths (argv : List Bytes) :
    arguments argv.length argv (some (argv.map List.length)) = .ok argv := by
  have each : ∀ indices : List Nat, (∀ j ∈ indices, j < argv.length) →
      indices.mapM (argumentAt argv (some (argv.map List.length))) =
        .ok (indices.map fun j => argv.getD j []) := by
    intro indices inside
    induction indices with
    | nil => rfl
    | cons j indices ih =>
        have here := inside j List.mem_cons_self
        have found : argumentAt argv (some (argv.map List.length)) j = .ok (argv.getD j []) := by
          rw [argumentAt, List.getD_eq_getElem?_getD, List.getElem?_eq_getElem here]
          simp [here, sdscatlen]
        rw [List.mapM_cons, found, ok_bind,
          ih fun k mem => inside k (List.mem_cons_of_mem _ mem)]
        rfl
  rw [arguments, Int.toNat_natCast, each _ fun j mem => List.mem_range.mp mem]
  refine congrArg _ (List.ext_getElem (by simp) fun j below inside => ?_)
  rw [List.getElem_map, List.getElem_range, List.getD_eq_getElem?_getD,
    List.getElem?_eq_getElem inside]
  rfl

/-! ## The formatters encode -/

section

variable {cmd arg : Bytes}

theorem length_encodeArgument (arg : Bytes) :
    (encodeArgument arg).length = 1 + countDigits arg.length + 2 + arg.length + 2 := by
  rw [countDigits_eq, encodeArgument]
  simp [crlf, decimal]
  omega

theorem bulklen_eq (small : (encodeArgument arg).length ≤ intMax) :
    bulklen arg.length = (encodeArgument arg).length := by
  rw [length_encodeArgument] at small ⊢
  rw [intMax] at small
  rw [bulklen, uint64Size, Nat.mod_eq_of_lt (by omega)]

theorem catArgument_eq (small : cmd.length + (encodeArgument arg).length ≤ intMax) :
    catArgument cmd arg = .ok (cmd ++ encodeArgument arg) := by
  have format : literal "$%u\r\n" = [0x24, 0x25, 0x75, 0x0d, 0x0a] := by decide
  have written := length_encodeArgument arg
  rw [countDigits_eq] at written
  have narrow : (arg.length : Int) % (uint32Max + 1) = arg.length := by
    rw [intMax] at small
    rw [uint32Max]
    omega
  have converted : conversion 0x75 [.number arg.length] = .ok (decimalNat arg.length, []) := by
    rw [conversion, if_neg (by decide), if_neg (by decide), if_neg (by decide),
      if_neg (by decide), if_pos rfl, narrow, Int.toNat_natCast, sdsull2str_eq]
  rw [catArgument, format, sdscatfmt_line (by decide) converted (by omega), ok_bind]
  simp [encodeArgument, decimal, pure, Except.pure]

theorem foldlM_catArgument {args : List Bytes}
    (small : cmd.length + (args.map encodeArgument).flatten.length ≤ intMax) :
    args.foldlM catArgument cmd = .ok (cmd ++ (args.map encodeArgument).flatten) := by
  induction args generalizing cmd with
  | nil => exact congrArg _ (List.append_nil cmd).symm
  | cons arg args ih =>
      rw [List.map_cons, List.flatten_cons, List.length_append] at small
      rw [List.foldlM_cons, catArgument_eq (by omega), ok_bind, ih, List.map_cons,
        List.flatten_cons, List.append_assoc]
      rw [List.length_append]
      omega

theorem foldl_bulklen {args : List Bytes} {totlen : Nat}
    (small : totlen + (args.map encodeArgument).flatten.length ≤ intMax) :
    args.foldl (fun totlen arg => (totlen + bulklen arg.length) % uint64Size) totlen =
      totlen + (args.map encodeArgument).flatten.length := by
  induction args generalizing totlen with
  | nil => rfl
  | cons arg args ih =>
      rw [List.map_cons, List.flatten_cons, List.length_append] at small ⊢
      rw [List.foldl_cons, bulklen_eq (by omega), Nat.mod_eq_of_lt (by
        rw [intMax] at small
        rw [uint64Size]
        omega), ih (by omega), Nat.add_assoc]

theorem foldl_bulklen_int {args : List Bytes} {totlen : Nat}
    (small : totlen + (args.map encodeArgument).flatten.length ≤ intMax) :
    args.foldl (fun totlen arg => toInt (totlen + bulklen arg.length)) (totlen : Int) =
      (totlen + (args.map encodeArgument).flatten.length : Nat) := by
  induction args generalizing totlen with
  | nil => rfl
  | cons arg args ih =>
      rw [List.map_cons, List.flatten_cons, List.length_append] at small ⊢
      rw [List.foldl_cons, bulklen_eq (by omega), ← Nat.cast_add, toInt_eq (by omega),
        ih (by omega), Nat.add_assoc]

theorem printArgument_eq {capacity : Nat}
    (small : cmd.length + (encodeArgument arg).length < capacity) :
    printArgument capacity cmd arg = .ok (cmd ++ encodeArgument arg) := by
  have written : (encodeArgument arg).length =
      (0x24 :: decimal arg.length ++ crlf).length + arg.length + crlf.length := by
    rw [encodeArgument, List.length_append, List.length_append]
  have body : cmd.length + (0x24 :: decimal arg.length ++ crlf).length + arg.length ≤ capacity := by
    omega
  rw [printArgument, sprintfEnd, if_pos (by omega), ok_bind, memcpyEnd,
    if_pos (by rw [List.length_append]; exact body), ok_bind, memcpyEnd,
    if_pos (by rw [List.length_append, List.length_append]; omega), List.append_assoc cmd,
    List.append_assoc cmd, encodeArgument]

theorem foldlM_printArgument {args : List Bytes} {capacity : Nat}
    (small : cmd.length + (args.map encodeArgument).flatten.length < capacity) :
    args.foldlM (printArgument capacity) cmd = .ok (cmd ++ (args.map encodeArgument).flatten) := by
  induction args generalizing cmd with
  | nil => exact congrArg _ (List.append_nil cmd).symm
  | cons arg args ih =>
      rw [List.map_cons, List.flatten_cons, List.length_append] at small
      rw [List.foldlM_cons, printArgument_eq (by omega), ok_bind, ih, List.map_cons,
        List.flatten_cons, List.append_assoc]
      rw [List.length_append]
      omega

end

theorem length_encodeCommand (args : List Bytes) :
    (encodeCommand args).length =
      1 + (decimal args.length).length + 2 + (args.map encodeArgument).flatten.length := by
  rw [encodeCommand, List.length_append, List.length_append, List.length_cons]
  simp [crlf]
  omega

theorem length_le_flatten (args : List Bytes) :
    args.length ≤ (args.map encodeArgument).flatten.length := by
  induction args with
  | nil => exact Nat.zero_le _
  | cons arg args ih =>
      rw [List.map_cons, List.flatten_cons, List.length_append, List.length_cons,
        length_encodeArgument]
      omega

theorem headlen_eq {count : Nat} (small : count ≤ intMax) :
    headlen count = 1 + (decimal count).length + 2 := by
  rw [intMax] at small
  rw [headlen, uint64Size, Int.emod_eq_of_lt (by omega) (by omega), Int.toNat_natCast,
    countDigits_eq]
  rfl

theorem length_header {count : Nat} (small : count ≤ intMax) :
    ([] ++ (0x2a :: decimal count ++ crlf)).length = headlen count := by
  rw [headlen_eq small, List.nil_append, List.length_append, List.length_cons]
  exact congrArg (· + 2) (Nat.add_comm _ _)

/-- The arguments of a command whose encoding an `int` counts are encoded. -/
theorem redisFormatSdsCommandArgv_eq {argv args : List Bytes} {argvlen : Option (List Nat)}
    (given : arguments args.length argv argvlen = .ok args)
    (small : (encodeCommand args).length ≤ intMax) :
    redisFormatSdsCommandArgv args.length argv argvlen =
      .ok ((encodeCommand args).length, encodeCommand args) := by
  have format : literal "*%i\r\n" = [0x2a, 0x25, 0x69, 0x0d, 0x0a] := by decide
  have whole := length_encodeCommand args
  have fewer := length_le_flatten args
  have converted : conversion 0x69 [.number args.length] = .ok (decimal args.length, []) := by
    rw [conversion, if_neg (by decide), if_neg (by decide), if_pos rfl, toInt_eq (by omega),
      sdsll2str_eq]
  have bound : args.length ≤ intMax := by omega
  have head := headlen_eq bound
  have header : ([] ++ (0x2a :: decimal args.length ++ crlf)).length = headlen args.length :=
    length_header bound
  rw [redisFormatSdsCommandArgv, given, ok_bind, foldl_bulklen (by omega), format,
    sdscatfmt_line (by decide) converted (by rw [List.length_nil]; omega), ok_bind,
    foldlM_catArgument (by omega), ok_bind, List.nil_append]
  have total : (encodeCommand args).length =
      headlen args.length + (args.map encodeArgument).flatten.length := by omega
  rw [← encodeCommand, if_pos total, ← total, toInt_eq small]

/-- Both formatters give the encoding when there is room for a terminator too. -/
theorem redisFormatCommandArgv_eq {argv args : List Bytes} {argvlen : Option (List Nat)}
    (given : arguments args.length argv argvlen = .ok args)
    (small : (encodeCommand args).length < intMax) :
    redisFormatCommandArgv args.length argv argvlen =
      .ok ((encodeCommand args).length, some (encodeCommand args)) := by
  have whole := length_encodeCommand args
  have fewer := length_le_flatten args
  have bound : args.length ≤ intMax := by omega
  have head := headlen_eq bound
  have header : ([] ++ (0x2a :: decimal args.length ++ crlf)).length = headlen args.length :=
    length_header bound
  have total : (encodeCommand args).length =
      headlen args.length + (args.map encodeArgument).flatten.length := by omega
  rw [redisFormatCommandArgv, given, ok_bind, foldl_bulklen_int (by omega), ← total,
    if_neg (by omega), if_neg (by omega)]
  have capacity : (((encodeCommand args).length : Int) + 1).toNat =
      (encodeCommand args).length + 1 := Int.toNat_natCast_add_one
  have first : sprintfEnd ((encodeCommand args).length + 1) []
      (0x2a :: decimal args.length ++ crlf) =
        .ok ([] ++ (0x2a :: decimal args.length ++ crlf)) := by
    rw [List.length_append] at header
    exact if_pos (by omega)
  simp only [capacity]
  rw [first, ok_bind, foldlM_printArgument (by omega), ok_bind, List.nil_append, ← encodeCommand,
    if_pos rfl]

/-- The two formatters agree on every command that leaves room for a terminator. -/
theorem redisFormatCommandArgv_eq_sds {argv args : List Bytes} {argvlen : Option (List Nat)}
    (given : arguments args.length argv argvlen = .ok args)
    (small : (encodeCommand args).length < intMax) :
    redisFormatCommandArgv args.length argv argvlen =
        (redisFormatSdsCommandArgv args.length argv argvlen).map
          (fun command => (command.1, some command.2)) ∧
      redisFormatSdsCommandArgv args.length argv argvlen =
        .ok ((encodeCommand args).length, encodeCommand args) := by
  have sds := redisFormatSdsCommandArgv_eq given (Nat.le_of_lt small)
  rw [redisFormatCommandArgv_eq given small, sds]
  exact ⟨rfl, rfl⟩

theorem redisFormatCommandArgv_eq_sds_ping :
    redisFormatCommandArgv [literal "PING"].length [literal "PING"]
        (some ([literal "PING"].map List.length)) =
      (redisFormatSdsCommandArgv [literal "PING"].length [literal "PING"]
        (some ([literal "PING"].map List.length))).map
          (fun command => (command.1, some command.2)) ∧
      redisFormatSdsCommandArgv [literal "PING"].length [literal "PING"]
          (some ([literal "PING"].map List.length)) =
        .ok ((encodeCommand [literal "PING"]).length, encodeCommand [literal "PING"]) :=
  redisFormatCommandArgv_eq_sds (arguments_lengths [literal "PING"]) (by decide)

/-! ## The encoding is read back -/

theorem encodes_encodeArgument {arg : Bytes} (depth : Nat)
    (small : (encodeArgument arg).length ≤ intMax) :
    Encodes depth (.string arg) (encodeArgument arg) := by
  rw [length_encodeArgument, intMax] at small
  have fits : arg.length + 2 ≤ llongMax := by
    rw [llongMax]
    omega
  cases depth <;> exact ⟨fits, crlf, rfl, rfl⟩

/-- A line that holds a number is told from what follows it. -/
theorem decimal_line_inj {n m : Int} {rest other : Bytes}
    (same : decimal n ++ (crlf ++ rest) = decimal m ++ (crlf ++ other)) : n = m ∧ rest = other := by
  rw [← List.append_assoc, ← List.append_assoc] at same
  have first : cutLine (decimal n ++ crlf ++ rest) = some (decimal n, rest) :=
    cutLine_eq_some_iff.mpr ⟨unbroken_decimal n, rfl⟩
  have second := cutLine_eq_some_iff.mpr ⟨unbroken_decimal m, same⟩
  rw [first, Option.some.injEq, Prod.mk.injEq] at second
  refine ⟨?_, second.2⟩
  have value := congrArg intValue second.1
  rw [intValue_decimal, intValue_decimal] at value
  exact Option.some.inj value

theorem encodeArgument_append_inj {arg other rest more : Bytes}
    (same : encodeArgument arg ++ rest = encodeArgument other ++ more) :
    arg = other ∧ rest = more := by
  simp only [encodeArgument, List.append_assoc, List.cons_append] at same
  have lines := List.tail_eq_of_cons_eq same
  obtain ⟨length, bodies⟩ := decimal_line_inj lines
  obtain ⟨rfl, ends⟩ := List.append_inj bodies (Int.ofNat.inj length)
  exact ⟨rfl, List.append_cancel_left ends⟩

/-- A command is told from what follows it, whatever its size. -/
theorem encodeCommand_append_inj {args others : List Bytes} {rest more : Bytes}
    (same : encodeCommand args ++ rest = encodeCommand others ++ more) :
    args = others ∧ rest = more := by
  have each : ∀ (args others : List Bytes), args.length = others.length →
      (args.map encodeArgument).flatten ++ rest = (others.map encodeArgument).flatten ++ more →
        args = others ∧ rest = more := by
    intro args
    induction args with
    | nil =>
        intro others counted same
        obtain rfl := List.length_eq_zero_iff.mp counted.symm
        exact ⟨rfl, same⟩
    | cons arg args ih =>
        intro others counted same
        cases others with
        | nil => contradiction
        | cons other others =>
            rw [List.map_cons, List.flatten_cons, List.append_assoc, List.map_cons,
              List.flatten_cons, List.append_assoc] at same
            obtain ⟨rfl, rests⟩ := encodeArgument_append_inj same
            obtain ⟨rfl, rest⟩ := ih others (Nat.succ.inj counted) rests
            exact ⟨rfl, rest⟩
  simp only [encodeCommand, List.append_assoc, List.cons_append] at same
  have lines := List.tail_eq_of_cons_eq same
  obtain ⟨counted, bodies⟩ := decimal_line_inj lines
  exact each args others (Int.ofNat.inj counted) bodies

/-- A command is read as the array of its arguments. -/
theorem encodes_encodeCommand {args : List Bytes} (depth : Nat)
    (small : (encodeCommand args).length ≤ intMax) :
    Encodes (depth + 1) (.array (args.map .string)) (encodeCommand args) := by
  have whole := length_encodeCommand args
  have fewer := length_le_flatten args
  refine ⟨by rw [List.length_map]; omega, args.map encodeArgument, ?_, ?_⟩
  · rw [List.forall₂_map_left_iff, List.forall₂_map_right_iff, List.forall₂_same]
    intro arg mem
    have inside : (encodeArgument arg).length ≤ (args.map encodeArgument).flatten.length :=
      (List.sublist_flatten_of_mem (List.mem_map_of_mem mem)).length_le
    exact encodes_encodeArgument depth (by omega)
  · rw [encodeCommand, List.length_map]

/-- Commands that follow one another in any pieces are read one by one. -/
theorem drained_session_commands (commands : List (List Bytes)) (calls : List ReaderCall)
    (asks : Nat) (small : ∀ args ∈ commands, (encodeCommand args).length ≤ intMax)
    (fed : fedBytes calls = (commands.map encodeCommand).flatten)
    (countable : Countable (redisReaderCreate []) calls) (enough : commands.length < asks) :
    repliesOf (readerSession (redisReaderCreate []) (calls ++ List.replicate asks .getReply)).1 =
      commands.map fun args => CReply.ofRaw (.array (args.map .string)) := by
  have encoded : List.Forall₂ (Encodes levelsMax)
      (commands.map fun args => .array (args.map .string)) (commands.map encodeCommand) := by
    rw [List.forall₂_map_left_iff, List.forall₂_map_right_iff, List.forall₂_same]
    exact fun args mem => encodes_encodeCommand 7 (small args mem)
  have stream := (exact_reply levelsMax).stream_flatten (progress_reply levelsMax) encoded []
  have replies : (replyStream (fedBytes calls)).1 =
      commands.map fun args => .array (args.map .string) := by
    rw [replyStream, fed, ← List.append_nil (List.flatten _), stream]
    exact List.append_nil _
  rw [(drained_session calls asks countable (by rw [replies, List.length_map]; exact enough)).1,
    replies, List.map_map]
  rfl

theorem drained_session_commands_ping :
    repliesOf (readerSession (redisReaderCreate [])
      ([.feed (encodeCommand [literal "PING"]), .feed (encodeCommand [])] ++
        List.replicate 3 .getReply)).1 =
      [CReply.ofRaw (.array [.string (literal "PING")]), CReply.ofRaw (.array [])] :=
  drained_session_commands [[literal "PING"], []] _ 3 (by decide) rfl
    (@countable_feed _ [encodeCommand [literal "PING"], encodeCommand []] (by decide))
    (by decide)

end MCRedis.Hiredis
