import MCRedis.Hiredis.Wire

/-!
# Pipelining

What holds of a connection in every run: the server answers the commands in the
order in which they were appended, and the replies come back in the order in which
they were written, each once.  A client waits for bytes that will never come only
when it has received all its replies.  It never faults, and every step is one of
the abstract context that records the commands and the replies.
-/

namespace MCRedis.Hiredis

open MCRedis.Client
open MCRedis.Parsing
open MCRedis.Transition

/-! ## The invariant over runs -/

/-- Some bytes, replies, encodings and commands account for the connection. -/
def Accounted (w : Wire) : Prop :=
  ∃ fed got parts pending, Sound w fed got parts pending

section

variable {w after : Wire} {fed : Bytes} {got : List RedisReply} {parts : List Bytes}
  {pending : List (List Bytes)}

theorem Sound.append (sound : Sound w fed got parts pending) {args : List Bytes}
    {c : RedisContext}
    (fits : w.client.obuf.length + (encodeCommand args).length ≤ intMax)
    (appended : redisAppendCommandArgv w.client args.length args (some (args.map List.length)) =
      .ok (.ok, c)) (idle : w.phase = .idle) :
    Sound { w with client := c, sent := w.sent ++ [args] } fed got parts (pending ++ [args]) := by
  rw [redisAppendCommandArgv_encode _ (arguments_lengths args) (by omega), Except.ok.injEq,
    Prod.mk.injEq] at appended
  obtain ⟨-, rfl⟩ := appended
  exact { sound with
    order := by rw [sound.order, List.append_assoc]
    upstream := by
      rw [← List.append_assoc, sound.upstream, List.map_append, List.flatten_append]
      simp
    small := by
      rw [List.length_append]
      exact fits
    flushed := fun busy => by
      rw [idle] at busy
      contradiction }

theorem encodeCommand_ne_nil (args : List Bytes) : encodeCommand args ≠ [] :=
  List.cons_ne_nil _ _

/-- The command that the server takes is the first that waits for an answer. -/
theorem Sound.serve (sound : Sound w fed got parts pending) {args : List Bytes}
    {reply : RedisReply} {used rest : Bytes} (taken : w.upstream = encodeCommand args ++ rest)
    (encoded : Encodes levelsMax reply used) :
    ∃ later, Sound { w with
      upstream := rest, served := w.served ++ [(args, reply)],
      downstream := w.downstream ++ used } fed got (parts ++ [used]) later := by
  have bytes := sound.upstream
  rw [taken, List.append_assoc] at bytes
  cases pending with
  | nil => exact absurd (List.append_eq_nil_iff.mp bytes).1 (encodeCommand_ne_nil args)
  | cons next later =>
      obtain ⟨rfl, others⟩ := encodeCommand_append_inj bytes
      refine ⟨later, { sound with
        encoded := ?_
        downstream := ?_
        order := ?_
        upstream := others }⟩
      · rw [List.map_append]
        exact List.rel_append sound.encoded (.cons encoded .nil)
      · rw [List.flatten_append, sound.downstream]
        simp
      · rw [sound.order, List.map_append]
        simp

theorem Accounted.step {label : WireLabel} (accounted : Accounted w)
    (step : WireStep w label after) : Accounted after := by
  obtain ⟨fed, got, parts, pending, sound⟩ := accounted
  cases step with
  | append idle fits appended => exact ⟨_, _, _, _, sound.append fits appended idle⟩
  | getReply idle run =>
      obtain ⟨other, new, result, kept, -⟩ := sound.getReply
      rw [run, Except.ok.injEq] at result
      exact result ▸ ⟨_, _, _, _, kept⟩
  | write writing sendable run =>
      obtain ⟨other, result, kept, -⟩ := sound.write writing sendable
      rw [run, Except.ok.injEq] at result
      exact result ▸ ⟨_, _, _, _, kept⟩
  | read reading arrives fits run =>
      obtain ⟨other, all, new, result, kept, -⟩ := sound.read reading arrives fits
      rw [run, Except.ok.injEq] at result
      exact result ▸ ⟨_, _, _, _, kept⟩
  | serve taken encoded =>
      obtain ⟨later, kept⟩ := sound.serve taken encoded
      exact ⟨_, _, _, _, kept⟩

theorem Accounted.run {visits : List (Visit Wire WireLabel)}
    (run : Run WireStep .opened visits w) : Accounted w :=
  (run.invariant Accounted ⟨_, _, _, _, sound_opened⟩ fun _ _ step accounted =>
    accounted.step step).1

end

/-! ## A run -/

/-- A connection on which a command is about to be sent. -/
def asking : Wire where
  client := { redisContextInit true with obuf := encodeCommand [literal "PING"] }
  phase := .writing
  sent := [[literal "PING"]]
  received := []
  upstream := []
  served := []
  downstream := []

/-- A connection on which the command has been answered. -/
def answering : Wire where
  client := redisContextInit true
  phase := .reading
  sent := [[literal "PING"]]
  received := []
  upstream := []
  served := [([literal "PING"], .status (literal "PONG"))]
  downstream := literal "+PONG\r\n"

/-- The answer can be received. -/
theorem arrives_answering :
    Arrives answering.downstream (.received (literal "+PONG\r\n")) [] :=
  @Arrives.bytes (literal "+PONG\r\n") [] (by decide) (by decide)

theorem run_asking : ∃ visits, Run WireStep .opened visits asking := by
  have appended := redisAppendCommandArgv_encode (redisContextInit true)
    (arguments_lengths [literal "PING"]) (by decide)
  have append : WireStep .opened (.append [literal "PING"])
      { Wire.opened with client := asking.client, sent := [[literal "PING"]] } :=
    .append rfl (by decide) appended
  have getReply : WireStep
      { Wire.opened with client := asking.client, sent := [[literal "PING"]] } .getReply asking :=
    .getReply rfl rfl
  exact ⟨_, .cons append (.cons getReply (.nil _))⟩

theorem run_answering : ∃ visits, Run WireStep .opened visits answering := by
  obtain ⟨visits, run⟩ := run_asking
  have written : writeRound asking.client (.sent 14) = (.reading, redisContextInit true) := by
    rw [writeRound, redisBufferWrite_sent rfl (by decide) (by decide) (by decide)]
    rfl
  have write : WireStep asking (.write (.sent 14)) { asking with
      client := redisContextInit true, phase := .reading,
      upstream := encodeCommand [literal "PING"] ++ [] } :=
    .write rfl (by decide : 14 ≤ asking.client.obuf.length) (by rw [written]; rfl)
  have serve : WireStep { asking with
      client := redisContextInit true, phase := .reading,
      upstream := encodeCommand [literal "PING"] ++ [] }
      (.serve [literal "PING"] (.status (literal "PONG"))) answering :=
    .serve rfl ⟨by decide, rfl⟩
  exact ⟨_, run.append (.cons write (.cons serve (.nil _)))⟩

/-! ## The order of the replies -/

section

variable {w after : Wire} {fed : Bytes} {got : List RedisReply} {parts : List Bytes}
  {pending : List (List Bytes)}

theorem Sound.got_prefix (sound : Sound w fed got parts pending) :
    got <+: w.served.map Prod.snd :=
  sound.reader.prefix.trans (MCRedis.Hiredis.accepted sound.encoded sound.downstream).1

end

/-- In every run the server answers the first of the commands in their order, and the
client has received the first of the answers in their order. -/
theorem run_inOrder {visits : List (Visit Wire WireLabel)} {w : Wire}
    (run : Run WireStep .opened visits w) :
    w.served.map Prod.fst <+: w.sent ∧
      w.received <+: w.served.map fun answered => CReply.ofRaw answered.2 := by
  obtain ⟨fed, got, parts, pending, sound⟩ := Accounted.run run
  constructor
  · rw [sound.order]
    exact List.prefix_append _ _
  · have mapped := sound.got_prefix.map CReply.ofRaw
    rw [List.map_map, ← sound.received] at mapped
    exact mapped

theorem run_inOrder_answering :
    answering.served.map Prod.fst <+: answering.sent ∧
      answering.received <+: answering.served.map fun answered => CReply.ofRaw answered.2 := by
  obtain ⟨visits, run⟩ := run_answering
  exact run_inOrder run

/-! ## Waiting -/

section

variable {w : Wire} {fed : Bytes} {got : List RedisReply} {parts : List Bytes}
  {pending : List (List Bytes)}

theorem Sound.lengths (sound : Sound w fed got parts pending) :
    w.received.length = got.length ∧ got.length ≤ w.served.length ∧
      w.sent.length = w.served.length + pending.length := by
  refine ⟨?_, ?_, ?_⟩
  · rw [sound.received, List.length_map]
  · have fewer := sound.got_prefix.length_le
    rw [List.length_map] at fewer
    exact fewer
  · rw [sound.order, List.length_append, List.length_map]

/-- Without bytes on the way all replies have been received. -/
theorem Sound.complete (sound : Sound w fed got parts pending) (reading : w.phase = .reading)
    (up : w.upstream = []) (down : w.downstream = []) : w.received.length = w.sent.length := by
  obtain ⟨same, -, total⟩ := sound.lengths
  have none_ : pending = [] := by
    have bytes := sound.upstream
    rw [up, (sound.flushed reading).1] at bytes
    cases pending with
    | nil => rfl
    | cons next later =>
        exact absurd (List.append_eq_nil_iff.mp bytes.symm).1 (encodeCommand_ne_nil next)
  have whole := (exact_reply levelsMax).stream_flatten (progress_reply levelsMax) sound.encoded []
  have stream := sound.waiting (by rw [reading]; decide)
  rw [replyStream, ← List.append_nil fed, ← down, ← sound.downstream,
    ← List.append_nil (List.flatten _), whole] at stream
  have all : w.served.map Prod.snd = got :=
    (List.append_nil _).symm.trans (congrArg Prod.fst stream)
  rw [same, ← all, List.length_map, total, none_]
  rfl

/-- When all replies have been received there are no bytes on the way. -/
theorem Sound.quiet (sound : Sound w fed got parts pending) (reading : w.phase = .reading)
    (all : w.received.length = w.sent.length) : w.upstream = [] ∧ w.downstream = [] := by
  obtain ⟨same, fewer, total⟩ := sound.lengths
  have none_ : pending = [] := List.length_eq_zero_iff.mp (by omega)
  have answered : got = w.served.map Prod.snd :=
    sound.got_prefix.eq_of_length (by rw [List.length_map]; omega)
  constructor
  · have bytes := sound.upstream
    rw [none_] at bytes
    exact (List.append_eq_nil_iff.mp bytes).1
  · obtain ⟨others, rest, encoded, split, -⟩ :=
      (exact_reply levelsMax).exists_flatten (progress_reply levelsMax) fed
    have starved := sound.waiting (by rw [reading]; decide)
    rw [← replyStream, starved, answered] at encoded
    have bytes := sound.downstream
    rw [split, List.append_assoc, ← List.append_nil parts.flatten] at bytes
    have nothing := (exact_reply levelsMax).append_cancel sound.encoded encoded bytes
    exact (List.append_eq_nil_iff.mp nothing.symm).2

end

/-- A client that waits for bytes either has received the replies to all its commands,
and nothing is on the way, or bytes are on the way to it, or the server has a whole
command to answer. -/
theorem reading_progress {visits : List (Visit Wire WireLabel)} {w : Wire}
    (run : Run WireStep .opened visits w) (reading : w.phase = .reading) :
    w.received.length = w.sent.length ∧ w.upstream = [] ∧ w.downstream = [] ∨
      w.received.length < w.sent.length ∧
        (w.downstream ≠ [] ∨ ∃ args rest, w.upstream = encodeCommand args ++ rest) := by
  obtain ⟨fed, got, parts, pending, sound⟩ := Accounted.run run
  obtain ⟨same, fewer, total⟩ := sound.lengths
  by_cases all : w.received.length = w.sent.length
  case pos => exact .inl ⟨all, sound.quiet reading all⟩
  case neg =>
    refine .inr ⟨by omega, ?_⟩
    by_cases down : w.downstream = []
    case neg => exact .inl down
    case pos =>
      have bytes := sound.upstream
      rw [(sound.flushed reading).1, List.append_nil] at bytes
      cases pending with
      | nil => exact absurd (sound.complete reading bytes down) all
      | cons next later => exact .inr ⟨next, _, bytes⟩

theorem reading_progress_answering :
    answering.received.length = answering.sent.length ∧ answering.upstream = [] ∧
        answering.downstream = [] ∨
      answering.received.length < answering.sent.length ∧
        (answering.downstream ≠ [] ∨
          ∃ args rest, answering.upstream = encodeCommand args ++ rest) := by
  obtain ⟨visits, run⟩ := run_answering
  exact reading_progress run rfl

/-! ## Faults and errors -/

/-- A step that is a part of a call for a reply. -/
def PartOfCall : WireLabel → Prop
  | .append _ => False
  | .getReply => True
  | .write _ => True
  | .read _ => True
  | .serve _ _ => False

theorem Accounted.outcome {w after : Wire} {label : WireLabel} (accounted : Accounted w)
    (step : WireStep w label after) (call : PartOfCall label) : Outcome w after := by
  obtain ⟨fed, got, parts, pending, sound⟩ := accounted
  cases step with
  | append => exact absurd call id
  | getReply idle run =>
      obtain ⟨other, new, result, -, outcome⟩ := sound.getReply
      rw [run, Except.ok.injEq] at result
      exact result ▸ outcome
  | write writing sendable run =>
      obtain ⟨other, result, -, outcome⟩ := sound.write writing sendable
      rw [run, Except.ok.injEq] at result
      exact result ▸ outcome
  | read reading arrives fits run =>
      obtain ⟨other, all, new, result, -, outcome⟩ := sound.read reading arrives fits
      rw [run, Except.ok.injEq] at result
      exact result ▸ outcome
  | serve => exact absurd call id

/-- The errors that the context can hold: none, or one of the socket. -/
def SocketErr (c : RedisContext) : Prop :=
  c.err = 0 ∨ c.err = redisErrIO ∨ c.err = redisErrEof

theorem SocketErr.of_err {c after : RedisContext} (socket : SocketErr c)
    (same : after.err = c.err) : SocketErr after := by
  rw [SocketErr, same]
  exact socket

theorem SocketErr.step {w after : Wire} {label : WireLabel} (socket : SocketErr w.client)
    (accounted : Accounted w) (step : WireStep w label after) : SocketErr after.client := by
  have outcome := accounted.outcome step
  have kept : PartOfCall label → SocketErr after.client := by
    intro call
    cases outcome call with
    | replied same => exact socket.of_err same
    | waits _ same => exact socket.of_err same
    | failed set =>
        rcases set with same | set
        · exact socket.of_err same
        · exact .inr set
  cases step with
  | @append args c _ fits appended =>
      rw [redisAppendCommandArgv_encode _ (arguments_lengths args) (by omega), Except.ok.injEq,
        Prod.mk.injEq] at appended
      exact appended.2 ▸ socket
  | getReply | write | read => exact kept trivial
  | serve => exact socket

theorem SocketErr.run {visits : List (Visit Wire WireLabel)} {w : Wire}
    (run : Run WireStep .opened visits w) : SocketErr w.client := by
  have opened : Accounted .opened ∧ SocketErr Wire.opened.client :=
    ⟨⟨_, _, _, _, sound_opened⟩, .inl rfl⟩
  have invariant := run.invariant (fun w => Accounted w ∧ SocketErr w.client) opened
    fun _ _ step holds => ⟨holds.1.step step, holds.2.step holds.1 step⟩
  exact invariant.1.2

/-- The context as a record of commands and replies. -/
def Wire.context (w : Wire) : Client.RedisContext where
  err := w.client.err
  errstr := w.client.errstr
  sent := w.sent
  received := (w.served.take w.received.length).map Prod.snd

/-- A step of the abstract context: a command is appended, or the reply that the
server gave to the command that is to be answered next is handed out, or only the
error changes. -/
def Refines (w : Wire) (label : WireLabel) (after : Wire) : Prop :=
  (∃ args, label = .append args ∧ after.context = w.context.appended args ∧
    after.received = w.received) ∨
  (∃ args reply, w.context.nextAnswered = some args ∧
    w.served[w.received.length]? = some (args, reply) ∧
      after.context = w.context.replied reply ∧
        after.received = w.received ++ [CReply.ofRaw reply]) ∨
  ∃ error, after.context = w.context.setError error ∧ after.received = w.received

theorem Sound.nextAnswered {w : Wire} {fed : Bytes} {got : List RedisReply} {parts : List Bytes}
    {pending : List (List Bytes)} (sound : Sound w fed got parts pending) {args : List Bytes}
    {reply : RedisReply} (answer : w.served[w.received.length]? = some (args, reply)) :
    w.context.nextAnswered = some args := by
  obtain ⟨inside, -⟩ := List.getElem?_eq_some_iff.mp answer
  have position : w.context.received.length = w.received.length := by
    rw [Wire.context, List.length_map, List.length_take]
    omega
  rw [Client.RedisContext.nextAnswered, position]
  change w.sent[w.received.length]? = some args
  rw [sound.order, List.getElem?_append_left (by rw [List.length_map]; exact inside),
    List.getElem?_map, answer]
  rfl

/-- The replies that are recorded are those that were handed out. -/
theorem Sound.received_eq {w : Wire} {fed : Bytes} {got : List RedisReply} {parts : List Bytes}
    {pending : List (List Bytes)} (sound : Sound w fed got parts pending) :
    w.received = w.context.received.map CReply.ofRaw := by
  have taken := List.prefix_iff_eq_take.mp sound.got_prefix
  rw [← sound.lengths.1, ← List.map_take] at taken
  exact sound.received.trans (congrArg (List.map CReply.ofRaw) taken)

/-- The reply that is handed out is the one that the server gave. -/
theorem Accounted.replied {w after : Wire} {label : WireLabel} (before : Accounted w)
    (accounted : Accounted after) (err : after.client.err = w.client.err)
    (errstr : after.client.errstr = w.client.errstr) (sent : after.sent = w.sent)
    (served : after.served = w.served)
    (next : after.received.length = w.received.length + 1) : Refines w label after := by
  obtain ⟨_, _, _, _, first⟩ := before
  obtain ⟨_, _, _, _, last⟩ := accounted
  obtain ⟨same, fewer, -⟩ := last.lengths
  rw [served] at fewer
  have inside : w.received.length < w.served.length := by omega
  obtain ⟨⟨args, reply⟩, answer⟩ : ∃ answered, w.served[w.received.length]? = some answered :=
    ⟨_, List.getElem?_eq_getElem inside⟩
  have handed : after.context = w.context.replied reply := by
    rw [Wire.context, Client.RedisContext.replied, Wire.context]
    simp only [err, errstr, sent, served, next]
    rw [List.take_add_one, answer, List.map_append]
    rfl
  refine .inr (.inl ⟨args, reply, first.nextAnswered answer, answer, handed, ?_⟩)
  rw [last.received_eq, handed, first.received_eq]
  exact List.map_append

theorem Outcome.refines {w after : Wire} {label : WireLabel} (outcome : Outcome w after)
    (before : Accounted w) (accounted : Accounted after) : Refines w label after := by
  cases outcome with
  | replied err errstr =>
      exact before.replied accounted err errstr rfl rfl List.length_append
  | @waits c phase upstream downstream busy err errstr =>
      exact .inr (.inr ⟨⟨c.err, c.errstr⟩, rfl, rfl⟩)
  | @failed c upstream downstream set => exact .inr (.inr ⟨⟨c.err, c.errstr⟩, rfl, rfl⟩)

/-- In every run the abstract context records the replies that were handed out, and
every step of the connection is one of the abstract context. -/
theorem step_refines {visits : List (Visit Wire WireLabel)} {w after : Wire}
    {label : WireLabel} (run : Run WireStep .opened visits w) (step : WireStep w label after) :
    w.received = w.context.received.map CReply.ofRaw ∧ Refines w label after := by
  have accounted := Accounted.run run
  have records : w.received = w.context.received.map CReply.ofRaw := by
    obtain ⟨_, _, _, _, sound⟩ := accounted
    exact sound.received_eq
  refine ⟨records, ?_⟩
  have outcome := accounted.outcome step
  have kept := accounted.step step
  cases step with
  | @append args c idle fits appended =>
      rw [redisAppendCommandArgv_encode _ (arguments_lengths args) (by omega), Except.ok.injEq,
        Prod.mk.injEq] at appended
      obtain ⟨-, rfl⟩ := appended
      exact .inl ⟨args, rfl, rfl, rfl⟩
  | getReply => exact (outcome trivial).refines accounted kept
  | write => exact (outcome trivial).refines accounted kept
  | read => exact (outcome trivial).refines accounted kept
  | serve =>
      obtain ⟨_, _, _, _, sound⟩ := accounted
      obtain ⟨same, fewer, -⟩ := sound.lengths
      refine .inr (.inr ⟨⟨w.client.err, w.client.errstr⟩, ?_, rfl⟩)
      rw [Wire.context, Client.RedisContext.setError, Wire.context]
      simp only
      rw [List.take_append_of_le_length (by omega)]

theorem step_refines_answering :
    ∃ after, Refines answering (.read (.received (literal "+PONG\r\n"))) after ∧
      after.received = [CReply.ofRaw (.status (literal "PONG"))] := by
  obtain ⟨visits, run⟩ := run_answering
  have read : ∃ after, WireStep answering (.read (.received (literal "+PONG\r\n"))) after ∧
      after.received = [CReply.ofRaw (.status (literal "PONG"))] :=
    ⟨_, .read rfl arrives_answering (by decide) rfl, rfl⟩
  obtain ⟨after, step, received⟩ := read
  exact ⟨after, (step_refines run step).2, received⟩

end MCRedis.Hiredis
