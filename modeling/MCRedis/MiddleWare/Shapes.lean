import MCRedis.MiddleWare.Sentinel
import MCRedis.Transition.Traces

/-!
# Replies of any shape

The middleware functions read the replies of the servers at fixed positions,
and convert texts to numbers; both throw when they fail, and the functions are
`noexcept`.  This file says which answers a function copes with.

A reply of another type than the one expected gives no node and no connection.
What is read of a reply of the expected type is not checked, but for the size of
the master's address: elements that are not there end the process, and elements of
another kind than the expected one are read all the same.
-/

namespace MCRedis.MiddleWare

open MCRedis.Client
open MCRedis.Transition

/-- What a function asks of the replies to its commands: their type, what the
reading of a reply needs, and the kinds of the elements it reads. -/
structure ReplyForm where
  typed : List Bytes → CReply → Prop
  read : List Bytes → CReply → Prop
  kinds : List Bytes → CReply → Prop

/-- A host accepts a connection. -/
def Accepts : Event MwOp MwAns → Prop
  | ⟨.redis (.connectWithTimeout _ _ _), answer⟩ => answer = ConnectAnswer.connected
  | _ => False

namespace ReplyForm

variable (form : ReplyForm)

/-- The answers under which a function returns: the memory it asks for is granted,
and what it reads of a reply is there. -/
def Copes : Event MwOp MwAns → Prop
  | ⟨.redis (.connectWithTimeout _ _ _), answer⟩ => answer ≠ ConnectAnswer.noContext
  | ⟨.redis (.commandArgv _ argv), .reply reply⟩ => form.read argv (.ofRaw reply)
  | ⟨.reserve _, granted⟩ => granted = true
  | _ => True

/-- A reply of another form than the one expected, or a client error. -/
def Unexpected : Event MwOp MwAns → Prop
  | ⟨.redis (.commandArgv _ argv), .reply reply⟩ =>
      ¬ (form.typed argv (.ofRaw reply) ∧ form.read argv (.ofRaw reply) ∧
        form.kinds argv (.ofRaw reply))
  | ⟨.redis (.commandArgv _ _), _⟩ => True
  | _ => False

/-- A reply of the expected type with elements of another kind. -/
def Misread : Event MwOp MwAns → Prop
  | ⟨.redis (.commandArgv _ argv), .reply reply⟩ =>
      form.typed argv (.ofRaw reply) ∧ ¬ form.kinds argv (.ofRaw reply)
  | _ => False

theorem unexpected_of_misread (event : Event MwOp MwAns) (misread : form.Misread event) :
    form.Unexpected event := by
  rcases event with ⟨⟨_ | _ | _ | _ | _⟩ | _ | _ | _ | _ | _ | _, answer⟩
  case redis.commandArgv =>
    cases answer with
    | reply reply => exact fun expected => misread.2 expected.2.2
    | appendFailed | replyFailed => contradiction
  all_goals contradiction

end ReplyForm

section Calls

variable {form : ReplyForm}

/-- The program asks nothing of a server. -/
abbrev AsksNothing {α : Type} (form : ReplyForm) (known : α → Prop)
    (program : MwProgram α) : Prop :=
  Settles form.Copes (Unmarked (fun event => form.Unexpected event ∨ Accepts event) known) program

/-- The value of the program shows whether a host has accepted a connection. -/
abbrev Connects {α : Type} (form : ReplyForm) (before : Prop) (shown : α → Prop)
    (program : MwProgram α) : Prop :=
  Settles form.Copes (Shows form.Unexpected Accepts before shown) program

theorem asksNothing_newConnection : AsksNothing form (fun _ => True) newConnection := by
  refine .request ?_ fun _ broken => absurd trivial broken
  intro id _
  exact .pure ⟨by simp [ReplyForm.Unexpected, Accepts], trivial⟩

theorem asksNothing_deleteConnection (conn : CConnection) :
    AsksNothing form (fun _ => True) (deleteConnection conn) := by
  refine .request ?_ fun _ broken => absurd trivial broken
  intro _ _
  exact .pure ⟨by simp [ReplyForm.Unexpected, Accepts], trivial⟩

theorem asksNothing_reserve (capacity : Nat) :
    AsksNothing form (fun _ => True) (reserve capacity) := by
  apply Settles.request
  · rintro granted (rfl : granted = true)
    exact .pure ⟨by simp [ReplyForm.Unexpected, Accepts], trivial⟩
  · intro granted refused
    have notGranted : granted = false := by simpa [ReplyForm.Copes] using refused
    rw [notGranted]
    exact .fail _

/-- A connect returns true exactly when the host accepts, and leaves a context
then. -/
theorem settles_connect (conn : CConnection) (host : Bytes) (port timeoutSec : Nat) :
    Settles form.Copes
      (fun trace result =>
        Shows form.Unexpected Accepts False (fun result => result.1 = true) trace result ∧
          (result.1 = true → ∃ c, result.2.contextPtr = some c))
      (MwProgram.redis (conn.connect host port timeoutSec)) := by
  apply Settles.request
  · intro answer copes
    cases answer with
    | noContext => exact absurd rfl copes
    | refused =>
        refine .pure ⟨⟨by simp [ReplyForm.Unexpected], ?_⟩, nofun⟩
        simp [Accepts]
    | connected =>
        dsimp only
        split
        · apply Settles.request
          · intro error _
            cases error with
            | none =>
                refine .pure ⟨⟨by simp [ReplyForm.Unexpected], ?_⟩, fun _ => ⟨_, rfl⟩⟩
                simp [Accepts]
            | some error =>
                refine .pure ⟨⟨by simp [ReplyForm.Unexpected], ?_⟩, fun _ => ⟨_, rfl⟩⟩
                simp [Accepts]
          · exact fun _ broken => absurd trivial broken
        · refine .pure ⟨⟨by simp [ReplyForm.Unexpected], ?_⟩, fun _ => ⟨_, rfl⟩⟩
          simp [Accepts]
  · intro answer broken
    cases answer with
    | noContext => exact .fail _
    | refused => exact absurd nofun broken
    | connected => exact absurd nofun broken

theorem connects_connect (conn : CConnection) (host : Bytes) (port timeoutSec : Nat) :
    Connects form False (fun result => result.1 = true)
      (MwProgram.redis (conn.connect host port timeoutSec)) :=
  (settles_connect conn host port timeoutSec).mono fun _ _ holds => holds.1

theorem leavesContext_connect (conn : CConnection) (host : Bytes) (port timeoutSec : Nat) :
    Settles form.Copes
      (Unmarked form.Unexpected fun result =>
        result.1 = true → ∃ c, result.2.contextPtr = some c)
      (MwProgram.redis (conn.connect host port timeoutSec)) :=
  (settles_connect conn host port timeoutSec).mono fun _ _ holds => ⟨holds.1.1, holds.2⟩

theorem AsksNothing.unmarked {α : Type} {known : α → Prop} {program : MwProgram α}
    (quiet : AsksNothing form known program) :
    Settles form.Copes (Unmarked form.Unexpected known) program :=
  quiet.mono fun _ _ unmarked => unmarked.mono fun _ => .inl

/-- A command is sent: its reply, or a client error, is handled, and a reply that
cannot be read ends the process. -/
theorem settles_sendCommand {α : Type} {post : List (Event MwOp MwAns) → α → Prop}
    {conn : CConnection} {c : RedisContext} (valid : conn.contextPtr = some c) {cmd : CCommand}
    (wellFormed : cmd.WellFormed) {next : CReply × CConnection → MwProgram α}
    (failed : ∀ (answer : CommandAnswer) (error : RedisError) after,
      form.Unexpected ⟨.redis (.commandArgv c cmd.lstCommandBuffer), answer⟩ →
      ¬ form.Misread ⟨.redis (.commandArgv c cmd.lstCommandBuffer), answer⟩ →
        Settles form.Copes
          (fun rest => post (⟨.redis (.commandArgv c cmd.lstCommandBuffer), answer⟩ :: rest))
          (next (.ofError error.err error.errstr, after)))
    (replied : ∀ reply after c', after.contextPtr = some c' →
      form.read cmd.lstCommandBuffer (.ofRaw reply) →
        Settles form.Copes
          (fun rest =>
            post (⟨.redis (.commandArgv c cmd.lstCommandBuffer), .reply reply⟩ :: rest))
          (next (.ofRaw reply, after)))
    (unreadable : ∀ reply after, ¬ form.read cmd.lstCommandBuffer (.ofRaw reply) →
      Fails (next (.ofRaw reply, after))) :
    Settles form.Copes post ((MwProgram.redis (conn.sendCommand cmd)).bind next) := by
  rw [CConnection.sendCommand, CConnection.context, valid, wellFormed.argv_eq]
  apply Settles.request
  · intro answer copes
    cases answer with
    | appendFailed error => exact failed (.appendFailed error) error _ trivial id
    | replyFailed error => exact failed (.replyFailed error) error _ trivial id
    | reply reply => exact replied reply _ _ rfl copes
  · intro answer broken
    cases answer with
    | appendFailed error => exact absurd trivial broken
    | replyFailed error => exact absurd trivial broken
    | reply reply => exact unreadable reply _ broken

/-- A reply that nothing comes out of is of another type than the expected one. -/
theorem judged_nothing {α : Type} {nothing : α → Prop} {argv : List Bytes} {c : RedisContext}
    {reply : RedisReply} {rest : List (Event MwOp MwAns)} {value : α}
    (untyped : ¬ form.typed argv (.ofRaw reply)) (right : ∀ event ∈ rest, ¬ form.Unexpected event)
    (holds : nothing value) :
    Judged form.Unexpected form.Misread Accepts nothing
      (⟨.redis (.commandArgv c argv), .reply reply⟩ :: rest) value := by
  refine .of_noticed ?_ fun _ => holds
  refine List.forall_mem_cons.mpr ⟨fun misread => untyped misread.1, ?_⟩
  exact fun event mem misread => right event mem (form.unexpected_of_misread event misread)

/-- What is opened behind a reply of the expected type that can be read. -/
theorem judged_opened {α : Type} {nothing : α → Prop} {argv : List Bytes} {c : RedisContext}
    {reply : RedisReply} {rest : List (Event MwOp MwAns)} {value : α}
    (typed : form.typed argv (.ofRaw reply)) (read : form.read argv (.ofRaw reply))
    (shows : Shows form.Unexpected Accepts False (fun value => ¬ nothing value) rest value) :
    Judged form.Unexpected form.Misread Accepts nothing
      (⟨.redis (.commandArgv c argv), .reply reply⟩ :: rest) value := by
  by_cases kinds : form.kinds argv (.ofRaw reply)
  · refine .of_right form.unexpected_of_misread (List.forall_mem_cons.mpr ⟨?_, shows.1⟩)
    exact fun unexpected => unexpected ⟨typed, read, kinds⟩
  · exact .of_misread form.unexpected_of_misread
      ⟨⟨.redis (.commandArgv c argv), .reply reply⟩, List.mem_singleton_self _, typed, kinds⟩
      (List.pairwise_singleton _ _) shows

end Calls

/-! ## What is read -/

theorem replyAt_ok_iff {rpy sub : CReply} {index : Nat} :
    replyAt rpy index = .ok sub ↔ rpy.getReplies[index]? = some sub := by
  unfold replyAt
  split
  · rename_i other found
    rw [found]
    exact ⟨fun equal => congrArg some (Except.ok.inj equal),
      fun equal => congrArg Except.ok (Option.some.inj equal)⟩
  · rename_i absent
    rw [absent]
    exact iff_of_false nofun nofun

theorem exists_getElem? {α : Type} {elements : List α} {index : Nat}
    (inside : index < elements.length) : ∃ element, elements[index]? = some element :=
  ⟨elements[index], List.getElem?_eq_getElem inside⟩

/-- A number that `std::stoull` converts. -/
def Convertible (text : Bytes) : Prop :=
  ∃ number, stoull text = .ok number

/-- A listed node: two slots and the address of a master. -/
def NodeShape (nodes : CReply) : Prop :=
  ∃ master, nodes.getReplies[2]? = some master ∧ 2 ≤ master.getReplies.length

theorem nodeOf_succeeds_iff {nodes : CReply} :
    (∃ node, nodeOf nodes = .ok node) ↔ NodeShape nodes := by
  simp only [nodeOf, except_bind_succeeds_iff, replyAt_ok_iff]
  constructor
  · rintro ⟨_, _, _, _, master, masterEq, _, _, port, portEq, _⟩
    exact ⟨master, masterEq, (List.getElem?_eq_some_iff.mp portEq).1⟩
  · rintro ⟨master, masterEq, address⟩
    have long := (List.getElem?_eq_some_iff.mp masterEq).1
    obtain ⟨beginSlot, beginEq⟩ := exists_getElem? (show 0 < nodes.getReplies.length by omega)
    obtain ⟨endSlot, endEq⟩ := exists_getElem? (show 1 < nodes.getReplies.length by omega)
    obtain ⟨ip, ipEq⟩ := exists_getElem? (show 0 < master.getReplies.length by omega)
    obtain ⟨port, portEq⟩ := exists_getElem? (show 1 < master.getReplies.length by omega)
    exact ⟨beginSlot, beginEq, endSlot, endEq, master, masterEq, ip, ipEq, port, portEq, _, rfl⟩

/-- The address of a master whose port is a number. -/
def MasterShape (rpy : CReply) : Prop :=
  ∃ port, rpy.getReplies[1]? = some port ∧ Convertible port.getStr

/-- The fields of a slave: a number at the port's position, and fields as far as
they are looked at. -/
def SlaveShape (sub : CReply) : Prop :=
  (∃ port, sub.getReplies[5]? = some port ∧ Convertible port.getStr) ∧
    ∃ flag, sub.getReplies[9]? = some flag ∧
      (flag.getStr = slaveText → 23 < sub.getReplies.length)

theorem masterOf_succeeds_iff {rpy : CReply} (size : 2 ≤ rpy.getReplies.length) :
    (∃ address, masterOf rpy = .ok address) ↔ MasterShape rpy := by
  simp only [masterOf, except_bind_succeeds_iff, replyAt_ok_iff]
  constructor
  · rintro ⟨_, _, port, portEq, number, converted, _⟩
    exact ⟨port, portEq, number, converted⟩
  · rintro ⟨port, portEq, number, converted⟩
    obtain ⟨ip, ipEq⟩ := exists_getElem? (show 0 < rpy.getReplies.length by omega)
    exact ⟨ip, ipEq, port, portEq, number, converted, _, rfl⟩

theorem slaveOf_succeeds_iff {sub : CReply} :
    (∃ slave, slaveOf sub = .ok slave) ↔ SlaveShape sub := by
  simp only [slaveOf, except_bind_succeeds_iff, replyAt_ok_iff]
  constructor
  · rintro ⟨_, _, port, portEq, number, converted, flag, flagEq, _, read⟩
    refine ⟨⟨port, portEq, number, converted⟩, flag, flagEq, ?_⟩
    intro isSlave
    rw [if_neg (not_not.mpr isSlave)] at read
    obtain ⟨roleReported, roleEq, _⟩ := except_bind_ok read
    exact (List.getElem?_eq_some_iff.mp (replyAt_ok_iff.mp roleEq)).1
  · rintro ⟨⟨port, portEq, number, converted⟩, flag, flagEq, long⟩
    have inside := (List.getElem?_eq_some_iff.mp flagEq).1
    obtain ⟨ip, ipEq⟩ := exists_getElem? (show 3 < sub.getReplies.length by omega)
    refine ⟨ip, ipEq, port, portEq, number, converted, flag, flagEq, ?_⟩
    by_cases isSlave : flag.getStr = slaveText
    · obtain ⟨roleReported, roleEq⟩ := exists_getElem? (long isSlave)
      rw [if_neg (not_not.mpr isSlave), replyAt_ok_iff.mpr roleEq]
      by_cases reported : roleReported.getStr = slaveText
      · exact ⟨_, if_neg (not_not.mpr reported)⟩
      · exact ⟨_, if_pos reported⟩
    · exact ⟨_, if_pos isSlave⟩

theorem slavesOf_succeeds_iff {rpy : CReply} :
    (∃ slaves, slavesOf rpy = .ok slaves) ↔ ∀ sub ∈ rpy.getReplies, SlaveShape sub := by
  simp only [slavesOf, except_bind_succeeds_iff, ← slaveOf_succeeds_iff]
  rw [← except_mapM_succeeds_iff]
  constructor
  · rintro ⟨read, readEq, _⟩
    exact ⟨read, readEq⟩
  · rintro ⟨read, readEq⟩
    exact ⟨read, readEq, _, rfl⟩

/-! ## The kinds of what is read -/

/-- The element is there, and of the kind. -/
def KindAt (rpy : CReply) (index : Nat) (kind : EType) : Prop :=
  ∃ sub, rpy.getReplies[index]? = some sub ∧ sub.getType = kind

/-- The slots of a listed node are integers, and the address of its master is an
array of a text and an integer. -/
def NodeKinds (nodes : CReply) : Prop :=
  KindAt nodes 0 .INTEGER ∧ KindAt nodes 1 .INTEGER ∧
    ∃ master, nodes.getReplies[2]? = some master ∧ master.getType = .ARRAY ∧
      KindAt master 0 .STRING ∧ KindAt master 1 .INTEGER

/-- The address of the master is two texts. -/
def MasterKinds (rpy : CReply) : Prop :=
  KindAt rpy 0 .STRING ∧ KindAt rpy 1 .STRING

/-- The fields of a slave are texts, as far as they are looked at. -/
def SlaveKinds (sub : CReply) : Prop :=
  KindAt sub 3 .STRING ∧ KindAt sub 5 .STRING ∧ KindAt sub 9 .STRING ∧
    ((∃ flag, sub.getReplies[9]? = some flag ∧ flag.getStr = slaveText) → KindAt sub 23 .STRING)

/-! ## The cluster -/

namespace CClusterSupport

/-- What `_getNodes` asks of the replies to its commands. -/
def replyForm : ReplyForm where
  typed argv rpy :=
    (argv = clusterInfo.lstCommandBuffer → rpy.getType = .STRING) ∧
      (argv = clusterSlots.lstCommandBuffer → rpy.getType = .ARRAY)
  read argv rpy :=
    (argv = clusterInfo.lstCommandBuffer → rpy.getType = .STRING →
      (fnToStatusMap rpy.getStr).lookup (literal "cluster_state") = some (literal "ok") →
        ∀ value, (fnToStatusMap rpy.getStr).lookup (literal "cluster_known_nodes") = some value →
          Convertible value) ∧
      (argv = clusterSlots.lstCommandBuffer → ∀ nodes ∈ rpy.getReplies, NodeShape nodes)
  kinds argv rpy :=
    argv = clusterSlots.lstCommandBuffer → ∀ nodes ∈ rpy.getReplies, NodeKinds nodes

theorem clusterInfo_ne_clusterSlots :
    clusterInfo.lstCommandBuffer ≠ clusterSlots.lstCommandBuffer := by
  decide

theorem wellFormed_clusterInfo : clusterInfo.WellFormed :=
  CCommand.wellFormed_ofTexts _

theorem wellFormed_clusterSlots : clusterSlots.WellFormed :=
  CCommand.wellFormed_ofTexts _

theorem typed_info {rpy : CReply} :
    replyForm.typed clusterInfo.lstCommandBuffer rpy ↔ rpy.getType = .STRING := by
  simp [replyForm, clusterInfo_ne_clusterSlots]

theorem typed_slots {rpy : CReply} :
    replyForm.typed clusterSlots.lstCommandBuffer rpy ↔ rpy.getType = .ARRAY := by
  simp [replyForm, clusterInfo_ne_clusterSlots.symm]

theorem read_info {rpy : CReply} :
    replyForm.read clusterInfo.lstCommandBuffer rpy ↔
      (rpy.getType = .STRING →
        (fnToStatusMap rpy.getStr).lookup (literal "cluster_state") = some (literal "ok") →
          ∀ value, (fnToStatusMap rpy.getStr).lookup (literal "cluster_known_nodes") = some value →
            Convertible value) := by
  simp [replyForm, clusterInfo_ne_clusterSlots]

theorem read_slots {rpy : CReply} :
    replyForm.read clusterSlots.lstCommandBuffer rpy ↔
      ∀ nodes ∈ rpy.getReplies, NodeShape nodes := by
  simp [replyForm, clusterInfo_ne_clusterSlots.symm]

/-- The reply to `CLUSTER info` is not misread. -/
theorem not_misread_info (c : RedisContext) (answer : CommandAnswer) :
    ¬ replyForm.Misread ⟨.redis (.commandArgv c clusterInfo.lstCommandBuffer), answer⟩ := by
  cases answer with
  | reply reply =>
      exact fun misread => misread.2 fun slots => absurd slots clusterInfo_ne_clusterSlots
  | appendFailed | replyFailed => exact id

theorem settles_connectAny (timeoutSec : Nat) (lstHost : List (Bytes × Nat)) :
    Settles replyForm.Copes
      (Unmarked replyForm.Unexpected fun conn =>
        ∀ connection, conn = some connection → ∃ c, connection.contextPtr = some c)
      (connectAny timeoutSec lstHost) := by
  induction lstHost with
  | nil => exact .pure ⟨List.forall_mem_nil _, nofun⟩
  | cons address rest ih =>
      apply Settles.bind_unmarked asksNothing_newConnection.unmarked
      intro connection _
      apply Settles.bind_unmarked
        (leavesContext_connect connection address.1 address.2 timeoutSec)
      rintro ⟨connected, connection⟩ valid
      cases connected with
      | false => exact ih
      | true =>
          refine .pure ⟨List.forall_mem_nil _, ?_⟩
          rintro _ ⟨⟩
          exact valid rfl

theorem asksNothing_reserveNodes {infoStatus : List (Bytes × Bytes)}
    (convertible : ∀ value, infoStatus.lookup (literal "cluster_known_nodes") = some value →
      Convertible value) :
    AsksNothing replyForm (fun _ => True) (reserveNodes infoStatus) := by
  unfold reserveNodes
  split
  · exact .pure ⟨List.forall_mem_nil _, trivial⟩
  · rename_i value found
    obtain ⟨number, numberEq⟩ := convertible value found
    rw [numberEq]
    exact asksNothing_reserve number

theorem fails_reserveNodes {infoStatus : List (Bytes × Bytes)} {value : Bytes}
    (found : infoStatus.lookup (literal "cluster_known_nodes") = some value)
    (notConvertible : ¬ Convertible value) : Fails (reserveNodes infoStatus) := by
  rw [reserveNodes, found]
  apply Fails.bind
  apply Leaves.ofExcept
  exact fun number numberEq => notConvertible ⟨number, numberEq⟩

theorem getReplies_of_not_array {reply : RedisReply}
    (notArray : (CReply.ofRaw reply).getType ≠ .ARRAY) : (CReply.ofRaw reply).getReplies = [] := by
  cases reply with
  | array elements => exact absurd rfl notArray
  | _ => rfl

/-- What `_getNodes` lists: nothing after an unexpected reply, unless one was misread,
behind which no connection is accepted any more. -/
inductive Listed (trace : List (Event MwOp MwAns)) (lstNode : List Node) : Prop
  | noticed : (∀ event ∈ trace, ¬ replyForm.Misread event) →
      ((∃ event ∈ trace, replyForm.Unexpected event) → lstNode = []) → Listed trace lstNode
  | misread : (∃ event ∈ trace, replyForm.Misread event) →
      Unfollowed replyForm.Misread Accepts trace → lstNode ≠ [] → Listed trace lstNode

namespace Listed

variable {front rest : List (Event MwOp MwAns)} {event : Event MwOp MwAns} {lstNode : List Node}

/-- Expected replies in front of the others. -/
theorem after (right : ∀ event ∈ front, ¬ replyForm.Unexpected event)
    (listed : Listed rest lstNode) : Listed (front ++ rest) lstNode := by
  have noneMisread : ∀ event ∈ front, ¬ replyForm.Misread event := fun event mem misread =>
    right event mem (replyForm.unexpected_of_misread event misread)
  cases listed with
  | noticed noticed nothing =>
      refine .noticed (List.forall_mem_append.mpr ⟨noneMisread, noticed⟩) ?_
      rintro ⟨event, mem, unexpected⟩
      rcases List.mem_append.mp mem with old | new
      · exact absurd unexpected (right event old)
      · exact nothing ⟨event, new, unexpected⟩
  | misread misread unfollowed some =>
      obtain ⟨event, mem, isMisread⟩ := misread
      refine .misread ⟨event, List.mem_append_right front mem, isMisread⟩ ?_ some
      refine List.pairwise_append.mpr ⟨Unfollowed.of_none noneMisread, unfollowed, ?_⟩
      exact fun event mem _ _ isMisread => absurd isMisread (noneMisread event mem)

/-- Without an unexpected reply, anything may be listed. -/
theorem of_right (right : ∀ event ∈ rest, ¬ replyForm.Unexpected event) :
    Listed rest lstNode := by
  refine .noticed ?_ ?_
  · exact fun event mem misread => right event mem (replyForm.unexpected_of_misread event misread)
  · rintro ⟨event, mem, unexpected⟩
    exact absurd unexpected (right event mem)

/-- Nothing is listed behind a reply that is noticed. -/
theorem nothing (noticed : ¬ replyForm.Misread event)
    (right : ∀ event ∈ rest, ¬ replyForm.Unexpected event) (empty : lstNode = []) :
    Listed (event :: rest) lstNode := by
  refine .noticed ?_ fun _ => empty
  refine List.forall_mem_cons.mpr ⟨noticed, fun event mem misread => ?_⟩
  exact right event mem (replyForm.unexpected_of_misread event misread)

/-- No node is listed after an unexpected reply exactly when none was misread. -/
theorem empty_iff (listed : Listed rest lstNode) :
    ((∃ event ∈ rest, replyForm.Unexpected event) → lstNode = []) ↔
      ∀ event ∈ rest, ¬ replyForm.Misread event := by
  cases listed with
  | noticed noticed nothing => exact iff_of_true nothing noticed
  | misread misread _ some =>
      obtain ⟨event, mem, isMisread⟩ := misread
      refine iff_of_false ?_ fun noneMisread => noneMisread event mem isMisread
      exact fun nothing => some (nothing ⟨event, mem, replyForm.unexpected_of_misread _ isMisread⟩)

end Listed

/-- Behind a reply that is noticed the connection is deleted, and there are no nodes. -/
theorem settles_giveUp {event : Event MwOp MwAns} (noticed : ¬ replyForm.Misread event)
    (conn : CConnection) :
    Settles replyForm.Copes (fun rest lstNode => Listed (event :: rest) lstNode)
      ((deleteConnection conn).bind fun _ => (.pure [] : MwProgram (List Node))) := by
  apply Settles.bind (asksNothing_deleteConnection conn).unmarked
  rintro rest _ ⟨right, _⟩
  apply Settles.pure
  rw [List.append_nil]
  exact .nothing noticed right rfl

/-- The listing is read, and the connection deleted. -/
theorem settles_readNodes {conn : CConnection} {c : RedisContext}
    (valid : conn.contextPtr = some c) :
    Settles replyForm.Copes Listed
      ((MwProgram.redis (conn.sendCommand clusterSlots)).bind fun result =>
        (Program.ofExcept (result.1.getReplies.mapM nodeOf) : MwProgram (List Node)).bind
          fun lstNode => (deleteConnection result.2).bind fun _ => .pure lstNode) := by
  apply settles_sendCommand valid wellFormed_clusterSlots
  case failed =>
    exact fun answer error after _ noticed => settles_giveUp noticed after
  case replied =>
    intro reply after c' _ read
    rw [read_slots] at read
    obtain ⟨lstNode, listed⟩ := except_mapM_succeeds_iff.mpr fun nodes mem =>
      nodeOf_succeeds_iff.mpr (read nodes mem)
    have listedLength := except_mapM_length listed
    dsimp only
    rw [listed]
    apply Settles.bind (asksNothing_deleteConnection after)
    rintro rest _ ⟨quiet, _⟩
    apply Settles.pure
    rw [List.append_nil]
    have right : ∀ event ∈ rest, ¬ replyForm.Unexpected event := fun event mem unexpected =>
      quiet event mem (.inl unexpected)
    by_cases typed : replyForm.typed clusterSlots.lstCommandBuffer (.ofRaw reply)
    · by_cases kinds : replyForm.kinds clusterSlots.lstCommandBuffer (.ofRaw reply)
      · rw [← read_slots] at read
        refine .of_right (List.forall_mem_cons.mpr ⟨?_, right⟩)
        exact fun unexpected => unexpected ⟨typed, read, kinds⟩
      · refine .misread ⟨_, List.mem_cons_self, typed, kinds⟩ ?_ ?_
        · refine List.pairwise_cons.mpr ⟨?_, Unfollowed.of_none ?_⟩
          · exact fun later mem _ accepted => quiet later mem (.inr accepted)
          · exact fun event mem misread =>
              right event mem (replyForm.unexpected_of_misread event misread)
        · rintro rfl
          have empty := List.eq_nil_of_length_eq_zero listedLength.symm
          refine kinds fun _ nodes mem => ?_
          rw [empty] at mem
          contradiction
    · rw [typed_slots] at typed
      refine .nothing (fun misread => typed (typed_slots.mp misread.1)) right ?_
      rw [getReplies_of_not_array typed] at listedLength
      exact List.eq_nil_of_length_eq_zero listedLength
  case unreadable =>
    intro reply after unreadable
    rw [read_slots] at unreadable
    apply Fails.bind
    apply Leaves.ofExcept
    intro lstNode listed
    apply unreadable
    intro nodes mem
    exact nodeOf_succeeds_iff.mp (except_mapM_succeeds_iff.mp ⟨lstNode, listed⟩ nodes mem)

theorem settles_getNodes (mw : CClusterSupport) :
    Settles replyForm.Copes Listed mw._getNodes := by
  apply Settles.bind (settles_connectAny mw.timeoutSec mw.lstHost)
  rintro front conn ⟨right, valid⟩
  have afterFront : ∀ rest lstNode, Listed rest lstNode → Listed (front ++ rest) lstNode :=
    fun _ _ => Listed.after right
  cases conn with
  | none =>
      refine .pure (afterFront _ _ (.noticed (List.forall_mem_nil _) fun _ => rfl))
  | some conn =>
      obtain ⟨c, valid⟩ := valid conn rfl
      refine Settles.mono ?_ afterFront
      apply settles_sendCommand valid wellFormed_clusterInfo
      case failed =>
        exact fun answer error after _ noticed => settles_giveUp noticed after
      case replied =>
        intro reply after c' valid' read
        dsimp only
        split
        · exact settles_giveUp (not_misread_info c (.reply reply)) after
        · rename_i healthy
          obtain ⟨typed, ok⟩ := not_or.mp healthy
          have readInfo := read_info.mp read (not_not.mp typed) (not_not.mp ok)
          apply Settles.bind (asksNothing_reserveNodes readInfo).unmarked
          rintro reserved _ ⟨right, _⟩
          apply (settles_readNodes valid').mono
          intro rest lstNode listed
          rw [← List.cons_append]
          refine listed.after (List.forall_mem_cons.mpr ⟨?_, ?_⟩)
          · refine fun unexpected => unexpected ⟨typed_info.mpr (not_not.mp typed), read, ?_⟩
            exact fun slots => absurd slots clusterInfo_ne_clusterSlots
          · exact right
      case unreadable =>
        intro reply after unreadable
        rw [read_info] at unreadable
        push Not at unreadable
        obtain ⟨typed, ok, value, found, notConvertible⟩ := unreadable
        dsimp only
        rw [if_neg (not_or.mpr ⟨not_not.mpr typed, not_not.mpr ok⟩)]
        exact Fails.bind (fails_reserveNodes found notConvertible) _

theorem connects_connectNode (mw : CClusterSupport) (node : Node) :
    Connects replyForm False (fun result => result.1 = true) (mw.connectNode node) := by
  apply Settles.bind_quiet asksNothing_newConnection
  intro newConnection _
  apply Settles.bind_shows (connects_connect newConnection _ _ _)
  rintro ⟨connected, newConnection⟩
  cases connected <;> exact .pure (.nil Iff.rfl)

theorem connects_createNode (mw : CClusterSupport) (node : Node) (num : Nat)
    (lstConn : List CConnection) :
    Connects replyForm (lstConn ≠ []) (fun lstConn => lstConn ≠ [])
      (mw.createNode node num lstConn) := by
  induction num generalizing lstConn with
  | zero => exact .pure (.nil Iff.rfl)
  | succ num ih =>
      have connects := (connects_connectNode mw node).mono fun _ _ shows =>
        shows.earlier (lstConn ≠ [])
      apply Settles.bind_shows connects
      rintro ⟨connected, newConnection⟩
      cases connected with
      | true => exact (ih _).mono fun _ _ shows => shows.congr (by simp)
      | false => exact (ih lstConn).mono fun _ _ shows => shows.congr (by simp)

theorem connects_createNodes (mw : CClusterSupport) (num : Nat) (lstNode : List Node)
    (lstConn : List CConnection) :
    Connects replyForm (lstConn ≠ []) (fun lstConn => lstConn ≠ [])
      (mw.createNodes num lstNode lstConn) := by
  induction lstNode generalizing lstConn with
  | nil => exact .pure (.nil Iff.rfl)
  | cons node lstNode ih =>
      apply Settles.bind_shows (connects_createNode mw node num lstConn)
      exact fun lstConn => ih lstConn

/-- What a function opens for the nodes that are listed. -/
theorem settles_opened {α : Type} {nothing : α → Prop} (mw : CClusterSupport)
    {next : List Node → MwProgram α}
    (opens : ∀ lstNode, Connects replyForm False (fun value => ¬ nothing value) (next lstNode))
    (noNode : Settles replyForm.Copes (Unmarked replyForm.Unexpected nothing) (next [])) :
    Settles replyForm.Copes (Judged replyForm.Unexpected replyForm.Misread Accepts nothing)
      (mw._getNodes.bind next) := by
  apply Settles.bind (settles_getNodes mw)
  intro front lstNode listed
  cases listed with
  | noticed noticed empty =>
      by_cases right : ∀ event ∈ front, ¬ replyForm.Unexpected event
      · apply (opens lstNode).mono
        exact fun rest value shows => .after replyForm.unexpected_of_misread right
          (.of_right replyForm.unexpected_of_misread shows.1)
      · push Not at right
        rw [empty right]
        apply noNode.mono
        rintro rest value ⟨restRight, holds⟩
        refine .of_noticed (List.forall_mem_append.mpr ⟨noticed, ?_⟩) fun _ => holds
        exact fun event mem misread =>
          restRight event mem (replyForm.unexpected_of_misread event misread)
  | misread misread unfollowed _ =>
      apply (opens lstNode).mono
      exact fun rest value shows =>
        .of_misread replyForm.unexpected_of_misread misread unfollowed shows

theorem settles_create (mw : CClusterSupport) (num : Nat) :
    Settles replyForm.Copes
      (Judged replyForm.Unexpected replyForm.Misread Accepts fun lstConn => lstConn = [])
      (mw.create num) := by
  apply settles_opened
  · intro lstNode
    apply Settles.bind_quiet (asksNothing_reserve _)
    intro _ _
    exact (connects_createNodes mw num lstNode []).mono fun _ _ shows => shows.congr (by simp)
  · apply Settles.bind_unmarked (asksNothing_reserve _).unmarked
    exact fun _ _ => .pure ⟨List.forall_mem_nil _, rfl⟩

theorem settles_getConnection (mw : CClusterSupport) (slot : Nat) :
    Settles replyForm.Copes
      (Judged replyForm.Unexpected replyForm.Misread Accepts fun conn => conn = none)
      (mw.getConnection slot) := by
  apply settles_opened
  · intro lstNode
    split
    · exact .pure (.nil (by simp))
    · rename_i node found
      apply Settles.bind_shows (connects_connectNode mw node)
      rintro ⟨connected, newConnection⟩
      cases connected with
      | true => exact .pure (.nil (by simp))
      | false =>
          apply Settles.bind_quiet (asksNothing_deleteConnection newConnection)
          exact fun _ _ => .pure (.nil (by simp))
  · exact .pure ⟨List.forall_mem_nil _, rfl⟩

end CClusterSupport

/-! ## The sentinels -/

namespace CSentinelSupport

/-- What `getConnection` asks of the reply to its command. -/
def replyForm (mw : CSentinelSupport) : ReplyForm where
  typed argv rpy :=
    (argv = mw.masterCommand.lstCommandBuffer →
      rpy.getType = .ARRAY ∧ 2 ≤ rpy.getReplies.length) ∧
    (argv = mw.slavesCommand.lstCommandBuffer → rpy.getType = .ARRAY)
  read argv rpy :=
    (argv = mw.masterCommand.lstCommandBuffer →
      rpy.getType = .ARRAY → 2 ≤ rpy.getReplies.length → MasterShape rpy) ∧
    (argv = mw.slavesCommand.lstCommandBuffer →
      rpy.getType = .ARRAY → ∀ sub ∈ rpy.getReplies, SlaveShape sub)
  kinds argv rpy :=
    (argv = mw.masterCommand.lstCommandBuffer → MasterKinds rpy) ∧
    (argv = mw.slavesCommand.lstCommandBuffer → ∀ sub ∈ rpy.getReplies, SlaveKinds sub)

section Forms

variable (mw : CSentinelSupport)

theorem masterCommand_ne_slavesCommand :
    mw.masterCommand.lstCommandBuffer ≠ mw.slavesCommand.lstCommandBuffer := by
  intro equal
  have second := congrArg (fun argv => argv[1]?) equal
  exact absurd (Option.some.inj second) (by decide)

theorem wellFormed_masterCommand : mw.masterCommand.WellFormed :=
  CCommand.wellFormed_ofTexts _

theorem wellFormed_slavesCommand : mw.slavesCommand.WellFormed :=
  CCommand.wellFormed_ofTexts _

theorem typed_master {rpy : CReply} :
    mw.replyForm.typed mw.masterCommand.lstCommandBuffer rpy ↔
      rpy.getType = .ARRAY ∧ 2 ≤ rpy.getReplies.length := by
  simp [replyForm, mw.masterCommand_ne_slavesCommand]

theorem typed_slaves {rpy : CReply} :
    mw.replyForm.typed mw.slavesCommand.lstCommandBuffer rpy ↔ rpy.getType = .ARRAY := by
  simp [replyForm, mw.masterCommand_ne_slavesCommand.symm]

theorem read_master {rpy : CReply} :
    mw.replyForm.read mw.masterCommand.lstCommandBuffer rpy ↔
      (rpy.getType = .ARRAY → 2 ≤ rpy.getReplies.length → MasterShape rpy) := by
  simp [replyForm, mw.masterCommand_ne_slavesCommand]

theorem read_slaves {rpy : CReply} :
    mw.replyForm.read mw.slavesCommand.lstCommandBuffer rpy ↔
      (rpy.getType = .ARRAY → ∀ sub ∈ rpy.getReplies, SlaveShape sub) := by
  simp [replyForm, mw.masterCommand_ne_slavesCommand.symm]

theorem settles_connectSentinel (timeoutSec : Nat) (lstSentinel : List (Bytes × Nat)) :
    Settles mw.replyForm.Copes
      (Unmarked mw.replyForm.Unexpected fun sentinel =>
        ∀ connection, sentinel = some connection → ∃ c, connection.contextPtr = some c)
      (connectSentinel timeoutSec lstSentinel) := by
  induction lstSentinel with
  | nil => exact .pure ⟨List.forall_mem_nil _, nofun⟩
  | cons address rest ih =>
      apply Settles.bind_unmarked asksNothing_newConnection.unmarked
      intro sentinel _
      apply Settles.bind_unmarked (leavesContext_connect sentinel address.1 address.2 timeoutSec)
      rintro ⟨connected, sentinel⟩ valid
      cases connected with
      | false =>
          apply Settles.bind_unmarked (asksNothing_deleteConnection sentinel).unmarked
          exact fun _ _ => ih
      | true =>
          refine .pure ⟨List.forall_mem_nil _, ?_⟩
          rintro _ ⟨⟩
          exact valid rfl

theorem connects_openConnection (address : Bytes × Nat) (timeoutSec : Nat) :
    Connects mw.replyForm False (fun opened => ¬ opened = none)
      (openConnection (.ok address) timeoutSec) := by
  apply Settles.bind_quiet asksNothing_newConnection
  intro newConnection _
  apply Settles.bind_shows (connects_connect newConnection address.1 address.2 timeoutSec)
  rintro ⟨connected, newConnection⟩
  cases connected with
  | true => exact .pure (.nil (by simp))
  | false =>
      apply Settles.bind_quiet (asksNothing_deleteConnection newConnection)
      exact fun _ _ => .pure (.nil (by simp))

/-- The connection a reply names goes to the caller as it was opened. -/
theorem connects_openNamed (address : Bytes × Nat) (timeoutSec : Nat) (after : CConnection) :
    Connects mw.replyForm False (fun result => ¬ result.1 = none)
      ((openConnection (.ok address) timeoutSec).bind fun newConnection =>
        .pure (newConnection, after)) := by
  apply Settles.bind_shows (mw.connects_openConnection address timeoutSec)
  exact fun opened => .pure (.nil Iff.rfl)

theorem settles_openMaster {sentinel : CConnection} {c : RedisContext}
    (valid : sentinel.contextPtr = some c) :
    Settles mw.replyForm.Copes
      (Judged mw.replyForm.Unexpected mw.replyForm.Misread Accepts fun result => result.1 = none)
      (mw.openMaster sentinel) := by
  apply settles_sendCommand valid mw.wellFormed_masterCommand
  case failed =>
    intro answer error after _ noticed
    exact .pure (.of_noticed (List.forall_mem_singleton.mpr noticed) fun _ => rfl)
  case replied =>
    intro reply after c' _ read
    by_cases typed : mw.replyForm.typed mw.masterCommand.lstCommandBuffer (.ofRaw reply)
    · obtain ⟨array, size⟩ := mw.typed_master.mp typed
      obtain ⟨address, addressEq⟩ :=
        (masterOf_succeeds_iff size).mpr (mw.read_master.mp read array size)
      dsimp only
      rw [if_neg (not_or.mpr ⟨not_not.mpr array, Nat.not_lt.mpr size⟩), addressEq]
      apply (mw.connects_openNamed address 0 after).mono
      exact fun rest result shows => judged_opened typed read shows
    · have other := typed
      rw [typed_master, Decidable.not_and_iff_or_not, Nat.not_le] at other
      dsimp only
      rw [if_pos other]
      exact .pure (judged_nothing typed (List.forall_mem_nil _) rfl)
  case unreadable =>
    intro reply after unreadable
    rw [read_master] at unreadable
    push Not at unreadable
    obtain ⟨array, size, noAddress⟩ := unreadable
    dsimp only
    rw [if_neg (not_or.mpr ⟨not_not.mpr array, Nat.not_lt.mpr size⟩)]
    apply Fails.bind
    apply Fails.bind_any
    intro newConnection
    apply Fails.bind
    apply Leaves.ofExcept
    exact fun address addressEq =>
      noAddress ((masterOf_succeeds_iff size).mp ⟨address, addressEq⟩)

theorem vectorAt_mod {α : Type} {vector : List α} (nonempty : vector ≠ []) (random : Nat) :
    ∃ elem, vectorAt vector (random % vector.length) = .ok elem := by
  have inside := Nat.mod_lt random (List.length_pos_iff.mpr nonempty)
  exact ⟨vector[random % vector.length], by rw [vectorAt, List.getElem?_eq_getElem inside]⟩

/-- One of the slaves is opened, when there is one. -/
theorem connects_openTarget (slaves : List (Bytes × Nat)) (after : CConnection) :
    Connects mw.replyForm False (fun result => ¬ result.1 = none)
      (if slaves = [] then .pure (none, after)
      else (Program.perform MwOp.rand : MwProgram Nat).bind fun random =>
        (Program.ofExcept (vectorAt slaves (random % slaves.length)) : MwProgram _).bind
          fun target => (openConnection (.ok target) mw.timeoutSec).bind fun newConnection =>
            .pure (newConnection, after)) := by
  by_cases empty : slaves = []
  · rw [if_pos empty]
    exact .pure (.nil (by simp))
  · rw [if_neg empty]
    have quietRand : AsksNothing mw.replyForm (fun _ => True) (Program.perform MwOp.rand) := by
      refine .request ?_ fun _ broken => absurd trivial broken
      exact fun _ _ => .pure ⟨by simp [ReplyForm.Unexpected, Accepts], trivial⟩
    apply Settles.bind_quiet quietRand
    intro random _
    obtain ⟨target, targetEq⟩ := vectorAt_mod empty random
    rw [targetEq]
    exact mw.connects_openNamed target mw.timeoutSec after

theorem settles_openSlave {sentinel : CConnection} {c : RedisContext}
    (valid : sentinel.contextPtr = some c) :
    Settles mw.replyForm.Copes
      (Judged mw.replyForm.Unexpected mw.replyForm.Misread Accepts fun result => result.1 = none)
      (mw.openSlave sentinel) := by
  apply settles_sendCommand valid mw.wellFormed_slavesCommand
  case failed =>
    intro answer error after _ noticed
    exact .pure (.of_noticed (List.forall_mem_singleton.mpr noticed) fun _ => rfl)
  case replied =>
    intro reply after c' _ read
    by_cases typed : mw.replyForm.typed mw.slavesCommand.lstCommandBuffer (.ofRaw reply)
    · have array := mw.typed_slaves.mp typed
      obtain ⟨slaves, slavesEq⟩ := slavesOf_succeeds_iff.mpr (mw.read_slaves.mp read array)
      dsimp only
      rw [if_neg (not_not.mpr array), slavesEq]
      refine Settles.mono ?_ fun rest result shows => judged_opened typed read shows
      apply Settles.bind_quiet (asksNothing_reserve _)
      exact fun _ _ => mw.connects_openTarget slaves after
    · have other := typed
      rw [typed_slaves] at other
      dsimp only
      rw [if_pos other]
      exact .pure (judged_nothing typed (List.forall_mem_nil _) rfl)
  case unreadable =>
    intro reply after unreadable
    rw [read_slaves] at unreadable
    push Not at unreadable
    obtain ⟨array, sub, subMem, noSlave⟩ := unreadable
    dsimp only
    rw [if_neg (not_not.mpr array)]
    apply Fails.bind_any
    intro _
    apply Fails.bind
    apply Leaves.ofExcept
    exact fun slaves slavesEq => noSlave (slavesOf_succeeds_iff.mp ⟨slaves, slavesEq⟩ sub subMem)

theorem settles_openRole {sentinel : CConnection} {c : RedisContext}
    (valid : sentinel.contextPtr = some c) :
    Settles mw.replyForm.Copes
      (Judged mw.replyForm.Unexpected mw.replyForm.Misread Accepts fun result => result.1 = none)
      (mw.openRole sentinel) := by
  unfold openRole
  cases mw.role with
  | MASTER => exact mw.settles_openMaster valid
  | SLAVE => exact mw.settles_openSlave valid

theorem asksNothing_runCallback (conn : CConnection) :
    AsksNothing mw.replyForm (fun _ => True) (mw.runCallback conn) := by
  unfold runCallback
  split
  · refine .request ?_ fun _ broken => absurd trivial broken
    exact fun _ _ => .pure ⟨by simp [ReplyForm.Unexpected, Accepts], trivial⟩
  · exact .pure ⟨List.forall_mem_nil _, trivial⟩

/-- The callback is called, and the connection to the sentinel deleted. -/
theorem asksNothing_deliver (newConnection : Option CConnection) (sentinel : CConnection) :
    AsksNothing mw.replyForm (fun conn => conn = none ↔ newConnection = none)
      (match newConnection with
      | none => (deleteConnection sentinel).bind fun _ => .pure none
      | some newConnection =>
          (mw.runCallback newConnection).bind fun newConnection =>
            (deleteConnection sentinel).bind fun _ => .pure (some newConnection)) := by
  cases newConnection with
  | none =>
      apply Settles.bind_unmarked (asksNothing_deleteConnection sentinel)
      exact fun _ _ => .pure ⟨List.forall_mem_nil _, Iff.rfl⟩
  | some newConnection =>
      apply Settles.bind_unmarked (mw.asksNothing_runCallback newConnection)
      intro newConnection _
      apply Settles.bind_unmarked (asksNothing_deleteConnection sentinel)
      exact fun _ _ => .pure ⟨List.forall_mem_nil _, by simp⟩

theorem settles_getConnection (slot : Nat) :
    Settles mw.replyForm.Copes
      (Judged mw.replyForm.Unexpected mw.replyForm.Misread Accepts fun conn => conn = none)
      (mw.getConnection slot) := by
  have isWrong := mw.replyForm.unexpected_of_misread
  apply Settles.bind (mw.settles_connectSentinel mw.timeoutSec mw.lstSentinel)
  rintro front sentinel ⟨right, valid⟩
  refine Settles.mono ?_ fun rest conn judged => .after isWrong right judged
  cases sentinel with
  | none => exact .pure (.of_right isWrong (List.forall_mem_nil _))
  | some sentinel =>
      obtain ⟨c, valid⟩ := valid sentinel rfl
      apply Settles.bind (mw.settles_openRole valid)
      rintro opening ⟨newConnection, sentinel⟩ judged
      apply (mw.asksNothing_deliver newConnection sentinel).mono
      rintro rest conn ⟨quiet, same⟩
      exact judged.quiet isWrong quiet same

end Forms

end CSentinelSupport

/-! ## Normal returns -/

/-- The function returns, and a reply of an unexpected form gives nothing. -/
def NormalReturn {α : Type} (form : ReplyForm) (nothing : α) (trace : List (Event MwOp MwAns))
    (result : Except Fault α) : Prop :=
  ∃ value, result = .ok value ∧ ((∃ event ∈ trace, form.Unexpected event) → value = nothing)

/-- The functions return normally exactly when what they read of every reply is
there, the memory they ask for is granted, and no reply with elements of another
kind leads to a node, or to a connection that a host accepts. -/
theorem normalReturn_iff (mw : CClusterSupport) (sentinels : CSentinelSupport) (num slot : Nat) :
    (∀ trace result, Exec mw._getNodes trace result →
      (NormalReturn CClusterSupport.replyForm [] trace result ↔
        (∀ event ∈ trace, CClusterSupport.replyForm.Copes event) ∧
          ∀ event ∈ trace, ¬ CClusterSupport.replyForm.Misread event)) ∧
    (∀ trace result, Exec (mw.create num) trace result →
      (NormalReturn CClusterSupport.replyForm [] trace result ↔
        (∀ event ∈ trace, CClusterSupport.replyForm.Copes event) ∧
          Unfollowed CClusterSupport.replyForm.Misread Accepts trace)) ∧
    (∀ trace result, Exec (mw.getConnection slot) trace result →
      (NormalReturn CClusterSupport.replyForm none trace result ↔
        (∀ event ∈ trace, CClusterSupport.replyForm.Copes event) ∧
          Unfollowed CClusterSupport.replyForm.Misread Accepts trace)) ∧
    ∀ trace result, Exec (sentinels.getConnection slot) trace result →
      (NormalReturn sentinels.replyForm none trace result ↔
        (∀ event ∈ trace, sentinels.replyForm.Copes event) ∧
          Unfollowed sentinels.replyForm.Misread Accepts trace) := by
  refine ⟨?_, ?_, ?_, ?_⟩
  · intro trace result exec
    rw [← mw.settles_getNodes.returns_iff trace result exec]
    constructor
    · rintro ⟨lstNode, rfl, holds⟩
      refine ⟨⟨lstNode, rfl⟩, ?_⟩
      exact (mw.settles_getNodes.leaves.exec trace lstNode exec).empty_iff.mp holds
    · rintro ⟨⟨lstNode, rfl⟩, noneMisread⟩
      refine ⟨lstNode, rfl, ?_⟩
      exact (mw.settles_getNodes.leaves.exec trace lstNode exec).empty_iff.mpr noneMisread
  · intro trace result exec
    exact (mw.settles_create num).returns_judged_iff exec
  · intro trace result exec
    exact (mw.settles_getConnection slot).returns_judged_iff exec
  · intro trace result exec
    exact (sentinels.settles_getConnection slot).returns_judged_iff exec

/-- A listed range without a node ends the process. -/
theorem getNodes_terminates :
    ∃ trace result, Exec (CClusterSupport._getNodes ⟨[([0x61], 7001)], 0⟩) trace result ∧
      ¬ NormalReturn CClusterSupport.replyForm [] trace result := by
  have exec : ∃ trace, Exec (CClusterSupport._getNodes ⟨[([0x61], 7001)], 0⟩) trace
      (.error .terminate) := by
    apply Exists.intro
    change Exec (Program.request MwOp.newConnection _) _ _
    apply Exec.request _ (0 : Nat)
    change Exec (Program.request (MwOp.redis (.connectWithTimeout _ _ _)) _) _ _
    apply Exec.request _ ConnectAnswer.connected
    change Exec (Program.request (MwOp.redis (.commandArgv _ _)) _) _ _
    apply Exec.request _ (CommandAnswer.reply (.string (literal "cluster_state:ok\r\n")))
    change Exec (Program.request (MwOp.redis (.commandArgv _ _)) _) _ _
    apply Exec.request _ (CommandAnswer.reply (.array [.array [.integer 0, .integer 16383]]))
    exact Exec.fail Fault.terminate
  obtain ⟨trace, exec⟩ := exec
  refine ⟨trace, _, exec, ?_⟩
  rintro ⟨_, returned, _⟩
  contradiction

end MCRedis.MiddleWare
