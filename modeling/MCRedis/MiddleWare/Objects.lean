import MCRedis.Container.Custody
import MCRedis.MiddleWare.Sentinel
import MCRedis.Transition.Traces

/-!
# The connection objects of a call

Every `CConnection` that a call of a middleware allocates should be released
when the call returns, or be given to the caller.  The ledger of a call is read
off the events of its execution.

The functions of the cluster leave behind the objects of refused connects, but
for the connect to the node of `getConnection`; the functions of the sentinels
delete them.
-/

namespace MCRedis.MiddleWare

open MCRedis.Client
open MCRedis.Container
open MCRedis.Transition

/-- `new CConnection` and `delete`. -/
def objects : Custody (Event MwOp MwAns) Nat where
  opens
    | ⟨.newConnection, id⟩ => [id]
    | _ => []
  closes
    | ⟨.deleteConnection id, _⟩ => [id]
    | _ => []

/-- What a connect is answered. -/
def connectAnswer : Event MwOp MwAns → Option ConnectAnswer
  | ⟨.redis (.connectWithTimeout _ _ _), answer⟩ => some answer
  | _ => none

/-- The answers to the connects of a call. -/
def connects (trace : List (Event MwOp MwAns)) : List ConnectAnswer :=
  trace.filterMap connectAnswer

def ids (lstConn : List CConnection) : List Nat :=
  lstConn.map CConnection.id

/-- Events that concern no object and no connect. -/
def Quiet (trace : List (Event MwOp MwAns)) : Prop :=
  ∀ event ∈ trace, (objects.opens event = [] ∧ objects.closes event = []) ∧
    connectAnswer event = none

/-- The balance of a part of a call, and the answers to its connects. -/
structure Tally (held : List Nat) (trace : List (Event MwOp MwAns)) (after : List Nat)
    (answers : List ConnectAnswer) : Prop where
  balanced : objects.Balanced held trace after
  answered : connects trace = answers

namespace Tally

variable {held middle after : List Nat} {first second : List (Event MwOp MwAns)}
  {answers later : List ConnectAnswer}

theorem nil (held : List Nat) : Tally held [] held [] :=
  ⟨.nil held, rfl⟩

theorem append (before : Tally held first middle answers)
    (behind : Tally middle second after later) :
    Tally held (first ++ second) after (answers ++ later) where
  balanced := before.balanced.append behind.balanced
  answered := by
    rw [connects, List.filterMap_append]
    exact congrArg₂ _ before.answered behind.answered

theorem frame (tally : Tally held first after answers) (others : List Nat) :
    Tally (held ++ others) first (after ++ others) answers :=
  ⟨tally.balanced.frame others, tally.answered⟩

theorem perm (tally : Tally held first after answers) {other : List Nat}
    (rearranged : after.Perm other) : Tally held first other answers :=
  ⟨tally.balanced.perm_after rearranged, tally.answered⟩

end Tally

theorem Quiet.append {first second : List (Event MwOp MwAns)} (front : Quiet first)
    (back : Quiet second) : Quiet (first ++ second) :=
  List.forall_mem_append.mpr ⟨front, back⟩

theorem Quiet.tally {trace : List (Event MwOp MwAns)} (quiet : Quiet trace) (held : List Nat) :
    Tally held trace held [] where
  balanced := .of_quiet (fun event mem => (quiet event mem).1) held
  answered := List.filterMap_eq_nil_iff.mpr fun event mem => (quiet event mem).2

/-- The answer to a connect that returns as given. -/
def answerOf (connected : Bool) : ConnectAnswer :=
  if connected then .connected else .refused

/-! ## The single operations -/

theorem leaves_newConnection (held : List Nat) :
    Leaves (fun trace conn => Tally held trace (conn.id :: held) []) newConnection := by
  apply Leaves.request
  intro id
  apply Leaves.pure
  refine ⟨?_, rfl⟩
  exact List.perm_append_comm

theorem leaves_deleteConnection (conn : CConnection) (held : List Nat) :
    Leaves (fun trace _ => Tally (conn.id :: held) trace held []) (deleteConnection conn) := by
  apply Leaves.request
  intro _
  apply Leaves.pure
  exact ⟨by simp [Custody.Balanced, Custody.opened, Custody.closed, objects], rfl⟩

theorem leaves_reserve (capacity : Nat) :
    Leaves (fun trace _ => Quiet trace) (reserve capacity) := by
  apply Leaves.request
  intro granted
  cases granted with
  | true => exact .pure (by simp [Quiet, objects, connectAnswer])
  | false => exact .fail _

theorem leaves_sendCommand (conn : CConnection) (cmd : CCommand) :
    Leaves (fun trace result => Quiet trace ∧ result.2.id = conn.id)
      (MwProgram.redis (conn.sendCommand cmd)) := by
  rw [CConnection.sendCommand]
  cases conn.context with
  | error fault => exact .fail fault
  | ok c =>
      cases cmd.argv with
      | error fault => exact .fail fault
      | ok argv =>
          apply Leaves.request
          intro answer
          cases answer <;> exact .pure ⟨by simp [Quiet, objects, connectAnswer], rfl⟩

/-- A connect has one answer, which says what the connect returns. -/
theorem leaves_connect (conn : CConnection) (host : Bytes) (port timeoutSec : Nat) :
    Leaves (fun trace result =>
        (∀ held, Tally held trace held [answerOf result.1]) ∧ result.2.id = conn.id)
      (MwProgram.redis (conn.connect host port timeoutSec)) := by
  apply Leaves.request
  intro answer
  cases answer with
  | noContext => exact .fail _
  | refused => exact .pure ⟨fun held => ⟨.of_quiet (by simp [objects]) held, rfl⟩, rfl⟩
  | connected =>
      dsimp only
      split
      · apply Leaves.request
        intro error
        cases error <;>
          exact .pure ⟨fun held => ⟨.of_quiet (by simp [objects]) held, rfl⟩, rfl⟩
      · exact .pure ⟨fun held => ⟨.of_quiet (by simp [objects]) held, rfl⟩, rfl⟩

/-- A new object, and the answer to its connect. -/
theorem leaves_connectNew {α : Type} {held : List Nat} {host : Bytes} {port timeoutSec : Nat}
    {post : List (Event MwOp MwAns) → α → Prop} {next : Bool × CConnection → MwProgram α}
    (after : ∀ trace connected conn, Tally held trace (conn.id :: held) [answerOf connected] →
      Leaves (fun rest => post (trace ++ rest)) (next (connected, conn))) :
    Leaves post (newConnection.bind fun conn =>
      (MwProgram.redis (conn.connect host port timeoutSec)).bind next) := by
  apply Leaves.bind (leaves_newConnection held)
  intro front conn allocated
  apply Leaves.bind (leaves_connect conn host port timeoutSec)
  rintro trace ⟨connected, opened⟩ ⟨tally, sameId⟩
  have connecting := allocated.append (tally (conn.id :: held))
  rw [← sameId] at connecting
  simpa only [List.append_assoc] using after (front ++ trace) connected opened connecting

/-! ## The cluster -/

namespace CClusterSupport

/-- The objects of the refused connects are left behind, and the object of the
connection that is found is given. -/
theorem leaves_connectAny (timeoutSec : Nat) (lstHost : List (Bytes × Nat)) :
    Leaves (fun trace conn => ∃ leaked, Tally [] trace (ids conn.toList ++ leaked)
        (List.replicate leaked.length .refused ++ conn.toList.map fun _ => .connected))
      (connectAny timeoutSec lstHost) := by
  induction lstHost with
  | nil => exact .pure ⟨[], .nil []⟩
  | cons address rest ih =>
      apply leaves_connectNew
      intro trace connected conn connecting
      cases connected with
      | true => exact .pure ⟨[], by simpa [ids, answerOf] using connecting⟩
      | false =>
          apply ih.mono
          rintro later found ⟨leaked, tally⟩
          refine ⟨leaked ++ [conn.id], ?_⟩
          have both := connecting.append (tally.frame [conn.id])
          simpa [List.replicate_succ, answerOf, ids] using both

theorem leaves_reserveNodes (infoStatus : List (Bytes × Bytes)) :
    Leaves (fun trace _ => Quiet trace) (reserveNodes infoStatus) := by
  unfold reserveNodes
  split
  · exact .pure (List.forall_mem_nil _)
  · rename_i value _
    cases stoull value with
    | ok number => exact leaves_reserve number
    | error fault => exact .fail fault

/-- Of the objects of `_getNodes`, those of refused connects are left; they are
followed by the connect that is not refused, without which there are no nodes. -/
def NodesTally (trace : List (Event MwOp MwAns)) (lstNode : List Node) : Prop :=
  ∃ leaked found, Tally [] trace leaked (List.replicate leaked.length .refused ++ found) ∧
    (found = [.connected] ∨ found = [] ∧ lstNode = [])

theorem leaves_getNodes (mw : CClusterSupport) : Leaves NodesTally mw._getNodes := by
  apply Leaves.bind (leaves_connectAny mw.timeoutSec mw.lstHost)
  rintro front conn ⟨leaked, tally⟩
  cases conn with
  | none =>
      apply Leaves.pure
      rw [List.append_nil]
      exact ⟨leaked, [], tally, .inr ⟨rfl, rfl⟩⟩
  | some conn =>
      have deleted : ∀ trace, Quiet trace → ∀ after : CConnection, after.id = conn.id →
          ∀ lstNode, Leaves (fun rest => NodesTally (front ++ (trace ++ rest)))
            ((deleteConnection after).bind fun _ => (.pure lstNode : MwProgram (List Node))) := by
        intro trace quiet after sameId lstNode
        apply Leaves.bind (leaves_deleteConnection after leaked)
        intro rest _ closing
        apply Leaves.pure
        rw [List.append_nil]
        rw [sameId] at closing
        have both := tally.append ((quiet.tally (conn.id :: leaked)).append closing)
        exact ⟨leaked, [.connected], by simpa using both, .inl rfl⟩
      apply Leaves.bind (leaves_sendCommand conn clusterInfo)
      rintro info ⟨rpy, conn'⟩ ⟨quietInfo, sameId⟩
      dsimp only
      split
      · exact deleted info quietInfo conn' sameId []
      · apply Leaves.bind (leaves_reserveNodes _)
        intro reserved _ quietReserved
        apply Leaves.bind (leaves_sendCommand conn' clusterSlots)
        rintro slots ⟨rpy, conn''⟩ ⟨quietSlots, sameId'⟩
        have quiet := quietInfo.append (quietReserved.append quietSlots)
        cases rpy.getReplies.mapM nodeOf with
        | error fault => exact .fail fault
        | ok lstNode => simpa using deleted _ quiet conn'' (sameId'.trans sameId) lstNode

theorem leaves_connectNode (mw : CClusterSupport) (node : Node) (held : List Nat) :
    Leaves (fun trace result =>
        Tally held trace (result.2.id :: held) [answerOf result.1]) (mw.connectNode node) := by
  apply leaves_connectNew
  intro trace connected conn connecting
  cases connected <;>
  · apply Leaves.pure
    rw [List.append_nil]
    exact connecting

/-- The objects of the refused connects are left besides the connections. -/
def ListTally (before : List CConnection) (trace : List (Event MwOp MwAns))
    (lstConn : List CConnection) : Prop :=
  ∃ leaked answers, Tally (ids before) trace (ids lstConn ++ leaked) answers ∧
    (leaked = [] ↔ .refused ∉ answers)

theorem ListTally.append {before middle after : List CConnection}
    {first second : List (Event MwOp MwAns)} (front : ListTally before first middle)
    (back : ListTally middle second after) : ListTally before (first ++ second) after := by
  obtain ⟨leaked, answers, tally, leakedIff⟩ := front
  obtain ⟨later, answers', tally', laterIff⟩ := back
  refine ⟨later ++ leaked, answers ++ answers', ?_, ?_⟩
  · simpa using tally.append (tally'.frame leaked)
  · rw [List.append_eq_nil_iff, leakedIff, laterIff, List.mem_append, not_or, and_comm]

theorem leaves_createNode (mw : CClusterSupport) (node : Node) (num : Nat)
    (lstConn : List CConnection) :
    Leaves (ListTally lstConn) (mw.createNode node num lstConn) := by
  induction num generalizing lstConn with
  | zero => exact .pure ⟨[], [], by simpa using Tally.nil (ids lstConn), by simp⟩
  | succ num ih =>
      apply Leaves.bind (leaves_connectNode mw node (ids lstConn))
      rintro front ⟨connected, conn⟩ connecting
      cases connected with
      | true =>
          apply (ih (lstConn ++ [conn])).mono
          intro rest after back
          refine ListTally.append ⟨[], [.connected], ?_, by simp⟩ back
          apply connecting.perm
          simpa [ids] using (List.perm_append_singleton conn.id (ids lstConn)).symm
      | false =>
          apply (ih lstConn).mono
          intro rest after back
          refine ListTally.append ⟨[conn.id], [.refused], ?_, by simp⟩ back
          apply connecting.perm
          exact (List.perm_append_singleton conn.id (ids lstConn)).symm

theorem leaves_createNodes (mw : CClusterSupport) (num : Nat) (lstNode : List Node)
    (lstConn : List CConnection) :
    Leaves (ListTally lstConn) (mw.createNodes num lstNode lstConn) := by
  induction lstNode generalizing lstConn with
  | nil => exact .pure ⟨[], [], by simpa using Tally.nil (ids lstConn), by simp⟩
  | cons node lstNode ih =>
      apply Leaves.bind (leaves_createNode mw node num lstConn)
      intro front middle tally
      exact (ih middle).mono fun rest after back => tally.append back

/-- All connects of `create` leave what they are refused behind. -/
theorem leaves_create (mw : CClusterSupport) (num : Nat) :
    Leaves (ListTally []) (mw.create num) := by
  apply Leaves.bind (leaves_getNodes mw)
  rintro front lstNode ⟨leaked, found, tally, ends⟩
  apply Leaves.bind (leaves_reserve _)
  intro reserved _ quiet
  have opening : ListTally [] (front ++ reserved) [] := by
    refine ⟨leaked, _, tally.append (quiet.tally leaked), ?_⟩
    rcases ends with rfl | ⟨rfl, _⟩ <;> simp [List.mem_replicate]
  apply (leaves_createNodes mw num lstNode []).mono
  intro rest lstConn back
  rw [← List.append_assoc]
  exact opening.append back

/-- The objects that `getConnection` leaves behind are those of the hosts that
refuse. -/
theorem leaves_getConnection (mw : CClusterSupport) (slot : Nat) :
    Leaves (fun trace conn => ∃ leaked answers, Tally [] trace (ids conn.toList ++ leaked) answers ∧
        (leaked = [] ↔ answers.head? ≠ some .refused))
      (mw.getConnection slot) := by
  apply Leaves.bind (leaves_getNodes mw)
  rintro front lstNode ⟨leaked, found, tally, ends⟩
  have headIff : ∀ later, (found = [] → later = []) →
      (leaked = [] ↔
        (List.replicate leaked.length ConnectAnswer.refused ++ found ++ later).head? ≠
          some .refused) := by
    intro later alone
    cases leaked with
    | cons id leaked => simp [List.replicate_succ]
    | nil => rcases ends with rfl | ⟨rfl, _⟩ <;> simp [alone]
  split
  · apply Leaves.pure
    rw [List.append_nil]
    refine ⟨leaked, _, tally, ?_⟩
    simpa using headIff [] fun _ => rfl
  · rename_i node foundNode
    have someNode : found ≠ [] := by
      rintro rfl
      rcases ends with ends | ⟨_, rfl⟩ <;> contradiction
    apply Leaves.bind (leaves_connectNode mw node leaked)
    rintro trace ⟨connected, conn⟩ connecting
    have both := tally.append connecting
    cases connected with
    | true =>
        apply Leaves.pure
        rw [List.append_nil]
        exact ⟨leaked, _, both, headIff _ fun empty => absurd empty someNode⟩
    | false =>
        apply Leaves.bind (leaves_deleteConnection conn leaked)
        intro rest _ closing
        apply Leaves.pure
        rw [List.append_nil, ← List.append_assoc]
        refine ⟨leaked, _, both.append closing, ?_⟩
        rw [List.append_nil]
        exact headIff _ fun empty => absurd empty someNode

end CClusterSupport

/-! ## The sentinels -/

namespace CSentinelSupport

theorem leaves_connectSentinel (timeoutSec : Nat) (lstSentinel : List (Bytes × Nat)) :
    Leaves (fun trace sentinel => ∃ answers, Tally [] trace (ids sentinel.toList) answers)
      (connectSentinel timeoutSec lstSentinel) := by
  induction lstSentinel with
  | nil => exact .pure ⟨[], .nil []⟩
  | cons address rest ih =>
      apply leaves_connectNew
      intro trace connected sentinel connecting
      cases connected with
      | true => exact .pure ⟨_, by simpa [ids] using connecting⟩
      | false =>
          apply Leaves.bind (leaves_deleteConnection sentinel [])
          intro closed _ closing
          apply ih.mono
          rintro later found ⟨answers, tally⟩
          exact ⟨_, connecting.append (closing.append tally)⟩

theorem leaves_openConnection (target : Except Fault (Bytes × Nat)) (timeoutSec : Nat)
    (held : List Nat) :
    Leaves (fun trace conn => ∃ answers, Tally held trace (ids conn.toList ++ held) answers)
      (openConnection target timeoutSec) := by
  cases target with
  | error fault =>
      apply Leaves.bind (leaves_newConnection held)
      exact fun _ _ _ => .fail fault
  | ok address =>
      apply leaves_connectNew
      intro trace connected conn connecting
      cases connected with
      | true => exact .pure ⟨_, by simpa [ids] using connecting⟩
      | false =>
          apply Leaves.bind (leaves_deleteConnection conn held)
          intro closed _ closing
          apply Leaves.pure
          rw [List.append_nil]
          exact ⟨_, connecting.append closing⟩

theorem leaves_openMaster (mw : CSentinelSupport) (sentinel : CConnection) (held : List Nat) :
    Leaves (fun trace result => result.2.id = sentinel.id ∧
        ∃ answers, Tally held trace (ids result.1.toList ++ held) answers)
      (mw.openMaster sentinel) := by
  apply Leaves.bind (leaves_sendCommand sentinel mw.masterCommand)
  rintro front ⟨rpy, sentinel'⟩ ⟨quiet, sameId⟩
  dsimp only
  split
  · apply Leaves.pure
    rw [List.append_nil]
    exact ⟨sameId, [], quiet.tally held⟩
  · apply Leaves.bind (leaves_openConnection (masterOf rpy) 0 held)
    rintro trace conn ⟨answers, tally⟩
    apply Leaves.pure
    rw [List.append_nil]
    exact ⟨sameId, _, (quiet.tally held).append tally⟩

theorem leaves_openSlave (mw : CSentinelSupport) (sentinel : CConnection) (held : List Nat) :
    Leaves (fun trace result => result.2.id = sentinel.id ∧
        ∃ answers, Tally held trace (ids result.1.toList ++ held) answers)
      (mw.openSlave sentinel) := by
  apply Leaves.bind (leaves_sendCommand sentinel mw.slavesCommand)
  rintro front ⟨rpy, sentinel'⟩ ⟨quiet, sameId⟩
  dsimp only
  split
  · apply Leaves.pure
    rw [List.append_nil]
    exact ⟨sameId, [], quiet.tally held⟩
  · apply Leaves.bind (leaves_reserve _)
    intro reserved _ quietReserved
    have quietBoth := quiet.append quietReserved
    cases slavesOf rpy with
    | error fault => exact .fail fault
    | ok slaves =>
        rw [Program.ofExcept_ok]
        change Leaves _ (if slaves = [] then _ else _)
        split
        · apply Leaves.pure
          rw [List.append_nil]
          exact ⟨sameId, [], quietBoth.tally held⟩
        · apply Leaves.request
          intro random
          rw [Program.bind_pure_left]
          cases vectorAt slaves (random % slaves.length) with
          | error fault => exact .fail fault
          | ok target =>
              apply Leaves.bind (leaves_openConnection (.ok target) mw.timeoutSec held)
              rintro trace conn ⟨answers, tally⟩
              apply Leaves.pure
              have chosen : Quiet [⟨MwOp.rand, random⟩] := by
                simp [Quiet, objects, connectAnswer]
              have all := ((quietBoth.append chosen).tally held).append tally
              exact ⟨sameId, _, by simpa using all⟩

/-- The role opens at most one connection besides the one to the sentinel. -/
theorem leaves_openRole (mw : CSentinelSupport) (sentinel : CConnection) (held : List Nat) :
    Leaves (fun trace result => result.2.id = sentinel.id ∧
        ∃ answers, Tally held trace (ids result.1.toList ++ held) answers)
      (mw.openRole sentinel) := by
  unfold openRole
  cases mw.role with
  | MASTER => exact leaves_openMaster mw sentinel held
  | SLAVE => exact leaves_openSlave mw sentinel held

theorem leaves_runCallback (mw : CSentinelSupport) (conn : CConnection) :
    Leaves (fun trace called => Quiet trace ∧ called.id = conn.id) (mw.runCallback conn) := by
  unfold runCallback
  split
  · apply Leaves.request
    intro called
    exact .pure ⟨by simp [Quiet, objects, connectAnswer], rfl⟩
  · exact .pure ⟨List.forall_mem_nil _, rfl⟩

/-- Nothing is left besides the connection that is given. -/
theorem leaves_getConnection (mw : CSentinelSupport) (slot : Nat) :
    Leaves (fun trace conn => ∃ answers, Tally [] trace (ids conn.toList) answers)
      (mw.getConnection slot) := by
  apply Leaves.bind (leaves_connectSentinel mw.timeoutSec mw.lstSentinel)
  rintro front sentinel ⟨answers, tally⟩
  cases sentinel with
  | none =>
      apply Leaves.pure
      rw [List.append_nil]
      exact ⟨answers, tally⟩
  | some sentinel =>
      apply Leaves.bind (leaves_openRole mw sentinel [sentinel.id])
      rintro trace ⟨conn, sentinel'⟩ ⟨sameId, answers', opening⟩
      have both := tally.append opening
      cases conn with
      | none =>
          apply Leaves.bind (leaves_deleteConnection sentinel' [])
          intro rest _ closing
          apply Leaves.pure
          rw [sameId] at closing
          exact ⟨_, by simpa [ids] using both.append closing⟩
      | some conn =>
          apply Leaves.bind (leaves_runCallback mw conn)
          rintro called conn' ⟨quiet, keptId⟩
          apply Leaves.bind (leaves_deleteConnection sentinel' [conn.id])
          intro rest _ closing
          apply Leaves.pure
          rw [sameId] at closing
          have swapped := both.perm (List.Perm.swap sentinel.id conn.id [])
          have all := swapped.append ((quiet.tally _).append closing)
          exact ⟨_, by simpa [ids, keptId] using all⟩

end CSentinelSupport

/-! ## The accounts -/

/-- When the objects of a call are distinct, the functions of the cluster account
for all of them exactly when no connect was refused, of which the first one
matters when a single connection is opened; the function of the sentinels
always does. -/
theorem accounted_iff_connected (mw : CClusterSupport) (sentinels : CSentinelSupport)
    (num slot : Nat) :
    (∀ trace lstNode, Exec mw._getNodes trace (.ok lstNode) →
      (objects.opened trace).Nodup →
        (objects.Accounted trace [] ↔ (connects trace).head? ≠ some .refused)) ∧
    (∀ trace lstConn, Exec (mw.create num) trace (.ok lstConn) →
      (objects.opened trace).Nodup →
        (objects.Accounted trace (ids lstConn) ↔ .refused ∉ connects trace)) ∧
    (∀ trace conn, Exec (mw.getConnection slot) trace (.ok conn) →
      (objects.opened trace).Nodup →
        (objects.Accounted trace (ids conn.toList) ↔
          (connects trace).head? ≠ some .refused)) ∧
    ∀ trace conn, Exec (sentinels.getConnection slot) trace (.ok conn) →
      (objects.opened trace).Nodup → objects.Accounted trace (ids conn.toList) := by
  refine ⟨?_, ?_, ?_, ?_⟩
  · intro trace lstNode exec distinct
    obtain ⟨leaked, found, tally, ends⟩ := (mw.leaves_getNodes).exec trace lstNode exec
    rw [tally.balanced.accounted_iff distinct, tally.answered]
    cases leaked with
    | cons id leaked => simp [List.replicate_succ]
    | nil => rcases ends with rfl | ⟨rfl, _⟩ <;> simp
  · intro trace lstConn exec distinct
    obtain ⟨leaked, answers, tally, leakedIff⟩ := (mw.leaves_create num).exec trace lstConn exec
    rw [Custody.Balanced.accounted_iff tally.balanced distinct, tally.answered, leakedIff]
  · intro trace conn exec distinct
    obtain ⟨leaked, answers, tally, leakedIff⟩ :=
      (mw.leaves_getConnection slot).exec trace conn exec
    rw [tally.balanced.accounted_iff distinct, tally.answered, leakedIff]
  · intro trace conn exec distinct
    obtain ⟨answers, tally⟩ := (sentinels.leaves_getConnection slot).exec trace conn exec
    have balanced := tally.balanced
    rw [← List.append_nil (ids conn.toList)] at balanced
    exact (balanced.accounted_iff distinct).mpr rfl

/-- The only host refuses: no node is listed, and the object is never deleted. -/
theorem refused_host_leaks :
    ∃ trace, Exec (CClusterSupport._getNodes ⟨[([0x61], 7001)], 0⟩) trace (.ok []) ∧
      (objects.opened trace).Nodup ∧ ¬ objects.Accounted trace [] := by
  refine ⟨[⟨.newConnection, (0 : Nat)⟩,
    ⟨.redis (.connectWithTimeout [0x61] 7001 0), ConnectAnswer.refused⟩], ?_, by decide, ?_⟩
  · change Exec (Program.request MwOp.newConnection _) _ _
    refine Exec.request_iff.mpr ⟨(0 : Nat), _, rfl, ?_⟩
    change Exec (Program.request (MwOp.redis (.connectWithTimeout _ _ _)) _) _ _
    refine Exec.request_iff.mpr ⟨ConnectAnswer.refused, _, rfl, ?_⟩
    exact Exec.pure []
  · intro accounted
    rcases (accounted 0 (by decide)).1 with deleted | given
    · exact absurd deleted (by decide)
    · exact absurd given List.not_mem_nil

end MCRedis.MiddleWare
