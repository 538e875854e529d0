import MCRedis.MiddleWare.Default
import MCRedis.MiddleWare.Sentinel
import MCRedis.Transition.Mending

/-!
# The connections that are given

A middleware gives connections as they are after a timeout is set and after the
callback has run.  Both may leave an error number behind, and neither is looked
at.  Whether a connection is given with an error can be read off the events of
the call.
-/

namespace MCRedis.MiddleWare.Health

open MCRedis.Client
open MCRedis.Transition

/-- What the destructor of a handle asks of a connection before it files it. -/
def Healthy (conn : CConnection) : Prop :=
  conn.errorNo = .ok 0

theorem healthy_setError (conn : CConnection) (c : RedisContext) (error : RedisError) :
    Healthy (conn.setContext (c.setError error)) ↔ error.err = 0 :=
  ⟨Except.ok.inj, congrArg Except.ok⟩

/-- A timeout that cannot be set, and a callback, may leave an error.  It does not
matter where a callback follows, which decides anew, or a command: those are sent
on connections that are not given. -/
def damage : Mending (Event MwOp MwAns) where
  damages
    | ⟨.redis (.setTimeout _ _), some error⟩ => error.err ≠ 0
    | ⟨.connectionCallback _, conn⟩ => ¬ Healthy conn
    | _ => False
  repairs
    | ⟨.redis (.commandArgv _ _), _⟩ => True
    | ⟨.connectionCallback _, _⟩ => True
    | _ => False

/-- The connection that a call gives is healthy exactly when the call is mended. -/
def Gives (trace : List (Event MwOp MwAns)) (opened : Option CConnection) : Prop :=
  damage.Closes trace (∀ conn ∈ opened, Healthy conn)

/-- The same of the connections that a loop adds to its list. -/
def Adds (before : List CConnection) (trace : List (Event MwOp MwAns))
    (lstConn : List CConnection) : Prop :=
  ∃ added, lstConn = before ++ added ∧ damage.Closes trace (∀ conn ∈ added, Healthy conn)

theorem Adds.nil (before : List CConnection) : Adds before [] before :=
  ⟨[], (List.append_nil before).symm, Mending.Closes.nil.congr (by simp)⟩

theorem Adds.append {before middle after : List CConnection}
    {first second : List (Event MwOp MwAns)} (front : Adds before first middle)
    (back : Adds middle second after) : Adds before (first ++ second) after := by
  obtain ⟨added, rfl, closes⟩ := front
  obtain ⟨added', rfl, closes'⟩ := back
  refine ⟨added ++ added', List.append_assoc before added added', ?_⟩
  exact (closes.append closes').congr List.forall_mem_append.symm

/-- An event without damage. -/
theorem leads_quiet {event : Event MwOp MwAns} (harmless : ¬ damage.damages event) :
    damage.Leads [event] True :=
  .single (iff_of_false harmless (not_not_intro trivial))

/-! ## The single operations -/

theorem leaves_deleteConnection (conn : CConnection) :
    Leaves (fun trace _ => damage.Opens trace True) (deleteConnection conn) := by
  apply Leaves.request
  intro _
  exact .pure (.cons id id .nil)

theorem leaves_reserve (capacity : Nat) :
    Leaves (fun trace _ => damage.Opens trace True) (reserve capacity) := by
  apply Leaves.request
  intro granted
  cases granted with
  | true => exact .pure (.cons id id .nil)
  | false => exact .fail _

theorem leaves_sendCommand (conn : CConnection) (cmd : CCommand) :
    Leaves (fun trace _ => damage.Begins trace ∧ damage.Leads trace True)
      (MwProgram.redis (conn.sendCommand cmd)) := by
  rw [CConnection.sendCommand]
  cases conn.context with
  | error fault => exact .fail fault
  | ok c =>
      cases cmd.argv with
      | error fault => exact .fail fault
      | ok argv =>
          apply Leaves.request
          intro answer
          cases answer <;>
            exact .pure ⟨Mending.begins_cons_iff.mpr trivial, leads_quiet id⟩

/-- A connect leaves an error only where the timeout cannot be set. -/
theorem leaves_connect (conn : CConnection) (host : Bytes) (port timeoutSec : Nat) :
    Leaves (fun trace result => damage.Leads trace (result.1 = true → Healthy result.2))
      (MwProgram.redis (conn.connect host port timeoutSec)) := by
  apply Leaves.request
  intro answer
  cases answer with
  | noContext => exact .fail _
  | refused => exact .pure ((leads_quiet id).congr (iff_of_true trivial nofun))
  | connected =>
      dsimp only
      split
      · apply Leaves.request
        intro error
        cases error with
        | none =>
            exact .pure (((leads_quiet id).append (leads_quiet id)).congr
              (iff_of_true trivial fun _ => rfl))
        | some error =>
            apply Leaves.pure
            have healthyIff := healthy_setError conn .opened error
            refine .append (leads_quiet id) (.single (not_congr ?_))
            exact ⟨fun zero _ => healthyIff.mpr zero, fun healthy => healthyIff.mp (healthy rfl)⟩
      · exact .pure ((leads_quiet id).congr (iff_of_true trivial fun _ => rfl))

/-- A new object, and a connect. -/
theorem leaves_connectNew {α : Type} {host : Bytes} {port timeoutSec : Nat}
    {post : List (Event MwOp MwAns) → α → Prop} {next : Bool × CConnection → MwProgram α}
    (after : ∀ trace connected conn, damage.Opens trace (connected = true → Healthy conn) →
      Leaves (fun rest => post (trace ++ rest)) (next (connected, conn))) :
    Leaves post (newConnection.bind fun conn =>
      (MwProgram.redis (conn.connect host port timeoutSec)).bind next) := by
  apply Leaves.request
  intro name
  apply Leaves.bind (leaves_connect (CConnection.create name) host port timeoutSec)
  rintro trace ⟨connected, opened⟩ leads
  have opens : damage.Opens (⟨.newConnection, name⟩ :: trace) (connected = true → Healthy opened) :=
    .cons id id leads
  exact after _ connected opened opens

/-- The callback decides how the connection is given. -/
theorem leaves_connectionCallback {front : List (Event MwOp MwAns)} {sound : Prop}
    (opens : damage.Opens front sound) (conn : CConnection) :
    Leaves (fun rest called => damage.Opens (front ++ rest) (Healthy called))
      (connectionCallback conn) := by
  apply Leaves.request
  intro called
  have keeps : Healthy called ↔ Healthy { called with id := conn.id } := Iff.rfl
  apply Leaves.pure
  exact opens.append_repair (.single (not_congr keeps)) (Mending.begins_cons_iff.mpr trivial)

/-! ## The loops of `create` -/

theorem leaves_createWith {getConnection : MwProgram (Option CConnection)}
    (gives : Leaves Gives getConnection) (num : Nat) (lstConn : List CConnection) :
    Leaves (Adds lstConn) (createWith getConnection num lstConn) := by
  induction num generalizing lstConn with
  | zero => exact .pure (.nil lstConn)
  | succ num ih =>
      apply Leaves.bind gives
      rintro front opened closes
      cases opened with
      | none =>
          have added : Adds lstConn front lstConn :=
            ⟨[], (List.append_nil lstConn).symm, closes.congr (by simp)⟩
          exact (ih lstConn).mono fun _ _ => added.append
      | some conn =>
          have added : Adds lstConn front (lstConn ++ [conn]) :=
            ⟨[conn], rfl, closes.congr (by simp)⟩
          exact (ih (lstConn ++ [conn])).mono fun _ _ => added.append

/-- A `create` that reserves first. -/
theorem leaves_create {getConnection : MwProgram (Option CConnection)}
    (gives : Leaves Gives getConnection) (num : Nat) :
    Leaves (Adds []) ((reserve num).bind fun _ => createWith getConnection num []) := by
  apply Leaves.bind (leaves_reserve num)
  intro front _ opens
  have reserved : Adds [] front [] := ⟨[], rfl, opens.closes.congr (by simp)⟩
  exact (leaves_createWith gives num []).mono fun _ _ => reserved.append

/-! ## The single server -/

theorem leaves_defaultConnection (mw : CDefaultMiddleWare) (slot : Nat) :
    Leaves Gives (mw.getConnection slot) := by
  apply leaves_connectNew
  intro front connected conn opens
  cases connected with
  | false =>
      apply Leaves.bind (leaves_deleteConnection conn)
      intro trace _ deleted
      apply Leaves.pure
      rw [List.append_nil]
      exact (opens.closes.append deleted.closes).congr (by simp)
  | true =>
      simp only [↓reduceIte]
      split
      · apply Leaves.bind (leaves_connectionCallback opens conn)
        intro trace called left
        apply Leaves.pure
        rw [List.append_nil]
        exact left.closes.congr (by simp)
      · apply Leaves.pure
        rw [List.append_nil]
        exact opens.closes.congr (by simp)

/-! ## The sentinels -/

/-- A connection that is only used to ask; without one, nothing has happened that
matters. -/
def Asks (trace : List (Event MwOp MwAns)) : Option CConnection → Prop
  | none => damage.Closes trace True
  | some _ => ∃ sound, damage.Opens trace sound

theorem Asks.after {front rest : List (Event MwOp MwAns)} {found : Option CConnection}
    (closes : damage.Closes front True) (asks : Asks rest found) : Asks (front ++ rest) found := by
  cases found with
  | none => exact (closes.append asks).congr and_self_iff
  | some conn =>
      obtain ⟨sound, opens⟩ := asks
      exact ⟨sound, .after closes opens⟩

theorem leaves_connectSentinel (timeoutSec : Nat) (lstSentinel : List (Bytes × Nat)) :
    Leaves Asks (CSentinelSupport.connectSentinel timeoutSec lstSentinel) := by
  induction lstSentinel with
  | nil => exact .pure Mending.Closes.nil
  | cons address rest ih =>
      apply leaves_connectNew
      intro front connected sentinel opens
      cases connected with
      | true =>
          apply Leaves.pure
          rw [List.append_nil]
          exact ⟨_, opens⟩
      | false =>
          apply Leaves.bind (leaves_deleteConnection sentinel)
          intro trace _ deleted
          have quiet : damage.Opens front True := opens.congr (by simp)
          have closes := (quiet.append deleted.leads).closes
          apply ih.mono
          intro later found asks
          rw [← List.append_assoc]
          exact .after closes asks

theorem leaves_openConnection (target : Except Fault (Bytes × Nat)) (timeoutSec : Nat) :
    Leaves (fun trace opened => damage.Opens trace (∀ conn ∈ opened, Healthy conn))
      (CSentinelSupport.openConnection target timeoutSec) := by
  cases target with
  | error fault =>
      apply Leaves.request
      exact fun _ => .fail fault
  | ok address =>
      apply leaves_connectNew
      intro front connected conn opens
      cases connected with
      | true =>
          apply Leaves.pure
          rw [List.append_nil]
          exact opens.congr (by simp)
      | false =>
          apply Leaves.bind (leaves_deleteConnection conn)
          intro trace _ deleted
          apply Leaves.pure
          rw [List.append_nil]
          have quiet : damage.Opens front True := opens.congr (by simp)
          exact (quiet.append deleted.leads).congr (by simp)

/-- What a role does begins with a command, which is sent to the sentinel. -/
def Answers (trace : List (Event MwOp MwAns)) (opened : Option CConnection) : Prop :=
  damage.Begins trace ∧ damage.Leads trace (∀ conn ∈ opened, Healthy conn)

theorem leaves_openMaster (mw : CSentinelSupport) (sentinel : CConnection) :
    Leaves (fun trace result => Answers trace result.1) (mw.openMaster sentinel) := by
  apply Leaves.bind (leaves_sendCommand sentinel mw.masterCommand)
  rintro front ⟨rpy, sentinel'⟩ ⟨begins, leads⟩
  dsimp only
  split
  · apply Leaves.pure
    rw [List.append_nil]
    exact ⟨begins, leads.congr (by simp)⟩
  · apply Leaves.bind (leaves_openConnection (masterOf rpy) 0)
    intro trace opened opens
    apply Leaves.pure
    rw [List.append_nil]
    exact ⟨Mending.begins_append begins trace, leads.append opens.leads⟩

theorem leaves_openSlave (mw : CSentinelSupport) (sentinel : CConnection) :
    Leaves (fun trace result => Answers trace result.1) (mw.openSlave sentinel) := by
  apply Leaves.bind (leaves_sendCommand sentinel mw.slavesCommand)
  rintro front ⟨rpy, sentinel'⟩ ⟨begins, leads⟩
  dsimp only
  split
  · apply Leaves.pure
    rw [List.append_nil]
    exact ⟨begins, leads.congr (by simp)⟩
  · apply Leaves.bind (leaves_reserve _)
    intro reserved _ reserving
    have both := leads.append reserving.leads
    apply Leaves.bind_ofExcept
    intro slaves _
    split
    · apply Leaves.pure
      rw [List.append_nil]
      exact ⟨Mending.begins_append begins reserved, both.congr (by simp)⟩
    · apply Leaves.request
      intro random
      apply Leaves.bind_ofExcept
      intro target _
      apply Leaves.bind (leaves_openConnection (.ok target) mw.timeoutSec)
      intro trace opened opens
      apply Leaves.pure
      have chosen : damage.Leads [⟨.rand, random⟩] True := leads_quiet id
      have all := both.append (chosen.append opens.leads)
      have answers := Mending.begins_append begins (reserved ++ (⟨.rand, random⟩ :: trace))
      exact ⟨by simpa using answers, by simpa using all⟩

theorem leaves_openRole (mw : CSentinelSupport) (sentinel : CConnection) :
    Leaves (fun trace result => Answers trace result.1) (mw.openRole sentinel) := by
  unfold CSentinelSupport.openRole
  cases mw.role with
  | MASTER => exact leaves_openMaster mw sentinel
  | SLAVE => exact leaves_openSlave mw sentinel

/-- A connection is given as the callback leaves it, and otherwise as it was
opened. -/
theorem leaves_runCallback {front : List (Event MwOp MwAns)} {conn : CConnection}
    (mw : CSentinelSupport) (opens : damage.Opens front (Healthy conn)) :
    Leaves (fun rest called => damage.Opens (front ++ rest) (Healthy called))
      (mw.runCallback conn) := by
  unfold CSentinelSupport.runCallback
  split
  · exact leaves_connectionCallback opens conn
  · apply Leaves.pure
    rw [List.append_nil]
    exact opens

theorem leaves_sentinelConnection (mw : CSentinelSupport) (slot : Nat) :
    Leaves Gives (mw.getConnection slot) := by
  apply Leaves.bind (leaves_connectSentinel mw.timeoutSec mw.lstSentinel)
  intro front sentinel asks
  cases sentinel with
  | none =>
      apply Leaves.pure
      rw [List.append_nil]
      exact asks.congr (by simp)
  | some sentinel =>
      obtain ⟨sound, opens⟩ := asks
      apply Leaves.bind (leaves_openRole mw sentinel)
      rintro trace ⟨opened, sentinel'⟩ ⟨begins, leads⟩
      have given := opens.append_repair leads begins
      cases opened with
      | none =>
          apply Leaves.bind (leaves_deleteConnection sentinel')
          intro rest _ deleted
          apply Leaves.pure
          have gives : Gives (front ++ trace ++ rest) none :=
            (given.closes.append deleted.closes).congr (by simp)
          simpa using gives
      | some conn =>
          apply Leaves.bind (leaves_runCallback mw (given.congr (by simp)))
          intro calling called left
          apply Leaves.bind (leaves_deleteConnection sentinel')
          intro rest _ deleted
          apply Leaves.pure
          have gives : Gives (front ++ trace ++ calling ++ rest) (some called) :=
            (left.closes.append deleted.closes).congr (by simp)
          simpa using gives

/-! ## The cluster -/

theorem leaves_connectAny (timeoutSec : Nat) (lstHost : List (Bytes × Nat)) :
    Leaves Asks (CClusterSupport.connectAny timeoutSec lstHost) := by
  induction lstHost with
  | nil => exact .pure Mending.Closes.nil
  | cons address rest ih =>
      apply leaves_connectNew
      intro front connected conn opens
      cases connected with
      | true =>
          apply Leaves.pure
          rw [List.append_nil]
          exact ⟨_, opens⟩
      | false =>
          have closes : damage.Closes front True := opens.closes.congr (by simp)
          apply ih.mono
          intro later found asks
          exact .after closes asks

theorem leaves_reserveNodes (infoStatus : List (Bytes × Bytes)) :
    Leaves (fun trace _ => damage.Leads trace True)
      (CClusterSupport.reserveNodes infoStatus) := by
  unfold CClusterSupport.reserveNodes
  split
  · exact .pure .nil
  · apply Leaves.bind_ofExcept
    intro number _
    exact (leaves_reserve number).mono fun _ _ opens => opens.leads

theorem leaves_getNodes (mw : CClusterSupport) :
    Leaves (fun trace _ => damage.Closes trace True) mw._getNodes := by
  apply Leaves.bind (leaves_connectAny mw.timeoutSec mw.lstHost)
  intro front conn asks
  cases conn with
  | none =>
      apply Leaves.pure
      rw [List.append_nil]
      exact asks
  | some conn =>
      obtain ⟨sound, opens⟩ := asks
      apply Leaves.bind (leaves_sendCommand conn clusterInfo)
      rintro info ⟨rpy, conn'⟩ ⟨begins, leads⟩
      have informed := opens.append_repair leads begins
      dsimp only
      split
      · apply Leaves.bind (leaves_deleteConnection conn')
        intro rest _ deleted
        apply Leaves.pure
        have closes := (informed.append deleted.leads).closes
        simpa using closes
      · apply Leaves.bind (leaves_reserveNodes _)
        intro reserved _ reserving
        apply Leaves.bind (leaves_sendCommand conn' clusterSlots)
        rintro slots ⟨rpy, conn''⟩ ⟨_, listing⟩
        apply Leaves.bind_ofExcept
        intro lstNode _
        apply Leaves.bind (leaves_deleteConnection conn'')
        intro rest _ deleted
        apply Leaves.pure
        have all := reserving.append (listing.append deleted.leads)
        have closes := (informed.append all).closes
        simpa using closes

theorem leaves_connectNode (mw : CClusterSupport) (node : Node) :
    Leaves (fun trace result => damage.Opens trace (result.1 = true → Healthy result.2))
      (mw.connectNode node) := by
  apply leaves_connectNew
  intro trace connected conn opens
  cases connected with
  | true =>
      apply Leaves.pure
      rw [List.append_nil]
      exact opens
  | false =>
      apply Leaves.pure
      rw [List.append_nil]
      exact opens

theorem leaves_createNode (mw : CClusterSupport) (node : Node) (num : Nat)
    (lstConn : List CConnection) : Leaves (Adds lstConn) (mw.createNode node num lstConn) := by
  induction num generalizing lstConn with
  | zero => exact .pure (.nil lstConn)
  | succ num ih =>
      apply Leaves.bind (leaves_connectNode mw node)
      rintro front ⟨connected, conn⟩ opens
      cases connected with
      | true =>
          have added : Adds lstConn front (lstConn ++ [conn]) :=
            ⟨[conn], rfl, opens.closes.congr (by simp)⟩
          exact (ih (lstConn ++ [conn])).mono fun _ _ => added.append
      | false =>
          have added : Adds lstConn front lstConn :=
            ⟨[], (List.append_nil lstConn).symm, opens.closes.congr (by simp)⟩
          exact (ih lstConn).mono fun _ _ => added.append

theorem leaves_createNodes (mw : CClusterSupport) (num : Nat) (lstNode : List Node)
    (lstConn : List CConnection) :
    Leaves (Adds lstConn) (mw.createNodes num lstNode lstConn) := by
  induction lstNode generalizing lstConn with
  | nil => exact .pure (.nil lstConn)
  | cons node lstNode ih =>
      apply Leaves.bind (leaves_createNode mw node num lstConn)
      intro front middle added
      exact (ih middle).mono fun _ _ => added.append

theorem leaves_clusterCreate (mw : CClusterSupport) (num : Nat) :
    Leaves (Adds []) (mw.create num) := by
  apply Leaves.bind (leaves_getNodes mw)
  intro front lstNode listed
  apply Leaves.bind (leaves_reserve _)
  intro reserved _ reserving
  have closes : damage.Closes (front ++ reserved) True :=
    (listed.append reserving.closes).congr and_self_iff
  have opening : Adds [] (front ++ reserved) [] := ⟨[], rfl, closes.congr (by simp)⟩
  apply (leaves_createNodes mw num lstNode []).mono
  intro rest lstConn added
  rw [← List.append_assoc]
  exact opening.append added

/-! ## The tuple -/

/-- The middlewares that come with the library. -/
inductive Provided : TMiddleWare → Prop
  | default (mw : CDefaultMiddleWare) : Provided mw.toTMiddleWare
  | sentinel (mw : CSentinelSupport) : Provided mw.toTMiddleWare
  | cluster (mw : CClusterSupport) (charSigned : Bool) : Provided (mw.toTMiddleWare charSigned)

theorem Provided.leaves_create {elem : TMiddleWare} (provided : Provided elem) (num : Nat) :
    Leaves (Adds []) (elem.create num) := by
  cases provided with
  | default mw =>
      change Leaves (Adds []) (mw.create num)
      simp only [CDefaultMiddleWare.create, CDefaultMiddleWare.createAll_eq]
      exact Health.leaves_create (leaves_defaultConnection mw 0) num
  | sentinel mw => exact Health.leaves_create (leaves_sentinelConnection mw 0) num
  | cluster mw => exact leaves_clusterCreate mw num

/-- A middleware that gives nothing leaves the list as it was for the next one. -/
theorem leaves_preCreate {mw : List TMiddleWare} (provided : ∀ elem ∈ mw, Provided elem)
    (defaultNum : Nat) : Leaves (Adds []) (preCreate mw defaultNum) := by
  unfold preCreate
  induction mw with
  | nil => exact .pure (.nil [])
  | cons elem mw ih =>
      obtain ⟨first, others⟩ := List.forall_mem_cons.mp provided
      simp only [tupleIterator, Program.bind_eq_bind, Program.bind_bind, Program.pure_eq_pure,
        Program.bind_pure_left]
      apply Leaves.bind (first.leaves_create defaultNum)
      intro front lstConn added
      cases lstConn with
      | nil => exact (ih others).mono fun _ _ => added.append
      | cons conn lstConn =>
          apply Leaves.pure
          rw [List.append_nil]
          exact added

/-- The connections that `create` obtains are all healthy exactly when its events are
mended. -/
theorem healthy_iff_mended {mw : List TMiddleWare} (provided : ∀ elem ∈ mw, Provided elem)
    {defaultNum : Nat} {trace : List (Event MwOp MwAns)} {lstConn : List CConnection}
    (exec : Exec (preCreate mw defaultNum) trace (.ok lstConn)) :
    (∀ conn ∈ lstConn, Healthy conn) ↔ damage.Mended trace := by
  obtain ⟨added, rfl, closes⟩ := (leaves_preCreate provided defaultNum).exec trace lstConn exec
  exact closes.mended_iff.symm

end MCRedis.MiddleWare.Health
