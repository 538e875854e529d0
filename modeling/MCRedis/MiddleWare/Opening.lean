import MCRedis.MiddleWare.Default
import MCRedis.MiddleWare.Sentinel

/-!
# Connections as they are opened

`CDefaultMiddleWare` and `CSentinelSupport` open their connections one by one.  A
connection that they give was new, then connected, and then shown to the user's
callback: what every connect leaves, and the callback keeps, holds of all of them.
-/

namespace MCRedis.MiddleWare

open MCRedis.Client
open MCRedis.Transition

/-- The middlewares of the library that know no slots. -/
inductive Slotless : TMiddleWare → Prop
  | server (mw : CDefaultMiddleWare) : Slotless mw.toTMiddleWare
  | sentinels (mw : CSentinelSupport) : Slotless mw.toTMiddleWare

/-- A property that every connect leaves, and that a lawful callback keeps. -/
structure Opening (law : Event MwOp MwAns → Prop) (holds : CConnection → Prop) : Prop where
  connect : ∀ id host port timeoutSec, Returns law (fun result => holds result.2)
    (MwProgram.redis ((CConnection.create id).connect host port timeoutSec))
  callback : ∀ conn called, law ⟨.connectionCallback conn, called⟩ → holds conn →
    holds { called with id := conn.id }

/-- The connection that is given has the property. -/
def Given (holds : CConnection → Prop) (opened : Option CConnection) : Prop :=
  ∀ conn, opened = some conn → holds conn

section

variable {holds : CConnection → Prop}

theorem given_none : Given holds none := by
  rintro conn ⟨⟩

theorem given_some {conn : CConnection} (held : holds conn) : Given holds (some conn) := by
  rintro _ ⟨⟩
  exact held

end

/-- What is in the list is kept. -/
theorem returns_createWith {law : Event MwOp MwAns → Prop} {holds : CConnection → Prop}
    {getConnection : MwProgram (Option CConnection)}
    (gives : Returns law (Given holds) getConnection) (num : Nat) {lstConn : List CConnection}
    (all : ∀ conn ∈ lstConn, holds conn) :
    Returns law (fun lst => (∀ conn ∈ lst, holds conn) ∧
        ∃ more : List CConnection, lst = lstConn ++ more ∧ more.length ≤ num)
      (createWith getConnection num lstConn) := by
  induction num generalizing lstConn with
  | zero => exact .pure ⟨all, [], (List.append_nil lstConn).symm, le_rfl⟩
  | succ num ih =>
      apply Returns.bind gives
      rintro (_ | conn) given
      · apply (ih all).mono
        rintro lst ⟨every, more, rfl, bound⟩
        exact ⟨every, more, rfl, Nat.le_succ_of_le bound⟩
      · have added : ∀ other ∈ lstConn ++ [conn], holds other :=
          List.forall_mem_append.mpr ⟨all, List.forall_mem_singleton.mpr (given conn rfl)⟩
        apply (ih added).mono
        rintro lst ⟨every, more, rfl, bound⟩
        refine ⟨every, conn :: more, ?_, Nat.succ_le_succ bound⟩
        rw [List.append_assoc]
        rfl

namespace Opening

variable {law : Event MwOp MwAns → Prop} {holds : CConnection → Prop}

/-- A new connection, also when it is not accepted. -/
theorem returns_connectNew (opening : Opening law holds) {α : Type} {host : Bytes}
    {port timeoutSec : Nat} {post : α → Prop} {next : Bool × CConnection → MwProgram α}
    (after : ∀ connected conn, holds conn → Returns law post (next (connected, conn))) :
    Returns law post (newConnection.bind fun conn =>
      (MwProgram.redis (conn.connect host port timeoutSec)).bind next) := by
  apply Returns.request
  intro id _
  apply Returns.bind (opening.connect id host port timeoutSec)
  rintro ⟨connected, conn⟩ held
  exact after connected conn held

theorem returns_callback (opening : Opening law holds) {conn : CConnection} (held : holds conn) :
    Returns law holds (connectionCallback conn) := by
  apply Returns.request
  intro called lawful
  exact .pure (opening.callback conn called lawful held)

theorem returns_server (opening : Opening law holds) (mw : CDefaultMiddleWare) (slot : Nat) :
    Returns law (Given holds) (mw.getConnection slot) := by
  apply opening.returns_connectNew
  intro connected conn held
  cases connected with
  | false => exact .bind_any fun _ => .pure given_none
  | true =>
      simp only [↓reduceIte]
      split
      · apply Returns.bind (opening.returns_callback held)
        exact fun called kept => .pure (given_some kept)
      · exact .pure (given_some held)

theorem returns_openConnection (opening : Opening law holds) (target : Except Fault (Bytes × Nat))
    (timeoutSec : Nat) :
    Returns law (Given holds) (CSentinelSupport.openConnection target timeoutSec) := by
  cases target with
  | error fault => exact .bind_any fun _ => .fail fault
  | ok address =>
      apply opening.returns_connectNew
      intro connected conn held
      cases connected with
      | false => exact .bind_any fun _ => .pure given_none
      | true => exact .pure (given_some held)

theorem returns_openRole (opening : Opening law holds) (mw : CSentinelSupport)
    (sentinel : CConnection) :
    Returns law (fun result => Given holds result.1) (mw.openRole sentinel) := by
  unfold CSentinelSupport.openRole
  cases mw.role with
  | MASTER =>
      apply Returns.bind_any
      rintro ⟨rpy, sentinel⟩
      dsimp only
      split
      · exact .pure given_none
      · apply Returns.bind (opening.returns_openConnection _ 0)
        exact fun conn given => .pure given
  | SLAVE =>
      apply Returns.bind_any
      rintro ⟨rpy, sentinel⟩
      dsimp only
      split
      · exact .pure given_none
      · apply Returns.bind_any
        intro _
        apply Returns.bind_any
        intro slaves
        split
        · exact .pure given_none
        · apply Returns.bind_any
          intro random
          apply Returns.bind_any
          intro target
          apply Returns.bind (opening.returns_openConnection _ mw.timeoutSec)
          exact fun conn given => .pure given

theorem returns_sentinels (opening : Opening law holds) (mw : CSentinelSupport) (slot : Nat) :
    Returns law (Given holds) (mw.getConnection slot) := by
  apply Returns.bind_any
  rintro (_ | sentinel)
  · exact .pure given_none
  · apply Returns.bind (opening.returns_openRole mw sentinel)
    rintro ⟨_ | conn, sentinel⟩ given
    · exact .bind_any fun _ => .pure given_none
    · have called : Returns law holds (mw.runCallback conn) := by
        unfold CSentinelSupport.runCallback
        split
        · exact opening.returns_callback (given conn rfl)
        · exact .pure (given conn rfl)
      apply Returns.bind called
      exact fun conn held => .bind_any fun _ => .pure (given_some held)

end Opening

namespace Slotless

variable {mw : TMiddleWare} {law : Event MwOp MwAns → Prop} {holds : CConnection → Prop}

/-- Their `create` opens the connections one by one. -/
theorem create_eq (slotless : Slotless mw) (num : Nat) :
    mw.create num = (reserve num).bind fun _ => createWith (mw.getConnection 0) num [] := by
  cases slotless with
  | server mw =>
      exact congrArg (Program.bind (reserve num)) (funext fun _ => mw.createAll_eq num [])
  | sentinels mw => rfl

theorem returns_getConnection (slotless : Slotless mw) (opening : Opening law holds) (slot : Nat) :
    Returns law (Given holds) (mw.getConnection slot) := by
  cases slotless with
  | server mw => exact opening.returns_server mw slot
  | sentinels mw => exact opening.returns_sentinels mw slot

theorem returns_create (slotless : Slotless mw) (opening : Opening law holds) (num : Nat) :
    Returns law (fun lstConn => ∀ conn ∈ lstConn, holds conn) (mw.create num) := by
  rw [slotless.create_eq]
  apply Returns.bind_any
  intro _
  have all := returns_createWith (slotless.returns_getConnection opening 0) num
    (List.forall_mem_nil holds)
  exact all.mono fun _ opened => opened.1

end Slotless

end MCRedis.MiddleWare
