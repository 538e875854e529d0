import MCRedis.MiddleWare.Cluster
import Mathlib.Data.List.Pairwise

/-!
# A cluster with a fixed topology

Over servers whose slot listings agree with one topology, `CClusterSupport`
gives every connection a range of that topology, and the connection opened for
a slot gets the range that contains the slot.  Which connections succeed is not
assumed.
-/

namespace MCRedis.MiddleWare

open MCRedis.Client
open MCRedis.Transition

/-- The inclusive slot ranges of the nodes of a cluster. -/
structure Topology where
  ranges : List (Nat × Nat)
  ordered : ∀ range ∈ ranges, range.1 ≤ range.2
  bounded : ∀ range ∈ ranges, range.2 < 16384
  disjoint : ranges.Pairwise fun first second => first.2 < second.1 ∨ second.2 < first.1

/-- The slot lies in the range. -/
def InRange (range : Nat × Nat) (slot : Nat) : Prop :=
  range.1 ≤ slot ∧ slot ≤ range.2

instance (range : Nat × Nat) (slot : Nat) : Decidable (InRange range slot) :=
  inferInstanceAs (Decidable (_ ∧ _))

namespace Topology

variable (topology : Topology)

/-- Every slot belongs to a node. -/
def Covers : Prop :=
  ∀ slot < 16384, ∃ range ∈ topology.ranges, InRange range slot

/-- A slot lies in one range only. -/
theorem eq_of_inRange {first second : Nat × Nat} {slot : Nat} (firstMem : first ∈ topology.ranges)
    (secondMem : second ∈ topology.ranges) (inFirst : InRange first slot)
    (inSecond : InRange second slot) : first = second := by
  by_contra differ
  have symmetric : Std.Symm fun first second : Nat × Nat =>
      first.2 < second.1 ∨ second.2 < first.1 := ⟨fun _ _ apart => apart.symm⟩
  rcases topology.disjoint.forall firstMem secondMem differ with before | after
  · exact absurd (inSecond.1.trans inFirst.2) (Nat.not_le.mpr before)
  · exact absurd (inFirst.1.trans inSecond.2) (Nat.not_le.mpr after)

/-- An entry of a slot listing, up to the nodes that serve the range. -/
def IsSlotsEntry (range : Nat × Nat) (entry : RedisReply) : Prop :=
  ∃ nodes, entry = .array (.integer range.1 :: .integer range.2 :: nodes)

/-- What the servers of the cluster answer: the entries of a slot listing are
ranges of the topology, in any order. -/
def Law (event : Event MwOp MwAns) : Prop :=
  ∀ c entries, event = ⟨.redis (.commandArgv c clusterSlots.lstCommandBuffer),
      CommandAnswer.reply (.array entries)⟩ →
    ∀ entry ∈ entries, ∃ range ∈ topology.ranges, IsSlotsEntry range entry

/-- The reply read from an entry of a slot listing. -/
def IsSlotsReply (nodes : CReply) : Prop :=
  ∃ range ∈ topology.ranges, ∃ rest,
    nodes.getReplies = .mk .INTEGER [] range.1 [] :: .mk .INTEGER [] range.2 [] :: rest

theorem isSlotsReply_of_mem_ofRawList {entries : List RedisReply}
    (listed : ∀ entry ∈ entries, ∃ range ∈ topology.ranges, IsSlotsEntry range entry) :
    ∀ nodes ∈ CReply.ofRawList entries, topology.IsSlotsReply nodes := by
  induction entries with
  | nil => exact nofun
  | cons entry entries ih =>
      intro nodes mem
      rcases List.mem_cons.mp mem with rfl | mem
      · obtain ⟨range, rangeMem, rest, rfl⟩ := listed entry List.mem_cons_self
        exact ⟨range, rangeMem, CReply.ofRawList rest, rfl⟩
      · apply ih _ nodes mem
        intro other otherMem
        exact listed other (List.mem_cons_of_mem entry otherMem)

theorem returns_clusterSlots (conn : CConnection) :
    Returns topology.Law (fun result => ∀ nodes ∈ result.1.getReplies, topology.IsSlotsReply nodes)
      (MwProgram.redis (conn.sendCommand clusterSlots)) := by
  cases valid : conn.contextPtr with
  | none =>
      rw [CConnection.sendCommand, CConnection.context, valid]
      exact .fail _
  | some c =>
      rw [CConnection.sendCommand, CConnection.context, valid]
      apply Returns.request
      intro answer lawful
      cases answer with
      | appendFailed error => exact .pure nofun
      | replyFailed error => exact .pure nofun
      | reply reply =>
          apply Returns.pure
          cases reply with
          | array entries => exact topology.isSlotsReply_of_mem_ofRawList (lawful c entries rfl)
          | _ => exact nofun

/-- The range of a node is a range of the topology. -/
def IsNode (node : Node) : Prop :=
  (node.beginSlotRange, node.endSlotRange) ∈ topology.ranges

theorem toUnsigned_slot {slot : Nat} (bounded : slot < 16384) :
    toUnsigned (uint32Max + 1) slot = slot := by
  have small : slot < uint32Max + 1 := bounded.trans (by decide)
  rw [toUnsigned, ← Int.natCast_emod, Nat.mod_eq_of_lt small, Int.toNat_natCast]

theorem isNode_of_nodeOf {nodes : CReply} {node : Node} (listed : topology.IsSlotsReply nodes)
    (read : nodeOf nodes = .ok node) : topology.IsNode node := by
  obtain ⟨range, mem, rest, repliesEq⟩ := listed
  have ending := topology.bounded range mem
  have beginning := (topology.ordered range mem).trans_lt ending
  obtain ⟨beginSlot, beginEq, read⟩ := except_bind_ok read
  obtain ⟨endSlot, endEq, read⟩ := except_bind_ok read
  obtain ⟨master, _, read⟩ := except_bind_ok read
  obtain ⟨ip, _, read⟩ := except_bind_ok read
  obtain ⟨port, _, read⟩ := except_bind_ok read
  rw [replyAt, repliesEq] at beginEq endEq
  cases beginEq
  cases endEq
  cases read
  rw [IsNode, CReply.getInteger, CReply.getInteger, toUnsigned_slot beginning,
    toUnsigned_slot ending]
  exact mem

end Topology

namespace CClusterSupport

variable (topology : Topology) (mw : CClusterSupport)

/-- Every node that `_getNodes` lists has a range of the topology. -/
theorem returns_getNodes :
    Returns topology.Law (fun lstNode => ∀ node ∈ lstNode, topology.IsNode node) mw._getNodes := by
  apply Returns.bind_any
  intro conn
  cases conn with
  | none => exact .pure nofun
  | some conn =>
      apply Returns.bind_any
      rintro ⟨info, conn⟩
      dsimp only
      split
      · exact .bind_any fun _ => .pure nofun
      · apply Returns.bind_any
        intro _
        apply Returns.bind (topology.returns_clusterSlots conn)
        rintro ⟨slots, conn⟩ listed
        apply Returns.bind (Returns.ofExcept fun _ => except_mapM_ok)
        intro lstNode read
        apply Returns.bind_any
        intro _
        apply Returns.pure
        intro node mem
        obtain ⟨nodes, nodesMem, nodeEq⟩ := read node mem
        exact topology.isNode_of_nodeOf (listed nodes nodesMem) nodeEq

/-- A connection to a node carries the range of the node. -/
theorem returns_connectNode (node : Node) :
    Returns topology.Law (fun result => result.1 = true →
        result.2.slotRange = (node.beginSlotRange, node.endSlotRange))
      (mw.connectNode node) := by
  apply Returns.bind_any
  intro conn
  apply Returns.bind_any
  rintro ⟨connected, conn⟩
  cases connected with
  | true => exact .pure fun _ => rfl
  | false => exact .pure nofun

/-- Every connection that `create` gives carries a range of the topology. -/
theorem returns_create_ranged (num : Nat) :
    Returns topology.Law (fun lstConn => ∀ conn ∈ lstConn, conn.slotRange ∈ topology.ranges)
      (mw.create num) := by
  apply returns_create (returns_getNodes topology mw)
  intro node isNode
  apply Returns.mono (returns_connectNode topology mw node)
  intro result range connected
  rw [range connected]
  exact isNode

/-- The connection that `getConnection` gives for a slot carries the range of
the slot. -/
theorem returns_getConnection_inRange (slot : Nat) :
    Returns topology.Law (fun opened => ∀ conn, opened = some conn →
        conn.slotRange ∈ topology.ranges ∧ InRange conn.slotRange slot)
      (mw.getConnection slot) := by
  apply returns_getConnection (returns_getNodes topology mw)
  intro node isNode contains
  apply Returns.mono (returns_connectNode topology mw node)
  intro result range connected
  rw [range connected]
  exact ⟨isNode, contains⟩

end CClusterSupport

end MCRedis.MiddleWare
