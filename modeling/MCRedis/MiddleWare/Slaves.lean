import MCRedis.MiddleWare.Shapes
import Mathlib.Data.List.ReduceOption

/-!
# The fields of the slaves

A sentinel describes every slave by a list of names and values.  The middleware
takes the address and the two marks of a slave from fixed positions of the list,
so it chooses from the slaves that the names single out only when the names
stand at these positions.
-/

namespace MCRedis.MiddleWare

open MCRedis.Client
open MCRedis.Transition

def ipName : Bytes :=
  literal "ip"

def portName : Bytes :=
  literal "port"

def flagsName : Bytes :=
  literal "flags"

def roleReportedName : Bytes :=
  literal "role-reported"

/-- The names of the fields of a slave, in their order. -/
structure SlaveLayout where
  names : List Bytes
  distinct : names.Nodup
  hasIp : ipName ∈ names
  hasPort : portName ∈ names
  hasFlags : flagsName ∈ names
  hasRoleReported : roleReportedName ∈ names

/-- The fields of a slave; the port is the number of a port. -/
structure SlaveFields where
  layout : SlaveLayout
  value : Bytes → Bytes
  port : Nat
  portText : stoul (value portName) = .ok port
  portBound : port < 65536

namespace SlaveFields

def reply (fields : SlaveFields) : RedisReply :=
  .array (fields.layout.names.flatMap fun name => [.string name, .string (fields.value name)])

/-- The fields mark a slave. -/
def Marked (fields : SlaveFields) : Prop :=
  fields.value flagsName = slaveText ∧ fields.value roleReportedName = slaveText

instance (fields : SlaveFields) : Decidable fields.Marked :=
  inferInstanceAs (Decidable (_ ∧ _))

def address (fields : SlaveFields) : Bytes × Nat :=
  (fields.value ipName, fields.port)

end SlaveFields

/-- The reply that lists the slaves. -/
def slavesListing (slaves : List SlaveFields) : CReply :=
  .ofRaw (.array (slaves.map SlaveFields.reply))

/-- The candidates are the addresses of the slaves that the named fields mark. -/
def ChoosesNamed (slaves : List SlaveFields) : Prop :=
  ∃ candidates, slavesOf (slavesListing slaves) = .ok candidates ∧
    ∀ address, address ∈ candidates ↔
      ∃ fields ∈ slaves, fields.Marked ∧ fields.address = address

/-- The named fields stand where the middleware looks for them; the two marks are
compared with the same text, so either may stand at either place. -/
def SlaveLayout.Standard (layout : SlaveLayout) : Prop :=
  layout.names[1]? = some ipName ∧ layout.names[2]? = some portName ∧
    (layout.names[4]? = some flagsName ∧ layout.names[11]? = some roleReportedName ∨
      layout.names[4]? = some roleReportedName ∧ layout.names[11]? = some flagsName)

/-! ## Positions and names -/

theorem getElem?_ofRawList_fields (value : Bytes → Bytes) (names : List Bytes) (i : Nat) :
    (CReply.ofRawList (names.flatMap fun name =>
        [.string name, .string (value name)]))[2 * i + 1]? =
      names[i]?.map fun name => .mk .STRING (value name) 0 [] := by
  induction names generalizing i with
  | nil => rfl
  | cons name names ih =>
      cases i with
      | zero => rfl
      | succ i => exact ih i

/-- A position behind a name holds the value of that name. -/
theorem replyAt_reply (fields : SlaveFields) {i : Nat} {sub : CReply} :
    replyAt (.ofRaw fields.reply) (2 * i + 1) = .ok sub ↔
      ∃ name, fields.layout.names[i]? = some name ∧
        CReply.mk .STRING (fields.value name) 0 [] = sub := by
  rw [replyAt_ok_iff]
  change (CReply.ofRawList _)[2 * i + 1]? = some sub ↔ _
  rw [getElem?_ofRawList_fields, Option.map_eq_some_iff]

/-- The marks of a slave at their positions, in either order. -/
theorem slaveOf_of_names {fields : SlaveFields} {first second : Bytes}
    (ipAt : fields.layout.names[1]? = some ipName)
    (portAt : fields.layout.names[2]? = some portName)
    (firstAt : fields.layout.names[4]? = some first)
    (secondAt : fields.layout.names[11]? = some second) :
    slaveOf (.ofRaw fields.reply) =
      .ok (if fields.value first = slaveText ∧ fields.value second = slaveText
        then some fields.address else none) := by
  have ip : replyAt (.ofRaw fields.reply) 3 = .ok _ := (replyAt_reply fields).mpr ⟨_, ipAt, rfl⟩
  have port : replyAt (.ofRaw fields.reply) 5 = .ok _ :=
    (replyAt_reply fields).mpr ⟨_, portAt, rfl⟩
  have flag : replyAt (.ofRaw fields.reply) 9 = .ok _ :=
    (replyAt_reply fields).mpr ⟨_, firstAt, rfl⟩
  have roleReported : replyAt (.ofRaw fields.reply) 23 = .ok _ :=
    (replyAt_reply fields).mpr ⟨_, secondAt, rfl⟩
  simp only [slaveOf, ip, port, flag, roleReported, bind, Except.bind, pure, Except.pure,
    CReply.getStr, fields.portText, Nat.mod_eq_of_lt fields.portBound]
  by_cases firstMark : fields.value first = slaveText
  · by_cases secondMark : fields.value second = slaveText
    · rw [if_neg (not_not.mpr firstMark), if_neg (not_not.mpr secondMark),
        if_pos ⟨firstMark, secondMark⟩]
      rfl
    · rw [if_neg (not_not.mpr firstMark), if_pos secondMark, if_neg fun both => secondMark both.2]
  · rw [if_pos firstMark, if_neg fun both => firstMark both.1]

/-- What a standard layout makes the middleware read. -/
theorem slaveOf_of_standard {fields : SlaveFields} (standard : fields.layout.Standard) :
    slaveOf (.ofRaw fields.reply) =
      .ok (if fields.Marked then some fields.address else none) := by
  obtain ⟨ipAt, portAt, ⟨flagAt, roleAt⟩ | ⟨roleAt, flagAt⟩⟩ := standard
  · exact slaveOf_of_names ipAt portAt flagAt roleAt
  · rw [slaveOf_of_names ipAt portAt roleAt flagAt]
    exact congrArg Except.ok (if_congr and_comm rfl rfl)

/-- A candidate comes from the values at the fixed positions. -/
theorem names_of_slaveOf {fields : SlaveFields} {address : Bytes × Nat}
    (read : slaveOf (.ofRaw fields.reply) = .ok (some address)) :
    ∃ ip port first second number,
      fields.layout.names[1]? = some ip ∧ fields.value ip = address.1 ∧
      fields.layout.names[2]? = some port ∧ stoul (fields.value port) = .ok number ∧
        number % 65536 = address.2 ∧
      fields.layout.names[4]? = some first ∧ fields.value first = slaveText ∧
      fields.layout.names[11]? = some second ∧ fields.value second = slaveText := by
  obtain ⟨ipReply, ipEq, read⟩ := except_bind_ok read
  obtain ⟨portReply, portEq, read⟩ := except_bind_ok read
  obtain ⟨number, numberEq, read⟩ := except_bind_ok read
  obtain ⟨flag, flagEq, read⟩ := except_bind_ok read
  obtain ⟨ip, ipAt, rfl⟩ := (@replyAt_reply fields 1 ipReply).mp ipEq
  obtain ⟨port, portAt, rfl⟩ := (@replyAt_reply fields 2 portReply).mp portEq
  obtain ⟨first, firstAt, rfl⟩ := (@replyAt_reply fields 4 flag).mp flagEq
  change (if fields.value first ≠ slaveText then _ else _) = _ at read
  by_cases firstMark : fields.value first = slaveText
  · rw [if_neg (not_not.mpr firstMark)] at read
    obtain ⟨roleReported, roleEq, read⟩ := except_bind_ok read
    obtain ⟨second, secondAt, rfl⟩ := (@replyAt_reply fields 11 roleReported).mp roleEq
    change (if fields.value second ≠ slaveText then _ else _) = _ at read
    by_cases secondMark : fields.value second = slaveText
    · rw [if_neg (not_not.mpr secondMark)] at read
      cases read
      exact ⟨ip, port, first, second, number, ipAt, rfl, portAt, numberEq, rfl, firstAt, firstMark,
        secondAt, secondMark⟩
    · rw [if_pos secondMark] at read
      exact absurd (Except.ok.inj read) nofun
  · rw [if_pos firstMark] at read
    exact absurd (Except.ok.inj read) nofun

/-! ## The candidates -/

theorem getReplies_slavesListing (slaves : List SlaveFields) :
    (slavesListing slaves).getReplies = slaves.map fun fields => .ofRaw fields.reply := by
  change CReply.ofRawList _ = _
  induction slaves with
  | nil => rfl
  | cons fields slaves ih =>
      rw [List.map_cons, CReply.ofRawList, ih, List.map_cons]

/-- The candidates are what is read of the single slaves. -/
theorem mem_slavesOf_iff {slaves : List SlaveFields} {candidates : List (Bytes × Nat)}
    (read : slavesOf (slavesListing slaves) = .ok candidates) {address : Bytes × Nat} :
    address ∈ candidates ↔
      ∃ fields ∈ slaves, slaveOf (.ofRaw fields.reply) = .ok (some address) := by
  obtain ⟨results, resultsEq, read⟩ := except_bind_ok read
  cases read
  rw [List.reduceOption_mem_iff]
  rw [getReplies_slavesListing] at resultsEq
  constructor
  · intro mem
    obtain ⟨_, subMem, subEq⟩ := except_mapM_ok resultsEq _ mem
    obtain ⟨fields, fieldsMem, rfl⟩ := List.mem_map.mp subMem
    exact ⟨fields, fieldsMem, subEq⟩
  · rintro ⟨fields, fieldsMem, subEq⟩
    exact except_mapM_mem resultsEq (List.mem_map_of_mem fieldsMem) subEq

theorem choosesNamed_of_standard {slaves : List SlaveFields}
    (standard : ∀ fields ∈ slaves, fields.layout.Standard) : ChoosesNamed slaves := by
  have readable : ∀ sub ∈ (slavesListing slaves).getReplies, SlaveShape sub := by
    rw [getReplies_slavesListing, List.forall_mem_map]
    exact fun fields mem => slaveOf_succeeds_iff.mp ⟨_, slaveOf_of_standard (standard fields mem)⟩
  obtain ⟨candidates, read⟩ := slavesOf_succeeds_iff.mpr readable
  refine ⟨candidates, read, fun address => ?_⟩
  rw [mem_slavesOf_iff read]
  constructor
  · rintro ⟨fields, mem, chosen⟩
    rw [slaveOf_of_standard (standard fields mem)] at chosen
    split at chosen
    · rename_i marked
      exact ⟨fields, mem, marked, Option.some.inj (Except.ok.inj chosen)⟩
    · exact absurd (Except.ok.inj chosen) nofun
  · rintro ⟨fields, mem, marked, rfl⟩
    refine ⟨fields, mem, ?_⟩
    rw [slaveOf_of_standard (standard fields mem), if_pos marked]

/-! ## Slaves that tell a layout -/

/-- The address of a marked slave, its marks, and a value that is neither. -/
def markedValue (name : Bytes) : Bytes :=
  if name = ipName then literal "x"
  else if name = portName then literal "1"
  else if name = flagsName ∨ name = roleReportedName then slaveText
  else literal "0"

def unmarkedValue (name : Bytes) : Bytes :=
  if name = portName then literal "1" else literal "0"

namespace SlaveLayout

def marked (layout : SlaveLayout) : SlaveFields :=
  ⟨layout, markedValue, 1, rfl, by decide⟩

def unmarked (layout : SlaveLayout) : SlaveFields :=
  ⟨layout, unmarkedValue, 1, rfl, by decide⟩

/-- The slaves of some layouts, marked where the names are given. -/
def marking (names : List Bytes) (layout : SlaveLayout) : SlaveFields :=
  if layout.names = names then layout.marked else layout.unmarked

theorem layout_marking (names : List Bytes) (layout : SlaveLayout) :
    (layout.marking names).layout = layout := by
  unfold marking
  split <;> rfl

end SlaveLayout

theorem eq_ipName {name : Bytes} (valueEq : markedValue name = literal "x") : name = ipName := by
  unfold markedValue at valueEq
  split_ifs at valueEq with isIp
  · exact isIp
  all_goals exact absurd valueEq (by decide)

theorem eq_portName {name : Bytes} {number : Nat} (valueEq : stoul (markedValue name) = .ok number)
    (one : number % 65536 = 1) : name = portName := by
  unfold markedValue at valueEq
  split_ifs at valueEq with _ isPort
  · contradiction
  · exact isPort
  · contradiction
  · cases valueEq
    contradiction

theorem eq_markName {name : Bytes} (valueEq : markedValue name = slaveText) :
    name = flagsName ∨ name = roleReportedName := by
  unfold markedValue at valueEq
  split_ifs at valueEq with _ _ isMark
  · exact absurd valueEq (by decide)
  · exact absurd valueEq (by decide)
  · exact isMark
  · exact absurd valueEq (by decide)

theorem unmarkedValue_ne (name : Bytes) : unmarkedValue name ≠ slaveText := by
  unfold unmarkedValue
  split <;> decide

theorem standard_of_marked {layout : SlaveLayout}
    (chosen : slaveOf (.ofRaw layout.marked.reply) = .ok (some (literal "x", 1))) :
    layout.Standard := by
  obtain ⟨ip, port, first, second, number, ipAt, ipEq, portAt, portEq, one, firstAt, firstEq,
    secondAt, secondEq⟩ := names_of_slaveOf chosen
  change layout.names[1]? = some ip at ipAt
  change layout.names[2]? = some port at portAt
  change layout.names[4]? = some first at firstAt
  change layout.names[11]? = some second at secondAt
  have apart : first ≠ second := by
    rintro rfl
    have inside := (List.getElem?_eq_some_iff.mp firstAt).1
    have same := (List.getElem?_inj inside layout.distinct).mp (firstAt.trans secondAt.symm)
    contradiction
  cases eq_ipName ipEq
  cases eq_portName portEq one
  refine ⟨ipAt, portAt, ?_⟩
  rcases eq_markName firstEq with rfl | rfl
  · rcases eq_markName secondEq with rfl | rfl
    · exact absurd rfl apart
    · exact .inl ⟨firstAt, secondAt⟩
  · rcases eq_markName secondEq with rfl | rfl
    · exact .inr ⟨firstAt, secondAt⟩
    · exact absurd rfl apart

/-- For lists of given layouts, whatever their values, the candidates are the ones
that the names single out exactly when the names stand where the middleware
looks for them. -/
theorem choosesNamed_iff_standard (layouts : List SlaveLayout) :
    (∀ slaves : List SlaveFields, slaves.map SlaveFields.layout = layouts → ChoosesNamed slaves) ↔
      ∀ layout ∈ layouts, layout.Standard := by
  constructor
  · intro chooses layout mem
    let slaves := layouts.map (SlaveLayout.marking layout.names)
    have layoutsEq : slaves.map SlaveFields.layout = layouts := by
      rw [List.map_map]
      exact List.map_id'' (SlaveLayout.layout_marking layout.names) layouts
    obtain ⟨candidates, read, named⟩ := chooses slaves layoutsEq
    have isMarked : layout.marking layout.names = layout.marked := if_pos rfl
    have candidate : (literal "x", 1) ∈ candidates := by
      refine (named _).mpr ⟨layout.marked, ?_, ⟨rfl, rfl⟩, rfl⟩
      exact isMarked ▸ List.mem_map_of_mem mem
    obtain ⟨fields, fieldsMem, chosen⟩ := (mem_slavesOf_iff read).mp candidate
    obtain ⟨other, _, rfl⟩ := List.mem_map.mp fieldsMem
    unfold SlaveLayout.marking at chosen
    split at chosen
    · rename_i sameNames
      have standard := standard_of_marked chosen
      rw [SlaveLayout.Standard, sameNames] at standard
      exact standard
    · obtain ⟨_, _, first, _, _, _, _, _, _, _, _, firstEq, _⟩ := names_of_slaveOf chosen
      exact absurd firstEq (unmarkedValue_ne first)
  · rintro standard slaves rfl
    exact choosesNamed_of_standard fun fields mem =>
      standard fields.layout (List.mem_map_of_mem mem)

/-- A layout with one field more, `link-refcount`, before `role-reported`. -/
def refcountLayout : SlaveLayout where
  names := [literal "name", ipName, portName, literal "runid", flagsName,
    literal "link-pending-commands", literal "link-refcount", literal "last-ping-sent",
    literal "last-ok-ping-reply", literal "last-ping-reply", literal "down-after-milliseconds",
    literal "info-refresh", roleReportedName]
  distinct := by decide
  hasIp := by decide
  hasPort := by decide
  hasFlags := by decide
  hasRoleReported := by decide

/-- The only slave is marked, and is not a candidate. -/
theorem marked_slave_rejected : ¬ ChoosesNamed [refcountLayout.marked] := by
  rintro ⟨candidates, read, named⟩
  have none : slavesOf (slavesListing [refcountLayout.marked]) = .ok [] := rfl
  cases none.symm.trans read
  have chosen := (named (literal "x", 1)).mpr
    ⟨refcountLayout.marked, List.mem_cons_self, ⟨rfl, rfl⟩, rfl⟩
  contradiction

end MCRedis.MiddleWare
