import MCRedis.Client.Basic

/-!
# Replies

`redisReply` trees as hiredis builds them, and the `CReply` values the client
copies them into.  The copy keeps the tree: it can be rebuilt from the fields of
the reply.
-/

namespace MCRedis.Client

/-- A reply tree of hiredis. -/
inductive RedisReply
  | string (str : Bytes)
  | array (elements : List RedisReply)
  | integer (value : Int)
  | nil
  | status (str : Bytes)
  | error (str : Bytes)

inductive EType
  | STRING
  | ARRAY
  | INTEGER
  | NIL
  | STATUS
  | ERROR
  | ERROR_CLIENT
  deriving DecidableEq, Repr

inductive CReply
  | mk (type : EType) (str : Bytes) (integer : Int) (lstReply : List CReply)

namespace CReply

/-- A default-constructed reply. -/
def empty : CReply :=
  .mk .ERROR [] 0 []

instance : Inhabited CReply :=
  ⟨empty⟩

def getType : CReply → EType
  | .mk type _ _ _ => type

def getStr : CReply → Bytes
  | .mk _ str _ _ => str

def getInteger : CReply → Int
  | .mk _ _ integer _ => integer

def getReplies : CReply → List CReply
  | .mk _ _ _ lstReply => lstReply

mutual

/-- `CReply(redisReply*)` on a reply that is not null. -/
def ofRaw : RedisReply → CReply
  | .string str => .mk .STRING str 0 []
  | .array elements => .mk .ARRAY [] 0 (ofRawList elements)
  | .integer value => .mk .INTEGER [] value []
  | .nil => .mk .NIL [] 0 []
  | .status str => .mk .STATUS str 0 []
  | .error str => .mk .ERROR str 0 []

/-- The loop of the array case. -/
def ofRawList : List RedisReply → List CReply
  | [] => []
  | element :: elements => ofRaw element :: ofRawList elements

end

/-- `CReply(int errorNo, const char* strError)`. -/
def ofError (errorNo : Int) (strError : Bytes) : CReply :=
  .mk .ERROR_CLIENT strError errorNo []

/-- Whether a reply equals the default-constructed one. -/
def isEmpty : CReply → Bool
  | .mk .ERROR [] 0 [] => true
  | _ => false

theorem isEmpty_iff (rpy : CReply) : rpy.isEmpty ↔ rpy = empty := by
  constructor
  · intro holds
    unfold isEmpty at holds
    split at holds
    · rfl
    · contradiction
  · rintro rfl
    rfl

/-- The reply that `CReply(CReply&& rhs)` constructs. -/
def moved (rhs : CReply) : CReply :=
  .mk rhs.getType rhs.getStr rhs.getInteger rhs.getReplies

/-- `operator=(CReply&& rhs)`: every field of the left side is replaced. -/
def assign (_lhs rhs : CReply) : CReply :=
  .mk rhs.getType rhs.getStr rhs.getInteger rhs.getReplies

theorem moved_eq (rpy : CReply) : rpy.moved = rpy := by
  cases rpy
  rfl

theorem assign_eq (lhs rpy : CReply) : lhs.assign rpy = rpy :=
  rpy.moved_eq

/-! ## Rebuilding the tree -/

mutual

/-- The tree that a reply was copied from; only a reply of hiredis has one. -/
def rebuild : CReply → Option RedisReply
  | .mk .STRING str _ _ => some (.string str)
  | .mk .ARRAY _ _ lstReply => (rebuildList lstReply).map .array
  | .mk .INTEGER _ integer _ => some (.integer integer)
  | .mk .NIL _ _ _ => some .nil
  | .mk .STATUS str _ _ => some (.status str)
  | .mk .ERROR str _ _ => some (.error str)
  | .mk .ERROR_CLIENT _ _ _ => none

def rebuildList : List CReply → Option (List RedisReply)
  | [] => some []
  | rpy :: lstReply => do
      let element ← rebuild rpy
      let elements ← rebuildList lstReply
      return element :: elements

end

mutual

theorem rebuild_ofRaw : ∀ raw : RedisReply, rebuild (ofRaw raw) = some raw
  | .string _ => rfl
  | .array elements => by
      rw [ofRaw, rebuild, rebuildList_ofRawList elements]
      rfl
  | .integer _ => rfl
  | .nil => rfl
  | .status _ => rfl
  | .error _ => rfl

theorem rebuildList_ofRawList :
    ∀ elements : List RedisReply, rebuildList (ofRawList elements) = some elements
  | [] => rfl
  | element :: elements => by
      rw [ofRawList, rebuildList, rebuild_ofRaw element, rebuildList_ofRawList elements]
      rfl

end

theorem ofRaw_injective : Function.Injective ofRaw := by
  intro first second equal
  apply Option.some.inj
  rw [← rebuild_ofRaw first, equal, rebuild_ofRaw second]

/-- A reply loses nothing of the tree it was copied from, and a move loses nothing
of the reply. -/
theorem ofRaw_lossless :
    (∀ raw, rebuild (ofRaw raw) = some raw) ∧
      (∀ first second, ofRaw first = ofRaw second ↔ first = second) ∧
        ∀ lhs rpy : CReply, rpy.moved = rpy ∧ lhs.assign rpy = rpy :=
  ⟨rebuild_ofRaw, fun _ _ => ofRaw_injective.eq_iff,
    fun lhs rpy => ⟨rpy.moved_eq, lhs.assign_eq rpy⟩⟩

end CReply

end MCRedis.Client
