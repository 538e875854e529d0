import MCRedis.Client.Reply

/-!
# Reply objects in memory

`redisReply` objects as hiredis allocates, links and frees them.  The memory is
a list: an object keeps its place, and a place is empty once its object is freed.
Access to a place that holds no object has no meaning, so a run without fault
neither reads nor frees an object twice.

Objects are created parent first, and the elements of an array one after another.
A reply therefore occupies consecutive places, laid out in preorder.
-/

namespace MCRedis.Hiredis

open MCRedis.Client

/-- `REDIS_REPLY_*`. -/
inductive ReplyType
  | string
  | array
  | integer
  | nil
  | status
  | error
  deriving DecidableEq, Repr

/-- `redisReply`; `str` holds the `len` characters of the string, and an element
is the place of an object or a null pointer. -/
structure ReplyObject where
  type : ReplyType
  integer : Int
  str : Bytes
  element : List (Option Nat)
  deriving DecidableEq, Repr

/-- The reply objects allocated so far; a freed one has left its place. -/
abbrev Heap := List (Option ReplyObject)

/-- The object behind a pointer. -/
def deref (objects : Heap) : Option Nat → Except Fault ReplyObject
  | none => .error (.undefined .nullDereference)
  | some place =>
      match objects[place]? with
      | some (some object) => .ok object
      | _ => .error (.undefined .outOfBounds)

/-- `createReplyObject`, with the fields that its callers set next. -/
def createReplyObject (objects : Heap) (object : ReplyObject) : Nat × Heap :=
  (objects.length, objects ++ [some object])

/-- `freeReplyObject`; the fuel bounds the depth of the recursion. -/
def freeReplyObjectFor : Nat → Heap → Option Nat → Except Fault Heap
  | _, objects, none => .ok objects
  | 0, _, some _ => .error .terminate
  | fuel + 1, objects, some r => do
      let object ← deref objects (some r)
      let objects ←
        match object.type with
        | .array => object.element.foldlM (freeReplyObjectFor fuel) objects
        | _ => pure objects
      pure (objects.set r none)

/-- `freeReplyObject`; no path is longer than there are objects. -/
def freeReplyObject (objects : Heap) (reply : Option Nat) : Except Fault Heap :=
  freeReplyObjectFor objects.length objects reply

/-- `CReply(redisReply*)` on objects in memory. -/
def copyReplyFor : Nat → Heap → Option Nat → Except Fault CReply
  | _, _, none => .ok .empty
  | 0, _, some _ => .error .terminate
  | fuel + 1, objects, some rawReply => do
      let object ← deref objects (some rawReply)
      match object.type with
      | .string => pure (.mk .STRING object.str 0 [])
      | .status => pure (.mk .STATUS object.str 0 [])
      | .error => pure (.mk .ERROR object.str 0 [])
      | .integer => pure (.mk .INTEGER [] object.integer [])
      | .nil => pure (.mk .NIL [] 0 [])
      | .array => do
          let lstReply ← object.element.mapM (copyReplyFor fuel objects)
          pure (.mk .ARRAY [] 0 lstReply)

def copyReply (objects : Heap) (rawReply : Option Nat) : Except Fault CReply :=
  copyReplyFor objects.length objects rawReply

/-! ## Layout -/

mutual

/-- The number of objects of a reply. -/
def size : RedisReply → Nat
  | .array elements => 1 + sizes elements
  | _ => 1

def sizes : List RedisReply → Nat
  | [] => 0
  | reply :: replies => size reply + sizes replies

end

/-- The places of replies that are laid out from a place on. -/
def roots (base : Nat) : List RedisReply → List Nat
  | [] => []
  | reply :: replies => base :: roots (base + size reply) replies

/-- The elements of an array of `total` elements, the first of which are there. -/
def padded (total : Nat) (places : List Nat) : List (Option Nat) :=
  places.map some ++ List.replicate (total - places.length) none

/-- An array object. -/
def arrayObject (element : List (Option Nat)) : ReplyObject :=
  { type := .array, integer := 0, str := [], element := element }

/-- A string, status or error object. -/
def textObject (type : ReplyType) (str : Bytes) : ReplyObject :=
  { type := type, integer := 0, str := str, element := [] }

def integerObject (value : Int) : ReplyObject :=
  { type := .integer, integer := value, str := [], element := [] }

def nilObject : ReplyObject :=
  { type := .nil, integer := 0, str := [], element := [] }

mutual

/-- The objects of a reply whose first object is at `base`. -/
def layout (base : Nat) : RedisReply → List ReplyObject
  | .array elements =>
      arrayObject ((roots (base + 1) elements).map some) :: layouts (base + 1) elements
  | .string str => [textObject .string str]
  | .status str => [textObject .status str]
  | .error str => [textObject .error str]
  | .integer value => [integerObject value]
  | .nil => [nilObject]

def layouts (base : Nat) : List RedisReply → List ReplyObject
  | [] => []
  | reply :: replies => layout base reply ++ layouts (base + size reply) replies

end

/-- A reply has an object of its own. -/
theorem exists_fuel {fuel : Nat} {reply : RedisReply} (enough : size reply ≤ fuel) :
    ∃ left, fuel = left + 1 := by
  have positive : 0 < size reply := by
    cases reply <;> simp only [size] <;> omega
  exact ⟨fuel - 1, by omega⟩

mutual

theorem length_layout (base : Nat) : ∀ reply : RedisReply, (layout base reply).length = size reply
  | .array elements => by
      rw [layout, size, List.length_cons, length_layouts (base + 1) elements, Nat.add_comm]
  | .string _ => rfl
  | .status _ => rfl
  | .error _ => rfl
  | .integer _ => rfl
  | .nil => rfl

theorem length_layouts (base : Nat) :
    ∀ replies : List RedisReply, (layouts base replies).length = sizes replies
  | [] => rfl
  | reply :: replies => by
      rw [layouts, sizes, List.length_append, length_layout base reply,
        length_layouts (base + size reply) replies]

end

theorem length_roots (base : Nat) (replies : List RedisReply) :
    (roots base replies).length = replies.length := by
  induction replies generalizing base with
  | nil => rfl
  | cons reply replies ih => rw [roots, List.length_cons, List.length_cons, ih]

theorem roots_snoc (base : Nat) (replies : List RedisReply) (reply : RedisReply) :
    roots base (replies ++ [reply]) = roots base replies ++ [base + sizes replies] := by
  induction replies generalizing base with
  | nil => rfl
  | cons first replies ih =>
      rw [List.cons_append, roots, ih, roots, List.cons_append, sizes, Nat.add_assoc]

theorem layouts_snoc (base : Nat) (replies : List RedisReply) (reply : RedisReply) :
    layouts base (replies ++ [reply]) =
      layouts base replies ++ layout (base + sizes replies) reply := by
  induction replies generalizing base with
  | nil => simp [layouts, sizes]
  | cons first replies ih =>
      rw [List.cons_append, layouts, ih, layouts, sizes, List.append_assoc, Nat.add_assoc]

theorem padded_full {total : Nat} {places : List Nat} (full : places.length = total) :
    padded total places = places.map some := by
  rw [padded, full, Nat.sub_self, List.replicate_zero, List.append_nil]

/-- The next element takes the place of the first null pointer. -/
theorem padded_set {total : Nat} {places : List Nat} (room : places.length < total) (place : Nat) :
    (padded total places).set places.length (some place) = padded total (places ++ [place]) := by
  obtain ⟨left, total⟩ : ∃ left, total - places.length = left + 1 :=
    ⟨total - places.length - 1, by omega⟩
  rw [padded, padded, total, List.set_append_right _ _ (by simp)]
  simp only [List.length_map, Nat.sub_self, List.replicate_succ, List.set_cons_zero,
    List.map_append, List.map_cons, List.map_nil, List.length_append, List.length_cons,
    List.length_nil, List.append_assoc, List.cons_append, List.nil_append]
  congr 3
  omega

theorem length_padded {total : Nat} {places : List Nat} (room : places.length ≤ total) :
    (padded total places).length = total := by
  rw [padded, List.length_append, List.length_map, List.length_replicate]
  omega

/-! ## Reading and freeing a reply -/

/-- The object at a place between two parts of the memory. -/
theorem deref_middle (before : Heap) (object : ReplyObject) (after : Heap) :
    deref (before ++ some object :: after) (some before.length) = .ok object := by
  simp [deref]

mutual

/-- A reply in memory is copied as its tree. -/
theorem copyReplyFor_layout (fuel : Nat) (before after : Heap) :
    ∀ reply : RedisReply, size reply ≤ fuel →
      copyReplyFor fuel (before ++ (layout before.length reply).map some ++ after)
        (some before.length) = .ok (CReply.ofRaw reply)
  | .array elements, enough => by
      obtain ⟨fuel, rfl⟩ := exists_fuel enough
      rw [size] at enough
      have copied := copyReplyFor_layouts fuel
        (before ++ [some (arrayObject ((roots (before.length + 1) elements).map some))]) after
        elements (by omega)
      simp only [List.length_append, List.length_cons, List.length_nil] at copied
      rw [layout, List.map_cons, copyReplyFor, List.append_assoc, List.cons_append, deref_middle]
      simp only [List.append_assoc, List.cons_append, List.nil_append] at copied
      simp only [arrayObject, bind, Except.bind] at copied ⊢
      rw [copied]
      rfl
  | .string _, enough => by
      obtain ⟨fuel, rfl⟩ := exists_fuel enough
      rw [layout, List.map_cons, copyReplyFor, List.append_assoc, List.cons_append, deref_middle]
      rfl
  | .status _, enough => by
      obtain ⟨fuel, rfl⟩ := exists_fuel enough
      rw [layout, List.map_cons, copyReplyFor, List.append_assoc, List.cons_append, deref_middle]
      rfl
  | .error _, enough => by
      obtain ⟨fuel, rfl⟩ := exists_fuel enough
      rw [layout, List.map_cons, copyReplyFor, List.append_assoc, List.cons_append, deref_middle]
      rfl
  | .integer _, enough => by
      obtain ⟨fuel, rfl⟩ := exists_fuel enough
      rw [layout, List.map_cons, copyReplyFor, List.append_assoc, List.cons_append, deref_middle]
      rfl
  | .nil, enough => by
      obtain ⟨fuel, rfl⟩ := exists_fuel enough
      rw [layout, List.map_cons, copyReplyFor, List.append_assoc, List.cons_append, deref_middle]
      rfl

theorem copyReplyFor_layouts (fuel : Nat) (before after : Heap) :
    ∀ replies : List RedisReply, sizes replies ≤ fuel →
      ((roots before.length replies).map some).mapM
        (copyReplyFor fuel (before ++ (layouts before.length replies).map some ++ after)) =
          .ok (CReply.ofRawList replies)
  | [], _ => rfl
  | reply :: replies, enough => by
      rw [sizes] at enough
      have first := copyReplyFor_layout fuel before
        ((layouts (before.length + size reply) replies).map some ++ after) reply (by omega)
      have others := copyReplyFor_layouts fuel (before ++ (layout before.length reply).map some)
        after replies (by omega)
      rw [List.length_append, List.length_map, length_layout] at others
      simp only [List.append_assoc] at first others
      simp only [roots, layouts, List.map_cons, List.map_append, List.mapM_cons, List.append_assoc]
      rw [first, others]
      rfl

end

/-- An object without elements is freed alone. -/
theorem freeReplyObjectFor_leaf (fuel : Nat) (before after : Heap) (object : ReplyObject)
    (noArray : object.type ≠ .array) :
    freeReplyObjectFor (fuel + 1) (before ++ some object :: after) (some before.length) =
      .ok (before ++ none :: after) := by
  rw [freeReplyObjectFor, deref_middle]
  cases type : object.type with
  | array => exact absurd type noArray
  | _ => simp [type, bind, Except.bind, pure, Except.pure]

mutual

/-- Freeing a reply empties its places, and no others. -/
theorem freeReplyObjectFor_layout (fuel : Nat) (before after : Heap) :
    ∀ reply : RedisReply, size reply ≤ fuel →
      freeReplyObjectFor fuel (before ++ (layout before.length reply).map some ++ after)
        (some before.length) = .ok (before ++ List.replicate (size reply) none ++ after)
  | .array elements, enough => by
      obtain ⟨fuel, rfl⟩ := exists_fuel enough
      rw [size] at enough
      have freed := freeReplyObjectFor_layouts fuel
        (before ++ [some (arrayObject ((roots (before.length + 1) elements).map some))]) after
        elements (by omega)
      simp only [List.length_append, List.length_cons, List.length_nil] at freed
      rw [layout, List.map_cons, freeReplyObjectFor, List.append_assoc, List.cons_append,
        deref_middle]
      simp only [List.append_assoc, List.cons_append, List.nil_append] at freed
      simp only [arrayObject, bind, Except.bind] at freed ⊢
      rw [freed]
      simp [pure, Except.pure, size, Nat.add_comm 1, List.replicate_succ]
  | .string _, enough => by
      obtain ⟨fuel, rfl⟩ := exists_fuel enough
      simpa [layout, size] using freeReplyObjectFor_leaf fuel before after _ (by rintro ⟨⟩)
  | .status _, enough => by
      obtain ⟨fuel, rfl⟩ := exists_fuel enough
      simpa [layout, size] using freeReplyObjectFor_leaf fuel before after _ (by rintro ⟨⟩)
  | .error _, enough => by
      obtain ⟨fuel, rfl⟩ := exists_fuel enough
      simpa [layout, size] using freeReplyObjectFor_leaf fuel before after _ (by rintro ⟨⟩)
  | .integer _, enough => by
      obtain ⟨fuel, rfl⟩ := exists_fuel enough
      simpa [layout, size] using freeReplyObjectFor_leaf fuel before after _ (by rintro ⟨⟩)
  | .nil, enough => by
      obtain ⟨fuel, rfl⟩ := exists_fuel enough
      simpa [layout, size] using freeReplyObjectFor_leaf fuel before after _ (by rintro ⟨⟩)

theorem freeReplyObjectFor_layouts (fuel : Nat) (before after : Heap) :
    ∀ replies : List RedisReply, sizes replies ≤ fuel →
      ((roots before.length replies).map some).foldlM (freeReplyObjectFor fuel)
        (before ++ (layouts before.length replies).map some ++ after) =
          .ok (before ++ List.replicate (sizes replies) none ++ after)
  | [], _ => by
      simp [roots, layouts, sizes, pure, Except.pure]
  | reply :: replies, enough => by
      rw [sizes] at enough
      have first := freeReplyObjectFor_layout fuel before
        ((layouts (before.length + size reply) replies).map some ++ after) reply (by omega)
      have others := freeReplyObjectFor_layouts fuel
        (before ++ List.replicate (size reply) none) after replies (by omega)
      rw [List.length_append, List.length_replicate] at others
      simp only [List.append_assoc] at first others
      simp only [roots, layouts, List.map_cons, List.map_append, List.foldlM_cons,
        List.append_assoc]
      rw [first]
      simp only [bind, Except.bind]
      rw [others, sizes, List.replicate_add, List.append_assoc]

end

end MCRedis.Hiredis
