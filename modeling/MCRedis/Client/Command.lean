import MCRedis.Client.Basic

/-!
# Commands

`CCommand` keeps three parallel vectors: the argument texts, and for each of
them a pointer to its characters and its size.  A pointer obtained from
`c_str()` is represented by the characters it designates.

The move constructor transfers the texts and the sizes and rebuilds the
pointers, but leaves the pointers of its source behind: a moved-from command
still has as many pointers as before and no sizes.
-/

namespace MCRedis.Client

structure CCommand where
  lstCommand : List Bytes
  lstCommandSize : List Nat
  lstCommandBuffer : List Bytes
  deriving DecidableEq, Repr

namespace CCommand

/-- The command built from its argument texts: `_expandArgumentStr` stores each
text and takes its pointer and size. -/
def ofTexts (texts : List Bytes) : CCommand where
  lstCommand := texts
  lstCommandSize := texts.map List.length
  lstCommandBuffer := texts

/-- The command that `CCommand(CCommand&& rhs)` constructs. -/
def moved (rhs : CCommand) : CCommand where
  lstCommand := rhs.lstCommandBuffer
  lstCommandSize := rhs.lstCommandSize
  lstCommandBuffer := rhs.lstCommandBuffer

/-- What `CCommand(CCommand&& rhs)` leaves in `rhs`. -/
def movedFrom (rhs : CCommand) : CCommand where
  lstCommand := rhs.lstCommand
  lstCommandSize := []
  lstCommandBuffer := []

/-- The characters that argument `index` designates: its pointer read up to
its size. -/
def argument (cmd : CCommand) (index : Nat) : Except Fault Bytes :=
  match cmd.lstCommand[index]?, cmd.lstCommandSize[index]? with
  | some pointer, some size => .ok (pointer.take size)
  | _, _ => .error (.undefined .outOfBounds)

/-- `getKey`: the second argument, or a null pointer when there is none. -/
def getKey (cmd : CCommand) : Except Fault (Option Bytes) :=
  if cmd.lstCommand.length < 2 then
    .ok none
  else
    (cmd.argument 1).map some

/-- The argument vector that is handed to hiredis: as many entries as there are
pointers, each read up to its size. -/
def argv (cmd : CCommand) : Except Fault (List Bytes) :=
  if cmd.lstCommandSize.length < cmd.lstCommand.length then
    .error (.undefined .outOfBounds)
  else
    .ok (List.zipWith (fun pointer size => pointer.take size) cmd.lstCommand cmd.lstCommandSize)

/-- The representation invariant: the vectors are parallel, and each pointer
and size belongs to its text. -/
structure WellFormed (cmd : CCommand) : Prop where
  pointers : cmd.lstCommand = cmd.lstCommandBuffer
  sizes : cmd.lstCommandSize = cmd.lstCommandBuffer.map List.length

theorem wellFormed_ofTexts (texts : List Bytes) : (ofTexts texts).WellFormed :=
  ⟨rfl, rfl⟩

namespace WellFormed

variable {cmd : CCommand}

theorem eq_ofTexts (wellFormed : cmd.WellFormed) : cmd = ofTexts cmd.lstCommandBuffer := by
  cases cmd
  simpa [ofTexts] using ⟨wellFormed.pointers, wellFormed.sizes⟩

/-- Moving a well-formed command gives an equal command. -/
theorem moved_eq (wellFormed : cmd.WellFormed) : cmd.moved = cmd := by
  rw [wellFormed.eq_ofTexts]
  rfl

/-- A well-formed command hands its texts to hiredis. -/
theorem argv_eq (wellFormed : cmd.WellFormed) : cmd.argv = .ok cmd.lstCommandBuffer := by
  have zipped : ∀ texts : List Bytes,
      List.zipWith (fun pointer size => pointer.take size) texts (texts.map List.length) =
        texts := by
    intro texts
    induction texts with
    | nil => rfl
    | cons text texts ih => simp [ih]
  rw [argv, wellFormed.pointers, wellFormed.sizes, zipped]
  simp

theorem getKey_eq (wellFormed : cmd.WellFormed) :
    cmd.getKey = .ok cmd.lstCommandBuffer[1]? := by
  rw [getKey, argument, wellFormed.pointers, wellFormed.sizes, List.getElem?_map]
  by_cases short : cmd.lstCommandBuffer.length < 2
  · rw [if_pos short, List.getElem?_eq_none (by omega)]
  · have present : 1 < cmd.lstCommandBuffer.length := by omega
    rw [if_neg short, List.getElem?_eq_getElem present]
    simp [Except.map]

end WellFormed

theorem map_moved_eq {cmds : List CCommand} (wellFormed : ∀ cmd ∈ cmds, cmd.WellFormed) :
    cmds.map moved = cmds := by
  calc
    cmds.map moved = cmds.map id :=
      List.map_congr_left fun cmd mem => (wellFormed cmd mem).moved_eq
    _ = cmds := List.map_id cmds

end CCommand

end MCRedis.Client
