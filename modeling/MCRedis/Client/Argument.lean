import MCRedis.Client.Connection
import MCRedis.Text.Decimal
import Mathlib.Data.BitVec
import Mathlib.Logic.Function.Iterate

/-!
# The arguments of a command

The constructor of `CCommand` turns each of its arguments into a text.  A string
is taken as it is, a C string up to its terminator, a number as its decimal
text.  An enumerator is converted to `uint32_t` first, so its text is the one of
its value only when the value fits this type.
-/

namespace MCRedis.Client

/-- An integral type, by its width and signedness. -/
structure IntegralType where
  bits : Nat
  signed : Bool
  deriving DecidableEq, Repr

/-- The type has the value. -/
def IntegralType.Holds (type : IntegralType) (value : Int) : Prop :=
  if type.signed then -(2 ^ (type.bits - 1) : Int) ≤ value ∧ value < 2 ^ (type.bits - 1)
  else 0 ≤ value ∧ value < 2 ^ type.bits

instance (type : IntegralType) (value : Int) : Decidable (type.Holds value) := by
  unfold IntegralType.Holds
  infer_instance

/-- A value of an integral type. -/
structure IntegralValue where
  type : IntegralType
  value : Int
  holds : type.Holds value

/-- An argument of the constructor: a `std::string`, a pointer to characters that
end with a NUL, a number, or an enumerator with its underlying value. -/
inductive Argument
  | string (str : Bytes)
  | cString (memory : Bytes) (terminated : 0 ∈ memory)
  | integral (number : IntegralValue)
  | enumerator (underlying : IntegralValue)

namespace Argument

/-- The string that `_expandArgument` makes of the argument.  The promotion before
`std::to_string` keeps the value of a number. -/
def text : Argument → Bytes
  | .string str => str
  | .cString memory _ => Client.cString memory
  | .integral number => Text.decimal number.value
  | .enumerator underlying => Text.decimal (BitVec.ofInt 32 underlying.value).toNat

/-- What the text of the argument has to be. -/
def Denotes : Argument → Bytes → Prop
  | .string str, text => text = str
  | .cString memory _, text => text = memory.takeWhile (· ≠ 0)
  | .integral number, text => Text.intValue text = some number.value
  | .enumerator underlying, text => Text.intValue text = some underlying.value

/-- An enumerator whose underlying value is one of `uint32_t`. -/
def FitsUInt32 : Argument → Prop
  | .enumerator underlying => 0 ≤ underlying.value ∧ underlying.value < 2 ^ 32
  | _ => True

/-- The conversion to `uint32_t` keeps the value exactly when it fits. -/
theorem toNat_ofInt_eq_iff (value : Int) :
    ((BitVec.ofInt 32 value).toNat : Int) = value ↔ 0 ≤ value ∧ value < 2 ^ 32 := by
  rw [BitVec.toNat_ofInt]
  omega

theorem denotes_text_iff (arg : Argument) : arg.Denotes arg.text ↔ arg.FitsUInt32 := by
  cases arg with
  | string str => exact iff_of_true rfl trivial
  | cString memory terminated => exact iff_of_true rfl trivial
  | integral number => exact iff_of_true (Text.intValue_decimal _) trivial
  | enumerator underlying =>
      rw [Denotes, text, Text.intValue_decimal, Option.some.injEq]
      exact toNat_ofInt_eq_iff underlying.value

end Argument

namespace CCommand

/-- `_expandArgumentStr<TIndex>`. -/
def _expandArgumentStr (index : Nat) (str : Bytes) (cmd : CCommand) : CCommand where
  lstCommand := cmd.lstCommand.set index str
  lstCommandSize := cmd.lstCommandSize.set index str.length
  lstCommandBuffer := cmd.lstCommandBuffer.set index str

/-- `_expandArgument<TIndex>`: the first argument, then the others. -/
def _expandArgument : Nat → List Argument → CCommand → CCommand
  | _, [], cmd => cmd
  | index, arg :: args, cmd =>
      _expandArgument (index + 1) args (cmd._expandArgumentStr index arg.text)

/-- The three vectors after `resize`: null pointers, sizes of zero and empty
strings. -/
def resized (num : Nat) : CCommand where
  lstCommand := List.replicate num []
  lstCommandSize := List.replicate num 0
  lstCommandBuffer := List.replicate num []

/-- The constructor `CCommand(TArg&&... args)`. -/
def construct (args : List Argument) : CCommand :=
  _expandArgument 0 args (resized args.length)

/-- The expansion from an index on, with the texts before the index in place. -/
theorem expandArgument_eq (args : List Argument) (texts : List Bytes) :
    _expandArgument texts.length args
        ⟨texts ++ List.replicate args.length [],
          texts.map List.length ++ List.replicate args.length 0,
          texts ++ List.replicate args.length []⟩ =
      ofTexts (texts ++ args.map Argument.text) := by
  induction args generalizing texts with
  | nil => simp [_expandArgument, ofTexts]
  | cons arg args ih =>
      have next := ih (texts ++ [arg.text])
      simp only [List.length_append, List.length_singleton, List.map_append, List.map_singleton,
        List.append_assoc, List.singleton_append] at next
      rw [_expandArgument, List.map_cons, ← next]
      congr 1
      simp [_expandArgumentStr, List.replicate_succ]

theorem construct_eq (args : List Argument) :
    construct args = ofTexts (args.map Argument.text) :=
  expandArgument_eq args []

/-- However often a command is moved, hiredis gets the texts of its arguments. -/
theorem argv_construct (args : List Argument) (moves : Nat) :
    (moved^[moves] (construct args)).argv = .ok (args.map Argument.text) := by
  have wellFormed := wellFormed_ofTexts (args.map Argument.text)
  rw [construct_eq, Function.iterate_fixed wellFormed.moved_eq]
  exact wellFormed.argv_eq

/-- Hiredis gets one entry for each argument, in order, with what the argument
denotes, exactly when every enumerator fits `uint32_t`. -/
theorem argv_denotes_iff (args : List Argument) (moves : Nat) :
    (∃ argv, (moved^[moves] (construct args)).argv = .ok argv ∧
        List.Forall₂ Argument.Denotes args argv) ↔
      ∀ arg ∈ args, arg.FitsUInt32 := by
  rw [argv_construct, ← forall₂_congr fun arg _ => arg.denotes_text_iff]
  constructor
  · rintro ⟨_, ⟨⟩, denoted⟩
    exact List.forall₂_same.mp (List.forall₂_map_right_iff.mp denoted)
  · intro denoted
    exact ⟨_, rfl, List.forall₂_map_right_iff.mpr (List.forall₂_same.mpr denoted)⟩

/-- An enumerator of the value -1 is sent as the largest `uint32_t`. -/
theorem argv_of_negative_enumerator :
    (construct [.string (literal "GET"), .enumerator ⟨⟨32, true⟩, -1, by decide⟩]).argv =
        .ok [literal "GET", literal "4294967295"] ∧
      ¬ Argument.Denotes (.enumerator ⟨⟨32, true⟩, -1, by decide⟩) (literal "4294967295") := by
  refine ⟨?_, ?_⟩
  · rw [construct_eq, (wellFormed_ofTexts _).argv_eq]
    rfl
  · intro denoted
    cases denoted

end CCommand

end MCRedis.Client
