import Mathlib.Data.List.Basic

/-!
# Bytes, fixed-width limits and faults

The vocabulary shared by the modules that embed the C++ sources.  A
`std::string`, and the characters a `const char*` with a length designates, are
lists of bytes; the limits of the fixed-width integer types are named once.  A
`Fault` ends a program: either the language gives the step no meaning, or an
exception leaves a `noexcept` function.
-/

namespace MCRedis.Client

/-- The characters of a `std::string`, or those a pointer and a length give. -/
abbrev Bytes := List UInt8

/-- The characters of a string literal. -/
def literal (text : String) : Bytes :=
  text.toByteArray.data.toList

/-- `std::numeric_limits<uint32_t>::max()`. -/
def uint32Max : Nat := 4294967295

/-- `std::numeric_limits<int>::max()`. -/
def intMax : Nat := 2147483647

/-- The number of values of `uint64_t`, and of `size_t`. -/
def uint64Size : Nat := 18446744073709551616

/-- Steps to which the language gives no meaning. -/
inductive Undefined
  | signedOverflow
  | outOfBounds
  | nullDereference
  | emptyContainer
  | indeterminate
  deriving DecidableEq, Repr

/-- How a program ends without returning. -/
inductive Fault
  | undefined (kind : Undefined)
  | terminate
  deriving DecidableEq, Repr

end MCRedis.Client
