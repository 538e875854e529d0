import Mathlib.Data.List.Count

/-!
# Ledgers of names

Names are handed out, held for a while and then given back, while entries are
stored under them.  In a ledger a name is held or given back at most once, all
told, and every name under which something is stored is one or the other; so
no stored entry is forgotten and none is removed while its name is held.
-/

namespace MCRedis.Container

universe u

variable {α : Type u} [DecidableEq α]

structure Ledger (held returned : List α) (stored : α → Prop) : Prop where
  atMostOnce : ∀ name, held.count name + returned.count name ≤ 1
  kept : ∀ name, stored name → 0 < held.count name + returned.count name

namespace Ledger

variable {held after returned : List α} {stored : α → Prop} {name : α}

theorem empty : Ledger ([] : List α) [] fun _ => False :=
  ⟨fun _ => Nat.zero_le 1, nofun⟩

/-- What the ledger says of a stored name. -/
theorem cases (ledger : Ledger held returned stored) (isStored : stored name) :
    (held.count name = 1 ∧ name ∉ returned) ∨ (name ∉ held ∧ returned.count name = 1) := by
  have once := ledger.atMostOnce name
  have kept := ledger.kept name isStored
  rcases Nat.eq_zero_or_pos (returned.count name) with none | some
  · left
    exact ⟨by omega, List.count_eq_zero.mp none⟩
  · right
    exact ⟨List.count_eq_zero.mp (by omega), by omega⟩

/-- A name that was given back is not held. -/
theorem not_held (ledger : Ledger held returned stored) (mem : name ∈ returned) : name ∉ held := by
  intro isHeld
  have once := ledger.atMostOnce name
  have first := List.count_pos_iff.mpr isHeld
  have second := List.count_pos_iff.mpr mem
  omega

/-- Entries may be removed under names that nobody holds any more. -/
theorem mono (ledger : Ledger held returned stored)
    (same : ∀ other, after.count other = held.count other) {fewer : α → Prop}
    (subset : ∀ other, fewer other → stored other) : Ledger after returned fewer := by
  constructor
  · intro other
    rw [same]
    exact ledger.atMostOnce other
  · intro other isStored
    rw [same]
    exact ledger.kept other (subset other isStored)

/-- What is held after one name was let go was held before. -/
theorem mem_of_split (split : ∀ other, held.count other = [name].count other + after.count other)
    {other : α} (mem : other ∈ after) : other ∈ held := by
  have some := List.count_pos_iff.mpr mem
  have split := split other
  exact List.count_pos_iff.mp (by omega)

/-- The name that is let go was held. -/
theorem mem_of_split_self
    (split : ∀ other, held.count other = [name].count other + after.count other) :
    name ∈ held := by
  have split := split name
  rw [List.count_singleton_self] at split
  exact List.count_pos_iff.mp (by omega)

/-- The name that is let go is not held any more. -/
theorem not_mem_of_split (ledger : Ledger held returned stored)
    (split : ∀ other, held.count other = [name].count other + after.count other) :
    name ∉ after := by
  have once := ledger.atMostOnce name
  have split := split name
  rw [List.count_singleton_self] at split
  exact List.count_eq_zero.mp (by omega)

/-- The holder of a name gives it back. -/
theorem giveBack (ledger : Ledger held returned stored)
    (split : ∀ other, held.count other = [name].count other + after.count other) :
    Ledger after (returned ++ [name]) stored := by
  constructor
  · intro other
    have once := ledger.atMostOnce other
    have split := split other
    rw [List.count_append]
    omega
  · intro other isStored
    have kept := ledger.kept other isStored
    have split := split other
    rw [List.count_append]
    omega

/-- The holder of a name takes its entry out. -/
theorem takeOut (ledger : Ledger held returned stored)
    (split : ∀ other, held.count other = [name].count other + after.count other) :
    Ledger after returned fun other => stored other ∧ other ≠ name := by
  constructor
  · intro other
    have once := ledger.atMostOnce other
    have split := split other
    omega
  · intro other isStored
    have kept := ledger.kept other isStored.1
    have split := split other
    rw [List.count_singleton, if_neg (by simpa using isStored.2.symm)] at split
    omega

/-- A new name is held, and an entry is stored under it. -/
theorem issue (ledger : Ledger held returned stored) (notHeld : name ∉ held)
    (notReturned : name ∉ returned)
    (joined : ∀ other, after.count other = [name].count other + held.count other) :
    Ledger after returned fun other => other = name ∨ stored other := by
  constructor
  · intro other
    have once := ledger.atMostOnce other
    have joined := joined other
    by_cases equal : name = other
    · cases equal
      have noHeld := List.count_eq_zero.mpr notHeld
      have noReturned := List.count_eq_zero.mpr notReturned
      rw [List.count_singleton_self] at joined
      omega
    · rw [List.count_singleton, if_neg (by simpa using equal)] at joined
      omega
  · rintro other (rfl | isStored)
    · have joined := joined other
      rw [List.count_singleton_self] at joined
      omega
    · have kept := ledger.kept other isStored
      have joined := joined other
      omega

/-- The names that were given back are forgotten, once nothing is stored under
any of them. -/
theorem forget (ledger : Ledger held returned stored)
    (gone : ∀ other ∈ returned, ¬ stored other) : Ledger held [] stored := by
  constructor
  · intro other
    have once := ledger.atMostOnce other
    rw [List.count_nil]
    omega
  · intro other isStored
    have kept := ledger.kept other isStored
    have none := List.count_eq_zero.mpr fun mem => gone other mem isStored
    rw [List.count_nil]
    omega

end Ledger

end MCRedis.Container
