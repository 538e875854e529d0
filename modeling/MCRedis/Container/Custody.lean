import Mathlib.Data.List.Perm.Basic

/-!
# Custody of objects

Events open objects and close objects.  What is held before a sequence of
events, together with what the events open, is what they close together with
what is held after them: no object is lost, and none is in two places.
-/

namespace MCRedis.Container

universe u v

/-- The objects that an event opens and closes. -/
structure Custody (ε : Type u) (α : Type v) where
  opens : ε → List α
  closes : ε → List α

namespace Custody

variable {ε : Type u} {α : Type v} (custody : Custody ε α) {held middle after : List α}
  {first second : List ε}

def opened (events : List ε) : List α :=
  events.flatMap custody.opens

def closed (events : List ε) : List α :=
  events.flatMap custody.closes

/-- The balance of a sequence of events. -/
def Balanced (held : List α) (events : List ε) (after : List α) : Prop :=
  (held ++ custody.opened events).Perm (custody.closed events ++ after)

variable {custody}

theorem Balanced.nil (held : List α) : custody.Balanced held [] held := by
  simp [Balanced, opened, closed]

/-- Two sequences after one another, where the second starts with what the first
leaves. -/
theorem Balanced.append (before : custody.Balanced held first middle)
    (later : custody.Balanced middle second after) :
    custody.Balanced held (first ++ second) after := by
  have openedEq : custody.opened (first ++ second) =
      custody.opened first ++ custody.opened second := List.flatMap_append
  have closedEq : custody.closed (first ++ second) =
      custody.closed first ++ custody.closed second := List.flatMap_append
  have front := List.Perm.append_right (custody.opened second) before
  have back := List.Perm.append_left (custody.closed first) later
  rw [← List.append_assoc, ← List.append_assoc] at back
  rw [Balanced, openedEq, closedEq, ← List.append_assoc]
  exact front.trans back

/-- What is held besides is held on. -/
theorem Balanced.frame (balanced : custody.Balanced held first after) (others : List α) :
    custody.Balanced (held ++ others) first (after ++ others) := by
  have swapped : (held ++ others ++ custody.opened first).Perm
      (held ++ custody.opened first ++ others) := by
    rw [List.append_assoc, List.append_assoc]
    exact List.perm_append_comm.append_left held
  rw [Balanced, ← List.append_assoc]
  exact swapped.trans (balanced.append_right others)

theorem Balanced.perm_after {other : List α} (balanced : custody.Balanced held first after)
    (perm : after.Perm other) : custody.Balanced held first other :=
  List.Perm.trans balanced (perm.append_left _)

/-- Events that neither open nor close anything. -/
theorem Balanced.of_quiet (quiet : ∀ event ∈ first, custody.opens event = [] ∧
    custody.closes event = []) (held : List α) : custody.Balanced held first held := by
  have openedNil : custody.opened first = [] :=
    List.flatMap_eq_nil_iff.mpr fun event mem => (quiet event mem).1
  have closedNil : custody.closed first = [] :=
    List.flatMap_eq_nil_iff.mpr fun event mem => (quiet event mem).2
  rw [Balanced, openedNil, closedNil, List.append_nil, List.nil_append]

/-- Every object that was opened is either closed or in the given hands. -/
def Accounted (custody : Custody ε α) (events : List ε) (hands : List α) : Prop :=
  ∀ object ∈ custody.opened events,
    (object ∈ custody.closed events ∨ object ∈ hands) ∧
      ¬ (object ∈ custody.closed events ∧ object ∈ hands)

/-- When distinct objects are opened and none is held before, all of them are
accounted for exactly when nothing is left besides the given hands. -/
theorem Balanced.accounted_iff {hands leaked : List α}
    (balanced : custody.Balanced [] first (hands ++ leaked))
    (distinct : (custody.opened first).Nodup) :
    custody.Accounted first hands ↔ leaked = [] := by
  have perm : (custody.opened first).Perm (custody.closed first ++ (hands ++ leaked)) := balanced
  have nodup := perm.nodup distinct
  obtain ⟨_, nodupRest, apart⟩ := List.nodup_append.mp nodup
  obtain ⟨_, _, apartRest⟩ := List.nodup_append.mp nodupRest
  constructor
  · intro accounted
    apply List.eq_nil_iff_forall_not_mem.mpr
    intro object mem
    have inRest : object ∈ hands ++ leaked := List.mem_append_right _ mem
    rcases (accounted object (perm.mem_iff.mpr (List.mem_append_right _ inRest))).1 with gone | kept
    · exact apart object gone object inRest rfl
    · exact apartRest object kept object mem rfl
  · rintro rfl object mem
    rw [List.append_nil] at perm apart
    refine ⟨List.mem_append.mp (perm.mem_iff.mp mem), ?_⟩
    rintro ⟨gone, kept⟩
    exact apart object gone object kept rfl

end Custody

end MCRedis.Container
