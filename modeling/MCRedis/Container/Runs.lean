import Mathlib.Data.List.Chain

/-!
# Maximal runs

A sequence of keyed values, cut into groups of consecutive values with the same
key.  The groups grow at their end: a value with the key of the last group joins
it, and a value with any other key opens a new one.
-/

namespace MCRedis.Container

universe u v

variable {κ : Type u} {α : Type v}

/-- The groups are the maximal runs of equal keys in the sequence of items. -/
structure IsRuns (groups : List (κ × List α)) (items : List (κ × α)) : Prop where
  content : groups.flatMap (fun group => group.2.map (Prod.mk group.1)) = items
  nonempty : ∀ group ∈ groups, group.2 ≠ []
  maximal : groups.IsChain fun group next => group.1 ≠ next.1

namespace IsRuns

variable {groups : List (κ × List α)} {items : List (κ × α)} {key : κ} {value : α}
  {values : List α}

theorem nil : IsRuns ([] : List (κ × List α)) [] :=
  ⟨rfl, by simp, .nil⟩

/-- A value opens a group when the last group has another key. -/
theorem push (runs : IsRuns groups items)
    (differs : ∀ last ∈ groups.getLast?, last.1 ≠ key) :
    IsRuns (groups ++ [(key, [value])]) (items ++ [(key, value)]) := by
  constructor
  · rw [List.flatMap_append, runs.content]
    rfl
  · intro group mem
    rcases List.mem_append.mp mem with old | new
    · exact runs.nonempty group old
    · rw [List.mem_singleton.mp new]
      exact List.cons_ne_nil value []
  · rw [List.isChain_append]
    refine ⟨runs.maximal, .singleton _, ?_⟩
    rintro last lastEq next ⟨⟩
    exact differs last lastEq

/-- A value joins the last group when it has its key. -/
theorem extend (runs : IsRuns (groups ++ [(key, values)]) items) :
    IsRuns (groups ++ [(key, values ++ [value])]) (items ++ [(key, value)]) := by
  constructor
  · rw [← runs.content]
    simp
  · intro group mem
    rcases List.mem_append.mp mem with old | new
    · exact runs.nonempty group (List.mem_append_left _ old)
    · rw [List.mem_singleton.mp new]
      simp
  · obtain ⟨init, _, across⟩ := List.isChain_append.mp runs.maximal
    rw [List.isChain_append]
    refine ⟨init, .singleton _, ?_⟩
    rintro last lastEq next ⟨⟩
    exact across last lastEq (key, values) rfl

/-- The values of all groups are the values of the items. -/
theorem flatMap_snd (runs : IsRuns groups items) :
    groups.flatMap Prod.snd = items.map Prod.snd := by
  rw [← runs.content, List.map_flatMap]
  simp [Function.comp_def]

/-- There are groups exactly when there are items. -/
theorem eq_nil_iff (runs : IsRuns groups items) : groups = [] ↔ items = [] := by
  constructor
  · rintro rfl
    exact runs.content.symm
  · intro empty
    by_contra present
    obtain ⟨group, mem⟩ := List.exists_mem_of_ne_nil groups present
    have none := runs.content.trans empty
    rw [List.flatMap_eq_nil_iff] at none
    exact runs.nonempty group mem (List.map_eq_nil_iff.mp (none group mem))

end IsRuns

end MCRedis.Container
