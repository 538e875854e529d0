import Mathlib.Data.List.Perm.Lattice
import Mathlib.Order.Lattice

/-!
# Ordered maps with a lower bound

A finite map over a linear order, kept as a strictly sorted list of entries:
lookup, insertion, erasure, and the search for the first entry at or above a
key.  The sortedness is a field, so that every map is well formed; the
permutation lemmas move one entry to the front, which is what counting
arguments over all the values need.
-/

namespace MCRedis.Container

universe u v

/-- A finite map as a strictly sorted list of entries. -/
structure OrderedMap (κ : Type u) (α : Type v) [LinearOrder κ] where
  entries : List (κ × α)
  sorted : entries.Pairwise fun first second => first.1 < second.1

namespace OrderedMap

variable {κ : Type u} {α : Type v} [LinearOrder κ]

def empty : OrderedMap κ α :=
  ⟨[], .nil⟩

/-- The value at a key. -/
def find? (map : OrderedMap κ α) (key : κ) : Option α :=
  (map.entries.find? fun entry => entry.1 = key).map Prod.snd

/-- The first entry whose key is at or above the given one. -/
def lowerBound (map : OrderedMap κ α) (key : κ) : Option (κ × α) :=
  map.entries.find? fun entry => key ≤ entry.1

/-- Insertion into a sorted list of entries; an entry of the same key is
replaced. -/
def insertEntry (key : κ) (value : α) : List (κ × α) → List (κ × α)
  | [] => [(key, value)]
  | entry :: rest =>
      if key < entry.1 then (key, value) :: entry :: rest
      else if key = entry.1 then (key, value) :: rest
      else entry :: insertEntry key value rest

theorem fst_mem_insertEntry {key : κ} {value : α} {entries : List (κ × α)} {entry : κ × α}
    (mem : entry ∈ insertEntry key value entries) :
    entry = (key, value) ∨ entry ∈ entries := by
  induction entries with
  | nil => simpa [insertEntry] using mem
  | cons first rest ih =>
      rw [insertEntry] at mem
      split at mem
      · rcases List.mem_cons.mp mem with equal | mem
        · exact .inl equal
        · exact .inr mem
      · split at mem
        · rcases List.mem_cons.mp mem with equal | mem
          · exact .inl equal
          · exact .inr (List.mem_cons_of_mem first mem)
        · rcases List.mem_cons.mp mem with rfl | mem
          · exact .inr List.mem_cons_self
          · rcases ih mem with equal | mem
            · exact .inl equal
            · exact .inr (List.mem_cons_of_mem first mem)

theorem sorted_insertEntry {key : κ} {value : α} {entries : List (κ × α)}
    (sorted : entries.Pairwise fun first second => first.1 < second.1) :
    (insertEntry key value entries).Pairwise fun first second => first.1 < second.1 := by
  induction entries with
  | nil => simp [insertEntry]
  | cons first rest ih =>
      obtain ⟨firstLt, restSorted⟩ := List.pairwise_cons.mp sorted
      rw [insertEntry]
      split
      · rename_i keyLt
        refine List.pairwise_cons.mpr ⟨?_, sorted⟩
        intro entry mem
        rcases List.mem_cons.mp mem with rfl | mem
        · exact keyLt
        · exact lt_trans keyLt (firstLt entry mem)
      · rename_i notLt
        split
        · rename_i keyEq
          refine List.pairwise_cons.mpr ⟨?_, restSorted⟩
          intro entry mem
          exact keyEq ▸ firstLt entry mem
        · rename_i keyNe
          refine List.pairwise_cons.mpr ⟨?_, ih restSorted⟩
          intro entry mem
          rcases fst_mem_insertEntry mem with rfl | mem
          · exact lt_of_le_of_ne (not_lt.mp notLt) (Ne.symm keyNe)
          · exact firstLt entry mem

/-- Set the value at a key. -/
def insert (map : OrderedMap κ α) (key : κ) (value : α) : OrderedMap κ α :=
  ⟨insertEntry key value map.entries, sorted_insertEntry map.sorted⟩

/-- Remove a key. -/
def erase (map : OrderedMap κ α) (key : κ) : OrderedMap κ α :=
  ⟨map.entries.filter fun entry => entry.1 ≠ key, map.sorted.filter _⟩

/-- Apply a function to every value. -/
def mapValues (map : OrderedMap κ α) (f : α → α) : OrderedMap κ α :=
  ⟨map.entries.map fun entry => (entry.1, f entry.2), by
    rw [List.pairwise_map]
    exact map.sorted⟩

/-! ## Entries and lookup -/

/-- A key occurs once. -/
theorem eq_of_mem {map : OrderedMap κ α} {key : κ} {first second : α}
    (firstMem : (key, first) ∈ map.entries) (secondMem : (key, second) ∈ map.entries) :
    first = second := by
  rcases map with ⟨entries, sorted⟩
  induction entries with
  | nil => simp at firstMem
  | cons entry rest ih =>
      obtain ⟨entryLt, restSorted⟩ := List.pairwise_cons.mp sorted
      rcases List.mem_cons.mp firstMem with firstEq | firstMem
      · rcases List.mem_cons.mp secondMem with secondEq | secondMem
        · exact congrArg Prod.snd (firstEq.trans secondEq.symm)
        · have below := entryLt _ secondMem
          rw [← firstEq] at below
          exact absurd below (lt_irrefl key)
      · rcases List.mem_cons.mp secondMem with secondEq | secondMem
        · have below := entryLt _ firstMem
          rw [← secondEq] at below
          exact absurd below (lt_irrefl key)
        · exact ih restSorted firstMem secondMem

theorem find?_eq_some_iff {map : OrderedMap κ α} {key : κ} {value : α} :
    map.find? key = some value ↔ (key, value) ∈ map.entries := by
  constructor
  · intro found
    obtain ⟨entry, entryFound, rfl⟩ := Option.map_eq_some_iff.mp found
    have keyEq : entry.1 = key := by simpa using List.find?_some entryFound
    rw [← keyEq]
    exact List.mem_of_find?_eq_some entryFound
  · intro mem
    cases found : map.entries.find? fun entry => entry.1 = key with
    | none =>
        have absent := List.find?_eq_none.mp found _ mem
        simp at absent
    | some entry =>
        have keyEq : entry.1 = key := by simpa using List.find?_some found
        have entryMem : (key, entry.2) ∈ map.entries := by
          rw [← keyEq]
          exact List.mem_of_find?_eq_some found
        rw [find?, found, Option.map_some, eq_of_mem entryMem mem]

theorem find?_eq_none_iff {map : OrderedMap κ α} {key : κ} :
    map.find? key = none ↔ ∀ value, (key, value) ∉ map.entries := by
  simp only [← find?_eq_some_iff, Option.eq_none_iff_forall_ne_some, ne_eq]

@[simp]
theorem find?_empty (key : κ) : (empty : OrderedMap κ α).find? key = none :=
  rfl

theorem mem_insert_iff {map : OrderedMap κ α} {key : κ} {value : α} {entry : κ × α} :
    entry ∈ (map.insert key value).entries ↔
      entry = (key, value) ∨ entry ∈ map.entries ∧ entry.1 ≠ key := by
  rcases map with ⟨entries, sorted⟩
  simp only [insert]
  induction entries with
  | nil => simp [insertEntry]
  | cons first rest ih =>
      obtain ⟨firstLt, restSorted⟩ := List.pairwise_cons.mp sorted
      have later : ∀ other ∈ rest, key ≤ first.1 → other.1 ≠ key := by
        intro other mem below equal
        exact absurd (lt_of_le_of_lt below (firstLt other mem)) (equal ▸ lt_irrefl _)
      rw [insertEntry]
      split
      · rename_i keyLt
        have restNe : ∀ other ∈ rest, other.1 ≠ key := fun other mem => later other mem keyLt.le
        have firstNe : first.1 ≠ key := (ne_of_lt keyLt).symm
        grind
      · split
        · rename_i keyEq
          have restNe : ∀ other ∈ rest, other.1 ≠ key := fun other mem => later other mem keyEq.le
          grind
        · rename_i keyNe
          have ihRest := ih restSorted
          grind

theorem mem_erase_iff {map : OrderedMap κ α} {key : κ} {entry : κ × α} :
    entry ∈ (map.erase key).entries ↔ entry ∈ map.entries ∧ entry.1 ≠ key := by
  simp [erase]

theorem find?_insert (map : OrderedMap κ α) (key other : κ) (value : α) :
    (map.insert key value).find? other = if other = key then some value else map.find? other := by
  apply Option.ext
  intro found
  rw [find?_eq_some_iff, mem_insert_iff]
  split
  · rename_i equal
    subst equal
    simp [eq_comm]
  · rename_i different
    simp [different, find?_eq_some_iff]

@[simp]
theorem find?_insert_self (map : OrderedMap κ α) (key : κ) (value : α) :
    (map.insert key value).find? key = some value := by
  rw [find?_insert, if_pos rfl]

theorem find?_insert_of_ne (map : OrderedMap κ α) {key other : κ} (value : α) (ne : other ≠ key) :
    (map.insert key value).find? other = map.find? other := by
  rw [find?_insert, if_neg ne]

theorem find?_erase (map : OrderedMap κ α) (key other : κ) :
    (map.erase key).find? other = if other = key then none else map.find? other := by
  apply Option.ext
  intro found
  rw [find?_eq_some_iff, mem_erase_iff]
  split
  · rename_i equal
    simp [equal]
  · rename_i different
    simp [different, find?_eq_some_iff]

@[simp]
theorem entries_mapValues (map : OrderedMap κ α) (f : α → α) :
    (map.mapValues f).entries = map.entries.map fun entry => (entry.1, f entry.2) :=
  rfl

/-! ## The lower bound -/

/-- The lower bound is the entry of the least key at or above the given one. -/
theorem lowerBound_eq_some_iff {map : OrderedMap κ α} {key : κ} {entry : κ × α} :
    map.lowerBound key = some entry ↔
      entry ∈ map.entries ∧ key ≤ entry.1 ∧
        ∀ other ∈ map.entries, key ≤ other.1 → entry.1 ≤ other.1 := by
  rcases map with ⟨entries, sorted⟩
  simp only [lowerBound]
  induction entries with
  | nil => simp
  | cons first rest ih =>
      obtain ⟨firstLt, restSorted⟩ := List.pairwise_cons.mp sorted
      by_cases above : key ≤ first.1
      · rw [List.find?_cons_of_pos (by simpa using above)]
        constructor
        · rintro ⟨⟩
          refine ⟨List.mem_cons_self, above, ?_⟩
          intro other mem _
          rcases List.mem_cons.mp mem with rfl | mem
          · exact le_rfl
          · exact (firstLt other mem).le
        · rintro ⟨mem, _, least⟩
          rcases List.mem_cons.mp mem with rfl | mem
          · rfl
          · have notLt := least first List.mem_cons_self above
            exact absurd (firstLt entry mem) (not_lt.mpr notLt)
      · rw [List.find?_cons_of_neg (by simpa using above), ih restSorted]
        constructor
        · rintro ⟨mem, aboveEntry, least⟩
          refine ⟨List.mem_cons_of_mem first mem, aboveEntry, ?_⟩
          intro other otherMem aboveOther
          rcases List.mem_cons.mp otherMem with rfl | otherMem
          · exact absurd aboveOther above
          · exact least other otherMem aboveOther
        · rintro ⟨mem, aboveEntry, least⟩
          rcases List.mem_cons.mp mem with rfl | mem
          · exact absurd aboveEntry above
          · exact ⟨mem, aboveEntry, fun other otherMem =>
              least other (List.mem_cons_of_mem first otherMem)⟩

/-- What holds of a new value and of the other ones holds of all values after the
insertion. -/
theorem forall_find?_insert {P : κ → α → Prop} {map : OrderedMap κ α} {key : κ} {value : α}
    (new : P key value)
    (others : ∀ other found, other ≠ key → map.find? other = some found → P other found) :
    ∀ other found, (map.insert key value).find? other = some found → P other found := by
  intro other found foundEq
  rw [find?_insert] at foundEq
  split at foundEq
  · rename_i equal
    cases foundEq
    exact equal ▸ new
  · rename_i differ
    exact others other found differ foundEq

theorem forall_find?_erase {P : κ → α → Prop} {map : OrderedMap κ α} {key : κ}
    (others : ∀ other found, other ≠ key → map.find? other = some found → P other found) :
    ∀ other found, (map.erase key).find? other = some found → P other found := by
  intro other found foundEq
  rw [find?_erase] at foundEq
  split at foundEq
  · contradiction
  · rename_i differ
    exact others other found differ foundEq

theorem find?_of_lowerBound {map : OrderedMap κ α} {key : κ} {entry : κ × α}
    (found : map.lowerBound key = some entry) : map.find? entry.1 = some entry.2 :=
  find?_eq_some_iff.mpr (lowerBound_eq_some_iff.mp found).1

/-! ## Moving one entry to the front -/

theorem nodup_entries (map : OrderedMap κ α) : map.entries.Nodup := by
  refine map.sorted.imp ?_
  rintro first second less rfl
  exact lt_irrefl _ less

theorem nodup_cons_erase (map : OrderedMap κ α) (key : κ) (value : α) :
    ((key, value) :: (map.erase key).entries).Nodup := by
  refine List.nodup_cons.mpr ⟨?_, nodup_entries _⟩
  rw [mem_erase_iff]
  exact fun mem => mem.2 rfl

theorem insert_perm (map : OrderedMap κ α) (key : κ) (value : α) :
    (map.insert key value).entries.Perm ((key, value) :: (map.erase key).entries) := by
  apply (List.perm_ext_iff_of_nodup (nodup_entries _) (nodup_cons_erase map key value)).mpr
  intro entry
  rw [mem_insert_iff, List.mem_cons, mem_erase_iff]

theorem perm_of_find? {map : OrderedMap κ α} {key : κ} {value : α}
    (found : map.find? key = some value) :
    map.entries.Perm ((key, value) :: (map.erase key).entries) := by
  apply (List.perm_ext_iff_of_nodup (nodup_entries _) (nodup_cons_erase map key value)).mpr
  intro entry
  rw [List.mem_cons, mem_erase_iff]
  constructor
  · intro mem
    by_cases keyEq : entry.1 = key
    · have entryMem : (key, entry.2) ∈ map.entries := keyEq ▸ mem
      exact .inl (Prod.ext keyEq (eq_of_mem entryMem (find?_eq_some_iff.mp found)))
    · exact .inr ⟨mem, keyEq⟩
  · rintro (rfl | mem)
    · exact find?_eq_some_iff.mp found
    · exact mem.1

theorem erase_entries_of_find?_none {map : OrderedMap κ α} {key : κ}
    (absent : map.find? key = none) : (map.erase key).entries = map.entries := by
  apply List.filter_eq_self.mpr
  intro entry mem
  have keyNe : entry.1 ≠ key := fun equal =>
    find?_eq_none_iff.mp absent entry.2 (equal ▸ mem)
  simpa using keyNe

/-! ## Collecting the values -/

section Collect

universe w

variable {β : Type w} (f : α → List β)

/-- The items that `f` finds in the values, in the order of the keys. -/
def collect (map : OrderedMap κ α) : List β :=
  map.entries.flatMap fun entry => f entry.2

theorem mem_collect_iff {map : OrderedMap κ α} {item : β} :
    item ∈ collect f map ↔ ∃ entry ∈ map.entries, item ∈ f entry.2 :=
  List.mem_flatMap

theorem mem_collect_insert {map : OrderedMap κ α} {key : κ} {value : α} {item : β}
    (mem : item ∈ collect f (map.insert key value)) : item ∈ f value ∨ item ∈ collect f map := by
  obtain ⟨entry, entryMem, itemMem⟩ := (mem_collect_iff f).mp mem
  rcases mem_insert_iff.mp entryMem with rfl | ⟨old, _⟩
  · exact .inl itemMem
  · exact .inr ((mem_collect_iff f).mpr ⟨entry, old, itemMem⟩)

theorem mem_collect_erase {map : OrderedMap κ α} {key : κ} {item : β}
    (mem : item ∈ collect f (map.erase key)) : item ∈ collect f map := by
  obtain ⟨entry, entryMem, itemMem⟩ := (mem_collect_iff f).mp mem
  exact (mem_collect_iff f).mpr ⟨entry, (mem_erase_iff.mp entryMem).1, itemMem⟩

theorem mem_collect_of_find? {map : OrderedMap κ α} {key : κ} {value : α} {item : β}
    (found : map.find? key = some value) (mem : item ∈ f value) : item ∈ collect f map :=
  (mem_collect_iff f).mpr ⟨(key, value), find?_eq_some_iff.mp found, mem⟩

section Forall

variable {P : β → Prop}

/-- What holds of the new items and of all others holds of the items after an
insertion. -/
theorem forall_collect_insert {map : OrderedMap κ α} {key : κ} {value : α}
    (new : ∀ item ∈ f value, P item) (all : ∀ item ∈ collect f map, P item) :
    ∀ item ∈ collect f (map.insert key value), P item := by
  intro item mem
  rcases mem_collect_insert f mem with inserted | old
  · exact new item inserted
  · exact all item old

theorem forall_collect_erase {map : OrderedMap κ α} {key : κ}
    (all : ∀ item ∈ collect f map, P item) : ∀ item ∈ collect f (map.erase key), P item :=
  fun item mem => all item (mem_collect_erase f mem)

theorem forall_of_find? {map : OrderedMap κ α} {key : κ} {value : α}
    (found : map.find? key = some value) (all : ∀ item ∈ collect f map, P item) :
    ∀ item ∈ f value, P item :=
  fun item mem => all item (mem_collect_of_find? f found mem)

end Forall

variable [BEq β]

theorem count_collect_erase {map : OrderedMap κ α} {key : κ} {value : α}
    (found : map.find? key = some value) (item : β) :
    (collect f map).count item = (f value).count item + (collect f (map.erase key)).count item := by
  rw [collect, ((perm_of_find? found).flatMap_right _).count_eq, List.flatMap_cons,
    List.count_append]
  rfl

theorem count_collect_insert_erase (map : OrderedMap κ α) (key : κ) (value : α) (item : β) :
    (collect f (map.insert key value)).count item =
      (f value).count item + (collect f (map.erase key)).count item := by
  rw [collect, ((insert_perm map key value).flatMap_right _).count_eq, List.flatMap_cons,
    List.count_append]
  rfl

/-- A new key adds the items of its value. -/
theorem count_collect_insert_new {map : OrderedMap κ α} {key : κ}
    (absent : map.find? key = none) (value : α) (item : β) :
    (collect f (map.insert key value)).count item =
      (f value).count item + (collect f map).count item := by
  rw [count_collect_insert_erase, collect, erase_entries_of_find?_none absent]
  rfl

/-- Replacing the value of a key replaces its items. -/
theorem count_collect_insert {map : OrderedMap κ α} {key : κ} {old : α}
    (found : map.find? key = some old) (value : α) (item : β) :
    (collect f (map.insert key value)).count item + (f old).count item =
      (f value).count item + (collect f map).count item := by
  rw [count_collect_insert_erase, count_collect_erase f found]
  omega

/-- An item that occurs at most once comes from one key only. -/
theorem key_unique_of_count_collect [LawfulBEq β] {map : OrderedMap κ α} {first second : κ}
    {firstValue secondValue : α} {item : β} (once : (collect f map).count item ≤ 1)
    (firstFound : map.find? first = some firstValue) (inFirst : item ∈ f firstValue)
    (secondFound : map.find? second = some secondValue) (inSecond : item ∈ f secondValue) :
    first = second := by
  by_contra differ
  have split := count_collect_erase f firstFound item
  have left : (map.erase first).find? second = some secondValue := by
    rw [find?_erase, if_neg fun equal => differ equal.symm, secondFound]
  have inRest := List.count_pos_iff.mpr (mem_collect_of_find? f left inSecond)
  have inHead := List.count_pos_iff.mpr inFirst
  omega

end Collect

end OrderedMap

end MCRedis.Container
