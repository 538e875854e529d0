import MCRedis.Transition.Traces

/-!
# Damage and repair

Some events of a trace do damage, and some repair what the event before them has
damaged.  A trace is mended when every damage is repaired at once.

Whether a part of a trace does damage depends on how the rest begins; `Leads` and
`Closes` say what a part contributes, for every rest or for those that repair
nothing.
-/

namespace MCRedis.Transition

universe u

/-- Which events do damage, and which repair it. -/
structure Mending (ε : Type u) where
  damages : ε → Prop
  repairs : ε → Prop

namespace Mending

variable {ε : Type u} (mending : Mending ε)

/-- The trace begins with a repair. -/
def Begins (trace : List ε) : Prop :=
  ∃ event ∈ trace.head?, mending.repairs event

/-- Every damage is followed by a repair. -/
def Mended : List ε → Prop
  | [] => True
  | event :: rest => (mending.damages event → mending.Begins rest) ∧ Mended rest

/-- The part does no damage, but for its last event unless `sound` holds. -/
def Leads (trace : List ε) (sound : Prop) : Prop :=
  ∀ rest, mending.Mended (trace ++ rest) ↔ (sound ∨ mending.Begins rest) ∧ mending.Mended rest

/-- A part that is not empty and repairs nothing of what is before it. -/
structure Opens (trace : List ε) (sound : Prop) : Prop where
  begins : ∀ rest, ¬ mending.Begins (trace ++ rest)
  leads : mending.Leads trace sound

/-- The part repairs nothing of what is before it and, when nothing behind it repairs,
does no damage exactly when `sound` holds. -/
structure Closes (trace : List ε) (sound : Prop) : Prop where
  begins : ¬ mending.Begins trace
  mended : ∀ rest, ¬ mending.Begins rest →
    (mending.Mended (trace ++ rest) ↔ sound ∧ mending.Mended rest)

variable {mending} {first second : List ε} {sound sound' : Prop}

theorem not_begins_nil : ¬ mending.Begins [] := by
  rintro ⟨_, ⟨⟩, _⟩

theorem begins_cons_iff {event : ε} {rest : List ε} :
    mending.Begins (event :: rest) ↔ mending.repairs event := by
  simp [Begins]

theorem begins_append (begins : mending.Begins first) (rest : List ε) :
    mending.Begins (first ++ rest) := by
  cases first with
  | nil => exact absurd begins not_begins_nil
  | cons event first => exact begins_cons_iff.mpr (begins_cons_iff.mp begins)

theorem not_begins_append (front : ¬ mending.Begins first) (back : ¬ mending.Begins second) :
    ¬ mending.Begins (first ++ second) := by
  cases first with
  | nil => exact back
  | cons event first => rwa [List.cons_append, begins_cons_iff, ← begins_cons_iff]

namespace Leads

theorem nil : mending.Leads [] True := fun _ => by simp

/-- An event alone damages, or does not. -/
theorem single {event : ε} (damagesIff : mending.damages event ↔ ¬ sound) :
    mending.Leads [event] sound := by
  intro rest
  rw [List.singleton_append, Mended, damagesIff]
  exact and_congr_left fun _ => or_iff_not_imp_left.symm

/-- A part without damage in front. -/
theorem append (front : mending.Leads first True) (back : mending.Leads second sound) :
    mending.Leads (first ++ second) sound := by
  intro rest
  rw [List.append_assoc, front, back, true_or, true_and]

/-- What the first part damages, the second part repairs. -/
theorem append_repair (front : mending.Leads first sound) (back : mending.Leads second sound')
    (repair : mending.Begins second) : mending.Leads (first ++ second) sound' := by
  intro rest
  rw [List.append_assoc, front, back]
  exact and_iff_right (.inr (begins_append repair rest))

theorem congr (leads : mending.Leads first sound) (same : sound ↔ sound') :
    mending.Leads first sound' := by
  intro rest
  rw [leads, same]

theorem closes (leads : mending.Leads first sound) (begins : ¬ mending.Begins first) :
    mending.Closes first sound where
  begins := begins
  mended := by
    intro rest restBegins
    rw [leads, or_iff_left restBegins]

end Leads

namespace Opens

/-- Behind an event that is neither. -/
theorem cons {event : ε} (noDamage : ¬ mending.damages event) (noRepair : ¬ mending.repairs event)
    (leads : mending.Leads first sound) : mending.Opens (event :: first) sound where
  begins := fun _ begins => noRepair (begins_cons_iff.mp begins)
  leads := (Leads.single (iff_of_false noDamage (not_not_intro trivial))).append leads

theorem congr (opens : mending.Opens first sound) (same : sound ↔ sound') :
    mending.Opens first sound' :=
  ⟨opens.begins, opens.leads.congr same⟩

theorem closes (opens : mending.Opens first sound) : mending.Closes first sound :=
  opens.leads.closes (List.append_nil first ▸ opens.begins [])

theorem append (opens : mending.Opens first True) (back : mending.Leads second sound) :
    mending.Opens (first ++ second) sound where
  begins := by
    intro rest
    rw [List.append_assoc]
    exact opens.begins (second ++ rest)
  leads := opens.leads.append back

theorem append_repair (opens : mending.Opens first sound) (back : mending.Leads second sound')
    (repair : mending.Begins second) : mending.Opens (first ++ second) sound' where
  begins := by
    intro rest
    rw [List.append_assoc]
    exact opens.begins (second ++ rest)
  leads := opens.leads.append_repair back repair

/-- Behind a part that needs no repair. -/
theorem after (front : mending.Closes first True) (opens : mending.Opens second sound) :
    mending.Opens (first ++ second) sound where
  begins := by
    intro rest
    rw [List.append_assoc]
    exact not_begins_append front.begins (opens.begins rest)
  leads := by
    intro rest
    rw [List.append_assoc, front.mended _ (opens.begins rest), opens.leads rest, true_and]

end Opens

namespace Closes

theorem nil : mending.Closes [] True :=
  Leads.nil.closes not_begins_nil

theorem append (front : mending.Closes first sound) (back : mending.Closes second sound') :
    mending.Closes (first ++ second) (sound ∧ sound') where
  begins := not_begins_append front.begins back.begins
  mended := by
    intro rest restBegins
    rw [List.append_assoc, front.mended _ (not_begins_append back.begins restBegins),
      back.mended rest restBegins, and_assoc]

theorem congr (closes : mending.Closes first sound) (same : sound ↔ sound') :
    mending.Closes first sound' where
  begins := closes.begins
  mended := by
    intro rest restBegins
    rw [closes.mended rest restBegins, same]

/-- A whole trace is mended exactly when it is sound. -/
theorem mended_iff (closes : mending.Closes first sound) : mending.Mended first ↔ sound := by
  have whole := closes.mended [] not_begins_nil
  rw [List.append_nil] at whole
  exact whole.trans (and_iff_left trivial)

end Closes

end Mending

end MCRedis.Transition
