import Mathlib.Data.List.Induction

/-!
# Labelled runs

A run is a list of steps with the states around them, each of which starts in
the state where the one before it ended.  The induction over a run is made here
once: an invariant that every step keeps holds in every state the run visits.
-/

namespace MCRedis.Transition

universe u v

/-- One step together with the states around it. -/
structure Visit (σ : Type u) (ι : Type v) where
  before : σ
  label : ι
  after : σ

variable {σ : Type u} {ι : Type v}

/-- `Run Step start visits last`: consecutive steps of a relation. -/
inductive Run (Step : σ → ι → σ → Prop) : σ → List (Visit σ ι) → σ → Prop
  | nil (state : σ) : Run Step state [] state
  | cons {before after last : σ} {label : ι} {visits : List (Visit σ ι)} :
      Step before label after → Run Step after visits last →
      Run Step before (⟨before, label, after⟩ :: visits) last

namespace Run

variable {Step : σ → ι → σ → Prop} {start middle last : σ}
  {visits more : List (Visit σ ι)}

theorem append (first : Run Step start visits middle) (second : Run Step middle more last) :
    Run Step start (visits ++ more) last := by
  induction first with
  | nil state => exact second
  | cons step rest ih => exact .cons step (ih second)

theorem single {label : ι} (step : Step start label last) :
    Run Step start [⟨start, label, last⟩] last :=
  .cons step (.nil last)

/-- A run is cut at any of its steps. -/
theorem split {visit : Visit σ ι} (run : Run Step start (visits ++ visit :: more) last) :
    Run Step start visits visit.before ∧ Step visit.before visit.label visit.after ∧
      Run Step visit.after more last := by
  induction visits generalizing start with
  | nil =>
      rcases run with _ | ⟨step, rest⟩
      exact ⟨.nil _, step, rest⟩
  | cons first visits ih =>
      rcases run with _ | ⟨step, rest⟩
      obtain ⟨before, middleStep, after⟩ := ih rest
      exact ⟨.cons step before, middleStep, after⟩

/-- A run consists of steps. -/
theorem step_of_mem (run : Run Step start visits last) :
    ∀ visit ∈ visits, Step visit.before visit.label visit.after := by
  induction run with
  | nil state => simp
  | cons step rest ih => exact List.forall_mem_cons.mpr ⟨step, ih⟩

/-- Steps that are steps of another relation, under other labels. -/
theorem map {κ : Type v} {Other : σ → κ → σ → Prop} (relabel : ι → κ)
    (run : Run Step start visits last)
    (steps : ∀ before label after, Step before label after → Other before (relabel label) after) :
    ∃ others, Run Other start others last := by
  induction run with
  | nil state => exact ⟨[], .nil state⟩
  | cons step rest ih =>
      obtain ⟨others, otherRun⟩ := ih
      exact ⟨_, .cons (steps _ _ _ step) otherRun⟩

/-- An invariant that every step of the run keeps holds in the last state and
around every step. -/
theorem invariant (Inv : σ → Prop) (run : Run Step start visits last) (initial : Inv start)
    (keeps : ∀ visit ∈ visits, Step visit.before visit.label visit.after →
      Inv visit.before → Inv visit.after) :
    Inv last ∧ ∀ visit ∈ visits, Inv visit.before ∧ Inv visit.after := by
  induction run with
  | nil state => exact ⟨initial, by simp⟩
  | cons step rest ih =>
      obtain ⟨first, others⟩ := List.forall_mem_cons.mp keeps
      have next := first step initial
      obtain ⟨final, around⟩ := ih next others
      exact ⟨final, List.forall_mem_cons.mpr ⟨⟨initial, next⟩, around⟩⟩

/-- An invariant of the history and the state: it holds before anything happened
and is kept by every step of the run, so it holds of the whole run. -/
theorem history (Inv : List (Visit σ ι) → σ → Prop) (run : Run Step start visits last)
    (initial : Inv [] start)
    (keeps : ∀ earlier visit later, visits = earlier ++ visit :: later →
      Step visit.before visit.label visit.after → Inv earlier visit.before →
        Inv (earlier ++ [visit]) visit.after) : Inv visits last := by
  induction visits using List.reverseRecOn generalizing last with
  | nil =>
      cases run
      exact initial
  | append_singleton visits visit ih =>
      obtain ⟨before, step, ended⟩ := run.split
      cases ended
      apply keeps visits visit [] rfl step
      apply ih before
      rintro earlier other later rfl
      exact keeps earlier other (later ++ [visit]) (by simp)

/-- A measure that no step of the run decreases is at most what it is in the
last state. -/
theorem le_last (measure : σ → Nat) (run : Run Step start visits last)
    (grows : ∀ visit ∈ visits, measure visit.before ≤ measure visit.after) :
    ∀ visit ∈ visits, measure visit.after ≤ measure last := by
  have overall : measure start ≤ measure last ∧
      ∀ visit ∈ visits, measure visit.after ≤ measure last := by
    induction run with
    | nil state => exact ⟨Nat.le_refl _, by simp⟩
    | cons step rest ih =>
        obtain ⟨first, others⟩ := List.forall_mem_cons.mp grows
        obtain ⟨fromNext, around⟩ := ih others
        exact ⟨Nat.le_trans first fromNext, List.forall_mem_cons.mpr ⟨fromNext, around⟩⟩
  exact overall.2

/-- Related states stay related by steps of the same labels, so every run is
simulated by one with the same labels. -/
theorem simulate {τ : Type u} {Other : τ → ι → τ → Prop} (Related : σ → τ → Prop) {other : τ}
    (run : Run Step start visits last) (related : Related start other)
    (simulates : ∀ visit ∈ visits, ∀ before, Related visit.before before →
      Step visit.before visit.label visit.after →
        ∃ after, Other before visit.label after ∧ Related visit.after after) :
    ∃ others final, Run Other other others final ∧
      others.map Visit.label = visits.map Visit.label ∧ Related last final := by
  induction run generalizing other with
  | nil state => exact ⟨[], other, .nil other, rfl, related⟩
  | cons step rest ih =>
      obtain ⟨first, later⟩ := List.forall_mem_cons.mp simulates
      obtain ⟨after, otherStep, next⟩ := first other related step
      obtain ⟨others, final, otherRun, labels, ended⟩ := ih next later
      exact ⟨_, final, .cons otherStep otherRun, congrArg (_ :: ·) labels, ended⟩

end Run

end MCRedis.Transition
