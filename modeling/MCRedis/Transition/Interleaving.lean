import MCRedis.Transition.Program
import MCRedis.Transition.Run

/-!
# Interleaved programs

Any number of threads execute programs over one shared state.  A step of the
system starts a thread, lets a thread issue its next operation and receive the
answer that the shared state serves, or changes the shared state from outside.

The contract of such a system is stated for one thread at a time: what its
program guarantees as long as it can rely on the answers.  The induction over
the runs of the whole system is made here once.
-/

namespace MCRedis.Transition

universe u v w

variable {Op : Type u} {Ans : Op → Type v} {Fault : Type w} {σ κ ι : Type}

/-- A thread: its kind, and what it has still to execute. -/
structure Thread (Op : Type u) (Ans : Op → Type v) (Fault : Type w) (κ : Type) where
  kind : κ
  program : Program Op Ans Fault Unit

/-- The shared state, and all threads that were ever started. -/
structure System (Op : Type u) (Ans : Op → Type v) (Fault : Type w) (σ κ : Type) where
  shared : σ
  threads : List (Thread Op Ans Fault κ)

inductive SystemLabel (Op : Type u) (Ans : Op → Type v) (κ ι : Type)
  | spawn (kind : κ)
  | issue (thread : Nat) (kind : κ) (event : Event Op Ans)
  | outside (label : ι)

/-- Which programs a thread of each kind may be started with, how the shared
state serves an operation, and how it changes from outside. -/
structure SystemRules (Op : Type u) (Ans : Op → Type v) (Fault : Type w) (σ κ ι : Type) where
  Launch : κ → Program Op Ans Fault Unit → Prop
  Serve : σ → (op : Op) → Ans op → σ → Prop
  Outside : σ → ι → σ → Prop

inductive SystemStep (rules : SystemRules Op Ans Fault σ κ ι) :
    System Op Ans Fault σ κ → SystemLabel Op Ans κ ι → System Op Ans Fault σ κ → Prop
  | spawn {s : System Op Ans Fault σ κ} {kind : κ} {program : Program Op Ans Fault Unit} :
      rules.Launch kind program →
      SystemStep rules s (.spawn kind) { s with threads := s.threads ++ [⟨kind, program⟩] }
  | issue {s : System Op Ans Fault σ κ} {thread : Nat} {kind : κ} {op : Op}
      {next : Ans op → Program Op Ans Fault Unit} {answer : Ans op} {shared : σ} :
      s.threads[thread]? = some ⟨kind, .request op next⟩ →
      rules.Serve s.shared op answer shared →
      SystemStep rules s (.issue thread kind ⟨op, answer⟩)
        ⟨shared, s.threads.set thread ⟨kind, next answer⟩⟩
  | outside {s : System Op Ans Fault σ κ} {label : ι} {shared : σ} :
      rules.Outside s.shared label shared →
      SystemStep rules s (.outside label) { s with shared := shared }

/-- An invariant of the shared state that is kept from outside and by every
guaranteed operation, and that every program is launched to guarantee. -/
structure Contract (rules : SystemRules Op Ans Fault σ κ ι) (Inv : σ → Prop)
    (rely : κ → (op : Op) → Ans op → Prop) (guarantee : Op → Prop) : Prop where
  launch : ∀ kind program, rules.Launch kind program →
    Guarantees (rely kind) guarantee (fun _ => True) program
  serve : ∀ s op answer t, Inv s → guarantee op → rules.Serve s op answer t → Inv t
  outside : ∀ s label t, Inv s → rules.Outside s label t → Inv t

section Contract

variable {rules : SystemRules Op Ans Fault σ κ ι} {Inv : σ → Prop}
  {rely : κ → (op : Op) → Ans op → Prop} {guarantee : Op → Prop}

/-- The invariant of the system: that of the shared state, and that every thread
still keeps its guarantee. -/
structure SystemInv (Inv : σ → Prop) (rely : κ → (op : Op) → Ans op → Prop)
    (guarantee : Op → Prop) (s : System Op Ans Fault σ κ) : Prop where
  shared : Inv s.shared
  threads : ∀ thread ∈ s.threads,
    Guarantees (rely thread.kind) guarantee (fun _ => True) thread.program

/-- The answer of a step is one that its thread may rely on. -/
def Relied (rely : κ → (op : Op) → Ans op → Prop)
    (visit : Visit (System Op Ans Fault σ κ) (SystemLabel Op Ans κ ι)) : Prop :=
  ∀ thread kind event, visit.label = .issue thread kind event → rely kind event.op event.answer

/-- The operation of a step is one that its thread guarantees. -/
theorem SystemInv.guaranteed {s t : System Op Ans Fault σ κ} {thread : Nat} {kind : κ}
    {event : Event Op Ans} (inv : SystemInv Inv rely guarantee s)
    (step : SystemStep rules s (.issue thread kind event) t) : guarantee event.op := by
  cases step with
  | issue found _ => exact (inv.threads _ (List.mem_of_getElem? found)).1

theorem SystemInv.step (contract : Contract rules Inv rely guarantee)
    {visit : Visit (System Op Ans Fault σ κ) (SystemLabel Op Ans κ ι)}
    (inv : SystemInv Inv rely guarantee visit.before)
    (step : SystemStep rules visit.before visit.label visit.after) (relied : Relied rely visit) :
    SystemInv Inv rely guarantee visit.after := by
  rcases visit with ⟨s, label, t⟩
  change SystemStep rules s label t at step
  change SystemInv Inv rely guarantee s at inv
  cases step with
  | @spawn kind program launched =>
      refine ⟨inv.shared, ?_⟩
      intro thread mem
      rcases List.mem_append.mp mem with old | new
      · exact inv.threads thread old
      · rw [List.mem_singleton.mp new]
        exact contract.launch kind program launched
  | @issue thread kind op next answer shared found served =>
      obtain ⟨issued, rest⟩ := inv.threads _ (List.mem_of_getElem? found)
      refine ⟨contract.serve _ op answer shared inv.shared issued served, ?_⟩
      intro other mem
      rcases List.mem_or_eq_of_mem_set mem with old | rfl
      · exact inv.threads other old
      · exact rest answer (relied thread kind ⟨op, answer⟩ rfl)
  | @outside label shared changed =>
      exact ⟨contract.outside _ label shared inv.shared changed, inv.threads⟩

/-- Along a run whose answers can be relied on, the invariant holds around every
step, and every operation is guaranteed.  An answer may be judged under the
invariant of the state that serves it. -/
theorem Contract.run (contract : Contract rules Inv rely guarantee) {shared : σ}
    {visits : List (Visit (System Op Ans Fault σ κ) (SystemLabel Op Ans κ ι))}
    {last : System Op Ans Fault σ κ} (run : Run (SystemStep rules) ⟨shared, []⟩ visits last)
    (initial : Inv shared)
    (relied : ∀ visit ∈ visits, SystemStep rules visit.before visit.label visit.after →
      Inv visit.before.shared → Relied rely visit) :
    ∀ visit ∈ visits, Inv visit.before.shared ∧ Inv visit.after.shared ∧
      ∀ thread kind event, visit.label = .issue thread kind event → guarantee event.op := by
  have around := run.invariant (SystemInv Inv rely guarantee) ⟨initial, nofun⟩
    fun visit mem step inv => inv.step contract step (relied visit mem step inv.shared)
  intro visit mem
  obtain ⟨before, after⟩ := around.2 visit mem
  refine ⟨before.shared, after.shared, ?_⟩
  intro thread kind event labelEq
  have step := run.step_of_mem visit mem
  rw [labelEq] at step
  exact before.guaranteed step

end Contract

end MCRedis.Transition
