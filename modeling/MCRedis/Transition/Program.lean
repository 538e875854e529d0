import Mathlib.Logic.Basic
import Mathlib.Data.List.Basic

/-!
# Programs over an interface of operations

A sequential program issues operations, continues with the answer that its
environment gives to each of them, and ends with a value or with a fault.  The
environment is not part of the program: one program is executed against every
list of answers (`Exec`), against a concrete stateful environment (`run`), or
step by step among other programs.

`Guarantees` is the rely/guarantee form of a specification: as long as every
answer is one the program may rely on, every operation it issues is one it has
to guarantee.
-/

namespace MCRedis.Transition

universe u v w x y

/-- A program that issues operations `op : Op` answered in `Ans op`. -/
inductive Program (Op : Type u) (Ans : Op → Type v) (Fault : Type w) (α : Type x) where
  | pure (value : α) : Program Op Ans Fault α
  | fail (fault : Fault) : Program Op Ans Fault α
  | request (op : Op) (next : Ans op → Program Op Ans Fault α) : Program Op Ans Fault α

/-- One operation together with the answer it received. -/
structure Event (Op : Type u) (Ans : Op → Type v) where
  op : Op
  answer : Ans op

namespace Program

variable {Op : Type u} {Ans : Op → Type v} {Fault : Type w} {α β γ : Type x}

/-- Sequential composition; a fault of the first program is the fault of the
whole. -/
def bind : Program Op Ans Fault α → (α → Program Op Ans Fault β) → Program Op Ans Fault β
  | .pure value, next => next value
  | .fail fault, _ => .fail fault
  | .request op rest, next => .request op fun answer => (rest answer).bind next

instance : Monad (Program Op Ans Fault) where
  pure := .pure
  bind := .bind

/-- Issue one operation and return its answer. -/
def perform (op : Op) : Program Op Ans Fault (Ans op) :=
  .request op .pure

@[simp]
theorem bind_pure_left (value : α) (next : α → Program Op Ans Fault β) :
    (Program.pure value : Program Op Ans Fault α).bind next = next value :=
  rfl

@[simp]
theorem fail_bind (fault : Fault) (next : α → Program Op Ans Fault β) :
    (Program.fail fault : Program Op Ans Fault α).bind next = .fail fault :=
  rfl

@[simp]
theorem request_bind (op : Op) (rest : Ans op → Program Op Ans Fault α)
    (next : α → Program Op Ans Fault β) :
    (Program.request op rest).bind next =
      .request op fun answer => (rest answer).bind next :=
  rfl

theorem bind_pure_right (program : Program Op Ans Fault α) : program.bind .pure = program := by
  induction program with
  | pure value => rfl
  | fail fault => rfl
  | request op rest ih => exact congrArg (Program.request op) (funext ih)

theorem bind_bind (program : Program Op Ans Fault α) (first : α → Program Op Ans Fault β)
    (second : β → Program Op Ans Fault γ) :
    (program.bind first).bind second = program.bind fun value => (first value).bind second := by
  induction program with
  | pure value => rfl
  | fail fault => rfl
  | request op rest ih => exact congrArg (Program.request op) (funext ih)

@[simp]
theorem bind_eq_bind (program : Program Op Ans Fault α) (next : α → Program Op Ans Fault β) :
    program >>= next = program.bind next :=
  rfl

@[simp]
theorem pure_eq_pure (value : α) :
    (Pure.pure value : Program Op Ans Fault α) = .pure value :=
  rfl

end Program

namespace Program

variable {Op : Type u} {Ans : Op → Type v} {Op' : Type u} {Ans' : Op' → Type v} {Fault : Type w}
  {α β : Type x}

/-- Carry a program over to a larger interface: every operation is embedded,
and the answer to it is read back. -/
def translate (embed : Op → Op') (readBack : (op : Op) → Ans' (embed op) → Ans op) :
    Program Op Ans Fault α → Program Op' Ans' Fault α
  | .pure value => .pure value
  | .fail fault => .fail fault
  | .request op next =>
      .request (embed op) fun answer => (next (readBack op answer)).translate embed readBack

@[simp]
theorem translate_pure (embed : Op → Op') (readBack : (op : Op) → Ans' (embed op) → Ans op)
    (value : α) :
    (Program.pure value : Program Op Ans Fault α).translate embed readBack = .pure value :=
  rfl

@[simp]
theorem translate_fail (embed : Op → Op') (readBack : (op : Op) → Ans' (embed op) → Ans op)
    (fault : Fault) :
    (Program.fail fault : Program Op Ans Fault α).translate embed readBack = .fail fault :=
  rfl

@[simp]
theorem translate_request (embed : Op → Op') (readBack : (op : Op) → Ans' (embed op) → Ans op)
    (op : Op) (next : Ans op → Program Op Ans Fault α) :
    (Program.request op next).translate embed readBack =
      .request (embed op) fun answer => (next (readBack op answer)).translate embed readBack :=
  rfl

/-- A checked computation is a program that issues no operation. -/
def ofExcept : Except Fault α → Program Op Ans Fault α
  | .ok value => .pure value
  | .error fault => .fail fault

@[simp]
theorem ofExcept_ok (value : α) :
    (ofExcept (.ok value) : Program Op Ans Fault α) = .pure value :=
  rfl

@[simp]
theorem ofExcept_error (fault : Fault) :
    (ofExcept (.error fault) : Program Op Ans Fault α) = .fail fault :=
  rfl

end Program

/-- A composition of checked computations that succeeds consists of two that
do. -/
theorem except_bind_ok {Fault : Type w} {α β : Type x} {first : Except Fault α}
    {next : α → Except Fault β} {result : β} (returned : first >>= next = .ok result) :
    ∃ value, first = .ok value ∧ next value = .ok result := by
  cases first with
  | error fault => contradiction
  | ok value => exact ⟨value, rfl, returned⟩

theorem except_bind_succeeds_iff {Fault : Type w} {α β : Type x} {first : Except Fault α}
    {next : α → Except Fault β} :
    (∃ result, first >>= next = .ok result) ↔
      ∃ value, first = .ok value ∧ ∃ result, next value = .ok result := by
  constructor
  · rintro ⟨result, returned⟩
    obtain ⟨value, firstEq, nextEq⟩ := except_bind_ok returned
    exact ⟨value, firstEq, result, nextEq⟩
  · rintro ⟨value, rfl, result, returned⟩
    exact ⟨result, returned⟩

/-- What a checked map over a list returns is made of the list's elements. -/
theorem except_mapM_ok {Fault : Type w} {α β : Type x} {f : α → Except Fault β} {values : List α}
    {results : List β} (returned : values.mapM f = .ok results) :
    ∀ result ∈ results, ∃ value ∈ values, f value = .ok result := by
  induction values generalizing results with
  | nil =>
      cases returned
      exact nofun
  | cons value values ih =>
      rw [List.mapM_cons] at returned
      obtain ⟨first, firstEq, returned⟩ := except_bind_ok returned
      obtain ⟨rest, restEq, returned⟩ := except_bind_ok returned
      cases returned
      intro result mem
      rcases List.mem_cons.mp mem with rfl | mem
      · exact ⟨value, List.mem_cons_self, firstEq⟩
      · obtain ⟨other, otherMem, otherEq⟩ := ih restEq result mem
        exact ⟨other, List.mem_cons_of_mem value otherMem, otherEq⟩

theorem except_mapM_length {Fault : Type w} {α β : Type x} {f : α → Except Fault β}
    {values : List α} {results : List β} (returned : values.mapM f = .ok results) :
    results.length = values.length := by
  induction values generalizing results with
  | nil =>
      cases returned
      rfl
  | cons value values ih =>
      rw [List.mapM_cons] at returned
      obtain ⟨first, _, returned⟩ := except_bind_ok returned
      obtain ⟨rest, restEq, returned⟩ := except_bind_ok returned
      cases returned
      exact congrArg (· + 1) (ih restEq)

theorem except_mapM_mem {Fault : Type w} {α β : Type x} {f : α → Except Fault β} {values : List α}
    {results : List β} (returned : values.mapM f = .ok results) {value : α} (mem : value ∈ values)
    {result : β} (valueEq : f value = .ok result) : result ∈ results := by
  induction values generalizing results with
  | nil => exact absurd mem List.not_mem_nil
  | cons other values ih =>
      rw [List.mapM_cons] at returned
      obtain ⟨first, firstEq, returned⟩ := except_bind_ok returned
      obtain ⟨rest, restEq, returned⟩ := except_bind_ok returned
      cases returned
      rcases List.mem_cons.mp mem with rfl | mem
      · cases firstEq.symm.trans valueEq
        exact List.mem_cons_self
      · exact List.mem_cons_of_mem first (ih restEq mem)

/-- A checked map over a list succeeds when it does for every element. -/
theorem except_mapM_succeeds_iff {Fault : Type w} {α β : Type x} {f : α → Except Fault β}
    {values : List α} :
    (∃ results, values.mapM f = .ok results) ↔
      ∀ value ∈ values, ∃ result, f value = .ok result := by
  induction values with
  | nil => exact iff_of_true ⟨[], rfl⟩ (List.forall_mem_nil _)
  | cons value values ih =>
      rw [List.mapM_cons, List.forall_mem_cons, ← ih]
      constructor
      · rintro ⟨results, returned⟩
        obtain ⟨first, firstEq, returned⟩ := except_bind_ok returned
        obtain ⟨rest, restEq, _⟩ := except_bind_ok returned
        exact ⟨⟨first, firstEq⟩, ⟨rest, restEq⟩⟩
      · rintro ⟨⟨first, firstEq⟩, ⟨rest, restEq⟩⟩
        rw [firstEq, restEq]
        exact ⟨first :: rest, rfl⟩

/-! ## Executions -/

section Exec

variable {Op : Type u} {Ans : Op → Type v} {Fault : Type w} {α β : Type x}

/-- `Exec program trace result`: answered as in `trace`, the program issues
exactly the operations of `trace` and ends with `result`. -/
inductive Exec : Program Op Ans Fault α → List (Event Op Ans) → Except Fault α → Prop
  | pure (value : α) : Exec (.pure value) [] (.ok value)
  | fail (fault : Fault) : Exec (.fail fault) [] (.error fault)
  | request (op : Op) {next : Ans op → Program Op Ans Fault α} (answer : Ans op)
      {trace : List (Event Op Ans)} {result : Except Fault α} :
      Exec (next answer) trace result →
      Exec (.request op next) (⟨op, answer⟩ :: trace) result

namespace Exec

@[simp]
theorem pure_iff {value : α} {trace : List (Event Op Ans)} {result : Except Fault α} :
    Exec (.pure value) trace result ↔ trace = [] ∧ result = .ok value := by
  constructor
  · rintro ⟨⟩
    exact ⟨rfl, rfl⟩
  · rintro ⟨rfl, rfl⟩
    exact .pure value

@[simp]
theorem fail_iff {fault : Fault} {trace : List (Event Op Ans)} {result : Except Fault α} :
    Exec (.fail fault : Program Op Ans Fault α) trace result ↔
      trace = [] ∧ result = .error fault := by
  constructor
  · rintro ⟨⟩
    exact ⟨rfl, rfl⟩
  · rintro ⟨rfl, rfl⟩
    exact .fail fault

@[simp]
theorem request_iff {op : Op} {next : Ans op → Program Op Ans Fault α}
    {trace : List (Event Op Ans)} {result : Except Fault α} :
    Exec (.request op next) trace result ↔
      ∃ answer rest, trace = ⟨op, answer⟩ :: rest ∧ Exec (next answer) rest result := by
  constructor
  · rintro (_ | _ | ⟨_, answer, rest⟩)
    exact ⟨answer, _, rfl, rest⟩
  · rintro ⟨answer, rest, rfl, exec⟩
    exact .request op answer exec

/-- An execution of a composition is a fault of the first part, or an execution
of the first part followed by one of the second. -/
theorem bind_iff {program : Program Op Ans Fault α} {next : α → Program Op Ans Fault β}
    {trace : List (Event Op Ans)} {result : Except Fault β} :
    Exec (program.bind next) trace result ↔
      (∃ fault, Exec program trace (.error fault) ∧ result = .error fault) ∨
        ∃ value before after, trace = before ++ after ∧
          Exec program before (.ok value) ∧ Exec (next value) after result := by
  induction program generalizing trace with
  | pure value =>
      simp
  | fail fault =>
      simp
  | request op rest ih =>
      constructor
      · rw [Program.request_bind, request_iff]
        rintro ⟨answer, tail, rfl, exec⟩
        rcases (ih answer).mp exec with
          ⟨fault, failed, rfl⟩ | ⟨value, before, after, rfl, first, second⟩
        · exact .inl ⟨fault, .request op answer failed, rfl⟩
        · exact .inr ⟨value, ⟨op, answer⟩ :: before, after, rfl, .request op answer first, second⟩
      · rw [Program.request_bind, request_iff]
        rintro (⟨fault, failed, rfl⟩ | ⟨value, before, after, rfl, first, second⟩)
        · obtain ⟨answer, tail, rfl, restFailed⟩ := request_iff.mp failed
          exact ⟨answer, tail, rfl, (ih answer).mpr (.inl ⟨fault, restFailed, rfl⟩)⟩
        · obtain ⟨answer, tail, rfl, restFirst⟩ := request_iff.mp first
          exact ⟨answer, tail ++ after, rfl,
            (ih answer).mpr (.inr ⟨value, tail, after, rfl, restFirst, second⟩)⟩

/-- Applying a function to the value of a program changes its result only. -/
theorem bind_pure_iff {program : Program Op Ans Fault α} {f : α → β} {trace : List (Event Op Ans)}
    {result : Except Fault β} :
    Exec (program.bind fun value => .pure (f value)) trace result ↔
      ∃ first, Exec program trace first ∧ result = first.map f := by
  rw [bind_iff]
  constructor
  · rintro (⟨fault, failed, rfl⟩ | ⟨value, before, after, rfl, returned, mapped⟩)
    · exact ⟨.error fault, failed, rfl⟩
    · obtain ⟨rfl, rfl⟩ := pure_iff.mp mapped
      rw [List.append_nil]
      exact ⟨.ok value, returned, rfl⟩
  · rintro ⟨fault | value, exec, rfl⟩
    · exact .inl ⟨fault, exec, rfl⟩
    · exact .inr ⟨value, trace, [], (List.append_nil trace).symm, exec, .pure _⟩

/-- The answers determine the result. -/
theorem unique {program : Program Op Ans Fault α} {trace : List (Event Op Ans)}
    {first second : Except Fault α} (firstExec : Exec program trace first)
    (secondExec : Exec program trace second) : first = second := by
  induction firstExec with
  | pure value => exact (pure_iff.mp secondExec).2.symm
  | fail fault => exact (fail_iff.mp secondExec).2.symm
  | request op answer _ ih =>
      obtain ⟨other, rest, traceEq, exec⟩ := request_iff.mp secondExec
      cases traceEq
      exact ih exec

end Exec

end Exec

/-! ## Lawful answers -/

section Returns

variable {Op : Type u} {Ans : Op → Type v} {Fault : Type w} {α β : Type x}
  {law : Event Op Ans → Prop}

/-- When all answers obey the law, the program returns only values that meet the
postcondition. -/
inductive Returns (law : Event Op Ans → Prop) (post : α → Prop) : Program Op Ans Fault α → Prop
  | pure {value : α} : post value → Returns law post (.pure value)
  | fail (fault : Fault) : Returns law post (.fail fault)
  | request {op : Op} {next : Ans op → Program Op Ans Fault α} :
      (∀ answer, law ⟨op, answer⟩ → Returns law post (next answer)) →
      Returns law post (.request op next)

namespace Returns

theorem any (program : Program Op Ans Fault α) : Returns law (fun _ => True) program := by
  induction program with
  | pure value => exact .pure trivial
  | fail fault => exact .fail fault
  | request op next ih => exact .request fun answer _ => ih answer

theorem ofExcept {post : α → Prop} {checked : Except Fault α}
    (holds : ∀ value, checked = .ok value → post value) :
    Returns law post (Program.ofExcept checked : Program Op Ans Fault α) := by
  cases checked with
  | ok value => exact .pure (holds value rfl)
  | error fault => exact .fail fault

theorem bind {first : α → Prop} {post : β → Prop} {program : Program Op Ans Fault α}
    {next : α → Program Op Ans Fault β} (before : Returns law first program)
    (after : ∀ value, first value → Returns law post (next value)) :
    Returns law post (program.bind next) := by
  induction before with
  | pure holds => exact after _ holds
  | fail fault => exact .fail fault
  | request _ ih => exact .request ih

/-- Composition behind a program of which nothing is known. -/
theorem bind_any {post : β → Prop} {program : Program Op Ans Fault α}
    {next : α → Program Op Ans Fault β} (after : ∀ value, Returns law post (next value)) :
    Returns law post (program.bind next) :=
  bind (any program) fun value _ => after value

theorem mono {post weaker : α → Prop} {program : Program Op Ans Fault α}
    (returns : Returns law post program) (implies : ∀ value, post value → weaker value) :
    Returns law weaker program := by
  induction returns with
  | pure holds => exact .pure (implies _ holds)
  | fail fault => exact .fail fault
  | request _ ih => exact .request ih

theorem exec {post : α → Prop} {program : Program Op Ans Fault α} {trace : List (Event Op Ans)}
    {value : α} (returns : Returns law post program) (exec : Exec program trace (.ok value))
    (lawful : ∀ event ∈ trace, law event) : post value := by
  induction returns generalizing trace with
  | pure holds =>
      cases (Exec.pure_iff.mp exec).2
      exact holds
  | fail fault => cases (Exec.fail_iff.mp exec).2
  | request _ ih =>
      obtain ⟨answer, tail, rfl, restExec⟩ := Exec.request_iff.mp exec
      obtain ⟨first, rest⟩ := List.forall_mem_cons.mp lawful
      exact ih answer first restExec rest

end Returns

end Returns

/-! ## Programs in step -/

section InStep

variable {Op : Type u} {Ans : Op → Type v} {Op' : Type u} {Ans' : Op' → Type v} {Fault : Type w}
  {α β γ δ : Type x} {same : Event Op Ans → Event Op' Ans' → Prop}

/-- Two programs in step: they fail alike or return related values, and otherwise
issue operations that have the same events, and go on in step after each of
them. -/
def InStep (same : Event Op Ans → Event Op' Ans' → Prop) (post : α → β → Prop) :
    Program Op Ans Fault α → Program Op' Ans' Fault β → Prop
  | .pure first, .pure second => post first second
  | .fail first, .fail second => first = second
  | .request op next, .request op' next' =>
      (∀ answer event, same ⟨op, answer⟩ event → event.op = op') ∧
        (∀ event answer, same event ⟨op', answer⟩ → event.op = op) ∧
          ∀ answer answer', same ⟨op, answer⟩ ⟨op', answer'⟩ →
            InStep same post (next answer) (next' answer')
  | _, _ => False

/-- Both results are values that are related, or both are the same fault. -/
inductive EndsAlike (post : α → β → Prop) : Except Fault α → Except Fault β → Prop
  | returned {value : α} {other : β} : post value other → EndsAlike post (.ok value) (.ok other)
  | failed (fault : Fault) : EndsAlike post (.error fault) (.error fault)

namespace InStep

@[simp]
theorem pure_iff {post : α → β → Prop} {first : α} {second : β} :
    InStep same post (Program.pure first : Program Op Ans Fault α) (.pure second) ↔
      post first second :=
  Iff.rfl

variable {post : α → β → Prop} {program : Program Op Ans Fault α}
  {other : Program Op' Ans' Fault β}

/-- Every program is in step with itself. -/
theorem refl (program : Program Op Ans Fault α) : InStep Eq Eq program program := by
  induction program with
  | pure value => rfl
  | fail fault => rfl
  | request op next ih =>
      refine ⟨?_, ?_, ?_⟩
      · rintro answer _ rfl
        rfl
      · rintro _ answer rfl
        rfl
      · rintro answer _ ⟨⟩
        exact ih answer

theorem symm (inStep : InStep same post program other) :
    InStep (fun event other => same other event) (fun value other => post other value)
      other program := by
  induction program generalizing other with
  | pure value =>
      cases other with
      | pure second => exact inStep
      | _ => contradiction
  | fail fault =>
      cases other with
      | fail second => exact inStep.symm
      | _ => contradiction
  | request op next ih =>
      cases other with
      | request op' next' =>
          obtain ⟨right, left, rest⟩ := inStep
          exact ⟨fun answer event => left event answer, fun event answer => right answer event,
            fun answer' answer related => ih answer (rest answer answer' related)⟩
      | _ => contradiction

theorem bind {after : γ → δ → Prop} {next : α → Program Op Ans Fault γ}
    {next' : β → Program Op' Ans' Fault δ} (inStep : InStep same post program other)
    (rest : ∀ first second, post first second → InStep same after (next first) (next' second)) :
    InStep same after (program.bind next) (other.bind next') := by
  induction program generalizing other with
  | pure value =>
      cases other with
      | pure second => exact rest value second inStep
      | _ => contradiction
  | fail fault =>
      cases other with
      | fail second => exact inStep
      | _ => contradiction
  | request op first ih =>
      cases other with
      | request op' second =>
          obtain ⟨right, left, later⟩ := inStep
          exact ⟨right, left, fun answer answer' related =>
            ih answer (later answer answer' related)⟩
      | _ => contradiction

/-- Programs stay in step when fewer events count as the same. -/
theorem weaken {fewer : Event Op Ans → Event Op' Ans' → Prop}
    (implies : ∀ event other, fewer event other → same event other)
    (inStep : InStep same post program other) : InStep fewer post program other := by
  induction program generalizing other with
  | pure value =>
      cases other with
      | pure second => exact inStep
      | _ => contradiction
  | fail fault =>
      cases other with
      | fail second => exact inStep
      | _ => contradiction
  | request op next ih =>
      cases other with
      | request op' next' =>
          obtain ⟨right, left, later⟩ := inStep
          exact ⟨fun answer event related => right answer event (implies _ _ related),
            fun event answer related => left event answer (implies _ _ related),
            fun answer answer' related => ih answer (later answer answer' (implies _ _ related))⟩
      | _ => contradiction

/-- On the same events, programs in step end alike. -/
theorem exec_result {trace : List (Event Op Ans)} {trace' : List (Event Op' Ans')}
    {result : Except Fault α} (inStep : InStep same post program other)
    (related : List.Forall₂ same trace trace') (exec : Exec program trace result) :
    ∃ result', Exec other trace' result' ∧ EndsAlike post result result' := by
  induction program generalizing other trace trace' with
  | pure first =>
      obtain ⟨rfl, rfl⟩ := Exec.pure_iff.mp exec
      cases related
      cases other with
      | pure second => exact ⟨_, .pure second, .returned inStep⟩
      | _ => contradiction
  | fail fault =>
      obtain ⟨rfl, rfl⟩ := Exec.fail_iff.mp exec
      cases related
      cases other with
      | fail second =>
          cases inStep
          exact ⟨_, .fail fault, .failed fault⟩
      | _ => contradiction
  | request op next ih =>
      obtain ⟨answer, rest, rfl, restExec⟩ := Exec.request_iff.mp exec
      cases other with
      | request op' next' =>
          obtain ⟨right, _, later⟩ := inStep
          cases related with
          | @cons _ event _ _ first others =>
              obtain ⟨_, answer'⟩ := event
              cases right answer _ first
              obtain ⟨result', execRest, alike⟩ := ih answer (later answer answer' first) others
                restExec
              exact ⟨result', .request _ answer' execRest, alike⟩
      | _ => contradiction

/-- On the same events, programs in step return related values. -/
theorem exec {trace : List (Event Op Ans)} {trace' : List (Event Op' Ans')} {value : α}
    (inStep : InStep same post program other) (related : List.Forall₂ same trace trace')
    (exec : Exec program trace (.ok value)) :
    ∃ value', Exec other trace' (.ok value') ∧ post value value' := by
  obtain ⟨_, otherExec, alike⟩ := inStep.exec_result related exec
  cases alike with
  | returned holds => exact ⟨_, otherExec, holds⟩

end InStep

end InStep

/-! ## Running against a stateful environment -/

section Run

variable {Op : Type u} {Ans : Op → Type v} {Fault : Type w} {α β : Type x} {σ : Type y}

/-- An environment answers every operation from its own state. -/
abbrev Environment (Op : Type u) (Ans : Op → Type v) (σ : Type y) :=
  (op : Op) → σ → Ans op × σ

/-- What a run leaves behind: the events in order, the result, and the state
of the environment. -/
structure Outcome (Op : Type u) (Ans : Op → Type v) (Fault : Type w) (α : Type x) (σ : Type y) where
  trace : List (Event Op Ans)
  result : Except Fault α
  state : σ

/-- Run a program against an environment.  Every run ends. -/
def Program.run (environment : Environment Op Ans σ) :
    Program Op Ans Fault α → σ → Outcome Op Ans Fault α σ
  | .pure value, state => ⟨[], .ok value, state⟩
  | .fail fault, state => ⟨[], .error fault, state⟩
  | .request op next, state =>
      let answered := environment op state
      let rest := (next answered.1).run environment answered.2
      ⟨⟨op, answered.1⟩ :: rest.trace, rest.result, rest.state⟩

/-- A run is an execution answered by the environment. -/
theorem Program.exec_run (environment : Environment Op Ans σ) (program : Program Op Ans Fault α)
    (state : σ) :
    Exec program (program.run environment state).trace (program.run environment state).result := by
  induction program generalizing state with
  | pure value => exact .pure value
  | fail fault => exact .fail fault
  | request op next ih => exact .request op _ (ih _ _)

/-- When the first part of a composition returns, its run is followed by one of
the second part. -/
theorem Program.run_bind_ok {environment : Environment Op Ans σ} {program : Program Op Ans Fault α}
    {state : σ} {value : α} (next : α → Program Op Ans Fault β)
    (returned : (program.run environment state).result = .ok value) :
    (program.bind next).run environment state =
      let first := program.run environment state
      let second := (next value).run environment first.state
      ⟨first.trace ++ second.trace, second.result, second.state⟩ := by
  induction program generalizing state with
  | pure value =>
      cases returned
      rfl
  | fail fault => contradiction
  | request op rest ih =>
      rw [Program.request_bind, Program.run, ih _ returned]
      rfl

/-- Applying a function to the value of a program changes the result of its run
only. -/
theorem Program.run_bind_pure (environment : Environment Op Ans σ)
    (program : Program Op Ans Fault α) (f : α → β) (state : σ) :
    (program.bind fun value => .pure (f value)).run environment state =
      let first := program.run environment state
      ⟨first.trace, first.result.map f, first.state⟩ := by
  induction program generalizing state with
  | pure value => rfl
  | fail fault => rfl
  | request op next ih =>
      rw [Program.request_bind, Program.run, ih]
      rfl

/-- Programs in step on equal events run alike in every environment. -/
theorem InStep.run_eq {first second : Program Op Ans Fault α} (inStep : InStep Eq Eq first second)
    (environment : Environment Op Ans σ) (state : σ) :
    first.run environment state = second.run environment state := by
  induction first generalizing second state with
  | pure value =>
      cases second with
      | pure other =>
          cases inStep
          rfl
      | _ => contradiction
  | fail fault =>
      cases second with
      | fail other =>
          cases inStep
          rfl
      | _ => contradiction
  | request op next ih =>
      cases second with
      | request op' next' =>
          obtain ⟨right, _, later⟩ := inStep
          cases right (environment op state).1 _ rfl
          rw [Program.run, Program.run, ih _ (later _ _ rfl)]
      | _ => contradiction

/-- A second program that can be executed on the events of a run issues the same
operations, so its own run in the same environment has these events. -/
theorem Program.run_eq_of_exec {environment : Environment Op Ans σ}
    {first : Program Op Ans Fault α} {second : Program Op Ans Fault β} {state : σ}
    {result : Except Fault β} (exec : Exec second (first.run environment state).trace result) :
    second.run environment state =
      ⟨(first.run environment state).trace, result, (first.run environment state).state⟩ := by
  induction first generalizing second state with
  | pure value =>
      cases second with
      | pure other =>
          obtain ⟨_, rfl⟩ := Exec.pure_iff.mp exec
          rfl
      | fail fault =>
          obtain ⟨_, rfl⟩ := Exec.fail_iff.mp exec
          rfl
      | request op next =>
          obtain ⟨_, _, traceEq, _⟩ := Exec.request_iff.mp exec
          contradiction
  | fail fault =>
      cases second with
      | pure other =>
          obtain ⟨_, rfl⟩ := Exec.pure_iff.mp exec
          rfl
      | fail fault =>
          obtain ⟨_, rfl⟩ := Exec.fail_iff.mp exec
          rfl
      | request op next =>
          obtain ⟨_, _, traceEq, _⟩ := Exec.request_iff.mp exec
          contradiction
  | request op rest ih =>
      cases second with
      | pure other =>
          obtain ⟨traceEq, _⟩ := Exec.pure_iff.mp exec
          contradiction
      | fail fault =>
          obtain ⟨traceEq, _⟩ := Exec.fail_iff.mp exec
          contradiction
      | request op next =>
          obtain ⟨answer, tail, traceEq, restExec⟩ := Exec.request_iff.mp exec
          cases traceEq
          rw [Program.run, ih _ restExec]
          rfl

/-- A law that every answer of the environment meets holds of every event of a
run. -/
theorem Program.run_trace_forall {environment : Environment Op Ans σ} {law : Event Op Ans → Prop}
    (lawful : ∀ op state, law ⟨op, (environment op state).1⟩)
    (program : Program Op Ans Fault α) (state : σ) :
    ∀ event ∈ (program.run environment state).trace, law event := by
  induction program generalizing state with
  | pure value => simp [Program.run]
  | fail fault => simp [Program.run]
  | request op next ih =>
      intro event mem
      rcases List.mem_cons.mp mem with rfl | mem
      · exact lawful op state
      · exact ih _ _ event mem

end Run

/-! ## Rely and guarantee -/

section Guarantees

variable {Op : Type u} {Ans : Op → Type v} {Fault : Type w} {α β : Type x}

/-- As long as every answer is relied on, every operation issued is guaranteed
and a returned value meets the postcondition.  A fault ends the obligation. -/
def Guarantees (rely : (op : Op) → Ans op → Prop) (guarantee : Op → Prop) (post : α → Prop) :
    Program Op Ans Fault α → Prop
  | .pure value => post value
  | .fail _ => True
  | .request op next =>
      guarantee op ∧ ∀ answer, rely op answer → Guarantees rely guarantee post (next answer)

namespace Guarantees

variable {rely : (op : Op) → Ans op → Prop} {guarantee : Op → Prop}

@[simp]
theorem pure_iff {post : α → Prop} {value : α} :
    Guarantees rely guarantee post (.pure value : Program Op Ans Fault α) ↔ post value :=
  Iff.rfl

@[simp]
theorem fail_iff {post : α → Prop} {fault : Fault} :
    Guarantees rely guarantee post (.fail fault : Program Op Ans Fault α) ↔ True :=
  Iff.rfl

@[simp]
theorem request_iff {post : α → Prop} {op : Op} {next : Ans op → Program Op Ans Fault α} :
    Guarantees rely guarantee post (.request op next) ↔
      guarantee op ∧ ∀ answer, rely op answer → Guarantees rely guarantee post (next answer) :=
  Iff.rfl

theorem bind {first : α → Prop} {post : β → Prop} {program : Program Op Ans Fault α}
    {next : α → Program Op Ans Fault β} (before : Guarantees rely guarantee first program)
    (after : ∀ value, first value → Guarantees rely guarantee post (next value)) :
    Guarantees rely guarantee post (program.bind next) := by
  induction program with
  | pure value => exact after value before
  | fail fault => trivial
  | request op rest ih =>
      exact ⟨before.1, fun answer relied => ih answer (before.2 answer relied)⟩

/-- Executed against answers that are relied on, the program issues guaranteed
operations, and its value meets the postcondition. -/
theorem exec {post : α → Prop} {program : Program Op Ans Fault α} {trace : List (Event Op Ans)}
    {result : Except Fault α} (holds : Guarantees rely guarantee post program)
    (exec : Exec program trace result) (relied : ∀ event ∈ trace, rely event.op event.answer) :
    (∀ event ∈ trace, guarantee event.op) ∧ ∀ value, result = .ok value → post value := by
  induction exec with
  | pure value =>
      refine ⟨by simp, ?_⟩
      rintro _ ⟨⟩
      exact holds
  | fail fault => exact ⟨by simp, nofun⟩
  | request op answer _ ih =>
      obtain ⟨answerRelied, restRelied⟩ := List.forall_mem_cons.mp relied
      obtain ⟨issued, returned⟩ := ih (holds.2 answer answerRelied) restRelied
      exact ⟨List.forall_mem_cons.mpr ⟨holds.1, issued⟩, returned⟩

end Guarantees

end Guarantees

end MCRedis.Transition
