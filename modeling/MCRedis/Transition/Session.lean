import MCRedis.Transition.Program

/-!
# Sessions with an object

The calls that a client makes on an object, one after the other, are one
program: every call issues its operations, returns something to the client and
leaves behind the object that the next call finds.

Two objects are alike when no session tells them apart: whatever is called, and
whatever the environment answers, the same events are visible and the same is
returned.  Objects that stay related while their calls run in step are alike;
conversely the sessions that begin with one call reduce what is alike before the
call to what is alike after it.
-/

namespace MCRedis.Transition

universe u v w x y z

variable {Op : Type u} {Ans : Op → Type v} {Fault : Type w} {κ : Type y} {ρ ο : Type x}
  {σ : Type} {ω : Type z}

/-- What the calls return, when the object is handed from each to the next. -/
def session (perform : κ → ο → Program Op Ans Fault (ρ × ο)) :
    List κ → ο → Program Op Ans Fault (List ρ)
  | [], _ => .pure []
  | call :: calls, object =>
      (perform call object).bind fun performed =>
        (session perform calls performed.2).bind fun returned =>
          .pure (performed.1 :: returned)

/-- What a client sees of a run: the visible part of its events, and its
result. -/
def Outcome.observed {α : Type x} (view : Event Op Ans → Option ω)
    (outcome : Outcome Op Ans Fault α σ) : List ω × Except Fault α :=
  (outcome.trace.filterMap view, outcome.result)

/-- In one environment, no session tells the objects apart. -/
def AlikeIn (view : Event Op Ans → Option ω) (perform : κ → ο → Program Op Ans Fault (ρ × ο))
    (environment : Environment Op Ans σ) (state : σ) (first second : ο) : Prop :=
  ∀ calls, ((session perform calls first).run environment state).observed view =
    ((session perform calls second).run environment state).observed view

/-- No session in any environment tells the objects apart. -/
def Alike (view : Event Op Ans → Option ω) (perform : κ → ο → Program Op Ans Fault (ρ × ο))
    (first second : ο) : Prop :=
  ∀ (σ : Type) (environment : Environment Op Ans σ) (state : σ),
    AlikeIn view perform environment state first second

variable {view : Event Op Ans → Option ω} {perform : κ → ο → Program Op Ans Fault (ρ × ο)}
  {first second : ο}

/-! ## Calls in step -/

/-- Related objects whose calls run in step, return the same and keep the objects
related have sessions in step. -/
theorem InStep.session {Related : ο → ο → Prop}
    (keeps : ∀ call first second, Related first second →
      InStep Eq (fun performed other => performed.1 = other.1 ∧ Related performed.2 other.2)
        (perform call first) (perform call second))
    (related : Related first second) (calls : List κ) :
    InStep Eq Eq (session perform calls first) (session perform calls second) := by
  induction calls generalizing first second with
  | nil => rfl
  | cons call calls ih =>
      apply (keeps call first second related).bind
      rintro ⟨returned, next⟩ ⟨_, next'⟩ ⟨rfl, nextRelated⟩
      apply (ih nextRelated).bind
      rintro rest _ rfl
      rfl

theorem alike_of_inStep {Related : ο → ο → Prop}
    (keeps : ∀ call first second, Related first second →
      InStep Eq (fun performed other => performed.1 = other.1 ∧ Related performed.2 other.2)
        (perform call first) (perform call second))
    (related : Related first second) : Alike view perform first second := by
  intro σ environment state calls
  rw [(InStep.session keeps related calls).run_eq environment state]

theorem Alike.refl (object : ο) : Alike view perform object object :=
  fun _ _ _ _ => rfl

/-! ## The first call of a session -/

theorem except_map_map {α β γ : Type x} (f : α → β) (g : β → γ) (result : Except Fault α) :
    (result.map f).map g = result.map (g ∘ f) := by
  cases result <;> rfl

theorem except_map_injective {α β : Type x} {f : α → β} (injective : Function.Injective f) :
    Function.Injective (Except.map f : Except Fault α → Except Fault β) := by
  rintro (fault | value) (fault' | value') mapEq
  · exact congrArg Except.error (Except.error.inj mapEq)
  · contradiction
  · contradiction
  · exact congrArg Except.ok (injective (Except.ok.inj mapEq))

section AlikeIn

variable {environment : Environment Op Ans σ} {state next : σ} {call : κ}
  {trace trace' : List (Event Op Ans)} {returned returned' : ρ} {after after' : ο}

/-- A session whose first call returns goes on with the object it leaves. -/
theorem run_session_cons
    (firstEq : (perform call first).run environment state =
      ⟨trace, .ok (returned, after), next⟩) (calls : List κ) :
    (session perform (call :: calls) first).run environment state =
      let rest := (session perform calls after).run environment next
      ⟨trace ++ rest.trace, rest.result.map (returned :: ·), rest.state⟩ := by
  have firstReturned := congrArg Outcome.result firstEq
  rw [session, Program.run_bind_ok _ firstReturned, firstEq]
  dsimp only
  rw [Program.run_bind_pure]

/-- One call on objects that are alike: the same is visible, and the same is
returned. -/
theorem AlikeIn.first_call (alike : AlikeIn view perform environment state first second)
    (call : κ) :
    ((perform call first).run environment state).trace.filterMap view =
        ((perform call second).run environment state).trace.filterMap view ∧
      ((perform call first).run environment state).result.map Prod.fst =
        ((perform call second).run environment state).result.map Prod.fst := by
  have single : ∀ object, (session perform [call] object).run environment state =
      let performed := (perform call object).run environment state
      ⟨performed.trace, performed.result.map fun performed => [performed.1], performed.state⟩ :=
    fun object => Program.run_bind_pure environment (perform call object) _ state
  have observed := alike [call]
  rw [single, single] at observed
  obtain ⟨visible, returned⟩ := Prod.mk.inj observed
  refine ⟨visible, except_map_injective List.singleton_injective ?_⟩
  rw [except_map_map, except_map_map]
  exact returned

/-- After a call that returns on both, the objects are still alike. -/
theorem AlikeIn.next_calls (alike : AlikeIn view perform environment state first second)
    (firstEq : (perform call first).run environment state =
      ⟨trace, .ok (returned, after), next⟩)
    (secondEq : (perform call second).run environment state =
      ⟨trace', .ok (returned', after'), next⟩) :
    AlikeIn view perform environment next after after' := by
  intro calls
  obtain ⟨sameVisible, sameReturned⟩ := alike.first_call call
  rw [firstEq, secondEq] at sameVisible sameReturned
  cases sameReturned
  have observed := alike (call :: calls)
  rw [run_session_cons firstEq, run_session_cons secondEq] at observed
  obtain ⟨visible, result⟩ := Prod.mk.inj observed
  rw [List.filterMap_append, List.filterMap_append, sameVisible] at visible
  exact Prod.ext (List.append_cancel_left visible)
    (except_map_injective List.cons_injective result)

end AlikeIn

end MCRedis.Transition
