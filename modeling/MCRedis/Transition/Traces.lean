import MCRedis.Transition.Program

/-!
# What the executions of a program leave behind

`Leaves` is a postcondition on the whole trace of an execution that returns, and
not on its value only; `Throughout` looks at all executions.  `Settles` adds
exactly when a program returns: as long as the answers obey a law, and never after
one that does not.
-/

namespace MCRedis.Transition

universe u v w x

variable {Op : Type u} {Ans : Op → Type v} {Fault : Type w} {α β : Type x}

/-- The trace and the value of every execution that returns are related. -/
structure Leaves (post : List (Event Op Ans) → α → Prop) (program : Program Op Ans Fault α) :
    Prop where
  exec : ∀ trace value, Exec program trace (.ok value) → post trace value

/-- The program returns under no answers. -/
abbrev Fails (program : Program Op Ans Fault α) : Prop :=
  Leaves (fun _ _ => False) program

namespace Leaves

variable {post : List (Event Op Ans) → α → Prop} {program : Program Op Ans Fault α}

theorem pure {value : α} (holds : post [] value) :
    Leaves post (.pure value : Program Op Ans Fault α) := by
  constructor
  intro trace other exec
  obtain ⟨rfl, resultEq⟩ := Exec.pure_iff.mp exec
  cases resultEq
  exact holds

theorem fail (fault : Fault) : Leaves post (.fail fault : Program Op Ans Fault α) := by
  constructor
  intro trace value exec
  exact absurd (Exec.fail_iff.mp exec).2 nofun

theorem request {op : Op} {next : Ans op → Program Op Ans Fault α}
    (answered : ∀ answer, Leaves (fun rest => post (⟨op, answer⟩ :: rest)) (next answer)) :
    Leaves post (.request op next) := by
  constructor
  intro trace value exec
  obtain ⟨answer, rest, rfl, restExec⟩ := Exec.request_iff.mp exec
  exact (answered answer).exec rest value restExec

theorem bind {first : List (Event Op Ans) → α → Prop} {post : List (Event Op Ans) → β → Prop}
    {next : α → Program Op Ans Fault β} (before : Leaves first program)
    (after : ∀ trace value, first trace value →
      Leaves (fun rest => post (trace ++ rest)) (next value)) :
    Leaves post (program.bind next) := by
  constructor
  intro trace value exec
  rcases Exec.bind_iff.mp exec with
    ⟨fault, _, resultEq⟩ | ⟨middle, front, rest, rfl, frontExec, restExec⟩
  · contradiction
  · exact (after front middle (before.exec front middle frontExec)).exec rest value restExec

theorem mono {weaker : List (Event Op Ans) → α → Prop} (leaves : Leaves post program)
    (implies : ∀ trace value, post trace value → weaker trace value) : Leaves weaker program :=
  ⟨fun trace value exec => implies trace value (leaves.exec trace value exec)⟩

/-- A checked computation is no operation. -/
theorem bind_ofExcept {post : List (Event Op Ans) → β → Prop} {checked : Except Fault α}
    {next : α → Program Op Ans Fault β}
    (after : ∀ value, checked = .ok value → Leaves post (next value)) :
    Leaves post ((Program.ofExcept checked).bind next) := by
  cases checked with
  | ok value => exact after value rfl
  | error fault => exact .fail fault

/-- What a checked computation returns, it returns at once. -/
theorem ofExcept {checked : Except Fault α} (holds : ∀ value, checked = .ok value → post [] value) :
    Leaves post (Program.ofExcept checked : Program Op Ans Fault α) := by
  cases checked with
  | ok value => exact .pure (holds value rfl)
  | error fault => exact .fail fault

end Leaves

theorem Fails.bind {program : Program Op Ans Fault α} (fails : Fails program)
    (next : α → Program Op Ans Fault β) : Fails (program.bind next) :=
  Leaves.bind fails fun _ _ => False.elim

theorem Fails.bind_any {program : Program Op Ans Fault α} {next : α → Program Op Ans Fault β}
    (fails : ∀ value, Fails (next value)) : Fails (program.bind next) :=
  Leaves.bind ⟨fun _ _ _ => trivial⟩ fun _ value (_ : True) => fails value

/-! ## Whole executions

An execution that ends in a fault leaves a trace as well.
-/

/-- What holds of two parts of a trace holds of both together. -/
structure Additive {ε : Type x} (good : List ε → Prop) : Prop where
  nil : good []
  append : ∀ first second, good first → good second → good (first ++ second)

/-- The trace of every execution has the property, and a value that is returned meets
the postcondition. -/
structure Throughout (good : List (Event Op Ans) → Prop) (post : α → Prop)
    (program : Program Op Ans Fault α) : Prop where
  exec : ∀ trace result, Exec program trace result →
    good trace ∧ ∀ value, result = .ok value → post value

namespace Throughout

variable {good : List (Event Op Ans) → Prop} {post : α → Prop} {program : Program Op Ans Fault α}

theorem pure {value : α} (empty : good []) (holds : post value) :
    Throughout good post (.pure value : Program Op Ans Fault α) := by
  constructor
  intro trace result exec
  obtain ⟨rfl, rfl⟩ := Exec.pure_iff.mp exec
  refine ⟨empty, ?_⟩
  rintro _ ⟨⟩
  exact holds

theorem fail (empty : good []) (fault : Fault) :
    Throughout good post (.fail fault : Program Op Ans Fault α) := by
  constructor
  intro trace result exec
  obtain ⟨rfl, rfl⟩ := Exec.fail_iff.mp exec
  refine ⟨empty, ?_⟩
  rintro _ ⟨⟩

theorem request {op : Op} {next : Ans op → Program Op Ans Fault α}
    (answered : ∀ answer, Throughout (fun rest => good (⟨op, answer⟩ :: rest)) post
      (next answer)) : Throughout good post (.request op next) := by
  constructor
  intro trace result exec
  obtain ⟨answer, rest, rfl, restExec⟩ := Exec.request_iff.mp exec
  exact (answered answer).exec rest result restExec

/-- A program behind a part that has the property on its own. -/
theorem after (additive : Additive good) {front : List (Event Op Ans)} (holds : good front)
    (throughout : Throughout good post program) :
    Throughout (fun rest => good (front ++ rest)) post program := by
  constructor
  intro trace result exec
  obtain ⟨goodTrace, returned⟩ := throughout.exec trace result exec
  exact ⟨additive.append front trace holds goodTrace, returned⟩

theorem bind (additive : Additive good) {first : α → Prop} {post : β → Prop}
    {next : α → Program Op Ans Fault β} (before : Throughout good first program)
    (behind : ∀ value, first value → Throughout good post (next value)) :
    Throughout good post (program.bind next) := by
  constructor
  intro trace result exec
  rcases Exec.bind_iff.mp exec with
    ⟨fault, failed, rfl⟩ | ⟨value, front, rest, rfl, frontExec, restExec⟩
  · refine ⟨(before.exec trace _ failed).1, ?_⟩
    rintro _ ⟨⟩
  · obtain ⟨goodFront, returned⟩ := before.exec front _ frontExec
    obtain ⟨goodRest, last⟩ := (behind value (returned value rfl)).exec rest result restExec
    exact ⟨additive.append front rest goodFront goodRest, last⟩

/-- A checked computation is no operation. -/
theorem bind_ofExcept (additive : Additive good) {post : β → Prop} {checked : Except Fault α}
    {next : α → Program Op Ans Fault β}
    (behind : ∀ value, checked = .ok value → Throughout good post (next value)) :
    Throughout good post ((Program.ofExcept checked).bind next) := by
  cases checked with
  | ok value => exact behind value rfl
  | error fault => exact .fail additive.nil fault

end Throughout

/-! ## Laws that decide whether a program returns -/

/-- The program returns exactly when all answers obey the law, and what it leaves
behind is known. -/
structure Settles (law : Event Op Ans → Prop) (post : List (Event Op Ans) → α → Prop)
    (program : Program Op Ans Fault α) : Prop where
  leaves : Leaves post program
  returns_iff : ∀ trace result, Exec program trace result →
    ((∃ value, result = .ok value) ↔ ∀ event ∈ trace, law event)

namespace Settles

variable {law : Event Op Ans → Prop} {post : List (Event Op Ans) → α → Prop}
  {program : Program Op Ans Fault α}

theorem pure {value : α} (holds : post [] value) :
    Settles law post (.pure value : Program Op Ans Fault α) where
  leaves := .pure holds
  returns_iff := by
    intro trace result exec
    obtain ⟨rfl, rfl⟩ := Exec.pure_iff.mp exec
    exact iff_of_true ⟨value, rfl⟩ (List.forall_mem_nil _)

/-- After an answer against the law, the program must not return. -/
theorem request {op : Op} {next : Ans op → Program Op Ans Fault α}
    (lawful : ∀ answer, law ⟨op, answer⟩ →
      Settles law (fun rest => post (⟨op, answer⟩ :: rest)) (next answer))
    (unlawful : ∀ answer, ¬ law ⟨op, answer⟩ → Fails (next answer)) :
    Settles law post (.request op next) where
  leaves := by
    apply Leaves.request
    intro answer
    by_cases obeys : law ⟨op, answer⟩
    · exact (lawful answer obeys).leaves
    · exact (unlawful answer obeys).mono fun _ _ => False.elim
  returns_iff := by
    intro trace result exec
    obtain ⟨answer, rest, rfl, restExec⟩ := Exec.request_iff.mp exec
    rw [List.forall_mem_cons]
    by_cases obeys : law ⟨op, answer⟩
    · rw [(lawful answer obeys).returns_iff rest result restExec]
      exact (and_iff_right obeys).symm
    · refine iff_of_false ?_ fun all => obeys all.1
      rintro ⟨value, rfl⟩
      exact (unlawful answer obeys).exec rest value restExec

theorem bind {first : List (Event Op Ans) → α → Prop} {post : List (Event Op Ans) → β → Prop}
    {next : α → Program Op Ans Fault β} (before : Settles law first program)
    (after : ∀ trace value, first trace value →
      Settles law (fun rest => post (trace ++ rest)) (next value)) :
    Settles law post (program.bind next) where
  leaves := .bind before.leaves fun trace value holds => (after trace value holds).leaves
  returns_iff := by
    intro trace result exec
    rcases Exec.bind_iff.mp exec with
      ⟨fault, failed, rfl⟩ | ⟨value, front, rest, rfl, frontExec, restExec⟩
    · rw [← before.returns_iff trace _ failed]
      exact iff_of_false nofun nofun
    · have frontLawful := (before.returns_iff front _ frontExec).mp ⟨value, rfl⟩
      have holds := before.leaves.exec front value frontExec
      rw [List.forall_mem_append, (after front value holds).returns_iff rest result restExec]
      exact (and_iff_right frontLawful).symm

theorem mono {weaker : List (Event Op Ans) → α → Prop} (settles : Settles law post program)
    (implies : ∀ trace value, post trace value → weaker trace value) :
    Settles law weaker program :=
  ⟨settles.leaves.mono implies, settles.returns_iff⟩

end Settles

/-! ## Wrong events

Some events are wrong, and after one of them a program should come out with
nothing.  Those of them that are misread go unnoticed, and what comes out is then
up to the accepting events that follow.
-/

section Wrong

variable {law wrong misread accepts : Event Op Ans → Prop}

/-- No marked event has occurred, and the value is known. -/
def Unmarked (mark : Event Op Ans → Prop) (known : α → Prop) (trace : List (Event Op Ans))
    (value : α) : Prop :=
  (∀ event ∈ trace, ¬ mark event) ∧ known value

/-- No wrong event has occurred, and the value shows whether an accepting one has,
now or before. -/
def Shows (wrong accepts : Event Op Ans → Prop) (before : Prop) (shown : α → Prop)
    (trace : List (Event Op Ans)) (value : α) : Prop :=
  (∀ event ∈ trace, ¬ wrong event) ∧ (shown value ↔ before ∨ ∃ event ∈ trace, accepts event)

/-- No misread event is followed by an accepting one. -/
abbrev Unfollowed (misread accepts : Event Op Ans → Prop) (trace : List (Event Op Ans)) : Prop :=
  trace.Pairwise fun event later => misread event → ¬ accepts later

/-- A wrong event leads to nothing exactly when no misread one is followed by an
accepting one. -/
def Judged (wrong misread accepts : Event Op Ans → Prop) (nothing : α → Prop)
    (trace : List (Event Op Ans)) (value : α) : Prop :=
  ((∃ event ∈ trace, wrong event) → nothing value) ↔ Unfollowed misread accepts trace

theorem Unmarked.mono {mark other : Event Op Ans → Prop} {known : α → Prop}
    {trace : List (Event Op Ans)} {value : α} (unmarked : Unmarked mark known trace value)
    (marks : ∀ event, other event → mark event) : Unmarked other known trace value :=
  ⟨fun event mem isOther => unmarked.1 event mem (marks event isOther), unmarked.2⟩

theorem Settles.bind_unmarked {mark : Event Op Ans → Prop} {known : α → Prop} {outcome : β → Prop}
    {program : Program Op Ans Fault α} {next : α → Program Op Ans Fault β}
    (front : Settles law (Unmarked mark known) program)
    (behind : ∀ value, known value → Settles law (Unmarked mark outcome) (next value)) :
    Settles law (Unmarked mark outcome) (program.bind next) := by
  apply Settles.bind front
  rintro trace value ⟨unmarked, holds⟩
  apply (behind value holds).mono
  rintro rest value ⟨restUnmarked, holds⟩
  exact ⟨List.forall_mem_append.mpr ⟨unmarked, restUnmarked⟩, holds⟩

theorem Shows.nil {before : Prop} {shown : α → Prop} {value : α} (same : shown value ↔ before) :
    Shows wrong accepts before shown [] value := by
  refine ⟨List.forall_mem_nil _, same.trans ?_⟩
  simp

theorem Shows.congr {before other : Prop} {shown : α → Prop} {trace : List (Event Op Ans)}
    {value : α} (same : before ↔ other) (shows : Shows wrong accepts before shown trace value) :
    Shows wrong accepts other shown trace value :=
  ⟨shows.1, shows.2.trans (or_congr_left same)⟩

/-- What was shown before stays shown. -/
theorem Shows.earlier {shown : α → Prop} {trace : List (Event Op Ans)} {value : α}
    (shows : Shows wrong accepts False shown trace value) (before : Prop) :
    Shows wrong accepts before (fun value => before ∨ shown value) trace value := by
  refine ⟨shows.1, or_congr_right ?_⟩
  rw [shows.2]
  exact or_iff_right id

/-- Events that are neither wrong nor accepting show nothing. -/
theorem Settles.bind_quiet {known : α → Prop} {before : Prop} {shown : β → Prop}
    {program : Program Op Ans Fault α} {next : α → Program Op Ans Fault β}
    (front : Settles law (Unmarked (fun event => wrong event ∨ accepts event) known) program)
    (behind : ∀ value, known value → Settles law (Shows wrong accepts before shown) (next value)) :
    Settles law (Shows wrong accepts before shown) (program.bind next) := by
  apply Settles.bind front
  rintro trace value ⟨quiet, holds⟩
  apply (behind value holds).mono
  rintro rest result ⟨right, restShown⟩
  refine ⟨List.forall_mem_append.mpr ⟨fun event mem => (not_or.mp (quiet event mem)).1, right⟩, ?_⟩
  rw [restShown]
  apply or_congr_right
  simp only [List.mem_append, or_and_right, exists_or]
  exact (or_iff_right fun ⟨event, mem, accepted⟩ => quiet event mem (.inr accepted)).symm

theorem Settles.bind_shows {before : Prop} {first : α → Prop} {shown : β → Prop}
    {program : Program Op Ans Fault α} {next : α → Program Op Ans Fault β}
    (front : Settles law (Shows wrong accepts before first) program)
    (behind : ∀ value, Settles law (Shows wrong accepts (first value) shown) (next value)) :
    Settles law (Shows wrong accepts before shown) (program.bind next) := by
  apply Settles.bind front
  rintro trace value ⟨right, firstShown⟩
  apply (behind value).mono
  rintro rest result ⟨restRight, restShown⟩
  refine ⟨List.forall_mem_append.mpr ⟨right, restRight⟩, ?_⟩
  rw [restShown, firstShown, or_assoc]
  simp only [List.mem_append, or_and_right, exists_or]

/-! ### What comes out after a wrong event -/

theorem Unfollowed.of_none {trace : List (Event Op Ans)}
    (none : ∀ event ∈ trace, ¬ misread event) : Unfollowed misread accepts trace :=
  List.pairwise_of_forall_mem_list fun _ mem _ _ isMisread => absurd isMisread (none _ mem)

namespace Judged

variable {nothing : α → Prop} {front rest trace : List (Event Op Ans)} {value : α}

/-- Without a misread event, a wrong one leads to nothing. -/
theorem of_noticed (noticed : ∀ event ∈ trace, ¬ misread event)
    (holds : (∃ event ∈ trace, wrong event) → nothing value) :
    Judged wrong misread accepts nothing trace value :=
  iff_of_true holds (.of_none noticed)

/-- Without a wrong event, there is nothing to judge. -/
theorem of_right (isWrong : ∀ event, misread event → wrong event)
    (right : ∀ event ∈ trace, ¬ wrong event) :
    Judged wrong misread accepts nothing trace value := by
  refine .of_noticed (fun event mem isMisread => right event mem (isWrong event isMisread)) ?_
  rintro ⟨event, mem, isWrong⟩
  exact absurd isWrong (right event mem)

/-- After a misread event, the value shows whether an accepting one follows. -/
theorem of_misread (isWrong : ∀ event, misread event → wrong event)
    (some : ∃ event ∈ front, misread event) (unfollowed : Unfollowed misread accepts front)
    (shows : Shows wrong accepts False (fun value => ¬ nothing value) rest value) :
    Judged wrong misread accepts nothing (front ++ rest) value := by
  obtain ⟨event, mem, isMisread⟩ := some
  have restUnfollowed : Unfollowed misread accepts rest :=
    .of_none fun event mem isMisread => shows.1 event mem (isWrong event isMisread)
  have nothing_iff : nothing value ↔ ∀ later ∈ rest, ¬ accepts later := by
    apply not_iff_not.mp
    refine shows.2.trans ?_
    push Not
    exact or_iff_right id
  rw [Judged, Unfollowed, List.pairwise_append, nothing_iff]
  constructor
  · intro quiet
    have noneAccepts := quiet ⟨event, List.mem_append_left rest mem, isWrong event isMisread⟩
    exact ⟨unfollowed, restUnfollowed, fun _ _ later laterMem _ => noneAccepts later laterMem⟩
  · rintro ⟨_, _, across⟩ _ later laterMem
    exact across event mem later laterMem isMisread

/-- Events that are not wrong, in front of the others. -/
theorem after (isWrong : ∀ event, misread event → wrong event)
    (right : ∀ event ∈ front, ¬ wrong event)
    (judged : Judged wrong misread accepts nothing rest value) :
    Judged wrong misread accepts nothing (front ++ rest) value := by
  have noneMisread : ∀ event ∈ front, ¬ misread event := fun event mem isMisread =>
    right event mem (isWrong event isMisread)
  have wrong_iff : (∃ event ∈ front ++ rest, wrong event) ↔ ∃ event ∈ rest, wrong event := by
    simp only [List.mem_append, or_and_right, exists_or]
    exact or_iff_right fun ⟨event, mem, isWrong⟩ => right event mem isWrong
  have unfollowed_iff : Unfollowed misread accepts (front ++ rest) ↔
      Unfollowed misread accepts rest := by
    rw [Unfollowed, List.pairwise_append]
    refine ⟨fun all => all.2.1, fun unfollowed =>
      ⟨Unfollowed.of_none noneMisread, unfollowed, ?_⟩⟩
    exact fun event mem _ _ isMisread => absurd isMisread (noneMisread event mem)
  rw [Judged, wrong_iff, unfollowed_iff]
  exact judged

/-- Events that are neither wrong nor accepting, behind the others. -/
theorem quiet {outcome : β → Prop} {result : β} (isWrong : ∀ event, misread event → wrong event)
    (judged : Judged wrong misread accepts nothing front value)
    (quiet : ∀ event ∈ rest, ¬ (wrong event ∨ accepts event))
    (same : outcome result ↔ nothing value) :
    Judged wrong misread accepts outcome (front ++ rest) result := by
  have right : ∀ event ∈ rest, ¬ wrong event := fun event mem => (not_or.mp (quiet event mem)).1
  have wrong_iff : (∃ event ∈ front ++ rest, wrong event) ↔ ∃ event ∈ front, wrong event := by
    simp only [List.mem_append, or_and_right, exists_or]
    exact or_iff_left fun ⟨event, mem, isWrong⟩ => right event mem isWrong
  have unfollowed_iff : Unfollowed misread accepts (front ++ rest) ↔
      Unfollowed misread accepts front := by
    rw [Unfollowed, List.pairwise_append]
    refine ⟨fun all => all.1, fun unfollowed => ⟨unfollowed, ?_, ?_⟩⟩
    · exact Unfollowed.of_none fun event mem isMisread => right event mem (isWrong event isMisread)
    · exact fun _ _ later mem _ accepted => quiet later mem (.inr accepted)
  rw [Judged, wrong_iff, same, unfollowed_iff]
  exact judged

end Judged

/-- The property that a wrong event leads to nothing and that the program returns
holds of an execution exactly when its answers obey the law and no misread event is
followed by an accepting one. -/
theorem Settles.returns_judged_iff {nothing : α → Prop} {program : Program Op Ans Fault α}
    (settles : Settles law (Judged wrong misread accepts nothing) program)
    {trace : List (Event Op Ans)} {result : Except Fault α} (exec : Exec program trace result) :
    (∃ value, result = .ok value ∧ ((∃ event ∈ trace, wrong event) → nothing value)) ↔
      (∀ event ∈ trace, law event) ∧ Unfollowed misread accepts trace := by
  rw [← settles.returns_iff trace result exec]
  constructor
  · rintro ⟨value, rfl, holds⟩
    exact ⟨⟨value, rfl⟩, (settles.leaves.exec trace value exec).mp holds⟩
  · rintro ⟨⟨value, rfl⟩, unfollowed⟩
    exact ⟨value, rfl, (settles.leaves.exec trace value exec).mpr unfollowed⟩

end Wrong

end MCRedis.Transition
