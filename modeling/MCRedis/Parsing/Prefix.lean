import Mathlib.Data.List.Basic

/-!
# Prefix parsers

A prefix parser reads a value off the front of a list of symbols and leaves the
rest.  It may also reject the list, or find it too short to tell: what follows
the list may then still decide.  A parser is stable when only the third answer
can change with what follows, and it is exact for a format when the symbols it
takes are those that the format gives the value.
-/

namespace MCRedis.Parsing

/-- What a prefix parser makes of a list of symbols. -/
inductive Parsed (β ε α : Type)
  | done (value : α) (rest : List β)
  | more
  | bad (error : ε)

def Parser (β ε α : Type) :=
  List β → Parsed β ε α

variable {β ε α γ : Type}

namespace Parsed

def bind (parsed : Parsed β ε α) (next : α → Parser β ε γ) : Parsed β ε γ :=
  match parsed with
  | .done value rest => next value rest
  | .more => .more
  | .bad error => .bad error

end Parsed

namespace Parser

instance : Monad (Parser β ε) where
  pure value := fun input => .done value input
  bind parser next := fun input => (parser input).bind next

/-- The parser that rejects every list. -/
def fail (error : ε) : Parser β ε α :=
  fun _ => .bad error

@[simp]
theorem pure_apply (value : α) (input : List β) :
    (pure value : Parser β ε α) input = .done value input :=
  rfl

@[simp]
theorem fail_apply (error : ε) (input : List β) :
    (fail error : Parser β ε α) input = .bad error :=
  rfl

theorem bind_apply (parser : Parser β ε α) (next : α → Parser β ε γ) (input : List β) :
    (parser >>= next) input = (parser input).bind next :=
  rfl

theorem bind_done {parser : Parser β ε α} {next : α → Parser β ε γ} {input rest : List β}
    {value : α} (parsed : parser input = .done value rest) :
    (parser >>= next) input = next value rest := by
  rw [bind_apply, parsed]
  rfl

theorem bind_more {parser : Parser β ε α} {next : α → Parser β ε γ} {input : List β}
    (parsed : parser input = .more) : (parser >>= next) input = .more := by
  rw [bind_apply, parsed]
  rfl

theorem bind_bad {parser : Parser β ε α} {next : α → Parser β ε γ} {input : List β} {error : ε}
    (parsed : parser input = .bad error) : (parser >>= next) input = .bad error := by
  rw [bind_apply, parsed]
  rfl

/-- A sequence is done when its parts are. -/
theorem bind_eq_done_iff {parser : Parser β ε α} {next : α → Parser β ε γ}
    {input rest : List β} {value : γ} :
    (parser >>= next) input = .done value rest ↔
      ∃ first middle, parser input = .done first middle ∧
        next first middle = .done value rest := by
  rw [bind_apply]
  cases parser input with
  | done first middle => simp [Parsed.bind]
  | more => simp [Parsed.bind]
  | bad error => simp [Parsed.bind]

theorem bind_pure_right (parser : Parser β ε α) : parser >>= pure = parser := by
  funext input
  rw [bind_apply]
  cases parser input <;> rfl

theorem bind_bind {δ : Type} (parser : Parser β ε α) (next : α → Parser β ε γ)
    (last : γ → Parser β ε δ) :
    parser >>= next >>= last = parser >>= fun value => next value >>= last := by
  funext input
  rw [bind_apply, bind_apply, bind_apply]
  cases parser input <;> rfl

@[simp]
theorem pure_bind_eq (value : α) (next : α → Parser β ε γ) :
    (pure value : Parser β ε α) >>= next = next value :=
  rfl

@[simp]
theorem fail_bind_eq (error : ε) (next : α → Parser β ε γ) :
    (fail error : Parser β ε α) >>= next = fail error :=
  rfl

/-- A parser run a number of times. -/
def times (parser : Parser β ε α) : Nat → Parser β ε (List α)
  | 0 => pure []
  | count + 1 => do
      let value ← parser
      let values ← parser.times count
      pure (value :: values)

/-! ## Stability -/

/-- Only the answer that more symbols are needed can change with what follows. -/
structure Stable (parser : Parser β ε α) : Prop where
  done : ∀ {input rest value}, parser input = .done value rest →
    ∀ later, parser (input ++ later) = .done value (rest ++ later)
  bad : ∀ {input error}, parser input = .bad error →
    ∀ later, parser (input ++ later) = .bad error

namespace Stable

theorem pure (value : α) : Stable (pure value : Parser β ε α) where
  done := by
    rintro input rest value parsed later
    cases parsed
    rfl
  bad := by
    rintro input error ⟨⟩

theorem fail (error : ε) : Stable (fail error : Parser β ε α) where
  done := by
    rintro input rest value ⟨⟩
  bad := by
    rintro input error parsed later
    exact parsed

theorem bind {parser : Parser β ε α} {next : α → Parser β ε γ} (first : Stable parser)
    (second : ∀ value, Stable (next value)) : Stable (parser >>= next) where
  done := by
    intro input rest value parsed later
    obtain ⟨middle, middleRest, firstParsed, secondParsed⟩ := bind_eq_done_iff.mp parsed
    rw [bind_done (first.done firstParsed later)]
    exact (second middle).done secondParsed later
  bad := by
    intro input error parsed later
    rw [bind_apply] at parsed
    cases firstParsed : parser input with
    | done middle middleRest =>
        rw [firstParsed] at parsed
        rw [bind_done (first.done firstParsed later)]
        exact (second middle).bad parsed later
    | more =>
        rw [firstParsed] at parsed
        contradiction
    | bad other =>
        rw [firstParsed] at parsed
        cases parsed
        rw [bind_bad (first.bad firstParsed later)]

theorem times {parser : Parser β ε α} (stable : Stable parser) (count : Nat) :
    Stable (parser.times count) := by
  induction count with
  | zero => exact pure []
  | succ count ih => exact stable.bind fun value => ih.bind fun values => pure (value :: values)

end Stable

/-! ## Formats -/

/-- The parser takes exactly the symbols that the format gives a value. -/
def Exact (parser : Parser β ε α) (Encodes : α → List β → Prop) : Prop :=
  ∀ input value rest, parser input = .done value rest ↔
    ∃ used, Encodes value used ∧ input = used ++ rest

namespace Exact

theorem pure (value : α) :
    Exact (pure value : Parser β ε α) fun other used => other = value ∧ used = [] := by
  intro input other rest
  rw [pure_apply, Parsed.done.injEq]
  constructor
  · rintro ⟨rfl, rfl⟩
    exact ⟨[], ⟨rfl, rfl⟩, rfl⟩
  · rintro ⟨used, ⟨rfl, rfl⟩, rfl⟩
    exact ⟨rfl, rfl⟩

theorem fail (error : ε) : Exact (fail error : Parser β ε α) fun _ _ => False := by
  intro input other rest
  simp

theorem bind {parser : Parser β ε α} {next : α → Parser β ε γ}
    {First : α → List β → Prop} {Second : α → γ → List β → Prop} (first : Exact parser First)
    (second : ∀ value, Exact (next value) (Second value)) :
    Exact (parser >>= next) fun value used =>
      ∃ middle front back, First middle front ∧ Second middle value back ∧
        used = front ++ back := by
  intro input value rest
  rw [bind_eq_done_iff]
  constructor
  · rintro ⟨middle, middleRest, firstParsed, secondParsed⟩
    obtain ⟨front, encodedFront, rfl⟩ := (first _ _ _).mp firstParsed
    obtain ⟨back, encodedBack, rfl⟩ := (second middle _ _ _).mp secondParsed
    exact ⟨front ++ back, ⟨middle, front, back, encodedFront, encodedBack, rfl⟩,
      (List.append_assoc _ _ _).symm⟩
  · rintro ⟨used, ⟨middle, front, back, encodedFront, encodedBack, rfl⟩, rfl⟩
    refine ⟨middle, back ++ rest, ?_, ?_⟩
    · exact (first _ _ _).mpr ⟨front, encodedFront, List.append_assoc _ _ _⟩
    · exact (second middle _ _ _).mpr ⟨back, encodedBack, rfl⟩

/-- The same parser is exact for every equivalent format. -/
theorem congr {parser : Parser β ε α} {First Second : α → List β → Prop}
    (exact : Exact parser First) (same : ∀ value used, First value used ↔ Second value used) :
    Exact parser Second := by
  intro input value rest
  rw [exact]
  simp only [same]

theorem times {parser : Parser β ε α} {Encodes : α → List β → Prop}
    (exact : Exact parser Encodes) (count : Nat) :
    Exact (parser.times count) fun values used =>
      values.length = count ∧ ∃ parts, List.Forall₂ Encodes values parts ∧
        used = parts.flatten := by
  induction count with
  | zero =>
      refine (Exact.pure []).congr fun values used => ?_
      constructor
      · rintro ⟨rfl, rfl⟩
        exact ⟨rfl, [], .nil, rfl⟩
      · rintro ⟨empty, parts, encoded, rfl⟩
        obtain rfl := List.length_eq_zero_iff.mp empty
        cases encoded
        exact ⟨rfl, rfl⟩
  | succ count ih =>
      refine (exact.bind fun value => ih.bind fun values => Exact.pure (value :: values)).congr
        fun values used => ?_
      constructor
      · rintro ⟨value, front, _, encoded, ⟨others, back, _, ⟨counted, parts, encodedParts, rfl⟩,
          ⟨rfl, rfl⟩, rfl⟩, rfl⟩
        exact ⟨congrArg (· + 1) counted, front :: parts, .cons encoded encodedParts, by simp⟩
      · rintro ⟨counted, parts, encodedParts, rfl⟩
        cases encodedParts with
        | nil => contradiction
        | @cons value front others parts encoded encodedParts =>
            exact ⟨value, front, parts.flatten, encoded, ⟨others, parts.flatten, [],
              ⟨Nat.succ.inj counted, parts, encodedParts, rfl⟩, ⟨rfl, rfl⟩,
              (List.append_nil _).symm⟩, rfl⟩

theorem suffix {parser : Parser β ε α} {Encodes : α → List β → Prop}
    (exact : Exact parser Encodes) {input rest : List β} {value : α}
    (parsed : parser input = .done value rest) : rest <:+ input := by
  obtain ⟨used, -, rfl⟩ := (exact _ _ _).mp parsed
  exact List.suffix_append used rest

/-- However some values are written, they end at the same place. -/
theorem append_cancel {parser : Parser β ε α} {Encodes : α → List β → Prop}
    (exact : Exact parser Encodes) {values : List α} {parts others : List (List β)}
    (encoded : List.Forall₂ Encodes values parts) (other : List.Forall₂ Encodes values others)
    {rest more : List β} (same : parts.flatten ++ rest = others.flatten ++ more) :
    rest = more := by
  induction encoded generalizing others with
  | nil =>
      cases other
      exact same
  | @cons value part values parts first _ ih =>
      cases other with
      | @cons _ part' _ others first' other =>
          rw [List.flatten_cons, List.append_assoc, List.flatten_cons, List.append_assoc] at same
          have parsed := (exact _ _ (parts.flatten ++ rest)).mpr ⟨part, first, rfl⟩
          have again := (exact _ _ (others.flatten ++ more)).mpr ⟨part', first', same⟩
          rw [parsed, Parsed.done.injEq] at again
          exact ih other again.2

end Exact

/-! ## Streams -/

/-- How the values of a stream end: the symbols run out, or are rejected. -/
inductive Ending (ε : Type)
  | starved
  | rejected (error : ε)

/-- Every parse takes at least one symbol. -/
def Progress (parser : Parser β ε α) : Prop :=
  ∀ input value rest, parser input = .done value rest → rest.length < input.length

/-- The values at the front of a list, at most `fuel` of them. -/
def streamFor (parser : Parser β ε α) : Nat → List β → List α × Ending ε
  | 0, _ => ([], .starved)
  | fuel + 1, input =>
      match parser input with
      | .done value rest =>
          let (values, ending) := parser.streamFor fuel rest
          (value :: values, ending)
      | .more => ([], .starved)
      | .bad error => ([], .rejected error)

/-- All values at the front of a list, and how they end. -/
def stream (parser : Parser β ε α) (input : List β) : List α × Ending ε :=
  parser.streamFor (input.length + 1) input

/-- The values that follow what has been parsed. -/
def continued (parser : Parser β ε α) (parsed : Parsed β ε α) : List α × Ending ε :=
  match parsed with
  | .done value rest =>
      let (values, ending) := parser.stream rest
      (value :: values, ending)
  | .more => ([], .starved)
  | .bad error => ([], .rejected error)

variable {parser : Parser β ε α}

theorem streamFor_eq (progress : Progress parser) {fuel : Nat} {input : List β}
    (enough : input.length < fuel) : parser.streamFor fuel input = parser.stream input := by
  have anyFuel : ∀ (bound fuel other : Nat) (input : List β), input.length ≤ bound →
      input.length < fuel → input.length < other →
        parser.streamFor fuel input = parser.streamFor other input := by
    intro bound
    induction bound with
    | zero =>
        intro fuel other input short enough enoughOther
        obtain ⟨fuel, rfl⟩ := Nat.exists_eq_add_of_lt enough
        obtain ⟨other, rfl⟩ := Nat.exists_eq_add_of_lt enoughOther
        rw [streamFor, streamFor]
        cases parsed : parser input with
        | done value rest =>
            have := progress input value rest parsed
            omega
        | more => rfl
        | bad error => rfl
    | succ bound ih =>
        intro fuel other input short enough enoughOther
        obtain ⟨fuel, rfl⟩ := Nat.exists_eq_add_of_lt enough
        obtain ⟨other, rfl⟩ := Nat.exists_eq_add_of_lt enoughOther
        rw [streamFor, streamFor]
        cases parsed : parser input with
        | done value rest =>
            have shorter := progress input value rest parsed
            have same := ih (input.length + fuel) (input.length + other) rest (by omega)
              (by omega) (by omega)
            simp only [same]
        | more => rfl
        | bad error => rfl
  exact anyFuel input.length fuel (input.length + 1) input (Nat.le_refl _) enough
    (Nat.lt_succ_self _)

/-- A stream is its first value, followed by the stream of the rest. -/
theorem stream_eq (progress : Progress parser) (input : List β) :
    parser.stream input = parser.continued (parser input) := by
  rw [stream, streamFor]
  cases parsed : parser input with
  | done value rest =>
      simp only [streamFor_eq progress (progress input value rest parsed), continued]
  | more => rfl
  | bad error => rfl

/-- What follows a stream adds values to it, unless the stream was rejected. -/
theorem Stable.stream_append (stable : Stable parser) (progress : Progress parser)
    (input later : List β) :
    (parser.stream input).1 <+: (parser.stream (input ++ later)).1 ∧
      ∀ error, (parser.stream input).2 = .rejected error →
        parser.stream (input ++ later) = parser.stream input := by
  induction shape : input.length using Nat.strongRecOn generalizing input with
  | ind bound ih =>
      rw [stream_eq progress input]
      cases parsed : parser input with
      | done value rest =>
          have shorter := progress input value rest parsed
          rw [shape] at shorter
          obtain ⟨more, same⟩ := ih rest.length shorter rest rfl
          rw [stream_eq progress, stable.done parsed later]
          refine ⟨List.cons_prefix_cons.mpr ⟨rfl, more⟩, fun error ended => ?_⟩
          rw [continued, same error ended]
          rfl
      | more =>
          refine ⟨List.nil_prefix, ?_⟩
          rintro error ⟨⟩
      | bad error =>
          refine ⟨List.nil_prefix, fun _ _ => ?_⟩
          rw [stream_eq progress, stable.bad parsed later]

/-- There are no more values than symbols. -/
theorem length_stream_le (progress : Progress parser) (input : List β) :
    (parser.stream input).1.length ≤ input.length := by
  induction shape : input.length using Nat.strongRecOn generalizing input with
  | ind bound ih =>
      rw [stream_eq progress]
      cases parsed : parser input with
      | done value rest =>
          have shorter := progress input value rest parsed
          rw [shape] at shorter
          exact Nat.succ_le_of_lt (Nat.lt_of_le_of_lt (ih rest.length shorter rest rfl) shorter)
      | more => exact Nat.zero_le _
      | bad error => exact Nat.zero_le _

/-- Symbols that write some values are read as these values. -/
theorem Exact.stream_flatten {Encodes : α → List β → Prop} (exact : Exact parser Encodes)
    (progress : Progress parser) {values : List α} {parts : List (List β)}
    (encoded : List.Forall₂ Encodes values parts) (rest : List β) :
    parser.stream (parts.flatten ++ rest) =
      (values ++ (parser.stream rest).1, (parser.stream rest).2) := by
  induction encoded with
  | nil => rfl
  | @cons value part values parts first _ ih =>
      rw [List.flatten_cons, List.append_assoc]
      have parsed : parser (part ++ (parts.flatten ++ rest)) =
          .done value (parts.flatten ++ rest) := (exact _ _ _).mpr ⟨part, first, rfl⟩
      rw [stream_eq progress, parsed, continued, ih]
      rfl

/-- The values of a stream are written in front of the symbols that end it. -/
theorem Exact.exists_flatten {Encodes : α → List β → Prop} (exact : Exact parser Encodes)
    (progress : Progress parser) (input : List β) :
    ∃ parts rest, List.Forall₂ Encodes (parser.stream input).1 parts ∧
      input = parts.flatten ++ rest ∧
        parser.stream rest = ([], (parser.stream input).2) := by
  induction shape : input.length using Nat.strongRecOn generalizing input with
  | ind bound ih =>
      rw [stream_eq progress input]
      cases parsed : parser input with
      | done value rest =>
          have shorter := progress input value rest parsed
          obtain ⟨part, first, rfl⟩ := (exact _ _ _).mp parsed
          obtain ⟨parts, last, encoded, rfl, ended⟩ := ih rest.length (shape ▸ shorter) rest rfl
          exact ⟨part :: parts, last, .cons first encoded,
            by rw [List.flatten_cons, List.append_assoc], ended⟩
      | more =>
          refine ⟨[], input, .nil, rfl, ?_⟩
          rw [stream_eq progress, parsed]
          rfl
      | bad error =>
          refine ⟨[], input, .nil, rfl, ?_⟩
          rw [stream_eq progress, parsed]
          rfl

/-- A stream has no value exactly when nothing is written at its front. -/
theorem Exact.stream_eq_nil_iff {Encodes : α → List β → Prop} (exact : Exact parser Encodes)
    (progress : Progress parser) (input : List β) :
    (parser.stream input).1 = [] ↔ ∀ value used, Encodes value used → ¬ used <+: input := by
  rw [stream_eq progress]
  cases parsed : parser input with
  | done value rest =>
      obtain ⟨used, encoded, rfl⟩ := (exact _ _ _).mp parsed
      constructor
      · intro empty
        contradiction
      · intro unwritten
        exact absurd (List.prefix_append used rest) (unwritten value used encoded)
  | more =>
      refine iff_of_true rfl ?_
      rintro value used encoded ⟨rest, rfl⟩
      have done := (exact _ value rest).mpr ⟨used, encoded, rfl⟩
      rw [parsed] at done
      contradiction
  | bad error =>
      refine iff_of_true rfl ?_
      rintro value used encoded ⟨rest, rfl⟩
      have done := (exact _ value rest).mpr ⟨used, encoded, rfl⟩
      rw [parsed] at done
      contradiction

/-! ## Rejections -/

/-- What the parser rejects offends; the symbols in front of an offence change
nothing. -/
structure Blames (parser : Parser β ε α) (Offends : ε → List β → Prop) : Prop where
  bad : ∀ {input error}, parser input = .bad error → Offends error input
  suffix : ∀ {input value rest}, parser input = .done value rest → rest <:+ input

namespace Blames

variable {Offends : ε → List β → Prop}

theorem pure (value : α) : Blames (pure value : Parser β ε α) Offends where
  bad := by
    rintro input error ⟨⟩
  suffix := by
    rintro input other rest ⟨⟩
    exact List.suffix_rfl

theorem fail {error : ε} (offends : ∀ input, Offends error input) :
    Blames (fail error : Parser β ε α) Offends where
  bad := by
    rintro input other ⟨⟩
    exact offends input
  suffix := by
    rintro input value rest ⟨⟩

theorem bind {parser : Parser β ε α} {next : α → Parser β ε γ} (first : Blames parser Offends)
    (second : ∀ value, Blames (next value) Offends)
    (behind : ∀ {error rest input}, rest <:+ input → Offends error rest → Offends error input) :
    Blames (parser >>= next) Offends where
  bad := by
    intro input error parsed
    rw [bind_apply] at parsed
    cases firstParsed : parser input with
    | done middle rest =>
        rw [firstParsed] at parsed
        exact behind (first.suffix firstParsed) ((second middle).bad parsed)
    | more =>
        rw [firstParsed] at parsed
        contradiction
    | bad other =>
        rw [firstParsed] at parsed
        cases parsed
        exact first.bad firstParsed
  suffix := by
    intro input value rest parsed
    obtain ⟨middle, middleRest, firstParsed, secondParsed⟩ := bind_eq_done_iff.mp parsed
    exact ((second middle).suffix secondParsed).trans (first.suffix firstParsed)

theorem times {parser : Parser β ε α} (blames : Blames parser Offends)
    (behind : ∀ {error rest input}, rest <:+ input → Offends error rest → Offends error input)
    (count : Nat) : Blames (parser.times count) Offends := by
  induction count with
  | zero => exact pure []
  | succ count ih =>
      exact blames.bind (fun value => ih.bind (fun values => pure (value :: values)) behind) behind

end Blames

/-- What a stream rejects offends. -/
theorem Blames.stream {parser : Parser β ε α} {Offends : ε → List β → Prop}
    (blames : Blames parser Offends) (progress : Progress parser)
    (behind : ∀ {error rest input}, rest <:+ input → Offends error rest → Offends error input)
    {input : List β} {error : ε} (ended : (parser.stream input).2 = .rejected error) :
    Offends error input := by
  induction shape : input.length using Nat.strongRecOn generalizing input with
  | ind bound ih =>
      rw [stream_eq progress] at ended
      cases parsed : parser input with
      | done value rest =>
          rw [parsed] at ended
          have shorter := progress input value rest parsed
          rw [shape] at shorter
          exact behind (blames.suffix parsed) (ih rest.length shorter ended rfl)
      | more =>
          rw [parsed] at ended
          contradiction
      | bad other =>
          rw [parsed] at ended
          cases ended
          exact blames.bad parsed

end Parser

end MCRedis.Parsing
