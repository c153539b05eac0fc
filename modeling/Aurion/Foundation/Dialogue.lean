import Aurion.Foundation.Program

/-!
# Dialogues of a program

A dialogue lists the requests of a program with the answers it got.  What a
program returns is a relation on dialogues, whoever answers and whenever: one
fixed function, or a shared state that other clients change in between.
-/

namespace Foundation.Program

variable {Op : Type} {Answer : Op → Type} {Value Next : Type}

/-- The program returns the value after this dialogue. -/
inductive Yields : Program Op Answer Value → List ((op : Op) × Answer op) → Value → Prop
  | done (value : Value) : Yields (.done value) [] value
  | request {op : Op} {resume : Answer op → Program Op Answer Value} {answer : Answer op}
      {dialogue : List ((op : Op) × Answer op)} {value : Value}
      (continues : Yields (resume answer) dialogue value) :
      Yields (.request op resume) (⟨op, answer⟩ :: dialogue) value

section Rules

variable {dialogue : List ((op : Op) × Answer op)}

theorem yields_done_iff (value value' : Value) :
    Yields (.done value : Program Op Answer Value) dialogue value' ↔
      dialogue = [] ∧ value = value' := by
  constructor
  · intro yields
    cases yields
    exact ⟨rfl, rfl⟩
  · intro both
    obtain ⟨rfl, rfl⟩ := both
    exact .done value

theorem yields_pure_iff (value value' : Value) :
    Yields (pure value : Program Op Answer Value) dialogue value' ↔
      dialogue = [] ∧ value = value' :=
  yields_done_iff value value'

theorem yields_request_iff (op : Op) (resume : Answer op → Program Op Answer Value)
    (value : Value) :
    Yields (.request op resume) dialogue value ↔
      ∃ answer rest, dialogue = ⟨op, answer⟩ :: rest ∧ Yields (resume answer) rest value := by
  constructor
  · intro yields
    cases yields with
    | request continues => exact ⟨_, _, rfl, continues⟩
  · intro found
    obtain ⟨answer, rest, rfl, continues⟩ := found
    exact .request continues

theorem yields_perform_iff (op : Op) (answer : Answer op) :
    Yields (perform op : Program Op Answer (Answer op)) dialogue answer ↔
      dialogue = [⟨op, answer⟩] := by
  rw [perform, yields_request_iff]
  simp only [yields_done_iff]
  constructor
  · intro found
    obtain ⟨_, _, rfl, rfl, rfl⟩ := found
    rfl
  · rintro rfl
    exact ⟨answer, [], rfl, rfl, rfl⟩

theorem yields_bind_iff (program : Program Op Answer Value)
    (next : Value → Program Op Answer Next) (value : Next) :
    Yields (program >>= next) dialogue value ↔
      ∃ first second middle, dialogue = first ++ second ∧ Yields program first middle ∧
        Yields (next middle) second value := by
  change Yields (program.bind next) dialogue value ↔ _
  induction program generalizing dialogue with
  | done middle =>
      constructor
      · intro yields
        exact ⟨[], dialogue, middle, rfl, .done middle, yields⟩
      · intro found
        obtain ⟨first, second, middle', rfl, returned, rest⟩ := found
        obtain ⟨rfl, rfl⟩ := (yields_done_iff _ _).mp returned
        exact rest
  | request op resume inductionHypothesis =>
      rw [Program.bind, yields_request_iff]
      constructor
      · intro found
        obtain ⟨answer, rest, rfl, continues⟩ := found
        obtain ⟨first, second, middle, rfl, begins, ends⟩ :=
          (inductionHypothesis answer).mp continues
        exact ⟨⟨op, answer⟩ :: first, second, middle, rfl, .request begins, ends⟩
      · intro found
        obtain ⟨first, second, middle, rfl, begins, ends⟩ := found
        obtain ⟨answer, rest, rfl, continues⟩ := (yields_request_iff _ _ _).mp begins
        exact ⟨answer, rest ++ second, rfl,
          (inductionHypothesis answer).mpr ⟨rest, second, middle, rfl, continues, ends⟩⟩

variable {Fault : Type}

/-- A fallible program succeeds step by step. -/
theorem yields_ok_bind_iff (program : ExceptT Fault (Program Op Answer) Value)
    (next : Value → ExceptT Fault (Program Op Answer) Next) (value : Next) :
    Yields (program >>= next).run dialogue (.ok value) ↔
      ∃ first second middle, dialogue = first ++ second ∧ Yields program.run first (.ok middle) ∧
        Yields (next middle).run second (.ok value) := by
  change Yields (program.run >>= ExceptT.bindCont next) dialogue (.ok value) ↔ _
  rw [yields_bind_iff]
  constructor
  · intro found
    obtain ⟨first, second, result, rfl, begins, ends⟩ := found
    cases result with
    | ok middle => exact ⟨first, second, middle, rfl, begins, ends⟩
    | error fault =>
        obtain ⟨-, impossible⟩ := (yields_pure_iff _ _).mp ends
        cases impossible
  · intro found
    obtain ⟨first, second, middle, rfl, begins, ends⟩ := found
    exact ⟨first, second, .ok middle, rfl, begins, ends⟩

theorem yields_ok_pure_iff (value value' : Value) :
    Yields (pure value : ExceptT Fault (Program Op Answer) Value).run dialogue (.ok value') ↔
      dialogue = [] ∧ value = value' := by
  refine (yields_pure_iff _ _).trans ?_
  rw [Except.ok.injEq]

theorem yields_settle_iff (check : Except Fault Value) (result : Except Fault Value) :
    Yields (settle check : ExceptT Fault (Program Op Answer) Value).run dialogue result ↔
      dialogue = [] ∧ check = result :=
  yields_pure_iff check result

theorem yields_lift_iff (program : Program Op Answer Value) (value : Value) :
    Yields (ExceptT.lift program : ExceptT Fault (Program Op Answer) Value).run dialogue
      (.ok value) ↔ Yields program dialogue value := by
  change Yields (program >>= fun value => pure (Except.ok value)) dialogue (.ok value) ↔ _
  rw [yields_bind_iff]
  constructor
  · intro found
    obtain ⟨first, second, middle, rfl, begins, ends⟩ := found
    obtain ⟨rfl, same⟩ := (yields_pure_iff _ _).mp ends
    cases same
    rwa [List.append_nil]
  · intro yields
    exact ⟨dialogue, [], value, (List.append_nil _).symm, yields, .done _⟩

theorem yields_ok_adapt_iff {Fault' : Type} (program : ExceptT Fault (Program Op Answer) Value)
    (relabel : Fault → Fault') (value : Value) :
    Yields (program.adapt relabel).run dialogue (.ok value) ↔
      Yields program.run dialogue (.ok value) := by
  change Yields (program.run >>= fun result => pure (result.mapError relabel)) dialogue _ ↔ _
  rw [yields_bind_iff]
  constructor
  · intro found
    obtain ⟨first, second, result, rfl, begins, ends⟩ := found
    obtain ⟨rfl, same⟩ := (yields_pure_iff _ _).mp ends
    rw [mapError_eq_ok_iff] at same
    rwa [List.append_nil, ← same]
  · intro yields
    exact ⟨dialogue, [], .ok value, (List.append_nil _).symm, yields, .done _⟩

/-- A fallible program ends with its first part's fault or goes on from its value. -/
theorem yields_except_bind_iff (program : ExceptT Fault (Program Op Answer) Value)
    (next : Value → ExceptT Fault (Program Op Answer) Next) (result : Except Fault Next) :
    Yields (program >>= next).run dialogue result ↔
      (∃ fault, Yields program.run dialogue (.error fault) ∧ .error fault = result) ∨
      ∃ first second middle, dialogue = first ++ second ∧ Yields program.run first (.ok middle) ∧
        Yields (next middle).run second result := by
  change Yields (program.run >>= ExceptT.bindCont next) dialogue result ↔ _
  rw [yields_bind_iff]
  constructor
  · intro found
    obtain ⟨first, second, middle, rfl, begins, ends⟩ := found
    cases middle with
    | error fault =>
        obtain ⟨rfl, same⟩ := (yields_pure_iff _ _).mp ends
        rw [List.append_nil]
        exact Or.inl ⟨fault, begins, same⟩
    | ok value => exact Or.inr ⟨first, second, value, rfl, begins, ends⟩
  · intro found
    obtain ⟨fault, begins, rfl⟩ | ⟨first, second, value, rfl, begins, ends⟩ := found
    · exact ⟨dialogue, [], .error fault, (List.append_nil _).symm, begins, .done _⟩
    · exact ⟨first, second, .ok value, rfl, begins, ends⟩

/-- A settled step either ends the program or takes no part in the dialogue. -/
theorem yields_settle_bind_iff (check : Except Fault Value)
    (next : Value → ExceptT Fault (Program Op Answer) Next) (result : Except Fault Next) :
    Yields (settle check >>= next).run dialogue result ↔
      (∃ fault, check = .error fault ∧ dialogue = [] ∧ .error fault = result) ∨
      ∃ value, check = .ok value ∧ Yields (next value).run dialogue result := by
  rw [yields_except_bind_iff]
  simp only [yields_settle_iff]
  constructor
  · intro found
    obtain ⟨fault, ⟨rfl, failed⟩, same⟩ | ⟨_, second, value, rfl, ⟨rfl, passed⟩, ends⟩ := found
    · exact Or.inl ⟨fault, failed, rfl, same⟩
    · exact Or.inr ⟨value, passed, ends⟩
  · intro found
    obtain ⟨fault, failed, rfl, same⟩ | ⟨value, passed, ends⟩ := found
    · exact Or.inl ⟨fault, ⟨rfl, failed⟩, same⟩
    · exact Or.inr ⟨[], dialogue, value, rfl, ⟨rfl, passed⟩, ends⟩

/-- A settled step at the end takes no part in the dialogue. -/
theorem yields_bind_settle_iff (program : ExceptT Fault (Program Op Answer) Value)
    (check : Value → Except Fault Next) (result : Except Fault Next) :
    Yields (program >>= fun value => settle (check value)).run dialogue result ↔
      ∃ first, Yields program.run dialogue first ∧ (first >>= check) = result := by
  rw [yields_except_bind_iff]
  simp only [yields_settle_iff]
  constructor
  · intro found
    obtain ⟨fault, failed, rfl⟩ | ⟨first, _, middle, rfl, returned, rfl, rfl⟩ := found
    · exact ⟨.error fault, failed, rfl⟩
    · exact ⟨.ok middle, by rwa [List.append_nil], rfl⟩
  · intro found
    obtain ⟨first, returned, rfl⟩ := found
    cases first with
    | error fault => exact Or.inl ⟨fault, returned, rfl⟩
    | ok middle => exact Or.inr ⟨dialogue, [], middle, (List.append_nil _).symm, returned, rfl, rfl⟩

/-- A request begins the dialogue whatever the program returns. -/
theorem yields_perform_bind_iff (op : Op)
    (next : Answer op → ExceptT Fault (Program Op Answer) Next) (result : Except Fault Next) :
    Yields (ExceptT.lift (perform op) >>= next).run dialogue result ↔
      ∃ answer rest, dialogue = ⟨op, answer⟩ :: rest ∧ Yields (next answer).run rest result :=
  yields_request_iff op (fun answer => (next answer).run) result

/-- A settled step takes no part in the dialogue. -/
theorem yields_ok_settle_bind_iff (check : Except Fault Value)
    (next : Value → ExceptT Fault (Program Op Answer) Next) (value : Next) :
    Yields (settle check >>= next).run dialogue (.ok value) ↔
      ∃ middle, check = .ok middle ∧ Yields (next middle).run dialogue (.ok value) := by
  rw [yields_ok_bind_iff]
  simp only [yields_settle_iff]
  constructor
  · intro found
    obtain ⟨_, second, middle, rfl, ⟨rfl, passed⟩, ends⟩ := found
    exact ⟨middle, passed, ends⟩
  · intro found
    obtain ⟨middle, passed, ends⟩ := found
    exact ⟨[], dialogue, middle, rfl, ⟨rfl, passed⟩, ends⟩

/-- A request begins the dialogue. -/
theorem yields_ok_perform_bind_iff (op : Op)
    (next : Answer op → ExceptT Fault (Program Op Answer) Next) (value : Next) :
    Yields (ExceptT.lift (perform op) >>= next).run dialogue (.ok value) ↔
      ∃ answer rest, dialogue = ⟨op, answer⟩ :: rest ∧
        Yields (next answer).run rest (.ok value) := by
  rw [yields_ok_bind_iff]
  simp only [yields_lift_iff, yields_perform_iff]
  constructor
  · intro found
    obtain ⟨_, second, answer, rfl, rfl, ends⟩ := found
    exact ⟨answer, second, rfl, ends⟩
  · intro found
    obtain ⟨answer, rest, rfl, ends⟩ := found
    exact ⟨[⟨op, answer⟩], rest, answer, rfl, rfl, ends⟩

end Rules

section Transcript

variable {State : Type} (handle : Handler Op Answer State)

/-- The dialogue of a program that runs alone. -/
def transcript : Program Op Answer Value → State → List ((op : Op) × Answer op)
  | .done _, _ => []
  | .request op resume, state =>
      ⟨op, (handle op state).1⟩ ::
        (resume (handle op state).1).transcript (handle op state).2

@[simp]
theorem transcript_pure (value : Value) (state : State) :
    (pure value : Program Op Answer Value).transcript handle state = [] := rfl

@[simp]
theorem transcript_bind (program : Program Op Answer Value)
    (next : Value → Program Op Answer Next) (state : State) :
    (program >>= next).transcript handle state = program.transcript handle state ++
      (next (program.run handle state).1).transcript handle (program.run handle state).2 := by
  change (program.bind next).transcript handle state = _
  induction program generalizing state with
  | done value => rfl
  | request op resume inductionHypothesis =>
      exact congrArg (List.cons _) (inductionHypothesis _ _)

/-- A fallible program that runs alone either ends with its first part or goes
on from there. -/
theorem except_bind_cases {Fault : Type} (program : ExceptT Fault (Program Op Answer) Value)
    (next : Value → ExceptT Fault (Program Op Answer) Next) (state : State) :
    (∃ fault, (program.run.run handle state).1 = .error fault ∧
      (program >>= next).run.run handle state =
        (.error fault, (program.run.run handle state).2) ∧
      (program >>= next).run.transcript handle state = program.run.transcript handle state) ∨
    ∃ value, (program.run.run handle state).1 = .ok value ∧
      (program >>= next).run.run handle state =
        (next value).run.run handle (program.run.run handle state).2 ∧
      (program >>= next).run.transcript handle state = program.run.transcript handle state ++
        (next value).run.transcript handle (program.run.run handle state).2 := by
  have continues : (program >>= next).run = program.run >>= ExceptT.bindCont next := rfl
  rw [continues, run_bind, transcript_bind]
  cases result : (program.run.run handle state).1 with
  | error fault => exact Or.inl ⟨fault, rfl, rfl, List.append_nil _⟩
  | ok value => exact Or.inr ⟨value, rfl, rfl, rfl⟩

end Transcript

section Evaluation

/-- The value of a program whose requests one function answers. -/
def evaluate (answers : (op : Op) → Answer op) : Program Op Answer Value → Value
  | .done value => value
  | .request op resume => (resume (answers op)).evaluate answers

theorem evaluate_bind (answers : (op : Op) → Answer op) (program : Program Op Answer Value)
    (next : Value → Program Op Answer Next) :
    (program >>= next).evaluate answers = (next (program.evaluate answers)).evaluate answers := by
  change (program.bind next).evaluate answers = _
  induction program with
  | done value => rfl
  | request op resume inductionHypothesis => exact inductionHypothesis (answers op)

/-- A fallible program is evaluated step by step. -/
theorem evaluate_except_bind {Fault : Type} (answers : (op : Op) → Answer op)
    (program : ExceptT Fault (Program Op Answer) Value)
    (next : Value → ExceptT Fault (Program Op Answer) Next) :
    (program >>= next).run.evaluate answers =
      program.run.evaluate answers >>= fun value => (next value).run.evaluate answers := by
  change (program.run >>= ExceptT.bindCont next).evaluate answers = _
  rw [evaluate_bind]
  cases program.run.evaluate answers <;> rfl

theorem evaluate_settle_bind {Fault : Type} (answers : (op : Op) → Answer op)
    (check : Except Fault Value) (next : Value → ExceptT Fault (Program Op Answer) Next) :
    (settle check >>= next).run.evaluate answers =
      check >>= fun value => (next value).run.evaluate answers :=
  evaluate_except_bind answers (settle check) next

theorem evaluate_perform_bind {Fault : Type} (answers : (op : Op) → Answer op) (op : Op)
    (next : Answer op → ExceptT Fault (Program Op Answer) Next) :
    (ExceptT.lift (perform op) >>= next).run.evaluate answers =
      (next (answers op)).run.evaluate answers := rfl

theorem evaluate_eq_iff (answers : (op : Op) → Answer op) (program : Program Op Answer Value)
    (value : Value) :
    program.evaluate answers = value ↔
      ∃ dialogue, Yields program dialogue value ∧
        ∀ exchange ∈ dialogue, exchange.2 = answers exchange.1 := by
  induction program with
  | done value' =>
      simp only [evaluate, yields_done_iff]
      exact ⟨fun same => ⟨[], ⟨rfl, same⟩, by simp⟩, fun ⟨_, ⟨_, same⟩, _⟩ => same⟩
  | request op resume inductionHypothesis =>
      rw [evaluate, inductionHypothesis]
      constructor
      · intro found
        obtain ⟨dialogue, continues, answered⟩ := found
        exact ⟨_, .request continues, List.forall_mem_cons.mpr ⟨rfl, answered⟩⟩
      · intro found
        obtain ⟨dialogue, yields, answered⟩ := found
        obtain ⟨answer, rest, rfl, continues⟩ := (yields_request_iff _ _ _).mp yields
        obtain ⟨same, answeredRest⟩ := List.forall_mem_cons.mp answered
        obtain rfl : answer = answers op := same
        exact ⟨rest, continues, answeredRest⟩

end Evaluation

section Translation

variable {Op' : Type} {Answer' : Op' → Type}

/-- Replace every request by a program over another interface. -/
def through (interpret : (op : Op) → Program Op' Answer' (Answer op)) :
    Program Op Answer Value → Program Op' Answer' Value
  | .done value => .done value
  | .request op resume => interpret op >>= fun answer => (resume answer).through interpret

end Translation

end Foundation.Program
