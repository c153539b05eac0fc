import Aurion.Foundation.Check
import Mathlib.Logic.Function.Basic

/-!
# Programs over a shared state

A program asks a shared state one request at a time; each request is answered
atomically.  A program runs alone, or several clients take turns under a
schedule.  For two clients that read and then write at most once, the turns
amount to a serial run as long as no write falls between a sensitive read of
the other client and a later request of that client.
-/

namespace Foundation

/-- A program is a value or a request together with what to do with its answer. -/
inductive Program (Op : Type) (Answer : Op → Type) (Value : Type) : Type
  | done (value : Value)
  | request (op : Op) (resume : Answer op → Program Op Answer Value)

/-- How a state answers a request and what it becomes. -/
abbrev Handler (Op : Type) (Answer : Op → Type) (State : Type) :=
  (op : Op) → State → Answer op × State

namespace Program

variable {Op : Type} {Answer : Op → Type} {Value Next State : Type}

def bind : Program Op Answer Value → (Value → Program Op Answer Next) → Program Op Answer Next
  | .done value, next => next value
  | .request op resume, next => .request op fun answer => (resume answer).bind next

instance : Monad (Program Op Answer) where
  pure := .done
  bind := bind

def perform (op : Op) : Program Op Answer (Answer op) := .request op .done

/-- Run a program alone. -/
def run (handle : Handler Op Answer State) : Program Op Answer Value → State → Value × State
  | .done value, state => (value, state)
  | .request op resume, state =>
      (resume (handle op state).1).run handle (handle op state).2

/-- The value of a finished program. -/
def value? : Program Op Answer Value → Option Value
  | .done value => some value
  | .request _ _ => none

/-- The request a program makes next. -/
def op? : Program Op Answer Value → Option Op
  | .done _ => none
  | .request op _ => some op

theorem value?_eq_some_iff (program : Program Op Answer Value) (value : Value) :
    program.value? = some value ↔ program = .done value := by
  cases program <;> simp [value?]

variable (handle : Handler Op Answer State)

@[simp]
theorem run_done (value : Value) (state : State) :
    (Program.done value : Program Op Answer Value).run handle state = (value, state) := rfl

@[simp]
theorem run_request (op : Op) (resume : Answer op → Program Op Answer Value) (state : State) :
    (Program.request op resume).run handle state =
      (resume (handle op state).1).run handle (handle op state).2 := rfl

@[simp]
theorem run_pure (value : Value) (state : State) :
    (pure value : Program Op Answer Value).run handle state = (value, state) := rfl

@[simp]
theorem run_perform (op : Op) (state : State) :
    (perform op : Program Op Answer (Answer op)).run handle state = handle op state := rfl

@[simp]
theorem run_bind (program : Program Op Answer Value) (next : Value → Program Op Answer Next)
    (state : State) :
    (program >>= next).run handle state =
      (next (program.run handle state).1).run handle (program.run handle state).2 := by
  change (program.bind next).run handle state = _
  induction program generalizing state with
  | done value => rfl
  | request op resume inductionHypothesis => exact inductionHypothesis _ _

/-- Under the handler's answers, no request changes the state or is a write. -/
def ReadOnly (write : Op → Bool) : Program Op Answer Value → Prop
  | .done _ => True
  | .request op resume => write op = false ∧
      ∀ state, (handle op state).2 = state ∧ (resume (handle op state).1).ReadOnly write

/-- Under the handler's answers, the program writes at most once and then ends;
no other request of it changes the state. -/
def SingleWrite (write : Op → Bool) : Program Op Answer Value → Prop
  | .done _ => True
  | .request op resume =>
      if write op then ∀ state, ∃ value, resume (handle op state).1 = .done value
      else ∀ state, (handle op state).2 = state ∧
        (resume (handle op state).1).SingleWrite write

variable {handle} {write : Op → Bool}

theorem ReadOnly.bind {program : Program Op Answer Value}
    {next : Value → Program Op Answer Next} (readOnly : program.ReadOnly handle write)
    (rest : ∀ value, (next value).ReadOnly handle write) :
    (program >>= next).ReadOnly handle write := by
  change (program.bind next).ReadOnly handle write
  induction program with
  | done value => exact rest value
  | request op resume inductionHypothesis =>
      exact ⟨readOnly.1, fun state => ⟨(readOnly.2 state).1,
        inductionHypothesis _ (readOnly.2 state).2⟩⟩

theorem SingleWrite.bind {program : Program Op Answer Value}
    {next : Value → Program Op Answer Next} (readOnly : program.ReadOnly handle write)
    (rest : ∀ value, (next value).SingleWrite handle write) :
    (program >>= next).SingleWrite handle write := by
  change (program.bind next).SingleWrite handle write
  induction program with
  | done value => exact rest value
  | request op resume inductionHypothesis =>
      simp only [Program.bind, SingleWrite, readOnly.1, Bool.false_eq_true, if_false]
      exact fun state => ⟨(readOnly.2 state).1, inductionHypothesis _ (readOnly.2 state).2⟩

section Fallible

variable {Fault : Type}

theorem ReadOnly.except_bind {program : ExceptT Fault (Program Op Answer) Value}
    {next : Value → ExceptT Fault (Program Op Answer) Next}
    (readOnly : program.run.ReadOnly handle write)
    (rest : ∀ value, (next value).run.ReadOnly handle write) :
    (program >>= next).run.ReadOnly handle write := by
  apply ReadOnly.bind readOnly
  intro result
  cases result with
  | ok value => exact rest value
  | error fault => exact trivial

theorem SingleWrite.except_bind {program : ExceptT Fault (Program Op Answer) Value}
    {next : Value → ExceptT Fault (Program Op Answer) Next}
    (readOnly : program.run.ReadOnly handle write)
    (rest : ∀ value, (next value).run.SingleWrite handle write) :
    (program >>= next).run.SingleWrite handle write := by
  apply SingleWrite.bind readOnly
  intro result
  cases result with
  | ok value => exact rest value
  | error fault => exact trivial

theorem ReadOnly.adapt {Fault' : Type} {program : ExceptT Fault (Program Op Answer) Value}
    (readOnly : program.run.ReadOnly handle write) (relabel : Fault → Fault') :
    (program.adapt relabel).run.ReadOnly handle write :=
  ReadOnly.bind readOnly fun _ => trivial

end Fallible

section Settled

variable (handle) {Fault : Type}

/-- Run from the state, the program leaves it alone and returns what the
validator does. -/
def Settles (state : State) (program : ExceptT Fault (Program Op Answer) Value)
    (validator : ExceptT Fault Id Value) : Prop :=
  program.run.run handle state = (outcome validator, state)

variable {handle} {state : State}

theorem Settles.pure (value : Value) :
    Settles handle state (Pure.pure value : ExceptT Fault (Program Op Answer) Value)
      (Pure.pure value) := rfl

theorem Settles.settle (check : Except Fault Value) :
    Settles handle state (Foundation.settle check : ExceptT Fault (Program Op Answer) Value)
      (Foundation.settle check) := rfl

theorem Settles.lift {program : Program Op Answer Value} {answer : Id Value}
    (ran : program.run handle state = (answer.run, state)) :
    Settles handle state (ExceptT.lift program : ExceptT Fault (Program Op Answer) Value)
      (ExceptT.lift answer) := by
  change (program >>= fun value => Pure.pure (Except.ok value)).run handle state = _
  rw [run_bind, ran]
  rfl

theorem Settles.bind {program : ExceptT Fault (Program Op Answer) Value}
    {validator : ExceptT Fault Id Value}
    {next : Value → ExceptT Fault (Program Op Answer) Next}
    {rest : Value → ExceptT Fault Id Next} (settles : Settles handle state program validator)
    (continues : ∀ value, Settles handle state (next value) (rest value)) :
    Settles handle state (program >>= next) (validator >>= rest) := by
  change (program.run >>= ExceptT.bindCont next).run handle state = _
  rw [run_bind, settles]
  rw [outcome_bind]
  cases outcome validator with
  | error fault => rfl
  | ok value => exact continues value

theorem Settles.adapt {Fault' : Type} {program : ExceptT Fault (Program Op Answer) Value}
    {validator : ExceptT Fault Id Value} (settles : Settles handle state program validator)
    (relabel : Fault → Fault') :
    Settles handle state (program.adapt relabel) (validator.adapt relabel) := by
  change (program.run >>= fun result => Pure.pure (result.mapError relabel)).run handle state = _
  rw [run_bind, settles, outcome_adapt]
  rfl

end Settled

end Program

/-- Clients that share one state. -/
structure Pool (Client Op : Type) (Answer : Op → Type) (Value State : Type) where
  programs : Client → Program Op Answer Value
  shared : State

namespace Pool

variable {Client Op : Type} {Answer : Op → Type} {Value State : Type} [DecidableEq Client]
  (handle : Handler Op Answer State)

/-- One turn: the client has its next request answered; a finished client waits. -/
def turn (pool : Pool Client Op Answer Value State) (client : Client) :
    Pool Client Op Answer Value State :=
  match pool.programs client with
  | .done _ => pool
  | .request op resume =>
      { programs := Function.update pool.programs client (resume (handle op pool.shared).1)
        shared := (handle op pool.shared).2 }

def run (schedule : List Client) (pool : Pool Client Op Answer Value State) :
    Pool Client Op Answer Value State :=
  schedule.foldl (turn handle) pool

/-- The requests answered under a schedule, in order, each with its client. -/
def trace : List Client → Pool Client Op Answer Value State → List (Client × Op)
  | [], _ => []
  | client :: schedule, pool =>
      match pool.programs client with
      | .done _ => trace schedule pool
      | .request op _ => (client, op) :: trace schedule (pool.turn handle client)

@[simp]
theorem run_nil (pool : Pool Client Op Answer Value State) : pool.run handle [] = pool := rfl

@[simp]
theorem run_cons (client : Client) (schedule : List Client)
    (pool : Pool Client Op Answer Value State) :
    pool.run handle (client :: schedule) = (pool.turn handle client).run handle schedule := rfl

theorem turn_of_done {pool : Pool Client Op Answer Value State} {client : Client} {value : Value}
    (done : pool.programs client = .done value) : pool.turn handle client = pool := by
  simp [turn, done]

theorem turn_of_request {pool : Pool Client Op Answer Value State} {client : Client} {op : Op}
    {resume : Answer op → Program Op Answer Value}
    (next : pool.programs client = .request op resume) :
    pool.turn handle client =
      { programs := Function.update pool.programs client (resume (handle op pool.shared).1)
        shared := (handle op pool.shared).2 } := by
  simp [turn, next]

theorem run_of_done (schedule : List Client) (pool : Pool Client Op Answer Value State)
    (done : ∀ client, ∃ value, pool.programs client = .done value) :
    pool.run handle schedule = pool := by
  induction schedule with
  | nil => rfl
  | cons next schedule inductionHypothesis =>
      obtain ⟨value, finished⟩ := done next
      rw [run_cons, turn_of_done handle finished, inductionHypothesis]

/-- Once every other client is finished, the remaining one runs alone. -/
theorem run_solo {client : Client} (schedule : List Client)
    (pool : Pool Client Op Answer Value State)
    (others : ∀ other, other ≠ client → ∃ value, pool.programs other = .done value)
    {value : Value} (finished : (pool.run handle schedule).programs client = .done value) :
    (pool.programs client).run handle pool.shared =
        (value, (pool.run handle schedule).shared) ∧
      ∀ other, other ≠ client →
        (pool.run handle schedule).programs other = pool.programs other := by
  induction schedule generalizing pool with
  | nil => simp_all
  | cons next schedule inductionHypothesis =>
      rw [run_cons] at finished ⊢
      by_cases same : next = client
      · subst same
        cases program : pool.programs next with
        | done value' =>
            rw [turn_of_done handle program] at finished ⊢
            simpa [program] using inductionHypothesis pool others finished
        | request op resume =>
            rw [turn_of_request handle program] at finished ⊢
            have step := inductionHypothesis _ (by
              intro other different
              simpa [Function.update_of_ne different] using others other different) finished
            refine ⟨by simpa using step.1, fun other different => ?_⟩
            simpa [Function.update_of_ne different] using step.2 other different
      · obtain ⟨value', done⟩ := others next same
        rw [turn_of_done handle done] at finished ⊢
        exact inductionHypothesis pool others finished

/-- A schedule splits where its trace does. -/
theorem exists_split_of_trace (schedule : List Client)
    (pool : Pool Client Op Answer Value State) {before after : List (Client × Op)}
    {client : Client} {op : Op}
    (split : trace handle schedule pool = before ++ (client, op) :: after) :
    ∃ early late resume, schedule = early ++ client :: late ∧
      trace handle early pool = before ∧
      (pool.run handle early).programs client = .request op resume ∧
      trace handle late ((pool.run handle early).turn handle client) = after := by
  induction schedule generalizing pool before with
  | nil => simp [trace] at split
  | cons next schedule inductionHypothesis =>
      cases program : pool.programs next with
      | done value =>
          simp only [trace, program] at split
          rcases inductionHypothesis pool split with
            ⟨early, late, resume, equality, earlyTrace, request, lateTrace⟩
          refine ⟨next :: early, late, resume, by rw [equality]; rfl, ?_, ?_, ?_⟩
          · simp [trace, program, earlyTrace]
          · rwa [run_cons, turn_of_done handle program]
          · rwa [run_cons, turn_of_done handle program]
      | request op' resume' =>
          simp only [trace, program] at split
          cases before with
          | nil =>
              simp only [List.nil_append, List.cons.injEq, Prod.mk.injEq] at split
              obtain ⟨⟨rfl, rfl⟩, rest⟩ := split
              exact ⟨[], schedule, resume', rfl, rfl, program, rest⟩
          | cons event before =>
              simp only [List.cons_append, List.cons.injEq] at split
              rcases inductionHypothesis (pool.turn handle next) split.2 with
                ⟨early, late, resume, equality, earlyTrace, request, lateTrace⟩
              refine ⟨next :: early, late, resume, by rw [equality]; rfl, ?_, ?_, ?_⟩
              · simp [trace, program, earlyTrace, split.1]
              · rwa [run_cons]
              · rwa [run_cons]

/-- A client without further turns has already finished. -/
theorem programs_of_absent {client : Client} (schedule : List Client)
    (pool : Pool Client Op Answer Value State)
    (absent : ∀ event ∈ trace handle schedule pool, event.1 ≠ client) :
    (pool.run handle schedule).programs client = pool.programs client := by
  induction schedule generalizing pool with
  | nil => rfl
  | cons next schedule inductionHypothesis =>
      rw [run_cons]
      cases program : pool.programs next with
      | done value =>
          rw [turn_of_done handle program]
          exact inductionHypothesis pool (by simpa [trace, program] using absent)
      | request op resume =>
          simp only [trace, program, List.mem_cons, forall_eq_or_imp] at absent
          rw [inductionHypothesis _ absent.2, turn_of_request handle program]
          exact Function.update_of_ne absent.1.symm _ _

section ReadPhase

/-- While no request changes the shared state, it stands still, a client's
remaining program finishes as its whole program would, and a client that has
made no sensitive request would also do so from any state answering the others
alike. -/
theorem readPhase (sensitive : Op → Bool) (schedule : List Client)
    (pool : Pool Client Op Answer Value State)
    (keeps : ∀ event ∈ trace handle schedule pool, ∀ state, (handle event.2 state).2 = state) :
    (pool.run handle schedule).shared = pool.shared ∧
      ∀ client,
        ((pool.run handle schedule).programs client).run handle pool.shared =
            (pool.programs client).run handle pool.shared ∧
          ∀ other, (∀ op, sensitive op = false → (handle op other).1 = (handle op pool.shared).1) →
            (∀ event ∈ trace handle schedule pool, event.1 = client →
              sensitive event.2 = false) →
            ((pool.run handle schedule).programs client).run handle other =
              (pool.programs client).run handle other := by
  induction schedule generalizing pool with
  | nil => simp
  | cons next schedule inductionHypothesis =>
      rw [run_cons]
      cases program : pool.programs next with
      | done value =>
          rw [turn_of_done handle program]
          simp only [trace, program] at keeps ⊢
          exact inductionHypothesis pool keeps
      | request op resume =>
          simp only [trace, program, List.mem_cons, forall_eq_or_imp] at keeps ⊢
          have still : (handle op pool.shared).2 = pool.shared := keeps.1 _
          have turned := turn_of_request handle program
          rw [still] at turned
          obtain ⟨shared, clients⟩ := inductionHypothesis (pool.turn handle next) keeps.2
          rw [turned] at shared clients ⊢
          refine ⟨shared, fun client => ⟨?_, fun other agree quiet => ?_⟩⟩
          · rw [(clients client).1]
            by_cases same : client = next
            · subst same
              simp [program, still]
            · simp [Function.update_of_ne same]
          · rw [(clients client).2 other agree quiet.2]
            by_cases same : client = next
            · subst same
              have sameAnswer := agree op (quiet.1 rfl)
              have otherStill := keeps.1 other
              simp [program, sameAnswer, otherStill]
            · simp [Function.update_of_ne same]

variable {write : Op → Bool}

/-- Single-write programs keep the shared state until the first write, and
stay single-write. -/
theorem keeps_of_singleWrite (schedule : List Client) (pool : Pool Client Op Answer Value State)
    (single : ∀ client, (pool.programs client).SingleWrite handle write)
    (noWrite : ∀ event ∈ trace handle schedule pool, write event.2 = false) :
    (∀ event ∈ trace handle schedule pool, ∀ state, (handle event.2 state).2 = state) ∧
      ∀ client, ((pool.run handle schedule).programs client).SingleWrite handle write := by
  induction schedule generalizing pool with
  | nil => exact ⟨by simp [trace], single⟩
  | cons next schedule inductionHypothesis =>
      rw [run_cons]
      cases program : pool.programs next with
      | done value =>
          rw [turn_of_done handle program]
          simp only [trace, program] at noWrite ⊢
          exact inductionHypothesis pool single noWrite
      | request op resume =>
          simp only [trace, program, List.mem_cons, forall_eq_or_imp] at noWrite ⊢
          have nextSingle := single next
          simp only [program, Program.SingleWrite, noWrite.1, Bool.false_eq_true, if_false]
            at nextSingle
          obtain ⟨keeps, singleAfter⟩ := inductionHypothesis (pool.turn handle next) (by
            intro client
            rw [turn_of_request handle program]
            by_cases same : client = next
            · subst same
              simpa using (nextSingle _).2
            · simpa [Function.update_of_ne same] using single client) noWrite.2
          exact ⟨⟨fun state => (nextSingle state).1, keeps⟩, singleAfter⟩

end ReadPhase

end Pool

/-- The two parties of a pairwise concurrent run. -/
inductive Party
  | left
  | right
  deriving DecidableEq, Repr

def Party.other : Party → Party
  | .left => .right
  | .right => .left

@[simp]
theorem Party.other_ne (party : Party) : party.other ≠ party := by cases party <;> decide

@[simp]
theorem Party.other_other (party : Party) : party.other.other = party := by cases party <;> rfl

theorem Party.eq_other_of_ne {first second : Party} (different : first ≠ second) :
    first = second.other := by
  cases first <;> cases second <;> first | rfl | exact absurd rfl different

namespace Pool

variable {Op : Type} {Answer : Op → Type} {Value State : Type}
  (handle : Handler Op Answer State)

/-- No write of one party falls between a sensitive request of the other party
and a later request of that party. -/
def Undisturbed (write sensitive : Op → Bool) (events : List (Party × Op)) : Prop :=
  ∀ step ∈ events.zipIdx, write step.1.2 = true →
    (∀ event ∈ events.take step.2, event.1 = step.1.1.other → sensitive event.2 = false) ∨
      ∀ event ∈ events.drop (step.2 + 1), event.1 ≠ step.1.1.other

theorem Undisturbed.at_split {write sensitive : Op → Bool} {before after : List (Party × Op)}
    {party : Party} {op : Op}
    (undisturbed : Undisturbed write sensitive (before ++ (party, op) :: after))
    (writes : write op = true) :
    (∀ event ∈ before, event.1 = party.other → sensitive event.2 = false) ∨
      ∀ event ∈ after, event.1 ≠ party.other := by
  have position : ((party, op), before.length) ∈ (before ++ (party, op) :: after).zipIdx := by
    rw [List.mem_zipIdx_iff_getElem?]
    simp
  have split := undisturbed _ position writes
  have late : (before ++ (party, op) :: after).drop (before.length + 1) = after := by
    simp [List.drop_append]
  rwa [List.take_left, late] at split

/-- The final pool is that of running one party to its end and then the other. -/
def SerialFrom (pool final : Pool Party Op Answer Value State) (first : Party) : Prop :=
  ∃ firstValue middle secondValue,
    (pool.programs first).run handle pool.shared = (firstValue, middle) ∧
      (pool.programs first.other).run handle middle = (secondValue, final.shared) ∧
      final.programs first = .done firstValue ∧ final.programs first.other = .done secondValue

variable {write sensitive : Op → Bool}

/-- Two programs that each write at most once, as their last request, and are
not disturbed between a sensitive request and their end, run serially. -/
theorem serial_of_undisturbed
    (insensitive : ∀ op op' state, write op = true → sensitive op' = false →
      (handle op' (handle op state).2).1 = (handle op' state).1)
    (pool : Pool Party Op Answer Value State)
    (single : ∀ party, (pool.programs party).SingleWrite handle write) (schedule : List Party)
    (finished : ∀ party, ∃ value, (pool.run handle schedule).programs party = .done value)
    (undisturbed : Undisturbed write sensitive (trace handle schedule pool)) :
    ∃ first, SerialFrom handle pool (pool.run handle schedule) first := by
  cases found : (trace handle schedule pool).find? fun event => write event.2 with
  | none =>
      -- Nobody writes: both parties see the initial state throughout.
      rw [List.find?_eq_none] at found
      obtain ⟨keeps, -⟩ := keeps_of_singleWrite handle schedule pool single (by simpa using found)
      obtain ⟨shared, clients⟩ := readPhase handle sensitive schedule pool keeps
      obtain ⟨leftValue, leftDone⟩ := finished .left
      obtain ⟨rightValue, rightDone⟩ := finished .right
      have leftRun := (clients .left).1
      have rightRun := (clients .right).1
      rw [leftDone, Program.run_done] at leftRun
      rw [rightDone, Program.run_done] at rightRun
      exact ⟨.left, leftValue, pool.shared, rightValue, leftRun.symm,
        by rw [shared]; exact rightRun.symm, leftDone, rightDone⟩
  | some event =>
      obtain ⟨writes, before, after, split, noWrite⟩ := List.find?_eq_some_iff_append.mp found
      rcases event with ⟨writer, op⟩
      obtain ⟨early, late, resume, schedule_eq, earlyTrace, request, lateTrace⟩ :=
        exists_split_of_trace handle schedule pool split
      have quietEarly : ∀ event ∈ trace handle early pool, write event.2 = false := by
        intro event membership
        rw [earlyTrace] at membership
        simpa using noWrite event membership
      obtain ⟨keeps, singleAfter⟩ := keeps_of_singleWrite handle early pool single quietEarly
      obtain ⟨shared, clients⟩ := readPhase handle sensitive early pool keeps
      have writerSingle := singleAfter writer
      rw [request] at writerSingle
      simp only [Program.SingleWrite, writes, if_true] at writerSingle
      obtain ⟨writerValue, resumed⟩ := writerSingle pool.shared
      have afterWrite := turn_of_request handle request
      rw [shared, resumed] at afterWrite
      have writerRun : (pool.programs writer).run handle pool.shared =
          (writerValue, (handle op pool.shared).2) := by
        rw [← (clients writer).1, request, Program.run_request, resumed, Program.run_done]
      have final : pool.run handle schedule =
          ((pool.run handle early).turn handle writer).run handle late := by
        rw [schedule_eq]
        simp [run]
      rw [final] at finished ⊢
      rw [afterWrite] at finished lateTrace ⊢
      have writerDone : ∃ value, (Function.update (pool.run handle early).programs writer
          (Program.done writerValue)) writer = .done value := ⟨writerValue, by simp⟩
      rw [split] at undisturbed
      rcases undisturbed.at_split writes with unseen | gone
      · -- The other party had seen nothing the write changes: it runs after the writer.
        obtain ⟨otherValue, otherDone⟩ := finished writer.other
        obtain ⟨soloRun, rest⟩ := run_solo handle late _ (fun other different => by
          rw [Party.eq_other_of_ne different]
          cases writer <;> exact writerDone) otherDone
        refine ⟨writer, writerValue, (handle op pool.shared).2, otherValue, writerRun, ?_, ?_,
          otherDone⟩
        · rw [← (clients writer.other).2 _ (fun op' quiet => insensitive op op' _ writes quiet)
            (by rw [earlyTrace]; exact unseen)]
          simpa [Function.update_of_ne writer.other_ne] using soloRun
        · rw [rest writer (writer.other_ne).symm]
          simp
      · -- The other party has already finished: it ran before the writer.
        obtain ⟨otherValue, otherDone⟩ := finished writer.other
        have otherBefore := programs_of_absent handle late _ (by rw [lateTrace]; exact gone)
        rw [otherDone] at otherBefore
        simp only [Function.update_of_ne writer.other_ne] at otherBefore
        have otherRun := (clients writer.other).1
        rw [← otherBefore, Program.run_done] at otherRun
        rw [run_of_done handle late _ (fun party => by
          by_cases same : party = writer
          · exact same ▸ writerDone
          · rw [Party.eq_other_of_ne same]
            exact ⟨otherValue, by simp [otherBefore]⟩)]
        refine ⟨writer.other, otherValue, pool.shared, writerValue, otherRun.symm, ?_, ?_, ?_⟩
        · rw [Party.other_other]
          exact writerRun
        · simp [otherBefore]
        · simp

end Pool

end Foundation
