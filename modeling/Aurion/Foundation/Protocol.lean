import Aurion.Foundation.Dialogue
import Aurion.Foundation.Steps

/-!
# Protocols of concurrent clients

A service answers one request of one client at a time and may keep a client
waiting.  What a client may ask depends on its mode, which the answers change.
An invariant that every allowed request keeps holds after every schedule of
clients that obey the protocol.
-/

namespace Foundation

/-- How a shared state answers a client, unless the client has to wait. -/
abbrev Service (Client Op : Type) (Answer : Op → Type) (State : Type) :=
  Client → (op : Op) → State → Option (Answer op × State)

namespace Pool

variable {Client Op : Type} {Answer : Op → Type} {Value State : Type} [DecidableEq Client]

/-- One turn under a service: a client that is finished or has to wait stays. -/
def advance (serve : Service Client Op Answer State) (pool : Pool Client Op Answer Value State)
    (client : Client) : Pool Client Op Answer Value State :=
  match pool.programs client with
  | .done _ => pool
  | .request op resume =>
      match serve client op pool.shared with
      | none => pool
      | some (answer, shared) =>
          { programs := Function.update pool.programs client (resume answer), shared }

theorem advance_cases (serve : Service Client Op Answer State)
    (pool : Pool Client Op Answer Value State) (client : Client) :
    pool.advance serve client = pool ∨
      ∃ op resume answer shared, pool.programs client = .request op resume ∧
        serve client op pool.shared = some (answer, shared) ∧
        pool.advance serve client =
          { programs := Function.update pool.programs client (resume answer), shared } := by
  cases program : pool.programs client with
  | done value => exact Or.inl (by simp only [advance, program])
  | request op resume =>
      cases served : serve client op pool.shared with
      | none => exact Or.inl (by simp only [advance, program, served])
      | some result =>
          exact Or.inr ⟨op, resume, result.1, result.2, rfl, served,
            by simp only [advance, program, served]⟩

theorem programs_advance_of_ne (serve : Service Client Op Answer State)
    (pool : Pool Client Op Answer Value State) {client other : Client}
    (different : other ≠ client) :
    (pool.advance serve client).programs other = pool.programs other := by
  rcases pool.advance_cases serve client with stays | ⟨op, resume, answer, shared, -, -, advanced⟩
  · rw [stays]
  · rw [advanced]
    exact Function.update_of_ne different _ _

/-- A client that takes no turn stays where it is. -/
theorem programs_run_of_notMem (serve : Service Client Op Answer State)
    (pool : Pool Client Op Answer Value State) {schedule : List Client} {client : Client}
    (absent : client ∉ schedule) :
    (Steps.run (advance serve) pool schedule).programs client = pool.programs client := by
  induction schedule using List.reverseRecOn with
  | nil => rfl
  | append_singleton schedule last inductionHypothesis =>
      rw [List.mem_append, not_or, List.mem_singleton] at absent
      rw [Steps.run_concat, programs_advance_of_ne serve _ absent.2, inductionHypothesis absent.1]

end Pool

namespace Program

variable {Op Value Next : Type} {Answer : Op → Type} {permits : Op → Prop}

/-- Whatever the answers, the program makes permitted requests only. -/
def Only (permits : Op → Prop) : Program Op Answer Value → Prop
  | .done _ => True
  | .request op resume => permits op ∧ ∀ answer, (resume answer).Only permits

theorem Only.bind {program : Program Op Answer Value} {next : Value → Program Op Answer Next}
    (only : program.Only permits) (rest : ∀ value, (next value).Only permits) :
    (program >>= next).Only permits := by
  change (program.bind next).Only permits
  induction program with
  | done value => exact rest value
  | request op resume inductionHypothesis =>
      exact ⟨only.1, fun answer => inductionHypothesis answer (only.2 answer)⟩

theorem Only.except_bind {Fault : Type} {program : ExceptT Fault (Program Op Answer) Value}
    {next : Value → ExceptT Fault (Program Op Answer) Next} (only : program.run.Only permits)
    (rest : ∀ value, (next value).run.Only permits) : (program >>= next).run.Only permits := by
  apply Only.bind only
  intro result
  cases result with
  | ok value => exact rest value
  | error fault => exact trivial

theorem Only.lift {Fault : Type} {program : Program Op Answer Value} (only : program.Only permits) :
    (ExceptT.lift program : ExceptT Fault (Program Op Answer) Value).run.Only permits :=
  Only.bind only fun _ => trivial

theorem Only.through {Op' : Type} {Answer' : Op' → Type}
    {interpret : (op : Op') → Program Op Answer (Answer' op)}
    (only : ∀ op, (interpret op).Only permits) (program : Program Op' Answer' Value) :
    (program.through interpret).Only permits := by
  induction program with
  | done value => exact trivial
  | request op resume inductionHypothesis => exact Only.bind (only op) inductionHypothesis

/-- What the permitted requests preserve, a run preserves. -/
theorem Only.run_invariant {State : Type} {handle : Handler Op Answer State}
    {invariant : State → Prop} {program : Program Op Answer Value} (only : program.Only permits)
    (preserved : ∀ op state, permits op → invariant state → invariant (handle op state).2)
    {state : State} (holds : invariant state) : invariant (program.run handle state).2 := by
  induction program generalizing state with
  | done value => exact holds
  | request op resume inductionHypothesis =>
      exact inductionHypothesis _ (only.2 _) (preserved op state only.1 holds)

theorem bind_assoc {Last : Type} (program : Program Op Answer Value)
    (next : Value → Program Op Answer Next) (last : Next → Program Op Answer Last) :
    program >>= next >>= last = program >>= fun value => next value >>= last := by
  change (program.bind next).bind last = program.bind fun value => (next value).bind last
  induction program with
  | done value => rfl
  | request op resume inductionHypothesis => simp only [Program.bind, inductionHypothesis]

theorem through_bind {Op' : Type} {Answer' : Op' → Type}
    (interpret : (op : Op') → Program Op Answer (Answer' op)) (program : Program Op' Answer' Value)
    (next : Value → Program Op' Answer' Next) :
    (program >>= next).through interpret =
      program.through interpret >>= fun value => (next value).through interpret := by
  change (program.bind next).through interpret = _
  induction program with
  | done value => rfl
  | request op resume inductionHypothesis =>
      simp only [Program.bind, through, inductionHypothesis, bind_assoc]

end Program

/-- What a client may ask in each mode and how an answer changes the mode. -/
structure Protocol (Mode Op : Type) (Answer : Op → Type) where
  allowed : Mode → Op → Prop
  next : Mode → (op : Op) → Answer op → Mode

namespace Protocol

variable {Client Mode Op State Value Next : Type} {Answer : Op → Type}
  (protocol : Protocol Mode Op Answer) (serve : Service Client Op Answer State) (client : Client)

/-- Under the answers of the service, the program makes allowed requests only
and returns what suits the mode it ends in. -/
def Obeys (returns : Mode → Value → Prop) : Program Op Answer Value → Mode → Prop
  | .done value, mode => returns mode value
  | .request op resume, mode => protocol.allowed mode op ∧
      ∀ state answer state', serve client op state = some (answer, state') →
        Obeys returns (resume answer) (protocol.next mode op answer)

section Rules

variable {protocol} {serve} {client} {returns returns' : Mode → Value → Prop} {mode : Mode}

theorem Obeys.imp {program : Program Op Answer Value}
    (obeys : protocol.Obeys serve client returns program mode)
    (weaker : ∀ mode value, returns mode value → returns' mode value) :
    protocol.Obeys serve client returns' program mode := by
  induction program generalizing mode with
  | done value => exact weaker mode value obeys
  | request op resume inductionHypothesis =>
      refine ⟨obeys.1, ?_⟩
      intro state answer state' served
      exact inductionHypothesis answer (obeys.2 state answer state' served)

theorem Obeys.bind {returns : Mode → Next → Prop} {program : Program Op Answer Value}
    {next : Value → Program Op Answer Next}
    (obeys : protocol.Obeys serve client
      (fun mode value => protocol.Obeys serve client returns (next value) mode) program mode) :
    protocol.Obeys serve client returns (program >>= next) mode := by
  change protocol.Obeys serve client returns (program.bind next) mode
  induction program generalizing mode with
  | done value => exact obeys
  | request op resume inductionHypothesis =>
      refine ⟨obeys.1, ?_⟩
      intro state answer state' served
      exact inductionHypothesis answer (obeys.2 state answer state' served)

variable {Fault : Type}

/-- A fallible program goes on when it succeeds and returns its fault otherwise. -/
theorem Obeys.except_bind {returns : Mode → Except Fault Next → Prop}
    {program : ExceptT Fault (Program Op Answer) Value}
    {next : Value → ExceptT Fault (Program Op Answer) Next}
    (obeys : protocol.Obeys serve client
      (fun mode result => match result with
        | .ok value => protocol.Obeys serve client returns (next value).run mode
        | .error fault => returns mode (.error fault)) program.run mode) :
    protocol.Obeys serve client returns (program >>= next).run mode := by
  apply Obeys.bind
  apply Obeys.imp obeys
  intro mode result suits
  cases result with
  | ok value => exact suits
  | error fault => exact suits

/-- Requests that leave the mode alone end in the mode they began in. -/
theorem Obeys.of_only {permits : Op → Prop} {program : Program Op Answer Value}
    (only : program.Only permits)
    (keeps : ∀ op, permits op → protocol.allowed mode op ∧ ∀ answer, protocol.next mode op answer =
      mode) :
    protocol.Obeys serve client (fun mode' _ => mode' = mode) program mode := by
  induction program with
  | done value => rfl
  | request op resume inductionHypothesis =>
      refine ⟨(keeps op only.1).1, ?_⟩
      intro state answer state' _
      rw [(keeps op only.1).2]
      exact inductionHypothesis answer (only.2 answer)

theorem Obeys.settle_bind {returns : Mode → Except Fault Next → Prop} {check : Except Fault Value}
    {next : Value → ExceptT Fault (Program Op Answer) Next}
    (fails : ∀ fault, returns mode (.error fault))
    (continues : ∀ value, protocol.Obeys serve client returns (next value).run mode) :
    protocol.Obeys serve client returns (settle check >>= next).run mode := by
  apply Obeys.except_bind
  cases check with
  | error fault => exact fails fault
  | ok value => exact continues value

/-- Requests that leave the mode alone, before the rest of a program. -/
theorem Obeys.only_bind {permits : Op → Prop} {returns : Mode → Except Fault Next → Prop}
    {program : ExceptT Fault (Program Op Answer) Value}
    {next : Value → ExceptT Fault (Program Op Answer) Next} (only : program.run.Only permits)
    (keeps : ∀ op, permits op → protocol.allowed mode op ∧ ∀ answer, protocol.next mode op answer =
      mode)
    (fails : ∀ fault, returns mode (.error fault))
    (continues : ∀ value, protocol.Obeys serve client returns (next value).run mode) :
    protocol.Obeys serve client returns (program >>= next).run mode := by
  apply Obeys.except_bind
  apply Obeys.imp (Obeys.of_only only keeps)
  intro mode' result same
  subst same
  cases result with
  | error fault => exact fails fault
  | ok value => exact continues value

/-- A program over another interface, each request of which takes the client
from one stage to the next, ends in the stage of its dialogue. -/
theorem Obeys.through {Op' : Type} {Answer' : Op' → Type}
    {interpret : (op : Op') → Program Op Answer (Answer' op)}
    (stage : List ((op : Op') × Answer' op) → Mode)
    (stages : ∀ dialogue op, protocol.Obeys serve client
      (fun mode answer => mode = stage (dialogue ++ [⟨op, answer⟩])) (interpret op)
      (stage dialogue))
    (program : Program Op' Answer' Value) (before : List ((op : Op') × Answer' op)) :
    protocol.Obeys serve client
      (fun mode value => ∃ dialogue, program.Yields dialogue value ∧
        mode = stage (before ++ dialogue))
      (program.through interpret) (stage before) := by
  induction program generalizing before with
  | done value => exact ⟨[], .done value, by rw [List.append_nil]⟩
  | request op resume inductionHypothesis =>
      apply Obeys.bind
      apply Obeys.imp (stages before op)
      intro mode answer reached
      subst reached
      have continues := inductionHypothesis answer (before ++ [⟨op, answer⟩])
      apply Obeys.imp continues
      intro mode value found
      obtain ⟨dialogue, yields, reached⟩ := found
      exact ⟨⟨op, answer⟩ :: dialogue, .request yields, by rw [reached, List.append_assoc]; rfl⟩

end Rules

section Runs

variable {returns : Client → Mode → Value → Prop}
  {invariant : (Client → Mode) → State → Prop}

/-- Every client obeys the protocol from its mode on, and the modes and the
shared state satisfy the invariant. -/
structure Holds (returns : Client → Mode → Value → Prop)
    (invariant : (Client → Mode) → State → Prop) (modes : Client → Mode)
    (pool : Pool Client Op Answer Value State) : Prop where
  obeys : ∀ client, protocol.Obeys serve client (returns client) (pool.programs client)
    (modes client)
  invariant : invariant modes pool.shared

/-- The request that a client makes next is allowed. -/
theorem Holds.allowed {protocol : Protocol Mode Op Answer} {serve : Service Client Op Answer State}
    {modes : Client → Mode} {pool : Pool Client Op Answer Value State}
    (holds : protocol.Holds serve returns invariant modes pool) {client : Client} {op : Op}
    {resume : Answer op → Program Op Answer Value}
    (program : pool.programs client = .request op resume) :
    protocol.allowed (modes client) op := by
  have obeys := holds.obeys client
  rw [program] at obeys
  exact obeys.1

variable [DecidableEq Client]

/-- The invariant rule: what every allowed request keeps, under a condition on
the turns, holds after every schedule whose turns meet the condition. -/
theorem exists_holds_run {protocol : Protocol Mode Op Answer}
    {serve : Service Client Op Answer State}
    {condition : Pool Client Op Answer Value State → Client → Prop}
    (preserved : ∀ modes pool client op resume answer shared,
      protocol.Holds serve returns invariant modes pool → condition pool client →
      pool.programs client = .request op resume →
      serve client op pool.shared = some (answer, shared) →
      invariant (Function.update modes client (protocol.next (modes client) op answer)) shared)
    {modes : Client → Mode} {pool : Pool Client Op Answer Value State}
    (holds : protocol.Holds serve returns invariant modes pool) (schedule : List Client)
    (each : Steps.EachStep (Pool.advance serve) condition pool schedule) :
    ∃ modes, protocol.Holds serve returns invariant modes
      (Steps.run (Pool.advance serve) pool schedule) := by
  induction schedule using List.reverseRecOn with
  | nil => exact ⟨modes, holds⟩
  | append_singleton schedule client inductionHypothesis =>
      obtain ⟨before, meets⟩ := (Steps.eachStep_concat_iff _ _).mp each
      obtain ⟨modes, holds⟩ := inductionHypothesis before
      rw [Steps.run_concat]
      generalize Steps.run (Pool.advance serve) pool schedule = reached at holds meets
      rcases reached.advance_cases serve client with stays |
        ⟨op, resume, answer, shared, program, served, advanced⟩
      · rw [stays]
        exact ⟨modes, holds⟩
      · rw [advanced]
        have kept := preserved modes reached client op resume answer shared holds meets program
          served
        refine ⟨_, ?_, kept⟩
        intro other
        by_cases same : other = client
        · subst same
          have obeys := holds.obeys other
          rw [program] at obeys
          simp only [Function.update_self]
          exact obeys.2 _ answer shared served
        · simp only [Function.update_of_ne same]
          exact holds.obeys other

end Runs

section Recording

/-- The mode of a client is its dialogue so far, whatever it asks. -/
def recording : Protocol (List ((op : Op) × Answer op)) Op Answer where
  allowed _ _ := True
  next dialogue op answer := dialogue ++ [⟨op, answer⟩]

theorem obeys_recording {serve : Service Client Op Answer State} {client : Client}
    (program : Program Op Answer Value) (before : List ((op : Op) × Answer op)) :
    recording.Obeys serve client
      (fun dialogue value => ∃ later, dialogue = before ++ later ∧ program.Yields later value)
      program before := by
  induction program generalizing before with
  | done value => exact ⟨[], (List.append_nil before).symm, .done value⟩
  | request op resume inductionHypothesis =>
      refine ⟨trivial, ?_⟩
      intro state answer state' _
      have continues := inductionHypothesis answer (recording.next before op answer)
      apply Obeys.imp continues
      intro dialogue value found
      obtain ⟨later, rfl, yields⟩ := found
      exact ⟨⟨op, answer⟩ :: later, List.append_assoc before [⟨op, answer⟩] later,
        .request yields⟩

/-- A client that has ended has had a dialogue of answers that the service gives
in the states of the run. -/
theorem exists_dialogue_run [DecidableEq Client] {serve : Service Client Op Answer State}
    {invariant : State → Prop} {given : (op : Op) → Answer op → Prop}
    (kept : ∀ client op state answer state', invariant state →
      serve client op state = some (answer, state') → given op answer ∧ invariant state')
    {pool : Pool Client Op Answer Value State} (begins : invariant pool.shared)
    (schedule : List Client) {client : Client} {value : Value}
    (ended : (Steps.run (Pool.advance serve) pool schedule).programs client = .done value) :
    ∃ dialogue, (pool.programs client).Yields dialogue value ∧
      ∀ entry ∈ dialogue, given entry.1 entry.2 := by
  have each : Steps.EachStep (Pool.advance serve) (fun _ _ => True) pool schedule :=
    fun _ _ _ => trivial
  have unheard : ∀ client, ∀ entry ∈ (fun _ => [] : Client → List ((op : Op) × Answer op)) client,
      given entry.1 entry.2 := fun _ _ absent => absurd absent List.not_mem_nil
  obtain ⟨dialogues, holds⟩ : ∃ dialogues, recording.Holds serve
      (fun client dialogue value => ∃ later, dialogue = [] ++ later ∧
        (pool.programs client).Yields later value)
      (fun dialogues state => invariant state ∧
        ∀ client, ∀ entry ∈ dialogues client, given entry.1 entry.2)
      dialogues (Steps.run (Pool.advance serve) pool schedule) := by
    apply exists_holds_run ?_
      ⟨fun client => obeys_recording (pool.programs client) [], begins, unheard⟩ schedule each
    intro dialogues reached client op resume answer shared holds _ program served
    obtain ⟨holdsShared, holdsDialogues⟩ := holds.invariant
    obtain ⟨isGiven, holdsNext⟩ := kept client op reached.shared answer shared holdsShared served
    refine ⟨holdsNext, ?_⟩
    intro other entry
    by_cases same : other = client
    · subst same
      rw [Function.update_self]
      intro membership
      rcases List.mem_append.mp membership with earlier | last
      · exact holdsDialogues other entry earlier
      · rw [List.mem_singleton.mp last]
        exact isGiven
    · rw [Function.update_of_ne same]
      exact holdsDialogues other entry
  have suits := holds.obeys client
  rw [ended] at suits
  obtain ⟨later, same, yields⟩ := suits
  refine ⟨later, yields, ?_⟩
  have entries := holds.invariant.2 client
  rwa [same, List.nil_append] at entries

end Recording

end Protocol

end Foundation
