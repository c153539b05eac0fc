import Aurion.Foundation.Protocol

/-!
# Progress of concurrent clients

An infinite schedule gives turns to clients that a service may keep waiting.  A
program makes finitely many requests on every path, so after some time nobody moves
any more.  If somebody can always move who has not ended, and everybody gets a turn
again and again, all clients end.
-/

namespace Foundation.Pool

variable {Client Op : Type} {Answer : Op → Type} {Value State : Type}

/-- The client has a request that the service answers. -/
def Moves (serve : Service Client Op Answer State) (pool : Pool Client Op Answer Value State)
    (client : Client) : Prop :=
  ∃ op resume, pool.programs client = .request op resume ∧ (serve client op pool.shared).isSome

def Ended (pool : Pool Client Op Answer Value State) (client : Client) : Prop :=
  ∃ value, pool.programs client = .done value

section Turns

variable [DecidableEq Client] {serve : Service Client Op Answer State}
  {pool : Pool Client Op Answer Value State} {client : Client}

/-- The answer takes a program to another one. -/
theorem resume_ne_request {op : Op} {resume : Answer op → Program Op Answer Value}
    (answer : Answer op) : resume answer ≠ .request op resume := by
  have acyclic (program : Program Op Answer Value) : ∀ (op : Op)
      (resume : Answer op → Program Op Answer Value) (answer : Answer op),
      program = resume answer → program ≠ .request op resume := by
    induction program with
    | done value => exact fun _ _ _ _ => nofun
    | request op' resume' inductionHypothesis =>
        intro op resume answer isAnswer same
        cases same
        exact inductionHypothesis answer op' resume' answer rfl isAnswer.symm
  exact acyclic _ op resume answer rfl

theorem Moves.advance_ne (moves : pool.Moves serve client) :
    pool.advance serve client ≠ pool := by
  obtain ⟨op, resume, program, served⟩ := moves
  obtain ⟨⟨answer, shared⟩, answered⟩ := Option.isSome_iff_exists.mp served
  intro same
  have kept := congrArg (fun pool => pool.programs client) same
  simp only [advance, program, answered, Function.update_self] at kept
  exact resume_ne_request answer kept

/-- A turn leaves the pool alone, or takes its client to an answer. -/
theorem advance_eq_or (serve : Service Client Op Answer State)
    (pool : Pool Client Op Answer Value State) (client : Client) :
    pool.advance serve client = pool ∨ ∃ op resume answer,
      pool.programs client = .request op resume ∧
      (pool.advance serve client).programs client = resume answer := by
  obtain stays | ⟨op, resume, answer, shared, program, -, advanced⟩ :=
    pool.advance_cases serve client
  · exact Or.inl stays
  · refine Or.inr ⟨op, resume, answer, program, ?_⟩
    rw [advanced]
    exact Function.update_self _ _ _

theorem Ended.advance (ended : pool.Ended client) (turn : Client) :
    (pool.advance serve turn).programs client = pool.programs client := by
  obtain ⟨value, program⟩ := ended
  by_cases same : client = turn
  · subst same
    simp only [Pool.advance, program]
  · exact programs_advance_of_ne serve pool same

/-- A client that has ended stays as it is. -/
theorem Ended.run (ended : pool.Ended client) (turns : List Client) :
    (Steps.run (Pool.advance serve) pool turns).programs client = pool.programs client := by
  induction turns using List.reverseRecOn with
  | nil => rfl
  | append_singleton turns last inductionHypothesis =>
      have stillEnded : (Steps.run (Pool.advance serve) pool turns).Ended client := by
        obtain ⟨value, program⟩ := ended
        exact ⟨value, inductionHypothesis.trans program⟩
      rw [Steps.run_concat, stillEnded.advance, inductionHypothesis]

end Turns

section Time

variable [DecidableEq Client] (serve : Service Client Op Answer State)
  (pool : Pool Client Op Answer Value State) (schedule : Nat → Client)

/-- The pool after that many turns of the schedule. -/
def atTime (time : Nat) : Pool Client Op Answer Value State :=
  Steps.run (Pool.advance serve) pool ((List.range time).map schedule)

variable {serve pool schedule}

theorem atTime_succ (time : Nat) :
    atTime serve pool schedule (time + 1) =
      (atTime serve pool schedule time).advance serve (schedule time) := by
  rw [atTime, List.range_succ, List.map_append, List.map_singleton, Steps.run_concat, atTime]

theorem Ended.later {client : Client} {time : Nat}
    (ended : (atTime serve pool schedule time).Ended client) {later : Nat} (after : time ≤ later) :
    (atTime serve pool schedule later).programs client =
      (atTime serve pool schedule time).programs client := by
  obtain ⟨turns, rfl⟩ := Nat.exists_eq_add_of_le after
  have split : atTime serve pool schedule (time + turns) =
      Steps.run (Pool.advance serve) (atTime serve pool schedule time)
        ((List.range turns).map fun turn => schedule (time + turn)) := by
    rw [atTime, List.range_add, List.map_append, List.map_map, Steps.run_append]
    rfl
  rw [split, ended.run]

/-- From some time on a client stays where it is: the induction is on its program. -/
theorem exists_settled (client : Client) (time : Nat) :
    ∃ settled ≥ time, ∀ later ≥ settled, (atTime serve pool schedule later).programs client =
      (atTime serve pool schedule settled).programs client := by
  generalize program : (atTime serve pool schedule time).programs client = start
  induction start generalizing time with
  | done value => exact ⟨time, Nat.le_refl _, fun later after => Ended.later ⟨value, program⟩ after⟩
  | request op resume inductionHypothesis =>
      by_cases stays : ∀ later ≥ time,
          (atTime serve pool schedule later).programs client = .request op resume
      · exact ⟨time, Nat.le_refl _, fun later after => (stays later after).trans program.symm⟩
      · obtain ⟨last, after, waiting, moved⟩ : ∃ last ≥ time,
            (atTime serve pool schedule last).programs client = .request op resume ∧
            (atTime serve pool schedule (last + 1)).programs client ≠ .request op resume := by
          by_contra never
          apply stays
          intro later after
          induction later, after using Nat.le_induction with
          | base => exact program
          | succ later after waiting =>
              by_contra moved
              exact never ⟨later, after, waiting, moved⟩
        have turn : schedule last = client := by
          by_contra other
          apply moved
          rw [atTime_succ, programs_advance_of_ne serve _ (Ne.symm other), waiting]
        obtain ⟨answer, answered⟩ : ∃ answer,
            (atTime serve pool schedule (last + 1)).programs client = resume answer := by
          rw [atTime_succ, turn] at moved ⊢
          obtain same | ⟨op', resume', answer, program, answered⟩ :=
            advance_eq_or serve (atTime serve pool schedule last) client
          · rw [same] at moved
            exact absurd waiting moved
          · rw [waiting] at program
            cases program
            exact ⟨answer, answered⟩
        obtain ⟨settled, afterLast, constant⟩ := inductionHypothesis answer (last + 1) answered
        exact ⟨settled, after.trans ((Nat.le_succ last).trans afterLast), constant⟩

/-- From some time on all the clients stay where they are. -/
theorem exists_all_settled (clients : List Client) :
    ∃ settled, ∀ client ∈ clients, ∀ later ≥ settled,
      (atTime serve pool schedule later).programs client =
        (atTime serve pool schedule settled).programs client := by
  induction clients with
  | nil => exact ⟨0, nofun⟩
  | cons client clients inductionHypothesis =>
      obtain ⟨before, others⟩ := inductionHypothesis
      obtain ⟨settled, after, constant⟩ := exists_settled client before
      refine ⟨settled, List.forall_mem_cons.mpr ⟨constant, ?_⟩⟩
      intro other isOther later afterSettled
      rw [others other isOther later (after.trans afterSettled),
        others other isOther settled after]

/-- Under a fair schedule all clients end, if somebody can always move who has not. -/
theorem exists_all_ended (clients : List Client)
    (others : ∀ client ∉ clients, pool.Ended client)
    (fair : ∀ client ∈ clients, ∀ time, ∃ later ≥ time, schedule later = client)
    (live : ∀ time, (∃ client ∈ clients, ¬ (atTime serve pool schedule time).Ended client) →
      ∃ client ∈ clients, (atTime serve pool schedule time).Moves serve client) :
    ∃ time, ∀ client ∈ clients, (atTime serve pool schedule time).Ended client := by
  obtain ⟨settled, constant⟩ := exists_all_settled clients
  refine ⟨settled, ?_⟩
  have still : ∀ later ≥ settled,
      atTime serve pool schedule later = atTime serve pool schedule settled := by
    intro later after
    induction later, after using Nat.le_induction with
    | base => rfl
    | succ later after inductionHypothesis =>
        rw [← inductionHypothesis, atTime_succ]
        obtain same | ⟨op, resume, answer, program, answered⟩ :=
          advance_eq_or serve (atTime serve pool schedule later) (schedule later)
        · exact same
        · by_cases isClient : schedule later ∈ clients
          · have before := constant _ isClient later after
            have afterwards := constant _ isClient (later + 1) (Nat.le_succ_of_le after)
            rw [atTime_succ, answered, ← before, program] at afterwards
            exact absurd afterwards (resume_ne_request answer)
          · obtain ⟨value, ended⟩ := others _ isClient
            have stays : (atTime serve pool schedule later).programs (schedule later) =
                pool.programs (schedule later) := Ended.run ⟨value, ended⟩ _
            exact absurd (program.symm.trans (stays.trans ended)) nofun
  by_contra unfinished
  push Not at unfinished
  obtain ⟨client, isClient, moves⟩ := live settled unfinished
  obtain ⟨later, after, turn⟩ := fair client isClient settled
  have same := still (later + 1) (Nat.le_succ_of_le after)
  rw [atTime_succ, turn, still later after] at same
  exact moves.advance_ne same

end Time

end Foundation.Pool
