import Mathlib.Data.List.Induction
import Mathlib.Data.List.Infix

/-!
# Runs of a machine

A machine takes one event after another.  An invariant of the steps holds after
every run; a property whose loss each step decides holds throughout a run
exactly when every step of it meets the deciding condition.
-/

namespace Foundation.Steps

variable {State Event : Type} (step : State → Event → State)

def run (start : State) (events : List Event) : State := events.foldl step start

/-- The property holds in every state of the run. -/
def Throughout (property : State → Prop) (start : State) (events : List Event) : Prop :=
  ∀ past, past <+: events → property (run step start past)

/-- Every event of the run meets the condition in the state it finds. -/
def EachStep (condition : State → Event → Prop) (start : State) (events : List Event) : Prop :=
  ∀ past next, past ++ [next] <+: events → condition (run step start past) next

/-- Once the property holds in the run it stays, and with it the observed part. -/
def Locks {Part : Type} (property : State → Prop) (part : State → Part) (start : State)
    (events : List Event) : Prop :=
  ∀ earlier later, earlier ++ later <+: events → property (run step start earlier) →
    property (run step start (earlier ++ later)) ∧
      part (run step start (earlier ++ later)) = part (run step start earlier)

variable {step} {start : State}

@[simp]
theorem run_nil : run step start [] = start := rfl

@[simp]
theorem run_concat (events : List Event) (last : Event) :
    run step start (events ++ [last]) = step (run step start events) last := by
  simp [run]

theorem run_append (earlier later : List Event) :
    run step start (earlier ++ later) = run step (run step start earlier) later :=
  List.foldl_append

theorem run_invariant {invariant : State → Prop} (holds : invariant start)
    (preserved : ∀ state event, invariant state → invariant (step state event))
    (events : List Event) : invariant (run step start events) := by
  induction events using List.reverseRecOn with
  | nil => exact holds
  | append_singleton events last inductionHypothesis =>
      rw [run_concat]
      exact preserved _ last inductionHypothesis

variable {property : State → Prop} {condition : State → Event → Prop}

theorem Throughout.final {events : List Event}
    (throughout : Throughout step property start events) :
    property (run step start events) :=
  throughout events List.prefix_rfl

theorem throughout_nil_iff : Throughout step property start [] ↔ property start := by
  simp [Throughout]

theorem throughout_concat_iff (events : List Event) (last : Event) :
    Throughout step property start (events ++ [last]) ↔
      Throughout step property start events ∧ property (run step start (events ++ [last])) := by
  simp only [Throughout, List.prefix_concat_iff]
  constructor
  · intro throughout
    exact ⟨fun past before => throughout past (Or.inr before), throughout _ (Or.inl rfl)⟩
  · intro both past found
    rcases found with rfl | before
    · exact both.2
    · exact both.1 past before

theorem eachStep_nil : EachStep step condition start [] := by
  intro past next found
  simp at found

theorem eachStep_concat_iff (events : List Event) (last : Event) :
    EachStep step condition start (events ++ [last]) ↔
      EachStep step condition start events ∧ condition (run step start events) last := by
  simp only [EachStep, List.prefix_concat_iff]
  constructor
  · intro each
    exact ⟨fun past next before => each past next (Or.inr before), each events last (Or.inl rfl)⟩
  · intro both past next found
    rcases found with same | before
    · obtain ⟨rfl, ends⟩ := List.append_inj' same rfl
      cases ends
      exact both.2
    · exact both.1 past next before

theorem eachStep_cons_iff (first : Event) (events : List Event) :
    EachStep step condition start (first :: events) ↔
      condition start first ∧ EachStep step condition (step start first) events := by
  constructor
  · intro each
    refine ⟨each [] first (List.prefix_append [first] events), ?_⟩
    intro past next found
    apply each (first :: past) next
    rwa [List.cons_append, List.cons_prefix_cons, and_iff_right rfl]
  · intro both past next found
    cases past with
    | nil =>
        obtain ⟨rfl, -⟩ := List.cons_prefix_cons.mp found
        exact both.1
    | cons event past =>
        obtain ⟨rfl, rest⟩ := List.cons_prefix_cons.mp found
        exact both.2 past next rest

/-- When the condition decides whether a step keeps the property, the property
holds throughout a run exactly when all its steps meet the condition. -/
theorem throughout_iff_eachStep {invariant : State → Prop} (holds : invariant start)
    (initially : property start) {events : List Event}
    (decides : ∀ state, ∀ event ∈ events, invariant state → property state →
      invariant (step state event) ∧ (property (step state event) ↔ condition state event)) :
    Throughout step property start events ↔ EachStep step condition start events := by
  have general : (Throughout step property start events → invariant (run step start events)) ∧
      (Throughout step property start events ↔ EachStep step condition start events) := by
    induction events using List.reverseRecOn with
    | nil => simp [throughout_nil_iff, initially, eachStep_nil, holds]
    | append_singleton events last inductionHypothesis =>
        obtain ⟨reaches, exactly⟩ := inductionHypothesis fun state event membership =>
          decides state event (List.mem_append_left _ membership)
        have lastStep := fun state => decides state last (by simp)
        rw [throughout_concat_iff, eachStep_concat_iff, ← exactly, run_concat]
        constructor
        · intro throughout
          exact (lastStep _ (reaches throughout.1) throughout.1.final).1
        · apply and_congr_right
          intro throughout
          exact (lastStep _ (reaches throughout) throughout.final).2
  exact general.2

/-- A run locks exactly when each of its steps keeps what it finds locked. -/
theorem locks_iff_eachStep {Part : Type} {part : State → Part} {events : List Event} :
    Locks step property part start events ↔
      EachStep step (fun state event => property state →
        property (step state event) ∧ part (step state event) = part state) start events := by
  constructor
  · intro locks past next found holds
    have kept := locks past [next] found holds
    rwa [run_concat] at kept
  · intro each earlier later found holds
    induction later using List.reverseRecOn with
    | nil =>
        rw [List.append_nil]
        exact ⟨holds, rfl⟩
    | append_singleton later last inductionHypothesis =>
        rw [← List.append_assoc] at found ⊢
        obtain ⟨stays, same⟩ :=
          inductionHypothesis ((List.prefix_append _ [last]).trans found)
        obtain ⟨stays', same'⟩ := each (earlier ++ later) last found stays
        rw [run_concat]
        exact ⟨stays', same'.trans same⟩

/-- A preorder relates the states of a run to all later ones exactly when it
relates the ends of each step. -/
theorem ordered_iff_eachStep (related : State → State → Prop) (refl : ∀ state, related state state)
    (trans : ∀ {first second third}, related first second → related second third →
      related first third) {events : List Event} :
    (∀ earlier later, earlier ++ later <+: events →
        related (run step start earlier) (run step start (earlier ++ later))) ↔
      EachStep step (fun state event => related state (step state event)) start events := by
  constructor
  · intro ordered past next found
    have reached := ordered past [next] found
    rwa [run_concat] at reached
  · intro each earlier later found
    induction later using List.reverseRecOn with
    | nil =>
        rw [List.append_nil]
        exact refl _
    | append_singleton later last inductionHypothesis =>
        rw [← List.append_assoc] at found ⊢
        rw [run_concat]
        exact trans (inductionHypothesis ((List.prefix_append _ [last]).trans found))
          (each (earlier ++ later) last found)

section Simulation

variable {State' Event' : Type} {step' : State' → Event' → State'}

/-- The events of another machine that the events of a run stand for. -/
def trace (step : State → Event → State) (effect : State → Event → Option Event') :
    State → List Event → List Event'
  | _, [] => []
  | state, event :: events =>
      (effect state event).toList ++ trace step effect (step state event) events

/-- Each step of one machine is a step of the other one, or none, on what the
abstraction leaves of its state. -/
structure Simulates (step : State → Event → State) (step' : State' → Event' → State')
    (invariant : State → Prop) (abstraction : State → State')
    (effect : State → Event → Option Event') : Prop where
  preserved : ∀ state event, invariant state → invariant (step state event)
  simulated : ∀ state event, invariant state →
    abstraction (step state event) = run step' (abstraction state) (effect state event).toList

variable {invariant : State → Prop} {abstraction : State → State'}
  {effect : State → Event → Option Event'}

theorem trace_concat (events : List Event) (last : Event) :
    trace step effect start (events ++ [last]) =
      trace step effect start events ++ (effect (run step start events) last).toList := by
  induction events generalizing start with
  | nil => simp [trace]
  | cons event events inductionHypothesis =>
      rw [List.cons_append, trace, trace, inductionHypothesis, List.append_assoc]
      rfl

theorem mem_trace {events : List Event} {event' : Event'}
    (found : event' ∈ trace step effect start events) :
    ∃ state, ∃ event ∈ events, effect state event = some event' := by
  induction events generalizing start with
  | nil => cases found
  | cons event events inductionHypothesis =>
      rw [trace, List.mem_append, Option.mem_toList] at found
      obtain first | later := found
      · exact ⟨start, event, List.mem_cons_self, first⟩
      · obtain ⟨state, event'', isEvent, effected⟩ := inductionHypothesis later
        exact ⟨state, event'', List.mem_cons_of_mem _ isEvent, effected⟩

namespace Simulates

variable (simulates : Simulates step step' invariant abstraction effect)

include simulates

/-- A run is simulated by the run over its trace. -/
theorem run_trace (holds : invariant start) (events : List Event) :
    abstraction (run step start events) =
      run step' (abstraction start) (trace step effect start events) := by
  induction events using List.reverseRecOn with
  | nil => rfl
  | append_singleton events last inductionHypothesis =>
      have reached := run_invariant holds simulates.preserved events
      rw [run_concat, simulates.simulated _ last reached, inductionHypothesis, trace_concat]
      exact (List.foldl_append ..).symm

/-- A condition on the abstract steps that every effect meets holds along a trace. -/
theorem eachStep_trace {condition : State' → Event' → Prop} (holds : invariant start)
    (allowed : ∀ state event event', invariant state → effect state event = some event' →
      condition (abstraction state) event') (events : List Event) :
    EachStep step' condition (abstraction start) (trace step effect start events) := by
  induction events using List.reverseRecOn with
  | nil => exact eachStep_nil
  | append_singleton events last inductionHypothesis =>
      have reached := run_invariant holds simulates.preserved events
      rw [trace_concat]
      cases effected : effect (run step start events) last with
      | none =>
          rw [Option.toList_none, List.append_nil]
          exact inductionHypothesis
      | some event' =>
          rw [Option.toList_some, eachStep_concat_iff, ← simulates.run_trace holds]
          exact ⟨inductionHypothesis, allowed _ _ _ reached effected⟩

end Simulates

end Simulation

end Foundation.Steps
