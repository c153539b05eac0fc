import Aurion.Foundation.Steps
import Mathlib.Data.List.Count
import Mathlib.Logic.Function.Basic

/-!
# Parallel search in rounds

Workers test the items of a round in any order and at any pace.  A shared flag
tells them that something was found; then they give up the items that nobody tests
yet.  A round ends when all items are settled, and the next one has other tests.
What is found belongs to the first round in which there is something to find, and
rounds in which every item gets its turns end.
-/

namespace Foundation

/-- Where the workers are with an item. -/
inductive Probe (Value : Type)
  | waiting
  | testing
  | settled (result : Option Value)

/-- How often an item has moved on. -/
def Probe.rank {Value : Type} : Probe Value → Nat
  | .waiting => 0
  | .testing => 1
  | .settled _ => 2

theorem Probe.rank_le {Value : Type} (probe : Probe Value) : probe.rank ≤ 2 := by
  cases probe <;> simp [Probe.rank]

def Probe.value? {Value : Type} : Probe Value → Option Value
  | .settled result => result
  | _ => none

/-- The state of the search.  The flag is shared by all rounds. -/
structure Search (Item Value : Type) where
  round : Nat
  flag : Bool
  probe : Item → Probe Value
  result : Option Value

namespace Search

variable {Item Value : Type}

/-- A worker takes up an item or tests it; the search is collected, and a choice made
between the values that were found. -/
inductive Event (Item : Type)
  | work (item : Item)
  | collect (choice : Nat)
  deriving DecidableEq

def start : Search Item Value where
  round := 0
  flag := false
  probe := fun _ => .waiting
  result := none

/-- All items of the round are settled. -/
def Ended (items : List Item) (search : Search Item Value) : Prop :=
  ∀ item ∈ items, (search.probe item).rank = 2

instance (items : List Item) (search : Search Item Value) : Decidable (search.Ended items) :=
  inferInstanceAs (Decidable (∀ item ∈ items, (search.probe item).rank = 2))

def found (items : List Item) (search : Search Item Value) : List Value :=
  items.filterMap fun item => (search.probe item).value?

/-- A search that has ended gives one of the values, or there is a next round. -/
def collect (items : List Item) (search : Search Item Value) (choice : Nat) :
    Search Item Value :=
  if search.Ended items then
    match (search.found items)[choice % (search.found items).length]? with
    | some value => { search with result := some value }
    | none => { search with round := search.round + 1, probe := fun _ => .waiting }
  else search

section Definition

variable [DecidableEq Item]

/-- The next move with an item. -/
def work (test : Nat → Item → Option Value) (search : Search Item Value) (item : Item) :
    Search Item Value :=
  match search.probe item with
  | .waiting =>
      let moved := if search.flag then .settled none else .testing
      { search with probe := Function.update search.probe item moved }
  | .testing =>
      let result := test search.round item
      { search with
        flag := search.flag || result.isSome
        probe := Function.update search.probe item (.settled result) }
  | .settled _ => search

/-- There are no more moves after the result. -/
def step (items : List Item) (test : Nat → Item → Option Value) (search : Search Item Value)
    (event : Event Item) : Search Item Value :=
  if search.result.isSome then search
  else
    match event with
    | .work item => if item ∈ items then search.work test item else search
    | .collect choice => search.collect items choice

end Definition

variable {items : List Item} {test : Nat → Item → Option Value} {search : Search Item Value}

section Collection

theorem mem_found_iff (value : Value) :
    value ∈ search.found items ↔ ∃ item ∈ items, search.probe item = .settled (some value) := by
  have settled (item : Item) : (search.probe item).value? = some value ↔
      search.probe item = .settled (some value) := by
    cases search.probe item <;> simp [Probe.value?]
  simp only [found, List.mem_filterMap, settled]

/-- What a collection makes of the search: nothing, a result, or the next round. -/
theorem collect_cases (items : List Item) (search : Search Item Value) (choice : Nat) :
    (¬ search.Ended items ∧ search.collect items choice = search) ∨
      (∃ value ∈ search.found items,
        search.collect items choice = { search with result := some value }) ∨
      search.Ended items ∧ search.found items = [] ∧ search.collect items choice =
        { search with round := search.round + 1, probe := fun _ => .waiting } := by
  unfold collect
  split
  next ended =>
    refine Or.inr ?_
    cases given : (search.found items)[choice % (search.found items).length]? with
    | some value => exact Or.inl ⟨value, List.mem_of_getElem? given, rfl⟩
    | none =>
        refine Or.inr ⟨ended, ?_, rfl⟩
        by_contra inhabited
        have below := Nat.mod_lt choice (List.length_pos_iff.mpr inhabited)
        exact absurd (List.getElem?_eq_none_iff.mp given) (Nat.not_le.mpr below)
  next going => exact Or.inl ⟨going, rfl⟩

end Collection

section Moves

variable [DecidableEq Item]

theorem probe_update_cases {item other : Item} {moved target : Probe Value}
    (probed : Function.update search.probe item moved other = target) :
    other = item ∧ moved = target ∨ other ≠ item ∧ search.probe other = target := by
  by_cases same : other = item
  · rw [same, Function.update_self] at probed
    exact Or.inl ⟨same, probed⟩
  · rw [Function.update_of_ne same] at probed
    exact Or.inr ⟨same, probed⟩

/-- What a move makes of the search: nothing, or it takes an item up, gives it up,
or settles it by its test. -/
theorem work_cases (test : Nat → Item → Option Value) (search : Search Item Value) (item : Item) :
    ((∃ result, search.probe item = .settled result) ∧ search.work test item = search) ∨
      (search.flag = false ∧ search.probe item = .waiting ∧ search.work test item =
        { search with probe := Function.update search.probe item .testing }) ∨
      (search.flag = true ∧ search.probe item = .waiting ∧ search.work test item =
        { search with probe := Function.update search.probe item (.settled none) }) ∨
      (search.probe item = .testing ∧ search.work test item =
        { search with
          flag := search.flag || (test search.round item).isSome
          probe := Function.update search.probe item
            (.settled (test search.round item)) }) := by
  unfold work
  cases probed : search.probe item with
  | waiting =>
      cases raised : search.flag with
      | false => exact Or.inr (Or.inl ⟨rfl, rfl, rfl⟩)
      | true => exact Or.inr (Or.inr (Or.inl ⟨rfl, rfl, rfl⟩))
  | testing => exact Or.inr (Or.inr (Or.inr ⟨rfl, rfl⟩))
  | settled result => exact Or.inl ⟨⟨result, rfl⟩, rfl⟩

theorem step_of_result {value : Value} (given : search.result = some value)
    (event : Event Item) : search.step items test event = search := by
  simp [step, given]

theorem step_work (searching : search.result = none) {item : Item} (isItem : item ∈ items) :
    search.step items test (.work item) = search.work test item := by
  simp [step, searching, isItem]

theorem step_work_of_notMem {item : Item} (noItem : item ∉ items) :
    search.step items test (.work item) = search := by
  simp [step, noItem]

theorem step_collect (searching : search.result = none) (choice : Nat) :
    search.step items test (.collect choice) = search.collect items choice := by
  simp [step, searching]

end Moves

section Safety

/-- What every move keeps: the earlier rounds had nothing, what is settled is what
the tests say unless the item was given up, and somebody raised the flag. -/
structure Sound (items : List Item) (test : Nat → Item → Option Value)
    (search : Search Item Value) : Prop where
  earlier : ∀ round < search.round, ∀ item ∈ items, test round item = none
  tested : ∀ item value, search.probe item = .settled (some value) →
    test search.round item = some value
  givenUp : search.flag = false → ∀ item, search.probe item = .settled none →
    test search.round item = none
  raised : search.flag = true → ∃ value, value ∈ search.found items
  result : ∀ value, search.result = some value → ∃ item ∈ items,
    test search.round item = some value

theorem sound_start : (start : Search Item Value).Sound items test where
  earlier := nofun
  tested := nofun
  givenUp := nofun
  raised := nofun
  result := nofun

/-- A collection keeps what is sound: the flag is down when a round is over
without a result. -/
theorem Sound.collect (sound : search.Sound items test) (searching : search.result = none)
    (choice : Nat) : (search.collect items choice).Sound items test := by
  obtain ⟨-, same⟩ | ⟨value, isFound, same⟩ | ⟨ended, nothing, same⟩ :=
    collect_cases items search choice
  · rw [same]
    exact sound
  · rw [same]
    refine ⟨sound.earlier, sound.tested, sound.givenUp, sound.raised, ?_⟩
    intro value' given
    cases given
    obtain ⟨item, isItem, settled⟩ := (mem_found_iff value).mp isFound
    exact ⟨item, isItem, sound.tested item value settled⟩
  · have lowered : search.flag = false := by
      cases raised : search.flag with
      | false => rfl
      | true =>
          obtain ⟨value, isFound⟩ := sound.raised raised
          rw [nothing] at isFound
          cases isFound
    have exhausted : ∀ item ∈ items, test search.round item = none := by
      intro item isItem
      cases probed : search.probe item with
      | settled result =>
          cases result with
          | none => exact sound.givenUp lowered item probed
          | some value =>
              have isFound := (mem_found_iff value).mpr ⟨item, isItem, probed⟩
              rw [nothing] at isFound
              cases isFound
      | _ =>
          have settled := ended item isItem
          rw [probed] at settled
          cases settled
    rw [same]
    refine ⟨?_, nofun, nofun, ?_, ?_⟩
    · intro round before item isItem
      obtain earlier | rfl := Nat.lt_succ_iff_lt_or_eq.mp before
      · exact sound.earlier round earlier item isItem
      · exact exhausted item isItem
    · intro raised
      exact absurd (lowered.symm.trans raised) (by decide)
    · intro value given
      rw [searching] at given
      cases given

variable [DecidableEq Item]

/-- A value that was found stays while an unsettled item moves. -/
theorem mem_found_update {value : Value} {item : Item} {moved : Probe Value}
    (unsettled : ∀ result, search.probe item ≠ .settled result)
    (isFound : value ∈ search.found items) (flag : Bool) :
    value ∈ ({ search with flag, probe := Function.update search.probe item moved } :
      Search Item Value).found items := by
  rw [mem_found_iff] at isFound ⊢
  obtain ⟨other, isItem, settled⟩ := isFound
  refine ⟨other, isItem, ?_⟩
  have different : other ≠ item := by
    rintro rfl
    exact unsettled _ settled
  exact (Function.update_of_ne different _ _).trans settled

theorem Sound.work (sound : search.Sound items test) {item : Item} (isItem : item ∈ items) :
    (search.work test item).Sound items test := by
  obtain ⟨-, same⟩ | ⟨lowered, waits, moved⟩ | ⟨raised, waits, moved⟩ | ⟨tests, moved⟩ :=
    work_cases test search item
  · rw [same]
    exact sound
  · rw [moved]
    refine ⟨sound.earlier, ?_, ?_, ?_, sound.result⟩
    · intro other value settled
      obtain ⟨-, ⟨⟩⟩ | ⟨-, before⟩ := probe_update_cases settled
      exact sound.tested other value before
    · intro _ other settled
      obtain ⟨-, ⟨⟩⟩ | ⟨-, before⟩ := probe_update_cases settled
      exact sound.givenUp lowered other before
    · intro raised
      exact absurd (lowered.symm.trans raised) (by decide)
  · rw [moved]
    refine ⟨sound.earlier, ?_, ?_, ?_, sound.result⟩
    · intro other value settled
      obtain ⟨-, ⟨⟩⟩ | ⟨-, before⟩ := probe_update_cases settled
      exact sound.tested other value before
    · intro lowered
      exact absurd (raised.symm.trans lowered) (by decide)
    · intro _
      obtain ⟨value, isFound⟩ := sound.raised raised
      exact ⟨value, mem_found_update (by simp [waits]) isFound _⟩
  · rw [moved]
    refine ⟨sound.earlier, ?_, ?_, ?_, sound.result⟩
    · intro other value settled
      obtain ⟨rfl, result⟩ | ⟨-, before⟩ := probe_update_cases settled
      · exact Probe.settled.inj result
      · exact sound.tested other value before
    · intro lowered other settled
      obtain ⟨rfl, result⟩ | ⟨-, before⟩ := probe_update_cases settled
      · exact Probe.settled.inj result
      · exact sound.givenUp (Bool.or_eq_false_iff.mp lowered).1 other before
    · intro raised
      obtain before | now := Bool.or_eq_true_iff.mp raised
      · obtain ⟨value, isFound⟩ := sound.raised before
        exact ⟨value, mem_found_update (by simp [tests]) isFound _⟩
      · obtain ⟨value, result⟩ := Option.isSome_iff_exists.mp now
        refine ⟨value, (mem_found_iff value).mpr ⟨item, isItem, ?_⟩⟩
        exact (Function.update_self _ _ _).trans (congrArg Probe.settled result)

theorem Sound.step (sound : search.Sound items test) (event : Event Item) :
    (search.step items test event).Sound items test := by
  cases given : search.result with
  | some value =>
      rw [step_of_result given]
      exact sound
  | none =>
      cases event with
      | work item =>
          by_cases isItem : item ∈ items
          · rw [step_work given isItem]
            exact sound.work isItem
          · rw [step_work_of_notMem isItem]
            exact sound
      | collect choice =>
          rw [step_collect given]
          exact sound.collect given choice

theorem sound_run (items : List Item) (test : Nat → Item → Option Value)
    (events : List (Event Item)) : (Steps.run (step items test) start events).Sound items test :=
  Steps.run_invariant sound_start (fun _ event sound => sound.step event) events

end Safety

section Progress

variable [DecidableEq Item]

theorem rank_work (test : Nat → Item → Option Value) (search : Search Item Value)
    (item other : Item) :
    (search.probe other).rank ≤ ((search.work test item).probe other).rank ∧
      min 2 ((search.probe item).rank + 1) ≤ ((search.work test item).probe item).rank := by
  have updated (moved : Probe Value) (larger : (search.probe item).rank < moved.rank) :
      (search.probe other).rank ≤ (Function.update search.probe item moved other).rank := by
    by_cases same : other = item
    · rw [same, Function.update_self]
      exact larger.le
    · rw [Function.update_of_ne same]
  obtain ⟨⟨result, settled⟩, same⟩ | ⟨-, waits, moved⟩ | ⟨-, waits, moved⟩ | ⟨tests, moved⟩ :=
    work_cases test search item
  · rw [same]
    exact ⟨Nat.le_refl _, by simp [settled, Probe.rank]⟩
  · rw [moved]
    exact ⟨updated _ (by simp [waits, Probe.rank]), by simp [waits, Probe.rank]⟩
  · rw [moved]
    exact ⟨updated _ (by simp [waits, Probe.rank]), by simp [waits, Probe.rank]⟩
  · rw [moved]
    exact ⟨updated _ (by simp [tests, Probe.rank]), by simp [tests, Probe.rank]⟩

theorem round_work (test : Nat → Item → Option Value) (search : Search Item Value)
    (item : Item) :
    (search.work test item).round = search.round ∧
      (search.work test item).result = search.result := by
  obtain ⟨-, same⟩ | ⟨-, -, same⟩ | ⟨-, -, same⟩ | ⟨-, same⟩ := work_cases test search item <;>
    rw [same] <;> exact ⟨rfl, rfl⟩

/-- How often a worker takes a turn with the item. -/
def turns (events : List (Event Item)) (item : Item) : Nat := events.count (.work item)

theorem turns_concat (events : List (Event Item)) (last : Event Item) (item : Item) :
    turns (events ++ [last]) item =
      turns events item + if last = .work item then 1 else 0 := by
  rw [turns, List.count_append, List.count_singleton, turns]
  by_cases same : last = .work item <;> simp [same]

/-- How far a search has come since it was at a round: it has a result or is at a later
round, or the items have moved on this often. -/
def Ahead (items : List Item) (round : Nat) (moves : Item → Nat) (search : Search Item Value) :
    Prop :=
  search.result.isSome ∨ round < search.round ∨
    search.round = round ∧ ∀ item ∈ items, min 2 (moves item) ≤ (search.probe item).rank

theorem Ahead.step {round : Nat} {events : List (Event Item)}
    (ahead : search.Ahead items round (turns events)) (last : Event Item) :
    (search.step items test last).Ahead items round (turns (events ++ [last])) := by
  cases given : search.result with
  | some value =>
      rw [step_of_result given]
      exact Or.inl (given ▸ rfl)
  | none =>
      obtain impossible | ahead := ahead
      · rw [given] at impossible
        cases impossible
      cases last with
      | work item =>
          by_cases isItem : item ∈ items
          · rw [step_work given isItem]
            obtain ⟨sameRound, -⟩ := round_work test search item
            obtain later | ⟨same, moved⟩ := ahead
            · exact Or.inr (Or.inl (sameRound ▸ later))
            · refine Or.inr (Or.inr ⟨sameRound.trans same, ?_⟩)
              intro other isOther
              obtain ⟨kept, moves⟩ := rank_work test search item other
              have before := moved other isOther
              rw [turns_concat]
              by_cases isSame : item = other
              · subst isSame
                rw [if_pos rfl]
                omega
              · rw [if_neg (fun same => isSame (Event.work.inj same))]
                exact before.trans kept
          · rw [step_work_of_notMem isItem]
            refine Or.inr (ahead.imp id fun both => ⟨both.1, ?_⟩)
            intro other isOther
            have different : item ≠ other := by
              rintro rfl
              exact isItem isOther
            rw [turns_concat, if_neg (fun same => different (Event.work.inj same))]
            exact both.2 other isOther
      | collect choice =>
          rw [step_collect given]
          obtain ⟨-, same⟩ | ⟨value, -, same⟩ | ⟨-, -, same⟩ :=
            collect_cases items search choice
          · rw [same]
            refine Or.inr (ahead.imp id fun both => ⟨both.1, ?_⟩)
            intro other isOther
            rw [turns_concat, if_neg nofun]
            exact both.2 other isOther
          · rw [same]
            exact Or.inl rfl
          · rw [same]
            refine Or.inr (Or.inl ?_)
            change round < search.round + 1
            obtain later | ⟨same, -⟩ := ahead <;> omega

theorem ahead_run (items : List Item) (test : Nat → Item → Option Value)
    (search : Search Item Value) (events : List (Event Item)) :
    (Steps.run (step items test) search events).Ahead items search.round (turns events) := by
  induction events using List.reverseRecOn with
  | nil => exact Or.inr (Or.inr ⟨rfl, fun _ _ => Nat.zero_le _⟩)
  | append_singleton events last inductionHypothesis =>
      rw [Steps.run_concat]
      exact inductionHypothesis.step last

theorem run_of_result {value : Value} (given : search.result = some value)
    (events : List (Event Item)) : Steps.run (step items test) search events = search := by
  induction events using List.reverseRecOn with
  | nil => rfl
  | append_singleton events last inductionHypothesis =>
      rw [Steps.run_concat, inductionHypothesis, step_of_result given]

/-- In a search that is collected after every item had its turns, a round is over. -/
theorem Ahead.collect {round : Nat} {moves : Item → Nat} (ahead : search.Ahead items round moves)
    (fair : ∀ item ∈ items, 2 ≤ moves item) (choice : Nat) :
    (search.step items test (.collect choice)).result.isSome ∨
      round < (search.step items test (.collect choice)).round := by
  cases given : search.result with
  | some value =>
      rw [step_of_result given]
      exact Or.inl (given ▸ rfl)
  | none =>
      rw [step_collect given]
      obtain ⟨going, same⟩ | ⟨value, -, same⟩ | ⟨-, -, same⟩ := collect_cases items search choice
      · rw [same]
        refine ahead.imp id fun further => further.resolve_right fun both => going ?_
        intro item isItem
        have moved := both.2 item isItem
        rw [Nat.min_eq_left (fair item isItem)] at moved
        exact Nat.le_antisymm (Probe.rank_le _) moved
      · rw [same]
        exact Or.inl rfl
      · rw [same]
        refine Or.inr ?_
        change round < search.round + 1
        obtain impossible | later | ⟨same, -⟩ := ahead
        · rw [given] at impossible
          cases impossible
        · exact Nat.lt_succ_of_lt later
        · exact Nat.lt_succ_of_le same.ge

/-- A stretch of events in which every item gets its turns, and a collection at its end. -/
structure Stretch (items : List Item) where
  events : List (Event Item)
  choice : Nat
  fair : ∀ item ∈ items, 2 ≤ turns events item

def Stretch.all {items : List Item} (stretches : List (Stretch items)) : List (Event Item) :=
  stretches.flatMap fun stretch => stretch.events ++ [.collect stretch.choice]

/-- Every stretch ends a round. -/
theorem result_or_rounds (test : Nat → Item → Option Value) (stretches : List (Stretch items)) :
    (Steps.run (step items test) start (Stretch.all stretches)).result.isSome ∨
      stretches.length ≤ (Steps.run (step items test) start (Stretch.all stretches)).round := by
  induction stretches using List.reverseRecOn with
  | nil => exact Or.inr (Nat.le_refl 0)
  | append_singleton stretches last inductionHypothesis =>
      have split : Stretch.all (stretches ++ [last]) =
          (Stretch.all stretches ++ last.events) ++ [.collect last.choice] := by
        simp [Stretch.all]
      rw [split, Steps.run_concat, Steps.run_append, List.length_append, List.length_singleton]
      generalize Steps.run (step items test) start (Stretch.all stretches) = before at *
      obtain found | length := inductionHypothesis
      · obtain ⟨value, given⟩ := Option.isSome_iff_exists.mp found
        rw [run_of_result given, step_of_result given]
        exact Or.inl found
      · have ahead := ahead_run items test before last.events
        exact (ahead.collect last.fair last.choice).imp id fun later => length.trans_lt later

/-- If there is something to find in a round, it is found by the stretches up to it. -/
theorem result_of_stretches (test : Nat → Item → Option Value) {round : Nat} {item : Item}
    (isItem : item ∈ items) {value : Value} (finds : test round item = some value)
    (stretches : List (Stretch items)) (many : round < stretches.length) :
    (Steps.run (step items test) start (Stretch.all stretches)).result.isSome := by
  have sound := sound_run items test (Stretch.all stretches)
  obtain found | length := result_or_rounds test stretches
  · exact found
  · have nothing := sound.earlier round (many.trans_le length) item isItem
    rw [finds] at nothing
    cases nothing

/-- A result belongs to the first round in which there is one. -/
theorem result_in_first_round (items : List Item) (test : Nat → Item → Option Value)
    (events : List (Event Item)) {value : Value}
    (given : (Steps.run (step items test) start events).result = some value) :
    ∃ round, (∃ item ∈ items, test round item = some value) ∧
      ∀ earlier < round, ∀ item ∈ items, test earlier item = none :=
  have sound := sound_run items test events
  ⟨_, sound.result value given, sound.earlier⟩

end Progress

end Search

end Foundation
