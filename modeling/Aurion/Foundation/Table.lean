import Mathlib.Data.List.AList
import Mathlib.Data.List.Induction
import Mathlib.Algebra.Order.BigOperators.Group.List
import Mathlib.Algebra.GroupWithZero.Nat

/-!
# Keyed tables updated in rounds

A table is a finite map.  A round removes a list of keys and then inserts a
list of bindings, in that order, so a key that a round both spends and creates
is present afterwards.  Three facts about rounds are kept here: how a replay
determines a lookup, how it bounds the total weight of the table, and when no
key is spent twice.
-/

namespace Foundation

/-- The entries of a list with one more at its end. -/
theorem getElem?_concat_eq_some_iff {Item : Type} (items : List Item) (last item : Item)
    (index : Nat) :
    (items ++ [last])[index]? = some item ↔
      items[index]? = some item ∨ index = items.length ∧ last = item := by
  rcases Nat.lt_trichotomy index items.length with old | new | beyond
  · rw [List.getElem?_append_left old]
    simp [Nat.ne_of_lt old]
  · simp [new]
  · rw [List.getElem?_eq_none (by simp; omega), List.getElem?_eq_none (by omega)]
    simp [Nat.ne_of_gt beyond]

/-- Items with disjoint parts occur once, unless they have no parts. -/
theorem nodup_filter_of_nodup_flatMap {Item Part : Type} (parts : Item → List Part)
    (keep : Item → Bool) (inhabited : ∀ item, keep item = true → parts item ≠ [])
    {items : List Item} (distinct : (items.flatMap parts).Nodup) : (items.filter keep).Nodup := by
  obtain ⟨-, disjoint⟩ := List.nodup_flatMap.mp distinct
  apply (disjoint.filter keep).imp_of_mem
  intro left right leftIn _ apart same
  subst same
  obtain ⟨part, isPart⟩ := List.exists_mem_of_ne_nil _
    (inhabited left (List.mem_filter.mp leftIn).2)
  exact apart isPart isPart

/-- A finite table; no key is bound twice. -/
abbrev Table (Key Value : Type) := AList fun _ : Key => Value

/-- One update of a table: first the removals, then the insertions. -/
structure Round (Key Value : Type) where
  spent : List Key
  created : List (Key × Value)

namespace Table

variable {Key Value : Type} [DecidableEq Key]

def eraseAll (table : Table Key Value) (keys : List Key) : Table Key Value :=
  keys.foldl (fun table key => table.erase key) table

def insertAll (table : Table Key Value) (bindings : List (Key × Value)) : Table Key Value :=
  bindings.foldl (fun table binding => table.insert binding.1 binding.2) table

def applyRound (table : Table Key Value) (round : Round Key Value) : Table Key Value :=
  (table.eraseAll round.spent).insertAll round.created

/-- The table reached from the empty one by a list of rounds. -/
def replay (rounds : List (Round Key Value)) : Table Key Value :=
  rounds.foldl applyRound ∅

@[simp]
theorem replay_append_singleton (rounds : List (Round Key Value)) (last : Round Key Value) :
    replay (rounds ++ [last]) = (replay rounds).applyRound last := by
  simp [replay]

section Lookup

theorem lookup_erase (table : Table Key Value) (erased key : Key) :
    (table.erase erased).lookup key = if key = erased then none else table.lookup key := by
  split
  next same => rw [same, AList.lookup_erase]
  next different => exact AList.lookup_erase_ne different

theorem lookup_insert (table : Table Key Value) (inserted key : Key) (value : Value) :
    (table.insert inserted value).lookup key =
      if key = inserted then some value else table.lookup key := by
  split
  next same => rw [same, AList.lookup_insert]
  next different => exact AList.lookup_insert_ne different

theorem lookup_eraseAll (table : Table Key Value) (keys : List Key) (key : Key) :
    (table.eraseAll keys).lookup key = if key ∈ keys then none else table.lookup key := by
  induction keys generalizing table with
  | nil => simp [eraseAll]
  | cons erased keys inductionHypothesis =>
      change (eraseAll (table.erase erased) keys).lookup key = _
      rw [inductionHypothesis, lookup_erase]
      by_cases inKeys : key ∈ keys <;> by_cases same : key = erased <;> simp [inKeys, same]

/-- When the inserted bindings agree on a key, the order of insertion is
irrelevant to that key. -/
theorem lookup_insertAll_eq_some_iff (table : Table Key Value)
    (bindings : List (Key × Value)) (key : Key) (value : Value)
    (agree : ∀ left right, (key, left) ∈ bindings → (key, right) ∈ bindings → left = right) :
    (table.insertAll bindings).lookup key = some value ↔
      (key, value) ∈ bindings ∨
        (∀ other, (key, other) ∉ bindings) ∧ table.lookup key = some value := by
  induction bindings generalizing table with
  | nil => simp [insertAll]
  | cons binding bindings inductionHypothesis =>
      rcases binding with ⟨inserted, new⟩
      change (insertAll (table.insert inserted new) bindings).lookup key = some value ↔ _
      rw [inductionHypothesis (table.insert inserted new)
        (fun left right leftIn rightIn => agree left right
          (List.mem_cons_of_mem _ leftIn) (List.mem_cons_of_mem _ rightIn)), lookup_insert]
      by_cases same : key = inserted
      · subst same
        have newest : ∀ other, (key, other) ∈ bindings → other = new := fun other otherIn =>
          agree other new (List.mem_cons_of_mem _ otherIn) List.mem_cons_self
        constructor
        · intro bound
          rcases bound with membership | ⟨-, found⟩
          · exact Or.inl (List.mem_cons_of_mem _ membership)
          · simp_all
        · intro bound
          rcases bound with membership | ⟨absent, -⟩
          · rcases List.mem_cons.mp membership with equality | inTail
            · cases equality
              by_cases again : (key, value) ∈ bindings
              · exact Or.inl again
              · refine Or.inr ⟨fun other otherIn => again ?_, by simp⟩
                rwa [newest other otherIn] at otherIn
            · exact Or.inl inTail
          · exact absurd List.mem_cons_self (absent new)
      · simp [same]

/-- Bindings of one value for several keys. -/
theorem lookup_insertAll_const (table : Table Key Value) (keys : List Key) (value : Value)
    (key : Key) :
    (table.insertAll (keys.map fun key => (key, value))).lookup key =
      if key ∈ keys then some value else table.lookup key := by
  induction keys generalizing table with
  | nil => simp [insertAll]
  | cons inserted keys inductionHypothesis =>
      change (insertAll (table.insert inserted value) _).lookup key = _
      rw [inductionHypothesis, lookup_insert]
      by_cases inKeys : key ∈ keys <;> by_cases same : key = inserted <;> simp [inKeys, same]

theorem lookup_applyRound_eq_some_iff (table : Table Key Value) (round : Round Key Value)
    (key : Key) (value : Value)
    (agree : ∀ left right, (key, left) ∈ round.created → (key, right) ∈ round.created →
      left = right) :
    (table.applyRound round).lookup key = some value ↔
      (key, value) ∈ round.created ∨
        (∀ other, (key, other) ∉ round.created) ∧ key ∉ round.spent ∧
          table.lookup key = some value := by
  rw [applyRound, lookup_insertAll_eq_some_iff _ _ _ _ agree, lookup_eraseAll]
  by_cases inSpent : key ∈ round.spent <;> simp [inSpent]

theorem mem_or_of_lookup_insertAll (table : Table Key Value) (bindings : List (Key × Value))
    {key : Key} {value : Value} (found : (table.insertAll bindings).lookup key = some value) :
    (key, value) ∈ bindings ∨
      (∀ other, (key, other) ∉ bindings) ∧ table.lookup key = some value := by
  induction bindings generalizing table with
  | nil => exact Or.inr ⟨by simp, found⟩
  | cons binding bindings inductionHypothesis =>
      rcases inductionHypothesis (table.insert binding.1 binding.2) found with
        inTail | ⟨absent, older⟩
      · exact Or.inl (List.mem_cons_of_mem _ inTail)
      · rw [lookup_insert] at older
        split at older
        next same =>
            cases older
            exact Or.inl (same ▸ List.mem_cons_self)
        next different =>
            refine Or.inr ⟨fun other membership => ?_, older⟩
            rcases List.mem_cons.mp membership with first | inTail
            · exact different (congrArg Prod.fst first)
            · exact absent other inTail

/-- A binding of the replayed table was created by the last round that creates
its key. -/
theorem exists_last_creation_of_lookup_replay (rounds : List (Round Key Value)) {key : Key}
    {value : Value} (found : (replay rounds).lookup key = some value) :
    ∃ older round newer, rounds = older ++ round :: newer ∧ (key, value) ∈ round.created ∧
      ∀ later ∈ newer, ∀ other, (key, other) ∉ later.created := by
  induction rounds using List.reverseRecOn with
  | nil => simp [replay] at found
  | append_singleton rounds last inductionHypothesis =>
      rw [replay_append_singleton, applyRound] at found
      rcases mem_or_of_lookup_insertAll _ _ found with created | ⟨absent, kept⟩
      · exact ⟨rounds, last, [], rfl, created, by simp⟩
      · rw [lookup_eraseAll] at kept
        split at kept
        · cases kept
        · obtain ⟨older, round, newer, rfl, created, latest⟩ := inductionHypothesis kept
          refine ⟨older, round, newer ++ [last], by simp, created, ?_⟩
          rw [List.forall_mem_append, List.forall_mem_singleton]
          exact ⟨latest, absent⟩

/-- A binding of the replayed table was created by some round. -/
theorem mem_created_of_lookup_replay (rounds : List (Round Key Value)) {key : Key}
    {value : Value} (found : (replay rounds).lookup key = some value) :
    ∃ round ∈ rounds, (key, value) ∈ round.created := by
  obtain ⟨older, round, newer, rfl, created, -⟩ :=
    exists_last_creation_of_lookup_replay rounds found
  exact ⟨round, by simp, created⟩

/-- A binding of the replayed table is a creation with no later creation of it
and no later spend of its key. -/
theorem lookup_replay_eq_some_iff (rounds : List (Round Key Value)) (key : Key) (value : Value)
    (agree : ∀ first ∈ rounds, ∀ second ∈ rounds, ∀ left right,
      (key, left) ∈ first.created → (key, right) ∈ second.created → left = right) :
    (replay rounds).lookup key = some value ↔
      ∃ (position : Nat) (round : Round Key Value),
        rounds[position]? = some round ∧ (key, value) ∈ round.created ∧
        ∀ (later : Nat) (other : Round Key Value), position < later → rounds[later]? = some other →
          (key, value) ∉ other.created ∧ key ∉ other.spent := by
  induction rounds using List.reverseRecOn with
  | nil => simp [replay]
  | append_singleton rounds last inductionHypothesis =>
      have agreeLast : ∀ left right, (key, left) ∈ last.created →
          (key, right) ∈ last.created → left = right :=
        agree last (by simp) last (by simp)
      have agreeInit : ∀ first ∈ rounds, ∀ second ∈ rounds, ∀ left right,
          (key, left) ∈ first.created → (key, right) ∈ second.created → left = right :=
        fun first firstIn second secondIn => agree first (List.mem_append_left _ firstIn)
          second (List.mem_append_left _ secondIn)
      rw [replay_append_singleton, lookup_applyRound_eq_some_iff _ _ _ _ agreeLast,
        inductionHypothesis agreeInit]
      constructor
      · intro lastOrOlder
        rcases lastOrOlder with created | ⟨absent, unspent, position, round, at_, created, latest⟩
        · refine ⟨rounds.length, last, by simp, created, ?_⟩
          intro later other after found
          rw [List.getElem?_eq_none (by simp; omega)] at found
          cases found
        · have bound : position < rounds.length := (List.getElem?_eq_some_iff.mp at_).1
          refine ⟨position, round, by rwa [List.getElem?_append_left bound], created, ?_⟩
          intro later other after found
          rcases (getElem?_concat_eq_some_iff _ _ _ _).mp found with older | ⟨-, rfl⟩
          · exact latest later other after older
          · exact ⟨absent value, unspent⟩
      · intro found
        rcases found with ⟨position, round, at_, created, latest⟩
        rcases (getElem?_concat_eq_some_iff _ _ _ _).mp at_ with at_ | ⟨-, rfl⟩
        · have old : position < rounds.length := (List.getElem?_eq_some_iff.mp at_).1
          obtain ⟨notCreated, unspent⟩ := latest rounds.length last old (by simp)
          refine Or.inr ⟨fun other otherIn => notCreated ?_, unspent, position, round, at_,
            created, fun later other after found => latest later other after ?_⟩
          · rwa [agree round (List.mem_append_left _ (List.mem_of_getElem? at_)) last (by simp)
              value other created otherIn]
          · rwa [List.getElem?_append_left (List.getElem?_eq_some_iff.mp found).1]
        · exact Or.inl created

end Lookup

section Total

/-- A sum over concatenated lists is the sum of their sums. -/
theorem sum_map_flatMap {Index Item : Type} (items : Index → List Item) (measure : Item → Nat)
    (indices : List Index) :
    ((indices.flatMap items).map measure).sum =
      (indices.map fun index => ((items index).map measure).sum).sum := by
  induction indices with
  | nil => rfl
  | cons index indices inductionHypothesis =>
      simp only [List.flatMap_cons, List.map_append, List.sum_append, List.map_cons,
        List.sum_cons, inductionHypothesis]

variable (weight : Value → Nat)

/-- The sum of the weights of all bound values. -/
def total (table : Table Key Value) : Nat := (table.entries.map fun entry => weight entry.2).sum

/-- The weight held under one key, zero when it is unbound. -/
def held (table : Table Key Value) (key : Key) : Nat := (table.lookup key).elim 0 weight

theorem held_of_lookup {table : Table Key Value} {key : Key} {value : Value}
    (found : table.lookup key = some value) : table.held weight key = weight value := by
  simp [held, found]

theorem total_erase (table : Table Key Value) (key : Key) :
    total weight (table.erase key) + table.held weight key = table.total weight := by
  by_cases bound : key ∈ table
  · rcases List.exists_of_kerase (AList.mem_keys.mp bound) with
      ⟨value, before, after, -, split, erased⟩
    have found : table.lookup key = some value := by
      rw [← Option.mem_def, AList.mem_lookup_iff, split]
      exact List.mem_append_right _ List.mem_cons_self
    have kept : (table.erase key).entries = before ++ after := erased
    rw [held_of_lookup weight found, total, total, kept, split]
    simp only [List.map_append, List.map_cons, List.sum_append, List.sum_cons]
    omega
  · have unbound : table.lookup key = none := AList.lookup_eq_none.mpr bound
    have kept : (table.erase key).entries = table.entries :=
      List.kerase_of_notMem_keys (mt AList.mem_keys.mpr bound)
    simp only [total, held, kept, unbound, Option.elim_none, Nat.add_zero]

/-- An insertion replaces the weight held under its key. -/
theorem total_insert (table : Table Key Value) (key : Key) (value : Value) :
    total weight (table.insert key value) + table.held weight key =
      table.total weight + weight value := by
  have erased := total_erase weight table key
  have expanded : total weight (table.insert key value) =
      weight value + total weight (table.erase key) := by
    rw [total, AList.entries_insert]
    rfl
  omega

theorem total_insert_le (table : Table Key Value) (key : Key) (value : Value) :
    total weight (table.insert key value) ≤ table.total weight + weight value :=
  Nat.le.intro (total_insert weight table key value)

theorem total_eraseAll (table : Table Key Value) {keys : List Key} (distinct : keys.Nodup) :
    (table.eraseAll keys).total weight + (keys.map (table.held weight)).sum =
      table.total weight := by
  induction keys generalizing table with
  | nil => simp [eraseAll]
  | cons key keys inductionHypothesis =>
      rw [List.nodup_cons] at distinct
      have step := inductionHypothesis (table.erase key) distinct.2
      have unchanged : keys.map (held weight (table.erase key)) = keys.map (table.held weight) := by
        apply List.map_congr_left
        intro other membership
        have different : other ≠ key := fun same => distinct.1 (same ▸ membership)
        simp [held, different]
      rw [unchanged] at step
      have erased := total_erase weight table key
      change total weight (eraseAll (table.erase key) keys) + _ = _
      simp only [List.map_cons, List.sum_cons]
      omega

theorem total_insertAll_le (table : Table Key Value) (bindings : List (Key × Value)) :
    (table.insertAll bindings).total weight ≤
      table.total weight + (bindings.map fun binding => weight binding.2).sum := by
  induction bindings generalizing table with
  | nil => simp [insertAll]
  | cons binding bindings inductionHypothesis =>
      have step := inductionHypothesis (table.insert binding.1 binding.2)
      have inserted := total_insert_le weight table binding.1 binding.2
      change total weight (insertAll (table.insert binding.1 binding.2) bindings) ≤ _
      simp only [List.map_cons, List.sum_cons]
      omega

/-- A round that spends distinct keys moves weight from the spent keys to the
created ones; overwriting a binding can only lose weight. -/
theorem total_applyRound_le (table : Table Key Value) (round : Round Key Value)
    (distinct : round.spent.Nodup) :
    (table.applyRound round).total weight + (round.spent.map (table.held weight)).sum ≤
      table.total weight + (round.created.map fun binding => weight binding.2).sum := by
  have erased := total_eraseAll weight table distinct
  have inserted := total_insertAll_le weight (table.eraseAll round.spent) round.created
  simp only [applyRound]
  omega

end Total

section SpentOnce

/-- No key of the history repeats, and none of them is bound any more. -/
structure SpentOnce (table : Table Key Value) (history : List Key) : Prop where
  distinct : history.Nodup
  absent : ∀ key ∈ history, table.lookup key = none

/-- A round keeps the history duplicate-free as long as it spends bound keys
and creates no key that has been spent before or in the round itself. -/
theorem SpentOnce.applyRound {table : Table Key Value} {history : List Key}
    (once : SpentOnce table history) (round : Round Key Value) (distinct : round.spent.Nodup)
    (bound : ∀ key ∈ round.spent, (table.lookup key).isSome)
    (fresh : ∀ binding ∈ round.created, binding.1 ∉ history ++ round.spent) :
    SpentOnce (table.applyRound round) (history ++ round.spent) where
  distinct := by
    rw [List.nodup_append]
    refine ⟨once.distinct, distinct, ?_⟩
    rintro key inHistory _ inSpent rfl
    have present := bound key inSpent
    rw [once.absent key inHistory] at present
    cases present
  absent := by
    intro key membership
    have notCreated : ∀ other, (key, other) ∉ round.created := fun other created =>
      fresh _ created membership
    rw [Option.eq_none_iff_forall_ne_some]
    intro value found
    rw [lookup_applyRound_eq_some_iff _ _ _ _
      (fun left _ leftIn => absurd leftIn (notCreated left))] at found
    rcases found with created | ⟨-, unspent, older⟩
    · exact notCreated value created
    · rcases List.mem_append.mp membership with inHistory | inSpent
      · rw [once.absent key inHistory] at older
        cases older
      · exact unspent inSpent

end SpentOnce

end Table

end Foundation
