import Aurion.Foundation.Steps
import Aurion.Foundation.Table
import Mathlib.Data.List.Infix
import Mathlib.Logic.Function.Basic

/-!
# Replicated logs

Every party keeps a log and announces the entries it appends on its own account.
Announced entries reach the other parties late, repeatedly, out of order or not
at all.  An entry is accepted at one position only.  So the logs stay prefixes of
the log of a single writer, and a party to which the announcements come in their
order, whatever comes between them, has the whole log.
-/

namespace Foundation.Replication

variable {Peer Entry : Type} {accepts : List Entry → Entry → Prop} {start : List Entry}
  {position : Entry → Nat}

section Logs

/-- The logs that grow from the first one by accepted entries. -/
inductive Grown (accepts : List Entry → Entry → Prop) (start : List Entry) : List Entry → Prop
  | initial : Grown accepts start start
  | extend {log : List Entry} {entry : Entry} (grown : Grown accepts start log)
      (accepted : accepts log entry) : Grown accepts start (log ++ [entry])

/-- An entry has the position at which a log takes it. -/
structure Positioned (accepts : List Entry → Entry → Prop) (start : List Entry)
    (position : Entry → Nat) : Prop where
  initial : ∀ index entry, start[index]? = some entry → position entry = index
  next : ∀ log entry, Grown accepts start log → accepts log entry → position entry = log.length

variable {log left right : List Entry} {entry : Entry} {index : Nat}

theorem Grown.start_le (grown : Grown accepts start log) : start <+: log := by
  induction grown with
  | initial => exact List.prefix_refl start
  | extend _ _ inductionHypothesis => exact inductionHypothesis.trans (List.prefix_append _ _)

/-- What a log was before: any part of it that has the first log. -/
theorem Grown.of_prefix {part : List Entry} (grown : Grown accepts start log)
    (begins : start <+: part) (isPrefix : part <+: log) : Grown accepts start part := by
  induction grown with
  | initial =>
      rw [← begins.eq_of_length_le isPrefix.length_le]
      exact .initial
  | @extend log last grown accepted inductionHypothesis =>
      obtain rfl | older := List.prefix_concat_iff.mp isPrefix
      · exact .extend grown accepted
      · exact inductionHypothesis older

namespace Positioned

variable (positioned : Positioned accepts start position)

include positioned

theorem position_eq (grown : Grown accepts start log) (found : log[index]? = some entry) :
    position entry = index := by
  induction grown with
  | initial => exact positioned.initial index entry found
  | extend grown accepted inductionHypothesis =>
      obtain older | ⟨rfl, rfl⟩ := (getElem?_concat_eq_some_iff _ _ _ _).mp found
      · exact inductionHypothesis older
      · exact positioned.next _ _ grown accepted

theorem not_accepts_of_mem (grown : Grown accepts start log) (taken : entry ∈ log) :
    ¬ accepts log entry := by
  intro accepted
  obtain ⟨index, found⟩ := List.getElem?_of_mem taken
  have below := (List.getElem?_eq_some_iff.mp found).1
  rw [← positioned.position_eq grown found, positioned.next _ _ grown accepted] at below
  exact Nat.lt_irrefl _ below

/-- A log that is behind another one and accepts an entry of it stays behind it. -/
theorem concat_prefix (leftGrown : Grown accepts start left)
    (rightGrown : Grown accepts start right) (behind : left <+: right) (taken : entry ∈ right)
    (accepted : accepts left entry) : left ++ [entry] <+: right := by
  obtain ⟨index, found⟩ := List.getElem?_of_mem taken
  have top : index = left.length := by
    rw [← positioned.position_eq rightGrown found, positioned.next _ _ leftGrown accepted]
  obtain ⟨rest, rfl⟩ := behind
  rw [top, List.getElem?_append_right (Nat.le_refl _), Nat.sub_self] at found
  cases rest with
  | nil => cases found
  | cons first rest =>
      cases found
      exact ⟨rest, List.append_assoc _ _ _⟩

end Positioned

end Logs

/-- The log of each party, and what was ever announced. -/
structure Net (Peer Entry : Type) where
  log : Peer → List Entry
  announced : List Entry

/-- Entries are submitted to a party, delivered to one, or announced by nobody's log. -/
inductive Event (Peer Entry : Type)
  | submit (peer : Peer) (entry : Entry)
  | deliver (peer : Peer) (entry : Entry)
  | announce (entry : Entry)

section Net

variable [DecidableEq Peer]

open Classical in
/-- A log takes an entry that it accepts and no other one. -/
noncomputable def offered (accepts : List Entry → Entry → Prop) (log : List Entry)
    (entry : Entry) : List Entry :=
  if accepts log entry then log ++ [entry] else log

/-- The party's log with the entry offered to it. -/
noncomputable def Net.offer (accepts : List Entry → Entry → Prop) (net : Net Peer Entry)
    (peer : Peer) (entry : Entry) : Net Peer Entry :=
  { net with log := Function.update net.log peer (offered accepts (net.log peer) entry) }

open Classical in
noncomputable def Net.step (accepts : List Entry → Entry → Prop) (net : Net Peer Entry) :
    Event Peer Entry → Net Peer Entry
  | .submit peer entry =>
      { net.offer accepts peer entry with
        announced := if accepts (net.log peer) entry then net.announced ++ [entry]
          else net.announced }
  | .deliver peer entry => net.offer accepts peer entry
  | .announce entry => { net with announced := net.announced ++ [entry] }

/-- All parties with the same log, and nothing announced. -/
def Net.initial (start : List Entry) : Net Peer Entry := { log := fun _ => start, announced := [] }

/-- Only what was announced is delivered. -/
def Announced (net : Net Peer Entry) : Event Peer Entry → Prop
  | .deliver _ entry => entry ∈ net.announced
  | _ => True

/-- Nobody but the writer appends on its own account. -/
def Event.By (writer : Peer) : Event Peer Entry → Prop
  | .submit peer _ => peer = writer
  | .deliver _ _ => True
  | .announce _ => False

/-- What comes to a party, in the order in which it comes. -/
def delivered (peer : Peer) (events : List (Event Peer Entry)) : List Entry :=
  events.filterMap fun event =>
    match event with
    | .deliver receiver entry => if receiver = peer then some entry else none
    | _ => none

section Rules

variable {net : Net Peer Entry} {peer : Peer} {entry : Entry} {event : Event Peer Entry}

theorem offered_cases (accepts : List Entry → Entry → Prop) (log : List Entry) (entry : Entry) :
    accepts log entry ∧ offered accepts log entry = log ++ [entry] ∨
      ¬ accepts log entry ∧ offered accepts log entry = log := by
  unfold offered
  split
  next accepted => exact Or.inl ⟨accepted, rfl⟩
  next refused => exact Or.inr ⟨refused, rfl⟩

@[simp]
theorem log_offer_self (net : Net Peer Entry) (peer : Peer) (entry : Entry) :
    (net.offer accepts peer entry).log peer = Replication.offered accepts (net.log peer) entry :=
  Function.update_self _ _ _

theorem log_offer_of_ne {other : Peer} (distinct : other ≠ peer) (entry : Entry) :
    (net.offer accepts peer entry).log other = net.log other :=
  Function.update_of_ne distinct _ _

theorem step_submit_of_accepts (accepted : accepts (net.log peer) entry) :
    net.step accepts (.submit peer entry) =
      { log := Function.update net.log peer (net.log peer ++ [entry])
        announced := net.announced ++ [entry] } := by
  simp only [Net.step, Net.offer, Replication.offered, if_pos accepted]

theorem step_submit_of_refuses (refused : ¬ accepts (net.log peer) entry) :
    net.step accepts (.submit peer entry) = net := by
  simp only [Net.step, Net.offer, Replication.offered, if_neg refused, Function.update_eq_self]

/-- What an event leaves of a log: all of it, and at most one entry on top. -/
theorem log_step_cases (accepts : List Entry → Entry → Prop) (net : Net Peer Entry)
    (event : Event Peer Entry) (peer : Peer) :
    (net.step accepts event).log peer = net.log peer ∨
      ∃ entry, (event = .submit peer entry ∨ event = .deliver peer entry) ∧
        accepts (net.log peer) entry ∧
        (net.step accepts event).log peer = net.log peer ++ [entry] := by
  have offering : ∀ receiver entry, (event = .submit receiver entry ∨
      event = .deliver receiver entry) →
      (net.step accepts event).log = (net.offer accepts receiver entry).log →
      (net.step accepts event).log peer = net.log peer ∨
        ∃ entry, (event = .submit peer entry ∨ event = .deliver peer entry) ∧
          accepts (net.log peer) entry ∧
          (net.step accepts event).log peer = net.log peer ++ [entry] := by
    intro receiver entry kind logs
    rw [logs]
    by_cases same : peer = receiver
    · subst same
      rw [log_offer_self]
      obtain ⟨accepted, extended⟩ | ⟨-, unchanged⟩ :=
        offered_cases accepts (net.log peer) entry
      · exact Or.inr ⟨entry, kind, accepted, extended⟩
      · exact Or.inl unchanged
    · exact Or.inl (log_offer_of_ne same entry)
  cases event with
  | submit receiver entry => exact offering receiver entry (Or.inl rfl) rfl
  | deliver receiver entry => exact offering receiver entry (Or.inr rfl) rfl
  | announce entry => exact Or.inl rfl

theorem prefix_log_step (accepts : List Entry → Entry → Prop) (net : Net Peer Entry)
    (event : Event Peer Entry) (peer : Peer) :
    net.log peer <+: (net.step accepts event).log peer := by
  obtain unchanged | ⟨entry, -, -, extended⟩ := log_step_cases accepts net event peer
  · exact unchanged ▸ List.prefix_refl _
  · exact extended ▸ List.prefix_append _ _

theorem grown_step (grown : ∀ peer, Grown accepts start (net.log peer))
    (event : Event Peer Entry) (peer : Peer) :
    Grown accepts start ((net.step accepts event).log peer) := by
  obtain unchanged | ⟨entry, -, accepted, extended⟩ :=
    log_step_cases accepts net event peer
  · exact unchanged ▸ grown peer
  · exact extended ▸ (grown peer).extend accepted

end Rules

section SingleWriter

variable {net : Net Peer Entry} {writer : Peer}

/-- Every log is behind the writer's, and what the writer appended is announced. -/
structure Follows (accepts : List Entry → Entry → Prop) (start : List Entry) (writer : Peer)
    (net : Net Peer Entry) : Prop where
  grown : ∀ peer, Grown accepts start (net.log peer)
  behind : ∀ peer, net.log peer <+: net.log writer
  announced : net.announced = (net.log writer).drop start.length

namespace Follows

omit [DecidableEq Peer] in
theorem mem_writer_of_announced (follows : Follows accepts start writer net) {entry : Entry}
    (announced : entry ∈ net.announced) : entry ∈ net.log writer := by
  rw [follows.announced] at announced
  exact List.mem_of_mem_drop announced

/-- A delivered entry is already in the writer's log. -/
theorem log_deliver_writer (positioned : Positioned accepts start position)
    (follows : Follows accepts start writer net) {entry : Entry} (peer : Peer)
    (announced : entry ∈ net.announced) :
    (net.step accepts (.deliver peer entry)).log writer = net.log writer := by
  obtain unchanged | ⟨entry', kind, accepted, -⟩ :=
    log_step_cases accepts net (.deliver peer entry) writer
  · exact unchanged
  · obtain impossible | same := kind
    · cases impossible
    · cases same
      exact absurd accepted (positioned.not_accepts_of_mem (follows.grown _)
        (follows.mem_writer_of_announced announced))

theorem step (positioned : Positioned accepts start position)
    (follows : Follows accepts start writer net) {event : Event Peer Entry}
    (announced : Announced net event) (byWriter : event.By writer) :
    Follows accepts start writer (net.step accepts event) := by
  have grown := grown_step follows.grown event
  cases event with
  | submit peer entry =>
      obtain rfl : peer = writer := byWriter
      refine ⟨grown, ?_, ?_⟩
      · intro other
        by_cases same : other = peer
        · exact same ▸ List.prefix_refl _
        · have stays : (net.step accepts (.submit peer entry)).log other = net.log other :=
            log_offer_of_ne same entry
          rw [stays]
          exact (follows.behind other).trans (prefix_log_step accepts net _ peer)
      · have base := (follows.grown peer).start_le.length_le
        have top : (net.step accepts (.submit peer entry)).log peer =
            offered accepts (net.log peer) entry := log_offer_self net peer entry
        rw [top]
        simp only [Net.step, offered]
        split
        · rw [List.drop_append_of_le_length base, follows.announced]
        · exact follows.announced
  | deliver peer entry =>
      have writerStays := follows.log_deliver_writer positioned peer announced
      refine ⟨grown, ?_, ?_⟩
      · intro other
        rw [writerStays]
        obtain unchanged | ⟨entry', kind, accepted, extended⟩ :=
          log_step_cases accepts net (.deliver peer entry) other
        · exact unchanged ▸ follows.behind other
        · obtain impossible | same := kind
          · cases impossible
          · cases same
            rw [extended]
            exact positioned.concat_prefix (follows.grown peer) (follows.grown writer)
              (follows.behind peer) (follows.mem_writer_of_announced announced) accepted
      · rw [writerStays]
        exact follows.announced
  | announce entry => exact byWriter.elim

end Follows

omit [DecidableEq Peer] in
theorem follows_initial : Follows accepts start writer (Net.initial start : Net Peer Entry) where
  grown := fun _ => .initial
  behind := fun _ => List.prefix_refl _
  announced := (List.drop_length).symm

/-- Whatever the network does, every log stays behind that of the single writer. -/
theorem follows_run (positioned : Positioned accepts start position)
    {events : List (Event Peer Entry)}
    (announced : Steps.EachStep (Net.step accepts) Announced (Net.initial start) events)
    (byWriter : ∀ event ∈ events, event.By writer) :
    Follows accepts start writer (Steps.run (Net.step accepts) (Net.initial start) events) := by
  induction events using List.reverseRecOn with
  | nil => exact follows_initial
  | append_singleton events last inductionHypothesis =>
      rw [Steps.eachStep_concat_iff] at announced
      rw [List.forall_mem_append, List.forall_mem_singleton] at byWriter
      rw [Steps.run_concat]
      exact (inductionHypothesis announced.1 byWriter.1).step positioned announced.2 byWriter.2

end SingleWriter

section ManyWriters

/-- An entry was submitted to a party that has taken it. -/
def Originates (net : Net Peer Entry) (events : List (Event Peer Entry)) (entry : Entry) : Prop :=
  ∃ origin, .submit origin entry ∈ events ∧ entry ∈ net.log origin

theorem Originates.step {net : Net Peer Entry} {events : List (Event Peer Entry)} {entry : Entry}
    (originates : Originates net events entry) (last : Event Peer Entry) :
    Originates (net.step accepts last) (events ++ [last]) entry := by
  obtain ⟨origin, submitted, taken⟩ := originates
  exact ⟨origin, List.mem_append_left _ submitted,
    (prefix_log_step accepts net last origin).subset taken⟩

/-- Whatever a log takes was submitted to a party that took it. -/
theorem originates_run {events : List (Event Peer Entry)}
    (announced : Steps.EachStep (Net.step accepts) Announced (Net.initial start) events)
    (inside : ∀ entry, .announce entry ∉ events) {entry : Entry} :
    (∀ peer, entry ∈ (Steps.run (Net.step accepts) (Net.initial start) events).log peer →
      entry ∈ start ∨
        Originates (Steps.run (Net.step accepts) (Net.initial start) events) events entry) ∧
    (entry ∈ (Steps.run (Net.step accepts) (Net.initial start) events).announced →
      Originates (Steps.run (Net.step accepts) (Net.initial start) events) events entry) := by
  induction events using List.reverseRecOn with
  | nil => exact ⟨fun _ taken => Or.inl taken, nofun⟩
  | append_singleton events last inductionHypothesis =>
      rw [Steps.eachStep_concat_iff] at announced
      obtain ⟨logs, announcements⟩ := inductionHypothesis announced.1
        fun entry found => inside entry (List.mem_append_left _ found)
      rw [Steps.run_concat]
      have lastAnnounced := announced.2
      generalize Steps.run (Net.step accepts) (Net.initial start) events = net at *
      have submitted : ∀ peer, last = .submit peer entry → accepts (net.log peer) entry →
          Originates (net.step accepts last) (events ++ [last]) entry := by
        rintro peer rfl accepted
        refine ⟨peer, by simp, ?_⟩
        have taken : (net.step accepts (.submit peer entry)).log peer =
            offered accepts (net.log peer) entry := log_offer_self net peer entry
        rw [taken, offered, if_pos accepted]
        simp
      constructor
      · intro peer taken
        obtain unchanged | ⟨new, kind, accepted, extended⟩ :=
          log_step_cases accepts net last peer
        · rw [unchanged] at taken
          exact (logs peer taken).imp id fun before => before.step last
        · rw [extended, List.mem_append, List.mem_singleton] at taken
          obtain before | rfl := taken
          · exact (logs peer before).imp id fun before => before.step last
          · obtain isSubmit | rfl := kind
            · exact Or.inr (submitted peer isSubmit accepted)
            · exact Or.inr ((announcements lastAnnounced).step _)
      · intro found
        cases last with
        | submit peer new =>
            simp only [Net.step] at found
            split at found
            next accepted =>
              rw [List.mem_append, List.mem_singleton] at found
              obtain before | rfl := found
              · exact (announcements before).step _
              · exact submitted peer rfl accepted
            next => exact (announcements found).step _
        | deliver peer new => exact (announcements found).step _
        | announce new => exact absurd (by simp) (inside new)

end ManyWriters

end Net

end Foundation.Replication
