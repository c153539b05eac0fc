import Aurion.Foundation.Decoder

/-!
# Decoders that log their reservations

A metered decoder records, for each room it reserves, how many elements it
asked for and how many bytes were left at that point.  The log survives a
fault.  Without its log a metered decoder is a plain one, and a place says
behind which bytes it reserves how much.
-/

namespace Foundation

variable {Fault Value Next : Type}

/-- Room for `count` elements, reserved with `remaining` bytes left. -/
@[ext]
structure Reservation where
  count : Nat
  remaining : Nat
  deriving DecidableEq, Repr

/-- No more elements than bytes. -/
def Reservation.Covered (reservation : Reservation) : Prop :=
  reservation.count ≤ reservation.remaining

instance (reservation : Reservation) : Decidable reservation.Covered :=
  inferInstanceAs (Decidable (_ ≤ _))

structure Metered (Fault Value : Type) where
  run : Bytes → Except Fault (Value × Bytes) × List Reservation

namespace Metered

/-- The decoder without its log. -/
def result (decode : Metered Fault Value) : Decoder Fault Value := fun cursor =>
  (decode.run cursor).1

def reservations (decode : Metered Fault Value) (cursor : Bytes) : List Reservation :=
  (decode.run cursor).2

/-- What follows a decoder runs on the bytes it leaves, if it succeeds. -/
def andThen (first : Metered Fault Value) (next : Value → Metered Fault Next) :
    Metered Fault Next where
  run cursor :=
    match first.result cursor with
    | .error fault => (.error fault, first.reservations cursor)
    | .ok (value, rest) =>
        ((next value).result rest, first.reservations cursor ++ (next value).reservations rest)

instance : Monad (Metered Fault) where
  pure value := ⟨fun cursor => (.ok (value, cursor), [])⟩
  bind := andThen

/-- A plain decoder reserves nothing. -/
def lift (decode : Decoder Fault Value) : Metered Fault Value where
  run cursor := (decode cursor, [])

def withCapacity (count : Nat) : Metered Fault Unit where
  run cursor := (.ok ((), cursor), [{ count, remaining := cursor.length }])

/-- Run a decoder `count` times and collect the values in order. -/
def times (decode : Metered Fault Value) : Nat → Metered Fault (List Value)
  | 0 => pure []
  | count + 1 => do
      let head ← decode
      let tail ← decode.times count
      pure (head :: tail)

/-- Reserve room for `count` values, then read them. -/
def collect (decode : Metered Fault Value) (count : Nat) : Metered Fault (List Value) := do
  withCapacity count
  decode.times count

theorem length_le_length_flatMap {encode : Value → Bytes} (nonempty : ∀ value, encode value ≠ [])
    (values : List Value) : values.length ≤ (values.flatMap encode).length := by
  induction values with
  | nil => exact Nat.le_refl 0
  | cons head tail inductionHypothesis =>
      have one : 1 ≤ (encode head).length := List.length_pos_of_ne_nil (nonempty head)
      rw [List.flatMap_cons, List.length_append, List.length_cons, Nat.add_comm]
      exact Nat.add_le_add one inductionHypothesis

section Result

@[simp]
theorem result_pure (value : Value) : (pure value : Metered Fault Value).result = pure value := rfl

@[simp]
theorem result_bind (first : Metered Fault Value) (next : Value → Metered Fault Next) :
    (first >>= next).result = first.result >>= fun value => (next value).result := by
  funext cursor
  change ((first.andThen next).run cursor).1 = (first.result cursor).bind _
  simp only [andThen]
  cases first.result cursor <;> rfl

@[simp]
theorem result_lift (decode : Decoder Fault Value) : (lift decode).result = decode := rfl

@[simp]
theorem result_times (decode : Metered Fault Value) (count : Nat) :
    (decode.times count).result = decode.result.times count := by
  induction count with
  | zero => rfl
  | succ count inductionHypothesis =>
      simp only [times, Decoder.times, result_bind, inductionHypothesis, result_pure]

@[simp]
theorem result_collect (decode : Metered Fault Value) (count : Nat) :
    (decode.collect count).result = decode.result.times count := by
  rw [← result_times]
  rfl

end Result

section Log

@[simp]
theorem reservations_pure (value : Value) (cursor : Bytes) :
    (pure value : Metered Fault Value).reservations cursor = [] := rfl

@[simp]
theorem reservations_lift (decode : Decoder Fault Value) (cursor : Bytes) :
    (lift decode).reservations cursor = [] := rfl

/-- A sequence reserves what its first part does and, behind the bytes that part
reads, what its second does. -/
theorem mem_reservations_bind (first : Metered Fault Value) (next : Value → Metered Fault Next)
    (cursor : Bytes) (reservation : Reservation) :
    reservation ∈ (first >>= next).reservations cursor ↔
      reservation ∈ first.reservations cursor ∨
        ∃ value rest, first.result cursor = .ok (value, rest) ∧
          reservation ∈ (next value).reservations rest := by
  change reservation ∈ ((first.andThen next).run cursor).2 ↔ _
  simp only [andThen]
  cases first.result cursor with
  | error fault => simp
  | ok read =>
      obtain ⟨value, rest⟩ := read
      simp

theorem mem_reservations_collect (decode : Metered Fault Value) (count : Nat) (cursor : Bytes)
    (reservation : Reservation) :
    reservation ∈ (decode.collect count).reservations cursor ↔
      reservation = { count, remaining := cursor.length } ∨
        reservation ∈ (decode.times count).reservations cursor := by
  change reservation ∈ _ :: _ ↔ _
  rw [List.mem_cons]
  rfl

/-- A collection of values that reserve nothing themselves reserves once. -/
theorem mem_reservations_collect_lift (decode : Decoder Fault Value) (count : Nat)
    (cursor : Bytes) (reservation : Reservation) :
    reservation ∈ ((lift decode).collect count).reservations cursor ↔
      reservation = { count, remaining := cursor.length } := by
  have none : ∀ cursor, reservation ∉ ((lift decode).times count).reservations cursor := by
    induction count with
    | zero => simp [times]
    | succ count inductionHypothesis => simp [times, mem_reservations_bind, inductionHypothesis]
  rw [mem_reservations_collect, or_iff_left (none cursor)]

end Log

/-- No place claims more elements than there are bytes behind it. -/
def Covers (place : Bytes → Nat → Prop) (cursor : Bytes) : Prop :=
  ∀ ahead claimed rest, place ahead claimed → cursor = ahead ++ rest → claimed ≤ rest.length

/-- The decoder reserves room for `claimed` elements exactly behind the bytes
`ahead` that the place names. -/
structure Reserves (decode : Metered Fault Value) (place : Bytes → Nat → Prop) : Prop where
  mem_iff : ∀ cursor reservation, reservation ∈ decode.reservations cursor ↔
    ∃ ahead rest, place ahead reservation.count ∧ cursor = ahead ++ rest ∧
      reservation.remaining = rest.length

namespace Reserves

variable {decode : Metered Fault Value} {place : Bytes → Nat → Prop}

theorem covered_iff (reserves : Reserves decode place) (cursor : Bytes) :
    (∀ reservation ∈ decode.reservations cursor, reservation.Covered) ↔ Covers place cursor := by
  constructor
  · intro covered ahead claimed rest isPlace split
    exact covered ⟨claimed, rest.length⟩
      ((reserves.mem_iff cursor _).mpr ⟨ahead, rest, isPlace, split, rfl⟩)
  · intro bounded reservation logged
    obtain ⟨ahead, rest, isPlace, split, remaining⟩ :=
      (reserves.mem_iff cursor reservation).mp logged
    rw [Reservation.Covered, remaining]
    exact bounded ahead reservation.count rest isPlace split

theorem congr {place' : Bytes → Nat → Prop} (reserves : Reserves decode place)
    (same : ∀ ahead claimed, place ahead claimed ↔ place' ahead claimed) :
    Reserves decode place' where
  mem_iff := by
    simpa only [same] using reserves.mem_iff

/-- The places behind a field that reserves nothing itself. -/
theorem behind {first : Decoder Fault Value} {encode : Value → Bytes} {valid : Value → Prop}
    (canonical : Canonical first encode valid) {next : Value → Metered Fault Next}
    {inner : Value → Bytes → Nat → Prop} (reserves : ∀ value, Reserves (next value) (inner value)) :
    Reserves (Metered.lift first >>= next) (fun ahead claimed =>
      ∃ value front, valid value ∧ ahead = encode value ++ front ∧ inner value front claimed) where
  mem_iff := by
    intro cursor reservation
    simp only [mem_reservations_bind, reservations_lift, List.not_mem_nil, false_or, result_lift,
      canonical.eq_ok_iff, (reserves _).mem_iff]
    constructor
    · intro logged
      obtain ⟨value, _, ⟨isValid, rfl⟩, front, rest, isPlace, rfl, remaining⟩ := logged
      exact ⟨encode value ++ front, rest, ⟨value, front, isValid, rfl, isPlace⟩,
        (List.append_assoc _ _ _).symm, remaining⟩
    · intro placed
      obtain ⟨_, rest, ⟨value, front, isValid, rfl, isPlace⟩, rfl, remaining⟩ := placed
      exact ⟨value, front ++ rest, ⟨isValid, List.append_assoc _ _ _⟩, front, rest, isPlace, rfl,
        remaining⟩

/-- A repetition reserves inside each value it gets to. -/
theorem times {encode : Value → Bytes} {valid : Value → Prop}
    (canonical : Canonical decode.result encode valid) (reserves : Reserves decode place)
    (count : Nat) :
    Reserves (decode.times count) (fun ahead claimed =>
      ∃ (before : List Value) (front : Bytes), before.length < count ∧
        (∀ value ∈ before, valid value) ∧ ahead = before.flatMap encode ++ front ∧
        place front claimed) where
  mem_iff := by
    induction count with
    | zero =>
        intro cursor reservation
        simp [Metered.times]
    | succ count inductionHypothesis =>
        intro cursor reservation
        simp only [Metered.times, mem_reservations_bind, result_times, reservations_pure,
          List.not_mem_nil, and_false, exists_false, or_false, canonical.eq_ok_iff,
          inductionHypothesis, reserves.mem_iff]
        constructor
        · intro logged
          rcases logged with ⟨front, rest, isPlace, rfl, remaining⟩ |
            ⟨head, _, ⟨headValid, rfl⟩, _, rest, ⟨before, front, few, valid, rfl, isPlace⟩, rfl,
              remaining⟩
          · exact ⟨front, rest, ⟨[], front, by simp, by simp, rfl, isPlace⟩, rfl, remaining⟩
          · refine ⟨(head :: before).flatMap encode ++ front, rest,
              ⟨head :: before, front, Nat.succ_lt_succ few, ?_, rfl, isPlace⟩, ?_, remaining⟩
            · exact List.forall_mem_cons.mpr ⟨headValid, valid⟩
            · simp
        · intro placed
          obtain ⟨_, rest, ⟨before, front, few, valid, rfl, isPlace⟩, rfl, remaining⟩ := placed
          cases before with
          | nil => exact Or.inl ⟨front, rest, isPlace, rfl, remaining⟩
          | cons head before =>
              obtain ⟨headValid, beforeValid⟩ := List.forall_mem_cons.mp valid
              refine Or.inr ⟨head, before.flatMap encode ++ front ++ rest, ⟨headValid, by simp⟩,
                before.flatMap encode ++ front, rest,
                ⟨before, front, Nat.lt_of_succ_lt_succ few, beforeValid, rfl, isPlace⟩, rfl,
                remaining⟩

/-- A collection reserves at its front and inside each value it gets to. -/
theorem collect {encode : Value → Bytes} {valid : Value → Prop}
    (canonical : Canonical decode.result encode valid) (reserves : Reserves decode place)
    (count : Nat) :
    Reserves (decode.collect count) (fun ahead claimed =>
      (ahead = [] ∧ claimed = count) ∨
        ∃ (before : List Value) (front : Bytes), before.length < count ∧
          (∀ value ∈ before, valid value) ∧ ahead = before.flatMap encode ++ front ∧
          place front claimed) where
  mem_iff := by
    intro cursor reservation
    rw [mem_reservations_collect, (reserves.times canonical count).mem_iff]
    constructor
    · intro logged
      rcases logged with rfl | ⟨ahead, rest, inside, split, remaining⟩
      · exact ⟨[], cursor, Or.inl ⟨rfl, rfl⟩, rfl, rfl⟩
      · exact ⟨ahead, rest, Or.inr inside, split, remaining⟩
    · intro placed
      obtain ⟨_, rest, ⟨rfl, claimed⟩ | inside, rfl, remaining⟩ := placed
      · exact Or.inl (Reservation.ext claimed remaining)
      · exact Or.inr ⟨_, rest, inside, rfl, remaining⟩

end Reserves

/-- Whatever the decoder accepts had covered all its reservations. -/
def Sparing (decode : Metered Fault Value) : Prop :=
  ∀ cursor value rest, decode.result cursor = .ok (value, rest) →
    ∀ reservation ∈ decode.reservations cursor, reservation.Covered

namespace Sparing

variable {decode : Metered Fault Value}

theorem pure (value : Value) : Sparing (Pure.pure value : Metered Fault Value) := by
  intro cursor read rest _ reservation logged
  simp at logged

theorem lift (decode : Decoder Fault Value) : Sparing (Metered.lift decode) := by
  intro cursor value rest _ reservation logged
  simp at logged

theorem bind {first : Metered Fault Value} {next : Value → Metered Fault Next}
    (head : Sparing first) (tail : ∀ value, Sparing (next value)) : Sparing (first >>= next) := by
  intro cursor value rest accepted reservation logged
  rw [result_bind, Decoder.bind_eq_ok_iff] at accepted
  obtain ⟨between, middle, firstAccepted, nextAccepted⟩ := accepted
  rcases (mem_reservations_bind _ _ _ _).mp logged with inFirst | ⟨_, _, same, inNext⟩
  · exact head cursor between middle firstAccepted reservation inFirst
  · rw [firstAccepted] at same
    cases same
    exact tail between middle value rest nextAccepted reservation inNext

theorem times (sparing : Sparing decode) (count : Nat) : Sparing (decode.times count) := by
  induction count with
  | zero => exact pure []
  | succ count inductionHypothesis =>
      exact sparing.bind fun head => inductionHypothesis.bind fun tail => pure (head :: tail)

/-- As many values as were reserved take at least as many bytes. -/
theorem collect {encode : Value → Bytes} {valid : Value → Prop}
    (canonical : Canonical decode.result encode valid) (nonempty : ∀ value, encode value ≠ [])
    (sparing : Sparing decode) (count : Nat) : Sparing (decode.collect count) := by
  intro cursor values rest accepted reservation logged
  rw [result_collect] at accepted
  rcases (mem_reservations_collect _ _ _ _).mp logged with rfl | inside
  · obtain ⟨⟨length, -⟩, rfl⟩ := ((canonical.times count).eq_ok_iff _ _ _).mp accepted
    have bytes : values.length ≤ (values.flatMap encode).length :=
      length_le_length_flatMap nonempty values
    rw [Reservation.Covered, List.length_append, ← length]
    exact Nat.le_add_right_of_le bytes
  · rw [← result_times] at accepted
    exact sparing.times count cursor values rest accepted reservation inside

theorem collect_lift {decode : Decoder Fault Value} {encode : Value → Bytes}
    {valid : Value → Prop} (canonical : Canonical decode encode valid)
    (nonempty : ∀ value, encode value ≠ []) (count : Nat) :
    Sparing ((Metered.lift decode).collect count) :=
  collect (show Canonical (Metered.lift decode).result encode valid from canonical) nonempty
    (lift decode) count

theorem covers_of_accepted {place : Bytes → Nat → Prop} (sparing : Sparing decode)
    (reserves : Reserves decode place) {cursor rest : Bytes} {value : Value}
    (accepted : decode.result cursor = .ok (value, rest)) : Covers place cursor :=
  (reserves.covered_iff cursor).mp (sparing cursor value rest accepted)

end Sparing

end Metered

end Foundation
