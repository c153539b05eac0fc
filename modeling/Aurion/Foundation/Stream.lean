import Aurion.Foundation.Decoder

/-!
# Values on a stream

A stream carries the encodings of several values one after another and may end at
any byte.  A reader that is canonical and reports the end of an incomplete encoding
returns exactly the values whose encodings are complete.
-/

namespace Foundation

variable {Fault Value : Type}

namespace Decoder

theorem bind_of_ok {Next : Type} {first : Decoder Fault Value} (next : Value → Decoder Fault Next)
    {cursor rest : Bytes} {value : Value} (read : first cursor = .ok (value, rest)) :
    (first >>= next) cursor = next value rest := by
  change (first cursor >>= fun result => next result.1 result.2) = _
  rw [read]
  rfl

theorem bind_of_error {Next : Type} {first : Decoder Fault Value}
    (next : Value → Decoder Fault Next) {cursor : Bytes} {fault : Fault}
    (read : first cursor = .error fault) : (first >>= next) cursor = .error fault := by
  change (first cursor >>= fun result => next result.1 result.2) = _
  rw [read]
  rfl

theorem take_of_short (eof : Fault) {count : Nat} {cursor : Bytes}
    (short : cursor.length < count) : take eof count cursor = .error eof := if_pos short

/-- Each value that is read takes bytes off the stream. -/
def Consumes (decode : Decoder Fault Value) : Prop :=
  ∀ cursor value rest, decode cursor = .ok (value, rest) → rest.length < cursor.length

/-- Read values until one cannot be read: the values, and what ended the reading. -/
def drain (decode : Decoder Fault Value) (consumes : decode.Consumes) (cursor : Bytes) :
    List Value × Fault :=
  match _read : decode cursor with
  | .ok (value, rest) =>
      let drained := drain decode consumes rest
      (value :: drained.1, drained.2)
  | .error fault => ([], fault)
termination_by cursor.length
decreasing_by exact consumes cursor value rest _read

variable {decode : Decoder Fault Value} (consumes : decode.Consumes)

theorem drain_of_error {cursor : Bytes} {fault : Fault} (read : decode cursor = .error fault) :
    decode.drain consumes cursor = ([], fault) := by
  rw [drain]
  split
  next value rest found => rw [read] at found; cases found
  next fault' found => rw [read] at found; cases found; rfl

theorem drain_of_ok {cursor rest : Bytes} {value : Value}
    (read : decode cursor = .ok (value, rest)) :
    decode.drain consumes cursor =
      (value :: (decode.drain consumes rest).1, (decode.drain consumes rest).2) := by
  rw [drain]
  split
  next value' rest' found => rw [read] at found; cases found; rfl
  next fault found => rw [read] at found; cases found

end Decoder

/-- A canonical reader that reports `eof` where an encoding lacks its end. -/
structure Delimited (decode : Decoder Fault Value) (encode : Value → Bytes)
    (valid : Value → Prop) (eof : Fault) : Prop extends Canonical decode encode valid where
  ended : decode [] = .error eof
  cut : ∀ value part, valid value → part <+: encode value → part ≠ encode value →
    decode part = .error eof

namespace Delimited

variable {decode : Decoder Fault Value} {encode : Value → Bytes} {valid : Value → Prop}
  {eof : Fault}

theorem encode_ne_nil (delimited : Delimited decode encode valid eof) {value : Value}
    (isValid : valid value) : encode value ≠ [] := by
  intro empty
  have read := delimited.decode_encode isValid []
  rw [empty, List.append_nil, delimited.ended] at read
  cases read

theorem consumes (delimited : Delimited decode encode valid eof) : decode.Consumes := by
  intro cursor value rest read
  obtain ⟨isValid, rfl⟩ := (delimited.eq_ok_iff _ _ _).mp read
  have inhabited := List.length_pos_iff.mpr (delimited.encode_ne_nil isValid)
  rw [List.length_append]
  exact Nat.lt_add_of_pos_left inhabited

/-- Where the stream ends decides which values are read: those encoded in full. -/
theorem drain_of_isPrefix (delimited : Delimited decode encode valid eof) {values : List Value}
    (allValid : ∀ value ∈ values, valid value) {part : Bytes}
    (isPrefix : part <+: values.flatMap encode) :
    ∃ count ≤ values.length, decode.drain delimited.consumes part = (values.take count, eof) ∧
      ∀ sent ≤ values.length, (values.take sent).flatMap encode <+: part ↔ sent ≤ count := by
  induction values generalizing part with
  | nil =>
      obtain rfl : part = [] := List.prefix_nil.mp isPrefix
      refine ⟨0, Nat.le_refl 0, Decoder.drain_of_error _ delimited.ended, ?_⟩
      intro sent most
      obtain rfl : sent = 0 := Nat.le_zero.mp most
      simp
  | cons value values inductionHypothesis =>
      have isValid := allValid value (by simp)
      rw [List.flatMap_cons] at isPrefix
      by_cases complete : encode value <+: part
      · obtain ⟨rest, rfl⟩ := complete
        obtain ⟨count, most, drained, complete_iff⟩ := inductionHypothesis
          (fun other member => allValid other (List.mem_cons_of_mem value member))
          ((List.prefix_append_right_inj _).mp isPrefix)
        refine ⟨count + 1, Nat.succ_le_succ most, ?_, ?_⟩
        · rw [Decoder.drain_of_ok _ (delimited.decode_encode isValid rest), drained,
            List.take_succ_cons]
        · intro sent sentMost
          cases sent with
          | zero => simp
          | succ sent =>
              rw [List.take_succ_cons, List.flatMap_cons, List.prefix_append_right_inj,
                complete_iff sent (Nat.le_of_succ_le_succ sentMost), Nat.succ_le_succ_iff]
      · have proper : part <+: encode value :=
          (List.prefix_or_prefix_of_prefix isPrefix (List.prefix_append _ _)).resolve_right
            complete
        have short : part ≠ encode value := by
          rintro rfl
          exact complete (List.prefix_refl _)
        refine ⟨0, Nat.zero_le _,
          Decoder.drain_of_error _ (delimited.cut value part isValid proper short), ?_⟩
        intro sent _
        cases sent with
        | zero => simp
        | succ sent =>
            rw [List.take_succ_cons, List.flatMap_cons]
            simp only [Nat.le_zero, Nat.add_one_ne_zero, iff_false]
            intro within
            exact complete ((List.prefix_append _ _).trans within)

/-- A stream that ends between two values. -/
theorem drain_flatMap (delimited : Delimited decode encode valid eof) {values : List Value}
    (allValid : ∀ value ∈ values, valid value) :
    decode.drain delimited.consumes (values.flatMap encode) = (values, eof) := by
  obtain ⟨count, most, drained, complete_iff⟩ :=
    delimited.drain_of_isPrefix allValid (List.prefix_refl (values.flatMap encode))
  have all := (complete_iff values.length (Nat.le_refl _)).mp
    (by simp only [List.take_length, List.prefix_refl])
  rw [drained, List.take_of_length_le all]

/-- Values in front of a stream are read before it. -/
theorem drain_flatMap_append (delimited : Delimited decode encode valid eof) {values : List Value}
    (allValid : ∀ value ∈ values, valid value) (rest : Bytes) :
    decode.drain delimited.consumes (values.flatMap encode ++ rest) =
      (values ++ (decode.drain delimited.consumes rest).1,
        (decode.drain delimited.consumes rest).2) := by
  induction values with
  | nil => rfl
  | cons value values inductionHypothesis =>
      rw [List.forall_mem_cons] at allValid
      rw [List.flatMap_cons, List.append_assoc,
        Decoder.drain_of_ok _ (delimited.decode_encode allValid.1 _),
        inductionHypothesis allValid.2, List.cons_append]

/-- Where a stream has no first value is told by the fault that ends its reading. -/
theorem decode_of_drain_nil (delimited : Delimited decode encode valid eof) {rest : Bytes}
    {fault : Fault} (drained : decode.drain delimited.consumes rest = ([], fault)) :
    decode rest = .error fault := by
  cases read : decode rest with
  | error found =>
      rw [Decoder.drain_of_error _ read, Prod.mk.injEq] at drained
      rw [drained.2]
  | ok found =>
      rw [Decoder.drain_of_ok _ read] at drained
      cases drained

end Delimited

end Foundation
