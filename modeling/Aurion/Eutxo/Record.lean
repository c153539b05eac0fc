import Aurion.Eutxo.Maturity

/-!
# The byte format of extended unspent outputs

The reader takes any byte but one for a cleared coinbase flag.  It accepts
exactly the spellings of a well-formed record with an arbitrary flag byte, of
which only those with the byte zero or one are the writer's.
-/

namespace Aurion

open Foundation

namespace ExtendedUtxo

/-- The record with a given byte in the place of its coinbase flag. -/
def encodeFlagged (utxo : ExtendedUtxo) (flag : UInt8) : Bytes :=
  utxo.value.encodeCanonical ++ encodeVecBytes utxo.lockingScript ++
    u64ToBeBytes utxo.creationHeight ++ [flag] ++ utxo.datum.encodeCanonical

def flagByte (utxo : ExtendedUtxo) : UInt8 := if utxo.isCoinbase then 1 else 0

def encodeCanonical (utxo : ExtendedUtxo) : Bytes := utxo.encodeFlagged utxo.flagByte

def decodeFromCursor : Decoder CodecError ExtendedUtxo := do
  let value ← Quantum.decodeFromCursor
  let lockingScript ← decodeVecBytes
  -- The source asks for the nine bytes of height and flag at once, with this same fault.
  let creationHeight ← decodeU64
  let isCoinbaseByte ← decodeByte
  let datum ← Datum.decodeFromCursor
  pure { value, lockingScript, creationHeight, isCoinbase := isCoinbaseByte == 1, datum }

instance : CanonicalCodec ExtendedUtxo := ⟨encodeCanonical, decodeFromCursor⟩

/-- The lengths a record can have on the wire are those of its output. -/
abbrev WellFormed (utxo : ExtendedUtxo) : Prop := utxo.toOutput.WellFormed

/-- The reader accepts the spellings of a record whose flag byte is one exactly
when the record is a coinbase's. -/
theorem decodeFromCursor_eq_ok_iff (cursor rest : Bytes) (utxo : ExtendedUtxo) :
    decodeFromCursor cursor = .ok (utxo, rest) ↔
      utxo.WellFormed ∧
        ∃ flag, utxo.isCoinbase = (flag == 1) ∧ cursor = utxo.encodeFlagged flag ++ rest := by
  simp only [decodeFromCursor, Decoder.bind_eq_ok_iff, Decoder.pure_eq_ok_iff,
    Quantum.canonical.eq_ok_iff, decodeVecBytes_canonical.eq_ok_iff,
    decodeU64_canonical.eq_ok_iff, decodeByte_eq_ok_iff, Datum.canonical.eq_ok_iff, true_and]
  constructor
  · intro read
    obtain ⟨value, _, rfl, lockingScript, _, ⟨bound, rfl⟩, creationHeight, _, rfl, flag, _, rfl,
      datum, _, ⟨datumValid, rfl⟩, rfl, rfl⟩ := read
    exact ⟨⟨bound, datumValid⟩, flag, rfl, by simp [encodeFlagged]⟩
  · intro spelled
    obtain ⟨⟨bound, datumValid⟩, flag, isFlag, rfl⟩ := spelled
    refine ⟨utxo.value, _, ?_, utxo.lockingScript, _, ⟨bound, rfl⟩, utxo.creationHeight, _, rfl,
      flag, _, rfl, utxo.datum, rest, ⟨datumValid, rfl⟩, ?_, rfl⟩
    · simp [encodeFlagged]
    · rw [← isFlag]

/-- Which byte strings are read as a record, and as which. -/
theorem decodeCanonical_iff_encodeFlagged (bytes : Bytes) (utxo : ExtendedUtxo) :
    decodeCanonical bytes = .ok utxo ↔
      utxo.WellFormed ∧
        ∃ flag, utxo.isCoinbase = (flag == 1) ∧ bytes = utxo.encodeFlagged flag := by
  have whole := decodeFromCursor_eq_ok_iff bytes [] utxo
  simp only [List.append_nil] at whole
  exact (decodeCanonical_iff_decodeFromCursor bytes utxo).trans whole

theorem encodeFlagged_injective (utxo : ExtendedUtxo) :
    Function.Injective utxo.encodeFlagged := by
  intro left right same
  simpa [encodeFlagged] using same

/-- A flag byte is the writer's when it is the only one for its flag. -/
theorem flagByte_eq_iff {utxo : ExtendedUtxo} {flag : UInt8}
    (isFlag : utxo.isCoinbase = (flag == 1)) : utxo.flagByte = flag ↔ flag = 0 ∨ flag = 1 := by
  rw [flagByte, isFlag]
  by_cases one : flag = 1
  · simp [one]
  · rw [beq_eq_false_iff_ne.mpr one, or_iff_left one]
    exact eq_comm

/-- What is read from a byte string is written back as that string exactly when
its flag byte is zero or one, and what is written is read back. -/
theorem record_exact (bytes : Bytes) :
    ((∀ utxo : ExtendedUtxo, decodeCanonical bytes = .ok utxo → utxo.encodeCanonical = bytes) ↔
      ∀ (utxo : ExtendedUtxo) (flag : UInt8), utxo.WellFormed →
        bytes = utxo.encodeFlagged flag → flag = 0 ∨ flag = 1) ∧
    ∀ utxo : ExtendedUtxo, utxo.WellFormed → decodeCanonical utxo.encodeCanonical = .ok utxo := by
  refine ⟨⟨?_, ?_⟩, ?_⟩
  · intro exactly utxo flag wellFormed spelled
    -- The record is read with the flag that this byte stands for.
    let read := { utxo with isCoinbase := flag == 1 }
    have decoded : decodeCanonical bytes = .ok read :=
      (decodeCanonical_iff_encodeFlagged bytes read).mpr ⟨wellFormed, flag, rfl, spelled⟩
    have written : read.encodeFlagged read.flagByte = read.encodeFlagged flag :=
      (exactly read decoded).trans spelled
    exact (flagByte_eq_iff rfl).mp (read.encodeFlagged_injective written)
  · intro boolean utxo decoded
    obtain ⟨wellFormed, flag, isFlag, spelled⟩ :=
      (decodeCanonical_iff_encodeFlagged bytes utxo).mp decoded
    have own : utxo.flagByte = flag :=
      (flagByte_eq_iff isFlag).mpr (boolean utxo flag wellFormed spelled)
    rw [encodeCanonical, own, spelled]
  · intro utxo wellFormed
    refine (decodeCanonical_iff_encodeFlagged _ utxo).mpr ⟨wellFormed, utxo.flagByte, ?_, rfl⟩
    cases given : utxo.isCoinbase <;> simp [flagByte, given]

/-- An empty record whose flag byte is two is read like the one whose byte is zero. -/
theorem record_not_exact :
    let record : ExtendedUtxo :=
      { value := Quantum.fromRaw 0, lockingScript := [], creationHeight := 0, isCoinbase := false
        datum := .none }
    let bytes : Bytes := List.replicate 28 0 ++ [2, 0]
    decodeCanonical bytes = .ok record ∧ record.encodeCanonical = List.replicate 28 0 ++ [0, 0] ∧
      record.encodeCanonical ≠ bytes := by
  decide +kernel

end ExtendedUtxo

end Aurion
