import Aurion.Foundation.Utf8
import Aurion.Primitives

/-!
# Frames of the peer-to-peer network

A frame is a header of 52 bytes and a payload.  Reading a frame checks the magic
bytes, the declared length and the checksum; what stands behind the command's
first zero byte and behind the payload is not looked at.
-/

namespace Aurion

open Foundation

/-- The errors of reading and writing frames. -/
inductive NetworkError
  | incompleteHeader (received : Nat)
  | invalidMagic (magic : Bytes)
  | commandTooLong (command : String)
  | invalidCommandEncoding
  | payloadTooLarge (declared max : Nat)
  | truncatedPayload (declared actual : Nat)
  | checksumMismatch
  | codecError (message : String)
  deriving DecidableEq

/-- `AUR` and a byte 1. -/
def magicBytes : Bytes := [0x41, 0x55, 0x52, 0x01]

def headerSize : Nat := 52

def commandSize : Nat := 12

def maxPayloadSize : Nat := 4 * 1024 * 1024

/-- The command field: the bytes of the command, then zeros. -/
def padCommand (command : String) : Bytes :=
  utf8Bytes command ++ List.replicate (commandSize - (utf8Bytes command).length) 0

/-- The command is what stands before the first zero byte of its field. -/
def decodeCommand (cmdRaw : Bytes) : Except NetworkError String :=
  match utf8String? (cmdRaw.takeWhile (· ≠ 0)) with
  | some command => .ok command
  | none => .error .invalidCommandEncoding

theorem decodeCommand_eq_ok_iff (cmdRaw : Bytes) (command : String) :
    decodeCommand cmdRaw = .ok command ↔ cmdRaw.takeWhile (· ≠ 0) = utf8Bytes command := by
  rw [← utf8String?_eq_some_iff, decodeCommand]
  cases utf8String? (cmdRaw.takeWhile (· ≠ 0)) <;> simp

section Definition

variable [Crypto]

/-- A frame with the given 12 bytes as its command field. -/
def frameBytes (cmdBytes payload : Bytes) : Bytes :=
  magicBytes ++ (cmdBytes ++ (u32ToBeBytes (UInt32.ofNat payload.length) ++
    ((Hash256.digest payload).asBytes ++ payload)))

def packFrame (command : String) (payload : Bytes) : Except NetworkError Bytes := do
  ensure ((utf8Bytes command).length ≤ commandSize) (.commandTooLong command)
  ensure (payload.length ≤ maxPayloadSize) (.payloadTooLarge payload.length maxPayloadSize)
  pure (frameBytes (padCommand command) payload)

def unpackFrame (raw : Bytes) : Except NetworkError (String × Bytes) := do
  ensure (headerSize ≤ raw.length) (.incompleteHeader raw.length)
  let header := raw.take headerSize
  let body := raw.drop headerSize
  let magic := header.take 4
  ensure (magic = magicBytes) (.invalidMagic magic)
  let cmdStr ← decodeCommand ((header.drop 4).take 12)
  let payloadLen := (u32FromBeBytes ((header.drop 16).take 4)).toNat
  ensure (payloadLen ≤ maxPayloadSize) (.payloadTooLarge payloadLen maxPayloadSize)
  ensure (payloadLen ≤ body.length) (.truncatedPayload payloadLen body.length)
  let payload := body.take payloadLen
  let expected := (header.drop 20).take 32
  ensure ((Hash256.digest payload).asBytes = expected) .checksumMismatch
  pure (cmdStr, payload)

end Definition

section Layout

/-- The fields of a header and the bytes after it. -/
structure FrameParts where
  magic : Bytes
  cmdRaw : Bytes
  lenBytes : Bytes
  expected : Bytes
  body : Bytes

namespace FrameParts

def bytes (parts : FrameParts) : Bytes :=
  parts.magic ++ (parts.cmdRaw ++ (parts.lenBytes ++ (parts.expected ++ parts.body)))

structure Sized (parts : FrameParts) : Prop where
  magic : parts.magic.length = 4
  cmdRaw : parts.cmdRaw.length = 12
  lenBytes : parts.lenBytes.length = 4
  expected : parts.expected.length = 32

/-- Every byte string with a whole header is cut in one way. -/
theorem exists_sized {raw : Bytes} (complete : headerSize ≤ raw.length) :
    ∃ parts : FrameParts, parts.Sized ∧ parts.bytes = raw := by
  unfold headerSize at complete
  refine ⟨⟨raw.take 4, (raw.drop 4).take 12, (raw.drop 16).take 4, (raw.drop 20).take 32,
    raw.drop 52⟩, ⟨?_, ?_, ?_, ?_⟩, ?_⟩
  · simp; omega
  · simp; omega
  · simp; omega
  · simp; omega
  · have cut (from_ width : Nat) :
        (raw.drop from_).take width ++ raw.drop (from_ + width) = raw.drop from_ := by
      rw [← List.drop_drop, List.take_append_drop]
    simp only [bytes]
    rw [cut 20 32, cut 16 4, cut 4 12, List.take_append_drop]

variable {parts : FrameParts}

theorem length_bytes (sized : parts.Sized) :
    parts.bytes.length = headerSize + parts.body.length := by
  obtain ⟨magic, cmdRaw, lenBytes, expected⟩ := sized
  simp only [bytes, List.length_append, magic, cmdRaw, lenBytes, expected, headerSize]
  omega

/-- The slices of the source are the parts. -/
theorem slices (sized : parts.Sized) :
    (parts.bytes.take headerSize).take 4 = parts.magic ∧
      ((parts.bytes.take headerSize).drop 4).take 12 = parts.cmdRaw ∧
      ((parts.bytes.take headerSize).drop 16).take 4 = parts.lenBytes ∧
      ((parts.bytes.take headerSize).drop 20).take 32 = parts.expected ∧
      parts.bytes.drop headerSize = parts.body := by
  obtain ⟨magic, cmdRaw, lenBytes, expected⟩ := sized
  have header : parts.bytes =
      (parts.magic ++ (parts.cmdRaw ++ (parts.lenBytes ++ parts.expected))) ++ parts.body := by
    simp [bytes]
  have size : (parts.magic ++ (parts.cmdRaw ++ (parts.lenBytes ++ parts.expected))).length =
      headerSize := by
    simp [magic, cmdRaw, lenBytes, expected, headerSize]
  rw [header, List.take_left' size, List.drop_left' size]
  have drop16 : (16 : Nat) = 4 + 12 := rfl
  have drop20 : (20 : Nat) = 4 + 12 + 4 := rfl
  refine ⟨List.take_left' magic, ?_, ?_, ?_, rfl⟩
  · rw [List.drop_left' magic, List.take_left' cmdRaw]
  · rw [drop16, ← List.drop_drop, List.drop_left' magic, List.drop_left' cmdRaw,
      List.take_left' lenBytes]
  · rw [drop20, ← List.drop_drop, ← List.drop_drop, List.drop_left' magic,
      List.drop_left' cmdRaw, List.drop_left' lenBytes, ← expected, List.take_length]

theorem bytes_inj {parts' : FrameParts} (sized : parts.Sized) (sized' : parts'.Sized) :
    parts.bytes = parts'.bytes ↔ parts = parts' := by
  constructor
  · intro same
    obtain ⟨magic, cmdRaw, lenBytes, expected, body⟩ := slices sized
    rw [same] at magic cmdRaw lenBytes expected body
    obtain ⟨magic', cmdRaw', lenBytes', expected', body'⟩ := slices sized'
    cases parts
    cases parts'
    simp only [FrameParts.mk.injEq]
    exact ⟨magic.symm.trans magic', cmdRaw.symm.trans cmdRaw', lenBytes.symm.trans lenBytes',
      expected.symm.trans expected', body.symm.trans body'⟩
  · exact congrArg bytes

end FrameParts

end Layout

section Reading

variable [Crypto] {parts : FrameParts}

/-- Reading a frame, said of its parts. -/
theorem unpackFrame_bytes (sized : parts.Sized) :
    unpackFrame parts.bytes = (do
      ensure (parts.magic = magicBytes) (.invalidMagic parts.magic)
      let cmdStr ← decodeCommand parts.cmdRaw
      let payloadLen := (u32FromBeBytes parts.lenBytes).toNat
      ensure (payloadLen ≤ maxPayloadSize) (.payloadTooLarge payloadLen maxPayloadSize)
      ensure (payloadLen ≤ parts.body.length) (.truncatedPayload payloadLen parts.body.length)
      let payload := parts.body.take payloadLen
      ensure ((Hash256.digest payload).asBytes = parts.expected) .checksumMismatch
      pure (cmdStr, payload)) := by
  obtain ⟨magic, cmdRaw, lenBytes, expected, body⟩ := FrameParts.slices sized
  have complete : headerSize ≤ parts.bytes.length := by
    rw [FrameParts.length_bytes sized]
    exact Nat.le_add_right _ _
  simp only [unpackFrame, magic, cmdRaw, lenBytes, expected, body, ensure, complete, if_true,
    except_ok_bind]

/-- What a frame consists of when it is read. -/
structure FrameParts.Reads (parts : FrameParts) (command : String) (payload : Bytes) : Prop where
  magic : parts.magic = magicBytes
  command : parts.cmdRaw.takeWhile (· ≠ 0) = utf8Bytes command
  length : (u32FromBeBytes parts.lenBytes).toNat = payload.length
  small : payload.length ≤ maxPayloadSize
  starts : payload <+: parts.body
  checksum : (Hash256.digest payload).asBytes = parts.expected

theorem unpackFrame_eq_ok_iff (sized : parts.Sized) (command : String) (payload : Bytes) :
    unpackFrame parts.bytes = .ok (command, payload) ↔ parts.Reads command payload := by
  simp only [unpackFrame_bytes sized, except_bind_eq_ok_iff, ensure_eq_ok_iff, exists_const,
    decodeCommand_eq_ok_iff, except_pure_eq_ok_iff, Prod.mk.injEq]
  constructor
  · intro read
    obtain ⟨magic, text, field, small, enough, checksum, rfl, rfl⟩ := read
    have length := List.length_take_of_le enough
    exact ⟨magic, field, length.symm, length.trans_le small, List.take_prefix _ _, checksum⟩
  · intro reads
    obtain ⟨magic, field, length, small, ⟨trailing, starts⟩, checksum⟩ := reads
    rw [← starts, length, List.take_left' rfl]
    exact ⟨magic, command, field, small, by simp, checksum, rfl, rfl⟩

/-- Another payload of the declared length fails at the checksum. -/
theorem unpackFrame_checksumMismatch (sized : parts.Sized) (magic : parts.magic = magicBytes)
    {command : String} (field : parts.cmdRaw.takeWhile (· ≠ 0) = utf8Bytes command)
    (length : (u32FromBeBytes parts.lenBytes).toNat = parts.body.length)
    (small : parts.body.length ≤ maxPayloadSize)
    (differs : (Hash256.digest parts.body).asBytes ≠ parts.expected) :
    unpackFrame parts.bytes = .error .checksumMismatch := by
  rw [← decodeCommand_eq_ok_iff] at field
  simp only [unpackFrame_bytes sized, magic, field, length, ensure, small, Nat.le_refl, if_true,
    except_ok_bind, List.take_length, if_neg differs, except_error_bind]

end Reading

section Packing

variable [Crypto]

theorem packFrame_eq_ok_iff (command : String) (payload frame : Bytes) :
    packFrame command payload = .ok frame ↔
      (utf8Bytes command).length ≤ commandSize ∧ payload.length ≤ maxPayloadSize ∧
        frameBytes (padCommand command) payload = frame := by
  simp only [packFrame, except_bind_eq_ok_iff, ensure_eq_ok_iff, exists_const,
    except_pure_eq_ok_iff]

/-- The parts of a frame whose header describes one payload and whose body is
any other. -/
def partsOf (cmdRaw payload body : Bytes) : FrameParts where
  magic := magicBytes
  cmdRaw := cmdRaw
  lenBytes := u32ToBeBytes (UInt32.ofNat payload.length)
  expected := (Hash256.digest payload).asBytes
  body := body

theorem sized_partsOf {cmdRaw : Bytes} (width : cmdRaw.length = 12) (payload body : Bytes) :
    (partsOf cmdRaw payload body).Sized where
  magic := rfl
  cmdRaw := width
  lenBytes := length_u32ToBeBytes _
  expected := Hash256.size _

omit [Crypto] in
theorem length_declared {payload : Bytes} (small : payload.length ≤ maxPayloadSize) :
    (u32FromBeBytes (u32ToBeBytes (UInt32.ofNat payload.length))).toNat = payload.length := by
  rw [u32FromBeBytes_toBeBytes]
  exact UInt32.toNat_ofNat_of_lt' (Nat.lt_of_le_of_lt small (by decide))

omit [Crypto] in
theorem length_padCommand {command : String}
    (short : (utf8Bytes command).length ≤ commandSize) : (padCommand command).length = 12 := by
  rw [padCommand, List.length_append, List.length_replicate, Nat.add_sub_cancel' short,
    commandSize]

omit [Crypto] in
/-- A command without zero bytes is read back from its padded field. -/
theorem takeWhile_padCommand {command : String} (noZero : ∀ byte ∈ utf8Bytes command, byte ≠ 0) :
    (padCommand command).takeWhile (· ≠ 0) = utf8Bytes command := by
  rw [padCommand, List.takeWhile_append_of_pos (by simpa using noZero)]
  cases commandSize - (utf8Bytes command).length <;> simp [List.replicate_succ]

/-- What was packed is read back. -/
theorem unpackFrame_of_packFrame {command : String} {payload frame : Bytes}
    (packed : packFrame command payload = .ok frame)
    (noZero : ∀ byte ∈ utf8Bytes command, byte ≠ 0) :
    unpackFrame frame = .ok (command, payload) := by
  obtain ⟨short, small, rfl⟩ := (packFrame_eq_ok_iff _ _ _).mp packed
  exact (unpackFrame_eq_ok_iff (sized_partsOf (length_padCommand short) payload payload)
    command payload).mpr ⟨rfl, takeWhile_padCommand noZero, length_declared small, small,
      List.prefix_rfl, rfl⟩

end Packing

section Tightness

/-- The length that the header declares. -/
def declaredLength (raw : Bytes) : Nat :=
  (u32FromBeBytes (((raw.take headerSize).drop 16).take 4)).toNat

/-- The command field from its first zero byte on. -/
def commandPadding (raw : Bytes) : Bytes :=
  (((raw.take headerSize).drop 4).take 12).dropWhile (· ≠ 0)

/-- The frame ends with the payload it declares, and the command is padded with
zeros. -/
structure Tight (raw : Bytes) : Prop where
  ends : raw.length = headerSize + declaredLength raw
  padded : ∀ byte ∈ commandPadding raw, byte = 0

instance (raw : Bytes) : Decidable (Tight raw) :=
  have : Decidable (∀ byte ∈ commandPadding raw, byte = 0) := List.decidableBAll _ _
  decidable_of_iff (raw.length = headerSize + declaredLength raw ∧
      ∀ byte ∈ commandPadding raw, byte = 0)
    ⟨fun both => ⟨both.1, both.2⟩, fun both => ⟨both.1, both.2⟩⟩

theorem eq_padCommand_iff {cmdRaw : Bytes} (width : cmdRaw.length = 12) {command : String}
    (field : cmdRaw.takeWhile (· ≠ 0) = utf8Bytes command) :
    cmdRaw = padCommand command ↔ ∀ byte ∈ cmdRaw.dropWhile (· ≠ 0), byte = 0 := by
  have split := List.takeWhile_append_dropWhile (p := (· ≠ 0)) (l := cmdRaw)
  rw [field] at split
  have count := congrArg List.length split
  rw [List.length_append, width] at count
  constructor
  · intro padded byte membership
    rw [List.append_cancel_left (split.trans padded)] at membership
    exact List.eq_of_mem_replicate membership
  · intro zeros
    rw [padCommand, ← split, List.eq_replicate_of_mem zeros]
    congr 2
    rw [commandSize]
    omega

variable [Crypto]

omit [Crypto] in
theorem tight_iff {parts : FrameParts} (sized : parts.Sized) :
    Tight parts.bytes ↔ parts.body.length = (u32FromBeBytes parts.lenBytes).toNat ∧
      ∀ byte ∈ parts.cmdRaw.dropWhile (· ≠ 0), byte = 0 := by
  obtain ⟨-, cmdRaw, lenBytes, -, -⟩ := FrameParts.slices sized
  have padding : commandPadding parts.bytes = parts.cmdRaw.dropWhile (· ≠ 0) := by
    rw [commandPadding, cmdRaw]
  have declared : declaredLength parts.bytes = (u32FromBeBytes parts.lenBytes).toNat := by
    rw [declaredLength, lenBytes]
  have length := FrameParts.length_bytes sized
  constructor
  · intro tight
    obtain ⟨ends, padded⟩ := tight
    exact ⟨by omega, padding ▸ padded⟩
  · intro both
    obtain ⟨ends, padded⟩ := both
    exact ⟨by omega, padding ▸ padded⟩

/-- What is read from a byte string packs to that string exactly when it is tight. -/
theorem packFrame_eq_iff_tight {raw : Bytes} {command : String} {payload : Bytes}
    (read : unpackFrame raw = .ok (command, payload)) :
    packFrame command payload = .ok raw ↔ Tight raw := by
  have complete : headerSize ≤ raw.length := by
    simp only [unpackFrame, except_bind_eq_ok_iff, ensure_eq_ok_iff] at read
    exact read.choose_spec.1
  obtain ⟨parts, sized, rfl⟩ := FrameParts.exists_sized complete
  obtain ⟨magic, field, length, small, starts, checksum⟩ :=
    (unpackFrame_eq_ok_iff sized command payload).mp read
  have short : (utf8Bytes command).length ≤ commandSize := by
    rw [← field]
    exact (List.takeWhile_prefix _).length_le.trans (Nat.le_of_eq sized.cmdRaw)
  have lenBytes : u32ToBeBytes (UInt32.ofNat payload.length) = parts.lenBytes := by
    rw [← length, UInt32.ofNat_toNat, u32ToBeBytes_fromBeBytes sized.lenBytes]
  have packed : packFrame command payload = .ok parts.bytes ↔
      partsOf (padCommand command) payload payload = parts := by
    rw [packFrame_eq_ok_iff, and_iff_right short, and_iff_right small,
      ← FrameParts.bytes_inj (sized_partsOf (length_padCommand short) payload payload) sized]
    rfl
  rw [packed, tight_iff sized, ← eq_padCommand_iff sized.cmdRaw field, length]
  obtain ⟨magic', cmdRaw, lenBytes', expected, body⟩ := parts
  simp only at magic lenBytes starts checksum ⊢
  subst magic lenBytes checksum
  simp only [partsOf, FrameParts.mk.injEq, true_and]
  constructor
  · intro same
    obtain ⟨rfl, rfl⟩ := same
    exact ⟨rfl, rfl⟩
  · intro tight
    obtain ⟨ends, rfl⟩ := tight
    exact ⟨rfl, starts.eq_of_length ends.symm⟩

end Tightness

end Aurion
