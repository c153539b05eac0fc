import Aurion.Foundation.Stream
import Aurion.Rpc.Protocol

/-!
# Frames of the RPC connection

A frame is a length of four bytes and a payload.  A connection is the bytes that
arrive on it; `read_exact` takes that many bytes or fails at the end of the stream.
-/

namespace Aurion

open Foundation

/-- What a transport reports when it cannot give the bytes asked for. -/
inductive ErrorKind
  | unexpectedEof
  deriving DecidableEq

/-- The errors of reading and writing frames. -/
inductive RpcError
  | io (kind : ErrorKind)
  | payloadTooLarge (len : Nat)
  deriving DecidableEq

/-- The payload behind its length, which is cast to 32 bits. -/
def lengthDelimited (payload : Bytes) : Bytes :=
  let len := UInt32.ofNat payload.length
  u32ToBeBytes len ++ payload

/-- The bytes that go to the connection. -/
def writeFrame (payload : Bytes) : Except RpcError Bytes := do
  ensure (payload.length ≤ maxRpcFrameSize) (.payloadTooLarge payload.length)
  pure (lengthDelimited payload)

def readExact (count : Nat) : Decoder RpcError Bytes :=
  Decoder.take (.io .unexpectedEof) count

def readFrame : Decoder RpcError Bytes := do
  let lenBuf ← readExact 4
  let len := (u32FromBeBytes lenBuf).toNat
  if maxRpcFrameSize < len then throw (.payloadTooLarge len)
  else readExact len

section Frame

variable {payload : Bytes}

theorem writeFrame_eq_ok_iff (payload frame : Bytes) :
    writeFrame payload = .ok frame ↔
      payload.length ≤ maxRpcFrameSize ∧ lengthDelimited payload = frame := by
  simp only [writeFrame, check_bind_eq_ok_iff, ensure_eq_ok_iff, except_pure_eq_ok_iff]

/-- A length within the limit is written without truncation. -/
theorem toNat_lenBuf (small : payload.length ≤ maxRpcFrameSize) :
    (u32FromBeBytes (u32ToBeBytes (UInt32.ofNat payload.length))).toNat = payload.length := by
  have limit : maxRpcFrameSize < 2 ^ 32 := by decide
  rw [u32FromBeBytes_toBeBytes, UInt32.toNat_ofNat_of_lt' (small.trans_lt limit)]

theorem readFrame_canonical :
    Canonical readFrame lengthDelimited (fun payload => payload.length ≤ maxRpcFrameSize) where
  eq_ok_iff := by
    intro cursor payload rest
    simp only [readFrame, readExact, Decoder.bind_eq_ok_iff, Decoder.take_eq_ok_iff]
    constructor
    · intro read
      obtain ⟨lenBuf, middle, ⟨width, rfl⟩, body⟩ := read
      split at body
      next large => exact absurd body (Decoder.throw_ne_ok _ _ _ _)
      next small =>
        obtain ⟨length, rfl⟩ := (Decoder.take_eq_ok_iff _ _ _ _ _).mp body
        have written : u32ToBeBytes (UInt32.ofNat payload.length) = lenBuf := by
          rw [length, UInt32.ofNat_toNat, u32ToBeBytes_fromBeBytes width]
        rw [lengthDelimited, written, List.append_assoc]
        exact ⟨length ▸ Nat.not_lt.mp small, rfl⟩
    · intro encoded
      obtain ⟨small, rfl⟩ := encoded
      refine ⟨u32ToBeBytes (UInt32.ofNat payload.length), payload ++ rest,
        ⟨length_u32ToBeBytes _, List.append_assoc _ _ _⟩, ?_⟩
      rw [toNat_lenBuf small, if_neg (Nat.not_lt.mpr small), Decoder.take_eq_ok_iff]
      exact ⟨rfl, rfl⟩

/-- A frame cut in its header or in its payload is the end of the stream. -/
theorem readFrame_delimited :
    Delimited readFrame lengthDelimited (fun payload => payload.length ≤ maxRpcFrameSize)
      (.io .unexpectedEof) where
  toCanonical := readFrame_canonical
  ended := Decoder.bind_of_error _ (Decoder.take_of_short _ (by decide))
  cut := by
    intro payload part small isPrefix proper
    by_cases headed : 4 ≤ part.length
    · have width := length_u32ToBeBytes (UInt32.ofNat payload.length)
      obtain ⟨body, rfl⟩ : u32ToBeBytes (UInt32.ofNat payload.length) <+: part :=
        List.prefix_of_prefix_length_le (List.prefix_append _ _) isPrefix (width ▸ headed)
      have within : body <+: payload := (List.prefix_append_right_inj _).mp isPrefix
      have short : body.length < payload.length := by
        apply lt_of_le_of_ne within.length_le
        intro same
        exact proper (by rw [within.eq_of_length same, lengthDelimited])
      have header : readExact 4 (u32ToBeBytes (UInt32.ofNat payload.length) ++ body) =
          .ok (u32ToBeBytes (UInt32.ofNat payload.length), body) :=
        (Decoder.take_eq_ok_iff _ _ _ _ _).mpr ⟨width, rfl⟩
      rw [readFrame, Decoder.bind_of_ok _ header, toNat_lenBuf small,
        if_neg (Nat.not_lt.mpr small)]
      exact Decoder.take_of_short _ short
    · exact Decoder.bind_of_error _ (Decoder.take_of_short _ (Nat.not_le.mp headed))

end Frame

/-- The frames a connection gives until one cannot be read, and why it cannot. -/
def readFrames (connection : Bytes) : List Bytes × RpcError :=
  readFrame.drain readFrame_delimited.consumes connection

section Connection

/-- However a connection is cut, it gives the payloads that were written in full, and
then its end. -/
theorem readFrames_of_written (payloads : List Bytes)
    (small : ∀ payload ∈ payloads, payload.length ≤ maxRpcFrameSize) :
    ∃ frames : List Bytes, payloads.mapM writeFrame = .ok frames ∧
      readFrames frames.flatten = (payloads, .io .unexpectedEof) ∧
      ∀ part, part <+: frames.flatten → part ≠ frames.flatten →
        ∃ count < payloads.length,
          readFrames part = (payloads.take count, .io .unexpectedEof) ∧
            ∀ sent ≤ payloads.length,
              (frames.take sent).flatten <+: part ↔ sent ≤ count := by
  have flat (sent : Nat) : ((payloads.map lengthDelimited).take sent).flatten =
      (payloads.take sent).flatMap lengthDelimited := by
    rw [← List.map_take, List.flatMap_def]
  have whole : (payloads.map lengthDelimited).flatten = payloads.flatMap lengthDelimited :=
    List.flatMap_def.symm
  refine ⟨payloads.map lengthDelimited,
    (mapM_eq_ok_iff writeFrame_eq_ok_iff _ _).mpr ⟨small, rfl⟩, ?_, ?_⟩
  · rw [whole]
    exact readFrame_delimited.drain_flatMap small
  · intro part isPrefix proper
    rw [whole] at isPrefix proper
    obtain ⟨count, most, read, complete_iff⟩ :=
      readFrame_delimited.drain_of_isPrefix small isPrefix
    refine ⟨count, ?_, read, ?_⟩
    · apply lt_of_le_of_ne most
      rintro rfl
      have within := (complete_iff payloads.length (Nat.le_refl _)).mpr (Nat.le_refl _)
      rw [List.take_length] at within
      exact proper (isPrefix.eq_of_length (Nat.le_antisymm isPrefix.length_le within.length_le))
    · intro sent sentMost
      rw [flat]
      exact complete_iff sent sentMost

/-- A frame whose payload looks like a header, cut behind the next frame's header. -/
theorem readFrames_of_written_header :
    readFrames [0, 0, 0, 4, 0, 0, 0, 9, 0, 0, 0, 1] =
      ([[0, 0, 0, 9]], .io .unexpectedEof) := by
  obtain ⟨frames, written, -, cut⟩ :=
    readFrames_of_written [[0, 0, 0, 9], [7]] (by decide)
  obtain rfl : frames = [[0, 0, 0, 4, 0, 0, 0, 9], [0, 0, 0, 1, 7]] := by
    have computed : [[0, 0, 0, 9], [7]].mapM writeFrame =
      .ok [[0, 0, 0, 4, 0, 0, 0, 9], [0, 0, 0, 1, 7]] := by decide
    exact Except.ok.inj (written.symm.trans computed)
  obtain ⟨count, few, read, sent⟩ := cut [0, 0, 0, 4, 0, 0, 0, 9, 0, 0, 0, 1]
    (by decide) (by decide)
  have first : 1 ≤ count := (sent 1 (by decide)).mp (by decide)
  obtain rfl : count = 1 := Nat.le_antisymm (Nat.le_of_lt_succ few) first
  exact read

end Connection

end Aurion
