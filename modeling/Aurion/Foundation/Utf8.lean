import Aurion.Foundation.Bytes

/-!
# Strings as UTF-8 bytes

A string is its bytes; the bytes that are no string come with the text of the
standard library's error.
-/

namespace Foundation

def utf8Bytes (text : String) : Bytes := text.toByteArray.data.toList

def utf8String? (bytes : Bytes) : Option String := String.fromUTF8? bytes.toByteArray

theorem utf8String?_eq_some_iff (bytes : Bytes) (text : String) :
    utf8String? bytes = some text ↔ bytes = utf8Bytes text := by
  have same : bytes.toByteArray = text.toByteArray ↔ bytes = utf8Bytes text := by
    constructor
    · intro arrays
      rw [utf8Bytes, ← arrays, List.toList_data_toByteArray]
    · rintro rfl
      apply ByteArray.ext
      rw [List.data_toByteArray, utf8Bytes, Array.toArray_toList]
  rw [← same, utf8String?, String.fromUTF8?]
  split
  next valid =>
      rw [Option.some.injEq, ← String.toByteArray_inj]
      exact Iff.rfl
  next invalid =>
      simp only [reduceCtorEq, false_iff]
      intro arrays
      exact invalid (arrays ▸ text.isValidUTF8)

section Errors

/-- The ranges of the bytes that have to follow the first byte of a sequence. -/
def utf8Followers (first : UInt8) : List (UInt8 × UInt8) :=
  let tail : UInt8 × UInt8 := (0x80, 0xBF)
  if 0xC2 ≤ first ∧ first ≤ 0xDF then [tail]
  else if first = 0xE0 then [(0xA0, 0xBF), tail]
  else if first = 0xED then [(0x80, 0x9F), tail]
  else if 0xE1 ≤ first ∧ first ≤ 0xEF then [tail, tail]
  else if first = 0xF0 then [(0x90, 0xBF), tail, tail]
  else if 0xF1 ≤ first ∧ first ≤ 0xF3 then [tail, tail, tail]
  else if first = 0xF4 then [(0x80, 0x8F), tail, tail]
  else []

/-- The bytes of a broken sequence, none when it only lacks bytes at the end. -/
def brokenLength : List (UInt8 × UInt8) → Bytes → Nat → Option Nat
  | [], _, count => some count
  | _ :: _, [], _ => none
  | (low, high) :: ranges, byte :: rest, count =>
      if low ≤ byte ∧ byte ≤ high then brokenLength ranges rest (count + 1) else some count

/-- The text of the error at the first broken sequence; the index counts the
bytes of the characters before it. -/
def utf8ErrorFrom : Nat → Bytes → Nat → String
  | fuel + 1, first :: rest, index =>
      match (first :: rest).toByteArray.utf8DecodeChar? 0 with
      | some char => utf8ErrorFrom fuel ((first :: rest).drop char.utf8Size) (index + char.utf8Size)
      | none =>
          match brokenLength (utf8Followers first) rest 1 with
          | some count =>
              "invalid utf-8 sequence of " ++ toString count ++ " bytes from index " ++
                toString index
          | none => "incomplete utf-8 byte sequence from index " ++ toString index
  | _, _, _ => ""

def utf8Error (bytes : Bytes) : String := utf8ErrorFrom bytes.length bytes 0

end Errors

end Foundation
