import Mathlib.Data.List.Basic

/-!
# Bytecode

A program is spelled as a word of symbols, one instruction after another.  A word
is read back up to its end or to the first place where no instruction starts, and
spelling and reading are inverse to each other.
-/

namespace Foundation

/-- A way to spell instructions in which each word starts with at most one. -/
structure Bytecode (Symbol Instruction Fault : Type) where
  spell : Instruction → List Symbol
  fetch : Symbol → List Symbol → Except Fault (Instruction × List Symbol)
  spell_ne_nil : ∀ instruction, spell instruction ≠ []
  fetch_eq_ok_iff : ∀ symbol word instruction rest,
    fetch symbol word = .ok (instruction, rest) ↔ symbol :: word = spell instruction ++ rest

namespace Bytecode

variable {Symbol Instruction Fault : Type} (code : Bytecode Symbol Instruction Fault)

theorem length_lt_of_fetch {symbol : Symbol} {word rest : List Symbol} {instruction : Instruction}
    (fetched : code.fetch symbol word = .ok (instruction, rest)) :
    rest.length < (symbol :: word).length := by
  rw [code.fetch_eq_ok_iff] at fetched
  have nonempty := List.length_pos_iff.mpr (code.spell_ne_nil instruction)
  rw [fetched, List.length_append]
  omega

def assemble (program : List Instruction) : List Symbol := program.flatMap code.spell

@[simp]
theorem assemble_nil : code.assemble [] = [] := rfl

@[simp]
theorem assemble_cons (instruction : Instruction) (program : List Instruction) :
    code.assemble (instruction :: program) = code.spell instruction ++ code.assemble program := rfl

@[simp]
theorem assemble_append (first second : List Instruction) :
    code.assemble (first ++ second) = code.assemble first ++ code.assemble second :=
  List.flatMap_append

/-- The instructions that a word spells, and the fault at which they stop unless
they make up the whole word. -/
def disassemble (word : List Symbol) : List Instruction × Option Fault :=
  match word with
  | [] => ([], none)
  | symbol :: word =>
      match _fetched : code.fetch symbol word with
      | .error fault => ([], some fault)
      | .ok (instruction, rest) =>
          (instruction :: (disassemble rest).1, (disassemble rest).2)
termination_by word.length
decreasing_by all_goals exact code.length_lt_of_fetch _fetched

@[simp]
theorem disassemble_nil : code.disassemble [] = ([], none) := by
  rw [disassemble]

theorem disassemble_of_error {symbol : Symbol} {word : List Symbol} {fault : Fault}
    (failed : code.fetch symbol word = .error fault) :
    code.disassemble (symbol :: word) = ([], some fault) := by
  rw [disassemble]
  split
  next fault' failed' =>
      rw [failed, Except.error.injEq] at failed'
      rw [failed']
  next fetched => cases failed.symm.trans fetched

theorem disassemble_of_ok {symbol : Symbol} {word rest : List Symbol} {instruction : Instruction}
    (fetched : code.fetch symbol word = .ok (instruction, rest)) :
    code.disassemble (symbol :: word) =
      (instruction :: (code.disassemble rest).1, (code.disassemble rest).2) := by
  rw [disassemble]
  split
  next failed => cases fetched.symm.trans failed
  next instruction' rest' fetched' =>
      rw [fetched, Except.ok.injEq, Prod.mk.injEq] at fetched'
      rw [fetched'.1, fetched'.2]

theorem disassemble_spell_append (instruction : Instruction) (rest : List Symbol) :
    code.disassemble (code.spell instruction ++ rest) =
      (instruction :: (code.disassemble rest).1, (code.disassemble rest).2) := by
  cases spelled : code.spell instruction with
  | nil => exact absurd spelled (code.spell_ne_nil instruction)
  | cons symbol word =>
      apply code.disassemble_of_ok
      rw [code.fetch_eq_ok_iff, spelled]
      rfl

/-- Instructions are read back whatever follows them. -/
theorem disassemble_assemble_append (program : List Instruction) (rest : List Symbol) :
    code.disassemble (code.assemble program ++ rest) =
      (program ++ (code.disassemble rest).1, (code.disassemble rest).2) := by
  induction program with
  | nil => rfl
  | cons instruction program inductionHypothesis =>
      rw [assemble_cons, List.append_assoc, disassemble_spell_append, inductionHypothesis]
      rfl

theorem disassemble_assemble (program : List Instruction) :
    code.disassemble (code.assemble program) = (program, none) := by
  simpa using code.disassemble_assemble_append program []

/-- What is read of a word spells the front of it, and all of it if no fault stops
the reading. -/
theorem assemble_disassemble (word : List Symbol) :
    ∃ rest, word = code.assemble (code.disassemble word).1 ++ rest ∧
      ((code.disassemble word).2 = none ↔ rest = []) := by
  induction size : word.length using Nat.strongRecOn generalizing word with
  | _ size inductionHypothesis =>
      cases word with
      | nil => exact ⟨[], by simp⟩
      | cons symbol word =>
          cases fetched : code.fetch symbol word with
          | error fault =>
              rw [code.disassemble_of_error fetched]
              exact ⟨symbol :: word, rfl, by simp⟩
          | ok result =>
              obtain ⟨instruction, rest⟩ := result
              have shorter := code.length_lt_of_fetch fetched
              obtain ⟨tail, spelled, whole⟩ := inductionHypothesis _ (size ▸ shorter) rest rfl
              rw [code.disassemble_of_ok fetched]
              refine ⟨tail, ?_, whole⟩
              rw [(code.fetch_eq_ok_iff _ _ _ _).mp fetched, assemble_cons, List.append_assoc,
                ← spelled]

/-- A word is instructions and, unless these make up the whole of it, a rest at which
none starts. -/
theorem exists_spelled (word : List Symbol) :
    ∃ rest, word = code.assemble (code.disassemble word).1 ++ rest ∧
      (rest = [] ∧ (code.disassemble word).2 = none ∨
        ∃ symbol tail fault, rest = symbol :: tail ∧ code.fetch symbol tail = .error fault ∧
          (code.disassemble word).2 = some fault) := by
  obtain ⟨rest, spelled, whole⟩ := code.assemble_disassemble word
  refine ⟨rest, spelled, ?_⟩
  have read := code.disassemble_assemble_append (code.disassemble word).1 rest
  rw [← spelled] at read
  obtain ⟨instructions, stopped⟩ := Prod.ext_iff.mp read
  have unread : (code.disassemble rest).1 = [] := List.append_right_eq_self.mp instructions.symm
  cases rest with
  | nil => exact .inl ⟨rfl, whole.mpr rfl⟩
  | cons symbol tail =>
      cases fetched : code.fetch symbol tail with
      | error fault =>
          rw [code.disassemble_of_error fetched] at stopped
          exact .inr ⟨symbol, tail, fault, rfl, fetched, stopped⟩
      | ok result =>
          rw [code.disassemble_of_ok fetched] at unread
          exact absurd unread (List.cons_ne_nil _ _)

/-- A word is read to its end as the one program that spells it. -/
theorem disassemble_eq_iff (word : List Symbol) (program : List Instruction) :
    code.disassemble word = (program, none) ↔ word = code.assemble program := by
  constructor
  · intro read
    obtain ⟨rest, spelled, whole⟩ := code.assemble_disassemble word
    rw [read] at spelled whole
    rw [spelled, whole.mp rfl, List.append_nil]
  · intro spelled
    rw [spelled, code.disassemble_assemble]

theorem assemble_injective : Function.Injective code.assemble := by
  intro left right same
  have read := code.disassemble_assemble left
  rw [same, code.disassemble_assemble, Prod.mk.injEq] at read
  exact read.1.symm

end Bytecode

end Foundation
