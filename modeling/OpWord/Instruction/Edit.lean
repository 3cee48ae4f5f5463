import OpWord.Instruction.Decoded

/-!
# Edits

An `Edit` is one change of an instruction.  `Instruction.editAll` makes some changes one after
another, and `Instruction.history` lists every instruction on the way.
-/
namespace OpWord

/-- A change of an instruction. -/
inductive Edit where
  /-- Another operation. -/
  | operation (op : Operation)
  /-- Another number in the opcode bits. -/
  | code (code : UInt8)
  /-- Another value of an operand. -/
  | operand (slot : Slot) (value : Operand)
  /-- The canonical form. -/
  | canonical
  deriving DecidableEq

namespace Instruction

/-- The instruction after an edit. -/
def edit (i : Instruction) : Edit → Instruction
  | .operation op => i.setOperation op
  | .code code => i.setCode code
  | .operand slot value => i.set slot value
  | .canonical => i.canonical

/-- The instruction after some edits, one after another. -/
def editAll (i : Instruction) (edits : List Edit) : Instruction :=
  edits.foldl edit i

/-- The instruction before the edits and after each of them. -/
def history (i : Instruction) : List Edit → List Instruction
  | [] => [i]
  | e :: edits => i :: (i.edit e).history edits

/-- The last instruction of the history is the one after all edits. -/
theorem getLast?_history (i : Instruction) (edits : List Edit) :
    (i.history edits).getLast? = some (i.editAll edits) := by
  induction edits generalizing i with
  | nil => rfl
  | cons e edits ih =>
    rw [history, List.getLast?_cons, ih]
    rfl

end Instruction
end OpWord
