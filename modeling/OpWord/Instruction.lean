import OpWord.Operation

/-!
# Instructions

An `Instruction` is a word seen as an operation with operands.

Every access to an operand goes by the layout of the operation that the word's opcode bits name
at that time.  An operand that the layout lacks reads as zero, and writing it changes nothing,
so any operand of any word can be read and written.  Writing never refuses a value: one that
does not fit spills into the bits above its field (`Bitfield.deposit`).
-/
namespace OpWord

/-- A word, as an instruction. -/
structure Instruction where
  /-- The word. -/
  word : Word := 0
  deriving DecidableEq, Inhabited

namespace Instruction

/-! ### The operation -/

/-- The number in the opcode bits, whether or not it is the code of an operation. -/
def code (i : Instruction) : Nat :=
  (opcodeField.extract i.word).toNat

/-- The instruction with `code` written to its opcode bits, whether or not it is the code of an
operation.  A code that needs more than the opcode bits spills into `A`. -/
def setCode (i : Instruction) (code : UInt8) : Instruction where
  word := opcodeField.deposit i.word (code.toBitVec.setWidth 32)

/-- The operation that the opcode bits name, `null` if they name none. -/
def operation (i : Instruction) : Operation :=
  .ofCode i.code

/-- The instruction with another operation.  The other bits stay. -/
def setOperation (i : Instruction) (op : Operation) : Instruction where
  word := opcodeField.deposit i.word (BitVec.ofNat 32 op.code)

/-- The layout of the operation. -/
def layout (i : Instruction) : Layout :=
  i.operation.layout

/-! ### The operands -/

/-- The value of an operand, zero if the layout lacks it. -/
def get (i : Instruction) (s : Slot) : Operand :=
  match i.layout.placement? s with
  | some p => p.read i.word
  | none => 0

/-- The instruction with another value of an operand, unchanged if the layout lacks it. -/
def set (i : Instruction) (s : Slot) (value : Operand) : Instruction :=
  match i.layout.placement? s with
  | some p => { word := p.write i.word value }
  | none => i

end Instruction
end OpWord
