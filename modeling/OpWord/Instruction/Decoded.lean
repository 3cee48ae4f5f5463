import OpWord.Instruction
import OpWord.Text.Numeral

/-!
# Decoding and encoding

A `Decoded` is an operation with its operands, taken out of a word by `Instruction.decode` or to
be put into one by `Decoded.encode`.

`Decoded.encode` writes the operation first, because the writing of the operands depends on it,
and then `A`, `B` and `C`.  The instructions that it makes of what `Instruction.decode` reads are
the canonical ones: `Instruction.canonical` keeps what an instruction means and clears every bit
that means nothing.
-/
namespace OpWord

/-- An operation with its operands. -/
structure Decoded where
  /-- The operation. -/
  operation : Operation
  /-- The value of `A`. -/
  a : Operand
  /-- The value of `B`. -/
  b : Operand
  /-- The value of `C`. -/
  c : Operand
  deriving DecidableEq

namespace Instruction

/-- The operation and the operands. -/
def decode (i : Instruction) : Decoded where
  operation := i.operation
  a := i.get .a
  b := i.get .b
  c := i.get .c

/-- The operation and the operands, if the opcode bits name an operation. -/
def decode? (i : Instruction) : Option Decoded :=
  if i.operation.isNull then none else some i.decode

end Instruction

namespace Decoded

/-- The instruction with this operation and these operands, written one after another to a word
of zeros. -/
def encode (d : Decoded) : Instruction :=
  ((((({} : Instruction).setOperation d.operation).set .a d.a).set .b d.b).set .c d.c)

/-- The mnemonic, and the three operands in brackets. -/
def text (d : Decoded) : String :=
  d.operation.mnemonic ++ " (" ++ Numeral.decimal d.a.toInt ++ ", " ++ Numeral.decimal d.b.toInt
    ++ ", " ++ Numeral.decimal d.c.toInt ++ ")"

end Decoded

namespace Instruction

/-- The instruction that means the same and has no bit set that means nothing.  If the opcode
bits name no operation, it is the instruction of `null`. -/
def canonical (i : Instruction) : Instruction :=
  i.decode.encode

/-- What the instruction means, as text. -/
def text (i : Instruction) : String :=
  i.decode.text

end Instruction

end OpWord
