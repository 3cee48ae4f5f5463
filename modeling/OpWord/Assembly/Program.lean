import OpWord.Assembly.Line
import OpWord.Instruction.Decoded

/-!
# Assembly text

`Line.assemble` makes an instruction of what a line says, or finds a `Fault` in it.  Unlike the
writing of operands to a word, assembly is strict: every operand that is written has to be one
that its slot admits (`Layout.Admits`), so nothing that a line says is lost or spills.  Operands
that are left out are zero.

Of several faults the first is reported: an unknown name, then too many operands, then the
first operand that is not admitted.

An `Item` is the result for one line of a text, and `parse` reads a whole text.  Blank lines
count as lines and yield nothing, every other line yields one item, and the first line that is
not shaped like an instruction ends the reading with its error.  A line that is well shaped and
has a fault ends nothing.

`disassembly` writes a block of code in a form that `parse` reads back.
-/
namespace OpWord.Assembly

/-! ### Faults -/

/-- What is wrong with a line that is shaped like an instruction. -/
inductive Fault where
  /-- The name is not that of a recognized operation. -/
  | notAnOperation (name : String)
  /-- There are more operands than slots. -/
  | tooManyOperands (op : Operation) (operands : List Int)
  /-- An operand other than zero stands for a slot that the operation lacks. -/
  | absentOperand (op : Operation) (slot : Slot) (value : Int)
  /-- An operand does not fit in its slot. -/
  | operandOutOfRange (op : Operation) (slot : Slot) (value : Int)
  deriving DecidableEq

/-- The number of slots, and so the most operands that a line may have. -/
def maxOperands : Nat := Slot.all.length

namespace Fault

/-- The wording of a fault. -/
def message : Fault → String
  | notAnOperation name => name ++ " is not an operation."
  | tooManyOperands op operands =>
    op.mnemonic ++ " takes at most " ++ Numeral.decimal maxOperands ++ " operands but was given "
      ++ Numeral.decimal operands.length ++ ": ("
      ++ ", ".intercalate (operands.map Numeral.decimal) ++ ")"
  | absentOperand op slot value =>
    op.mnemonic ++ " has no " ++ slot.text ++ " operand but was given " ++ Numeral.decimal value
      ++ "."
  | operandOutOfRange op slot value =>
    Numeral.decimal value ++ " does not fit in the " ++ slot.text ++ " operand of " ++ op.mnemonic
      ++ "."

end Fault

/-! ### Assembling a line -/

/-- The value of an operand, if its slot admits it. -/
def admitted (op : Operation) (slot : Slot) (value : Int) : Except Fault Operand :=
  if op.layout.Admits slot value then .ok (Int32.ofInt value)
  else if op.layout.has slot then .error (.operandOutOfRange op slot value)
  else .error (.absentOperand op slot value)

/-- The values of the operands that are written, in the order of the slots.  The first that is
not admitted ends the traversal, and slots without an operand are not looked at. -/
def admittedAll (op : Operation) (values : List Int) : Except Fault (List Operand) :=
  (Slot.all.zip values).mapM fun (slot, value) => admitted op slot value

namespace Line

/-- The operation that the line names, if it is a recognized one. -/
def operation? (l : Line) : Option Operation :=
  (Operation.ofMnemonic? l.name).filter fun op => !op.isNull

/-- The instruction that the line denotes.  Operands that are left out are zero. -/
def assemble (l : Line) : Except Fault Instruction :=
  match l.operation? with
  | none => .error (.notAnOperation l.name)
  | some op =>
    if maxOperands < l.operands.length then .error (.tooManyOperands op l.operands)
    else do
      let written ← admittedAll op l.operands
      return Decoded.encode
        { operation := op, a := written.getD 0 0, b := written.getD 1 0, c := written.getD 2 0 }

end Line

/-! ### Items -/

/-- What one line of a text comes to. -/
inductive Item where
  /-- An instruction. -/
  | instruction (i : Instruction)
  /-- A fault, and the number of the line. -/
  | diagnostic (line : Nat) (fault : Fault)
  deriving DecidableEq

namespace Item

/-- The item for the line with this number. -/
def ofLine (number : Nat) (l : Line) : Item :=
  match l.assemble with
  | .ok i => instruction i
  | .error fault => diagnostic number fault

/-- The instruction, if there is one. -/
def instruction? : Item → Option Instruction
  | instruction i => some i
  | diagnostic _ _ => none

/-- An item as text. -/
def text : Item → String
  | instruction i => i.text
  | diagnostic line fault => "Error on line " ++ Numeral.decimal line ++ ": " ++ fault.message

end Item

/-! ### Texts -/

/-- The item of one line of a text, the line's number given. -/
def parseLine (line : List Char) (number : Nat) : Except ShapeError Item := do
  return Item.ofLine number (← Line.read line)

/-- The lines that say something, with their numbers, counted from one. -/
def numberedLines (text : String) : List (List Char × Nat) :=
  ((lines text.toList).zipIdx 1).filter fun (line, _) => !isBlank line

/-- The items of a text, one for each line that is not blank. -/
def parse (text : String) : Except ShapeError (List Item) :=
  (numberedLines text).mapM fun (line, number) => parseLine line number

/-- The instructions among some items. -/
def instructions (items : List Item) : List Instruction :=
  items.filterMap Item.instruction?

/-- Some words as assembly text, a line for each. -/
def disassembly (words : List Word) : String :=
  "\n".intercalate (words.map fun w => (Instruction.mk w).text)

end OpWord.Assembly
