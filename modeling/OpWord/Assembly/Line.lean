import OpWord.Text.Numeral

/-!
# Lines of assembly text

A line of assembly text is blank, or a comment, or an instruction:

```
MNEMONIC (operand, operand, ...) ; comment
```

The operands in their brackets may be left out, and so may the comment.  Spaces and tabs may
stand between any two parts.  `Line.read` takes a line apart and knows nothing about
operations: any name is read (`leadingName?`), with any number of operands.

The brackets and what stands in them are taken as a whole or not at all.  A list with anything
wrong in it, be it a missing bracket, a comma too many or a number beyond 64 bits, is no list,
and the line is then refused for what is left over after the name.
-/
namespace OpWord.Assembly

/-- Whether a line says nothing: it is empty or a comment, leading white space apart. -/
def isBlank (line : List Char) : Bool :=
  match line.dropWhile isWhiteSpace with
  | [] => true
  | c :: _ => c == ';'

/-- What a line of assembly text says. -/
structure Line where
  /-- The name of the operation, as it is spelled. -/
  name : String
  /-- The operands, as many as there are. -/
  operands : List Int
  deriving DecidableEq

/-- Why a line is not shaped like an instruction. -/
inductive ShapeError where
  /-- No letter stands where the name should start.  What stands there is given. -/
  | letterExpected (found : String)
  /-- Something follows the instruction that is no comment. -/
  | leftOver (rest : String)
  deriving DecidableEq

/-! ### Names -/

/-- The name at the front of a text, and what follows it: a letter, and letters and digits after
it for as long as there are any. -/
def leadingName? (cs : List Char) : Option (List Char × List Char) :=
  if cs.head?.any Char.isAlpha then
    some (cs.takeWhile Char.isAlphanum, cs.dropWhile Char.isAlphanum)
  else none

/-! ### Operands -/

/-- Whether a number can be written as an operand: it is one of 64 bits with a sign. -/
def isOperandValue (value : Int) : Bool :=
  Int64.minValue.toInt ≤ value && value ≤ Int64.maxValue.toInt

/-- One operand, with spaces and tabs on either side. -/
def operand? (piece : List Char) : Option Int :=
  match Numeral.readDecimal? (skipGaps piece) with
  | some (value, rest) => if isOperandValue value && rest.all isGap then some value else none
  | none => none

/-- The operands between two brackets: none at all, or some with commas between them. -/
def operands? (inside : List Char) : Option (List Int) :=
  if inside.all isGap then some [] else (inside.splitOn ',').mapM operand?

/-- The operands in brackets at the front of `cs`, and what follows the closing bracket.  No
operand has a bracket in it, so the first closing bracket is the one that ends the list. -/
def operandList? : List Char → Option (List Int × List Char)
  | '(' :: cs =>
    match cs.dropWhile (· != ')') with
    | [] => none
    | _ :: rest => (operands? (cs.takeWhile (· != ')'))).map fun values => (values, rest)
  | _ => none

/-- The operands that follow a name, and what follows them.  If there is no list, there are no
operands, and not even the spaces before it are taken. -/
def trailingOperands (cs : List Char) : List Int × List Char :=
  (operandList? (skipGaps cs)).getD ([], cs)

/-! ### Lines -/

/-- What a line says, if it is shaped like an instruction. -/
def Line.read (line : List Char) : Except ShapeError Line :=
  let cs := skipGaps line
  match leadingName? cs with
  | none => .error (.letterExpected (String.ofList cs))
  | some (name, after) =>
    let (operands, rest) := trailingOperands after
    let rest := skipGaps rest
    if rest.head?.all (· == ';') then .ok { name := String.ofList name, operands }
    else .error (.leftOver (String.ofList rest))

end OpWord.Assembly
