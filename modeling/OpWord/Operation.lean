import OpWord.Layout

/-!
# Operations

The operations of the machine, with the three things that a codec has to know of each: the
**code** that stands for it in a word, the **mnemonic** that stands for it in text, and the
**layout** of its operands.

The codes of the 38 recognized operations are 0 to 37.  `null` stands for everything else: it
is what the opcode bits name when they name no operation.  It has code 38 and the mnemonic
`NULL`, so that it can itself be written to a word and looked up by name.

Main facts: a code and a mnemonic each determine the operation (`ofCode?_eq_some_iff`,
`ofMnemonic?_eq_some_iff`).
-/
namespace OpWord

/-- What an instruction does. -/
inductive Operation where
  /-- Copies a register. -/
  | move
  /-- Loads a constant. -/
  | loadK
  /-- Loads a boolean, and may skip the next instruction. -/
  | loadBool
  /-- Clears a range of registers. -/
  | loadNil
  /-- Reads a captured variable. -/
  | getUpval
  /-- Reads a global variable. -/
  | getGlobal
  /-- Reads a table entry. -/
  | getTable
  /-- Writes a global variable. -/
  | setGlobal
  /-- Writes a captured variable. -/
  | setUpval
  /-- Writes a table entry. -/
  | setTable
  /-- Makes a table. -/
  | newTable
  /-- Prepares a method call. -/
  | self
  /-- Addition. -/
  | add
  /-- Subtraction. -/
  | sub
  /-- Multiplication. -/
  | mul
  /-- Division. -/
  | div
  /-- Remainder. -/
  | mod
  /-- Exponentiation. -/
  | pow
  /-- Negation. -/
  | unm
  /-- Logical negation. -/
  | not
  /-- Length. -/
  | len
  /-- Concatenation of a range of registers. -/
  | concat
  /-- Unconditional jump. -/
  | jmp
  /-- Skips unless two values are equal. -/
  | eq
  /-- Skips unless one value is less than another. -/
  | lt
  /-- Skips unless one value is at most another. -/
  | le
  /-- Skips unless a value is as true as asked. -/
  | test
  /-- Skips like `test`, and copies the value otherwise. -/
  | testSet
  /-- Calls a function. -/
  | call
  /-- Calls a function in place of the current one. -/
  | tailCall
  /-- Returns from a function. -/
  | ret
  /-- Closes a numeric loop. -/
  | forLoop
  /-- Opens a numeric loop. -/
  | forPrep
  /-- Closes a generic loop. -/
  | tforLoop
  /-- Writes a range of table entries. -/
  | setList
  /-- Closes captured variables. -/
  | close
  /-- Makes a function value. -/
  | closure
  /-- Copies the variable arguments. -/
  | varArg
  /-- No operation: what a word holds whose opcode bits name none of the others. -/
  | null
  deriving DecidableEq, Repr

namespace Operation

/-- The operations in the order of their codes, `null` last. -/
def all : List Operation :=
  [move, loadK, loadBool, loadNil, getUpval, getGlobal, getTable, setGlobal, setUpval,
   setTable, newTable, self, add, sub, mul, div, mod, pow, unm, not, len, concat, jmp, eq,
   lt, le, test, testSet, call, tailCall, ret, forLoop, forPrep, tforLoop, setList, close,
   closure, varArg, null]

/-- How many operations are recognized, `null` not among them. -/
def count : Nat := 38

/-- The number that stands for an operation in a word. -/
def code : Operation → Nat
  | move => 0
  | loadK => 1
  | loadBool => 2
  | loadNil => 3
  | getUpval => 4
  | getGlobal => 5
  | getTable => 6
  | setGlobal => 7
  | setUpval => 8
  | setTable => 9
  | newTable => 10
  | self => 11
  | add => 12
  | sub => 13
  | mul => 14
  | div => 15
  | mod => 16
  | pow => 17
  | unm => 18
  | not => 19
  | len => 20
  | concat => 21
  | jmp => 22
  | eq => 23
  | lt => 24
  | le => 25
  | test => 26
  | testSet => 27
  | call => 28
  | tailCall => 29
  | ret => 30
  | forLoop => 31
  | forPrep => 32
  | tforLoop => 33
  | setList => 34
  | close => 35
  | closure => 36
  | varArg => 37
  | null => 38

/-- The name that stands for an operation in text. -/
def mnemonic : Operation → String
  | move => "MOVE"
  | loadK => "LOADK"
  | loadBool => "LOADBOOL"
  | loadNil => "LOADNIL"
  | getUpval => "GETUPVAL"
  | getGlobal => "GETGLOBAL"
  | getTable => "GETTABLE"
  | setGlobal => "SETGLOBAL"
  | setUpval => "SETUPVAL"
  | setTable => "SETTABLE"
  | newTable => "NEWTABLE"
  | self => "SELF"
  | add => "ADD"
  | sub => "SUB"
  | mul => "MUL"
  | div => "DIV"
  | mod => "MOD"
  | pow => "POW"
  | unm => "UNM"
  | not => "NOT"
  | len => "LEN"
  | concat => "CONCAT"
  | jmp => "JMP"
  | eq => "EQ"
  | lt => "LT"
  | le => "LE"
  | test => "TEST"
  | testSet => "TESTSET"
  | call => "CALL"
  | tailCall => "TAILCALL"
  | ret => "RETURN"
  | forLoop => "FORLOOP"
  | forPrep => "FORPREP"
  | tforLoop => "TFORLOOP"
  | setList => "SETLIST"
  | close => "CLOSE"
  | closure => "CLOSURE"
  | varArg => "VARARG"
  | null => "NULL"

/-- The operands that an operation takes. -/
def layout : Operation → Layout
  | move | loadNil | getUpval | setUpval | unm | not | len | tailCall | close |
    varArg => .ab
  | loadK | getGlobal | setGlobal | closure => .abx
  | forLoop | forPrep => .asbx
  | jmp => .sbx
  | loadBool | getTable | setTable | newTable | self | add | sub | mul | div |
    mod | pow | concat | eq | lt | le | test | testSet | call | ret | tforLoop |
    setList => .abc
  | null => .bare

/-- Whether this is the operation that stands for none. -/
def isNull (op : Operation) : Bool :=
  op == null

/-! ### Looking up by code -/

/-- The operation with this code. -/
def ofCode? (n : Nat) : Option Operation :=
  all[n]?

/-- The operation with this code, `null` if there is none. -/
def ofCode (n : Nat) : Operation :=
  (ofCode? n).getD null

@[simp] theorem ofCode?_code (op : Operation) : ofCode? op.code = some op := by
  cases op <;> rfl

theorem map_code_all : all.map code = List.range 39 := rfl

theorem code_of_ofCode? {n : Nat} {op : Operation} (h : ofCode? n = some op) : op.code = n := by
  have hn : n < 39 := (List.getElem?_eq_some_iff.mp h).1
  have h := congrArg (Option.map code) h
  rw [ofCode?, ← List.getElem?_map, map_code_all, List.getElem?_range hn] at h
  exact (Option.some.inj h).symm

theorem ofCode?_eq_some_iff {n : Nat} {op : Operation} : ofCode? n = some op ↔ op.code = n :=
  ⟨code_of_ofCode?, fun h => h ▸ ofCode?_code op⟩

/-! ### Looking up by name -/

/-- The operation whose mnemonic this is, in whatever case its letters are.  Only the 26 letters
of ASCII have a case here: a name with any other letter is no mnemonic. -/
def ofMnemonic? (name : String) : Option Operation :=
  all.find? fun op => op.mnemonic.toList == name.toList.map Char.toUpper

theorem find?_mnemonic (op : Operation) :
    all.find? (fun o => o.mnemonic.toList == op.mnemonic.toList) = some op := by
  cases op <;> rfl

theorem ofMnemonic?_eq_some_iff {name : String} {op : Operation} :
    ofMnemonic? name = some op ↔ name.toList.map Char.toUpper = op.mnemonic.toList := by
  constructor
  · intro h
    have h := List.find?_some h
    exact (eq_of_beq h).symm
  · intro h
    rw [ofMnemonic?, h]
    exact find?_mnemonic op

end Operation
end OpWord
