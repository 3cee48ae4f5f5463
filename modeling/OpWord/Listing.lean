import OpWord.Instruction.Decoded
import OpWord.Text.Table

/-!
# Listings

A `Listing` is a block of code: instructions in order, to be shown as a table with a row for
each.  A row has the position of the instruction, its word and what the word means.
`Listing.unrecognized` gives the instructions that name no operation.
-/
namespace OpWord

/-- A block of code. -/
structure Listing where
  /-- The instructions in order. -/
  instructions : List Instruction
  deriving DecidableEq

namespace Listing

/-- The listing of some words. -/
def ofWords (words : List Word) : Listing where
  instructions := words.map Instruction.mk

/-- The words of a listing. -/
def words (l : Listing) : List Word :=
  l.instructions.map Instruction.word

@[simp] theorem words_ofWords (words : List Word) : (ofWords words).words = words := by
  rw [Listing.words, ofWords, List.map_map]
  exact List.map_id words

/-- The number of instructions. -/
def length (l : Listing) : Nat :=
  l.instructions.length

/-- Whether there is no instruction. -/
def isEmpty (l : Listing) : Bool :=
  l.instructions.isEmpty

/-- An instruction and its position. -/
structure Row where
  /-- The position, counted from zero. -/
  index : Nat
  /-- The instruction. -/
  instruction : Instruction
  deriving DecidableEq

/-- The instructions with their positions. -/
def rows (l : Listing) : List Row :=
  l.instructions.zipIdx.map fun (i, index) => { index, instruction := i }

/-- The instructions that name no operation, with their positions. -/
def unrecognized (l : Listing) : List Row :=
  l.rows.filter fun r => r.instruction.operation.isNull

/-- A row stands at the position that it gives. -/
theorem mem_rows_iff {l : Listing} {r : Row} :
    r ∈ l.rows ↔ l.instructions[r.index]? = some r.instruction := by
  rw [rows, List.mem_map]
  constructor
  · rintro ⟨⟨i, index⟩, hmem, rfl⟩
    exact List.mem_zipIdx_iff_getElem?.mp hmem
  · intro h
    exact ⟨(r.instruction, r.index), List.mem_zipIdx_iff_getElem?.mpr h, rfl⟩

/-- The positions are counted up from zero. -/
theorem map_index_rows (l : Listing) : l.rows.map Row.index = List.range l.length := by
  rw [rows, List.map_map, length, List.range_eq_range', ← List.zipIdx_map_snd 0]
  rfl

theorem mem_unrecognized_iff {l : Listing} {r : Row} :
    r ∈ l.unrecognized ↔
      l.instructions[r.index]? = some r.instruction ∧ r.instruction.operation.isNull := by
  rw [unrecognized, List.mem_filter, mem_rows_iff]

/-- The columns of a listing: the position, the word in eight hexadecimal digits, and the
operation and operands that it means. -/
def columns : List (Column Row) :=
  [{ title := "Index", align := .right, cell := fun r => Numeral.decimal r.index },
   { title := "Word", align := .left,
     cell := fun r => Numeral.hexadecimal 8 r.instruction.word.toNat },
   { title := "Opcode", align := .left, cell := fun r => r.instruction.operation.mnemonic },
   { title := "A", align := .right, cell := fun r => Numeral.decimal (r.instruction.get .a).toInt },
   { title := "B", align := .right, cell := fun r => Numeral.decimal (r.instruction.get .b).toInt },
   { title := "C", align := .right, cell := fun r => Numeral.decimal (r.instruction.get .c).toInt }]

/-- The table of a listing. -/
def table (l : Listing) : Table Row where
  columns := columns
  rows := l.rows

/-- The table of a listing as text. -/
def text (l : Listing) : String :=
  l.table.text

end Listing
end OpWord
