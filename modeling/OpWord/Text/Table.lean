/-!
# Plain text tables

A `Table` has columns and rows.  A column says how a row is shown in it, so every row has a cell
in every column.  The text of a table is a line of titles, a rule and a line for each row:

```
. Name │ Count .
.──────┼───────.
.  one │ 1     .
. four │ 4444  .
```

Here a dot stands for the space at either end of each line.

A column is as wide as the widest of its title and its cells (`Column.width`), and every cell is
padded to that width on the side away from its alignment.  One more space stands on either side
of each cell.
-/
namespace OpWord

/-- The side of a column on which its cells start or end. -/
inductive Align where
  /-- Cells start on one line, padding follows them. -/
  | left
  /-- Cells end on one line, padding precedes them. -/
  | right
  deriving DecidableEq

/-- A cell padded with spaces to a width. -/
def Align.pad (width : Nat) (cell : List Char) : Align → List Char
  | left => cell.rightpad width ' '
  | right => cell.leftpad width ' '

/-- A column of a table whose rows are of type `α`. -/
structure Column (α : Type) where
  /-- The title. -/
  title : String
  /-- How the title and the cells are aligned. -/
  align : Align
  /-- The cell of a row. -/
  cell : α → String

/-- The number of characters of the widest of the title and the cells. -/
def Column.width {α : Type} (col : Column α) (rows : List α) : Nat :=
  (rows.map fun r => (col.cell r).length).foldl max col.title.length

/-- A table whose rows are of type `α`. -/
structure Table (α : Type) where
  /-- The columns, from left to right. -/
  columns : List (Column α)
  /-- The rows, from top to bottom. -/
  rows : List α

/-- A line made of one piece for each column. -/
def tableLine (separator : Char) (pieces : List (List Char)) : List Char :=
  ' ' :: [separator].intercalate pieces ++ [' ', '\n']

/-- A column and its width. -/
structure SizedColumn (α : Type) extends Column α where
  /-- The number of characters that each cell is padded to. -/
  size : Nat

namespace SizedColumn

variable {α : Type}

/-- A cell of the column, padded and with a space on either side. -/
def frame (col : SizedColumn α) (cell : String) : List Char :=
  ' ' :: col.align.pad col.size cell.toList ++ [' ']

/-- The line of titles. -/
def titleLine (cols : List (SizedColumn α)) : List Char :=
  tableLine '│' (cols.map fun col => col.frame col.title)

/-- The rule below the titles. -/
def rule (cols : List (SizedColumn α)) : List Char :=
  tableLine '┼' (cols.map fun col => List.replicate (col.size + 2) '─')

/-- The line of a row. -/
def rowLine (cols : List (SizedColumn α)) (r : α) : List Char :=
  tableLine '│' (cols.map fun col => col.frame (col.cell r))

end SizedColumn

namespace Table

variable {α : Type}

/-- The columns with their widths. -/
def sizedColumns (t : Table α) : List (SizedColumn α) :=
  t.columns.map fun col => { col with size := col.width t.rows }

/-- The whole table. -/
def text (t : Table α) : String :=
  let cols := t.sizedColumns
  String.ofList
    (SizedColumn.titleLine cols ++ SizedColumn.rule cols ++ t.rows.flatMap (SizedColumn.rowLine cols))

end Table
end OpWord
