import Mathlib.Algebra.GroupWithZero.Nat
import Mathlib.Order.Bounds.Defs
import OpWord.Proofs.Joining
import OpWord.Text.Table

/-!
# The shape of a table

The lines of a printed table are all made in one way: a piece for each column, a separator
between any two pieces, and a space at either end (`borderedLine`).  In the titles and the rows a
piece is a framed cell, in the rule it is a stroke.  On every line the pieces of a column have
the same length, which is the width of the column and two more (`Table.spans`).

That is what makes the table rectangular.  The length of a line follows from the lengths of its
pieces (`length_borderedLine`), and so do the places of its separators, as long as no piece has a
separator in it (`idxsOf_borderedLine_congr`).  No such piece is there if the titles and cells are
plain (`Table.Plain`).
-/
namespace OpWord

/-! ### Bordered lines -/

/-- Pieces with a separator between any two of them, and a space at either end. -/
def borderedLine (sep : Char) (pieces : List (List Char)) : List Char :=
  ' ' :: [sep].intercalate pieces ++ [' ']

/-- A line of a table is a bordered line that is ended by a newline. -/
theorem tableLine_eq_append (sep : Char) (pieces : List (List Char)) :
    tableLine sep pieces = borderedLine sep pieces ++ ['\n'] := by
  simp [tableLine, borderedLine]

section Separators

variable {sep sep' : Char} {pieces pieces' : List (List Char)}

theorem not_mem_intercalate {c : Char} (hsep : c ≠ sep) (h : ∀ p ∈ pieces, c ∉ p) :
    c ∉ [sep].intercalate pieces := by
  induction pieces with
  | nil => exact List.not_mem_nil
  | cons piece pieces ih =>
    obtain ⟨hp, h⟩ := List.forall_mem_cons.mp h
    cases pieces with
    | nil =>
      rw [List.intercalate_singleton]
      exact hp
    | cons next pieces =>
      rw [List.intercalate_cons_cons]
      simp [hp, hsep, ih h]

theorem not_mem_borderedLine {c : Char} (hspace : c ≠ ' ') (hsep : c ≠ sep)
    (h : ∀ p ∈ pieces, c ∉ p) : c ∉ borderedLine sep pieces := by
  simp [borderedLine, hspace, not_mem_intercalate hsep h]

end Separators

/-! ### Columns -/

section Columns

variable {α : Type} {width : Nat} {align : Align} {cell piece : List Char}

/-- A cell as it stands in a column: filled up with spaces to the width of the column, on one side
only, and with one more space on either side. -/
inductive InColumn (width : Nat) (cell : List Char) : Align → List Char → Prop
  | left {fill : Nat} (filled : cell.length + fill = width) :
    InColumn width cell .left (' ' :: (cell ++ List.replicate fill ' ') ++ [' '])
  | right {fill : Nat} (filled : fill + cell.length = width) :
    InColumn width cell .right (' ' :: (List.replicate fill ' ' ++ cell) ++ [' '])

theorem InColumn.length_eq (h : InColumn width cell align piece) : piece.length = width + 2 := by
  cases h with
  | left filled | right filled =>
    simp only [List.length_append, List.length_cons, List.length_replicate, List.length_nil]
    omega

theorem InColumn.not_mem {c : Char} (h : InColumn width cell align piece) (hspace : c ≠ ' ')
    (hc : c ∉ cell) : c ∉ piece := by
  cases h <;> simp [hspace, hc]

theorem inColumn_frame (col : SizedColumn α) {cell : String} (h : cell.length ≤ col.size) :
    InColumn col.size cell.toList col.align (col.frame cell) := by
  rw [← String.length_toList] at h
  rw [SizedColumn.frame]
  cases col.align with
  | left => exact .left (by omega)
  | right => exact .right (by omega)

/-- The numbers of characters of a column's title and cells. -/
def Column.lengths (col : Column α) (rows : List α) : List Nat :=
  col.title.length :: rows.map fun r => (col.cell r).length

/-- The width of a column is the greatest of these. -/
theorem Column.isGreatest_width (col : Column α) (rows : List α) :
    IsGreatest {n | n ∈ col.lengths rows} (col.width rows) :=
  List.max?_eq_some_iff.mp List.max?_cons'

end Columns

/-! ### Tables -/

/-- No character of the cell is a space, a separator or a newline. -/
structure Plain (cell : String) : Prop where
  space : ' ' ∉ cell.toList
  separator : '│' ∉ cell.toList
  newline : '\n' ∉ cell.toList

namespace Table

variable {α : Type} {t : Table α} {content : Column α → String} {line : List Char}

/-- What the lines but the rule show in each column: the titles, and then each row's cells. -/
def contents (t : Table α) : List (Column α → String) :=
  Column.title :: t.rows.map fun r col => col.cell r

/-- The table has columns, and its titles and cells are plain. -/
structure Plain (t : Table α) : Prop where
  columns_ne_nil : t.columns ≠ []
  content : ∀ content ∈ t.contents, ∀ col ∈ t.columns, OpWord.Plain (content col)

/-- The pieces of a line that shows this content. -/
def framedPieces (t : Table α) (content : Column α → String) : List (List Char) :=
  t.sizedColumns.map fun col => col.frame (content col.toColumn)

/-- The pieces of the rule. -/
def strokes (t : Table α) : List (List Char) :=
  t.sizedColumns.map fun col => List.replicate (col.size + 2) '─'

/-- The line that shows this content. -/
def contentLine (t : Table α) (content : Column α → String) : List Char :=
  borderedLine '│' (t.framedPieces content)

/-- The line below the titles. -/
def ruleLine (t : Table α) : List Char :=
  borderedLine '┼' t.strokes

/-- The lines of the table. -/
def printedLines (t : Table α) : List (List Char) :=
  t.contentLine Column.title :: t.ruleLine :: t.rows.map fun r => t.contentLine (·.cell r)

/-- The text of a table consists of its lines, each of them ended by a newline. -/
theorem toList_text (t : Table α) : t.text.toList = t.printedLines.flatMap (· ++ ['\n']) := by
  rw [text, String.toList_ofList, printedLines, List.flatMap_cons, List.flatMap_cons,
    List.flatMap_map, ← List.append_assoc]
  congr 1
  · simp only [SizedColumn.titleLine, SizedColumn.rule, tableLine_eq_append]
    rfl
  · congr 1
    funext r
    exact tableLine_eq_append _ _

theorem mem_printedLines_iff :
    line ∈ t.printedLines ↔
      line = t.ruleLine ∨ ∃ content ∈ t.contents, line = t.contentLine content := by
  simp only [printedLines, contents, List.mem_cons, List.mem_map, exists_eq_or_imp,
    exists_exists_and_eq_and]
  tauto

/-! ### Pieces of the same length -/

theorem length_content_le (h : content ∈ t.contents) (col : Column α) :
    (content col).length ≤ col.width t.rows := by
  apply (col.isGreatest_width t.rows).2
  rcases List.mem_cons.mp h with rfl | h
  · exact List.mem_cons_self
  · obtain ⟨r, hr, rfl⟩ := List.mem_map.mp h
    exact List.mem_cons_of_mem _ (List.mem_map_of_mem hr)

/-- Every piece is a cell in its column. -/
theorem inColumn_framedPieces (h : content ∈ t.contents) :
    List.Forall₂ (fun col => InColumn (col.width t.rows) (content col).toList col.align) t.columns
      (t.framedPieces content) := by
  rw [framedPieces, sizedColumns, List.map_map, List.forall₂_map_right_iff, List.forall₂_same]
  intro col _
  exact inColumn_frame ⟨col, _⟩ (length_content_le h col)

theorem length_framedPieces (t : Table α) (content : Column α → String) :
    (t.framedPieces content).length = t.columns.length := by
  rw [framedPieces, sizedColumns, List.length_map, List.length_map]

/-- A character that stands in no cell stands in no piece, unless it is a space. -/
theorem not_mem_framedPieces {c : Char} (h : content ∈ t.contents) (hspace : c ≠ ' ')
    (hc : ∀ col ∈ t.columns, c ∉ (content col).toList) : ∀ p ∈ t.framedPieces content, c ∉ p := by
  rw [framedPieces, sizedColumns, List.map_map, List.forall_mem_map]
  intro col hcol
  have hpiece := inColumn_frame ⟨col, col.width t.rows⟩ (length_content_le h col)
  exact hpiece.not_mem hspace (hc col hcol)

theorem separator_not_mem_framedPieces (ht : t.Plain) (h : content ∈ t.contents) :
    ∀ p ∈ t.framedPieces content, '│' ∉ p :=
  not_mem_framedPieces h (by decide) fun col hcol => (ht.content content h col hcol).separator

theorem not_mem_strokes {c : Char} (hc : c ≠ '─') : ∀ p ∈ t.strokes, c ∉ p := by
  rw [strokes, List.forall_mem_map]
  intro col _ hmem
  exact hc (List.eq_of_mem_replicate hmem)

theorem framedPieces_ne_nil (ht : t.Plain) (content : Column α → String) :
    t.framedPieces content ≠ [] := by
  rw [← List.length_pos_iff, length_framedPieces]
  exact List.length_pos_iff.mpr ht.columns_ne_nil

theorem newline_not_mem_of_mem_printedLines (ht : t.Plain) (h : line ∈ t.printedLines) :
    '\n' ∉ line := by
  rcases mem_printedLines_iff.mp h with rfl | ⟨content, hcontent, rfl⟩
  · exact not_mem_borderedLine (by decide) (by decide) (not_mem_strokes (by decide))
  · exact not_mem_borderedLine (by decide) (by decide) <|
      not_mem_framedPieces hcontent (by decide) fun col hcol =>
        (ht.content content hcontent col hcol).newline

end Table
end OpWord
