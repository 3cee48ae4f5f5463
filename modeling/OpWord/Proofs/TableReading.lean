import Mathlib.Data.List.DropRight
import OpWord.Proofs.TableShape

/-!
# Reading a table

A printed table is read line by line: the titles and the rule are skipped, every other line is
cut at its separators, and the spaces are taken off both ends of each piece (`readRows`).  If the
cells are plain, this gives them back (`Table.readRows_text`).

The text is cut at the newlines that end its lines, since there are no others in it
(`lines_flatMap_newline`).  Around a cell there are only spaces: those that frame it, those that
fill it up, and for the first and the last cell one more from the border of the line
(`Padded`).  A plain cell has no space in it, so all of these are taken off and nothing else.
-/
namespace OpWord

/-! ### Lines -/

/-- Lines that are each ended by a newline are cut apart again. -/
theorem lines_flatMap_newline {ls : List (List Char)} (hnewline : ∀ line ∈ ls, '\n' ∉ line)
    (hreturn : ∀ line ∈ ls, line.getLast? ≠ some '\r') :
    lines (ls.flatMap (· ++ ['\n'])) = ls := by
  induction ls with
  | nil => rfl
  | cons line ls ih =>
    obtain ⟨hline, hnewline⟩ := List.forall_mem_cons.mp hnewline
    obtain ⟨hend, hreturn⟩ := List.forall_mem_cons.mp hreturn
    have hkeep : dropReturn line = line := if_neg hend
    rw [List.flatMap_cons, List.append_assoc, List.singleton_append, lines_append_newline,
      List.splitOn_eq_singleton hline, ih hnewline hreturn, List.map_singleton, hkeep]
    rfl

theorem getLast?_borderedLine (sep : Char) (pieces : List (List Char)) :
    (borderedLine sep pieces).getLast? = some ' ' := by
  rw [borderedLine, List.getLast?_append]
  rfl

/-! ### Spaces around a cell -/

/-- What is left when the spaces are taken off both ends. -/
def trimSpaces (cs : List Char) : List Char :=
  (cs.dropWhile (· == ' ')).rdropWhile (· == ' ')

/-- A cell with spaces before and after it. -/
inductive Padded (cell : List Char) : List Char → Prop
  | intro (before after : Nat) :
    Padded cell (List.replicate before ' ' ++ (cell ++ List.replicate after ' '))

section Padded

variable {cell piece : List Char}

theorem InColumn.padded {width : Nat} {align : Align} (h : InColumn width cell align piece) :
    Padded cell piece := by
  cases h with
  | @left fill _ =>
    have hpiece : Padded cell _ := .intro 1 (fill + 1)
    simpa [List.replicate_succ'] using hpiece
  | @right fill _ =>
    have hpiece : Padded cell _ := .intro (fill + 1) 1
    simpa [List.replicate_succ] using hpiece

theorem Padded.replicate_append (h : Padded cell piece) (n : Nat) :
    Padded cell (List.replicate n ' ' ++ piece) := by
  obtain ⟨before, after⟩ := h
  rw [← List.append_assoc, ← List.replicate_add]
  exact .intro (n + before) after

theorem Padded.append_space (h : Padded cell piece) : Padded cell (piece ++ [' ']) := by
  obtain ⟨before, after⟩ := h
  rw [List.append_assoc, List.append_assoc, ← List.replicate_succ']
  exact .intro before (after + 1)

/-- A cell without spaces is what is left when those around it are taken off. -/
theorem Padded.trimSpaces_eq (h : Padded cell piece) (hspace : ' ' ∉ cell) :
    trimSpaces piece = cell := by
  obtain ⟨before, after⟩ := h
  have hspaces : ∀ n, ∀ c ∈ List.replicate n ' ', (c == ' ') = true := by
    intro n c hc
    rw [List.eq_of_mem_replicate hc]
    rfl
  have hcell : ∀ c ∈ cell, (c == ' ') = false := by
    intro c hc
    rw [beq_eq_false_iff_ne]
    exact fun hc' => hspace (hc' ▸ hc)
  rw [trimSpaces]
  by_cases hnil : cell = []
  · -- nothing but spaces
    rw [hnil, List.nil_append, ← List.replicate_add,
      List.dropWhile_eq_nil_iff.mpr (hspaces _), List.rdropWhile_nil]
  · have hfront : ∀ c ∈ (cell ++ List.replicate after ' ').head?, (c == ' ') = false := by
      rw [List.head?_append_of_ne_nil cell hnil]
      exact fun c hc => hcell c (List.mem_of_mem_head? hc)
    have hback : ∀ c ∈ cell.reverse.head?, (c == ' ') = false := fun c hc =>
      hcell c (List.mem_reverse.mp (List.mem_of_mem_head? hc))
    rw [dropWhile_append_eq_right (hspaces before) hfront, List.rdropWhile, List.reverse_append,
      List.reverse_replicate, dropWhile_append_eq_right (hspaces after) hback,
      List.reverse_reverse]

end Padded

/-! ### Lines of cells -/

/-- The cells of a line. -/
def readCells (line : List Char) : List String :=
  (line.splitOn '│').map fun piece => String.ofList (trimSpaces piece)

/-- The cells of the rows of a printed table.  The first two lines are those of the titles and
the rule. -/
def readRows (text : String) : List (List String) :=
  ((lines text.toList).drop 2).map readCells

/-- Pieces with separators between them are cut apart and trimmed, the first and the last with
more spaces around them than the others. -/
theorem map_trimSpaces_splitOn {cells pieces : List (List Char)}
    (h : List.Forall₂ Padded cells pieces) (hne : pieces ≠ []) (hspace : ∀ cell ∈ cells, ' ' ∉ cell)
    (hsep : ∀ p ∈ pieces, '│' ∉ p) (n : Nat) :
    ((List.replicate n ' ' ++ (['│'].intercalate pieces ++ [' '])).splitOn '│').map trimSpaces =
      cells := by
  have hspaces : ∀ n, '│' ∉ List.replicate n ' ' := by
    intro n hmem
    cases List.eq_of_mem_replicate hmem
  induction h generalizing n with
  | nil => exact absurd rfl hne
  | @cons cell piece cells pieces hpiece hrest ih =>
    obtain ⟨hcell, hspace⟩ := List.forall_mem_cons.mp hspace
    obtain ⟨hp, hsep⟩ := List.forall_mem_cons.mp hsep
    cases hrest with
    | nil =>
      have hlast : '│' ∉ List.replicate n ' ' ++ (piece ++ [' ']) := by simp [hspaces, hp]
      rw [List.intercalate_singleton, List.splitOn_eq_singleton hlast, List.map_singleton,
        (hpiece.append_space.replicate_append n).trimSpaces_eq hcell]
    | cons _ _ =>
      have hfirst : '│' ∉ List.replicate n ' ' ++ piece := by simp [hspaces, hp]
      have hafter := ih (List.cons_ne_nil _ _) hspace hsep 0
      rw [List.intercalate_cons_cons, List.append_assoc, List.append_assoc, ← List.append_assoc,
        List.singleton_append, List.splitOn_append_cons_self_of_not_mem hfirst, List.map_cons,
        (hpiece.replicate_append n).trimSpaces_eq hcell]
      rw [List.replicate_zero, List.nil_append] at hafter
      rw [hafter]

namespace Table

variable {α : Type} {t : Table α} {content : Column α → String}

/-- A line shows its contents. -/
theorem readCells_contentLine (ht : t.Plain) (h : content ∈ t.contents) :
    readCells (t.contentLine content) = t.columns.map content := by
  have hpadded : List.Forall₂ Padded (t.columns.map fun col => (content col).toList)
      (t.framedPieces content) := by
    rw [List.forall₂_map_left_iff]
    exact (inColumn_framedPieces h).imp fun col piece hpiece => hpiece.padded
  have hspace : ∀ cell ∈ t.columns.map fun col => (content col).toList, ' ' ∉ cell := by
    rw [List.forall_mem_map]
    exact fun col hcol => (ht.content content h col hcol).space
  have htrim := map_trimSpaces_splitOn hpadded (framedPieces_ne_nil ht content) hspace
    (separator_not_mem_framedPieces ht h) 1
  have hline : t.contentLine content =
      List.replicate 1 ' ' ++ (['│'].intercalate (t.framedPieces content) ++ [' ']) := rfl
  rw [readCells, hline, ← Function.comp_def String.ofList trimSpaces, ← List.map_map, htrim,
    List.map_map]
  simp [Function.comp_def]

/-- **The cells of a table can be read back.** -/
theorem readRows_text (ht : t.Plain) :
    readRows t.text = t.rows.map fun r => t.columns.map fun col => col.cell r := by
  have hreturn : ∀ line ∈ t.printedLines, line.getLast? ≠ some '\r' := by
    intro line hline
    rcases mem_printedLines_iff.mp hline with rfl | ⟨content, -, rfl⟩
    · rw [ruleLine, getLast?_borderedLine]
      decide
    · rw [contentLine, getLast?_borderedLine]
      decide
  rw [readRows, toList_text,
    lines_flatMap_newline (fun line => newline_not_mem_of_mem_printedLines ht) hreturn, printedLines,
    List.drop_succ_cons, List.drop_succ_cons, List.drop_zero, List.map_map]
  apply List.map_congr_left
  intro r hr
  exact readCells_contentLine ht (List.mem_cons_of_mem _ (List.mem_map_of_mem hr))

end Table
end OpWord
