import OpWord.Proofs.LineByLine
import OpWord.Proofs.StrictAssembly

/-!
# Disassembly reads back

Some words written as assembly text parse to one item for each word (`parse_disassembly`).  A
word whose opcode bits name an operation comes back as its canonical form, which means the same.
Any other word has the name `NULL`, and the item says that this is not an operation.

Writing and reading meet at the grammar.  On one side the text of an instruction is a line of
the grammar (`Instruction.isLine_text`), and joining such lines loses none of them
(`lines_intercalate`).  On the other side lines of the grammar are what is parsed, and what is
read out of a word is admitted when it is assembled again (`Instruction.assemble_line`).
-/
namespace OpWord

open Assembly Assembly.Grammar

/-! ### Joined lines -/

/-- Lines joined by newlines are cut apart again.  A line with a newline in it would be cut, one
that ends with a carriage return would lose it, and an empty one at the end would be lost. -/
theorem lines_intercalate {pieces : List (List Char)} (hnewline : ∀ p ∈ pieces, '\n' ∉ p)
    (hreturn : ∀ p ∈ pieces, p.getLast? ≠ some '\r') (hnil : ∀ p ∈ pieces, p ≠ []) :
    lines (['\n'].intercalate pieces) = pieces := by
  by_cases hne : pieces = []
  · subst hne
    rfl
  · have hkeep : pieces.dropLast.map dropReturn = pieces.dropLast := by
      conv_rhs => rw [← List.map_id pieces.dropLast]
      apply List.map_congr_left
      intro p hp
      exact if_neg (hreturn p (List.dropLast_subset pieces hp))
    have hlast : pieces.getLast?.toList.filter (· ≠ []) = [pieces.getLast hne] := by
      have hlast := hnil _ (List.getLast_mem hne)
      simp [List.getLast?_eq_some_getLast hne, hlast]
    rw [lines, List.splitOn_intercalate '\n' hnewline hne, hkeep, hlast,
      List.dropLast_append_getLast]

/-! ### The text of an instruction -/

theorem Operation.name_mnemonic (op : Operation) : Name op.mnemonic.toList := by
  have hshape : op.mnemonic.toList.all Char.isAlphanum = true ∧
      (op.mnemonic.toList ++ []).head?.any Char.isAlpha = true := by
    cases op <;> exact ⟨rfl, rfl⟩
  have hstop : ∀ c ∈ ([] : List Char).head?, c.isAlphanum = false := by
    rintro c ⟨⟩
  exact name_of_head? (List.all_eq_true.mp hshape.1) hstop hshape.2

theorem Operation.map_toUpper_mnemonic (op : Operation) :
    op.mnemonic.toList.map Char.toUpper = op.mnemonic.toList := by
  cases op <;> rfl

/-- A written integer is one of the grammar, since it reads back. -/
theorem Numeral.integer_decimal (v : Int) : Integer (decimal v).toList v := by
  have hread : readDecimal? ((decimal v).toList ++ []) = some (v, []) := by
    apply readDecimal?_decimal
    rintro c ⟨⟩
  obtain ⟨cs, hcs, heq, -⟩ := exists_of_readDecimal? hread
  rw [List.append_nil, List.append_nil] at heq
  rw [heq]
  exact hcs

/-- A number of 32 bits is not too great to be read. -/
theorem Numeral.number_decimal (v : Operand) : Number (decimal v.toInt).toList v.toInt := by
  have hlow := v.le_toInt
  have hhigh := v.toInt_lt
  exact ⟨integer_decimal _, by omega, by omega⟩

namespace Instruction

/-- What the text of an instruction says. -/
def line (i : Instruction) : Line where
  name := i.operation.mnemonic
  operands := [(i.get .a).toInt, (i.get .b).toInt, (i.get .c).toInt]

/-- The text of an instruction, with the parts of the line set apart as the grammar has them. -/
theorem toList_text (i : Instruction) :
    i.text.toList = [] ++ (i.operation.mnemonic.toList ++
      ([' '] ++ '(' :: (
        [] ++ ((Numeral.decimal (i.get .a).toInt).toList ++ [] ++ ',' :: ([' '] ++
          ((Numeral.decimal (i.get .b).toInt).toList ++ [] ++ ',' :: ([' '] ++
            (Numeral.decimal (i.get .c).toInt).toList)))) ++ []
        ++ [')']) ++ ([] ++ []))) := by
  simp [text, Decoded.text, decode, String.toList_append]

theorem isLine_text (i : Instruction) : IsLine i.text.toList i.line := by
  have hnone : Gaps [] := nofun
  have hspace : Gaps [' '] := by
    rintro c (_ | ⟨_, ⟨⟩⟩)
    rfl
  have hoperands := Operands.cons (Numeral.number_decimal (i.get .a)) hnone hspace
    (.cons (Numeral.number_decimal (i.get .b)) hnone hspace
      (.one (Numeral.number_decimal (i.get .c))))
  have hline := IsLine.mk hnone i.operation.name_mnemonic
    (.brackets hspace (.some hnone hoperands hnone)) hnone .none
  rw [String.ofList_toList] at hline
  rw [toList_text]
  exact hline

/-- The text of an instruction stays on its line. -/
theorem newline_not_mem_text (i : Instruction) : '\n' ∉ i.text.toList := by
  have hname : '\n' ∉ i.operation.mnemonic.toList :=
    not_mem_of_forall (isAlphanum_of_name i.operation.name_mnemonic) rfl
  have hinteger : ∀ v : Int, '\n' ∉ (Numeral.decimal v).toList := fun v =>
    not_mem_integer (Numeral.integer_decimal v) rfl (by decide)
  simp [toList_text, hname, hinteger]

theorem getLast?_text (i : Instruction) : i.text.toList.getLast? = some ')' := by
  rw [text, Decoded.text, String.toList_append, List.getLast?_append]
  rfl

theorem text_ne_nil (i : Instruction) : i.text.toList ≠ [] := by
  intro h
  have hlast := i.getLast?_text
  rw [h] at hlast
  cases hlast

/-! ### Assembling what was read -/

theorem operation?_line (i : Instruction) :
    i.line.operation? = if i.operation.isNull then none else some i.operation := by
  have hop : Operation.ofMnemonic? i.operation.mnemonic = some i.operation :=
    Operation.ofMnemonic?_eq_some_iff.mpr i.operation.map_toUpper_mnemonic
  rw [Line.operation?, line, hop]
  cases h : i.operation.isNull <;> simp [h]

/-- What a word says is assembled to its canonical form. -/
theorem assemble_line (i : Instruction) :
    i.line.assemble =
      if i.operation.isNull then .error (.notAnOperation "NULL") else .ok i.canonical := by
  by_cases h : i.operation.isNull
  · have hnull : i.operation = .null := eq_of_beq h
    have hname : i.line.name = "NULL" := by
      rw [line, hnull]
      rfl
    have hop : i.line.operation? = none := by rw [operation?_line, if_pos h]
    rw [if_pos h, Line.assemble_of_unknown hop, hname]
  · -- what was read is admissible, and its encoding is the canonical form
    have hop : i.line.operation? = some i.operation := by rw [operation?_line, if_neg h]
    rw [if_neg h]
    exact Line.assemble_eq_ok_iff.mpr ⟨i.decode, hop, rfl, Decoded.admissible_decode i, rfl⟩

end Instruction

namespace Assembly

/-- Disassembly has a line for each word. -/
theorem lines_disassembly (words : List Word) :
    lines (disassembly words).toList = words.map fun w => (Instruction.mk w).text.toList := by
  rw [disassembly, String.toList_intercalate, List.map_map]
  apply lines_intercalate
  all_goals
    rw [List.forall_mem_map]
    intro w _
  · exact Instruction.newline_not_mem_text _
  · rw [Function.comp_apply, Instruction.getLast?_text]
    decide
  · exact Instruction.text_ne_nil _

/-- No line of it is skipped. -/
theorem not_blank_of_mem_lines (words : List Word) :
    ∀ line ∈ lines (disassembly words).toList, ¬ Blank line := by
  rw [lines_disassembly, List.forall_mem_map]
  intro w _
  exact not_blank_of_isLine (Instruction.mk w).isLine_text

/-- The item that an instruction's text comes to. -/
theorem ofLine_line (i : Instruction) (number : Nat) :
    Item.ofLine number i.line =
      if i.word.toNat % 64 < 38 then .instruction i.canonical
      else .diagnostic number (.notAnOperation "NULL") := by
  rw [Item.ofLine, i.assemble_line]
  by_cases h : i.word.toNat % 64 < 38
  · have hop : ¬ i.operation.isNull := fun hnull => i.isNull_operation_iff.mp hnull h
    rw [if_pos h, if_neg hop]
  · rw [if_neg h, if_pos (i.isNull_operation_iff.mpr h)]

/-- The texts of some instructions are parsed one by one. -/
theorem parseLines_map_text (is : List Instruction) (first : Nat) :
    parseLines (is.map fun i => i.text.toList) first =
      .ok ((is.zipIdx first).map fun numbered => Item.ofLine numbered.2 numbered.1.line) := by
  induction is generalizing first with
  | nil => exact parseLines_nil first
  | cons i is ih =>
    rw [List.map_cons, parseLines_cons_of_isLine i.isLine_text, ih (first + 1)]
    rfl

/-- The texts of some instructions, a line for each, parse to what each of them comes to. -/
theorem parse_intercalate_text (is : List Instruction) :
    parse ("\n".intercalate (is.map Instruction.text)) =
      .ok ((is.zipIdx 1).map fun numbered => Item.ofLine numbered.2 numbered.1.line) := by
  have hlines := lines_disassembly (is.map Instruction.word)
  rw [disassembly, List.map_map, List.map_map] at hlines
  rw [parse_eq_parseLines, ← parseLines_map_text]
  exact congrArg (parseLines · 1) hlines

/-- **Disassembly reads back.**  The text of any words parses, to one item for each word and in
order.  A word whose opcode bits name an operation comes back as the instruction that its
decoding is encoded to, and this one decodes as the word does.  For any other word the item says
on which line `NULL` stands. -/
theorem parse_disassembly (words : List Word) :
    parse (disassembly words) =
        .ok (words.zipIdx.map fun (w, i) =>
          if w.toNat % 64 < 38 then .instruction (Instruction.mk w).decode.encode
          else .diagnostic (i + 1) (.notAnOperation "NULL")) ∧
      ∀ w ∈ words, w.toNat % 64 < 38 →
        (Instruction.mk w).decode.encode.decode = (Instruction.mk w).decode := by
  constructor
  · have hfilter : ∀ numbered ∈ (lines (disassembly words).toList).zipIdx 1,
        decide (¬ Blank numbered.1) = true := by
      intro numbered hmem
      exact decide_eq_true (not_blank_of_mem_lines words _ (List.fst_mem_of_mem_zipIdx hmem))
    rw [parse_eq_ok_iff, List.filter_eq_self.mpr hfilter, lines_disassembly, List.zipIdx_map,
      List.zipIdx_succ, List.map_map, List.forall₂_map_left_iff, List.forall₂_map_right_iff,
      List.forall₂_same]
    rintro ⟨w, i⟩ -
    dsimp only [Function.comp_apply, Prod.map_apply, id_eq]
    refine ⟨(Instruction.mk w).line, (Instruction.mk w).isLine_text, ?_⟩
    rw [ofLine_line, Instruction.canonical]
  · intro w _ _
    exact Decoded.decode_canonical _

end Assembly
end OpWord
