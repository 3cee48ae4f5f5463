import OpWord.Listing
import OpWord.Proofs.Canonical
import OpWord.Proofs.ReadBack

/-!
# What assembly emits

Every instruction that comes out of a text is a proper one (`Instruction.Proper`): it is the
instruction of a recognized operation, and it is its own canonical form, so no bit is set in it
that its layout does not use.  The reason is that a line is only assembled if all its operands
are admissible, and what is admissible is encoded without spilling.

Proper instructions are stable.  Their text reads back as the instruction itself, one by one
(`parse_text`) and together (`parse_intercalate_of_proper`), so that writing out what was
assembled and assembling it again changes nothing.  All is put together in
`parse_emits_proper`.
-/
namespace OpWord

/-- An instruction of a recognized operation, without a bit set that means nothing. -/
structure Instruction.Proper (i : Instruction) : Prop where
  /-- The opcode bits name an operation. -/
  recognized : i.word.toNat % 64 < 38
  /-- The instruction is its own canonical form. -/
  canonical : i.canonical = i

namespace Instruction

variable {i : Instruction}

/-- Whatever is admissible, and not `null`, is encoded to a proper instruction. -/
theorem proper_encode {d : Decoded} (h : d.Admissible) (hop : d.operation ≠ .null) :
    d.encode.Proper := by
  constructor
  · by_contra hcode
    have hnull := operation_eq_null_iff.mpr (Nat.not_lt.mp hcode)
    rw [Decoded.operation_encode] at hnull
    exact hop hnull
  · rw [canonical, Decoded.decode_encode h]

theorem Proper.isNull_operation (h : i.Proper) : i.operation.isNull = false := by
  rw [← Bool.not_eq_true, isNull_operation_iff]
  exact fun hcode => hcode h.recognized

/-- No bit of a proper instruction is set that its layout does not use. -/
theorem Proper.and_not_usedBits (h : i.Proper) : i.word &&& ~~~i.layout.usedBits = 0 := by
  have hword := i.word_canonical
  rw [h.canonical, if_pos h.recognized] at hword
  rw [hword, BitVec.and_assoc, BitVec.and_not_self]
  exact BitVec.and_zero

end Instruction

namespace Assembly

/-! ### Lines and texts -/

theorem proper_of_assemble {l : Line} {i : Instruction} (h : l.assemble = .ok i) : i.Proper := by
  obtain ⟨d, hop, -, hadmissible, rfl⟩ := Line.assemble_eq_ok_iff.mp h
  exact Instruction.proper_encode hadmissible (Line.operation?_eq_some_iff.mp hop).2

theorem proper_of_mem_parse {text : String} {items : List Item} (h : parse text = .ok items)
    {i : Instruction} (hi : .instruction i ∈ items) : i.Proper := by
  obtain ⟨-, l, number, -, -, hitem⟩ := exists_line_of_mem_parse h hi
  exact proper_of_assemble (ofLine_eq_instruction_iff_assemble.mp hitem.symm)

theorem mem_instructions_iff {items : List Item} {i : Instruction} :
    i ∈ instructions items ↔ .instruction i ∈ items := by
  rw [instructions, List.mem_filterMap]
  constructor
  · rintro ⟨item, hmem, h⟩
    cases item with
    | instruction j =>
      cases h
      exact hmem
    | diagnostic line fault => cases h
  · intro h
    exact ⟨_, h, rfl⟩

/-! ### Writing out and reading again -/

/-- What a proper instruction says comes to the instruction itself, on whatever line. -/
theorem ofLine_of_proper {i : Instruction} (h : i.Proper) (number : Nat) :
    Item.ofLine number i.line = .instruction i := by
  rw [ofLine_line, if_pos h.recognized, h.canonical]

/-- Proper instructions read back in order, and nothing is found wrong. -/
theorem parse_intercalate_of_proper {is : List Instruction} (h : ∀ i ∈ is, i.Proper) :
    parse ("\n".intercalate (is.map Instruction.text)) = .ok (is.map .instruction) := by
  have hitems : (is.zipIdx 1).map (fun numbered => Item.ofLine numbered.2 numbered.1.line) =
      (is.zipIdx 1).map (Item.instruction ∘ Prod.fst) := by
    apply List.map_congr_left
    intro numbered hmem
    exact ofLine_of_proper (h numbered.1 (List.fst_mem_of_mem_zipIdx hmem)) numbered.2
  rw [parse_intercalate_text, hitems, ← List.map_map, List.zipIdx_map_fst]

theorem parse_text {i : Instruction} (h : i.Proper) :
    parse i.text = .ok [.instruction i] := by
  have hone : ∀ j ∈ [i], j.Proper := by
    intro j hj
    rw [List.mem_singleton.mp hj]
    exact h
  simpa using parse_intercalate_of_proper hone

theorem unrecognized_of_proper {is : List Instruction} (h : ∀ i ∈ is, i.Proper) :
    Listing.unrecognized { instructions := is } = [] := by
  rw [List.eq_nil_iff_forall_not_mem]
  intro r hr
  obtain ⟨hinstruction, hnull⟩ := Listing.mem_unrecognized_iff.mp hr
  rw [(h _ (List.mem_of_getElem? hinstruction)).isNull_operation] at hnull
  cases hnull

/-- **What assembly emits is canonical and stable.**  Every instruction that comes out of a text
is of a recognized operation, is what its decoding is encoded to, with no bit set that its layout
does not use, and its text parses to the instruction alone.  So the instructions of a text,
written out line by line, parse to the same instructions in the same order and to nothing else,
and a listing of them has no unrecognized row. -/
theorem parse_emits_proper {text : String} {items : List Item} (h : parse text = .ok items) :
    (∀ i, .instruction i ∈ items →
        i.word.toNat % 64 < 38 ∧ i.decode.encode = i ∧ i.word &&& ~~~i.layout.usedBits = 0 ∧
          parse i.text = .ok [.instruction i]) ∧
      parse ("\n".intercalate ((instructions items).map Instruction.text)) =
        .ok ((instructions items).map .instruction) ∧
      Listing.unrecognized { instructions := instructions items } = [] := by
  have hproper : ∀ i ∈ instructions items, i.Proper := fun i hi =>
    proper_of_mem_parse h (mem_instructions_iff.mp hi)
  refine ⟨?_, parse_intercalate_of_proper hproper, unrecognized_of_proper hproper⟩
  intro i hi
  have hi := proper_of_mem_parse h hi
  exact ⟨hi.recognized, hi.canonical, hi.and_not_usedBits, parse_text hi⟩

/-- The least jump distance and the greatest operands, with a fault on the line between them. -/
theorem parse_emits_proper_limits :
    parse "jmp (0, -131071)\nFROB\nMOVE (255, 511)" =
        .ok [.instruction ⟨22⟩, .diagnostic 2 (.notAnOperation "FROB"),
          .instruction ⟨0xFF803FC0⟩] ∧
      (parse (Instruction.mk 22).text = .ok [.instruction ⟨22⟩] ∧
        parse (Instruction.mk 0xFF803FC0).text = .ok [.instruction ⟨0xFF803FC0⟩]) ∧
      parse ("\n".intercalate ([⟨22⟩, ⟨0xFF803FC0⟩].map Instruction.text)) =
        .ok [.instruction ⟨22⟩, .instruction ⟨0xFF803FC0⟩] ∧
      Listing.unrecognized { instructions := [⟨22⟩, ⟨0xFF803FC0⟩] } = [] := by
  have hparse : parse "jmp (0, -131071)\nFROB\nMOVE (255, 511)" =
      .ok [.instruction ⟨22⟩, .diagnostic 2 (.notAnOperation "FROB"),
        .instruction ⟨0xFF803FC0⟩] := by rfl
  obtain ⟨heach, hjoined, hlisting⟩ := parse_emits_proper hparse
  obtain ⟨-, -, -, hjump⟩ := heach ⟨22⟩ (by decide)
  obtain ⟨-, -, -, hmove⟩ := heach ⟨0xFF803FC0⟩ (by decide)
  exact ⟨hparse, ⟨hjump, hmove⟩, hjoined, hlisting⟩

end Assembly
end OpWord
