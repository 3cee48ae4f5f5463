import Mathlib.Tactic.TFAE
import OpWord.Listing
import OpWord.Proofs.ReadBack

/-!
# Which words are recognized

Whether a word names an operation can be asked in several places: of its opcode bits, of the
operation that it is given, of the strict decoding, of a listing, and of assembly when the word
is written out and read again.  Each of these makes its own decision, and the code 38 is a
likely point to differ on: it is a code, and `null` has it, but no operation is recognized by
it.  They all agree, for every word of every block of code (`recognition_agrees`).
-/
namespace OpWord

namespace Instruction

variable {i : Instruction}

theorem decode?_eq_none_iff : i.decode? = none ↔ 38 ≤ i.word.toNat % 64 := by
  rw [← operation_eq_null_iff, decode?, Operation.isNull]
  by_cases h : i.operation = .null <;> simp [h]

/-- The strict decoding gives what the other one gives, or nothing. -/
theorem decode?_eq_some_iff {d : Decoded} :
    i.decode? = some d ↔ i.word.toNat % 64 < 38 ∧ i.decode = d := by
  rw [← Nat.not_le, ← operation_eq_null_iff, decode?, Operation.isNull]
  by_cases h : i.operation = .null <;> simp [h]

end Instruction

namespace Listing

/-- The unrecognized rows stand in the order of their positions, each of them once. -/
theorem pairwise_index_unrecognized (l : Listing) :
    (l.unrecognized.map Row.index).Pairwise (· < ·) := by
  have hrows : (l.rows.map Row.index).Pairwise (· < ·) := by
    rw [map_index_rows]
    exact List.pairwise_lt_range
  exact hrows.sublist (List.filter_sublist.map Row.index)

theorem mem_unrecognized_ofWords_iff {words : List Word} (i : Fin words.length) :
    { index := i, instruction := ⟨words[i]⟩ } ∈ (ofWords words).unrecognized ↔
      38 ≤ words[i].toNat % 64 := by
  have hword : (ofWords words).instructions[i.val]? = some ⟨words[i]⟩ := by
    simp [ofWords]
  rw [mem_unrecognized_iff, Operation.isNull, beq_iff_eq, Instruction.operation_eq_null_iff]
  exact and_iff_right hword

end Listing

namespace Assembly

/-- A disassembly parses, and the item of a word is that of what the word says. -/
theorem exists_parse_disassembly (words : List Word) :
    ∃ items, parse (disassembly words) = .ok items ∧
      ∀ i : Fin words.length,
        items[i]? = some (Item.ofLine (i + 1) (Instruction.mk words[i]).line) := by
  have htext : disassembly words =
      "\n".intercalate ((words.map Instruction.mk).map Instruction.text) := by
    rw [disassembly, List.map_map]
    rfl
  refine ⟨_, htext ▸ parse_intercalate_text (words.map Instruction.mk), ?_⟩
  intro i
  simp [Nat.add_comm]

/-- The name is unknown, whatever it is, exactly if the word is not recognized. -/
theorem ofLine_line_unknown_iff (i : Instruction) (number : Nat) :
    (∃ name, Item.ofLine number i.line = .diagnostic number (.notAnOperation name)) ↔
      38 ≤ i.word.toNat % 64 := by
  rw [ofLine_line]
  by_cases h : i.word.toNat % 64 < 38
  · simp [h]
  · simp [h, Nat.not_lt.mp h]

theorem disassembly_unknown_iff {words : List Word} (i : Fin words.length) :
    (∃ items name, parse (disassembly words) = .ok items ∧
        items[i]? = some (.diagnostic (i + 1) (.notAnOperation name))) ↔
      38 ≤ words[i].toNat % 64 := by
  obtain ⟨items, hparse, hitems⟩ := exists_parse_disassembly words
  rw [← ofLine_line_unknown_iff (Instruction.mk words[i]) (i + 1)]
  constructor
  · rintro ⟨items', name, hparse', hitem⟩
    rw [hparse] at hparse'
    cases hparse'
    rw [hitems] at hitem
    exact ⟨name, Option.some.inj hitem⟩
  · rintro ⟨name, hname⟩
    exact ⟨items, name, hparse, by rw [hitems, hname]⟩

end Assembly

open Assembly

/-- **All views agree on which words are recognized.**  For a word of a block of code it is the
same that its opcode bits hold 38 or more, that its operation is `null`, that the strict decoding
gives nothing, that the listing has it among its unrecognized rows, and that the disassembly, when
it is parsed, has an unknown name on its line.  For the other words, and only for these, the
strict decoding gives what the word decodes to.  The unrecognized rows are listed by increasing
position and none of them twice, and the listing holds the words as they are. -/
theorem recognition_agrees (words : List Word) :
    (∀ i : Fin words.length,
        [38 ≤ words[i].toNat % 64,
          (Instruction.mk words[i]).operation = .null,
          (Instruction.mk words[i]).decode? = none,
          { index := i, instruction := ⟨words[i]⟩ } ∈ (Listing.ofWords words).unrecognized,
          ∃ items name, parse (disassembly words) = .ok items ∧
            items[i]? = some (.diagnostic (i + 1) (.notAnOperation name))].TFAE ∧
        ((Instruction.mk words[i]).decode? = some (Instruction.mk words[i]).decode ↔
          words[i].toNat % 64 < 38)) ∧
      ((Listing.ofWords words).unrecognized.map Listing.Row.index).Pairwise (· < ·) ∧
      (Listing.ofWords words).words = words ∧
      (Listing.ofWords words).length = words.length := by
  refine ⟨?_, Listing.pairwise_index_unrecognized _, Listing.words_ofWords words, ?_⟩
  · intro i
    constructor
    · tfae_have 2 ↔ 1 := Instruction.operation_eq_null_iff
      tfae_have 3 ↔ 1 := Instruction.decode?_eq_none_iff
      tfae_have 4 ↔ 1 := Listing.mem_unrecognized_ofWords_iff i
      tfae_have 5 ↔ 1 := disassembly_unknown_iff i
      tfae_finish
    · rw [Instruction.decode?_eq_some_iff]
      exact and_iff_left rfl
  · rw [Listing.length, Listing.ofWords, List.length_map]

end OpWord
