import OpWord.Proofs.Codec
import OpWord.Proofs.EditRun

/-!
# Canonical forms

Many words mean the same, since a layout seldom uses every bit.  `Layout.usedBits` are the bits
that it does use, and the canonical form of a word keeps these and clears the others
(`word_canonical`).  A word that names no operation means nothing but that, so all of these have
one canonical form.

The canonical form is a normal form for what words mean: two words decode alike exactly if their
canonical forms are equal (`canonical_normal_form`).
-/
namespace OpWord

/-- The bits that a layout uses: those of the opcode and those of the operands that it has. -/
def Layout.usedBits (l : Layout) : Word :=
  opcodeField.mask ||| (if l.hasA then fieldA.mask else 0) |||
    (if l.hasC then fieldC.mask else 0) |||
    match l.bForm? with
    | some .narrow => fieldB.mask
    | some .wide | some .wideSigned => fieldBx.mask
    | none => 0

namespace Parts

/-- The parts determine the word. -/
theorem ofWord_injective {v w : Word} (h : ofWord v = ofWord w) : v = w := by
  apply BitVec.eq_of_toNat_eq
  rw [← toNat_ofWord v, h, toNat_ofWord]

theorem ofWord_and (v w : Word) :
    ofWord (v &&& w) =
      { opcode := (ofWord v).opcode &&& (ofWord w).opcode
        a := (ofWord v).a &&& (ofWord w).a
        c := (ofWord v).c &&& (ofWord w).c
        b := (ofWord v).b &&& (ofWord w).b } := by
  ext1 <;> exact BitVec.extractLsb'_and

/-- A layout uses each part as a whole or not at all. -/
theorem ofWord_usedBits (l : Layout) :
    ofWord l.usedBits =
      { opcode := BitVec.allOnes 6
        a := if l.hasA then BitVec.allOnes 8 else 0
        c :=
          if l.hasC || l.bForm? matches some .wide | some .wideSigned then BitVec.allOnes 9 else 0
        b := if l.bForm?.isSome then BitVec.allOnes 9 else 0 } := by
  cases l <;> decide

/-- Clearing what the layout does not use is clearing bits of the word. -/
theorem canonical_eq_ofWord_and {i : Instruction} (h : i.code < Operation.count) :
    (ofWord i.word).canonical = ofWord (i.word &&& i.layout.usedBits) := by
  rw [canonical, toNat_opcode_ofWord, if_neg (Nat.not_le.mpr h), layout_ofWord, ofWord_and,
    ofWord_usedBits]
  cases hl : i.layout with
  | bare => exact absurd hl (Instruction.layout_ne_bare h)
  | ab | abc | abx | asbx | sbx =>
    simp [-BitVec.reduceAllOnes, clear]

end Parts

namespace Instruction

/-- The canonical form is the word with the bits cleared that its layout does not use, and the
code of `null` if it names no operation. -/
theorem word_canonical (i : Instruction) :
    i.canonical.word =
      if i.word.toNat % 64 < 38 then i.word &&& i.layout.usedBits else 38 := by
  apply Parts.ofWord_injective
  rw [Parts.ofWord_canonical, ← code_eq_mod]
  split
  · next h => exact Parts.canonical_eq_ofWord_and h
  · next h =>
    have hcount : Operation.count ≤ i.code := Nat.not_lt.mp h
    rw [Parts.canonical, Parts.toNat_opcode_ofWord, if_pos hcount]
    decide

/-- What two words mean is the same exactly if their canonical forms are. -/
theorem canonical_eq_iff {i j : Instruction} :
    i.canonical = j.canonical ↔ i.decode = j.decode := by
  constructor
  · intro h
    rw [← Decoded.decode_canonical i, h, Decoded.decode_canonical]
  · intro h
    rw [canonical, h, canonical]

/-- **The canonical form is a normal form.**  It is the word with every bit cleared that the
layout does not use, so decoding loses nothing of a word that names an operation but these
bits; a word that names none has the code of `null` for its canonical form.  Taking it twice
changes nothing more, it means what the word means, and words that mean the same have the same
one. -/
theorem canonical_normal_form :
    (∀ i : Instruction, i.canonical.word =
        if i.word.toNat % 64 < 38 then i.word &&& i.layout.usedBits else 38) ∧
      (∀ i : Instruction, i.canonical.canonical = i.canonical) ∧
      (∀ i : Instruction, i.canonical.decode = i.decode) ∧
      ∀ i j : Instruction, i.decode = j.decode ↔ i.canonical = j.canonical := by
  refine ⟨word_canonical, ?_, Decoded.decode_canonical, fun i j => canonical_eq_iff.symm⟩
  intro i
  rw [canonical_eq_iff]
  exact Decoded.decode_canonical i

end Instruction
end OpWord
