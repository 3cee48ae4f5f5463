import OpWord.Proofs.OperandAccess

/-!
# Signed operands

A signed `B` is stored with a bias in the wide field, and its values go round in a circle: a
value that is too great or too small is stored as the one that fits and differs from it by a
multiple of `2 ^ 18` (`signed_b_wraps`).

Three things wrap on the way.  The bias is added in 32 bits with a sign, the sum is taken for 32
bits without one, and what is above the field falls off the word.  The first two go round in
`2 ^ 32`, which is a multiple of what the field goes round in, so only the last of them can be
seen (`Placement.toNat_extract_write`).  Taking the bias off again never wraps
(`Placement.Exact.toInt_read`).  So a placement reads a number that fits and is congruent to
what was written, and there is only one, because as many numbers fit as the field can hold
(`Placement.Exact.eq_read_write_iff`).
-/
namespace OpWord

/-! ### Any placement -/

/-- What a field goes round in divides what 32 bits go round in. -/
theorem Bitfield.two_pow_length_dvd (f : Bitfield) :
    ((2 ^ f.length : Nat) : Int) ∣ (2 ^ 32 : Nat) := by
  have hwithin := f.within
  exact Int.natCast_dvd_natCast.mpr (Nat.pow_dvd_pow 2 (by omega))

namespace Placement

variable {p : Placement} {w w' : Word}

/-- What is stored is the value with the bias added, modulo what the field holds. -/
theorem toNat_extract_write (p : Placement) (w : Word) (value : Operand) :
    ((p.field.extract (p.write w value)).toNat : Int) =
      (value.toInt + p.bias.toInt) % (2 ^ p.field.length : Nat) := by
  rw [write, Bitfield.toNat_extract_deposit, Int.natCast_emod, Operand.toNat_toBitVec_add]
  exact Int.emod_emod_of_dvd _ p.field.two_pow_length_dvd

/-- What is read can be written back, and nothing changes. -/
theorem write_read (p : Placement) (w : Word) : p.write w (p.read w) = w := by
  rw [write, read, Int32.sub_add_cancel, Int32.toBitVec_ofBitVec, Bitfield.deposit_extract]

namespace Exact

/-- What is read after a write is the one number that fits and is congruent to what was
written. -/
theorem eq_read_write_iff (h : p.Exact) (w : Word) (value : Operand) (x : Int) :
    x = (p.read (p.write w value)).toInt ↔
      p.Fits x ∧ x % (2 ^ p.field.length : Nat) = value.toInt % (2 ^ p.field.length : Nat) := by
  have hread := h.toInt_read (p.write w value)
  have hfits := h.fits_read (p.write w value)
  rw [toNat_extract_write] at hread
  constructor
  · rintro rfl
    refine ⟨hfits, ?_⟩
    rw [hread, Int.emod_sub_emod, Int.add_sub_cancel]
  · rintro ⟨⟨hlow, hhigh⟩, hcongr⟩
    -- with the bias added, `x` is one of the numbers that the field holds
    have hpow := Nat.two_pow_pos p.field.length
    rw [least] at hlow
    rw [greatest, Bitfield.toNat_maxValue] at hhigh
    have hstored : (x + p.bias.toInt) % (2 ^ p.field.length : Nat) = x + p.bias.toInt :=
      Int.emod_eq_of_lt (by omega) (by omega)
    have hsame := (Int.emod_add_cancel_right p.bias.toInt).mpr hcongr
    omega

/-- What is added to the operand is added to the number that is stored.  It makes no difference
that the sum wraps in 32 bits. -/
theorem toNat_extract_write_add (h : p.Exact) (w : Word) (step : Operand) :
    ((p.field.extract (p.write w (p.read w + step))).toNat : Int) =
      ((p.field.extract w).toNat + step.toInt) % (2 ^ p.field.length : Nat) := by
  have hdvd := p.field.two_pow_length_dvd
  have hwrap : (p.read w + step).toInt % (2 ^ p.field.length : Nat) =
      ((p.read w).toInt + step.toInt) % (2 ^ p.field.length : Nat) := by
    rw [Int32.toInt_add, ← Int.emod_emod_of_dvd _ hdvd, Int.bmod_emod,
      Int.emod_emod_of_dvd _ hdvd]
  have hsum : (p.read w).toInt + step.toInt + p.bias.toInt =
      (p.field.extract w).toNat + step.toInt := by
    rw [h.toInt_read]
    omega
  rw [toNat_extract_write, ← hsum]
  exact (Int.emod_add_cancel_right p.bias.toInt).mpr hwrap

theorem read_lt_read_iff (h : p.Exact) :
    (p.read w).toInt < (p.read w').toInt ↔
      (p.field.extract w).toNat < (p.field.extract w').toNat := by
  rw [h.toInt_read, h.toInt_read]
  omega

end Exact

end Placement

/-! ### The signed operand -/

namespace Instruction

variable {i : Instruction}

/-- The layouts with a signed operand have it in the same place. -/
theorem placement?_of_signed (h : i.layout = .asbx ∨ i.layout = .sbx) :
    i.layout.placement? .b = some BForm.wideSigned.placement := by
  apply Layout.placement?_of_bForm?
  rcases h with h | h <;> rw [h] <;> rfl

/-- Whatever the layout, the number that is read is the one that is stored, less the bias if there
is one. -/
theorem toInt_get_b (i : Instruction) :
    (i.get .b).toInt =
      match i.layout.bForm? with
      | some .narrow => (fieldB.extract i.word).toNat
      | some .wide => (fieldBx.extract i.word).toNat
      | some .wideSigned => (fieldBx.extract i.word).toNat - 131071
      | none => 0 := by
  rcases hform : i.layout.bForm? with _ | form
  · have habsent : i.layout.placement? .b = none := by
      rw [Layout.placement?, hform]
      rfl
    rw [get_of_absent habsent]
    rfl
  · have hp := Layout.placement?_of_bForm? hform
    rw [get_of_placement hp, (Layout.exact_of_placement? hp).toInt_read]
    cases form with
    | narrow | wide => exact Int.sub_zero _
    | wideSigned => rfl

/-- **A signed operand goes round in `2 ^ 18`, whatever wraps on the way.**  A write leaves the
opcode bits and those of `A` alone, and what is read then is the one number from -131071 to 131072
that is congruent to what was written.  Reading never wraps, whatever the word.  What is read can
be written back, what is added to it is added to the number that is stored, and the order of the
operands is that of the numbers that are stored. -/
theorem signed_b_wraps (h : i.layout = .asbx ∨ i.layout = .sbx) :
    (∀ value : Operand,
        (i.set .b value).word.toNat % 2 ^ 14 = i.word.toNat % 2 ^ 14 ∧
        ∀ x : Int, x = ((i.set .b value).get .b).toInt ↔
          -131071 ≤ x ∧ x ≤ 131072 ∧ x % 2 ^ 18 = value.toInt % 2 ^ 18) ∧
      (∀ k : Instruction, (k.get .b).toInt =
        match k.layout.bForm? with
        | some .narrow => (fieldB.extract k.word).toNat
        | some .wide => (fieldBx.extract k.word).toNat
        | some .wideSigned => (fieldBx.extract k.word).toNat - 131071
        | none => 0) ∧
      i.set .b (i.get .b) = i ∧
      (∀ step : Operand,
        ((fieldBx.extract (i.set .b (i.get .b + step)).word).toNat : Int) =
          ((fieldBx.extract i.word).toNat + step.toInt) % 2 ^ 18) ∧
      ∀ j : Instruction, j.layout = .asbx ∨ j.layout = .sbx →
        ((i.get .b).toInt < (j.get .b).toInt ↔
          (fieldBx.extract i.word).toNat < (fieldBx.extract j.word).toNat) ∧
        (i.get .b = j.get .b ↔ fieldBx.extract i.word = fieldBx.extract j.word) := by
  have hp := placement?_of_signed h
  have hexact := Layout.exact_of_placement? hp
  refine ⟨?_, toInt_get_b, ?_, ?_, ?_⟩
  · intro value
    have hget : (i.set .b value).layout.placement? .b = some BForm.wideSigned.placement := by
      rw [layout_set, hp]
    rw [get_of_placement hget, set_of_placement hp]
    constructor
    · exact fieldBx.toNat_deposit_mod i.word _
    · intro x
      rw [hexact.eq_read_write_iff, Placement.Fits, and_assoc]
      exact Iff.rfl
  · rw [get_of_placement hp, set_of_placement hp, Placement.write_read]
  · intro step
    rw [get_of_placement hp, set_of_placement hp]
    exact hexact.toNat_extract_write_add i.word step
  · intro j hj
    have hq := placement?_of_signed hj
    rw [get_of_placement hp, get_of_placement hq]
    exact ⟨hexact.read_lt_read_iff, Placement.read_eq_read_iff⟩

/-- The greatest number of 32 bits, to which the bias cannot be added without wrapping, is read as
minus one. -/
theorem signed_b_wraps_greatest :
    ((mk 0x3FDF).layout = .asbx ∨ (mk 0x3FDF).layout = .sbx) ∧
      ((mk 0x3FDF).set .b 2147483647).word.toNat % 2 ^ 14 = 0x3FDF ∧
      (-1 : Int) = (((mk 0x3FDF).set .b 2147483647).get .b).toInt := by
  have hlayout : (mk 0x3FDF).layout = .asbx ∨ (mk 0x3FDF).layout = .sbx := by decide
  obtain ⟨hlow, hread⟩ := (signed_b_wraps hlayout).1 2147483647
  exact ⟨hlayout, hlow, (hread (-1)).mpr (by decide)⟩

end Instruction
end OpWord
