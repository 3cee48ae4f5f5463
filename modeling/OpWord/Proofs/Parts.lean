import OpWord.Proofs.OperandAccess

/-!
# A word as four numbers

Apart from the fields, a word can be seen as four numbers side by side: 6 bits of opcode, 8 bits
of `A`, 9 bits of `C` and 9 bits of `B`.  `Parts` is such a quadruple, `Parts.ofWord` cuts a word
into one, and no bit is left over (`Parts.toNat_ofWord`).

A write in terms of the parts is a plain formula on numbers.  Each part takes as many bits of
the value as it has room for, and what it has no room for is ORed into the next part.  `B` and
`C` together are the wide field.  The formulas are those of `Parts.putOpcode`, `Parts.putA`,
`Parts.putC`, `Parts.putB` and `Parts.putBx`, and the lemmas on `Parts.ofWord` of a deposit say
that the words follow them.
-/
namespace OpWord

/-- The four parts of a word, the lowest first. -/
@[ext]
structure Parts where
  /-- The opcode bits. -/
  opcode : BitVec 6
  /-- The bits of `A`. -/
  a : BitVec 8
  /-- The bits of `C`. -/
  c : BitVec 9
  /-- The bits of a narrow `B`. -/
  b : BitVec 9
  deriving DecidableEq

namespace Parts

/-- The parts of a word. -/
def ofWord (w : Word) : Parts where
  opcode := w.extractLsb' 0 6
  a := w.extractLsb' 6 8
  c := w.extractLsb' 14 9
  b := w.extractLsb' 23 9

/-- The number that the parts make up. -/
def toNat (p : Parts) : Nat :=
  p.opcode.toNat + 2 ^ 6 * p.a.toNat + 2 ^ 14 * p.c.toNat + 2 ^ 23 * p.b.toNat

/-- The parts are the whole word. -/
theorem toNat_ofWord (w : Word) : (ofWord w).toNat = w.toNat := by
  have hw := w.isLt
  simp only [toNat, ofWord, BitVec.extractLsb'_toNat, Nat.shiftRight_eq_div_pow]
  omega

/-! ### Fields as parts -/

theorem toNat_extract_opcode (w : Word) :
    (opcodeField.extract w).toNat = (ofWord w).opcode.toNat :=
  opcodeField.toNat_extract w

theorem toNat_extract_a (w : Word) : (fieldA.extract w).toNat = (ofWord w).a.toNat :=
  fieldA.toNat_extract w

theorem toNat_extract_c (w : Word) : (fieldC.extract w).toNat = (ofWord w).c.toNat :=
  fieldC.toNat_extract w

theorem toNat_extract_b (w : Word) : (fieldB.extract w).toNat = (ofWord w).b.toNat :=
  fieldB.toNat_extract w

/-- The wide field takes in two parts. -/
theorem toNat_extract_bx (w : Word) :
    (fieldBx.extract w).toNat = (ofWord w).c.toNat + 2 ^ 9 * (ofWord w).b.toNat := by
  have hw := w.isLt
  rw [Bitfield.toNat_extract]
  show (w.extractLsb' 14 18).toNat =
    (w.extractLsb' 14 9).toNat + 2 ^ 9 * (w.extractLsb' 23 9).toNat
  simp only [BitVec.extractLsb'_toNat, Nat.shiftRight_eq_div_pow]
  omega

/-! ### Writes -/

/-- `u` written to the opcode bits. -/
def putOpcode (p : Parts) (u : Nat) : Parts where
  opcode := .ofNat 6 u
  a := p.a ||| .ofNat 8 (u / 2 ^ 6)
  c := p.c ||| .ofNat 9 (u / 2 ^ 14)
  b := p.b ||| .ofNat 9 (u / 2 ^ 23)

/-- `u` written to `A`. -/
def putA (p : Parts) (u : Nat) : Parts :=
  { p with
    a := .ofNat 8 u
    c := p.c ||| .ofNat 9 (u / 2 ^ 8)
    b := p.b ||| .ofNat 9 (u / 2 ^ 17) }

/-- `u` written to `C`. -/
def putC (p : Parts) (u : Nat) : Parts :=
  { p with c := .ofNat 9 u, b := p.b ||| .ofNat 9 (u / 2 ^ 9) }

/-- `u` written to a narrow `B`. -/
def putB (p : Parts) (u : Nat) : Parts :=
  { p with b := .ofNat 9 u }

/-- `u` written to a wide `B`. -/
def putBx (p : Parts) (u : Nat) : Parts :=
  { p with c := .ofNat 9 u, b := .ofNat 9 (u / 2 ^ 9) }

/-! ### Deposits as writes -/

section Deposit

variable (f : Bitfield) (w value : Word) {start length : Nat}

theorem extractLsb'_eq_ofNat (w : Word) (start length : Nat) :
    w.extractLsb' start length = .ofNat length (w.toNat / 2 ^ start) := by
  rw [← Nat.shiftRight_eq_div_pow]
  rfl

/-- The lowest bits of a field are those of the value. -/
theorem piece_of_lowest (h : length ≤ f.length) :
    (f.deposit w value).extractLsb' f.start length = .ofNat length value.toNat := by
  rw [f.extractLsb'_deposit_of_within w value (Nat.le_refl _) (Nat.add_le_add_left h _),
    Nat.sub_self, extractLsb'_eq_ofNat, Nat.pow_zero, Nat.div_one]

theorem piece_of_within (hs : f.start ≤ start) (he : start + length ≤ f.start + f.length) :
    (f.deposit w value).extractLsb' start length =
      .ofNat length (value.toNat / 2 ^ (start - f.start)) := by
  rw [f.extractLsb'_deposit_of_within w value hs he, extractLsb'_eq_ofNat]

theorem piece_of_above (hs : f.start + f.length ≤ start) (he : start + length ≤ 32) :
    (f.deposit w value).extractLsb' start length =
      w.extractLsb' start length ||| .ofNat length (value.toNat / 2 ^ (start - f.start)) := by
  rw [f.extractLsb'_deposit_of_above w value hs he, extractLsb'_eq_ofNat value]

theorem ofWord_deposit_opcode :
    ofWord (opcodeField.deposit w value) = (ofWord w).putOpcode value.toNat := by
  ext1
  · exact piece_of_lowest opcodeField w value (by decide)
  · exact piece_of_above opcodeField w value (by decide) (by decide)
  · exact piece_of_above opcodeField w value (by decide) (by decide)
  · exact piece_of_above opcodeField w value (by decide) (by decide)

theorem ofWord_deposit_a : ofWord (fieldA.deposit w value) = (ofWord w).putA value.toNat := by
  ext1
  · exact fieldA.extractLsb'_deposit_of_below w value (by decide)
  · exact piece_of_lowest fieldA w value (by decide)
  · exact piece_of_above fieldA w value (by decide) (by decide)
  · exact piece_of_above fieldA w value (by decide) (by decide)

theorem ofWord_deposit_c : ofWord (fieldC.deposit w value) = (ofWord w).putC value.toNat := by
  ext1
  · exact fieldC.extractLsb'_deposit_of_below w value (by decide)
  · exact fieldC.extractLsb'_deposit_of_below w value (by decide)
  · exact piece_of_lowest fieldC w value (by decide)
  · exact piece_of_above fieldC w value (by decide) (by decide)

theorem ofWord_deposit_b : ofWord (fieldB.deposit w value) = (ofWord w).putB value.toNat := by
  ext1
  · exact fieldB.extractLsb'_deposit_of_below w value (by decide)
  · exact fieldB.extractLsb'_deposit_of_below w value (by decide)
  · exact fieldB.extractLsb'_deposit_of_below w value (by decide)
  · exact piece_of_lowest fieldB w value (by decide)

theorem ofWord_deposit_bx : ofWord (fieldBx.deposit w value) = (ofWord w).putBx value.toNat := by
  ext1
  · exact fieldBx.extractLsb'_deposit_of_below w value (by decide)
  · exact fieldBx.extractLsb'_deposit_of_below w value (by decide)
  · exact piece_of_lowest fieldBx w value (by decide)
  · exact piece_of_within fieldBx w value (by decide) (by decide)

end Deposit

end Parts
end OpWord
