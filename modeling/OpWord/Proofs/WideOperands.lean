import OpWord.Proofs.Canonical

/-!
# Operands that do not fit

`Decoded.encode` takes operands of any size and sign.  What does not fit is not refused, and this
module says what word comes out (`Decoded.fields_encode`).

The operands are written in the order `A`, `B`, `C`.  Each write clears its own field and ORs its
excess bits into what lies above.  So the excess of one operand stays only where no later write
clears it:

* Behind every `A` comes a `B`.  A wide `B` clears all that `A` left above its field.  A narrow
  `B` clears its own bits only, and what `A` left in the bits of `C` is cleared if there is a
  `C` and stays if there is none.
* `C` is written last, below a `B` that is there already, so its excess is ORed into `B`.
* `B` ends with the word, so its excess is lost.

The parts of the word are those of `Parts.ofOperands`, which is found by following the three
writes through each layout (`Parts.ofWord_encode`).
-/
namespace OpWord

namespace Parts

/-- The parts that an operation and its operands are encoded to, the operands taken as unsigned
numbers. -/
def ofOperands (op : Operation) (a b c : Nat) : Parts :=
  let opcode := BitVec.ofNat 6 op.code
  match op.layout with
  | .bare => { opcode, a := 0, c := 0, b := 0 }
  | .ab => { opcode, a := .ofNat 8 a, c := .ofNat 9 (a / 2 ^ 8), b := .ofNat 9 b }
  | .abc => { opcode, a := .ofNat 8 a, c := .ofNat 9 c, b := .ofNat 9 (b ||| c / 2 ^ 9) }
  | .abx => { opcode, a := .ofNat 8 a, c := .ofNat 9 b, b := .ofNat 9 (b / 2 ^ 9) }
  | .asbx =>
    { opcode, a := .ofNat 8 a, c := .ofNat 9 (b + 131071), b := .ofNat 9 ((b + 131071) / 2 ^ 9) }
  | .sbx => { opcode, a := 0, c := .ofNat 9 (b + 131071), b := .ofNat 9 ((b + 131071) / 2 ^ 9) }

/-! ### The three writes -/

@[simp] theorem layout_ofCode (op : Operation) (a : BitVec 8) (c b : BitVec 9) :
    layout { opcode := .ofNat 6 op.code, a, c, b } = op.layout := by
  have hcode := op.code_lt
  have hsmall : op.code % 2 ^ 6 = op.code := Nat.mod_eq_of_lt (by omega)
  rw [layout, BitVec.toNat_ofNat, hsmall, Operation.ofCode_code]

theorem unsigned_add_bias (value : Int) :
    unsigned (value + 131071) = (unsigned value + 131071) % 2 ^ 32 := by
  rw [unsigned, unsigned]
  omega

/-- A wide write looks at 18 bits of the value only, so it makes no difference that the bias is
added with wrapping around. -/
theorem putBx_unsigned_add_bias (p : Parts) (value : Int) :
    p.putBx (unsigned (value + 131071)) =
      { p with
        c := .ofNat 9 (unsigned value + 131071)
        b := .ofNat 9 ((unsigned value + 131071) / 2 ^ 9) } := by
  have hlow : BitVec.ofNat 9 ((unsigned value + 131071) % 2 ^ 32) =
      BitVec.ofNat 9 (unsigned value + 131071) := by
    apply BitVec.eq_of_toNat_eq
    rw [BitVec.toNat_ofNat, BitVec.toNat_ofNat]
    omega
  have hhigh : BitVec.ofNat 9 ((unsigned value + 131071) % 2 ^ 32 / 2 ^ 9) =
      BitVec.ofNat 9 ((unsigned value + 131071) / 2 ^ 9) := by
    apply BitVec.eq_of_toNat_eq
    rw [BitVec.toNat_ofNat, BitVec.toNat_ofNat]
    omega
  rw [unsigned_add_bias, putBx, hlow, hhigh]

/-- The three writes, followed through the layout. -/
theorem ofWord_encode (op : Operation) (a b c : Operand) :
    ofWord (Decoded.mk op a b c).encode.word =
      ofOperands op (unsigned a.toInt) (unsigned b.toInt) (unsigned c.toInt) := by
  simp only [Decoded.encode, ofWord_set, ofWord_setOperation_zero]
  cases hl : op.layout with
  | bare => simp [ofOperands, set, hl]
  | ab => simp [ofOperands, set, hl, putA, putB]
  | abc =>
    -- what `A` leaves above its field is cleared by the two writes that follow
    simp [ofOperands, set, hl, putA, putB, putC, BitVec.ofNat_or]
  | abx => simp [ofOperands, set, hl, putA, putBx]
  | asbx => simp [ofOperands, set, hl, putA, putBx_unsigned_add_bias]
  | sbx => simp [ofOperands, set, hl, putBx_unsigned_add_bias]

/-- Two parts that hold a number between them hold its lowest 18 bits. -/
theorem toNat_ofNat_add (u : Nat) :
    (BitVec.ofNat 9 u).toNat + 2 ^ 9 * (BitVec.ofNat 9 (u / 2 ^ 9)).toNat = u % 2 ^ 18 := by
  rw [BitVec.toNat_ofNat, BitVec.toNat_ofNat]
  omega

theorem opcode_ofOperands (op : Operation) (a b c : Nat) :
    (ofOperands op a b c).opcode.toNat = op.code := by
  have hcode := op.code_lt
  have hopcode : (ofOperands op a b c).opcode = .ofNat 6 op.code := by
    rw [ofOperands]
    cases op.layout <;> rfl
  rw [hopcode, BitVec.toNat_ofNat]
  exact Nat.mod_eq_of_lt (by omega)

end Parts

/-! ### The encoded word -/

namespace Decoded

open Parts

/-- What determines the parts determines the word. -/
theorem word_encode_congr {op : Operation} {a a' b b' c c' : Operand}
    (h : ofOperands op (unsigned a.toInt) (unsigned b.toInt) (unsigned c.toInt) =
      ofOperands op (unsigned a'.toInt) (unsigned b'.toInt) (unsigned c'.toInt)) :
    (Decoded.mk op a b c).encode.word = (Decoded.mk op a' b' c').encode.word := by
  apply ofWord_injective
  rw [ofWord_encode, ofWord_encode, h]

/-- **What operands of any size are encoded to.**  The opcode bits always name the operation.  A
field holds what it has room for of its operand, taken as an unsigned number and with the bias
added if it has one.  Of what it has no room for, the excess of a `C` is ORed into `B`, and the
excess of an `A` is left in the bits of `C` where a narrow `B` stands without a `C`; all other
excess is gone.  Operands that the layout lacks make no difference, and `null` has but one
word. -/
theorem fields_encode (op : Operation) (a b c : Operand) :
    let w := (Decoded.mk op a b c).encode.word
    let ua := unsigned a.toInt
    let ub := unsigned b.toInt
    let uc := unsigned c.toInt
    (opcodeField.extract w).toNat = op.code ∧
      match op.layout with
      | .abc =>
        (fieldA.extract w).toNat = ua % 256 ∧
          (fieldC.extract w).toNat = uc % 512 ∧
          (fieldB.extract w).toNat = (ub ||| uc / 512) % 512 ∧
          (∀ a' : Operand, unsigned a'.toInt % 256 = ua % 256 →
            (Decoded.mk op a' b c).encode.word = w)
      | .ab =>
        (fieldA.extract w).toNat = ua % 256 ∧
          (fieldC.extract w).toNat = ua / 256 % 512 ∧
          (fieldB.extract w).toNat = ub % 512 ∧
          (∀ c', (Decoded.mk op a b c').encode.word = w)
      | .abx =>
        (fieldA.extract w).toNat = ua % 256 ∧
          (fieldBx.extract w).toNat = ub % 2 ^ 18 ∧
          (∀ c', (Decoded.mk op a b c').encode.word = w)
      | .asbx =>
        (fieldA.extract w).toNat = ua % 256 ∧
          (fieldBx.extract w).toNat = (ub + 131071) % 2 ^ 18 ∧
          (∀ c', (Decoded.mk op a b c').encode.word = w)
      | .sbx =>
        (fieldA.extract w).toNat = 0 ∧
          (fieldBx.extract w).toNat = (ub + 131071) % 2 ^ 18 ∧
          (∀ a' c', (Decoded.mk op a' b c').encode.word = w)
      | .bare => w = 38 := by
  intro w ua ub uc
  have hparts : ofWord w = ofOperands op ua ub uc := ofWord_encode op a b c
  refine ⟨by rw [toNat_extract_opcode, hparts, opcode_ofOperands], ?_⟩
  rw [toNat_extract_a, toNat_extract_c, toNat_extract_b, toNat_extract_bx, hparts]
  cases hl : op.layout with
  | abc =>
    simp only [ofOperands, hl]
    refine ⟨BitVec.toNat_ofNat .., BitVec.toNat_ofNat .., BitVec.toNat_ofNat .., ?_⟩
    intro a' ha'
    have hcut : BitVec.ofNat 8 (unsigned a'.toInt) = BitVec.ofNat 8 ua := by
      apply BitVec.eq_of_toNat_eq
      rw [BitVec.toNat_ofNat, BitVec.toNat_ofNat]
      exact ha'
    exact word_encode_congr (by simp only [ofOperands, hl, hcut, ua])
  | ab =>
    simp only [ofOperands, hl]
    exact ⟨BitVec.toNat_ofNat .., BitVec.toNat_ofNat .., BitVec.toNat_ofNat ..,
      fun c' => word_encode_congr (by simp only [ofOperands, hl])⟩
  | abx =>
    simp only [ofOperands, hl]
    exact ⟨BitVec.toNat_ofNat .., toNat_ofNat_add ub,
      fun c' => word_encode_congr (by simp only [ofOperands, hl])⟩
  | asbx =>
    simp only [ofOperands, hl]
    exact ⟨BitVec.toNat_ofNat .., toNat_ofNat_add (ub + 131071),
      fun c' => word_encode_congr (by simp only [ofOperands, hl])⟩
  | sbx =>
    simp only [ofOperands, hl]
    exact ⟨rfl, toNat_ofNat_add (ub + 131071),
      fun a' c' => word_encode_congr (by simp only [ofOperands, hl])⟩
  | bare =>
    -- all that is written is the code of `null`
    have hnull : op = .null := Operation.layout_eq_bare_iff.mp hl
    apply ofWord_injective
    rw [hparts, hnull]
    rfl

/-- The operand `A` of `MOVE` is all ones: its excess is cleared in `B` and stays in the bits
of `C`. -/
example : (Decoded.mk .move (-1) 0 0).encode.word = 0x007FFFC0 := by decide

end Decoded
end OpWord
