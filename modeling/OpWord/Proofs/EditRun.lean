import OpWord.Instruction.Edit
import OpWord.Proofs.Parts

/-!
# Runs of edits

Any run of edits of an instruction is a run of a much simpler machine, whose state is the four
parts of the word and whose steps are formulas on numbers (`Parts.edit`).  Which formula an
operand is written by is decided by the layout that the opcode part names at that moment, and
values may be of any size and sign: they count as unsigned 32 bit numbers (`unsigned`).

One edit is one step (`Parts.ofWord_edit`), by cases on the edit and then on the layout.  The
canonical form needs no look at bits of its own.  It is a run of four writes on a word of zeros,
and the values written are the parts that were read.
-/
namespace OpWord

/-! ### Steps on the parts -/

/-- A value as an unsigned 32 bit number. -/
def unsigned (value : Int) : Nat :=
  (value % 2 ^ 32).toNat

namespace Parts

/-- The layout of the operation that the opcode part names. -/
def layout (p : Parts) : Layout :=
  (Operation.ofCode p.opcode.toNat).layout

/-- The parts with those cleared that a layout does not use. -/
def clear (p : Parts) : Layout → Parts
  | .ab => { p with c := 0 }
  | .sbx => { p with a := 0 }
  | .bare | .abc | .abx | .asbx => p

/-- The parts with those cleared that their own layout does not use.  If the opcode part is the
code of no operation, only the code of `null` is left. -/
def canonical (p : Parts) : Parts :=
  if Operation.count ≤ p.opcode.toNat then { opcode := 38, a := 0, c := 0, b := 0 }
  else p.clear p.layout

/-- The parts after a write of an operand, unchanged if the layout lacks it. -/
def set (p : Parts) (slot : Slot) (value : Int) : Parts :=
  match slot with
  | .a => if p.layout.hasA then p.putA (unsigned value) else p
  | .b =>
    match p.layout.bForm? with
    | some .narrow => p.putB (unsigned value)
    | some .wide => p.putBx (unsigned value)
    | some .wideSigned => p.putBx (unsigned (value + 131071))
    | none => p
  | .c => if p.layout.hasC then p.putC (unsigned value) else p

/-- The parts after an edit.  A code has at most 8 bits, so it reaches no further than `A`. -/
def edit (p : Parts) : Edit → Parts
  | .operation op => { p with opcode := .ofNat 6 op.code }
  | .code code =>
    { p with opcode := .ofNat 6 code.toNat, a := p.a ||| .ofNat 8 (code.toNat / 2 ^ 6) }
  | .operand slot value => p.set slot value.toInt
  | .canonical => p.canonical

section Locality

variable (p : Parts) (l : Layout) (slot : Slot) (value : Int)

@[simp] theorem opcode_clear : (p.clear l).opcode = p.opcode := by
  cases l <;> rfl

@[simp] theorem opcode_set : (p.set slot value).opcode = p.opcode := by
  cases slot with
  | a | b | c =>
    rw [set]
    split <;> rfl

@[simp] theorem layout_clear : (p.clear l).layout = p.layout := by
  rw [layout, opcode_clear, layout]

@[simp] theorem layout_set : (p.set slot value).layout = p.layout := by
  rw [layout, opcode_set, layout]

end Locality

/-! ### Steps on the word -/

@[simp] theorem toNat_opcode_ofWord (i : Instruction) : (ofWord i.word).opcode.toNat = i.code :=
  (toNat_extract_opcode i.word).symm

@[simp] theorem layout_ofWord (i : Instruction) : (ofWord i.word).layout = i.layout := by
  rw [layout, toNat_opcode_ofWord]
  rfl

theorem putOpcode_of_lt {u : Nat} (p : Parts) (h : u < 256) :
    p.putOpcode u = { p with opcode := .ofNat 6 u, a := p.a ||| .ofNat 8 (u / 2 ^ 6) } := by
  rw [putOpcode, Nat.div_eq_of_lt (by omega : u < 2 ^ 14),
    Nat.div_eq_of_lt (by omega : u < 2 ^ 23), BitVec.or_zero, BitVec.or_zero]

theorem ofWord_setCode (i : Instruction) (code : UInt8) :
    ofWord (i.setCode code).word = (ofWord i.word).edit (.code code) := by
  have hcode := code.toNat_lt
  rw [Instruction.setCode, ofWord_deposit_opcode, BitVec.toNat_setWidth_of_le (by decide)]
  exact putOpcode_of_lt _ (by omega)

theorem ofWord_setOperation (i : Instruction) (op : Operation) :
    ofWord (i.setOperation op).word = (ofWord i.word).edit (.operation op) := by
  have hcode := op.code_lt
  have hsmall : op.code % 2 ^ 32 = op.code := Nat.mod_eq_of_lt (by omega)
  rw [Instruction.setOperation, ofWord_deposit_opcode, BitVec.toNat_ofNat, hsmall,
    putOpcode_of_lt _ (by omega), Nat.div_eq_of_lt (by omega), BitVec.or_zero]
  rfl

theorem toNat_stored (value bias : Operand) :
    (value + bias).toBitVec.toNat = unsigned (value.toInt + bias.toInt) := by
  have h := Operand.toNat_toBitVec_add value bias
  rw [unsigned]
  omega

section Write

variable {p : Placement} {put : Parts → Nat → Parts}

/-- A placement's write, once it is known what a deposit in its field does. -/
theorem ofWord_write {bias : Int}
    (hput : ∀ w value, ofWord (p.field.deposit w value) = put (ofWord w) value.toNat)
    (hbias : p.bias.toInt = bias) (w : Word) (value : Operand) :
    ofWord (p.write w value) = put (ofWord w) (unsigned (value.toInt + bias)) := by
  rw [Placement.write, hput, toNat_stored, hbias]

theorem ofWord_write_of_unbiased
    (hput : ∀ w value, ofWord (p.field.deposit w value) = put (ofWord w) value.toNat)
    (hbias : p.bias.toInt = 0) (w : Word) (value : Operand) :
    ofWord (p.write w value) = put (ofWord w) (unsigned value.toInt) := by
  rw [ofWord_write hput hbias, Int.add_zero]

end Write

/-- A write of an operand follows the formula that the layout picks. -/
@[simp] theorem ofWord_set (i : Instruction) (slot : Slot) (value : Operand) :
    ofWord (i.set slot value).word = (ofWord i.word).set slot value.toInt := by
  rw [Instruction.set]
  cases slot with
  | a =>
    rw [set, layout_ofWord, Layout.placement?]
    cases i.layout.hasA with
    | false => rfl
    | true => exact ofWord_write_of_unbiased (p := placementA) ofWord_deposit_a rfl i.word value
  | b =>
    rw [set, layout_ofWord, Layout.placement?]
    rcases i.layout.bForm? with _ | form
    · rfl
    · cases form with
      | narrow =>
        exact ofWord_write_of_unbiased (p := BForm.narrow.placement) ofWord_deposit_b rfl i.word
          value
      | wide =>
        exact ofWord_write_of_unbiased (p := BForm.wide.placement) ofWord_deposit_bx rfl i.word
          value
      | wideSigned =>
        exact ofWord_write (p := BForm.wideSigned.placement) ofWord_deposit_bx rfl i.word value
  | c =>
    rw [set, layout_ofWord, Layout.placement?]
    cases i.layout.hasC with
    | false => rfl
    | true => exact ofWord_write_of_unbiased (p := placementC) ofWord_deposit_c rfl i.word value

/-! ### The canonical form -/

section Canonical

variable {i : Instruction} {slot : Slot} {p : Placement} {q : Parts}

/-- Reading undoes the bias: the number to be written is the one that was stored. -/
theorem unsigned_get_of_bias {bias : Int} (hp : i.layout.placement? slot = some p)
    (hbias : p.bias.toInt = bias) :
    unsigned ((i.get slot).toInt + bias) = (p.field.extract i.word).toNat := by
  have hlt := (p.field.extract i.word).isLt
  have hread := (Layout.exact_of_placement? hp).toInt_read i.word
  rw [Instruction.get_of_placement hp, unsigned]
  omega

/-- A part written where it was read reaches no further. -/
theorem putA_toNat (q : Parts) (a : BitVec 8) : q.putA a.toNat = { q with a } := by
  have ha := a.isLt
  rw [putA, BitVec.ofNat_toNat, BitVec.setWidth_eq, Nat.div_eq_of_lt (by omega),
    Nat.div_eq_of_lt (by omega), BitVec.or_zero, BitVec.or_zero]

theorem putC_toNat (q : Parts) (c : BitVec 9) : q.putC c.toNat = { q with c } := by
  have hc := c.isLt
  rw [putC, BitVec.ofNat_toNat, BitVec.setWidth_eq, Nat.div_eq_of_lt (by omega),
    BitVec.or_zero]

theorem putB_toNat (q : Parts) (b : BitVec 9) : q.putB b.toNat = { q with b } := by
  rw [putB, BitVec.ofNat_toNat, BitVec.setWidth_eq]

theorem putBx_toNat (q : Parts) (c b : BitVec 9) :
    q.putBx (c.toNat + 2 ^ 9 * b.toNat) = { q with c, b } := by
  have hc := c.isLt
  have hdiv : (c.toNat + 2 ^ 9 * b.toNat) / 2 ^ 9 = b.toNat := by omega
  have hlow : BitVec.ofNat 9 (c.toNat + 2 ^ 9 * b.toNat) = c := by
    apply BitVec.eq_of_toNat_eq
    rw [BitVec.toNat_ofNat]
    omega
  rw [putBx, hdiv, hlow, BitVec.ofNat_toNat, BitVec.setWidth_eq]

section Copy

variable {put : Parts → Nat → Parts} {u : Nat} {copied : Parts}

/-- A write of what was read is a write of the number that was stored. -/
theorem put_get {bias : Int} (hp : i.layout.placement? slot = some p)
    (hbias : p.bias.toInt = bias) (hstored : (p.field.extract i.word).toNat = u)
    (hput : put q u = copied) : put q (unsigned ((i.get slot).toInt + bias)) = copied := by
  rw [unsigned_get_of_bias hp hbias, hstored, hput]

theorem put_get_of_unbiased (hp : i.layout.placement? slot = some p) (hbias : p.bias.toInt = 0)
    (hstored : (p.field.extract i.word).toNat = u) (hput : put q u = copied) :
    put q (unsigned (i.get slot).toInt) = copied := by
  have hwrite := put_get hp hbias hstored hput
  rwa [Int.add_zero] at hwrite

end Copy

/-- The parts with those of an operand copied from others, as far as a layout has the operand. -/
def copy (q r : Parts) (l : Layout) : Slot → Parts
  | .a => if l.hasA then { q with a := r.a } else q
  | .b =>
    match l.bForm? with
    | some .narrow => { q with b := r.b }
    | some .wide | some .wideSigned => { q with c := r.c, b := r.b }
    | none => q
  | .c => if l.hasC then { q with c := r.c } else q

/-- Writing what was read copies the parts of the operand, the one of `C` too if `B` is wide. -/
theorem set_get (slot : Slot) (hq : q.layout = i.layout) :
    q.set slot (i.get slot).toInt = q.copy (ofWord i.word) i.layout slot := by
  cases slot with
  | a =>
    rw [set, copy, hq]
    split
    · next h =>
      exact put_get_of_unbiased (Layout.placement?_of_hasA h) rfl (toNat_extract_a i.word)
        (putA_toNat q _)
    · rfl
  | b =>
    rw [set, copy, hq]
    cases hform : i.layout.bForm? with
    | none => rfl
    | some form =>
      have hp := Layout.placement?_of_bForm? hform
      cases form with
      | narrow => exact put_get_of_unbiased hp rfl (toNat_extract_b i.word) (putB_toNat q _)
      | wide => exact put_get_of_unbiased hp rfl (toNat_extract_bx i.word) (putBx_toNat q _ _)
      | wideSigned => exact put_get hp rfl (toNat_extract_bx i.word) (putBx_toNat q _ _)
  | c =>
    rw [set, copy, hq]
    split
    · next h =>
      exact put_get_of_unbiased (Layout.placement?_of_hasC h) rfl (toNat_extract_c i.word)
        (putC_toNat q _)
    · rfl

/-- The four writes that make up the canonical form, each of them of a part that was read. -/
theorem ofWord_canonical_eq_copies (i : Instruction) :
    ofWord i.canonical.word =
      (((ofWord (({} : Instruction).setOperation i.operation).word).set .a (i.get .a).toInt).set
        .b (i.get .b).toInt).set .c (i.get .c).toInt := by
  simp [Instruction.canonical, Instruction.decode, Decoded.encode]

theorem ofWord_setOperation_zero (op : Operation) :
    ofWord (({} : Instruction).setOperation op).word =
      { opcode := .ofNat 6 op.code, a := 0, c := 0, b := 0 } := by
  rw [ofWord_setOperation]
  rfl

/-- The canonical form of the word has the parts that the layout uses, and the others clear. -/
@[simp] theorem ofWord_canonical (i : Instruction) :
    ofWord i.canonical.word = (ofWord i.word).canonical := by
  have hcode := toNat_opcode_ofWord i
  rw [ofWord_canonical_eq_copies, set_get .c (by simp), set_get .b (by simp),
    set_get .a (by simp), ofWord_setOperation_zero, canonical, hcode, layout_ofWord]
  rcases Nat.lt_or_ge i.code Operation.count with hlt | hge
  · have hopcode : BitVec.ofNat 6 i.operation.code = (ofWord i.word).opcode := by
      rw [Instruction.operation, Operation.code_ofCode hlt, ← hcode, BitVec.ofNat_toNat,
        BitVec.setWidth_eq]
    rw [hopcode, if_neg (Nat.not_le_of_lt hlt)]
    -- the copies cover the whole word, apart from what the layout lacks
    cases hl : i.layout with
    | bare => exact absurd hl (Instruction.layout_ne_bare hlt)
    | ab | abc | abx | asbx | sbx => rfl
  · -- the layout of `null` has no operand, so nothing is copied but its code
    have hnull : i.operation = .null := Operation.ofCode_of_le hge
    rw [if_pos hge, Instruction.layout, hnull]
    rfl

end Canonical

/-! ### Runs -/

/-- **One edit is one step.** -/
theorem ofWord_edit (i : Instruction) (e : Edit) :
    ofWord (i.edit e).word = (ofWord i.word).edit e := by
  cases e with
  | operation op => exact ofWord_setOperation i op
  | code code => exact ofWord_setCode i code
  | operand slot value => exact ofWord_set i slot value
  | canonical => exact ofWord_canonical i

/-- **A run of edits is a run on the parts.** -/
theorem ofWord_editAll (i : Instruction) (edits : List Edit) :
    ofWord (i.editAll edits).word = edits.foldl edit (ofWord i.word) := by
  induction edits generalizing i with
  | nil => rfl
  | cons e edits ih =>
    rw [List.foldl_cons, ← ofWord_edit]
    exact ih (i.edit e)

/-- **Every run of edits refines a record of four numbers.**  The word after any edits, with
values of any size, is made up of the parts of the first word after the same steps. -/
theorem toNat_word_editAll (i : Instruction) (edits : List Edit) :
    let p := edits.foldl edit (ofWord i.word)
    (i.editAll edits).word.toNat =
      p.opcode.toNat + 2 ^ 6 * p.a.toNat + 2 ^ 14 * p.c.toNat + 2 ^ 23 * p.b.toNat := by
  intro p
  rw [← toNat_ofWord, ofWord_editAll]
  rfl

end Parts
end OpWord
