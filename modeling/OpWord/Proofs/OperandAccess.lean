import OpWord.Instruction
import OpWord.Proofs.FieldAccess

/-!
# Reading and writing operands

The laws of `Instruction.get` and `Instruction.set`.  They hold for every layout at once,
because they rest on two facts about layouts only: the placements of a layout lie above the
opcode bits, and those of different slots are disjoint (`Layout.disjoint_of_ne`).

* A write of an operand never touches the opcode bits, whatever the value, so neither the
  operation nor the layout changes (`operation_set`).
* What is read is admitted (`admits_get`).
* What is admitted is read back (`get_set_self`), and writing it leaves the other operands as
  they are (`get_set_of_ne`).
-/
namespace OpWord

/-! ### Placements of a layout -/

namespace Layout

variable {l : Layout} {s t : Slot} {p q : Placement}

theorem has_of_placement? (h : l.placement? s = some p) : l.has s := by
  rw [has, h, Option.isSome_some]

theorem placement?_of_not_has (h : l.has s = false) : l.placement? s = none := by
  rw [has, Option.isSome_eq_false_iff] at h
  exact Option.isNone_iff_eq_none.mp h

theorem placement?_of_hasA (h : l.hasA) : l.placement? .a = some placementA :=
  if_pos h

theorem placement?_of_hasC (h : l.hasC) : l.placement? .c = some placementC :=
  if_pos h

theorem placement?_of_bForm? {form : BForm} (h : l.bForm? = some form) :
    l.placement? .b = some form.placement := by
  rw [placement?, h, Option.map_some]

theorem exact_of_placement? (h : l.placement? s = some p) : p.Exact := by
  have hall : ∀ p ∈ l.placement? s, p.field.length < 32 ∧ 0 ≤ p.bias.toInt := by
    cases l <;> cases s <;> decide
  obtain ⟨hlength, hbias⟩ := hall p h
  exact ⟨hlength, hbias⟩

/-- Operands are stored above the opcode bits. -/
theorem opcodeField_below (h : l.placement? s = some p) :
    opcodeField.start + opcodeField.length ≤ p.field.start := by
  have hall : ∀ p ∈ l.placement? s, opcodeField.start + opcodeField.length ≤ p.field.start := by
    cases l <;> cases s <;> decide
  exact hall p h

/-- Different operands are stored in disjoint fields: no layout has both a wide `B` and
a `C`. -/
theorem disjoint_of_ne (hst : s ≠ t) (hp : l.placement? s = some p)
    (hq : l.placement? t = some q) : p.field.Disjoint q.field := by
  have hall : ∀ s t, s ≠ t → ∀ p ∈ l.placement? s, ∀ q ∈ l.placement? t,
      p.field.Disjoint q.field := by
    intro s t
    cases l <;> cases s <;> cases t <;> decide
  exact hall s t hst p hp q hq

theorem admits_iff_fits (h : l.placement? s = some p) (value : Int) :
    l.Admits s value ↔ p.Fits value := by
  rw [Admits, h]

theorem admits_iff_eq_zero (h : l.placement? s = none) (value : Int) :
    l.Admits s value ↔ value = 0 := by
  rw [Admits, h]

end Layout

/-! ### Codes of operations -/

namespace Operation

theorem code_lt (op : Operation) : op.code < 39 :=
  (List.getElem?_eq_some_iff.mp (ofCode?_code op)).1

@[simp] theorem ofCode_code (op : Operation) : ofCode op.code = op := by
  rw [ofCode, ofCode?_code]
  rfl

/-- A number below the count is the code of a recognized operation. -/
theorem code_ofCode {n : Nat} (h : n < count) : (ofCode n).code = n := by
  have hn : n < all.length := Nat.lt_succ_of_lt h
  have hop : ofCode? n = some all[n] := List.getElem?_eq_getElem hn
  rw [ofCode, hop]
  exact code_of_ofCode? hop

/-- All other numbers stand for `null`. -/
theorem ofCode_of_le {n : Nat} (h : count ≤ n) : ofCode n = null := by
  rcases Nat.eq_or_lt_of_le h with rfl | hlt
  · rfl
  · have hnone : ofCode? n = none := List.getElem?_eq_none hlt
    rw [ofCode, hnone]
    rfl

theorem ofCode_eq_null_iff {n : Nat} : ofCode n = null ↔ count ≤ n := by
  constructor
  · intro h
    rcases Nat.lt_or_ge n count with hlt | hge
    · have hcode := code_ofCode hlt
      rw [h] at hcode
      exact absurd hcode (Nat.ne_of_gt hlt)
    · exact hge
  · exact ofCode_of_le

/-- Only `null` takes no operands. -/
theorem layout_eq_bare_iff {op : Operation} : op.layout = .bare ↔ op = null := by
  cases op <;> decide

end Operation

namespace Instruction

variable {i : Instruction} {s t : Slot} {p : Placement} {value : Operand}

/-! ### The operation -/

/-- The opcode bits are the six lowest. -/
theorem code_eq_mod (i : Instruction) : i.code = i.word.toNat % 64 := by
  rw [code, Bitfield.toNat_extract]
  show (i.word.extractLsb' 0 6).toNat = i.word.toNat % 2 ^ 6
  rw [BitVec.extractLsb'_toNat, Nat.shiftRight_zero]

/-- The operation is `null` exactly if the opcode bits name none of the others. -/
theorem isNull_operation_iff (i : Instruction) :
    i.operation.isNull ↔ ¬ i.word.toNat % 64 < 38 := by
  rw [Operation.isNull, beq_iff_eq, operation, Operation.ofCode_eq_null_iff, code_eq_mod]
  exact Nat.not_lt.symm

theorem operation_eq_null_iff : i.operation = .null ↔ 38 ≤ i.word.toNat % 64 := by
  rw [operation, Operation.ofCode_eq_null_iff, code_eq_mod]
  exact Iff.rfl

/-- Only `null` is bare, and its code is not below the count. -/
theorem layout_ne_bare (h : i.code < Operation.count) : i.layout ≠ .bare := by
  intro hbare
  have hnull : i.operation = .null := Operation.layout_eq_bare_iff.mp hbare
  exact Nat.not_le_of_lt h (Operation.ofCode_eq_null_iff.mp hnull)

@[simp] theorem layout_operation (i : Instruction) : i.operation.layout = i.layout := rfl

@[simp] theorem code_setOperation (i : Instruction) (op : Operation) :
    (i.setOperation op).code = op.code := by
  have hcode := op.code_lt
  rw [code, setOperation, Bitfield.toNat_extract_deposit, BitVec.toNat_ofNat]
  show op.code % 2 ^ 32 % 2 ^ 6 = op.code
  omega

@[simp] theorem operation_setOperation (i : Instruction) (op : Operation) :
    (i.setOperation op).operation = op := by
  rw [operation, code_setOperation, Operation.ofCode_code]

@[simp] theorem layout_setOperation (i : Instruction) (op : Operation) :
    (i.setOperation op).layout = op.layout := by
  rw [layout, operation_setOperation]

/-! ### One operand -/

theorem get_of_placement (h : i.layout.placement? s = some p) : i.get s = p.read i.word := by
  rw [get, h]

theorem get_of_absent (h : i.layout.placement? s = none) : i.get s = 0 := by
  rw [get, h]

theorem set_of_placement (h : i.layout.placement? s = some p) (value : Operand) :
    i.set s value = { word := p.write i.word value } := by
  rw [set, h]

theorem set_of_absent (h : i.layout.placement? s = none) (value : Operand) :
    i.set s value = i := by
  rw [set, h]

/-- A write of an operand leaves the opcode bits alone, whatever the value. -/
@[simp] theorem code_set (i : Instruction) (s : Slot) (value : Operand) :
    (i.set s value).code = i.code := by
  cases h : i.layout.placement? s with
  | none => rw [set_of_absent h]
  | some p =>
    rw [set_of_placement h, code, code, Placement.write,
      Bitfield.extract_deposit_of_below _ _ (Layout.opcodeField_below h)]

@[simp] theorem operation_set (i : Instruction) (s : Slot) (value : Operand) :
    (i.set s value).operation = i.operation := by
  rw [operation, operation, code_set]

@[simp] theorem layout_set (i : Instruction) (s : Slot) (value : Operand) :
    (i.set s value).layout = i.layout := by
  rw [layout, layout, operation_set]

/-- What is read is admitted. -/
theorem admits_get (i : Instruction) (s : Slot) : i.layout.Admits s (i.get s).toInt := by
  cases h : i.layout.placement? s with
  | none => rw [Layout.admits_iff_eq_zero h, get_of_absent h, Int32.toInt_zero]
  | some p =>
    rw [Layout.admits_iff_fits h, get_of_placement h]
    exact (Layout.exact_of_placement? h).fits_read i.word

/-- What is admitted is read back.  In a slot that the layout lacks only zero is admitted, and
zero is what is read there. -/
theorem get_set_self (h : i.layout.Admits s value.toInt) : (i.set s value).get s = value := by
  have hlayout := layout_set i s value
  cases hp : i.layout.placement? s with
  | none =>
    -- nothing is written, and zero is what is read
    have hzero := (Layout.admits_iff_eq_zero hp _).mp h
    rw [get_of_absent (hlayout ▸ hp)]
    exact (Operand.toInt_eq_zero_iff.mp hzero).symm
  | some p =>
    have hfits := (Layout.admits_iff_fits hp _).mp h
    rw [get_of_placement (hlayout ▸ hp), set_of_placement hp]
    exact Placement.read_write hfits i.word

/-- Writing what is admitted leaves the other operands alone. -/
theorem get_set_of_ne (hst : t ≠ s) (h : i.layout.Admits s value.toInt) :
    (i.set s value).get t = i.get t := by
  have hlayout := layout_set i s value
  cases hp : i.layout.placement? s with
  | none => rw [set_of_absent hp]
  | some p =>
    have hfits := (Layout.admits_iff_fits hp _).mp h
    cases hq : i.layout.placement? t with
    | none => rw [get_of_absent (hlayout ▸ hq), get_of_absent hq]
    | some q =>
      -- the fields are disjoint, and a value that fits does not spill
      have hd := Layout.disjoint_of_ne hst hq hp
      rw [get_of_placement (hlayout ▸ hq), get_of_placement hq, set_of_placement hp,
        Placement.read, Placement.read, Placement.extract_write_of_disjoint hd hfits]

end Instruction
end OpWord
