import OpWord.Proofs.Codec
import OpWord.Proofs.TextParsing

/-!
# Assembly keeps what it accepts

Two tables say what an operand may be.  Assembly goes by the values that a slot admits and
refuses all others.  The codec refuses nothing, and what does not fit is lost or spills.  Here
the two are shown to draw the same line: a line is assembled exactly if its operands come back
from the codec (`ofLine_eq_instruction_iff`).

Between the two stands `Decoded.Admissible`.  The codec keeps exactly what is admissible
(`Decoded.decode_encode_iff`), and assembly accepts exactly that
(`Line.assemble_eq_ok_iff`).  The operands of a line are integers of any size, so it also has to
be shown that taking one down to 32 bits changes nothing: whatever a slot admits is a number of
32 bits (`Layout.toInt_ofInt_of_admits`).
-/
namespace OpWord

namespace Placement

/-- What fits an exact placement is a number of 32 bits. -/
theorem Exact.bounds_of_fits {p : Placement} (h : p.Exact) {value : Int} (hv : p.Fits value) :
    -2 ^ 31 ≤ value ∧ value < 2 ^ 31 := by
  have hpow : 2 ^ p.field.length ≤ 2 ^ 31 :=
    Nat.pow_le_pow_right (by decide) (Nat.le_of_lt_succ h.length_lt)
  have hmax := p.field.toNat_maxValue
  have hbias := h.bias_nonneg
  have hbias' := p.bias.toInt_lt
  obtain ⟨hlow, hhigh⟩ := hv
  rw [least] at hlow
  rw [greatest] at hhigh
  constructor <;> omega

end Placement

/-- Nothing is lost of what a slot admits when it is taken down to 32 bits. -/
theorem Layout.toInt_ofInt_of_admits {l : Layout} {s : Slot} {value : Int}
    (h : l.Admits s value) : (Int32.ofInt value).toInt = value := by
  cases hp : l.placement? s with
  | none =>
    rw [(admits_iff_eq_zero hp value).mp h]
    rfl
  | some p =>
    obtain ⟨hlow, hhigh⟩ :=
      (exact_of_placement? hp).bounds_of_fits ((admits_iff_fits hp value).mp h)
    exact Int32.toInt_ofInt_of_le hlow hhigh

namespace Decoded

/-- The operands as integers, in the order in which they are written. -/
def values (d : Decoded) : List Int :=
  [d.a.toInt, d.b.toInt, d.c.toInt]

/-- The codec keeps exactly what is admissible. -/
theorem decode_encode_iff {d : Decoded} : d.encode.decode = d ↔ d.Admissible := by
  refine ⟨fun h => ?_, decode_encode⟩
  rw [← h]
  exact admissible_decode d.encode

end Decoded

/-- The position of a slot's operand among those of a line. -/
def Slot.position : Slot → Nat
  | .a => 0
  | .b => 1
  | .c => 2

namespace Assembly

/-! ### The operands of a line -/

/-- An operand is let through as it stands or not at all. -/
theorem admitted_eq_ok_iff {op : Operation} {s : Slot} {value : Int} {o : Operand} :
    admitted op s value = .ok o ↔ op.layout.Admits s o.toInt ∧ o.toInt = value := by
  rw [admitted]
  constructor
  · intro h
    split at h
    · next hadmits =>
      have ho : o.toInt = value := by
        rw [← Except.ok.inj h]
        exact Layout.toInt_ofInt_of_admits hadmits
      exact ⟨ho ▸ hadmits, ho⟩
    · split at h <;> cases h
  · rintro ⟨hadmits, rfl⟩
    rw [if_pos hadmits, Int32.ofInt_toInt]

/-- Every slot takes zero. -/
theorem admitted_zero (op : Operation) (s : Slot) : admitted op s 0 = pure 0 :=
  if_pos (op.layout.admits_zero s)

namespace Line

/-- The operand for a slot, zero if it is left out. -/
def operand (l : Line) (s : Slot) : Int :=
  l.operands.getD s.position 0

/-- Padding to three operands finds the operand of each slot, and refuses a fourth one. -/
theorem rightpad_operands_eq_iff {l : Line} {x y z : Int} :
    l.operands.rightpad 3 0 = [x, y, z] ↔
      l.operands.length ≤ maxOperands ∧ l.operand .a = x ∧ l.operand .b = y ∧
        l.operand .c = z := by
  obtain ⟨name, operands⟩ := l
  match operands with
  | [] | [_] | [_, _] | [_, _, _] =>
    simp [List.rightpad, operand, Slot.position, maxOperands, Slot.all]
  | _ :: _ :: _ :: _ :: _ => simp [List.rightpad, maxOperands, Slot.all]

theorem operation?_eq_some_iff {l : Line} {op : Operation} :
    l.operation? = some op ↔
      l.name.toList.map Char.toUpper = op.mnemonic.toList ∧ op ≠ .null := by
  rw [operation?, Option.filter_eq_some_iff, Operation.ofMnemonic?_eq_some_iff]
  simp [Operation.isNull]

section Assemble

variable {l : Line} {op : Operation}

theorem assemble_of_unknown (h : l.operation? = none) :
    l.assemble = .error (.notAnOperation l.name) := by
  rw [assemble, h]

theorem assemble_of_many (hop : l.operation? = some op)
    (hmany : maxOperands < l.operands.length) :
    l.assemble = .error (.tooManyOperands op l.operands) := by
  rw [assemble, hop]
  exact if_pos hmany

theorem assemble_of_few (hop : l.operation? = some op)
    (hfew : l.operands.length ≤ maxOperands) :
    l.assemble = (do
      let written ← admittedAll op l.operands
      return Decoded.encode
        { operation := op
          a := written.getD 0 0
          b := written.getD 1 0
          c := written.getD 2 0 }) := by
  rw [assemble, hop]
  exact if_neg (Nat.not_lt.mpr hfew)

/-- Operands that are left out may as well be written as zeros: every slot takes zero, and it
takes it as zero. -/
theorem assemble_of_padded (hop : l.operation? = some op)
    (hfew : l.operands.length ≤ maxOperands) :
    l.assemble = (do
      let a ← admitted op .a (l.operand .a)
      let b ← admitted op .b (l.operand .b)
      let c ← admitted op .c (l.operand .c)
      return Decoded.encode { operation := op, a, b, c }) := by
  rw [assemble_of_few hop hfew]
  obtain ⟨name, operands⟩ := l
  match operands with
  | [] | [_] | [_, _] | [_, _, _] =>
    simp [admittedAll, Slot.all, operand, Slot.position, admitted_zero]
  | _ :: _ :: _ :: _ :: rest =>
    have hmany : maxOperands < rest.length + 4 := Nat.lt_add_left rest.length (by decide)
    exact absurd hfew (Nat.not_le.mpr hmany)

end Assemble

/-- A line is assembled exactly if its operands are admissible, and then to their encoding. -/
theorem assemble_eq_ok_iff {l : Line} {i : Instruction} :
    l.assemble = .ok i ↔
      ∃ d : Decoded, l.operation? = some d.operation ∧ l.operands.rightpad 3 0 = d.values ∧
        d.Admissible ∧ d.encode = i := by
  simp only [Decoded.values, rightpad_operands_eq_iff, Decoded.admissible_iff]
  constructor
  · intro h
    cases hop : l.operation? with
    | none =>
      rw [assemble_of_unknown hop] at h
      cases h
    | some op =>
      rcases Nat.lt_or_ge maxOperands l.operands.length with hmany | hfew
      · rw [assemble_of_many hop hmany] at h
        cases h
      · rw [assemble_of_padded hop hfew] at h
        obtain ⟨a, ha, h⟩ := bind_eq_ok_iff.mp h
        obtain ⟨b, hb, h⟩ := bind_eq_ok_iff.mp h
        obtain ⟨c, hc, h⟩ := bind_eq_ok_iff.mp h
        obtain ⟨hadmits_a, ha⟩ := admitted_eq_ok_iff.mp ha
        obtain ⟨hadmits_b, hb⟩ := admitted_eq_ok_iff.mp hb
        obtain ⟨hadmits_c, hc⟩ := admitted_eq_ok_iff.mp hc
        refine ⟨⟨op, a, b, c⟩, rfl, ⟨hfew, ha.symm, hb.symm, hc.symm⟩, ?_, Except.ok.inj h⟩
        rintro (_ | _ | _)
        · exact hadmits_a
        · exact hadmits_b
        · exact hadmits_c
  · rintro ⟨⟨op, a, b, c⟩, hop, ⟨hcount, ha, hb, hc⟩, hadmits, rfl⟩
    have ha := admitted_eq_ok_iff.mpr ⟨hadmits .a, ha.symm⟩
    have hb := admitted_eq_ok_iff.mpr ⟨hadmits .b, hb.symm⟩
    have hc := admitted_eq_ok_iff.mpr ⟨hadmits .c, hc.symm⟩
    rw [assemble_of_padded hop hcount]
    exact bind_eq_ok_iff.mpr ⟨a, ha, bind_eq_ok_iff.mpr ⟨b, hb, bind_eq_ok_iff.mpr ⟨c, hc, rfl⟩⟩⟩

end Line

/-! ### The two tables agree -/

/-- What is written comes back from the codec: with zeros for those left out, the operands are
three numbers of 32 bits, and what they are encoded to decodes to them. -/
structure Survives (op : Operation) (operands : List Int) (d : Decoded) : Prop where
  operation : d.operation = op
  values : operands.rightpad 3 0 = d.values
  round_trip : d.encode.decode = d

theorem ofLine_eq_instruction_iff_assemble {l : Line} {number : Nat} {i : Instruction} :
    Item.ofLine number l = .instruction i ↔ l.assemble = .ok i := by
  rw [Item.ofLine]
  split <;> simp [*]

theorem ofLine_eq_diagnostic_iff {l : Line} {number line : Nat} {fault : Fault} :
    Item.ofLine number l = .diagnostic line fault ↔
      number = line ∧ l.assemble = .error fault := by
  rw [Item.ofLine]
  split <;> simp [*]

/-- **Assembly accepts exactly what the codec keeps.**  A line that names a recognized operation,
in whatever case, comes to an instruction exactly if its operands survive the codec.  The
instruction is then their encoding, and it decodes to the operands as they are written.  In all
other cases there is a diagnostic and no instruction.  Operands beyond the third never survive,
since padding does not take them away. -/
theorem ofLine_eq_instruction_iff {l : Line} {op : Operation}
    (hname : l.name.toList.map Char.toUpper = op.mnemonic.toList) (hop : op ≠ .null)
    (number : Nat) :
    (∀ i, Item.ofLine number l = .instruction i ↔
        ∃ d, Survives op l.operands d ∧ d.encode = i) ∧
      (∀ i, Item.ofLine number l = .instruction i →
        i.decode.operation = op ∧ i.decode.values = l.operands.rightpad 3 0) ∧
      ((¬ ∃ d, Survives op l.operands d) →
        ∃ fault, Item.ofLine number l = .diagnostic number fault) := by
  have hoperation : l.operation? = some op := Line.operation?_eq_some_iff.mpr ⟨hname, hop⟩
  have hassemble : ∀ i, Item.ofLine number l = .instruction i ↔
      ∃ d, Survives op l.operands d ∧ d.encode = i := by
    intro i
    rw [ofLine_eq_instruction_iff_assemble, Line.assemble_eq_ok_iff, hoperation]
    constructor
    · rintro ⟨d, hd, hvalues, hadmissible, rfl⟩
      exact ⟨d, ⟨(Option.some.inj hd).symm, hvalues, Decoded.decode_encode hadmissible⟩, rfl⟩
    · rintro ⟨d, ⟨rfl, hvalues, hround⟩, rfl⟩
      exact ⟨d, rfl, hvalues, Decoded.decode_encode_iff.mp hround, rfl⟩
  refine ⟨hassemble, ?_, ?_⟩
  · intro i hi
    obtain ⟨d, ⟨rfl, hvalues, hround⟩, rfl⟩ := (hassemble i).mp hi
    rw [hround, hvalues]
    exact ⟨rfl, rfl⟩
  · intro hnone
    cases hitem : Item.ofLine number l with
    | instruction i =>
      obtain ⟨d, hd, -⟩ := (hassemble i).mp hitem
      exact absurd ⟨d, hd⟩ hnone
    | diagnostic line fault =>
      rw [Item.ofLine] at hitem
      split at hitem
      · cases hitem
      · cases hitem
        exact ⟨fault, rfl⟩

/-- The least jump distance that there is, under a name in mixed case and with `C` left out. -/
theorem ofLine_eq_instruction_least_distance :
    ("ForLoop".toList.map Char.toUpper = Operation.forLoop.mnemonic.toList ∧
        Operation.forLoop ≠ .null) ∧
      Item.ofLine 7 { name := "ForLoop", operands := [3, -131071] } =
        .instruction (Decoded.mk .forLoop 3 (-131071) 0).encode := by
  have hname : "ForLoop".toList.map Char.toUpper = Operation.forLoop.mnemonic.toList := by decide
  have hop : Operation.forLoop ≠ .null := by decide
  have hline := ofLine_eq_instruction_iff (l := ⟨"ForLoop", [3, -131071]⟩) hname hop 7
  have hsurvives : Survives .forLoop [3, -131071] ⟨.forLoop, 3, -131071, 0⟩ :=
    ⟨rfl, by decide, by decide⟩
  exact ⟨⟨hname, hop⟩, (hline.1 _).mpr ⟨_, hsurvives, rfl⟩⟩

end Assembly
end OpWord
